import Mosec.FailStop

namespace Mosec

open Function (update update_self update_of_ne)
open Transition (Reachable)

def Station.phase : Station → ℕ
  | .terminate => 1
  | .grace _ => 2
  | .poll _ => 2
  | .nap _ _ => 2
  | .reap _ => 2
  | .release => 3
  | .cleanup => 4
  | .finished => 5
  | _ => 0

namespace Popen

structure Signalled (p : Popen) (phase : ℕ) : Prop where
  polled : p.polled = true → p.exited = true
  terminated : p.terminated = true → 1 ≤ phase
  stopped : 3 ≤ phase → p.exited = true ∨ p.killed = true

variable {p : Popen} {phase phase' : ℕ}

theorem signalled_new : new.Signalled 0 := by
  constructor
  · intro hp
    cases hp
  · intro hp
    cases hp
  · intro hphase
    omega

theorem Signalled.mono (h : p.Signalled phase) (hle : phase ≤ phase')
    (hstopped : 3 ≤ phase' → p.exited = true ∨ 3 ≤ phase) : p.Signalled phase' := by
  refine ⟨h.polled, fun hp => (h.terminated hp).trans hle, fun hphase => ?_⟩
  obtain hexited | hphase := hstopped hphase
  · exact .inl hexited
  · exact h.stopped hphase

theorem Signalled.poll (h : p.Signalled phase) : p.poll.Signalled phase := by
  refine ⟨fun hp => ?_, h.terminated, h.stopped⟩
  simp only [Popen.poll, Bool.or_eq_true] at hp ⊢
  exact hp.elim h.polled id

theorem Signalled.terminate (h : p.Signalled 1) : p.terminate.Signalled 2 := by
  have hpoll : p.poll.Signalled 2 := h.poll.mono (by omega) fun hphase => by omega
  unfold Popen.terminate
  split
  · exact hpoll
  · exact ⟨hpoll.polled, fun _ => by omega, hpoll.stopped⟩

theorem Signalled.kill (h : p.Signalled 2) : p.kill.Signalled 3 := by
  unfold Popen.kill
  split
  · next hpolled => exact h.poll.mono (by omega) fun _ => .inl (h.poll.polled hpolled)
  · exact ⟨h.poll.polled, fun _ => by omega, fun _ => .inr rfl⟩

theorem Signalled.exit (h : p.Signalled phase) : Signalled { p with exited := true } phase :=
  ⟨fun _ => rfl, h.terminated, fun _ => .inl rfl⟩

end Popen

namespace Supervisor

variable {d : Deployment} {s s' : Supervisor} {a : SupervisorAction}

structure Ordered (s : Supervisor) : Prop where
  notify : s.shutdownNotify = true ↔ 1 ≤ s.station.phase
  shutdown : s.shutdown = true ↔ 4 ≤ s.station.phase
  cleaned : s.cleaned = true ↔ 5 ≤ s.station.phase
  process : ∀ p, s.process = some p → p.Signalled s.station.phase
  reap : ∀ deadline, s.station = .reap deadline →
    deadline ≤ s.now ∨ s.process.any Popen.exited = true

theorem phase_assess (init : Bool) (r num : ℕ) (pool : ℕ → Option ℕ) :
    (assess init r num pool).phase = 0 := by
  obtain ⟨-, heq⟩ | ⟨-, -, heq⟩ | ⟨-, heq⟩ := assess_cases init r num pool <;> rw [heq] <;> rfl

theorem Ordered.of_frame (h : Ordered s) (hphase : s'.station.phase = s.station.phase)
    (hnotify : s'.shutdownNotify = s.shutdownNotify) (hshutdown : s'.shutdown = s.shutdown)
    (hcleaned : s'.cleaned = s.cleaned)
    (hprocess : ∀ p', s'.process = some p' → p'.Signalled s.station.phase)
    (hreap : ∀ deadline, s'.station = .reap deadline →
      deadline ≤ s'.now ∨ s'.process.any Popen.exited = true) : Ordered s' := by
  constructor
  · rw [hnotify, hphase]
    exact h.notify
  · rw [hshutdown, hphase]
    exact h.shutdown
  · rw [hcleaned, hphase]
    exact h.cleaned
  · rw [hphase]
    exact hprocess
  · exact hreap

theorem Ordered.polls (h : Ordered s) :
    ∀ p', s.process.map Popen.poll = some p' → p'.Signalled s.station.phase := by
  intro p' hp'
  obtain ⟨p, hp, rfl⟩ := Option.map_eq_some_iff.mp hp'
  exact (h.process p hp).poll

theorem Ordered.move (h : Ordered s) (hm : Move d s a s')
    (hok : s.station = .reap s.now → a ≠ .main) : Ordered s' := by
  have hprocess := h.process
  cases hm
  case launch hs =>
    refine h.of_frame ?_ rfl rfl rfl hprocess fun deadline hs' => ?_
    · dsimp only
      split <;> rw [hs] <;> rfl
    · dsimp only at hs'
      split at hs' <;> cases hs'
  case guard hs =>
    refine h.of_frame ?_ rfl rfl rfl hprocess fun deadline hs' => ?_
    · dsimp only
      split <;> rw [hs] <;> rfl
    · dsimp only at hs'
      split at hs' <;> cases hs'
  case spawn hs =>
    refine h.of_frame (by rw [hs]; rfl) rfl rfl rfl ?_ fun deadline hs' => by cases hs'
    intro p hp
    cases hp
    rw [hs]
    exact Popen.signalled_new
  case assess r seen runtime hs hr hnum =>
    refine h.of_frame ?_ rfl rfl rfl hprocess fun deadline hs' => ?_
    · rw [hs]
      exact phase_assess _ _ _ _
    · have hphase := phase_assess s.init r runtime.num fun workerId => seen[workerId]?.join
      rw [show assess _ _ _ _ = Station.reap deadline from hs'] at hphase
      cases hphase
  case service i hs hi =>
    exact h.of_frame (by rw [hs]; rfl) rfl rfl rfl h.polls fun deadline hs' => by cases hs'
  case nap deadline hs hexited =>
    exact h.of_frame (by rw [hs]; rfl) rfl rfl rfl h.polls fun deadline hs' => by cases hs'
  case exited deadline hs hexited =>
    refine h.of_frame (by rw [hs]; rfl) rfl rfl rfl h.polls fun _ _ => .inr ?_
    exact (Popen.any_exited_map Popen.exited_poll _).trans hexited
  case expired deadline hs hnow =>
    refine h.of_frame (by rw [hs]; rfl) rfl rfl rfl hprocess fun deadline' hs' => ?_
    cases hs'
    exact .inl hnow
  case halt hs =>
    obtain ⟨hnotify, hshutdown, hcleaned, -, -⟩ := h
    rw [hs] at hshutdown hcleaned hprocess
    refine ⟨⟨fun _ => le_rfl, fun _ => rfl⟩, hshutdown.trans (by simp [Station.phase]),
      hcleaned.trans (by simp [Station.phase]), ?_, fun deadline hs' => by cases hs'⟩
    exact fun p hp => (hprocess p hp).mono (Nat.zero_le _) fun hphase => by
      simp [Station.phase] at hphase
  case terminate p hs hp =>
    obtain ⟨hnotify, hshutdown, hcleaned, -, -⟩ := h
    rw [hs] at hnotify hshutdown hcleaned hprocess
    refine ⟨hnotify.trans (by simp [Station.phase]), hshutdown.trans (by simp [Station.phase]),
      hcleaned.trans (by simp [Station.phase]), ?_, fun deadline hs' => by cases hs'⟩
    intro p' hp'
    cases hp'
    exact (hprocess p hp).terminate
  case absent hs hp =>
    obtain ⟨hnotify, hshutdown, hcleaned, -, -⟩ := h
    rw [hs] at hnotify hshutdown hcleaned
    refine ⟨hnotify.trans (by simp [Station.phase]), hshutdown.trans (by simp [Station.phase]),
      hcleaned.trans (by simp [Station.phase]), ?_, fun deadline hs' => by cases hs'⟩
    intro p' hp'
    cases hp.symm.trans hp'
  case reap deadline hs =>
    have hreap := h.reap deadline hs
    obtain ⟨hnotify, hshutdown, hcleaned, -, -⟩ := h
    rw [hs] at hnotify hshutdown hcleaned hprocess
    refine ⟨hnotify.trans (by simp [Station.phase]), hshutdown.trans (by simp [Station.phase]),
      hcleaned.trans (by simp [Station.phase]), ?_, fun deadline hs' => by cases hs'⟩
    intro p' hp'
    dsimp only at hp'
    by_cases hnow : deadline < s.now
    · rw [if_pos hnow] at hp'
      obtain ⟨p, hp, rfl⟩ := Option.map_eq_some_iff.mp hp'
      exact (hprocess p hp).kill
    · rw [if_neg hnow] at hp'
      have hne : s.now ≠ deadline := by
        rintro rfl
        exact hok hs rfl
      have hexited := hreap.resolve_left (by omega)
      rw [hp'] at hexited
      exact (hprocess p' hp').mono (Nat.le_succ 2) fun _ => .inl hexited
  case release hs =>
    obtain ⟨hnotify, hshutdown, hcleaned, -, -⟩ := h
    rw [hs] at hnotify hcleaned hprocess
    refine ⟨hnotify.trans (by simp [Station.phase]), ⟨fun _ => le_rfl, fun _ => rfl⟩,
      hcleaned.trans (by simp [Station.phase]), ?_, fun deadline hs' => by cases hs'⟩
    exact fun p hp => (hprocess p hp).mono (Nat.le_succ 3) fun _ => .inr le_rfl
  case cleanup hs =>
    obtain ⟨hnotify, hshutdown, hcleaned, -, -⟩ := h
    rw [hs] at hnotify hshutdown hprocess
    refine ⟨hnotify.trans (by simp [Station.phase]), hshutdown.trans (by simp [Station.phase]),
      ⟨fun _ => le_rfl, fun _ => rfl⟩, ?_, fun deadline hs' => by cases hs'⟩
    exact fun p hp => (hprocess p hp).mono (Nat.le_succ 4) fun _ => .inr (Nat.le_succ 3)
  case childExit p hp => exact h.of_frame rfl rfl rfl rfl hprocess h.reap
  case daemonExit i => exact h.of_frame rfl rfl rfl rfl hprocess h.reap
  case signal => exact h.of_frame rfl rfl rfl rfl hprocess h.reap
  case tick =>
    refine h.of_frame rfl rfl rfl rfl hprocess fun deadline hs' => ?_
    exact (h.reap deadline hs').imp_left fun hnow => Nat.le_succ_of_le hnow
  case serviceExit p hp =>
    refine h.of_frame rfl rfl rfl rfl ?_ fun _ _ => .inr rfl
    intro p' hp'
    cases hp'
    exact (hprocess p hp).exit
  all_goals
    refine h.of_frame ?_ rfl rfl rfl hprocess fun deadline hs' => by cases hs'
    simp only [‹s.station = _›, Station.phase]

theorem ordered_of_run (hs : Reachable (step d) (fun s a => s.station = .reap s.now → a ≠ .main)
    new s) : Ordered s := by
  refine hs.invariant ?_ fun t a t' h hok hstep => h.move (move_of_step hstep) hok
  refine ⟨by simp [new, Station.phase], by simp [new, Station.phase], by simp [new, Station.phase],
    ?_, ?_⟩
  · intro p hp
    cases hp
  · intro deadline hs
    cases hs

theorem Move.phase_pos (hm : Move d s a s') (h : 1 ≤ s.station.phase) :
    1 ≤ s'.station.phase ∧ s'.born = s.born := by
  cases hm
  case childExit p hp => exact ⟨h, rfl⟩
  case serviceExit p hp => exact ⟨h, rfl⟩
  case daemonExit i => exact ⟨h, rfl⟩
  case signal => exact ⟨h, rfl⟩
  case tick => exact ⟨h, rfl⟩
  all_goals simp [‹s.station = _›, Station.phase] at h ⊢

/-- The workers are told to stop, and the sockets removed, only when the Rust process has stopped
or was killed, which is sent nothing before the workers are warned; from then on no worker is
started. The clock is not read at the deadline itself. -/
theorem workers_outlive_service
    (hs : Reachable (step d) (fun s a => s.station = .reap s.now → a ≠ .main) new s) :
    (s.cleaned = true → s.shutdown = true) ∧
    (s.shutdown = true → ∀ p, s.process = some p → p.exited = true ∨ p.killed = true) ∧
    (∀ p, s.process = some p → p.terminated = true → s.shutdownNotify = true) ∧
    (s.shutdownNotify = true →
      ∀ t, Reachable (step d) (fun _ _ => True) s t → t.born = s.born) := by
  have hordered := ordered_of_run hs
  refine ⟨fun hcleaned => ?_, fun hshutdown p hp => ?_, fun p hp hterminated => ?_,
    fun hnotify t ht => ?_⟩
  · have hphase := hordered.cleaned.mp hcleaned
    exact hordered.shutdown.mpr (by omega)
  · have hphase := hordered.shutdown.mp hshutdown
    exact (hordered.process p hp).stopped (by omega)
  · exact hordered.notify.mpr ((hordered.process p hp).terminated hterminated)
  · have hkeep : 1 ≤ t.station.phase ∧ t.born = s.born := by
      induction ht with
      | init => exact ⟨hordered.notify.mp hnotify, rfl⟩
      | step _ _ hstep ih =>
        obtain ⟨hphase, hborn⟩ := (move_of_step hstep).phase_pos ih.1
        exact ⟨hphase, hborn.trans ih.2⟩
    exact hkeep.2

def killedRun : List SupervisorAction :=
  [.main, .main, .signal] ++ List.replicate 5 .main ++ [.tick, .tick, .tick] ++
    List.replicate 5 .main

theorem workers_outlive_service_killed : ∃ s,
    Transition.run (step pair) new killedRun = some s ∧ s.cleaned = true ∧ s.shutdown = true ∧
      ∀ t, Reachable (step pair) (fun _ _ => True) s t → t.born = s.born := by
  have hchecked : Transition.checked (step pair)
      (fun s a => s.station = .reap s.now → a ≠ .main) new killedRun = true := by
    decide
  have hview : (Transition.run (step pair) new killedRun).map
      (fun s => (s.cleaned, s.shutdownNotify)) = some (true, true) := by
    decide
  obtain ⟨s, hrun, hs, hfields⟩ := Reachable.of_checked
    (fun _ _ h => of_decide_eq_true h) hchecked hview
  simp only [Prod.mk.injEq] at hfields
  obtain ⟨hshutdown, -, -, hborn⟩ := workers_outlive_service hs
  exact ⟨s, hrun, hfields.1, hshutdown hfields.1, hborn hfields.2⟩

end Supervisor

end Mosec
