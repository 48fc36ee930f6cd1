import Mosec.Restarts

namespace Mosec

open Function (update update_self update_of_ne)
open Transition (Reachable)

namespace Popen

theorem exited_poll (p : Popen) : p.poll.exited = p.exited := rfl

theorem exited_terminate (p : Popen) : p.terminate.exited = p.exited := by
  unfold terminate
  split <;> rfl

theorem exited_kill (p : Popen) : p.kill.exited = p.exited := by
  unfold kill
  split <;> rfl

theorem any_exited_map {f : Popen → Popen} (hf : ∀ p, (f p).exited = p.exited)
    (process : Option Popen) : (process.map f).any exited = process.any exited := by
  cases process with
  | none => rfl
  | some p => exact hf p

end Popen

def Station.startsNone : Station → Bool
  | .spawn => false
  | .start _ _ => false
  | _ => true

def Station.early : Station → Bool
  | .launch => true
  | .spawn => true
  | .check _ => true
  | .scan _ _ => true
  | .start _ _ => true
  | .failed _ => true
  | _ => false

theorem Station.startsNone_of_late {station : Station} (h : station.early = false) :
    station.startsNone = true := by
  cases station <;> first | rfl | cases h

namespace Supervisor

variable {d : Deployment} {s s₀ s' : Supervisor} {a : SupervisorAction} {r : ℕ}

def Dead (s : Supervisor) (r : ℕ) : Prop :=
  ∀ p < s.born, (s.children p).runtime = r → (s.children p).exited = true

theorem Dead.of_grows (h : Dead s r) (hgrows : Grows s s')
    (hborn : ∀ p, s.born ≤ p → p < s'.born → (s'.children p).runtime ≠ r) : Dead s' r := by
  intro p hp hrun
  by_cases hold : p < s.born
  · rw [hgrows.runtime p hold] at hrun
    exact hgrows.exited p hold (h p hold hrun)
  · exact absurd hrun (hborn p (by omega) hp)

theorem Dead.look (h : Dead s r) (hslots : Slots d s) (w : ℕ) : s.look r w = none := by
  by_contra hsome
  obtain ⟨p, hp⟩ := Option.ne_none_iff_exists'.mp hsome
  obtain ⟨hpool, hlive⟩ := look_eq_some.mp hp
  obtain ⟨hborn, hrun, -⟩ := hslots.pooled.held hpool
  rw [h p hborn hrun] at hlive
  cases hlive

/-- Where the main process can be while a stage is dead. -/
def Short (s : Supervisor) (r : ℕ) : Prop :=
  match s.station with
  | .check j => j ≤ r
  | .scan j seen => j ≤ r ∧ (j = r → ∀ w p : ℕ, seen[w]? ≠ some (some p))
  | .start j _ => j < r
  | .daemons _ => s.serverShutdown = true
  | .sleep _ => s.serverShutdown = true
  | _ => True

theorem Short.of_frame (h : Short s r) (hstation : s'.station = s.station)
    (hshutdown : s.serverShutdown = true → s'.serverShutdown = true) : Short s' r := by
  unfold Short at h ⊢
  rw [hstation]
  split at h
  case h_4 => exact hshutdown h
  case h_5 => exact hshutdown h
  all_goals exact h

theorem short_of_outside (h : s.station.inRound = false) : Short s r := by
  unfold Short
  split <;> first | trivial | simp only [Station.inRound, *] at h; cases h

theorem Short.assess (h : Short s r) (hlater : s.init = false) {j : ℕ} {seen : List (Option ℕ)}
    {runtime : PyRuntime} (hs : s.station = .scan j seen) (pool : ℕ → ℕ → Option ℕ) :
    Short { s with
      pool := pool
      station := assess s.init j runtime.num fun workerId => seen[workerId]?.join } r := by
  simp only [Short, hs] at h
  obtain ⟨hle, hnone⟩ := h
  have hpos := runtime.num_pos
  have hempty : j = r → ∀ w : ℕ, seen[w]?.join = none := by
    intro hj w
    by_contra hsome
    obtain ⟨p, hp⟩ := Option.ne_none_iff_exists'.mp hsome
    exact hnone hj w p (Option.join_eq_some_iff.mp hp)
  obtain ⟨hall, heq⟩ | ⟨-, -, heq⟩ | ⟨hany, heq⟩ :=
    assess_cases s.init j runtime.num fun workerId => seen[workerId]?.join
  · rw [heq]
    have hne : j ≠ r := by
      intro hj
      have h0 := hall 0 (by omega)
      rw [hempty hj] at h0
      cases h0
    simp only [Short]
    omega
  · rw [heq]
    exact short_of_outside rfl
  · rw [heq]
    have hne : j ≠ r := by
      intro hj
      obtain hinit | ⟨w, -, hw⟩ := hany
      · rw [hlater] at hinit
        cases hinit
      · rw [hempty hj] at hw
        cases hw
    simp only [Short]
    omega

theorem Short.move (h : Short s r) (hlater : s.init = false) (hdead : Dead s r)
    (hslots : Slots d s) (hr : r < d.runtimes.length) (hm : Move d s a s') : Short s' r := by
  cases hm
  case stage j hs hj =>
    simp only [Short, hs] at h
    exact ⟨h, fun _ w p hw => by simp at hw⟩
  case checked j hs hj =>
    simp only [Short, hs] at h
    omega
  case look j seen runtime hs hj hlen =>
    simp only [Short, hs] at h
    refine ⟨h.1, ?_⟩
    rintro rfl w p hw
    rw [hdead.look hslots] at hw
    by_cases hlt : w < seen.length
    · rw [List.getElem?_append_left hlt] at hw
      exact h.2 rfl w p hw
    · rw [List.getElem?_append_right (by omega), List.getElem?_singleton] at hw
      split at hw <;> cases hw
  case assess j seen runtime hs hj hnum => exact h.assess hlater hs _
  case started j hs =>
    simp only [Short, hs] at h
    exact h
  case start j workerId ids hs =>
    simp only [Short, hs] at h
    exact h
  case failed j hs => exact rfl
  case daemons i hs hi =>
    simp only [Short, hs] at h
    simp only [Short, h, Bool.true_or]
  case service i hs hi =>
    simp only [Short, hs] at h
    simp only [Short, h, Bool.true_or]
  case launch hs =>
    apply short_of_outside
    dsimp only
    split <;> rfl
  case guard hs =>
    by_cases hshutdown : s.serverShutdown = true
    · exact short_of_outside (by simp [hshutdown, Station.inRound])
    · simp only [Short, if_neg hshutdown]
      omega
  case childExit p hp => exact h.of_frame rfl id
  case serviceExit p hp => exact h.of_frame rfl id
  case daemonExit i => exact h.of_frame rfl id
  case signal => exact h.of_frame rfl fun _ => rfl
  case tick => exact h.of_frame rfl id
  all_goals exact short_of_outside rfl

theorem Move.births (hm : Move d s a s') : s'.born = s.born ∨
    ∃ j w ids, s.station = .start j (w :: ids) ∧ s'.born = s.born + 1 ∧
      s'.children s.born = ⟨j, w, false⟩ := by
  cases hm
  case start j w ids hs => exact .inr ⟨j, w, ids, hs, rfl, update_self _ _ _⟩
  all_goals exact .inl rfl

theorem Move.later (hm : Move d s a s') (h : s.init = false) : s'.init = false := by
  cases hm <;> first | rfl | exact h

structure Doomed (s₀ : Supervisor) (r : ℕ) (s : Supervisor) : Prop where
  later : s.init = false
  dead : Dead s r
  extinct : ∀ p < s.born, (s.children p).runtime = r → p < s₀.born
  short : Short s r

theorem Doomed.move (h : Doomed s₀ r s) (hslots : Slots d s)
    (hr : r < d.runtimes.length) (hm : Move d s a s') : Doomed s₀ r s' := by
  have hgrows := hm.grows
  have hnew : ∀ p, s.born ≤ p → p < s'.born → (s'.children p).runtime ≠ r := by
    intro p hp hp'
    obtain hsame | ⟨j, w, ids, hs, hsucc, hchild⟩ := hm.births
    · omega
    · have hshort := h.short
      simp only [Short, hs] at hshort
      obtain rfl : p = s.born := by omega
      rw [hchild]
      exact hshort.ne
  refine ⟨hm.later h.later, h.dead.of_grows hgrows hnew, ?_,
    h.short.move h.later h.dead hslots hr hm⟩
  intro p hp hrun
  by_cases hold : p < s.born
  · exact h.extinct p hold ((hgrows.runtime p hold).symm.trans hrun)
  · exact absurd hrun (hnew p (by omega) hp)

theorem dead_stage_stops_service (hs₀ : Run d s₀) (hguard : s₀.station = .guard)
    (hlater : s₀.init = false) (hr : r < d.runtimes.length) (hdead : Dead s₀ r)
    (hs : Reachable (step d) (fun _ _ => True) s₀ s) :
    (∀ p < s.born, (s.children p).runtime = r → p < s₀.born) ∧
    (∀ wake, s.station = .sleep wake → s.serverShutdown = true) := by
  have hdoomed : Doomed s₀ r s := by
    refine hs.invariant_of (fun _ => id) ?_ fun t a t' ht _ h _ hstep => ?_
    · exact ⟨hlater, hdead, fun p hp _ => hp, short_of_outside (by rw [hguard]; rfl)⟩
    · exact h.move (slots_of_run (run_trans hs₀ ht)) hr (move_of_step hstep)
  refine ⟨hdoomed.extinct, fun wake hsleep => ?_⟩
  have hshort := hdoomed.short
  simpa only [Short, hsleep] using hshort

def Failure (d : Deployment) (s : Supervisor) : Prop :=
  (∃ i < d.daemons, s.daemonExited i = true) ∨ s.process.any Popen.exited = true ∨
    ∃ r < d.runtimes.length, Dead s r ∧ ∃ p < s.born, (s.children p).runtime = r

structure Blamed (d : Deployment) (s : Supervisor) : Prop where
  begun : s.init = false → ∀ r < d.runtimes.length, ∃ p < s.born, (s.children p).runtime = r
  failed : ∀ r, s.station = .failed r → s.init = false ∧ r < d.runtimes.length ∧ Dead s r
  blamed : s.serverShutdown = true → Failure d s ∧ s.station.early = false
  halting : s.station = .halt → s.serverShutdown = true

theorem Move.late (hm : Move d s a s') (h : s.serverShutdown = true)
    (hearly : s.station.early = false) : s'.station.early = false := by
  cases hm <;> simp_all [Station.early]

theorem Move.daemonExited (hm : Move d s a s') {i : ℕ} (h : s.daemonExited i = true) :
    s'.daemonExited i = true := by
  cases hm
  case daemonExit k =>
    by_cases hi : i = k
    · simp only [hi, update_self]
    · simpa only [update_of_ne hi] using h
  all_goals exact h

theorem Move.processExited (hm : Move d s a s') (hspawn : s.station ≠ .spawn)
    (h : s.process.any Popen.exited = true) : s'.process.any Popen.exited = true := by
  cases hm
  case spawn hs => exact absurd hs hspawn
  case service i hs hi => exact (Popen.any_exited_map Popen.exited_poll _).trans h
  case exited deadline hs _ => exact (Popen.any_exited_map Popen.exited_poll _).trans h
  case nap deadline hs _ => exact (Popen.any_exited_map Popen.exited_poll _).trans h
  case terminate p hs hp =>
    rw [hp] at h
    exact (Popen.exited_terminate p).trans h
  case reap deadline hs =>
    dsimp only
    split
    · exact (Popen.any_exited_map Popen.exited_kill _).trans h
    · exact h
  case serviceExit p hp => rfl
  all_goals exact h

theorem Failure.move (h : Failure d s) (hnone : s.station.startsNone = true) (hm : Move d s a s') :
    Failure d s' := by
  have hborn : s'.born = s.born := by
    obtain hsame | ⟨j, w, ids, hs, -⟩ := hm.births
    · exact hsame
    · rw [hs] at hnone
      cases hnone
  obtain ⟨i, hi, hexited⟩ | hexited | ⟨r, hr, hdead, p, hp, hrun⟩ := h
  · exact .inl ⟨i, hi, hm.daemonExited hexited⟩
  · refine .inr (.inl (hm.processExited ?_ hexited))
    intro hs
    rw [hs] at hnone
    cases hnone
  · refine .inr (.inr ⟨r, hr, hdead.of_grows hm.grows (by omega), p, by omega, ?_⟩)
    rw [hm.grows.runtime p hp, hrun]

theorem dead_of_empty (h : Slots d s) {runtime : PyRuntime} (hr : d.runtimes[r]? = some runtime)
    (hnone : ∀ w < runtime.num, s.pool r w = none) : Dead s r := by
  intro p hp hrun
  by_contra hlive
  have hplaced := h.pooled.placed hp (by simpa using hlive)
  obtain ⟨runtime', hr', hw⟩ := h.pooled.housed hp
  rw [hrun] at hplaced hr'
  rw [hr] at hr'
  cases hr'
  rw [hnone _ hw] at hplaced
  cases hplaced

theorem begun_of_full (h : Slots d s) (hfull : ∀ j, Full d (fun _ => True) s j) :
    ∀ r < d.runtimes.length, ∃ p < s.born, (s.children p).runtime = r := by
  intro r hr
  obtain ⟨p, hp, -⟩ := hfull r d.runtimes[r] (List.getElem?_eq_getElem hr) 0
    d.runtimes[r].num_pos
  obtain ⟨hborn, hrun, -⟩ := h.pooled.held hp
  exact ⟨p, hborn, hrun⟩

theorem Move.reports (hm : Move d s a s') (ha : a ≠ .signal) (h : s.serverShutdown = false)
    (h' : s'.serverShutdown = true) :
    s.station.startsNone = true ∧ s'.station.early = false ∧
      ((∃ r, s.station = .failed r) ∨ (∃ i < d.daemons, s.daemonExited i = true) ∨
        s.process.any Popen.exited = true) := by
  cases hm
  case failed r hs => exact ⟨by rw [hs]; rfl, rfl, .inl ⟨r, hs⟩⟩
  case daemons i hs hi =>
    simp only [h, Bool.false_or] at h'
    exact ⟨by rw [hs]; rfl, rfl, .inr (.inl ⟨i, hi, h'⟩)⟩
  case service i hs hi =>
    simp only [h, Bool.false_or] at h'
    exact ⟨by rw [hs]; rfl, rfl, .inr (.inr h')⟩
  case signal => exact absurd rfl ha
  all_goals cases h.symm.trans h'

theorem Move.fails (hm : Move d s a s') (hs' : s'.station = .failed r) :
    s.station = .failed r ∨ s'.init = false ∧
      ∃ runtime, d.runtimes[r]? = some runtime ∧ ∀ w < runtime.num, s'.pool r w = none := by
  cases hm
  case assess j seen runtime hs hj hnum =>
    dsimp only at hs'
    obtain ⟨-, heq⟩ | ⟨hinit, hnone, heq⟩ | ⟨-, heq⟩ :=
      assess_cases s.init j runtime.num fun workerId => seen[workerId]?.join <;>
      cases heq.symm.trans hs'
    refine .inr ⟨hinit, runtime, hj, fun w hw => ?_⟩
    simp only [update_self]
    exact hnone w hw
  case launch hs =>
    dsimp only at hs'
    split at hs' <;> cases hs'
  case guard hs =>
    dsimp only at hs'
    split at hs' <;> cases hs'
  case childExit p hp => exact .inl hs'
  case serviceExit p hp => exact .inl hs'
  case daemonExit i => exact .inl hs'
  case signal => exact .inl hs'
  case tick => exact .inl hs'
  all_goals cases hs'

theorem Move.halts (hm : Move d s a s') (ha : a ≠ .raises) (hs' : s'.station = .halt) :
    s.station = .halt ∨ s.serverShutdown = true ∧ s'.serverShutdown = true := by
  cases hm
  case guard hs =>
    by_cases hshutdown : s.serverShutdown = true
    · exact .inr ⟨hshutdown, hshutdown⟩
    · simp only [if_neg hshutdown] at hs'
      cases hs'
  case assess j seen runtime hs hj hnum =>
    dsimp only at hs'
    obtain ⟨-, heq⟩ | ⟨-, -, heq⟩ | ⟨-, heq⟩ :=
      assess_cases s.init j runtime.num fun workerId => seen[workerId]?.join <;>
      cases heq.symm.trans hs'
  case launch hs =>
    dsimp only at hs'
    split at hs' <;> cases hs'
  case spawnError hs => exact absurd rfl ha
  case startError hs => exact absurd rfl ha
  case childExit p hp => exact .inl hs'
  case serviceExit p hp => exact .inl hs'
  case daemonExit i => exact .inl hs'
  case signal => exact .inl hs'
  case tick => exact .inl hs'
  all_goals cases hs'

theorem Move.ends_first_round (hm : Move d s a s') (h : s.init = true) (h' : s'.init = false) :
    (∃ r, s.station = .check r ∧ d.runtimes.length ≤ r) ∨ ∃ r, s.station = .failed r := by
  cases hm
  case checked r hs hr => exact .inl ⟨r, hs, hr⟩
  case failed r hs => exact .inr ⟨r, hs⟩
  all_goals cases h.symm.trans h'

theorem Move.shutdown_mono (hm : Move d s a s') (h : s.serverShutdown = true) :
    s'.serverShutdown = true := by
  cases hm
  case failed r hs => rfl
  case signal => rfl
  case daemons i hs hi => simp only [h, Bool.true_or]
  case service i hs hi => simp only [h, Bool.true_or]
  all_goals exact h

theorem Blamed.move (h : Blamed d s) (hmended : Mended d (fun _ => True) s) (hslots : Slots d s)
    (hslots' : Slots d s') (hm : Move d s a s') (hsignal : a ≠ .signal) (hraises : a ≠ .raises) :
    Blamed d s' := by
  have hgrows := hm.grows
  constructor
  · intro hinit r hr
    have hbegun : ∃ p < s.born, (s.children p).runtime = r := by
      cases hold : s.init with
      | false => exact h.begun hold r hr
      | true =>
        obtain ⟨j, hs, hj⟩ | ⟨j, hs⟩ := hm.ends_first_round hold hinit
        · simp only [Mended, hs] at hmended
          refine begun_of_full hslots (fun k => ?_) r hr
          by_cases hk : k < j
          · exact hmended k hk
          · exact full_of_le (by omega)
        · rw [(h.failed j hs).1] at hold
          cases hold
    obtain ⟨p, hp, hrun⟩ := hbegun
    have hborn := hgrows.born
    exact ⟨p, by omega, (hgrows.runtime p hp).trans hrun⟩
  · intro r hs'
    obtain hs | ⟨hinit, runtime, hr, hnone⟩ := hm.fails hs'
    · obtain ⟨hinit, hr, hdead⟩ := h.failed r hs
      refine ⟨hm.later hinit, hr, hdead.of_grows hgrows fun p hp hp' => ?_⟩
      obtain hsame | ⟨j, w, ids, hstart, -⟩ := hm.births
      · omega
      · cases hs.symm.trans hstart
    · exact ⟨hinit, (List.getElem?_eq_some_iff.mp hr).1, dead_of_empty hslots' hr hnone⟩
  · intro hshutdown
    cases hold : s.serverShutdown with
    | true =>
      obtain ⟨hfailure, hearly⟩ := h.blamed hold
      exact ⟨hfailure.move (Station.startsNone_of_late hearly) hm, hm.late hold hearly⟩
    | false =>
      obtain ⟨hnone, hearly, hcause⟩ := hm.reports hsignal hold hshutdown
      have hfailure : Failure d s := by
        obtain ⟨r, hs⟩ | hexited | hexited := hcause
        · obtain ⟨hinit, hr, hdead⟩ := h.failed r hs
          exact .inr (.inr ⟨r, hr, hdead, h.begun hinit r hr⟩)
        · exact .inl hexited
        · exact .inr (.inl hexited)
      exact ⟨hfailure.move hnone hm, hearly⟩
  · intro hs'
    obtain hs | ⟨-, hshutdown⟩ := hm.halts hraises hs'
    · exact hm.shutdown_mono (h.halting hs)
    · exact hshutdown

theorem halts_for_failure
    (hs : Reachable (step d) (fun _ a => a ≠ .signal ∧ a ≠ .raises) new s)
    (hhalt : s.station = .halt) :
    (∃ i < d.daemons, s.daemonExited i = true) ∨ s.process.any Popen.exited = true ∨
      ∃ r < d.runtimes.length, (∃ p < s.born, (s.children p).runtime = r) ∧
        ∀ p < s.born, (s.children p).runtime = r → (s.children p).exited = true := by
  have hrun : ∀ t, Reachable (step d) (fun _ a => a ≠ .signal ∧ a ≠ .raises) new t → Run d t :=
    fun t ht => ht.mono fun _ _ _ => trivial
  have hmended : ∀ t, Run d t → Mended d (fun _ => True) t := by
    intro t ht
    refine ht.invariant_of (fun _ => id) (mended_of_outside rfl) fun t a t' ht _ h _ hstep => ?_
    exact h.move (slots_of_run ht) (fun _ _ _ => trivial) trivial (move_of_step hstep)
  have hblamed : Blamed d s := by
    refine hs.invariant_of hrun ?_ fun t a t' ht ht' h hok hstep => ?_
    · refine ⟨?_, ?_, ?_, ?_⟩
      · intro hinit
        cases hinit
      · intro r hs
        cases hs
      · intro hshutdown
        cases hshutdown
      · intro hs
        cases hs
    · exact h.move (hmended t ht) (slots_of_run ht) (slots_of_run ht') (move_of_step hstep)
        hok.1 hok.2
  obtain ⟨hfailure, -⟩ := hblamed.blamed (hblamed.halting hhalt)
  obtain hexited | hexited | ⟨r, hr, hdead, hbegun⟩ := hfailure
  · exact .inl hexited
  · exact .inr (.inl hexited)
  · exact .inr (.inr ⟨r, hr, hbegun, hdead⟩)

theorem dead_stage_stops_service_pair : ∃ s₀ s,
    Transition.run (step pair) new (firstLoss ++ [.childExit 1]) = some s₀ ∧
      Transition.run (step pair) s₀ (List.replicate 7 .main) = some s ∧
      s.serverShutdown = true ∧ ∀ p < s.born, (s.children p).runtime = 0 → p < 2 := by
  have hview : ((Transition.run (step pair) new (firstLoss ++ [.childExit 1])).bind fun s₀ =>
      (Transition.run (step pair) s₀ (List.replicate 7 .main)).map fun s =>
        ((s₀.station, s₀.init, s₀.born), s₀.children 0, s₀.children 1, s.station)) =
      some ((.guard, false, 2), ⟨0, 0, true⟩, ⟨0, 1, true⟩, .sleep 2) := by
    decide
  obtain ⟨s₀, hs₀, hrest⟩ := Option.bind_eq_some_iff.mp hview
  obtain ⟨s, hs, hfields⟩ := Option.map_eq_some_iff.mp hrest
  simp only [Prod.mk.injEq] at hfields
  obtain ⟨⟨hguard, hlater, hborn⟩, hfirst, hsecond, hsleep⟩ := hfields
  have hdead : ∀ p < s₀.born, (s₀.children p).runtime = 0 → (s₀.children p).exited = true := by
    intro p hp _
    obtain rfl | rfl : p = 0 ∨ p = 1 := by omega
    · rw [hfirst]
    · rw [hsecond]
  obtain ⟨hextinct, hover⟩ := dead_stage_stops_service (Transition.reachable_of_run hs₀) hguard
    hlater (show 0 < pair.runtimes.length by decide) hdead (Transition.reachable_of_run hs)
  rw [hborn] at hextinct
  exact ⟨s₀, s, hs₀, hs, hover 2 hsleep, hextinct⟩

def serviceLoss : List SupervisorAction :=
  [.main, .main, .serviceExit] ++ List.replicate 10 .main ++ [.tick, .main, .main]

theorem halts_for_failure_service : ∃ s, Transition.run (step pair) new serviceLoss = some s ∧
    Failure pair s := by
  have hchecked : Transition.checked (step pair) (fun _ a => a ≠ .signal ∧ a ≠ .raises) new
      serviceLoss = true := by
    decide
  have hview : (Transition.run (step pair) new serviceLoss).map station = some .halt := by
    decide
  obtain ⟨s, hrun, hs, hhalt⟩ := Reachable.of_checked
    (fun _ _ h => of_decide_eq_true h) hchecked hview
  refine ⟨s, hrun, ?_⟩
  obtain hexited | hexited | ⟨r, hr, hbegun, hdead⟩ := halts_for_failure hs hhalt
  · exact .inl hexited
  · exact .inr (.inl hexited)
  · exact .inr (.inr ⟨r, hr, hdead, hbegun⟩)

end Supervisor

end Mosec
