import Mosec.Halting

namespace Mosec

open Transition (Reachable)

namespace Deployment

def waits (d : Deployment) (period : ℕ) : ℕ := (period + (d.interval - 1)) / d.interval

def stagesLeft (d : Deployment) (r : ℕ) : ℕ :=
  ((d.runtimes.drop r).map fun runtime => 2 * runtime.num + 3).sum

def graceful (d : Deployment) : ℕ := 3 * d.waits d.timeout

def budget (d : Deployment) : ℕ := d.stagesLeft 0 + d.daemons + d.graceful + 10

variable {d : Deployment}

theorem waits_zero (d : Deployment) : d.waits 0 = 0 := by
  have hpos := d.interval_pos
  rw [waits, Nat.div_eq_zero_iff]
  omega

theorem waits_mono {m n : ℕ} (h : m ≤ n) : d.waits m ≤ d.waits n :=
  Nat.div_le_div_right (by omega)

theorem waits_succ {n : ℕ} (h : 0 < n) : d.waits n = d.waits (n - d.interval) + 1 := by
  have hpos := d.interval_pos
  by_cases hn : d.interval ≤ n
  · rw [waits, waits, ← Nat.add_div_right _ hpos]
    congr 1
    omega
  · rw [show n - d.interval = 0 by omega, waits_zero, waits]
    rw [Nat.div_eq_iff hpos]
    omega

theorem stagesLeft_eq {r : ℕ} {runtime : PyRuntime} (hr : d.runtimes[r]? = some runtime) :
    d.stagesLeft r = 2 * runtime.num + 3 + d.stagesLeft (r + 1) := by
  obtain ⟨hlt, rfl⟩ := List.getElem?_eq_some_iff.mp hr
  rw [stagesLeft, List.drop_eq_getElem_cons hlt, List.map_cons, List.sum_cons, stagesLeft]

theorem stagesLeft_le (r : ℕ) : d.stagesLeft r ≤ d.stagesLeft 0 := by
  have hsum := List.sum_take_add_sum_drop (d.runtimes.map fun runtime => 2 * runtime.num + 3) r
  rw [← List.map_drop] at hsum
  rw [stagesLeft, stagesLeft, List.drop_zero]
  omega

end Deployment

namespace Supervisor

variable {d : Deployment} {s s' : Supervisor} {a : SupervisorAction}

/-- A bound for the statements the main process still executes once it is to shut down. -/
def stepsLeft (d : Deployment) (s : Supervisor) : ℕ :=
  match s.station with
  | .launch => 9 + d.graceful
  | .spawn => 8 + d.graceful
  | .guard => 7 + d.graceful
  | .check r => d.stagesLeft r + 10 + d.daemons + d.graceful
  | .scan r seen =>
    match d.runtimes[r]? with
    | none => 0
    | some runtime =>
      runtime.num - seen.length + runtime.num + 2 + d.stagesLeft (r + 1) + 10 + d.daemons +
        d.graceful
  | .start r ids => ids.length + 1 + d.stagesLeft (r + 1) + 10 + d.daemons + d.graceful
  | .failed _ => 10 + d.daemons + d.graceful
  | .daemons i => 9 + (d.daemons - i) + d.graceful
  | .sleep _ => 8 + d.graceful
  | .halt => 6 + d.graceful
  | .terminate => 5 + d.graceful
  | .grace deadline => 4 + 3 * d.waits (deadline - s.now)
  | .poll deadline => 6 + 3 * d.waits (deadline - (s.now + d.interval))
  | .nap deadline wake => 5 + 3 * d.waits (deadline - wake)
  | .reap _ => 3
  | .release => 2
  | .cleanup => 1
  | .finished => 0

theorem length_assessed (num : ℕ) (pool : ℕ → Option ℕ) :
    ((List.range num).filter fun workerId => (pool workerId).isNone).length ≤ num := by
  have hle := List.length_filter_le (fun workerId => (pool workerId).isNone) (List.range num)
  simpa using hle

theorem stepsLeft_assess {init : Bool} {r : ℕ} {runtime : PyRuntime} {pool : ℕ → Option ℕ}
    (hs : s.station = assess init r runtime.num pool) :
    s.stepsLeft d ≤ runtime.num + 1 + d.stagesLeft (r + 1) + 10 + d.daemons + d.graceful := by
  obtain ⟨-, heq⟩ | ⟨-, -, heq⟩ | ⟨-, heq⟩ := assess_cases init r runtime.num pool
  · simp only [stepsLeft, hs, heq]
    omega
  · simp only [stepsLeft, hs, heq]
    omega
  · have hlength := length_assessed runtime.num pool
    simp only [stepsLeft, hs, heq]
    omega

theorem stepsLeft_tick (s : Supervisor) :
    stepsLeft d { s with now := s.now + 1 } ≤ s.stepsLeft d := by
  cases hs : s.station
  case grace deadline =>
    have hwaits := d.waits_mono (show deadline - (s.now + 1) ≤ deadline - s.now by omega)
    simp only [stepsLeft, hs]
    omega
  case poll deadline =>
    have hwaits := d.waits_mono
      (show deadline - (s.now + 1 + d.interval) ≤ deadline - (s.now + d.interval) by omega)
    simp only [stepsLeft, hs]
    omega
  all_goals simp only [stepsLeft, hs, le_refl]

theorem Move.stepsLeft_le (hm : Move d s a s') (hshutdown : s.serverShutdown = true) :
    s'.stepsLeft d + (if a = .main ∨ a = .raises then 1 else 0) ≤ s.stepsLeft d := by
  cases hm
  case launch hs =>
    simp only [stepsLeft, hs, hshutdown, true_or, if_true]
    omega
  case guard hs =>
    simp only [stepsLeft, hs, hshutdown, true_or, if_true]
    omega
  case stage r hs hr =>
    have hleft := Deployment.stagesLeft_eq (List.getElem?_eq_getElem hr)
    simp only [stepsLeft, hs, List.getElem?_eq_getElem hr, List.length_nil, true_or, if_true]
    omega
  case look r seen runtime hs hr hlen =>
    simp only [stepsLeft, hs, hr, List.length_append, List.length_singleton, true_or, if_true]
    omega
  case assess r seen runtime hs hr hnum =>
    have hbefore : runtime.num + 2 + d.stagesLeft (r + 1) + 10 + d.daemons + d.graceful ≤
        s.stepsLeft d := by
      simp only [stepsLeft, hs, hr]
      omega
    apply le_trans _ hbefore
    rw [if_pos (.inl rfl)]
    refine (Nat.add_le_add_right (stepsLeft_assess rfl) 1).trans ?_
    omega
  case checked r hs hr =>
    simp only [stepsLeft, hs, true_or, if_true]
    omega
  case daemons i hs hi =>
    simp only [stepsLeft, hs, true_or, if_true]
    omega
  case service i hs hi =>
    simp only [stepsLeft, hs, true_or, if_true]
    omega
  case terminate p hs hp =>
    simp only [stepsLeft, hs, Deployment.graceful, true_or, if_true]
    rw [show s.now + d.timeout - s.now = d.timeout by omega]
    omega
  case grace deadline hs hnow =>
    have hwaits := d.waits_succ (n := deadline - s.now) (by omega)
    rw [Nat.sub_sub] at hwaits
    simp only [stepsLeft, hs, true_or, if_true]
    omega
  case again deadline wake hs hwake =>
    have hwaits := d.waits_mono (show deadline - s.now ≤ deadline - wake by omega)
    simp only [stepsLeft, hs, true_or, if_true]
    omega
  case tick => exact stepsLeft_tick s
  case childExit p hp => exact le_rfl
  case serviceExit p hp => exact le_rfl
  case daemonExit i => exact le_rfl
  case signal => exact le_rfl
  all_goals
    simp only [stepsLeft, ‹s.station = _›, List.length_cons, List.length_nil, true_or,
      or_true, if_true]
    omega

def Timed (d : Deployment) (s : Supervisor) : Prop :=
  match s.station with
  | .scan r _ => r < d.runtimes.length
  | .sleep wake => wake ≤ s.now + d.interval
  | .grace deadline => deadline ≤ s.now + d.timeout
  | .poll deadline => deadline ≤ s.now + d.timeout
  | .nap deadline wake => deadline ≤ wake + d.timeout ∧ wake ≤ s.now + d.interval
  | _ => True

theorem Timed.of_frame (h : Timed d s) (hstation : s'.station = s.station) (hnow : s.now ≤ s'.now) :
    Timed d s' := by
  unfold Timed at h ⊢
  rw [hstation]
  split at h <;> omega

theorem timed_assess {init : Bool} {r num : ℕ} {pool : ℕ → Option ℕ}
    (hs : s.station = assess init r num pool) : Timed d s := by
  unfold Timed
  obtain ⟨-, heq⟩ | ⟨-, -, heq⟩ | ⟨-, heq⟩ := assess_cases init r num pool <;>
    simp only [hs, heq]

theorem Timed.move (h : Timed d s) (hm : Move d s a s') : Timed d s' := by
  cases hm
  case launch hs =>
    by_cases hshutdown : s.serverShutdown = true <;> simp [Timed, hshutdown]
  case guard hs =>
    by_cases hshutdown : s.serverShutdown = true <;> simp [Timed, hshutdown]
  case stage r hs hr => exact hr
  case look r seen runtime hs hr hlen => exact (List.getElem?_eq_some_iff.mp hr).1
  case assess r seen runtime hs hr hnum => exact timed_assess rfl
  case service i hs hi => exact le_rfl
  case terminate p hs hp => exact le_rfl
  case grace deadline hs hnow =>
    simp only [Timed, hs] at h
    exact h
  case nap deadline hs hexited =>
    simp only [Timed, hs] at h ⊢
    omega
  case again deadline wake hs hwake =>
    simp only [Timed, hs] at h ⊢
    omega
  case childExit p hp => exact h.of_frame rfl le_rfl
  case serviceExit p hp => exact h.of_frame rfl le_rfl
  case daemonExit i => exact h.of_frame rfl le_rfl
  case signal => exact h.of_frame rfl le_rfl
  case tick => exact h.of_frame rfl (Nat.le_succ _)
  all_goals trivial

theorem timed_of_run (hs : Run d s) : Timed d s :=
  hs.invariant trivial fun _ _ _ h _ hstep => h.move (move_of_step hstep)

theorem Starting.length_le {r : ℕ} {ids : List ℕ} (h : Starting d s r ids) :
    ids.length + d.stagesLeft (r + 1) + 3 ≤ d.stagesLeft r := by
  obtain ⟨runtime, hr, hnum⟩ := h.inside
  have hsubset : ids ⊆ List.range runtime.num := fun w hw => List.mem_range.mpr (hnum w hw)
  have hlength := (List.subperm_of_subset h.nodup hsubset).length_le
  rw [List.length_range] at hlength
  rw [Deployment.stagesLeft_eq hr]
  omega

theorem stepsLeft_le_budget (hslots : Slots d s) (htimed : Timed d s) :
    s.stepsLeft d ≤ d.budget := by
  have hstages := fun r => d.stagesLeft_le r
  have hwaits : ∀ period ≤ d.timeout, 3 * d.waits period ≤ d.graceful := fun period hperiod =>
    Nat.mul_le_mul_left 3 (d.waits_mono hperiod)
  simp only [Deployment.budget]
  cases hs : s.station <;> simp only [Timed, hs] at htimed <;> simp only [stepsLeft, hs]
  case check r =>
    have hle := hstages r
    omega
  case scan r seen =>
    have hle := hstages r
    rw [Deployment.stagesLeft_eq (List.getElem?_eq_getElem htimed)] at hle
    rw [List.getElem?_eq_getElem htimed]
    dsimp only
    omega
  case start r ids =>
    have hle := hstages r
    have hlength := (hslots.starting hs).length_le
    omega
  case grace deadline =>
    have hle := hwaits (deadline - s.now) (by omega)
    omega
  case poll deadline =>
    have hle := hwaits (deadline - (s.now + d.interval)) (by omega)
    omega
  case nap deadline wake =>
    have hle := hwaits (deadline - wake) (by omega)
    omega
  all_goals omega

theorem main_enabled (htimed : Timed d s) (hover : s.station ≠ .finished) :
    (∃ s', s.main d = some s') ∨ ∃ wake, s.now < wake ∧ wake ≤ s.now + d.interval ∧
      (s.station = .sleep wake ∨ ∃ deadline, s.station = .nap deadline wake) := by
  cases hs : s.station <;> simp only [Timed, hs] at htimed
  case finished => exact absurd hs hover
  case check r =>
    left
    simp only [main, hs]
    split <;> exact ⟨_, rfl⟩
  case scan r seen =>
    left
    simp only [main, hs, check, List.getElem?_eq_getElem htimed, Option.bind_eq_bind,
      Option.bind_some]
    split <;> exact ⟨_, rfl⟩
  case start r ids => cases ids <;> exact .inl ⟨_, by simp only [main, hs]; rfl⟩
  case terminate =>
    cases hp : s.process <;> exact .inl ⟨_, by simp only [main, hs, hp]; rfl⟩
  case sleep wake =>
    by_cases hwake : wake ≤ s.now
    · exact .inl ⟨_, by simp only [main, hs, if_pos hwake]; rfl⟩
    · exact .inr ⟨wake, by omega, htimed, .inl rfl⟩
  case nap deadline wake =>
    by_cases hwake : wake ≤ s.now
    · exact .inl ⟨_, by simp only [main, hs, if_pos hwake]; rfl⟩
    · exact .inr ⟨wake, by omega, htimed.2, .inr ⟨deadline, rfl⟩⟩
  all_goals exact .inl ⟨_, by simp only [main, hs]; rfl⟩

theorem shutdown_takes_budget (hs : Run d s) (hshutdown : s.serverShutdown = true)
    {as : List SupervisorAction} {t : Supervisor}
    (hrun : Transition.run (step d) s as = some t) :
    as.countP (fun a => a = .main ∨ a = .raises) ≤ d.budget ∧
      (t.station = .finished ∨ (∃ t', t.main d = some t') ∨
        ∃ wake, t.now < wake ∧ wake ≤ t.now + d.interval ∧
          (t.station = .sleep wake ∨ ∃ deadline, t.station = .nap deadline wake)) := by
  have hbudget := stepsLeft_le_budget (slots_of_run hs) (timed_of_run hs)
  have ht : Run d t := Reachable.run hs (Transition.follows_true s as) hrun
  constructor
  · have hdescent : ∀ (s : Supervisor) (a : SupervisorAction) (s' : Supervisor),
        s.serverShutdown = true → True → step d s a = some s' → s'.serverShutdown = true ∧
          s'.stepsLeft d + (if decide (a = .main ∨ a = .raises) then 1 else 0) ≤ s.stepsLeft d := by
      intro s a s' h _ hstep
      have hm := move_of_step hstep
      exact ⟨hm.shutdown_mono h, by simpa only [decide_eq_true_eq] using hm.stepsLeft_le h⟩
    have hcount := Transition.countP_le_of_descent hdescent hshutdown
      (Transition.follows_true s as) hrun
    omega
  · by_cases hover : t.station = .finished
    · exact .inl hover
    · exact .inr (main_enabled (timed_of_run ht) hover)

theorem shutdown_takes_budget_signal : ∃ s t,
    Transition.run (step pair) new [.main, .main, .signal] = some s ∧
      Transition.run (step pair) s [.main, .main] = some t ∧ 2 ≤ pair.budget := by
  have hview : ((Transition.run (step pair) new [.main, .main, .signal]).bind fun s =>
      (Transition.run (step pair) s [.main, .main]).map fun t => (s.serverShutdown, t.station)) =
      some (true, .terminate) := by
    decide
  obtain ⟨s, hs, hrest⟩ := Option.bind_eq_some_iff.mp hview
  obtain ⟨t, ht, hfields⟩ := Option.map_eq_some_iff.mp hrest
  simp only [Prod.mk.injEq] at hfields
  exact ⟨s, t, hs, ht,
    (shutdown_takes_budget (Transition.reachable_of_run hs) hfields.1 ht).1⟩

end Supervisor

end Mosec
