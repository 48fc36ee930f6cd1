import Mosec.Supervisor

namespace Mosec

open Function (update update_self update_of_ne)
open Transition (Reachable)

namespace Supervisor

variable {d : Deployment} {s s' : Supervisor} {a : SupervisorAction}

abbrev Run (d : Deployment) (s : Supervisor) : Prop :=
  Reachable (step d) (fun _ _ => True) new s

inductive Move (d : Deployment) (s : Supervisor) : SupervisorAction → Supervisor → Prop
  | launch : s.station = .launch →
      Move d s .main { s with station := if s.serverShutdown then .guard else .spawn }
  | spawn : s.station = .spawn →
      Move d s .main { s with process := some .new, station := .guard }
  | guard : s.station = .guard →
      Move d s .main { s with station := if s.serverShutdown then .halt else .check 0 }
  | stage {r : ℕ} : s.station = .check r → r < d.runtimes.length →
      Move d s .main { s with station := .scan r [] }
  | checked {r : ℕ} : s.station = .check r → d.runtimes.length ≤ r →
      Move d s .main { s with init := false, station := .daemons 0 }
  | look {r : ℕ} {seen : List (Option ℕ)} {runtime : PyRuntime} : s.station = .scan r seen →
      d.runtimes[r]? = some runtime → seen.length < runtime.num →
      Move d s .main { s with station := .scan r (seen ++ [s.look r seen.length]) }
  | assess {r : ℕ} {seen : List (Option ℕ)} {runtime : PyRuntime} : s.station = .scan r seen →
      d.runtimes[r]? = some runtime → runtime.num ≤ seen.length →
      Move d s .main { s with
        pool := update s.pool r fun workerId => seen[workerId]?.join
        station := assess s.init r runtime.num fun workerId => seen[workerId]?.join }
  | started {r : ℕ} : s.station = .start r [] →
      Move d s .main { s with station := .check (r + 1) }
  | start {r workerId : ℕ} {ids : List ℕ} : s.station = .start r (workerId :: ids) →
      Move d s .main { s.startProcess r workerId with station := .start r ids }
  | failed {r : ℕ} : s.station = .failed r →
      Move d s .main { s with serverShutdown := true, init := false, station := .daemons 0 }
  | daemons {i : ℕ} : s.station = .daemons i → i < d.daemons →
      Move d s .main { s with
        serverShutdown := s.serverShutdown || s.daemonExited i
        station := .daemons (i + 1) }
  | service {i : ℕ} : s.station = .daemons i → d.daemons ≤ i →
      Move d s .main { s with
        serverShutdown := s.serverShutdown || s.process.any Popen.exited
        process := s.process.map Popen.poll
        station := .sleep (s.now + d.interval) }
  | wake {wake : ℕ} : s.station = .sleep wake → wake ≤ s.now →
      Move d s .main { s with station := .guard }
  | halt : s.station = .halt →
      Move d s .main { s with shutdownNotify := true, station := .terminate }
  | absent : s.station = .terminate → s.process = none →
      Move d s .main { s with station := .release }
  | terminate {p : Popen} : s.station = .terminate → s.process = some p →
      Move d s .main { s with
        process := some p.terminate
        station := .grace (s.now + d.timeout) }
  | grace {deadline : ℕ} : s.station = .grace deadline → s.now < deadline →
      Move d s .main { s with station := .poll deadline }
  | expired {deadline : ℕ} : s.station = .grace deadline → deadline ≤ s.now →
      Move d s .main { s with station := .reap deadline }
  | exited {deadline : ℕ} : s.station = .poll deadline → s.process.any Popen.exited = true →
      Move d s .main { s with
        process := s.process.map Popen.poll
        station := .reap deadline }
  | nap {deadline : ℕ} : s.station = .poll deadline → s.process.any Popen.exited = false →
      Move d s .main { s with
        process := s.process.map Popen.poll
        station := .nap deadline (s.now + d.interval) }
  | again {deadline wake : ℕ} : s.station = .nap deadline wake → wake ≤ s.now →
      Move d s .main { s with station := .grace deadline }
  | reap {deadline : ℕ} : s.station = .reap deadline →
      Move d s .main { s with
        process := if deadline < s.now then s.process.map Popen.kill else s.process
        station := .release }
  | release : s.station = .release →
      Move d s .main { s with shutdown := true, station := .cleanup }
  | cleanup : s.station = .cleanup →
      Move d s .main { s with cleaned := true, station := .finished }
  | spawnError : s.station = .spawn → Move d s .raises { s with station := .halt }
  | startError {r workerId : ℕ} {ids : List ℕ} : s.station = .start r (workerId :: ids) →
      Move d s .raises { s with station := .halt }
  | childExit {p : ℕ} : p < s.born →
      Move d s (.childExit p)
        { s with children := update s.children p { s.children p with exited := true } }
  | serviceExit {p : Popen} : s.process = some p →
      Move d s .serviceExit { s with process := some { p with exited := true } }
  | daemonExit (i : ℕ) :
      Move d s (.daemonExit i) { s with daemonExited := update s.daemonExited i true }
  | signal : Move d s .signal { s with serverShutdown := true }
  | tick : Move d s .tick { s with now := s.now + 1 }

theorem move_of_main (h : s.main d = some s') : Move d s .main s' := by
  cases hs : s.station <;> simp only [main, hs] at h
  case launch => cases h; exact .launch hs
  case spawn => cases h; exact .spawn hs
  case guard => cases h; exact .guard hs
  case check r =>
    split at h <;> cases h
    · exact .stage hs ‹_›
    · exact .checked hs (by omega)
  case scan r seen =>
    obtain ⟨runtime, hr, h⟩ := Option.bind_eq_some_iff.mp h
    split at h <;> cases h
    · exact .look hs hr ‹_›
    · exact .assess hs hr (by omega)
  case start r ids =>
    cases ids with
    | nil => cases h; exact .started hs
    | cons workerId ids => cases h; exact .start hs
  case failed r => cases h; exact .failed hs
  case daemons i =>
    simp only [checkDaemon] at h
    split at h <;> cases h
    · exact .daemons hs ‹_›
    · exact .service hs (by omega)
  case sleep wake =>
    split at h <;> cases h
    exact .wake hs ‹_›
  case halt => cases h; exact .halt hs
  case terminate =>
    split at h <;> cases h
    · exact .absent hs ‹_›
    · exact .terminate hs ‹_›
  case grace deadline =>
    by_cases hnow : s.now < deadline
    · rw [if_pos hnow] at h
      cases h
      exact .grace hs hnow
    · rw [if_neg hnow] at h
      cases h
      exact .expired hs (by omega)
  case poll deadline =>
    by_cases hexited : s.process.any Popen.exited = true
    · rw [if_pos hexited] at h
      cases h
      exact .exited hs hexited
    · rw [if_neg hexited] at h
      cases h
      exact .nap hs (by simpa using hexited)
  case nap deadline wake =>
    split at h <;> cases h
    exact .again hs ‹_›
  case reap deadline => cases h; exact .reap hs
  case release => cases h; exact .release hs
  case cleanup => cases h; exact .cleanup hs
  case finished => cases h

theorem move_of_step (h : s.step d a = some s') : Move d s a s' := by
  cases a with
  | main => exact move_of_main h
  | raises =>
    cases hs : s.station <;> simp only [step, Supervisor.raises, hs] at h
    case spawn => cases h; exact .spawnError hs
    case start r ids =>
      cases ids with
      | nil => cases h
      | cons workerId ids => cases h; exact .startError hs
    all_goals cases h
  | childExit p =>
    simp only [step] at h
    split at h <;> cases h
    exact .childExit ‹_›
  | serviceExit =>
    obtain ⟨p, hp, rfl⟩ := Option.map_eq_some_iff.mp h
    exact .serviceExit hp
  | daemonExit i => cases h; exact .daemonExit i
  | signal => cases h; exact .signal
  | tick => cases h; exact .tick

theorem look_eq_some {r w p : ℕ} :
    s.look r w = some p ↔ s.pool r w = some p ∧ (s.children p).exited = false := by
  simp [look, Option.filter_eq_some_iff]

theorem assess_cases (init : Bool) (r num : ℕ) (pool : ℕ → Option ℕ) :
    ((∀ w < num, (pool w).isSome) ∧ assess init r num pool = .check (r + 1)) ∨
    (init = false ∧ (∀ w < num, pool w = none) ∧ assess init r num pool = .failed r) ∨
    ((init = true ∨ ∃ w < num, (pool w).isSome) ∧
      assess init r num pool =
        .start r ((List.range num).filter fun workerId => (pool workerId).isNone)) := by
  unfold assess
  by_cases hall : ∀ w < num, (pool w).isSome
  · exact .inl ⟨hall, if_pos (by simpa using hall)⟩
  · rw [if_neg (by simpa using hall)]
    by_cases hnone : init = false ∧ ∀ w < num, pool w = none
    · exact .inr (.inl ⟨hnone.1, hnone.2, if_pos (by simpa using hnone)⟩)
    · refine .inr (.inr ⟨?_, if_neg (by simpa using hnone)⟩)
      cases init with
      | true => exact .inl rfl
      | false =>
        right
        by_contra hsome
        apply hnone
        refine ⟨rfl, fun w hw => ?_⟩
        by_contra hp
        exact hsome ⟨w, hw, Option.isSome_iff_ne_none.mpr hp⟩

/-- Every process that runs is in its slot of the pool. -/
structure Pooled (d : Deployment) (s : Supervisor) : Prop where
  placed : ∀ {p}, p < s.born → (s.children p).exited = false →
    s.pool (s.children p).runtime (s.children p).workerId = some p
  held : ∀ {r w p}, s.pool r w = some p →
    p < s.born ∧ (s.children p).runtime = r ∧ (s.children p).workerId = w
  housed : ∀ {p}, p < s.born → ∃ runtime,
    d.runtimes[(s.children p).runtime]? = some runtime ∧ (s.children p).workerId < runtime.num

structure Scanned (s : Supervisor) (r : ℕ) (seen : List (Option ℕ)) : Prop where
  sound : ∀ {w p}, seen[w]? = some (some p) → s.pool r w = some p
  complete : ∀ {w p}, w < seen.length → s.pool r w = some p → (s.children p).exited = false →
    seen[w]? = some (some p)

structure Starting (d : Deployment) (s : Supervisor) (r : ℕ) (ids : List ℕ) : Prop where
  vacant : ∀ w ∈ ids, s.pool r w = none
  inside : ∃ runtime, d.runtimes[r]? = some runtime ∧ ∀ w ∈ ids, w < runtime.num
  nodup : ids.Nodup

structure Slots (d : Deployment) (s : Supervisor) : Prop where
  pooled : Pooled d s
  scanned : ∀ {r seen}, s.station = .scan r seen → Scanned s r seen
  starting : ∀ {r ids}, s.station = .start r ids → Starting d s r ids

theorem Slots.of_frame (h : Slots d s) (hpool : s'.pool = s.pool)
    (hchildren : s'.children = s.children) (hborn : s'.born = s.born)
    (hscan : ∀ r seen, s'.station = .scan r seen → s.station = .scan r seen)
    (hstart : ∀ r ids, s'.station = .start r ids → s.station = .start r ids) : Slots d s' := by
  refine ⟨⟨?_, ?_, ?_⟩, ?_, ?_⟩
  · rw [hpool, hchildren, hborn]
    exact h.pooled.placed
  · rw [hpool, hchildren, hborn]
    exact h.pooled.held
  · rw [hchildren, hborn]
    exact h.pooled.housed
  · intro r seen hs
    obtain ⟨hsound, hcomplete⟩ := h.scanned (hscan _ _ hs)
    constructor
    · rw [hpool]
      exact hsound
    · rw [hpool, hchildren]
      exact hcomplete
  · intro r ids hs
    obtain ⟨hvacant, hinside, hnodup⟩ := h.starting (hstart _ _ hs)
    exact ⟨by rwa [hpool], hinside, hnodup⟩

theorem Slots.look (h : Slots d s) {r : ℕ} {seen : List (Option ℕ)}
    (hs : s.station = .scan r seen) :
    Slots d { s with station := .scan r (seen ++ [s.look r seen.length]) } := by
  obtain ⟨hsound, hcomplete⟩ := h.scanned hs
  refine ⟨⟨h.pooled.placed, h.pooled.held, h.pooled.housed⟩, ?_, fun hs' => by cases hs'⟩
  intro r' seen' hs'
  cases hs'
  constructor
  · intro w p hw
    rcases Nat.lt_trichotomy w seen.length with hlt | heq | hgt
    · rw [List.getElem?_append_left hlt] at hw
      exact hsound hw
    · subst heq
      rw [List.getElem?_append_right le_rfl, Nat.sub_self] at hw
      exact (look_eq_some.mp (Option.some.inj hw)).1
    · rw [List.getElem?_eq_none (by simp; omega)] at hw
      cases hw
  · intro w p hw hpool hlive
    by_cases hlt : w < seen.length
    · rw [List.getElem?_append_left hlt]
      exact hcomplete hlt hpool hlive
    · obtain rfl : w = seen.length := by
        simp only [List.length_append, List.length_singleton] at hw
        omega
      rw [List.getElem?_append_right le_rfl, Nat.sub_self]
      exact congrArg some (look_eq_some.mpr ⟨hpool, hlive⟩)

theorem Slots.assess (h : Slots d s) {r : ℕ} {seen : List (Option ℕ)} {runtime : PyRuntime}
    (hs : s.station = .scan r seen) (hr : d.runtimes[r]? = some runtime)
    (hnum : runtime.num ≤ seen.length) :
    Slots d { s with
      pool := update s.pool r fun workerId => seen[workerId]?.join
      station := assess s.init r runtime.num fun workerId => seen[workerId]?.join } := by
  obtain ⟨hsound, hcomplete⟩ := h.scanned hs
  have hstation := assess_cases s.init r runtime.num fun workerId => seen[workerId]?.join
  refine ⟨⟨?_, ?_, h.pooled.housed⟩, ?_, ?_⟩
  · intro p hp hlive
    have hplaced := h.pooled.placed hp hlive
    by_cases hrun : (s.children p).runtime = r
    · obtain ⟨runtime', hr', hw⟩ := h.pooled.housed hp
      rw [hrun] at hplaced hr'
      rw [hr] at hr'
      cases hr'
      change update s.pool r _ _ _ = _
      rw [hrun, update_self, hcomplete (by omega) hplaced hlive]
      rfl
    · change update s.pool r _ _ _ = _
      rw [update_of_ne hrun]
      exact hplaced
  · intro r' w p hp
    change update s.pool r _ _ _ = _ at hp
    by_cases hrun : r' = r
    · rw [hrun, update_self] at hp
      rw [hrun]
      exact h.pooled.held (hsound (Option.join_eq_some_iff.mp hp))
    · rw [update_of_ne hrun] at hp
      exact h.pooled.held hp
  · intro r' seen' hs'
    obtain ⟨-, heq⟩ | ⟨-, -, heq⟩ | ⟨-, heq⟩ := hstation <;> cases heq.symm.trans hs'
  · intro r' ids hs'
    obtain ⟨-, heq⟩ | ⟨-, -, heq⟩ | ⟨-, heq⟩ := hstation <;> cases heq.symm.trans hs'
    refine ⟨?_, ⟨runtime, hr, ?_⟩, List.nodup_range.filter _⟩
    · intro w hw
      change update s.pool r _ _ _ = _
      rw [update_self]
      exact Option.isNone_iff_eq_none.mp (List.mem_filter.mp hw).2
    · intro w hw
      exact List.mem_range.mp (List.mem_filter.mp hw).1

theorem Slots.start (h : Slots d s) {r workerId : ℕ} {ids : List ℕ}
    (hs : s.station = .start r (workerId :: ids)) :
    Slots d { s.startProcess r workerId with station := .start r ids } := by
  obtain ⟨hvacant, ⟨runtime, hr, hnum⟩, hnodup⟩ := h.starting hs
  have hempty := hvacant workerId List.mem_cons_self
  refine ⟨⟨?_, ?_, ?_⟩, ?_, ?_⟩
  · intro p hp hlive
    simp only [startProcess] at hp hlive ⊢
    by_cases hnew : p = s.born
    · subst hnew
      simp only [update_self]
    · rw [update_of_ne hnew] at hlive ⊢
      have hplaced := h.pooled.placed (by omega) hlive
      by_cases hrun : (s.children p).runtime = r
      · rw [hrun, update_self, update_of_ne]
        · rwa [hrun] at hplaced
        · intro hw
          rw [hrun, hw, hempty] at hplaced
          cases hplaced
      · rwa [update_of_ne hrun]
  · intro r' w p hp
    simp only [startProcess] at hp ⊢
    by_cases hrun : r' = r ∧ w = workerId
    · obtain ⟨rfl, rfl⟩ := hrun
      simp only [update_self, Option.some.injEq] at hp
      subst hp
      simp only [update_self]
      exact ⟨Nat.lt_succ_self _, trivial, trivial⟩
    · have hold : s.pool r' w = some p := by
        by_cases hr' : r' = r
        · rw [hr', update_self, update_of_ne fun hw => hrun ⟨hr', hw⟩] at hp
          rw [hr', hp]
        · rwa [update_of_ne hr'] at hp
      obtain ⟨hp, hheld⟩ := h.pooled.held hold
      rw [update_of_ne (by omega)]
      exact ⟨by omega, hheld⟩
  · intro p hp
    simp only [startProcess] at hp ⊢
    by_cases hnew : p = s.born
    · subst hnew
      simp only [update_self]
      exact ⟨runtime, hr, hnum _ List.mem_cons_self⟩
    · rw [update_of_ne hnew]
      exact h.pooled.housed (by omega)
  · intro r' seen hs'
    cases hs'
  · intro r' ids' hs'
    cases hs'
    obtain ⟨hfresh, hnodup⟩ := List.nodup_cons.mp hnodup
    refine ⟨?_, ⟨runtime, hr, fun w hw => hnum w (List.mem_cons_of_mem _ hw)⟩, hnodup⟩
    intro w hw
    simp only [startProcess]
    rw [update_self, update_of_ne (ne_of_mem_of_not_mem hw hfresh)]
    exact hvacant w (List.mem_cons_of_mem _ hw)

theorem Slots.childExit (h : Slots d s) (p : ℕ) :
    Slots d { s with children := update s.children p { s.children p with exited := true } } := by
  have hslot : ∀ q, (update s.children p { s.children p with exited := true } q).runtime =
      (s.children q).runtime ∧
      (update s.children p { s.children p with exited := true } q).workerId =
        (s.children q).workerId := by
    intro q
    by_cases hq : q = p
    · subst hq
      simp only [update_self, and_self]
    · simp only [update_of_ne hq, and_self]
  have hlive : ∀ {q}, (update s.children p { s.children p with exited := true } q).exited = false →
      (s.children q).exited = false := by
    intro q hq
    by_cases heq : q = p
    · subst heq
      simp only [update_self, Bool.true_eq_false] at hq
    · rwa [update_of_ne heq] at hq
  refine ⟨⟨?_, ?_, ?_⟩, ?_, ?_⟩
  · intro q hq hexited
    change s.pool _ _ = _
    rw [(hslot q).1, (hslot q).2]
    exact h.pooled.placed hq (hlive hexited)
  · intro r w q hq
    obtain ⟨hborn, hr, hw⟩ := h.pooled.held hq
    exact ⟨hborn, (hslot q).1.trans hr, (hslot q).2.trans hw⟩
  · intro q hq
    simp only [hslot q]
    exact h.pooled.housed hq
  · intro r seen hs
    obtain ⟨hsound, hcomplete⟩ := h.scanned hs
    exact ⟨hsound, fun hw hpool hexited => hcomplete hw hpool (hlive hexited)⟩
  · intro r ids hs
    obtain ⟨hvacant, hinside, hnodup⟩ := h.starting hs
    exact ⟨hvacant, hinside, hnodup⟩

theorem Slots.move (h : Slots d s) (hm : Move d s a s') : Slots d s' := by
  cases hm
  case stage r hs hr =>
    refine ⟨⟨h.pooled.placed, h.pooled.held, h.pooled.housed⟩, ?_, fun hs' => by cases hs'⟩
    intro r' seen hs'
    cases hs'
    exact ⟨fun hw => by simp at hw, fun hw => by simp at hw⟩
  case look r seen runtime hs hr hlen => exact h.look hs
  case assess r seen runtime hs hr hnum => exact h.assess hs hr hnum
  case start r workerId ids hs => exact h.start hs
  case childExit p hp => exact h.childExit p
  case launch hs => exact h.of_frame rfl rfl rfl (by simp; grind) (by simp; grind)
  case guard hs => exact h.of_frame rfl rfl rfl (by simp; grind) (by simp; grind)
  case serviceExit p hp => exact h.of_frame rfl rfl rfl (fun _ _ => id) (fun _ _ => id)
  case daemonExit i => exact h.of_frame rfl rfl rfl (fun _ _ => id) (fun _ _ => id)
  case signal => exact h.of_frame rfl rfl rfl (fun _ _ => id) (fun _ _ => id)
  case tick => exact h.of_frame rfl rfl rfl (fun _ _ => id) (fun _ _ => id)
  all_goals exact h.of_frame rfl rfl rfl (fun _ _ hs => by cases hs) (fun _ _ hs => by cases hs)

theorem slots_of_run (hs : Run d s) : Slots d s := by
  refine hs.invariant ?_ fun s a s' h _ hstep => h.move (move_of_step hstep)
  refine ⟨⟨?_, ?_, ?_⟩, ?_, ?_⟩
  · intro p hp
    exact absurd hp (Nat.not_lt_zero p)
  · intro r w p hp
    cases hp
  · intro p hp
    exact absurd hp (Nat.not_lt_zero p)
  · intro r seen hs
    cases hs
  · intro r ids hs
    cases hs

theorem workers_exclusive (hs : Run d s) {p q : ℕ} (hp : p < s.born) (hq : q < s.born)
    (hlive : (s.children p).exited = false) (hlive' : (s.children q).exited = false)
    (hslot : (s.children p).runtime = (s.children q).runtime ∧
      (s.children p).workerId = (s.children q).workerId) :
    p = q ∧ s.pool (s.children p).runtime (s.children p).workerId = some p ∧
      ∃ runtime, d.runtimes[(s.children p).runtime]? = some runtime ∧
        (s.children p).workerId < runtime.num := by
  have hpooled := (slots_of_run hs).pooled
  have hpool := hpooled.placed hp hlive
  have hpool' := hpooled.placed hq hlive'
  rw [← hslot.1, ← hslot.2, hpool] at hpool'
  exact ⟨Option.some.inj hpool', hpool, hpooled.housed hp⟩

def pair : Deployment where
  runtimes := [⟨2, none, by decide, fun _ h => by cases h⟩]
  daemons := 0
  timeout := 2
  interval := 1
  interval_pos := Nat.one_pos

def firstLoss : List SupervisorAction :=
  List.replicate 12 .main ++ [.tick, .main, .childExit 0]

def nextRound : List SupervisorAction := List.replicate 9 .main

theorem workers_exclusive_restart : ∃ s,
    Transition.run (step pair) new (firstLoss ++ nextRound) = some s ∧ s.pool 0 0 = some 2 := by
  have hview : (Transition.run (step pair) new (firstLoss ++ nextRound)).map
      (fun s => (s.born, s.children 2)) = some (3, ⟨0, 0, false⟩) := by
    decide
  obtain ⟨s, hs, hfields⟩ := Option.map_eq_some_iff.mp hview
  simp only [Prod.mk.injEq] at hfields
  obtain ⟨hborn, hchild⟩ := hfields
  have hlt : 2 < s.born := by omega
  have hlive : (s.children 2).exited = false := by rw [hchild]
  have hpool := (workers_exclusive (Transition.reachable_of_run hs) hlt hlt hlive hlive
    ⟨rfl, rfl⟩).2.1
  rw [hchild] at hpool
  exact ⟨s, hs, hpool⟩

end Supervisor

end Mosec
