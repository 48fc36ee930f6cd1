import Mosec.Supervision

namespace Mosec

open Function (update update_self update_of_ne)
open Transition (Reachable)

def Station.inRound : Station → Bool
  | .check _ => true
  | .scan _ _ => true
  | .start _ _ => true
  | .daemons _ => true
  | .sleep _ => true
  | _ => false

namespace Supervisor

variable {d : Deployment} {s s₀ s' : Supervisor} {a : SupervisorAction} {fresh : ℕ → Prop} {j : ℕ}

structure Grows (s s' : Supervisor) : Prop where
  born : s.born ≤ s'.born
  runtime : ∀ p < s.born, (s'.children p).runtime = (s.children p).runtime
  exited : ∀ p < s.born, (s.children p).exited = true → (s'.children p).exited = true

theorem Grows.refl (s : Supervisor) : Grows s s := ⟨le_rfl, fun _ _ => rfl, fun _ _ => id⟩

theorem Grows.trans (h : Grows s₀ s) (h' : Grows s s') : Grows s₀ s' := by
  have hborn := h.born
  have hborn' := h'.born
  refine ⟨by omega, fun p hp => ?_, fun p hp hexited => ?_⟩
  · rw [h'.runtime p (by omega), h.runtime p hp]
  · exact h'.exited p (by omega) (h.exited p hp hexited)

theorem Grows.of_same (hchildren : s'.children = s.children) (hborn : s'.born = s.born) :
    Grows s s' :=
  ⟨hborn.ge, fun p _ => by rw [hchildren], fun p _ hp => by rwa [hchildren]⟩

theorem Move.grows (hm : Move d s a s') : Grows s s' := by
  cases hm
  case start r workerId ids hs =>
    refine ⟨Nat.le_succ _, fun p hp => ?_, fun p hp hexited => ?_⟩
    · simp only [startProcess, update_of_ne hp.ne]
    · simpa only [startProcess, update_of_ne hp.ne] using hexited
  case childExit q hq =>
    refine ⟨le_rfl, fun p hp => ?_, fun p hp hexited => ?_⟩
    · by_cases heq : p = q
      · simp only [heq, update_self]
      · simp only [update_of_ne heq]
    · by_cases heq : p = q
      · simp only [heq, update_self]
      · simpa only [update_of_ne heq] using hexited
  all_goals exact .of_same rfl rfl

theorem grows_of_run (hs : Reachable (step d) (fun _ _ => True) s₀ s) : Grows s₀ s :=
  hs.invariant (.refl s₀) fun _ _ _ h _ hstep => h.trans (move_of_step hstep).grows

theorem run_trans (hs₀ : Run d s₀) (hs : Reachable (step d) (fun _ _ => True) s₀ s) : Run d s :=
  hs.invariant hs₀ fun _ _ _ h hok hstep => h.step hok hstep

def Full (d : Deployment) (fresh : ℕ → Prop) (s : Supervisor) (r : ℕ) : Prop :=
  ∀ runtime, d.runtimes[r]? = some runtime → ∀ w < runtime.num,
    ∃ p, s.pool r w = some p ∧ fresh p

def Mended (d : Deployment) (fresh : ℕ → Prop) (s : Supervisor) : Prop :=
  match s.station with
  | .check r => ∀ j < r, Full d fresh s j
  | .scan r seen =>
    (∀ j < r, Full d fresh s j) ∧ ∀ (w p : ℕ), seen[w]? = some (some p) → fresh p
  | .start r ids => (∀ j < r, Full d fresh s j) ∧
    ∀ runtime, d.runtimes[r]? = some runtime → ∀ w < runtime.num, w ∉ ids →
      ∃ p, s.pool r w = some p ∧ fresh p
  | .daemons _ => s.serverShutdown = true ∨ ∀ j, Full d fresh s j
  | .sleep _ => s.serverShutdown = true ∨ ∀ j, Full d fresh s j
  | _ => True

theorem Mended.of_frame (h : Mended d fresh s) (hpool : s'.pool = s.pool)
    (hstation : s'.station = s.station)
    (hshutdown : s.serverShutdown = true → s'.serverShutdown = true) : Mended d fresh s' := by
  have hfull : ∀ j, Full d fresh s' j ↔ Full d fresh s j := by
    intro j
    simp only [Full, hpool]
  unfold Mended at h ⊢
  rw [hstation]
  split at h
  all_goals simp only [hfull, hpool]
  case h_4 => exact h.imp_left hshutdown
  case h_5 => exact h.imp_left hshutdown
  all_goals exact h

theorem mended_of_outside (h : s.station.inRound = false) : Mended d fresh s := by
  unfold Mended
  split <;> first | trivial | simp only [Station.inRound, *] at h; cases h

theorem full_of_le (h : d.runtimes.length ≤ j) : Full d fresh s j := by
  intro runtime hr
  rw [List.getElem?_eq_none h] at hr
  cases hr

theorem full_update (h : Full d fresh s j) {r : ℕ} (hj : j ≠ r) {pool : ℕ → Option ℕ}
    (hpool : s'.pool = update s.pool r pool) : Full d fresh s' j := by
  intro runtime hr w hw
  rw [hpool, update_of_ne hj]
  exact h runtime hr w hw

theorem Mended.assess (h : Mended d fresh s) {r : ℕ} {seen : List (Option ℕ)}
    {runtime : PyRuntime} (hs : s.station = .scan r seen) (hr : d.runtimes[r]? = some runtime) :
    Mended d fresh { s with
      pool := update s.pool r fun workerId => seen[workerId]?.join
      station := assess s.init r runtime.num fun workerId => seen[workerId]?.join } := by
  simp only [Mended, hs] at h
  obtain ⟨hfull, hseen⟩ := h
  have hbefore : ∀ j < r, ∀ station, Full d fresh { s with
      pool := update s.pool r fun workerId => seen[workerId]?.join, station := station } j :=
    fun j hj station => full_update (hfull j hj) hj.ne rfl
  have hslot : ∀ w, (seen[w]?.join).isSome → ∃ p,
      update s.pool r (fun workerId => seen[workerId]?.join) r w = some p ∧ fresh p := by
    intro w hw
    obtain ⟨p, hp⟩ := Option.isSome_iff_exists.mp hw
    refine ⟨p, ?_, hseen w p (Option.join_eq_some_iff.mp hp)⟩
    rw [update_self, hp]
  obtain ⟨hall, heq⟩ | ⟨-, -, heq⟩ | ⟨-, heq⟩ :=
    assess_cases s.init r runtime.num fun workerId => seen[workerId]?.join
  · rw [heq]
    intro j hj
    by_cases hjr : j = r
    · subst hjr
      intro runtime' hr' w hw
      rw [hr] at hr'
      cases hr'
      exact hslot w (hall w hw)
    · exact hbefore j (by omega) _
  · rw [heq]
    exact mended_of_outside rfl
  · rw [heq]
    refine ⟨fun j hj => hbefore j hj _, ?_⟩
    intro runtime' hr' w hw hids
    rw [hr] at hr'
    cases hr'
    apply hslot w
    by_contra hnone
    apply hids
    rw [List.mem_filter, List.mem_range]
    exact ⟨hw, by simpa using hnone⟩

theorem Mended.start (h : Mended d fresh s) (hborn : fresh s.born) {r workerId : ℕ} {ids : List ℕ}
    (hs : s.station = .start r (workerId :: ids)) :
    Mended d fresh { s.startProcess r workerId with station := .start r ids } := by
  simp only [Mended, hs] at h
  obtain ⟨hfull, hslot⟩ := h
  refine ⟨fun j hj => full_update (hfull j hj) hj.ne rfl, ?_⟩
  intro runtime hr w hw hids
  simp only [startProcess, update_self]
  by_cases heq : w = workerId
  · rw [heq, update_self]
    exact ⟨s.born, rfl, hborn⟩
  · rw [update_of_ne heq]
    exact hslot runtime hr w hw (by simp [heq, hids])

theorem Mended.move (h : Mended d fresh s) (hslots : Slots d s)
    (hlive : ∀ p < s.born, (s.children p).exited = false → fresh p) (hborn : fresh s.born)
    (hm : Move d s a s') : Mended d fresh s' := by
  cases hm
  case stage r hs hr =>
    simp only [Mended, hs] at h
    exact ⟨h, fun w p hw => by simp at hw⟩
  case checked r hs hr =>
    simp only [Mended, hs] at h
    right
    intro j
    by_cases hj : j < r
    · exact h j hj
    · exact full_of_le (by omega)
  case look r seen runtime hs hr hlen =>
    simp only [Mended, hs] at h
    refine ⟨h.1, ?_⟩
    intro w p hw
    by_cases hlt : w < seen.length
    · rw [List.getElem?_append_left hlt] at hw
      exact h.2 w p hw
    · rw [List.getElem?_append_right (by omega), List.getElem?_singleton] at hw
      split at hw
      · have hlook := look_eq_some.mp (Option.some.inj hw)
        exact hlive p (hslots.pooled.held hlook.1).1 hlook.2
      · cases hw
  case assess r seen runtime hs hr hnum => exact h.assess hs hr
  case started r hs =>
    simp only [Mended, hs] at h
    intro j hj
    by_cases hjr : j = r
    · subst hjr
      exact fun runtime hr w hw => h.2 runtime hr w hw List.not_mem_nil
    · exact h.1 j (by omega)
  case start r workerId ids hs => exact h.start hborn hs
  case failed r hs => exact .inl rfl
  case daemons i hs hi =>
    simp only [Mended, hs] at h
    refine h.imp_left fun hshutdown => ?_
    simp [hshutdown]
  case service i hs hi =>
    simp only [Mended, hs] at h
    refine h.imp_left fun hshutdown => ?_
    simp [hshutdown]
  case launch hs =>
    apply mended_of_outside
    dsimp only
    split <;> rfl
  case guard hs =>
    by_cases hshutdown : s.serverShutdown = true
    · exact mended_of_outside (by simp [hshutdown, Station.inRound])
    · simp only [Mended, if_neg hshutdown]
      intro j hj
      omega
  case childExit p hp => exact h.of_frame rfl rfl id
  case serviceExit p hp => exact h.of_frame rfl rfl id
  case daemonExit i => exact h.of_frame rfl rfl id
  case signal => exact h.of_frame rfl rfl fun _ => rfl
  case tick => exact h.of_frame rfl rfl id
  all_goals exact mended_of_outside rfl

/-- When the guard goes to sleep, each slot of each stage holds a process that had not exited when
its round began. -/
theorem round_restores_workers (hs₀ : Run d s₀) (hguard : s₀.station = .guard)
    (hs : Reachable (step d) (fun _ _ => True) s₀ s) {wake : ℕ} (hsleep : s.station = .sleep wake)
    (hshutdown : s.serverShutdown = false) {r : ℕ} {runtime : PyRuntime}
    (hr : d.runtimes[r]? = some runtime) {w : ℕ} (hw : w < runtime.num) :
    ∃ p < s.born, s.pool r w = some p ∧ (s.children p).runtime = r ∧
      (s.children p).workerId = w ∧ (p < s₀.born → (s₀.children p).exited = false) := by
  have hmended : Mended d (fun p => p < s₀.born → (s₀.children p).exited = false) s := by
    refine hs.invariant_of (fun _ => id) ?_ fun t a t' ht _ h _ hstep => ?_
    · exact mended_of_outside (by rw [hguard]; rfl)
    · have hgrows := grows_of_run ht
      refine h.move (slots_of_run (run_trans hs₀ ht)) ?_ ?_ (move_of_step hstep)
      · intro p _ hlive hp
        by_contra hexited
        rw [hgrows.exited p hp (by simpa using hexited)] at hlive
        cases hlive
      · intro hp
        have hborn := hgrows.born
        omega
  simp only [Mended, hsleep, hshutdown, Bool.false_eq_true, false_or] at hmended
  obtain ⟨p, hp, hfresh⟩ := hmended r runtime hr w hw
  obtain ⟨hborn, hrun, hworker⟩ := (slots_of_run (run_trans hs₀ hs)).pooled.held hp
  exact ⟨p, hborn, hp, hrun, hworker, hfresh⟩

theorem round_restores_workers_lost : ∃ s₀ s, Transition.run (step pair) new firstLoss = some s₀ ∧
    (s₀.children 0).exited = true ∧ Transition.run (step pair) s₀ nextRound = some s ∧
      ∃ p, s.pool 0 0 = some p ∧ p ≠ 0 := by
  have hview : ((Transition.run (step pair) new firstLoss).bind fun s₀ =>
      (Transition.run (step pair) s₀ nextRound).map fun s =>
        (s₀.station, s₀.born, s₀.children 0, s.station, s.serverShutdown)) =
      some (.guard, 2, ⟨0, 0, true⟩, .sleep 2, false) := by
    decide
  obtain ⟨s₀, hs₀, hrest⟩ := Option.bind_eq_some_iff.mp hview
  obtain ⟨s, hs, hfields⟩ := Option.map_eq_some_iff.mp hrest
  simp only [Prod.mk.injEq] at hfields
  obtain ⟨hguard, hborn, hchild, hsleep, hshutdown⟩ := hfields
  obtain ⟨p, -, hpool, -, -, hfresh⟩ := round_restores_workers (Transition.reachable_of_run hs₀)
    hguard (Transition.reachable_of_run hs) hsleep hshutdown
    (show pair.runtimes[0]? = some pair.runtimes[0] from rfl) (show 0 < 2 by decide)
  refine ⟨s₀, s, hs₀, by rw [hchild], hs, p, hpool, ?_⟩
  rintro rfl
  have hexited := hfresh (by omega)
  rw [hchild] at hexited
  cases hexited

end Supervisor

end Mosec
