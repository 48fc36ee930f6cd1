import Mosec.Runs
import Mosec.Refinement

namespace Mosec

def Life.new (h : ℕ) : Life where
  self := h
  request := .absent
  entry := none
  notifier := false
  sender := false
  carried := none
  oneshot := ⟨false, false, false⟩
  stream := ⟨[], [], false, false⟩
  history := ⟨[], [], [], 0⟩

theorem Request.Move.remains {svc : Service} {m m' : TaskManager} {h : ℕ} {q q' : Request}
    {clones : Bool} {act : RequestAction} (hm : Move svc m h q clones act m' q')
    (hq : q.handler ≠ .absent) : q'.handler ≠ .absent := by
  cases hm
  case accept => by_cases hsse : q.isSse <;> simp [hsse]
  case deleteTask exit hq' => cases exit <;> by_cases hsse : q.isSse <;> simp [afterDelete, hsse]
  case resume => by_cases hsse : q.isSse <;> simp [hsse]
  case receiveEvent => exact hq
  case endStream => exact hq
  case leave => exact hq
  all_goals simp

namespace State

variable {svc : Service} {ok : State → Action → Prop} {s : State}

theorem life_start (h : ℕ) : start.life h = Life.new h := by
  simp [life, start, TaskManager.new, Life.new]

/-- What every step of a submission keeps, of those the condition on the run leaves, holds
through the run. -/
theorem life_invariant_of_step (inv : Life → Prop) (hnew : ∀ h, inv (Life.new h)) (h : ℕ)
    (hstep : ∀ {s a s' lab}, FreshRun svc ok s → ok s a → s.step svc a = some s' →
      s.Caused svc a h lab → Life.Step svc lab (s.life h) (s'.life h) → inv (s.life h) →
      inv (s'.life h))
    (hs : FreshRun svc ok s) : inv (s.life h) := by
  induction hs with
  | init =>
    rw [life_start]
    exact hnew h
  | step hrun hok hmove ih =>
    have hcoherent := coherent_of_run hrun
    rcases refines hcoherent (unaccepted_of_run hrun) hok.1 hmove h with heq | ⟨lab, hlab, hlife⟩
    · rw [heq]
      exact ih
    · exact hstep hrun hok.2 hmove hlab hlife ih

theorem life_invariant (inv : Life → Prop) (hnew : ∀ h, inv (Life.new h))
    (hstep : ∀ {s a h lab ℓ'}, FreshRun svc ok s → ok s a → s.Caused svc a h lab →
      Life.Step svc lab (s.life h) ℓ' → inv (s.life h) → inv ℓ')
    (hs : FreshRun svc ok s) (h : ℕ) : inv (s.life h) :=
  life_invariant_of_step inv hnew h
    (fun hrun hok _ hlab hlife hinv => hstep hrun hok hlab hlife hinv) hs

theorem life_always (inv : Life → Prop) (hnew : ∀ h, inv (Life.new h))
    (hstep : ∀ {lab ℓ ℓ'}, Life.Step svc lab ℓ ℓ' → inv ℓ → inv ℓ') (hs : FreshRun svc ok s)
    (h : ℕ) : inv (s.life h) :=
  life_invariant inv hnew (fun _ _ _ hlife hinv => hstep hlife hinv) hs h

theorem carried_of_held (hs : s.Coherent) {h : ℕ}
    (hown : s.manager.owner (s.requests h).id = some h) {b : Holder}
    (hb : (s.requests h).id ∈ s.holds b) : ∃ p outbox, (s.life h).carried = some (p, outbox) := by
  have hshown := (s.shows_holds b _).mpr hb
  rw [← Custody.locate_eq s.shows_holds hs.exclusive hb] at hshown
  obtain ⟨⟨p, outbox⟩, hp⟩ := Option.isSome_iff_exists.mp hshown
  exact ⟨p, outbox, (life_carried hown).trans hp⟩

theorem present_of_run (hs : FreshRun svc ok s) {h : ℕ} (hlt : h < s.submitted) :
    (s.requests h).handler ≠ .absent := by
  induction hs generalizing h with
  | init => cases hlt
  | @step s s' a hrun hok hstep ih =>
    cases a with
    | submit isSse key body =>
      obtain rfl := Option.some.inj hstep
      by_cases hh : h = s.submitted
      · subst hh
        have hnew : (s.submit isSse key body).requests s.submitted =
            (Request.submit s.manager s.submitted isSse key body).2 := Function.update_self _ _ _
        rw [hnew, Request.submit]
        split
        · simp
        · split <;> simp
      · have hsame : (s.submit isSse key body).requests h = s.requests h :=
          Function.update_of_ne hh _ _
        rw [hsame]
        replace hlt : h < s.submitted + 1 := hlt
        exact ih (by omega)
    | request n act =>
      obtain ⟨⟨m, q⟩, hmove, rfl⟩ := Option.map_eq_some_iff.mp hstep
      by_cases hh : h = n
      · subst hh
        have hafter : (s.setRequest h m q).requests h = q := Function.update_self _ _ _
        rw [hafter]
        exact (Request.move_of_step hmove).remains (ih hlt)
      · have hsame : (s.setRequest n m q).requests h = s.requests h :=
          Function.update_of_ne hh _ _
        rw [hsame]
        exact ih hlt
    | connect r =>
      simp only [State.step] at hstep
      split at hstep
      · obtain rfl := Option.some.inj hstep
        exact ih hlt
      · cases hstep
    | conn k act =>
      obtain ⟨⟨m, c⟩, -, rfl⟩ := Option.map_eq_some_iff.mp hstep
      exact ih hlt

end State

end Mosec
