import Mathlib.Data.Finset.Card
import Mathlib.Data.Finset.Range
import Mosec.Ownership

namespace Mosec.State

open Function (update update_self update_of_ne)
open Transition (Reachable)

variable {svc : Service} {ok : State → Action → Prop} {s s' : State} {a : Action}

abbrev Run (svc : Service) (ok : State → Action → Prop) (s : State) : Prop :=
  Reachable (step svc) ok start s

/-- A run in which no id is given out while it is in use. -/
abbrev FreshRun (svc : Service) (ok : State → Action → Prop) (s : State) : Prop :=
  Run svc (fun s a => s.FreshId a ∧ ok s a) s

theorem unaccepted_of_run (h : Run svc ok s) : s.Unaccepted :=
  h.invariant (fun _ _ => rfl) fun _ _ _ hs _ hstep => hs.step hstep

theorem coherent_of_run (h : FreshRun svc ok s) : s.Coherent :=
  Reachable.invariant_of (fun _ => unaccepted_of_run) coherent_start
    (fun _ _ _ hconns _ hs hok hstep => hs.step hconns hok.1 hstep) h

structure Numbered (s : State) : Prop where
  currentId : s.manager.currentId = UInt32.ofNat s.manager.allocated
  taken : ∀ n < s.manager.allocated, (s.manager.owner (UInt32.ofNat n)).isSome
  below : ∀ i, (s.manager.owner i).isSome → i.toNat < s.manager.allocated

theorem Numbered.of_eq (hs : s.Numbered) (hcur : s'.manager.currentId = s.manager.currentId)
    (hall : s'.manager.allocated = s.manager.allocated)
    (hown : s'.manager.owner = s.manager.owner) : s'.Numbered where
  currentId := by
    rw [hcur, hall]
    exact hs.currentId
  taken := by
    rw [hall, hown]
    exact hs.taken
  below := by
    rw [hall, hown]
    exact hs.below

theorem Numbered.takeId (hs : s.Numbered) {h : ℕ} {q : Request} :
    (s.setRequest h (s.manager.takeId h) q).Numbered where
  currentId := by
    change s.manager.currentId + 1 = UInt32.ofNat (s.manager.allocated + 1)
    rw [hs.currentId, UInt32.ofNat_add]
    rfl
  taken := by
    intro n hn
    change (update s.manager.owner s.manager.currentId (some h) (UInt32.ofNat n)).isSome
    by_cases hcur : UInt32.ofNat n = s.manager.currentId
    · rw [hcur, update_self]
      rfl
    · rw [update_of_ne hcur]
      apply hs.taken
      have hne : n ≠ s.manager.allocated := by
        rintro rfl
        exact hcur hs.currentId.symm
      have hlt : n < s.manager.allocated + 1 := hn
      omega
  below := by
    intro i hi
    change i.toNat < s.manager.allocated + 1
    by_cases hcur : i = s.manager.currentId
    · rw [hcur, hs.currentId, UInt32.toNat_ofNat']
      have := Nat.mod_le s.manager.allocated (2 ^ 32)
      omega
    · replace hi : (update s.manager.owner s.manager.currentId (some h) i).isSome := hi
      rw [update_of_ne hcur] at hi
      have := hs.below i hi
      omega

theorem Numbered.step (hs : s.Numbered) (h : s.step svc a = some s') : s'.Numbered := by
  cases a with
  | submit isSse key body =>
    obtain rfl := Option.some.inj h
    have hmanager : (s.submit isSse key body).manager =
        (Request.submit s.manager s.submitted isSse key body).1 := rfl
    rcases submit_manager s.manager s.submitted isSse key body with hm | hm
    · apply hs.of_eq <;> rw [hmanager, hm]
    · apply hs.of_eq <;> rw [hmanager, hm] <;> rfl
  | request n act =>
    obtain ⟨⟨m, q⟩, hstep, rfl⟩ := Option.map_eq_some_iff.mp h
    have hm := Request.move_of_step hstep
    cases hm
    case takeId => exact hs.takeId
    all_goals exact hs.of_eq rfl rfl rfl
  | connect r =>
    simp only [State.step] at h
    split at h
    · cases h
      exact hs.of_eq rfl rfl rfl
    · cases h
  | conn k act =>
    obtain ⟨⟨m, c⟩, hstep, rfl⟩ := Option.map_eq_some_iff.mp h
    obtain ⟨ids, hm⟩ := Conn.move_of_step hstep
    exact hs.of_eq hm.currentId hm.allocated hm.owner

theorem numbered_of_run (h : Run svc ok s) : s.Numbered := by
  refine h.invariant ⟨rfl, ?_, ?_⟩ fun _ _ _ hs _ hstep => hs.step hstep
  · intro n hn
    cases hn
  · intro i hi
    cases hi

theorem allocated_le_submitted (hs : s.Coherent) (hn : s.Numbered)
    (hwrap : s.manager.allocated ≤ 2 ^ 32) : s.manager.allocated ≤ s.submitted := by
  have howner : ∀ n < s.manager.allocated, ∃ h < s.submitted,
      (s.requests h).id = UInt32.ofNat n := by
    intro n hlt
    obtain ⟨h, hh⟩ := Option.isSome_iff_exists.mp (hn.taken n hlt)
    obtain ⟨hid, hgiven⟩ := hs.owned hh
    refine ⟨h, ?_, hid⟩
    by_contra hge
    rw [hs.absent (by omega)] at hgiven
    cases hgiven
  choose! f hf hid using howner
  have hcard := Finset.card_le_card_of_injOn (s := Finset.range s.manager.allocated)
    (t := Finset.range s.submitted) f ?_ ?_
  · simpa using hcard
  · intro n hlt
    simpa using hf n (by simpa using hlt)
  · intro n hlt n' hlt' heq
    simp only [Finset.coe_range, Set.mem_Iio] at hlt hlt'
    have hnat := congrArg UInt32.toNat ((hid n hlt).symm.trans (heq ▸ hid n' hlt'))
    rwa [UInt32.toNat_ofNat_of_lt' (lt_of_lt_of_le hlt hwrap),
      UInt32.toNat_ofNat_of_lt' (lt_of_lt_of_le hlt' hwrap)] at hnat

theorem InUse.owned (hs : s.Coherent) {i : UInt32} (h : s.InUse i) :
    (s.manager.owner i).isSome := by
  rcases h with h | h | h | ⟨b, h⟩ | ⟨h, rfl, hact⟩
  · obtain ⟨task, htask⟩ := Option.isSome_iff_exists.mp h
    rw [hs.entry htask]
    rfl
  · obtain ⟨n, hn⟩ := Option.isSome_iff_exists.mp h
    rw [hs.notifier hn]
    rfl
  · obtain ⟨n, hn⟩ := Option.isSome_iff_exists.mp h
    rw [hs.sender hn]
    rfl
  · exact hs.held h
  · rw [hs.active hact]
    rfl

theorem freshId_of_lt (hs : s.Coherent) (hn : s.Numbered) (hlt : s.manager.allocated < 2 ^ 32) :
    s.FreshId a := by
  intro h _ _ huse
  have hbelow := hn.below _ (huse.owned hs)
  rw [hn.currentId, UInt32.toNat_ofNat_of_lt' hlt] at hbelow
  omega

theorem submitted_le_of_step (h : s.step svc a = some s') : s.submitted ≤ s'.submitted := by
  cases a with
  | submit isSse key body =>
    cases h
    exact Nat.le_succ _
  | request n act =>
    obtain ⟨p, -, rfl⟩ := Option.map_eq_some_iff.mp h
    exact le_rfl
  | connect r =>
    simp only [step] at h
    split at h
    · cases h
      exact le_rfl
    · cases h
  | conn k act =>
    obtain ⟨p, -, rfl⟩ := Option.map_eq_some_iff.mp h
    exact le_rfl

def allocates (s : State) : Action → Bool
  | .request h .run => (s.requests h).handler = .takeId
  | _ => false

theorem allocates_request {h : ℕ} {act : RequestAction} (ha : s.allocates (.request h act)) :
    act = .run ∧ (s.requests h).handler = .takeId := by
  cases act
  case run => exact ⟨rfl, of_decide_eq_true ha⟩
  all_goals cases ha

theorem allocated_of_step (h : s.step svc a = some s') : s'.manager.allocated =
    if s.allocates a then s.manager.allocated + 1 else s.manager.allocated := by
  cases a with
  | submit isSse key body =>
    obtain rfl := Option.some.inj h
    change (Request.submit s.manager s.submitted isSse key body).1.allocated = _
    rcases submit_manager s.manager s.submitted isSse key body with hm | hm
    · rw [hm]
      rfl
    · rw [hm]
      rfl
  | request n act =>
    obtain ⟨⟨m, q⟩, hstep, rfl⟩ := Option.map_eq_some_iff.mp h
    have hm := Request.move_of_step hstep
    by_cases hall : s.allocates (.request n act)
    · obtain ⟨rfl, hq⟩ := allocates_request hall
      rw [if_pos hall]
      cases hm <;> first | rfl | simp_all
    · rw [if_neg hall]
      cases hm
      case takeId hq => exact absurd (decide_eq_true hq) hall
      all_goals rfl
  | connect r =>
    simp only [step] at h
    split at h
    · cases h
      rfl
    · cases h
  | conn k act =>
    obtain ⟨⟨m, c⟩, hstep, rfl⟩ := Option.map_eq_some_iff.mp h
    obtain ⟨ids, hm⟩ := Conn.move_of_step hstep
    exact hm.allocated

theorem allocated_le_of_step (h : s.step svc a = some s') :
    s'.manager.allocated ≤ s.manager.allocated + 1 := by
  rw [allocated_of_step h]
  split <;> omega

/-- Fewer than `2 ^ 32` submissions never make an id come back. -/
theorem freshRun_of_submitted (h : Run svc ok s) (hlt : s.submitted < 2 ^ 32) :
    FreshRun svc ok s ∧ s.manager.allocated ≤ s.submitted := by
  induction h with
  | init => exact ⟨.init, le_rfl⟩
  | @step s s' a hs hok hstep ih =>
    have hle := submitted_le_of_step hstep
    obtain ⟨hrun, hall⟩ := ih (by omega)
    have hcoherent := coherent_of_run hrun
    have hnumbered := numbered_of_run hs
    have hfresh : s.FreshId a := freshId_of_lt hcoherent hnumbered (by omega)
    have hrun' : FreshRun svc ok s' := hrun.step ⟨hfresh, hok⟩ hstep
    have hnext := allocated_le_of_step hstep
    refine ⟨hrun', allocated_le_submitted (coherent_of_run hrun') (numbered_of_run hrun') ?_⟩
    omega

theorem freshRun_of_checked {β : Type*} {test : State → Action → Bool} {as : List Action}
    {view : State → β} {n : ℕ} {v : β} (htest : ∀ s a, test s a → ok s a)
    (hchecked : Transition.checked (step svc) test start as)
    (hview : ((Transition.run (step svc) start as).map fun s => (s.submitted, view s)) =
      some (n, v)) (hlt : n < 2 ^ 32) :
    ∃ s, Transition.run (step svc) start as = some s ∧ FreshRun svc ok s ∧ view s = v := by
  obtain ⟨s, hs, hrun, hfields⟩ := Reachable.of_checked htest hchecked hview
  obtain ⟨hsubmitted, hv⟩ := Prod.mk.inj hfields
  rw [← hsubmitted] at hlt
  exact ⟨s, hs, (freshRun_of_submitted hrun hlt).1, hv⟩

end Mosec.State
