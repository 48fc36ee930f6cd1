import Mathlib.Data.List.Forall2

namespace Attempts

variable {ε α β : Type}

theorem bind_eq_ok {x : Except ε α} {f : α → Except ε β} {b : β} :
    x >>= f = .ok b ↔ ∃ a, x = .ok a ∧ f a = .ok b := by
  cases x with
  | error e =>
    constructor
    · intro h
      cases h
    · rintro ⟨a, ha, -⟩
      cases ha
  | ok a =>
    constructor
    · exact fun h => ⟨a, rfl, h⟩
    · rintro ⟨a', ha, h⟩
      cases ha
      exact h

theorem bind_eq_error {x : Except ε α} {f : α → Except ε β} {e : ε} :
    x >>= f = .error e ↔ x = .error e ∨ ∃ a, x = .ok a ∧ f a = .error e := by
  cases x with
  | error e' =>
    constructor
    · intro h
      cases h
      exact .inl rfl
    · rintro (h | ⟨a, ha, -⟩)
      · cases h
        rfl
      · cases ha
  | ok a =>
    constructor
    · exact fun h => .inr ⟨a, rfl, h⟩
    · rintro (h | ⟨a', ha, h⟩)
      · cases h
      · cases ha
        exact h

theorem mapM_eq_ok {f : α → Except ε β} {xs : List α} {ys : List β} :
    xs.mapM f = .ok ys ↔ List.Forall₂ (fun x y => f x = .ok y) xs ys := by
  induction xs generalizing ys with
  | nil =>
    rw [List.forall₂_nil_left_iff]
    constructor
    · intro h
      cases h
      rfl
    · intro h
      rw [h]
      rfl
  | cons x xs ih =>
    rw [List.mapM_cons, bind_eq_ok, List.forall₂_cons_left_iff]
    constructor
    · rintro ⟨y, hy, h⟩
      obtain ⟨ys', hys, h⟩ := bind_eq_ok.mp h
      cases h
      exact ⟨y, ys', hy, ih.mp hys, rfl⟩
    · rintro ⟨y, ys', hy, hys, rfl⟩
      exact ⟨y, hy, bind_eq_ok.mpr ⟨ys', ih.mpr hys, rfl⟩⟩

theorem mapM_eq_error {f : α → Except ε β} {xs : List α} {e : ε} :
    xs.mapM f = .error e ↔ ∃ (i : ℕ) (h : i < xs.length),
      (∀ (j : ℕ) (hj : j < i), ∃ y, f xs[j] = .ok y) ∧ f xs[i] = .error e := by
  induction xs with
  | nil =>
    constructor
    · intro h
      cases h
    · rintro ⟨i, h, -⟩
      exact absurd h (Nat.not_lt_zero i)
  | cons x xs ih =>
    rw [List.mapM_cons, bind_eq_error]
    constructor
    · rintro (h | ⟨y, hy, h⟩)
      · exact ⟨0, Nat.zero_lt_succ _, fun j hj => absurd hj (Nat.not_lt_zero j), h⟩
      · cases bind_eq_error.mp h with
        | inl h =>
          obtain ⟨i, hi, hbefore, hf⟩ := ih.mp h
          refine ⟨i + 1, Nat.succ_lt_succ hi, ?_, hf⟩
          intro j hj
          cases j with
          | zero => exact ⟨y, hy⟩
          | succ j => exact hbefore j (Nat.lt_of_succ_lt_succ hj)
        | inr h =>
          obtain ⟨ys, -, h⟩ := h
          cases h
    · rintro ⟨i, hi, hbefore, hf⟩
      cases i with
      | zero => exact .inl hf
      | succ i =>
        obtain ⟨y, hy⟩ := hbefore 0 (Nat.zero_lt_succ i)
        refine .inr ⟨y, hy, bind_eq_error.mpr (.inl ?_)⟩
        apply ih.mpr
        exact ⟨i, Nat.lt_of_succ_lt_succ hi, fun j hj => hbefore (j + 1) (Nat.succ_lt_succ hj), hf⟩

variable {f : α × ℕ → Except ε β} {xs : List α}

theorem mapM_zipIdx_eq_ok {ys : List β} :
    xs.zipIdx.mapM f = .ok ys ↔ ys.length = xs.length ∧
      ∀ (i : ℕ) (h : i < xs.length) (h' : i < ys.length), f (xs[i], i) = .ok ys[i] := by
  rw [mapM_eq_ok, List.forall₂_iff_get]
  simp only [List.get_eq_getElem, List.length_zipIdx, List.getElem_zipIdx, Nat.zero_add,
    eq_comm (a := xs.length)]

theorem mapM_zipIdx_eq_error {e : ε} :
    xs.zipIdx.mapM f = .error e ↔ ∃ (i : ℕ) (h : i < xs.length),
      (∀ (j : ℕ) (hj : j < i), ∃ y, f (xs[j], j) = .ok y) ∧ f (xs[i], i) = .error e := by
  rw [mapM_eq_error]
  simp only [List.length_zipIdx, List.getElem_zipIdx, Nat.zero_add]

def firstError (f : α → Except ε β) (xs : List α) : Option ε :=
  xs.findSome? fun x => match f x with
    | .error e => some e
    | .ok _ => none

section FirstError

variable {f : α → Except ε β} {xs : List α}

theorem firstError_cons_error {x : α} {e : ε} (h : f x = .error e) :
    firstError f (x :: xs) = some e := by
  rw [firstError, List.findSome?_cons, h]

theorem firstError_cons_ok {x : α} {y : β} (h : f x = .ok y) :
    firstError f (x :: xs) = firstError f xs := by
  rw [firstError, List.findSome?_cons, h]
  rfl

theorem firstError_eq_none_iff : firstError f xs = none ↔ ∀ x ∈ xs, ∃ y, f x = .ok y := by
  rw [firstError, List.findSome?_eq_none_iff]
  refine forall₂_congr fun x _ => ?_
  cases f x <;> simp

theorem mapM_cons_error {x : α} {e : ε} (h : f x = .error e) :
    (x :: xs).mapM f = .error e := by
  rw [List.mapM_cons, h]
  rfl

theorem mapM_of_firstError {e : ε} (h : firstError f xs = some e) : xs.mapM f = .error e := by
  induction xs with
  | nil => cases h
  | cons x xs ih =>
    cases hx : f x with
    | error e' =>
      rw [firstError_cons_error hx, Option.some.injEq] at h
      rw [mapM_cons_error hx, h]
    | ok y =>
      rw [firstError_cons_ok hx] at h
      rw [List.mapM_cons, hx, ih h]
      rfl

theorem forall₂_of_no_error (h : firstError f xs = none) :
    ∃ ys, List.Forall₂ (fun x y => f x = .ok y) xs ys := by
  induction xs with
  | nil => exact ⟨[], .nil⟩
  | cons x xs ih =>
    cases hx : f x with
    | error e => rw [firstError_cons_error hx] at h; cases h
    | ok y =>
      rw [firstError_cons_ok hx] at h
      obtain ⟨ys, hys⟩ := ih h
      exact ⟨y :: ys, .cons hx hys⟩

theorem mapM_zipIdx_fst {g : α → Except ε β} (xs : List α) :
    (xs.zipIdx.mapM fun p => g p.1) = xs.mapM g := by
  have hfst : xs.zipIdx.map Prod.fst = xs := List.zipIdx_map_fst 0 xs
  calc (xs.zipIdx.mapM fun p => g p.1) = (xs.zipIdx.map Prod.fst).mapM g := by
        rw [List.mapM_map]
        rfl
    _ = xs.mapM g := by rw [hfst]

end FirstError

section Folds

variable {f : β → α → Except ε β}

theorem foldlM_flatMap {γ : Type} {g : γ → List α} {xs : List γ} {b : β} :
    (xs.flatMap g).foldlM f b = xs.foldlM (fun b x => (g x).foldlM f b) b := by
  induction xs generalizing b with
  | nil => rfl
  | cons x xs ih =>
    rw [List.flatMap_cons, List.foldlM_append, List.foldlM_cons]
    exact bind_congr fun b' => ih

theorem foldlM_of_ok {I : List α → β → Prop} (done : List α) {xs : List α} {b r : β}
    (hb : I done b)
    (hstep : ∀ before x after b b', xs = before ++ x :: after → I (done ++ before) b →
      f b x = .ok b' → I (done ++ before ++ [x]) b')
    (h : xs.foldlM f b = .ok r) : I (done ++ xs) r := by
  induction xs generalizing done b with
  | nil =>
    cases h
    rwa [List.append_nil]
  | cons x xs ih =>
    obtain ⟨b', hx, hrest⟩ := bind_eq_ok.mp h
    have hb' := hstep [] x xs b b' rfl (by rwa [List.append_nil]) hx
    rw [List.append_nil] at hb'
    have hrun := ih (done ++ [x]) hb' (fun before y after c c' hxs hc hy => by
      have hc' := hstep (x :: before) y after c c' (by rw [hxs, List.cons_append])
        (by rwa [List.append_assoc] at hc) hy
      simpa only [List.append_assoc, List.cons_append, List.nil_append] using hc') hrest
    rwa [List.append_assoc] at hrun

theorem foldlM_ok {I : List α → β → Prop} (done : List α) {xs : List α} {b : β}
    (hb : I done b)
    (hstep : ∀ before x after b, xs = before ++ x :: after → I (done ++ before) b →
      ∃ b', f b x = .ok b' ∧ I (done ++ before ++ [x]) b') :
    ∃ r, xs.foldlM f b = .ok r ∧ I (done ++ xs) r := by
  induction xs generalizing done b with
  | nil =>
    rw [List.append_nil]
    exact ⟨b, rfl, hb⟩
  | cons x xs ih =>
    obtain ⟨b', hx, hb'⟩ := hstep [] x xs b rfl (by rwa [List.append_nil])
    rw [List.append_nil] at hb'
    obtain ⟨r, hr, hI⟩ := ih (done ++ [x]) hb' fun before y after c hxs hc => by
      obtain ⟨c', hy, hc'⟩ := hstep (x :: before) y after c (by rw [hxs, List.cons_append])
        (by rwa [List.append_assoc] at hc)
      exact ⟨c', hy, by simpa only [List.append_assoc, List.cons_append, List.nil_append] using hc'⟩
    refine ⟨r, bind_eq_ok.mpr ⟨b', hx, hr⟩, ?_⟩
    rwa [List.append_assoc] at hI

end Folds

end Attempts
