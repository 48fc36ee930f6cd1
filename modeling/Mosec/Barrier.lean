import Mosec.Potential

/-- A barrier that opens each time `size` parties have arrived. -/
structure Barrier where
  size : ℕ
  arrived : ℕ
  generation : ℕ
  deriving DecidableEq, Repr

namespace Barrier

def new (size : ℕ) : Barrier := ⟨size, 0, 0⟩

def arrive (b : Barrier) : Barrier :=
  if b.arrived + 1 = b.size then { b with arrived := 0, generation := b.generation + 1 }
  else { b with arrived := b.arrived + 1 }

variable {ι : Type*} {b : Barrier} {t : Finset ι} {came came' : ι → ℕ}

@[simp] theorem arrive_size : b.arrive.size = b.size := by
  unfold arrive
  split <;> rfl

structure Balanced (b : Barrier) (t : Finset ι) (came : ι → ℕ) : Prop where
  sum : ∑ i ∈ t, came i = b.generation * b.size + b.arrived
  lt : b.arrived < b.size

theorem balanced_new {size : ℕ} (hpos : 0 < size) (h : ∀ i ∈ t, came i = 0) :
    (new size).Balanced t came := by
  refine ⟨?_, hpos⟩
  rw [Finset.sum_eq_zero h]
  simp only [new, Nat.zero_mul, Nat.add_zero]

theorem Balanced.congr (h : b.Balanced t came) (heq : ∀ i ∈ t, came' i = came i) :
    b.Balanced t came' :=
  ⟨(Finset.sum_congr rfl heq).trans h.sum, h.lt⟩

theorem Balanced.arrive [DecidableEq ι] (h : b.Balanced t came) {i : ι} (hi : i ∈ t)
    (hself : came' i = came i + 1) (hother : ∀ j ∈ t, j ≠ i → came' j = came j) :
    b.arrive.Balanced t came' := by
  obtain ⟨hbalance, hlt⟩ := h
  have hnew := Finset.add_sum_erase t came' hi
  have hold := Finset.add_sum_erase t came hi
  have hrest : ∑ j ∈ t.erase i, came' j = ∑ j ∈ t.erase i, came j :=
    Finset.sum_congr rfl fun j hj =>
      hother j (Finset.mem_of_mem_erase hj) (Finset.ne_of_mem_erase hj)
  unfold Barrier.arrive
  split
  · next hlast =>
    refine ⟨?_, Nat.zero_lt_of_lt hlt⟩
    dsimp only
    rw [Nat.add_mul]
    omega
  · exact ⟨by dsimp only; omega, by dsimp only; omega⟩

theorem arrive_generation (b : Barrier) :
    b.arrive.generation = b.generation ∨ b.arrive.generation = b.generation + 1 := by
  unfold arrive
  split
  · exact .inr rfl
  · exact .inl rfl

theorem Balanced.all_came (h : b.Balanced t came) (hcard : t.card = b.size)
    (honce : ∀ i ∈ t, came i ≤ 1) (hopen : 0 < b.generation) :
    b.generation = 1 ∧ ∀ i ∈ t, came i = 1 := by
  obtain ⟨hbalance, hlt⟩ := h
  have hle : ∑ i ∈ t, came i ≤ t.card := by
    rw [Finset.card_eq_sum_ones]
    exact Finset.sum_le_sum honce
  have hgen : b.generation = 1 := by
    by_contra hne
    have hmul := Nat.mul_le_mul_right b.size (show 2 ≤ b.generation by omega)
    omega
  refine ⟨hgen, fun i hi => ?_⟩
  by_contra hmissing
  have hlt : ∑ i ∈ t, came i < ∑ i ∈ t, 1 := by
    apply Finset.sum_lt_sum honce
    have hone := honce i hi
    exact ⟨i, hi, by omega⟩
  rw [← Finset.card_eq_sum_ones, hbalance, hgen] at hlt
  omega

theorem Balanced.opens (h : b.Balanced t came) (hcard : t.card = b.size)
    (hall : ∀ i ∈ t, came i = 1) : b.generation = 1 ∧ b.arrived = 0 := by
  obtain ⟨hbalance, hlt⟩ := h
  rw [Finset.sum_congr rfl hall, ← Finset.card_eq_sum_ones, hcard] at hbalance
  have hgen : b.generation = 1 := by
    by_contra hne
    rcases Nat.lt_or_gt_of_ne hne with hzero | htwo
    · rw [show b.generation = 0 by omega] at hbalance
      omega
    · have hmul := Nat.mul_le_mul_right b.size (show 2 ≤ b.generation by omega)
      omega
  rw [hgen] at hbalance
  exact ⟨hgen, by omega⟩

end Barrier
