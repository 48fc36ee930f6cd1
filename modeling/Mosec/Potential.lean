import Mathlib.Algebra.BigOperators.Group.Finset.Basic
import Mathlib.Algebra.BigOperators.Intervals
import Mathlib.Algebra.Order.BigOperators.Group.Finset
import Mosec.Transition

namespace Transition

open Function (update update_self update_of_ne)

section Sums

variable {ι α : Type*} [DecidableEq ι]

theorem sum_update_le {t : Finset ι} {k : ι} (hk : k ∈ t) {f h : α → ℕ} (g : ι → α) (v : α)
    (hle : ∀ x, h x ≤ f x) :
    ∑ i ∈ t, h (update g k v i) + f (g k) ≤ ∑ i ∈ t, f (g i) + h v := by
  have hrest : ∑ i ∈ t.erase k, h (update g k v i) ≤ ∑ i ∈ t.erase k, f (g i) := by
    apply Finset.sum_le_sum
    intro i hi
    rw [update_of_ne (Finset.ne_of_mem_erase hi)]
    exact hle (g i)
  have hnew := Finset.add_sum_erase t (fun i => h (update g k v i)) hk
  have hold := Finset.add_sum_erase t (fun i => f (g i)) hk
  simp only [update_self] at hnew
  omega

theorem sum_update_eq {t : Finset ι} {k : ι} (hk : k ∈ t) (f : α → ℕ) (g : ι → α) (v : α) :
    ∑ i ∈ t, f (update g k v i) + f (g k) = ∑ i ∈ t, f (g i) + f v := by
  have hle := sum_update_le hk (f := f) (h := f) g v fun _ => le_rfl
  have hge := sum_update_le hk (f := f) (h := f) (update g k v) (g k) fun _ => le_rfl
  simp only [Function.update_idem, Function.update_eq_self, update_self] at hge
  omega

theorem sum_update_of_notMem {t : Finset ι} {k : ι} (hk : k ∉ t) (f : α → ℕ) (g : ι → α) (v : α) :
    ∑ i ∈ t, f (update g k v i) = ∑ i ∈ t, f (g i) := by
  apply Finset.sum_congr rfl
  intro i hi
  rw [update_of_ne (ne_of_mem_of_not_mem hi hk)]

theorem sum_range_succ_update {β : Type*} (n : ℕ) (f : β → ℕ) (g : ℕ → β) (v : β) :
    ∑ i ∈ Finset.range (n + 1), f (update g n v i) = ∑ i ∈ Finset.range n, f (g i) + f v := by
  rw [Finset.sum_range_succ, sum_update_of_notMem Finset.notMem_range_self, update_self]

end Sums

variable {σ α : Type*} {step : σ → α → Option σ} {ok : σ → α → Prop} {inv : σ → Prop} {μ : σ → ℕ}
  {s : σ}

theorem all_of_follows {ok : α → Prop} {as : List α} {t : σ}
    (has : Follows step (fun _ a => ok a) s as) (hrun : run step s as = some t) :
    ∀ a ∈ as, ok a := by
  induction as generalizing s with
  | nil => simp
  | cons a as ih =>
    obtain ⟨s', hs', hrun⟩ := Option.bind_eq_some_iff.mp hrun
    exact List.forall_mem_cons.mpr ⟨has.1, ih (has.2 s' hs') hrun⟩

/-- The steps of a kind that uses up potential are no more than the potential, where no other step
adds to it. -/
theorem countP_le_of_descent {p : α → Bool}
    (hdescent : ∀ s a s', inv s → ok s a → step s a = some s' →
      inv s' ∧ μ s' + (if p a then 1 else 0) ≤ μ s)
    {as : List α} {t : σ} (hs : inv s) (has : Follows step ok s as)
    (hrun : run step s as = some t) : inv t ∧ as.countP p + μ t ≤ μ s := by
  induction as generalizing s with
  | nil =>
    cases hrun
    exact ⟨hs, by simp⟩
  | cons a as ih =>
    obtain ⟨s', hs', hrun⟩ := Option.bind_eq_some_iff.mp hrun
    obtain ⟨hinv, hle⟩ := hdescent s a s' hs has.1 hs'
    obtain ⟨ht, hrest⟩ := ih hinv (has.2 s' hs') hrun
    refine ⟨ht, ?_⟩
    rw [List.countP_cons]
    omega

theorem length_le_of_descent
    (hdescent : ∀ s a s', inv s → ok s a → step s a = some s' → inv s' ∧ μ s' < μ s)
    {as : List α} {t : σ} (hs : inv s) (has : Follows step ok s as)
    (hrun : run step s as = some t) : inv t ∧ as.length + μ t ≤ μ s := by
  have hcount := countP_le_of_descent (p := fun _ => true) hdescent hs has hrun
  simpa using hcount

theorem exists_settled
    (hdescent : ∀ s a s', inv s → ok s a → step s a = some s' → inv s' ∧ μ s' < μ s)
    (hs : inv s) : ∃ as t, Follows step ok s as ∧ run step s as = some t ∧ inv t ∧
      ∀ a, ok t a → step t a = none := by
  induction hn : μ s using Nat.strong_induction_on generalizing s with
  | _ n ih =>
    by_cases hsettled : ∀ a, ok s a → step s a = none
    · exact ⟨[], s, trivial, rfl, hs, hsettled⟩
    · push Not at hsettled
      obtain ⟨a, hok, hstep⟩ := hsettled
      obtain ⟨s', hs'⟩ := Option.ne_none_iff_exists'.mp hstep
      obtain ⟨hinv, hlt⟩ := hdescent s a s' hs hok hs'
      obtain ⟨as, t, has, hrun, ht⟩ := ih (μ s') (by omega) hinv rfl
      refine ⟨a :: as, t, ⟨hok, ?_⟩, ?_, ht⟩
      · intro s'' hs''
        rw [hs'] at hs''
        cases hs''
        exact has
      · rw [run, hs']
        exact hrun

end Transition
