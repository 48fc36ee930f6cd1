import Mathlib.Data.List.Perm.Subperm
import Mathlib.Data.List.Nodup

namespace Custody

open List

variable {κ ι ν : Type*}

/-- No token is held twice, by one holder or by two. -/
structure Exclusive (holds : κ → List ι) : Prop where
  nodup : ∀ a, (holds a).Nodup
  unique : ∀ {a b i}, i ∈ holds a → i ∈ holds b → a = b

theorem nodup_of_subperm {l l' : List ι} (h : l <+~ l') (hnodup : l'.Nodup) : l.Nodup := by
  obtain ⟨l'', hperm, hsub⟩ := h
  exact hperm.nodup_iff.mp (hnodup.sublist hsub)

variable {holds holds' : κ → List ι}

theorem Exclusive.release (h : Exclusive holds) (hsub : ∀ a, holds' a <+~ holds a) :
    Exclusive holds' where
  nodup a := nodup_of_subperm (hsub a) (h.nodup a)
  unique ha hb := h.unique ((hsub _).subset ha) ((hsub _).subset hb)

theorem Exclusive.acquire (h : Exclusive holds) {b : κ} {i : ι} (hfree : ∀ a, i ∉ holds a)
    (hb : holds' b <+~ i :: holds b) (hrest : ∀ a, a ≠ b → holds' a <+~ holds a) :
    Exclusive holds' where
  nodup a := by
    by_cases hab : a = b
    · rw [hab]
      exact nodup_of_subperm hb (List.nodup_cons.mpr ⟨hfree b, h.nodup b⟩)
    · exact nodup_of_subperm (hrest a hab) (h.nodup a)
  unique := by
    have hmem : ∀ {a j}, j ∈ holds' a → j = i ∧ a = b ∨ j ∈ holds a := by
      intro a j hj
      by_cases hab : a = b
      · rw [hab] at hj ⊢
        rcases List.mem_cons.mp (hb.subset hj) with hji | hj
        · exact Or.inl ⟨hji, rfl⟩
        · exact Or.inr hj
      · exact Or.inr ((hrest a hab).subset hj)
    intro a c j ha hc
    rcases hmem ha with ⟨hji, hab⟩ | ha
    · rcases hmem hc with ⟨-, hcb⟩ | hc
      · rw [hab, hcb]
      · exact absurd (hji ▸ hc) (hfree c)
    · rcases hmem hc with ⟨hji, -⟩ | hc
      · exact absurd (hji ▸ ha) (hfree a)
      · exact h.unique ha hc

theorem Exclusive.transfer (h : Exclusive holds) [DecidableEq κ] {a b : κ} {i : ι} (hab : a ≠ b)
    (ha : i :: holds' a <+~ holds a) (hb : holds' b <+~ i :: holds b)
    (hrest : ∀ c, c ≠ a → c ≠ b → holds' c <+~ holds c) : Exclusive holds' := by
  have hmid : Exclusive (Function.update holds a (holds' a)) := by
    apply h.release
    intro c
    by_cases hc : c = a
    · rw [hc, Function.update_self]
      exact (List.sublist_cons_self i _).subperm.trans ha
    · rw [Function.update_of_ne hc]
  refine hmid.acquire (b := b) (i := i) ?_ ?_ ?_
  · intro c hc
    by_cases hca : c = a
    · rw [hca, Function.update_self] at hc
      exact (List.nodup_cons.mp (nodup_of_subperm ha (h.nodup a))).1 hc
    · rw [Function.update_of_ne hca] at hc
      exact hca (h.unique hc (ha.subset (by simp)))
  · rwa [Function.update_of_ne hab.symm]
  · intro c hcb
    by_cases hca : c = a
    · rw [hca, Function.update_self]
    · rw [Function.update_of_ne hca]
      exact hrest c hca hcb

def Shows (view : κ → ι → Option ν) (holds : κ → List ι) : Prop :=
  ∀ a i, (view a i).isSome ↔ i ∈ holds a

open Classical in
noncomputable def pick (shown : κ → Option ν) : Option ν :=
  if h : ∃ a, (shown a).isSome then shown h.choose else none

noncomputable def locate (view : κ → ι → Option ν) (i : ι) : Option ν := pick fun a => view a i

variable {view view' : κ → ι → Option ν}

theorem locate_eq_none {i : ι} (h : ∀ a, view a i = none) : locate view i = none := by
  simp [locate, pick, h]

theorem locate_eq (hview : Shows view holds) (hholds : Exclusive holds) {a : κ} {i : ι}
    (ha : i ∈ holds a) : locate view i = view a i := by
  have hex : ∃ a, (view a i).isSome := ⟨a, (hview a i).mpr ha⟩
  have hchoose := (hview hex.choose i).mp hex.choose_spec
  rw [locate, pick, dif_pos hex, hholds.unique hchoose ha]

theorem locate_congr {i : ι} (h : ∀ a, view' a i = view a i) : locate view' i = locate view i :=
  congrArg pick (funext h)

theorem exists_of_locate {i : ι} {v : ν} (h : locate view i = some v) : ∃ a, view a i = some v := by
  by_cases hex : ∃ a, (view a i).isSome
  · rw [locate, pick, dif_pos hex] at h
    exact ⟨_, h⟩
  · rw [locate, pick, dif_neg hex] at h
    cases h

end Custody
