import Mathlib.Data.List.Basic

namespace Transition

variable {σ α : Type*}

/-- The states met from `init` by steps that all satisfy `ok`. -/
inductive Reachable (step : σ → α → Option σ) (ok : σ → α → Prop) (init : σ) : σ → Prop
  | init : Reachable step ok init init
  | step {s s' : σ} {a : α} : Reachable step ok init s → ok s a → step s a = some s' →
      Reachable step ok init s'

variable {step : σ → α → Option σ} {ok ok' : σ → α → Prop} {init : σ}

theorem Reachable.invariant {inv : σ → Prop} (hinit : inv init)
    (hstep : ∀ s a s', inv s → ok s a → step s a = some s' → inv s')
    {s : σ} (hs : Reachable step ok init s) : inv s := by
  induction hs with
  | init => exact hinit
  | step _ hok hs ih => exact hstep _ _ _ ih hok hs

theorem Reachable.invariant_of {base inv : σ → Prop}
    (hbase : ∀ s, Reachable step ok init s → base s) (hinit : inv init)
    (hstep : ∀ s a s', base s → base s' → inv s → ok s a → step s a = some s' → inv s')
    {s : σ} (hs : Reachable step ok init s) : inv s := by
  induction hs with
  | init => exact hinit
  | step hs hok hstep' ih =>
    exact hstep _ _ _ (hbase _ hs) (hbase _ (hs.step hok hstep')) ih hok hstep'

theorem Reachable.mono (h : ∀ s a, ok s a → ok' s a) {s : σ}
    (hs : Reachable step ok init s) : Reachable step ok' init s := by
  induction hs with
  | init => exact .init
  | step _ hok hs ih => exact ih.step (h _ _ hok) hs

def run (step : σ → α → Option σ) : σ → List α → Option σ
  | s, [] => some s
  | s, a :: as => (step s a).bind fun s' => run step s' as

def Follows (step : σ → α → Option σ) (ok : σ → α → Prop) : σ → List α → Prop
  | _, [] => True
  | s, a :: as => ok s a ∧ ∀ s', step s a = some s' → Follows step ok s' as

theorem Reachable.run {s t : σ} {as : List α} (hs : Reachable step ok init s)
    (has : Follows step ok s as) (hrun : run step s as = some t) : Reachable step ok init t := by
  induction as generalizing s with
  | nil =>
    cases hrun
    exact hs
  | cons a as ih =>
    obtain ⟨s', hs', hrun⟩ := Option.bind_eq_some_iff.mp hrun
    exact ih (hs.step has.1 hs') (has.2 s' hs') hrun

theorem follows_of_all {as : List α} (h : ∀ a ∈ as, ∀ s, ok s a) (s : σ) :
    Follows step ok s as := by
  induction as generalizing s with
  | nil => trivial
  | cons a as ih =>
    have hrest : ∀ a' ∈ as, ∀ s, ok s a' := fun a' ha => h a' (List.mem_cons_of_mem _ ha)
    exact ⟨h a List.mem_cons_self s, fun s' _ => ih hrest s'⟩

theorem Follows.mono (h : ∀ s a, ok s a → ok' s a) {s : σ} {as : List α}
    (has : Follows step ok s as) : Follows step ok' s as := by
  induction as generalizing s with
  | nil => trivial
  | cons a as ih => exact ⟨h s a has.1, fun s' hs' => ih (has.2 s' hs')⟩

theorem follows_true (s : σ) (as : List α) : Follows step (fun _ _ => True) s as := by
  induction as generalizing s with
  | nil => trivial
  | cons a as ih => exact ⟨trivial, fun s' _ => ih s'⟩

theorem reachable_of_run {as : List α} {t : σ} (hrun : Transition.run step init as = some t) :
    Reachable step (fun _ _ => True) init t :=
  Reachable.run .init (follows_true _ _) hrun

theorem Reachable.follows_back {p : σ → Prop}
    (hback : ∀ s a s', Reachable step ok init s → ok s a → step s a = some s' → p s' → p s)
    {s t : σ} {as : List α} (hs : Reachable step ok init s) (has : Follows step ok s as)
    (hrun : Transition.run step s as = some t) (ht : p t) :
    p s ∧ Follows step (fun s a => ok s a ∧ ∀ s', step s a = some s' → p s') s as := by
  induction as generalizing s with
  | nil =>
    cases hrun
    exact ⟨ht, trivial⟩
  | cons a as ih =>
    obtain ⟨s', hs', hrun⟩ := Option.bind_eq_some_iff.mp hrun
    obtain ⟨hp, hfollows⟩ := ih (hs.step has.1 hs') (has.2 s' hs') hrun
    refine ⟨hback s a s' hs has.1 hs' hp, ⟨has.1, ?_⟩, ?_⟩
    · intro s'' hs''
      rw [hs'] at hs''
      cases hs''
      exact hp
    · intro s'' hs''
      rw [hs'] at hs''
      cases hs''
      exact hfollows

/-- A second system follows the first one without the hidden actions. -/
theorem run_erased {τ : Type*} {step' : τ → α → Option τ} {rel : σ → τ → Prop} {hidden : α → Bool}
    (hstep : ∀ s t a s', rel s t → ok s a → step s a = some s' →
      if hidden a then rel s' t else ∃ t', step' t a = some t' ∧ rel s' t')
    {s s' : σ} {t : τ} {as : List α} (hrel : rel s t) (has : Follows step ok s as)
    (hrun : run step s as = some s') :
    ∃ t', run step' t (as.filter fun a => !hidden a) = some t' ∧ rel s' t' := by
  induction as generalizing s t with
  | nil =>
    cases hrun
    exact ⟨t, rfl, hrel⟩
  | cons a as ih =>
    obtain ⟨s₁, hs₁, hrun⟩ := Option.bind_eq_some_iff.mp hrun
    have hone := hstep s t a s₁ hrel has.1 hs₁
    by_cases ha : hidden a
    · rw [if_pos ha] at hone
      rw [List.filter_cons_of_neg (by simp [ha])]
      exact ih hone (has.2 s₁ hs₁) hrun
    · rw [if_neg ha] at hone
      obtain ⟨t₁, ht₁, hrel₁⟩ := hone
      obtain ⟨t', ht', hrel'⟩ := ih hrel₁ (has.2 s₁ hs₁) hrun
      rw [List.filter_cons_of_pos (by simp [ha])]
      exact ⟨t', Option.bind_eq_some_iff.mpr ⟨t₁, ht₁, ht'⟩, hrel'⟩

def checked (step : σ → α → Option σ) (test : σ → α → Bool) : σ → List α → Bool
  | _, [] => true
  | s, a :: as => test s a && (step s a).all fun s' => checked step test s' as

theorem follows_of_checked {test : σ → α → Bool} (htest : ∀ s a, test s a → ok s a) {s : σ}
    {as : List α} (h : checked step test s as) : Follows step ok s as := by
  induction as generalizing s with
  | nil => trivial
  | cons a as ih =>
    simp only [checked, Bool.and_eq_true, Option.all_eq_true] at h
    exact ⟨htest s a h.1, fun s' hs' => ih (h.2 s' hs')⟩

theorem Reachable.of_checked {β : Type*} {test : σ → α → Bool} {as : List α} {view : σ → β} {v : β}
    (htest : ∀ s a, test s a → ok s a) (hchecked : checked step test init as)
    (hview : (Transition.run step init as).map view = some v) :
    ∃ s, Transition.run step init as = some s ∧ Reachable step ok init s ∧ view s = v := by
  obtain ⟨s, hs, hv⟩ := Option.map_eq_some_iff.mp hview
  exact ⟨s, hs, .run .init (follows_of_checked htest hchecked) hs, hv⟩

end Transition
