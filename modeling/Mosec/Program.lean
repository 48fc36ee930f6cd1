import Mathlib.Data.List.Basic

namespace Program

variable {ε σ α β : Type}

def finalState (x : EStateM ε σ α) (s : σ) : σ :=
  match x s with
  | .ok _ s' => s'
  | .error _ s' => s'

/-- From a state of `pre`, the program returns in `post` or raises in `err`. -/
def Triple (pre : σ → Prop) (x : EStateM ε σ α) (post : α → σ → Prop) (err : ε → σ → Prop) : Prop :=
  ∀ s, pre s → match x s with
    | .ok a s' => post a s'
    | .error e s' => err e s'

variable {pre pre' : σ → Prop} {x : EStateM ε σ α} {f : α → EStateM ε σ β} {post : α → σ → Prop}
  {post' : β → σ → Prop} {err : ε → σ → Prop}

namespace Triple

theorem bind (mid : α → σ → Prop) (hx : Triple pre x mid err) (hf : ∀ a, Triple (mid a) (f a) post' err) :
    Triple pre (x >>= f) post' err := by
  intro s hs
  have hmid := hx s hs
  change match EStateM.bind x f s with
    | .ok a s' => post' a s'
    | .error e s' => err e s'
  rw [EStateM.bind]
  cases hrun : x s with
  | ok a s' =>
    rw [hrun] at hmid
    exact hf a s' hmid
  | error e s' =>
    rw [hrun] at hmid
    exact hmid

theorem pure (a : α) (h : ∀ s, pre s → post a s) : Triple pre (Pure.pure a) post err := h

theorem throw (e : ε) (h : ∀ s, pre s → err e s) :
    Triple pre (MonadExcept.throw e : EStateM ε σ α) post err := h

theorem set {post : PUnit → σ → Prop} (s : σ) (h : ∀ s', pre s' → post ⟨⟩ s) :
    Triple pre (MonadStateOf.set s : EStateM ε σ PUnit) post err := h

theorem update {post : PUnit → σ → Prop} (g : σ → σ) (h : ∀ s, pre s → post ⟨⟩ (g s)) :
    Triple pre (modify g : EStateM ε σ PUnit) post err := h

theorem get_bind {f : σ → EStateM ε σ β} (h : ∀ s, pre s → Triple (fun s' => s' = s) (f s) post' err) :
    Triple pre (MonadState.get >>= f) post' err := by
  intro s hs
  exact h s hs s rfl

theorem weaken {mid : α → σ → Prop} {err' : ε → σ → Prop} (h : Triple pre x mid err')
    (hpre : ∀ s, pre' s → pre s) (hpost : ∀ a s, mid a s → post a s)
    (herr : ∀ e s, err' e s → err e s) : Triple pre' x post err := by
  intro s hs
  have hx := h s (hpre s hs)
  cases hrun : x s with
  | ok a s' =>
    rw [hrun] at hx
    exact hpost a s' hx
  | error e s' =>
    rw [hrun] at hx
    exact herr e s' hx

theorem assume {p : Prop} (h : p → Triple pre x post err) :
    Triple (fun s => pre s ∧ p) x post err :=
  fun s hs => h hs.2 s hs.1

theorem ite {c : Prop} [Decidable c] {y : EStateM ε σ α}
    (hx : c → Triple pre x post err) (hy : ¬ c → Triple pre y post err) :
    Triple pre (if c then x else y) post err := by
  by_cases hc : c
  · rw [if_pos hc]
    exact hx hc
  · rw [if_neg hc]
    exact hy hc

theorem finalState {inv : σ → Prop} (h : Triple inv x (fun _ => inv) fun _ => inv) {s : σ}
    (hs : inv s) : inv (finalState x s) := by
  have hx := h s hs
  rw [Program.finalState]
  cases hrun : x s with
  | ok a s' =>
    rw [hrun] at hx
    exact hx
  | error e s' =>
    rw [hrun] at hx
    exact hx

theorem foldlM_split {γ : Type} (inv : List γ → β → σ → Prop) {body : β → γ → EStateM ε σ β}
    (l : List γ)
    (hbody : ∀ done a rest b, l = done ++ a :: rest →
      Triple (inv done b) (body b a) (inv (done ++ [a])) err) (b : β) :
    Triple (inv [] b) (l.foldlM body b) (inv l) err := by
  have hrest : ∀ (rest done : List γ) (b : β), l = done ++ rest →
      Triple (inv done b) (rest.foldlM body b) (inv (done ++ rest)) err := by
    intro rest
    induction rest with
    | nil =>
      intro done b _ s hs
      rw [List.append_nil]
      exact hs
    | cons a rest ih =>
      intro done b hl
      rw [List.foldlM_cons]
      apply bind _ (hbody done a rest b hl)
      intro b'
      have hnext := ih (done ++ [a]) b' (by rw [hl, List.append_assoc, List.singleton_append])
      rwa [List.append_assoc, List.singleton_append] at hnext
  exact hrest l [] b rfl

theorem foldlM {γ : Type} (inv : List γ → β → σ → Prop) {body : β → γ → EStateM ε σ β} (l : List γ)
    (hbody : ∀ done a b, a ∈ l → Triple (inv done b) (body b a) (inv (done ++ [a])) err) (b : β) :
    Triple (inv [] b) (l.foldlM body b) (inv l) err :=
  foldlM_split inv l (fun done a _ b hl => hbody done a b (by rw [hl]; simp)) b

end Triple

section Projection

variable {τ : Type} (f : τ → σ)

def mapState : EStateM.Result ε τ α → EStateM.Result ε σ α
  | .ok a t => .ok a (f t)
  | .error e t => .error e (f t)

/-- What `y` does to its own state is, seen through `f`, what `x` does. -/
def Projects (y : EStateM ε τ α) (x : EStateM ε σ α) : Prop := ∀ t, mapState f (y t) = x (f t)

namespace Projects

variable {f} {y : EStateM ε τ α} {g : α → EStateM ε σ β} {k : α → EStateM ε τ β}

theorem bind (hx : Projects f y x) (hg : ∀ a, Projects f (k a) (g a)) :
    Projects f (y >>= k) (x >>= g) := by
  intro t
  have hxt := hx t
  change mapState f (EStateM.bind y k t) = EStateM.bind x g (f t)
  rw [EStateM.bind, EStateM.bind, ← hxt]
  cases y t with
  | ok a t' => exact hg a t'
  | error e t' => rfl

theorem finalState (h : Projects f y x) (t : τ) :
    f (Program.finalState y t) = Program.finalState x (f t) := by
  rw [Program.finalState, Program.finalState, ← h t]
  cases y t <;> rfl

theorem pure (a : α) : Projects f (Pure.pure a : EStateM ε τ α) (Pure.pure a) := fun _ => rfl

theorem throw (e : ε) : Projects f (MonadExcept.throw e : EStateM ε τ α) (MonadExcept.throw e) :=
  fun _ => rfl

theorem update {g : σ → σ} {g' : τ → τ} (h : ∀ t, f (g' t) = g (f t)) :
    Projects f (modify g' : EStateM ε τ PUnit) (modify g) := by
  intro t
  exact congrArg (EStateM.Result.ok PUnit.unit) (h t)

theorem get_bind {g : σ → EStateM ε σ β} {k : τ → EStateM ε τ β}
    (h : ∀ t, Projects f (k t) (g (f t))) :
    Projects f (MonadState.get >>= k) (MonadState.get >>= g) :=
  fun t => h t t

theorem ite {c : Prop} [Decidable c] {y' : EStateM ε τ α} {x' : EStateM ε σ α}
    (h : Projects f y x) (h' : Projects f y' x') :
    Projects f (if c then y else y') (if c then x else x') := by
  by_cases hc : c
  · rw [if_pos hc, if_pos hc]
    exact h
  · rw [if_neg hc, if_neg hc]
    exact h'

theorem foldlM {γ : Type} {body : β → γ → EStateM ε σ β} {body' : β → γ → EStateM ε τ β}
    (l : List γ) (h : ∀ b a, Projects f (body' b a) (body b a)) (b : β) :
    Projects f (l.foldlM body' b) (l.foldlM body b) := by
  induction l generalizing b with
  | nil => exact pure b
  | cons a l ih =>
    rw [List.foldlM_cons, List.foldlM_cons]
    exact bind (h b a) ih

end Projects

end Projection

end Program
