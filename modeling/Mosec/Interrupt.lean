import Mathlib.Logic.Basic
import Mosec.Program

namespace Program

inductive Interrupted (ε : Type) where
  | timeout
  | raised (err : ε)

/-- The state of the program, and how many more times control may come to the place where the
signal strikes; none where it does not strike. -/
abbrev Interruptible (ε σ α : Type) := EStateM (Interrupted ε) (σ × Option ℕ) α

namespace Interruptible

variable {ε σ α β P : Type}

def lift (x : EStateM ε σ α) : Interruptible ε σ α := fun t =>
  match x t.1 with
  | .ok a s => .ok a (s, t.2)
  | .error e s => .error (.raised e) (s, t.2)

def current : Interruptible ε σ σ := lift get

/-- Control between two statements, at `p`, where `strike` is the place of the signal. -/
def boundary [DecidableEq P] (strike p : P) : Interruptible ε σ Unit := fun t =>
  if p = strike then
    match t.2 with
    | none => .ok () t
    | some 0 => .error .timeout (t.1, none)
    | some (n + 1) => .ok () (t.1, some n)
  else .ok () t

def assign [DecidableEq P] (strike p : P) (f : σ → σ) : Interruptible ε σ Unit := do
  lift (modify f)
  boundary strike p

def assignWhen [DecidableEq P] (strike p : P) (c : σ → Prop) [DecidablePred c] (f : σ → σ) :
    Interruptible ε σ Unit := do
  let s ← current
  if c s then assign strike p f else pure ()

def result : Except ε α → σ × Option ℕ → EStateM.Result (Interrupted ε) (σ × Option ℕ) α
  | .ok a, t => .ok a t
  | .error e, t => .error (.raised e) t

structure Ends (y : Interruptible ε σ α) (s : σ) (r : Except ε α) (s' : σ) : Prop where
  quiet : y (s, none) = result r (s', none)
  struck : ∀ alarm, (∃ t, y (s, alarm) = .error .timeout t) ∨
    ∃ alarm', y (s, alarm) = result r (s', alarm')

section Ends

variable {y : Interruptible ε σ α} {k : α → Interruptible ε σ β} {s s' s'' : σ} {a : α}
  {r : Except ε β}

theorem run_bind (t : σ × Option ℕ) : (y >>= k) t =
    match y t with
    | .ok a t' => k a t'
    | .error e t' => .error e t' := by
  change EStateM.bind y k t = _
  rw [EStateM.bind]
  cases y t <;> rfl

theorem Ends.bind (hy : Ends y s (.ok a) s') (hk : Ends (k a) s' r s'') :
    Ends (y >>= k) s r s'' := by
  constructor
  · rw [run_bind, hy.quiet]
    exact hk.quiet
  · intro alarm
    rw [run_bind]
    rcases hy.struck alarm with ⟨t, ht⟩ | ⟨alarm', ht⟩
    · exact Or.inl ⟨t, by rw [ht]⟩
    · rw [ht]
      exact hk.struck alarm'

theorem Ends.bind_error {e : ε} (hy : Ends y s (.error e) s') :
    Ends (y >>= k) s (.error e) s' := by
  constructor
  · rw [run_bind, hy.quiet]
    rfl
  · intro alarm
    rw [run_bind]
    rcases hy.struck alarm with ⟨t, ht⟩ | ⟨alarm', ht⟩
    · exact Or.inl ⟨t, by rw [ht]⟩
    · exact Or.inr ⟨alarm', by rw [ht]; rfl⟩

theorem Ends.pure (a : α) (s : σ) : Ends (Pure.pure a : Interruptible ε σ α) s (.ok a) s :=
  ⟨rfl, fun alarm => Or.inr ⟨alarm, rfl⟩⟩

theorem Ends.lift_ok {x : EStateM ε σ α} (h : x s = .ok a s') : Ends (lift x) s (.ok a) s' := by
  have hrun : ∀ alarm, lift x (s, alarm) = .ok a (s', alarm) := by
    intro alarm
    rw [lift, h]
  exact ⟨hrun none, fun alarm => Or.inr ⟨alarm, hrun alarm⟩⟩

theorem Ends.lift_error {x : EStateM ε σ α} {e : ε} (h : x s = .error e s') :
    Ends (lift x) s (.error e) s' := by
  have hrun : ∀ alarm, lift x (s, alarm) = .error (.raised e) (s', alarm) := by
    intro alarm
    rw [lift, h]
  exact ⟨hrun none, fun alarm => Or.inr ⟨alarm, hrun alarm⟩⟩

variable [DecidableEq P] (strike p : P)

theorem Ends.boundary (s : σ) : Ends (boundary strike p : Interruptible ε σ Unit) s (.ok ()) s := by
  unfold Interruptible.boundary
  constructor
  · dsimp only
    split <;> rfl
  · intro alarm
    dsimp only
    split
    · rcases alarm with _ | _ | n
      · exact Or.inr ⟨none, rfl⟩
      · exact Or.inl ⟨_, rfl⟩
      · exact Or.inr ⟨some n, rfl⟩
    · exact Or.inr ⟨alarm, rfl⟩

theorem Ends.assign (f : σ → σ) (s : σ) :
    Ends (assign strike p f : Interruptible ε σ Unit) s (.ok ()) (f s) :=
  have hf : (modify f : EStateM ε σ PUnit) s = .ok () (f s) := rfl
  (Ends.lift_ok hf).bind (.boundary strike p (f s))

theorem Ends.current (s : σ) : Ends (current : Interruptible ε σ σ) s (.ok s) s := .lift_ok rfl

theorem Ends.assignWhen (c : σ → Prop) [DecidablePred c] (f : σ → σ) (s : σ) :
    Ends (assignWhen strike p c f : Interruptible ε σ Unit) s (.ok ())
      (if c s then f s else s) := by
  apply (Ends.current s).bind
  split
  · exact .assign strike p f s
  · exact .pure () s

end Ends

def FollowsAt (excused : ε → Prop) (y : Interruptible ε σ α) (x : EStateM ε σ α) (s : σ) : Prop :=
  match x s with
  | .ok a s' => Ends y s (.ok a) s'
  | .error e s' => ¬ excused e → Ends y s (.error e) s'

def Follows (excused : ε → Prop) (y : Interruptible ε σ α) (x : EStateM ε σ α) : Prop :=
  ∀ s, FollowsAt excused y x s

section Follows

variable {excused : ε → Prop} {y : Interruptible ε σ α} {x : EStateM ε σ α}
  {k : α → Interruptible ε σ β} {g : α → EStateM ε σ β} {s : σ}

theorem FollowsAt.bind (hy : FollowsAt excused y x s) (hk : ∀ a, Follows excused (k a) (g a)) :
    FollowsAt excused (y >>= k) (x >>= g) s := by
  unfold FollowsAt at hy ⊢
  change match EStateM.bind x g s with
    | .ok b s' => Ends (y >>= k) s (.ok b) s'
    | .error e s' => ¬ excused e → Ends (y >>= k) s (.error e) s'
  rw [EStateM.bind]
  cases hrun : x s with
  | error e s' =>
    rw [hrun] at hy
    exact fun he => (hy he).bind_error
  | ok a s' =>
    rw [hrun] at hy
    have hrest := hk a s'
    unfold FollowsAt at hrest
    dsimp only
    cases hrun' : g a s' with
    | ok b s'' =>
      rw [hrun'] at hrest
      exact hy.bind hrest
    | error e s'' =>
      rw [hrun'] at hrest
      exact fun he => hy.bind (hrest he)

theorem FollowsAt.boundary_bind [DecidableEq P] (strike p : P) (h : FollowsAt excused y x s) :
    FollowsAt excused (Interruptible.boundary strike p >>= fun _ => y) x s := by
  unfold FollowsAt at h ⊢
  cases hrun : x s with
  | ok a s' =>
    rw [hrun] at h
    exact (Ends.boundary strike p s).bind h
  | error e s' =>
    rw [hrun] at h
    exact fun he => (Ends.boundary strike p s).bind (h he)

theorem FollowsAt.ite {c : Prop} [Decidable c] {y' : Interruptible ε σ α} {x' : EStateM ε σ α}
    (h : FollowsAt excused y x s) (h' : FollowsAt excused y' x' s) :
    FollowsAt excused (if c then y else y') (if c then x else x') s := by
  by_cases hc : c
  · rw [if_pos hc, if_pos hc]
    exact h
  · rw [if_neg hc, if_neg hc]
    exact h'

theorem FollowsAt.of_get {f : σ → EStateM ε σ α} (h : FollowsAt excused y (f s) s) :
    FollowsAt excused y (MonadState.get >>= f) s := h

namespace Follows

theorem bind (hy : Follows excused y x) (hk : ∀ a, Follows excused (k a) (g a)) :
    Follows excused (y >>= k) (x >>= g) :=
  fun s => (hy s).bind hk

theorem lift (x : EStateM ε σ α) : Follows excused (Interruptible.lift x) x := by
  intro s
  unfold FollowsAt
  cases hrun : x s with
  | ok a s' => exact .lift_ok hrun
  | error e s' => exact fun _ => .lift_error hrun

theorem pure (a : α) : Follows excused (Pure.pure a : Interruptible ε σ α) (Pure.pure a) :=
  fun s => .pure a s

theorem boundary_bind [DecidableEq P] (strike p : P) (h : Follows excused y x) :
    Follows excused (Interruptible.boundary strike p >>= fun _ => y) x :=
  fun s => (h s).boundary_bind strike p

theorem get_bind {k : σ → Interruptible ε σ β} {g : σ → EStateM ε σ β}
    (h : ∀ s, FollowsAt excused (k s) (g s) s) :
    Follows excused (current >>= k) (MonadState.get >>= g) := by
  intro s
  have hs := h s
  unfold FollowsAt at hs ⊢
  change match g s s with
    | .ok b s' => Ends (current >>= k) s (.ok b) s'
    | .error e s' => ¬ excused e → Ends (current >>= k) s (.error e) s'
  cases hrun : g s s with
  | ok b s' =>
    rw [hrun] at hs
    exact ⟨hs.quiet, hs.struck⟩
  | error e s' =>
    rw [hrun] at hs
    exact fun he => ⟨(hs he).quiet, (hs he).struck⟩

theorem foldlM {γ : Type} {body : β → γ → EStateM ε σ β} {body' : β → γ → Interruptible ε σ β}
    (l : List γ) (h : ∀ b a, Follows excused (body' b a) (body b a)) (b : β) :
    Follows excused (l.foldlM body' b) (l.foldlM body b) := by
  induction l generalizing b with
  | nil => exact pure b
  | cons a l ih =>
    rw [List.foldlM_cons, List.foldlM_cons]
    exact bind (h b a) ih

end Follows

end Follows

def Upon (pre : σ → Prop) (y : Interruptible ε σ α) (post : α → σ → Prop) (torn : σ → Prop) :
    Prop :=
  Triple (fun t => pre t.1) y (fun a t => post a t.1) (fun e t => e = .timeout → torn t.1)

namespace Upon

variable {pre pre' torn : σ → Prop} {y : Interruptible ε σ α} {k : α → Interruptible ε σ β}
  {post post' : α → σ → Prop} {after : β → σ → Prop}

theorem bind (mid : α → σ → Prop) (hy : Upon pre y mid torn)
    (hk : ∀ a, Upon (mid a) (k a) after torn) : Upon pre (y >>= k) after torn :=
  Triple.bind (fun a t => mid a t.1) hy hk

theorem pure (a : α) (h : ∀ s, pre s → post a s) :
    Upon pre (Pure.pure a : Interruptible ε σ α) post torn :=
  Triple.pure a fun t ht => h t.1 ht

theorem weaken (h : Upon pre y post torn) (hpre : ∀ s, pre' s → pre s)
    (hpost : ∀ a s, post a s → post' a s) : Upon pre' y post' torn :=
  Triple.weaken h (fun t => hpre t.1) (fun a t => hpost a t.1) fun _ _ h => h

theorem lift {x : EStateM ε σ α} (h : Triple pre x post fun _ _ => True) :
    Upon pre (lift x) post torn := by
  intro t ht
  have hx := h t.1 ht
  rw [Interruptible.lift]
  cases hrun : x t.1 with
  | ok a s =>
    rw [hrun] at hx
    exact hx
  | error e s => exact fun heq => by cases heq

theorem boundary [DecidableEq P] {strike p : P} (h : ∀ s, pre s → p = strike → torn s) :
    Upon pre (boundary strike p : Interruptible ε σ Unit) (fun _ => pre) torn := by
  rintro ⟨s, alarm⟩ hs
  unfold Interruptible.boundary
  by_cases hp : p = strike
  · rw [if_pos hp]
    rcases alarm with _ | _ | n
    · exact hs
    · exact fun _ => h s hs hp
    · exact hs
  · rw [if_neg hp]
    exact hs

theorem assign [DecidableEq P] {strike p : P} {f : σ → σ} {mid : σ → Prop}
    (hf : ∀ s, pre s → mid (f s)) (h : ∀ s, mid s → p = strike → torn s) :
    Upon pre (assign strike p f : Interruptible ε σ Unit) (fun _ => mid) torn :=
  bind (fun _ => mid) (lift (Triple.update f hf)) fun _ => boundary h

theorem ite {c : Prop} [Decidable c] {y' : Interruptible ε σ α} (hy : c → Upon pre y post torn)
    (hy' : ¬ c → Upon pre y' post torn) : Upon pre (if c then y else y') post torn :=
  Triple.ite hy hy'

theorem get_bind {k : σ → Interruptible ε σ β}
    (h : ∀ s, pre s → Upon (fun s' => s' = s) (k s) after torn) :
    Upon pre (current >>= k) after torn :=
  fun t ht => h t.1 ht t rfl

section Exact

variable [DecidableEq P] {strike p : P} {f : σ → σ} {s₀ : σ}

theorem assign_eq (h : p = strike → torn (f s₀)) :
    Upon (fun s => s = s₀) (Interruptible.assign strike p f : Interruptible ε σ Unit)
      (fun _ s => s = f s₀) torn := by
  apply assign
  · rintro _ rfl
    rfl
  · rintro _ rfl hs
    exact h hs

theorem assignWhen_eq {c : σ → Prop} [DecidablePred c] (h : c s₀ → p = strike → torn (f s₀)) :
    Upon (fun s => s = s₀) (Interruptible.assignWhen strike p c f : Interruptible ε σ Unit)
      (fun _ s => s = if c s₀ then f s₀ else s₀) torn := by
  apply get_bind
  rintro _ rfl
  apply ite
  · intro hc
    rw [if_pos hc]
    exact assign_eq (h hc)
  · intro hc
    rw [if_neg hc]
    exact pure _ fun _ hs => hs

end Exact

theorem foldlM {γ : Type} (inv : β → σ → Prop) {body : β → γ → Interruptible ε σ β} (l : List γ)
    (hbody : ∀ b a, Upon (inv b) (body b a) inv torn) (b : β) :
    Upon (inv b) (l.foldlM body b) inv torn := by
  apply Triple.foldlM (fun _ b (t : σ × Option ℕ) => inv b t.1) l
  intro _ a b _
  exact hbody b a

end Upon

end Interruptible

end Program
