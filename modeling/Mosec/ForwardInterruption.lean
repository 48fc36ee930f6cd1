import Mosec.CacheInterruption
import Mosec.ModelAccounting

namespace Mosec

open Program (Interruptible Triple finalState)
open Program.Interruptible (lift current boundary Ends Upon FollowsAt Follows result)

namespace MultiModelWorker

open SieveCache (Statements Consistent Links Left left_of_consistent evictSteps evictSteps_ends
  evictSteps_upon putSteps putSteps_ends putSteps_upon getSteps getSteps_ends getSteps_upon)

variable {σ Id Model Item Result Err α β : Type}

section OnCache

variable {x : Statements Id Model α} {w : MultiModelWorker σ Id Model} {c' : SieveCache Id Model}
  {a : α}

theorem onCache_ends (h : Ends x w.modelCache (.ok a) c') :
    Ends (onCache x : Timed σ Id Model Err α) w (.ok a) { w with modelCache := c' } := by
  constructor
  · simp only [onCache, h.quiet, result]
  · intro alarm
    rcases h.struck alarm with ⟨⟨c'', alarm'⟩, ht⟩ | ⟨alarm', ht⟩
    · exact Or.inl ⟨({ w with modelCache := c'' }, alarm'), by simp only [onCache, ht]⟩
    · exact Or.inr ⟨alarm', by simp only [onCache, ht, result]⟩

theorem onCache_upon {pre torn : SieveCache Id Model → Prop}
    {post : α → SieveCache Id Model → Prop} (h : Upon pre x post torn) :
    Upon (fun w => pre w.modelCache) (onCache x : Timed σ Id Model Err α)
      (fun a w => post a w.modelCache) (fun w => torn w.modelCache) := by
  rintro ⟨w, alarm⟩ hw
  have hx := h (w.modelCache, alarm) hw
  cases hrun : x (w.modelCache, alarm) with
  | ok a t =>
    rw [hrun] at hx
    simp only [onCache, hrun]
    exact hx
  | error e t =>
    rw [hrun] at hx
    cases e with
    | timeout =>
      simp only [onCache, hrun]
      exact fun _ => hx rfl
    | raised err =>
      simp only [onCache, hrun]
      exact fun heq => by cases heq

theorem onCache_follows {f : Option (SieveCache Id Model × α)}
    {k : α → Timed σ Id Model Err β} {g : α → Method σ Id Model Err β}
    (hx : ∀ c' a, f = some (c', a) → Ends x w.modelCache (.ok a) c')
    (hk : ∀ a, Follows (· = .stuck) (k a) (g a)) :
    FollowsAt (· = .stuck) (onCache x >>= k) (do
      let (cache, a) ← returned f
      setCache cache
      g a) w := by
  cases f with
  | none => exact fun hstuck => absurd rfl hstuck
  | some p =>
    obtain ⟨cache, a⟩ := p
    have hends : Ends (onCache x : Timed σ Id Model Err α) w (.ok a)
        { w with modelCache := cache } := onCache_ends (hx cache a rfl)
    have hrest := hk a { w with modelCache := cache }
    unfold FollowsAt at hrest ⊢
    simp only [returned, pure_bind]
    have hset : (setCache cache >>= fun _ => g a : Method σ Id Model Err β) w =
        g a { w with modelCache := cache } := rfl
    rw [hset]
    cases hrun : g a { w with modelCache := cache } with
    | ok b s' =>
      rw [hrun] at hrest
      exact hends.bind hrest
    | error e s' =>
      rw [hrun] at hrest
      exact fun he => hends.bind (hrest he)

end OnCache

variable [DecidableEq Id] (strike : CachePoint) (hooks : Hooks σ Id Model Item Result Err)

section Follows

omit [DecidableEq Id] in
theorem hookSteps_follows (x : EStateM Err σ α) :
    Follows (· = .stuck) (hookSteps strike x : Timed σ Id Model Err α) (hook x) := by
  apply Follows.boundary_bind
  have hx : Follows (· = .stuck) _ (hook x >>= Pure.pure : Method σ Id Model Err α) :=
    Follows.bind (.lift (hook x)) fun a => .boundary_bind strike CachePoint.outside (.pure a)
  rwa [bind_pure] at hx

omit [DecidableEq Id] in
def unloadEvicted : Option (Id × Model) → Method σ Id Model Err Unit
  | none => pure ()
  | some (evictedKey, evictedModel) => do
    note (.unloading evictedKey evictedModel)
    hook (hooks.unloadModel evictedKey evictedModel)

theorem makeRoomSteps_follows :
    Follows (· = .stuck) (makeRoomSteps strike hooks) (makeRoom hooks) := by
  apply Follows.get_bind
  intro w
  apply FollowsAt.ite
  · refine onCache_follows (g := unloadEvicted hooks) (fun _ _ h => evictSteps_ends h) ?_
    intro evicted
    cases evicted with
    | none => exact .pure _
    | some p => exact .bind (.lift _) fun _ => hookSteps_follows strike _
  · exact .pure _ _

theorem loadIntoSteps_follows (modelId : Id) :
    Follows (· = .stuck) (loadIntoSteps strike hooks modelId) (loadInto hooks modelId) := by
  apply Follows.get_bind
  intro w
  apply FollowsAt.bind (Follows.lift _ _)
  rintro -
  apply Follows.bind (hookSteps_follows strike _)
  intro model
  apply Follows.bind (.lift _)
  rintro - w'
  apply FollowsAt.of_get
  apply onCache_follows (g := fun evicted => do
    note (.putting modelId evicted)
    return model) fun _ _ h => putSteps_ends h
  intro evicted
  exact .bind (.lift _) fun _ => .pure _

theorem ensureModelSteps_follows (modelId : Id) :
    Follows (· = .stuck) (ensureModelSteps strike hooks modelId) (ensureModel hooks modelId) := by
  apply Follows.get_bind
  intro w
  apply FollowsAt.ite
  · have hget : ∀ cache model, some (w.modelCache.get modelId) = some (cache, model) →
        Ends (getSteps strike modelId) w.modelCache (.ok model) cache := by
      intro cache model heq
      have hends : Ends (getSteps strike modelId) w.modelCache _ _ := getSteps_ends _ _
      rwa [Option.some.inj heq] at hends
    exact onCache_follows hget fun model => .lift _
  · apply FollowsAt.bind (hookSteps_follows strike _ _)
    intro available w'
    apply FollowsAt.ite
    · exact FollowsAt.bind (makeRoomSteps_follows strike hooks _) fun _ =>
        loadIntoSteps_follows strike hooks modelId
    · exact Follows.lift _ _

theorem forwardGroupSteps_follows (results : List (Option Result))
    (group : Id × List (ℕ × Item)) :
    Follows (· = .stuck) (forwardGroupSteps strike hooks results group)
      (forwardGroup hooks results group) := by
  apply Follows.bind (ensureModelSteps_follows strike hooks _)
  intro model
  apply Follows.bind (.lift _)
  rintro -
  apply Follows.bind (hookSteps_follows strike _)
  intro subResults w
  apply FollowsAt.ite
  · exact .pure _ _
  · exact Follows.lift _ _

/-- The signal apart, the statements do what `forward` does. -/
theorem forwardSteps_follows (items : List Item) :
    Follows (· = .stuck) (forwardSteps strike hooks items) (forward hooks items) := by
  apply Follows.bind
  · apply Follows.foldlM
    intro groups p
    exact .bind (hookSteps_follows strike _) fun _ => .pure _
  · intro groups
    apply Follows.get_bind
    intro w
    exact Follows.foldlM _ (forwardGroupSteps_follows strike hooks) _ w

end Follows

section Upon

def Whole (w : MultiModelWorker σ Id Model) : Prop := Consistent w.modelCache

theorem hookSteps_upon (x : EStateM Err σ α) :
    Upon Whole (hookSteps strike x : Timed σ Id Model Err α) (fun _ => Whole)
      (fun w => Left strike w.modelCache) := by
  apply Upon.bind _ (Upon.boundary fun w h => left_of_consistent rfl h)
  rintro -
  apply Upon.bind (fun _ => Whole)
  · apply Upon.lift
    exact triple_hook (fun _ h => h) (fun _ _ h => h) fun _ _ _ => trivial
  · intro a
    apply Upon.bind _ (Upon.boundary fun w h => left_of_consistent rfl h)
    rintro -
    exact Upon.pure a fun _ h => h

theorem note_upon (event : CacheEvent Id Model) :
    Upon Whole (lift (note event) : Timed σ Id Model Err Unit) (fun _ => Whole)
      (fun w => Left strike w.modelCache) :=
  Upon.lift (Triple.update _ fun _ h => h)

theorem makeRoomSteps_upon : Upon Whole (makeRoomSteps strike hooks) (fun _ => Whole)
    (fun w => Left strike w.modelCache) := by
  apply Upon.get_bind
  rintro w hw
  apply Upon.ite
  · intro _
    apply Upon.bind (fun _ => Whole)
    · exact (onCache_upon evictSteps_upon).weaken (fun _ h => h ▸ hw) fun _ _ h => h
    intro evicted
    cases evicted with
    | none => exact Upon.pure _ fun _ h => h
    | some p => exact Upon.bind _ (note_upon strike _) fun _ => hookSteps_upon strike _
  · intro _
    exact Upon.pure _ fun _ h => h ▸ hw

theorem loadIntoSteps_upon (modelId : Id) :
    Upon Whole (loadIntoSteps strike hooks modelId) (fun _ => Whole)
      (fun w => Left strike w.modelCache) := by
  apply Upon.get_bind
  rintro w hw
  apply Upon.bind (fun _ => Whole)
  · exact (note_upon strike _).weaken (fun _ h => h ▸ hw) fun _ _ h => h
  rintro -
  apply Upon.bind _ (hookSteps_upon strike _)
  intro model
  apply Upon.bind _ (note_upon strike _)
  rintro -
  apply Upon.bind _ (onCache_upon (putSteps_upon _ _))
  intro evicted
  apply Upon.bind _ (note_upon strike _)
  rintro -
  exact Upon.pure _ fun _ h => h

theorem ensureModelSteps_upon (modelId : Id) :
    Upon Whole (ensureModelSteps strike hooks modelId) (fun _ => Whole)
      (fun w => Left strike w.modelCache) := by
  apply Upon.get_bind
  rintro w hw
  apply Upon.ite
  · intro _
    apply Upon.bind (fun _ => Whole)
    · exact (onCache_upon (getSteps_upon modelId)).weaken (fun _ h => h ▸ hw) fun _ _ h => h
    intro model
    apply Upon.lift
    intro w' hw'
    cases model with
    | none => trivial
    | some model => exact hw'
  · intro _
    apply Upon.bind (fun _ => Whole)
    · exact (hookSteps_upon strike _).weaken (fun _ h => h ▸ hw) fun _ _ h => h
    intro available
    apply Upon.ite
    · intro _
      apply Upon.bind _ (makeRoomSteps_upon strike hooks)
      rintro -
      exact loadIntoSteps_upon strike hooks modelId
    · intro _
      exact Upon.lift fun _ _ => trivial

theorem forwardGroupSteps_upon (results : List (Option Result)) (group : Id × List (ℕ × Item)) :
    Upon Whole (forwardGroupSteps strike hooks results group) (fun _ => Whole)
      (fun w => Left strike w.modelCache) := by
  apply Upon.bind _ (ensureModelSteps_upon strike hooks _)
  intro model
  apply Upon.bind _ (note_upon strike _)
  rintro -
  apply Upon.bind _ (hookSteps_upon strike _)
  intro subResults
  apply Upon.ite
  · intro _
    exact Upon.pure _ fun _ h => h
  · intro _
    exact Upon.lift fun _ _ => trivial

theorem forwardSteps_upon (items : List Item) :
    Upon Whole (forwardSteps strike hooks items) (fun _ => Whole)
      (fun w => Left strike w.modelCache) := by
  apply Upon.bind (fun _ => Whole)
  · apply Upon.foldlM fun _ => Whole
    intro groups p
    apply Upon.bind _ (hookSteps_upon strike _)
    intro modelId
    exact Upon.pure _ fun _ h => h
  intro groups
  apply Upon.get_bind
  rintro w hw
  exact (Upon.foldlM (fun _ => Whole) _ (forwardGroupSteps_upon strike hooks) _).weaken
    (fun _ h => h ▸ hw) fun _ _ h => h

end Upon

end MultiModelWorker

end Mosec
