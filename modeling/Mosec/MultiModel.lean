import Mosec.Program
import Mosec.SieveCache

namespace Mosec

inductive CacheEvent (Id Model : Type) where
  | loading (id : Id) (resident : ℕ)
  | loaded (id : Id) (model : Model)
  | unloading (id : Id) (model : Model)
  | putting (id : Id) (evicted : Option (Id × Model))
  | forwarding (id : Id) (model : Model) (count : ℕ)
  deriving DecidableEq, Repr

/-- `mismatch` is the `ValueError` of a strict `zip`, and `stuck` stands for a cache call that
does not return. -/
inductive ModelError (Id Err : Type) where
  | raised (err : Err)
  | unavailable (id : Id)
  | mismatch
  | stuck
  deriving DecidableEq, Repr

/-- The methods a user overrides. They share a state of their own, so that a call may depend on
everything that was called before. -/
structure Hooks (σ Id Model Item Result Err : Type) where
  getModelId : Item → EStateM Err σ Id
  hasModel : Id → EStateM Err σ Bool
  loadModel : Id → EStateM Err σ Model
  unloadModel : Id → Model → EStateM Err σ Unit
  forwardModel : Id → Model → List Item → EStateM Err σ (List Result)

structure MultiModelWorker (σ Id Model : Type) where
  user : σ
  modelCache : SieveCache Id Model
  events : List (CacheEvent Id Model)

namespace MultiModelWorker

open Program (finalState)

variable {σ Id Model Item Result Err : Type}

abbrev Method (σ Id Model Err : Type) := EStateM (ModelError Id Err) (MultiModelWorker σ Id Model)

def new (user : σ) (maxCacheSize : ℕ) (h : 1 ≤ maxCacheSize) : MultiModelWorker σ Id Model :=
  ⟨user, .new maxCacheSize h, []⟩

def hook {α : Type} (x : EStateM Err σ α) : Method σ Id Model Err α := fun w =>
  match x w.user with
  | .ok a user => .ok a { w with user := user }
  | .error err user => .error (.raised err) { w with user := user }

def note (event : CacheEvent Id Model) : Method σ Id Model Err Unit :=
  modify fun w => { w with events := w.events ++ [event] }

def setCache (cache : SieveCache Id Model) : Method σ Id Model Err Unit :=
  modify fun w => { w with modelCache := cache }

def returned {α : Type} : Option α → Method σ Id Model Err α
  | some a => pure a
  | none => throw .stuck

variable [DecidableEq Id] (hooks : Hooks σ Id Model Item Result Err)

def makeRoom : Method σ Id Model Err Unit := do
  let w ← get
  if w.modelCache.maxSize ≤ w.modelCache.len then
    let (cache, evicted) ← returned w.modelCache.evict
    setCache cache
    match evicted with
    | none => pure ()
    | some (evictedKey, evictedModel) =>
      note (.unloading evictedKey evictedModel)
      hook (hooks.unloadModel evictedKey evictedModel)
  else pure ()

def loadInto (modelId : Id) : Method σ Id Model Err Model := do
  let w ← get
  note (.loading modelId w.modelCache.len)
  let model ← hook (hooks.loadModel modelId)
  note (.loaded modelId model)
  let w ← get
  let (cache, evicted) ← returned (w.modelCache.put modelId model)
  setCache cache
  note (.putting modelId evicted)
  return model

def ensureModel (modelId : Id) : Method σ Id Model Err Model := do
  let w ← get
  if w.modelCache.contains modelId then
    let (cache, model) := w.modelCache.get modelId
    setCache cache
    returned model
  else
    let available ← hook (hooks.hasModel modelId)
    if available then
      makeRoom hooks
      loadInto hooks modelId
    else throw (.unavailable modelId)

/-- `groups[mid].append(x)` of a `defaultdict`, which keeps its keys in the order they came. -/
def addTo {α : Type} (modelId : Id) (x : α) : List (Id × List α) → List (Id × List α)
  | [] => [(modelId, [x])]
  | (k, xs) :: groups =>
    if k = modelId then (k, xs ++ [x]) :: groups else (k, xs) :: addTo modelId x groups

def groupItems (items : List Item) : Method σ Id Model Err (List (Id × List (ℕ × Item))) :=
  (items.zipIdx.map fun p => (p.2, p.1)).foldlM (fun groups p => do
    let modelId ← hook (hooks.getModelId p.2)
    return addTo modelId p groups) []

def scatter (results : List (Option Result)) (indexedItems : List (ℕ × Item))
    (subResults : List Result) : List (Option Result) :=
  (indexedItems.zip subResults).foldl (fun results p => results.set p.1.1 (some p.2)) results

def forwardGroup (results : List (Option Result)) (group : Id × List (ℕ × Item)) :
    Method σ Id Model Err (List (Option Result)) := do
  let model ← ensureModel hooks group.1
  note (.forwarding group.1 model group.2.length)
  let subResults ← hook (hooks.forwardModel group.1 model (group.2.map Prod.snd))
  if subResults.length = group.2.length then
    return scatter results group.2 subResults
  else throw .mismatch

def forward (items : List Item) : Method σ Id Model Err (List (Option Result)) := do
  let groups ← groupItems hooks items
  let w ← get
  let hitGroups := groups.filter fun group => w.modelCache.contains group.1
  let missGroups := groups.filter fun group => !w.modelCache.contains group.1
  (hitGroups ++ missGroups).foldlM (forwardGroup hooks) (List.replicate items.length none)

def forwardOne (item : Item) : Method σ Id Model Err (Option Result) := do
  let results ← forward hooks [item]
  return results.head?.join

def afterCalls (w : MultiModelWorker σ Id Model) (batches : List (List Item)) :
    MultiModelWorker σ Id Model :=
  batches.foldl (fun w items => finalState (forward hooks items) w) w

end MultiModelWorker

end Mosec
