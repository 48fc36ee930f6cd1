import Mosec.Interrupt
import Mosec.MultiModel

namespace Mosec

/-- Where the signal finds a call of `forward`: behind the statement of the cache that has the
name, before the next one that changes it, or `outside` the cache. -/
inductive CachePoint where
  | outside
  | handWrapped
  | visitedCleared
  | handMoved
  | unlinkedNext
  | unlinkedPrev
  | handStepped
  | prevCleared
  | nextCleared
  | deleted
  | allocated
  | pushedPrev
  | pushedNext
  | pushedBack
  | pushedFront
  | pushedTail
  | stored
  | valueSet
  | visitedSet
  deriving DecidableEq, Repr

/-- From the first change of `_remove` to `del self._map[victim.key]`, and from the first change of
`_push_head` to a linked node to `self._map[key] = new_node`. -/
def CachePoint.torn : CachePoint → Bool
  | .unlinkedNext | .unlinkedPrev | .handStepped | .prevCleared | .nextCleared => true
  | .pushedBack | .pushedFront | .pushedTail => true
  | _ => false

open Program (Interruptible Interrupted)
open Program.Interruptible (lift current assign assignWhen boundary)

namespace SieveCache

variable {K V α : Type} (strike : CachePoint)

/-- A method of the cache, statement by statement. The error stands for a loop that does not end
and for a `KeyError`. -/
abbrev Statements (K V α : Type) := Interruptible Unit (SieveCache K V) α

def found : Option α → EStateM Unit (SieveCache K V) α
  | some a => pure a
  | none => throw ()

def pushHeadSteps (node : ℕ) : Statements K V Unit := do
  assign strike .pushedPrev fun c => c.setPrev node none
  assign strike .pushedNext fun c => c.setNext node c.head
  assignWhen strike .pushedBack (fun c => c.head ≠ none) fun c => c.setPrevOf c.head (some node)
  assign strike .pushedFront fun c => { c with head := some node }
  assignWhen strike .pushedTail (fun c => c.tail = none) fun c => { c with tail := some node }

def unlinkSteps (node : ℕ) : Statements K V Unit := do
  assign strike .unlinkedNext fun c => c.setNextOf (c.prev node) (c.next node)
  assign strike .unlinkedPrev fun c => c.setPrevOf (c.next node) (c.prev node)
  assignWhen strike .handStepped (fun c => c.hand = some node) fun c =>
    { c with hand := c.prev node }
  assign strike .prevCleared fun c => c.setPrev node none
  assign strike .nextCleared fun c => c.setNext node none

variable [DecidableEq K]

def takeOutSteps (victim : ℕ) : Statements K V (Option (K × V)) := do
  assign strike .handMoved fun c => { c with hand := c.prev victim }
  unlinkSteps strike victim
  let c ← current
  let k ← lift (found (c.key victim))
  let v ← lift (found (c.value victim))
  let c ← lift (found (c.del k))
  assign strike .deleted fun _ => c
  return some (k, v)

def scanSteps : ℕ → Option ℕ → Statements K V (Option (K × V))
  | 0, _ => lift (throw ())
  | n + 1, none => do
    assign strike .handWrapped fun c => { c with hand := c.tail }
    let c ← current
    scanSteps n c.tail
  | n + 1, some victim => do
    let c ← current
    if c.visited victim then
      assign strike .visitedCleared fun c => c.setVisited victim false
      scanSteps n (c.prev victim)
    else takeOutSteps strike victim

def evictCoreSteps : Statements K V (Option (K × V)) := do
  let c ← current
  if c.len = 0 then return none
  else
    assignWhen strike .handWrapped (fun c => c.hand = none) fun c => { c with hand := c.tail }
    let c ← current
    scanSteps strike (c.len + 2) c.hand

def evictSteps : Statements K V (Option (K × V)) := do
  let c ← current
  if c.len = 0 then return none else evictCoreSteps strike

def putSteps (k : K) (v : V) : Statements K V (Option (K × V)) := do
  let c ← current
  match c.map.lookup k with
  | some node =>
    assign strike .valueSet fun c => c.setValue node v
    assign strike .visitedSet fun c => c.setVisited node true
    return none
  | none =>
    let evicted ← (if c.maxSize ≤ c.len then evictCoreSteps strike else pure none)
    let c ← current
    let node := c.fresh
    assign strike .allocated fun c => c.newNode k v
    pushHeadSteps strike node
    assign strike .stored fun c => { c with map := c.map.insert k node }
    return evicted

def getSteps (k : K) : Statements K V (Option V) := do
  let c ← current
  match c.map.lookup k with
  | none => return none
  | some node =>
    assign strike .visitedSet fun c => c.setVisited node true
    let c ← current
    return c.value node

end SieveCache

namespace MultiModelWorker

open SieveCache (Statements evictSteps putSteps getSteps)

variable {σ Id Model Item Result Err α : Type}

abbrev Timed (σ Id Model Err α : Type) :=
  Interruptible (ModelError Id Err) (MultiModelWorker σ Id Model) α

def onCache (x : Statements Id Model α) : Timed σ Id Model Err α := fun t =>
  match x (t.1.modelCache, t.2) with
  | .ok a (cache, alarm) => .ok a ({ t.1 with modelCache := cache }, alarm)
  | .error .timeout (cache, alarm) => .error .timeout ({ t.1 with modelCache := cache }, alarm)
  | .error (.raised _) (cache, alarm) =>
    .error (.raised .stuck) ({ t.1 with modelCache := cache }, alarm)

variable [DecidableEq Id] (strike : CachePoint) (hooks : Hooks σ Id Model Item Result Err)

/-- A hook is interrupted where it begins or ends; what it leaves of the user's state is up to the
run. -/
def hookSteps (x : EStateM Err σ α) : Timed σ Id Model Err α := do
  boundary strike .outside
  let a ← lift (hook x)
  boundary strike .outside
  return a

def makeRoomSteps : Timed σ Id Model Err Unit := do
  let w ← current
  if w.modelCache.maxSize ≤ w.modelCache.len then
    let evicted ← onCache (evictSteps strike)
    match evicted with
    | none => pure ()
    | some (evictedKey, evictedModel) =>
      lift (note (.unloading evictedKey evictedModel))
      hookSteps strike (hooks.unloadModel evictedKey evictedModel)
  else pure ()

def loadIntoSteps (modelId : Id) : Timed σ Id Model Err Model := do
  let w ← current
  lift (note (.loading modelId w.modelCache.len))
  let model ← hookSteps strike (hooks.loadModel modelId)
  lift (note (.loaded modelId model))
  let evicted ← onCache (putSteps strike modelId model)
  lift (note (.putting modelId evicted))
  return model

def ensureModelSteps (modelId : Id) : Timed σ Id Model Err Model := do
  let w ← current
  if w.modelCache.contains modelId then
    let model ← onCache (getSteps strike modelId)
    lift (returned model)
  else
    let available ← hookSteps strike (hooks.hasModel modelId)
    if available then
      makeRoomSteps strike hooks
      loadIntoSteps strike hooks modelId
    else lift (throw (.unavailable modelId))

def groupItemsSteps (items : List Item) :
    Timed σ Id Model Err (List (Id × List (ℕ × Item))) :=
  (items.zipIdx.map fun p => (p.2, p.1)).foldlM (fun groups p => do
    let modelId ← hookSteps strike (hooks.getModelId p.2)
    return addTo modelId p groups) []

def forwardGroupSteps (results : List (Option Result)) (group : Id × List (ℕ × Item)) :
    Timed σ Id Model Err (List (Option Result)) := do
  let model ← ensureModelSteps strike hooks group.1
  lift (note (.forwarding group.1 model group.2.length))
  let subResults ← hookSteps strike (hooks.forwardModel group.1 model (group.2.map Prod.snd))
  if subResults.length = group.2.length then
    return scatter results group.2 subResults
  else lift (throw .mismatch)

def forwardSteps (items : List Item) : Timed σ Id Model Err (List (Option Result)) := do
  let groups ← groupItemsSteps strike hooks items
  let w ← current
  let hitGroups := groups.filter fun group => w.modelCache.contains group.1
  let missGroups := groups.filter fun group => !w.modelCache.contains group.1
  (hitGroups ++ missGroups).foldlM (forwardGroupSteps strike hooks)
    (List.replicate items.length none)

end MultiModelWorker

end Mosec
