import Mosec.Coordinator
import Mosec.RedisShm
import Mosec.Places

namespace Mosec

open Function (update)

def Item.isIngress (item : Item) : Bool := item.state.toNat &&& Coordinator.ingress ≠ 0
def Item.isEgress (item : Item) : Bool := item.state.toNat &&& Coordinator.egress ≠ 0

/-- Where a worker is with the batch it was sent: `items` are still to decode, or to encode, and
the encoded items carry their results. -/
inductive Work where
  | idle
  | decoding (decoded items : List Item)
  | encoding (encoded items : List Item)
  | replying (code : TaskCode) (items : List Item)
  deriving DecidableEq, Repr

def Work.items : Work → List Item
  | .idle => []
  | .decoding decoded items => decoded ++ items
  | .encoding encoded items => encoded ++ items
  | .replying _ items => items

structure ShmService where
  state : State
  redis : Redis
  nextId : ℕ → Option Bytes
  work : ℕ → Work

inductive ShmAction where
  | service (a : Action)
  | decode (k : ℕ)
  | forward (k : ℕ)
  | prepareNextId (k : ℕ)
  | encode (k : ℕ) (data : Bytes)
  | finish (k : ℕ)
  | raise (k : ℕ) (takesEffect : Bool) (data : Bytes) (code : TaskCode) (text : Bytes)
  | lose (k : ℕ)
  deriving DecidableEq, Repr

namespace ShmService

variable (j : ShmService) (k : ℕ)

def setWork (work : Work) : ShmService := { j with work := update j.work k work }

def decode : Option ShmService :=
  match j.work k with
  | .decoding decoded (item :: items) =>
    let after := if item.isIngress then j else { j with redis := j.redis.getDelete item.data }
    some (after.setWork k (.decoding (decoded ++ [item]) items))
  | _ => none

def forward : Option ShmService :=
  match j.work k with
  | .decoding decoded [] => some (j.setWork k (.encoding [] decoded))
  | _ => none

def prepareNextId : Option ShmService :=
  match j.work k, j.nextId k with
  | .encoding _ (item :: _), none =>
    if item.isEgress then none
    else some { j with
      redis := j.redis.incr
      nextId := update j.nextId k (some (decimal (j.redis.counter + 1))) }
  | _, _ => none

/-- `encode` of the next item returns; `data` is what the class that the mixin extends makes of
the result. -/
def encode (data : Bytes) : Option ShmService :=
  match j.work k with
  | .encoding encoded (item :: items) =>
    if item.isEgress then
      some (j.setWork k (.encoding (encoded ++ [{ item with data := data }]) items))
    else
      match j.nextId k with
      | none => none
      | some currentId =>
        some (setWork { j with
          redis := j.redis.setIncr currentId data
          nextId := update j.nextId k (some (decimal (j.redis.counter + 1))) } k
            (.encoding (encoded ++ [{ item with data := currentId }]) items))
  | _ => none

def finish : Option ShmService :=
  match j.work k with
  | .encoding encoded [] => some (j.setWork k (.replying .Normal encoded))
  | _ => none

def requested (data : Bytes) : Redis :=
  match j.work k with
  | .decoding _ (item :: _) =>
    if item.isIngress then j.redis else j.redis.getDelete item.data
  | .encoding _ (item :: _) =>
    if item.isEgress then j.redis
    else match j.nextId k with
      | none => j.redis.incr
      | some currentId => j.redis.setIncr currentId data
  | _ => j.redis

/-- `decode`, `forward` or `encode` raises, before or after a request took effect, and every item
is answered with the text of the error. -/
def raise (takesEffect : Bool) (data : Bytes) (code : TaskCode) (text : Bytes) :
    Option ShmService :=
  let after := if takesEffect then { j with redis := j.requested k data } else j
  let reply (items : List Item) : Work :=
    .replying code (items.map fun item => { item with data := text })
  if code = .Normal ∨ code = .StreamEvent then none
  else match j.work k with
    | .decoding decoded items => some (after.setWork k (reply (decoded ++ items)))
    | .encoding encoded items => some (after.setWork k (reply (encoded ++ items)))
    | _ => none

def lose : Option ShmService := some (j.setWork k .idle)

def cut (work : Work) (code : TaskCode) (items : List Item) : Bool :=
  items.isEmpty || match work with
    | .replying code' items' => code' = code && items.isPrefixOf items'
    | _ => false

def exchange : Action → Option (ℕ → Work)
  | .conn k .writeOk =>
    match (j.state.conns k).point with
    | .write items => some (update j.work k (.decoding [] items))
    | _ => none
  | .conn k (.readReply code items) =>
    if j.work k = .replying code items then some (update j.work k .idle) else none
  | .conn k (.readErr code items) =>
    if cut (j.work k) code items then some j.work else none
  | _ => some j.work

def step (svc : Service) (j : ShmService) : ShmAction → Option ShmService
  | .service a =>
    (j.exchange a).bind fun work =>
      (j.state.step svc a).map fun s => { j with state := s, work := work }
  | .decode k => j.decode k
  | .forward k => j.forward k
  | .prepareNextId k => j.prepareNextId k
  | .encode k data => j.encode k data
  | .finish k => j.finish k
  | .raise k takesEffect data code text => j.raise k takesEffect data code text
  | .lose k => j.lose k

def start (counter : ℕ) : ShmService :=
  ⟨.start, ⟨counter, fun _ => none⟩, fun _ => none, fun _ => .idle⟩

def Quiescent (svc : Service) (j : ShmService) : Prop :=
  (∀ i, j.state.manager.table i = none) ∧
    (∀ r < svc.runtimes.length, j.state.manager.queues r = []) ∧
    ∀ k < j.state.connected, (j.state.conns k).ids = [] ∧ j.work k = .idle

end ShmService

end Mosec
