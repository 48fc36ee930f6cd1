import Mathlib.Data.List.Nodup
import Mathlib.Logic.Function.Basic
import Mosec.Wire

namespace Mosec

open Function (update)

def decimal (n : ℕ) : Bytes := (Nat.toDigits 10 n).map fun c => UInt8.ofNat c.toNat

structure Redis where
  counter : ℕ
  object : Bytes → Option Bytes

namespace Redis

def incr (s : Redis) : Redis := { s with counter := s.counter + 1 }

def setIncr (s : Redis) (currentId data : Bytes) : Redis :=
  { s with object := update s.object currentId (some data) }.incr

def getDelete (s : Redis) (objectId : Bytes) : Redis :=
  { s with object := update s.object objectId none }

end Redis

/-- What the client sees of one request to the server: its reply, or an exception before or after
the request took effect. -/
inductive Exchange where
  | replied | raisedBefore | raisedAfter

def Exchange.server : Exchange → Redis → Redis → Redis
  | .replied, _, s' => s'
  | .raisedBefore, s, _ => s
  | .raisedAfter, _, s' => s'

def Exchange.takesEffect : Exchange → Bool
  | .replied => true
  | .raisedBefore => false
  | .raisedAfter => true

structure SuperIpc (α : Type) where
  serializeIpc : α → Option Bytes
  deserializeIpc : Option Bytes → Option α

inductive ShmCall (α : Type) where
  | idle
  | serializing (data : α)
  | prepared (data : α)
  | deserializing (objectId : Bytes)

structure ShmWorker (α : Type) where
  nextId : Option Bytes
  call : ShmCall α

structure ShmSystem (α : Type) where
  redis : Redis
  worker : ℕ → ShmWorker α

inductive ShmEvent (α : Type) where
  | silent
  | stored (worker : ℕ) (data : α) (currentId : Bytes) (exchange : Exchange)
  | fetched (worker : ℕ) (objectId : Bytes) (exchange : Exchange) (result : Option α)

namespace ShmSystem

variable {α : Type}

def setWorker (s : ShmSystem α) (p : ℕ) (nextId : Option Bytes) (call : ShmCall α) : ShmSystem α :=
  { s with worker := update s.worker p ⟨nextId, call⟩ }

def setRedis (s : ShmSystem α) (redis : Redis) : ShmSystem α := { s with redis := redis }

def prepare (s : ShmSystem α) (p : ℕ) (data : α) (exchange : Exchange) : ShmSystem α :=
  let after := s.setRedis (exchange.server s.redis s.redis.incr)
  match exchange with
  | .replied => after.setWorker p (some (decimal (s.redis.counter + 1))) (.prepared data)
  | _ => after.setWorker p none .idle

/-- `pipe.execute()` of `serialize_ipc`. The id reserved for the next call is only known from a
reply. -/
def executeSet (s : ShmSystem α) (p : ℕ) (currentId stored : Bytes) (exchange : Exchange) :
    ShmSystem α :=
  let after := s.setRedis (exchange.server s.redis (s.redis.setIncr currentId stored))
  match exchange with
  | .replied => after.setWorker p (some (decimal (s.redis.counter + 1))) .idle
  | _ => after.setWorker p (some currentId) .idle

def executeGet (s : ShmSystem α) (p : ℕ) (objectId : Bytes) (exchange : Exchange) :
    ShmSystem α :=
  (s.setRedis (exchange.server s.redis (s.redis.getDelete objectId))).setWorker p
    (s.worker p).nextId .idle

def fetchResult (ipc : SuperIpc α) (s : ShmSystem α) (objectId : Bytes) :
    Exchange → Option α
  | .replied => ipc.deserializeIpc (s.redis.object objectId)
  | _ => none

inductive Step (ipc : SuperIpc α) : ShmSystem α → ShmEvent α → ShmSystem α → Prop
  | callSerialize {s : ShmSystem α} (p : ℕ) (data : α) (hidle : (s.worker p).call = .idle) :
      Step ipc s .silent (s.setWorker p (s.worker p).nextId (.serializing data))
  | prepareNextId {s : ShmSystem α} (p : ℕ) (data : α) (exchange : Exchange)
      (hcall : (s.worker p).call = .serializing data) (hid : (s.worker p).nextId = none) :
      Step ipc s .silent (s.prepare p data exchange)
  | keepNextId {s : ShmSystem α} (p : ℕ) (data : α) (currentId : Bytes)
      (hcall : (s.worker p).call = .serializing data)
      (hid : (s.worker p).nextId = some currentId) :
      Step ipc s .silent (s.setWorker p (some currentId) (.prepared data))
  | serializeRaises {s : ShmSystem α} (p : ℕ) (data : α)
      (hcall : (s.worker p).call = .prepared data) (hraise : ipc.serializeIpc data = none) :
      Step ipc s .silent (s.setWorker p (s.worker p).nextId .idle)
  | serializeIpc {s : ShmSystem α} (p : ℕ) (data : α) (currentId stored : Bytes)
      (exchange : Exchange) (hcall : (s.worker p).call = .prepared data)
      (hid : (s.worker p).nextId = some currentId) (hdata : ipc.serializeIpc data = some stored) :
      Step ipc s (.stored p data currentId exchange) (s.executeSet p currentId stored exchange)
  | callDeserialize {s : ShmSystem α} (p : ℕ) (objectId : Bytes)
      (hidle : (s.worker p).call = .idle) :
      Step ipc s .silent (s.setWorker p (s.worker p).nextId (.deserializing objectId))
  | deserializeIpc {s : ShmSystem α} (p : ℕ) (objectId : Bytes) (exchange : Exchange)
      (hcall : (s.worker p).call = .deserializing objectId) :
      Step ipc s (.fetched p objectId exchange (fetchResult ipc s objectId exchange))
        (s.executeGet p objectId exchange)

inductive Runs (ipc : SuperIpc α) : ShmSystem α → List (ShmEvent α) → ShmSystem α → Prop
  | nil (s : ShmSystem α) : Runs ipc s [] s
  | cons {s s' s'' : ShmSystem α} {event : ShmEvent α} {events : List (ShmEvent α)}
      (hs : Step ipc s event s') (hruns : Runs ipc s' events s'') :
      Runs ipc s (event :: events) s''

/-- The processes have just started, on a server that may have been in use. -/
def initial (redis : Redis) : ShmSystem α := ⟨redis, fun _ => ⟨none, .idle⟩⟩

end ShmSystem

def ShmEvent.returned {α : Type} : ShmEvent α → Option Bytes
  | .stored _ _ currentId .replied => some currentId
  | _ => none

def ShmEvent.fetches {α : Type} (objectId : Bytes) : ShmEvent α → Bool
  | .fetched _ objectId' exchange _ => objectId' = objectId && exchange.takesEffect
  | _ => false

end Mosec
