import Mosec.Wire

namespace Mosec.Protocol

/-- How the kernel answers one receive call: nothing comes before the timeout, or at least one
byte and at most `k` of them. -/
inductive Delivery where
  | timeout
  | upTo (k : ℕ)
  deriving DecidableEq, Repr

def Delivery.amount : Delivery → ℕ
  | .timeout => 0
  | .upTo k => max k 1

abbrev Schedule := ℕ → Delivery

def Schedule.drop (n : ℕ) (d : Schedule) : Schedule := fun i => d (i + n)

/-- The worker's end of the connection: `stream` is what the server has written and the worker
has not read, and the two schedules answer the successive `recv` and `recv_into` calls. -/
structure Socket where
  stream : Bytes
  closed : Bool
  recvs : Schedule
  recvIntos : Schedule

inductive RecvError where
  | timeout
  | structError
  | spin
  deriving DecidableEq, Repr

abbrev Recv := EStateM RecvError Socket

def answer (n : ℕ) (d : Delivery) (s : Socket) : EStateM.Result RecvError Socket Bytes :=
  if s.stream = [] then
    if s.closed then .ok [] s else .error .timeout s
  else if d = .timeout then .error .timeout s
  else .ok (s.stream.take (min n d.amount)) { s with stream := s.stream.drop (min n d.amount) }

def recv (n : ℕ) : Recv Bytes := fun s =>
  answer n (s.recvs 0) { s with recvs := s.recvs.drop 1 }

def recvInto (n : ℕ) : Recv Bytes := fun s =>
  answer n (s.recvIntos 0) { s with recvIntos := s.recvIntos.drop 1 }

abbrev lengthTaskFlag : ℕ := 2
abbrev lengthTaskBatch : ℕ := 2
abbrev lengthTaskId : ℕ := 4
abbrev lengthTaskState : ℕ := 2
abbrev lengthTaskBodyLen : ℕ := 4

def unpack (width : ℕ) (bytes : Bytes) : Recv ℕ :=
  if bytes.length = width then pure (BigEndian.decode bytes) else throw .structError

/-- The loop of `_recv_all` with `length` bytes of the view left. Every answer short of the end
of the stream has a byte, so a loop that outlives its calls has met the end and never stops. -/
def recvAllLoop : ℕ → ℕ → Recv Bytes
  | _, 0 => pure []
  | 0, _ + 1 => throw .spin
  | calls + 1, length + 1 => do
    let packet ← recvInto (length + 1)
    let buffer ← recvAllLoop calls (length + 1 - packet.length)
    return packet ++ buffer

def recvAll (length : ℕ) : Recv Bytes := recvAllLoop length length

structure PyItem where
  id : Bytes
  state : ℕ
  payload : Bytes
  deriving DecidableEq, Repr

structure PyBatch where
  flag : Bytes
  items : List PyItem
  deriving DecidableEq, Repr

def receiveItems : ℕ → Recv (List PyItem)
  | 0 => pure []
  | batchSize + 1 => do
    let idBytes ← recv lengthTaskId
    let stateBytes ← recv lengthTaskState
    let lengthBytes ← recv lengthTaskBodyLen
    let length ← unpack lengthTaskBodyLen lengthBytes
    let payload ← recvAll length
    let state ← unpack lengthTaskState stateBytes
    let items ← receiveItems batchSize
    return ⟨idBytes, state, payload⟩ :: items

def receive : Recv PyBatch := do
  let flag ← recv lengthTaskFlag
  let batchSizeBytes ← recv lengthTaskBatch
  let batchSize ← unpack lengthTaskBatch batchSizeBytes
  let items ← receiveItems batchSize
  return ⟨flag, items⟩

inductive HTTPStatusCode where
  | OK
  | BAD_REQUEST
  | VALIDATION_ERROR
  | INTERNAL_ERROR
  | TIMEOUT_ERROR
  | STREAM_EVENT
  deriving DecidableEq, Repr

def HTTPStatusCode.value : HTTPStatusCode → ℕ
  | .OK => 1
  | .BAD_REQUEST => 2
  | .VALIDATION_ERROR => 4
  | .INTERNAL_ERROR => 8
  | .TIMEOUT_ERROR => 16
  | .STREAM_EVENT => 32768

inductive SendError where
  | structError
  | valueError
  deriving DecidableEq, Repr

def pack (width n : ℕ) : Except SendError Bytes :=
  if n < 256 ^ width then .ok (BigEndian.encode width n) else .error .structError

def packItems : List Bytes → List ℕ → List Bytes → Except SendError Bytes
  | [], [], [] => .ok []
  | taskId :: ids, state :: states, payload :: payloads => do
    let stateBytes ← pack lengthTaskState state
    let lengthBytes ← pack lengthTaskBodyLen payload.length
    let data ← packItems ids states payloads
    return taskId ++ stateBytes ++ lengthBytes ++ payload ++ data
  | _, _, _ => .error .valueError

def send (flag : ℕ) (ids : List Bytes) (states : List ℕ) (payloads : List Bytes) :
    Except SendError Bytes := do
  let flagBytes ← pack lengthTaskFlag flag
  if ids.length ≠ payloads.length then throw .valueError
  let batchBytes ← pack lengthTaskBatch ids.length
  if ids.length > 0 then
    let data ← packItems ids states payloads
    return flagBytes ++ batchBytes ++ data
  else
    return flagBytes ++ batchBytes

end Mosec.Protocol
