import Mosec.Coordinator

namespace Mosec

open Protocol (PyItem HTTPStatusCode)

abbrev StreamEvent := PyStr × ℤ

/-- `ids[index]`, where a negative index counts from the end. -/
def pyIndex (ids : List Bytes) (index : ℤ) : Option Bytes :=
  if 0 ≤ index then ids[index.toNat]?
  else if (-index).toNat ≤ ids.length then ids[ids.length - (-index).toNat]?
  else none

def eventFrame (ids : List Bytes) (event : StreamEvent) : Option Bytes := do
  let payload ← event.1.encode
  let id ← pyIndex ids event.2
  (Protocol.send HTTPStatusCode.STREAM_EVENT.value [id] [0] [payload]).toOption

/-- A batch and what the worker does with it: `events` are the calls of `send_stream_event` that
`forward` makes when nothing interrupts it. -/
structure SseBatch (α β : Type) where
  items : List PyItem
  calls : WorkerCalls α β
  events : List StreamEvent

namespace SseBatch

variable {α β : Type} (batch : SseBatch α β) (maxBatchSize : ℕ)

def ids : List Bytes := batch.items.map PyItem.id

def forwards : Bool :=
  match Coordinator.decodeAll batch.calls batch.items with
  | .error _ => false
  | .ok data => maxBatchSize > 1 || !data.isEmpty

def script : List StreamEvent := if batch.forwards maxBatchSize then batch.events else []

def interrupted (str : PyStr) : WorkerCalls α β :=
  { batch.calls with
    forwardBatch := fun _ => .error (.timeoutError str)
    forwardOne := fun _ => .error (.timeoutError str) }

def reply : Option PyStr → Option (HTTPStatusCode × List Bytes)
  | none => Coordinator.reply batch.calls maxBatchSize batch.items
  | some str => Coordinator.reply (batch.interrupted str) maxBatchSize batch.items

def frame (reply : HTTPStatusCode × List Bytes) : Option Bytes :=
  (Protocol.send reply.1.value batch.ids (batch.items.map PyItem.state) reply.2).toOption

end SseBatch

inductive MainAt (α β : Type) where
  | warmup (todo : List StreamEvent)
  | warmingUp (event : StreamEvent) (todo : List StreamEvent)
  | receiving
  | forwarding (batch : SseBatch α β) (todo : List StreamEvent)
  | emitting (batch : SseBatch α β) (event : StreamEvent) (todo : List StreamEvent)
  | replying (batch : SseBatch α β) (interrupted : Option PyStr)
  | sending (acquired : Bool) (left : Bytes)
  | releasing (acquired goesOn : Bool)
  | stopped

inductive StreamerAt where
  | waiting
  | taken (event : StreamEvent)
  | sending (left : Bytes)
  | sent
  | dead (event : Option StreamEvent)

/-- The history of one batch: the calls of `send_stream_event` that came to their end, the text of
a timeout, and the frame handed to `sendall` for the reply. -/
structure Record (α β : Type) where
  batch : SseBatch α β
  interrupted : Option PyStr
  calls : List StreamEvent
  reply : Option Bytes

/-- The two threads, and what they share. The last batch comes first in the history. -/
structure Threads (α β : Type) where
  main : MainAt α β
  streamer : StreamerAt
  value : ℕ
  queue : List StreamEvent
  currentIds : List Bytes
  wire : Bytes
  log : List (Record α β)

inductive StreamLabel where
  | ordinary
  | acquireTimesOut
  | interrupt
  | socketError
  deriving DecidableEq

namespace Threads

variable {α β : Type}

def initial (warmup : List StreamEvent) : Threads α β :=
  ⟨.warmup warmup, .waiting, 1, [], [], [], []⟩

def receive (s : Threads α β) (maxBatchSize : ℕ) (batch : SseBatch α β) : Threads α β :=
  { s with
    main := if batch.forwards maxBatchSize then .forwarding batch batch.events
      else .replying batch none
    currentIds := batch.ids
    log := ⟨batch, none, [], none⟩ :: s.log }

def put (s : Threads α β) (batch : SseBatch α β) (event : StreamEvent) (todo : List StreamEvent) :
    Threads α β :=
  { s with
    main := .forwarding batch todo
    queue := s.queue ++ [event]
    log := s.log.modifyHead fun r => { r with calls := r.calls ++ [event] } }

def interrupt (s : Threads α β) (batch : SseBatch α β) (str : PyStr) : Threads α β :=
  { s with
    main := .replying batch (some str)
    log := s.log.modifyHead fun r => { r with interrupted := some str } }

def beginReply (s : Threads α β) (acquired : Bool) : Option Bytes → Threads α β
  | none => { s with main := .releasing acquired false }
  | some frame =>
    { s with
      main := .sending acquired frame
      log := s.log.modifyHead fun r => { r with reply := some frame } }

inductive Step (maxBatchSize : ℕ) : Threads α β → StreamLabel → Threads α β → Prop
  | warmupAcquire {s : Threads α β} (event : StreamEvent) (todo : List StreamEvent) (value : ℕ)
      (hmain : s.main = .warmup (event :: todo)) (hvalue : s.value = value + 1) :
      Step maxBatchSize s .ordinary { s with main := .warmingUp event todo, value := value }
  | warmupPut {s : Threads α β} (event : StreamEvent) (todo : List StreamEvent)
      (hmain : s.main = .warmingUp event todo) :
      Step maxBatchSize s .ordinary { s with main := .warmup todo, queue := s.queue ++ [event] }
  | warmupEnds {s : Threads α β} (hmain : s.main = .warmup []) :
      Step maxBatchSize s .ordinary { s with main := .receiving }
  | receive {s : Threads α β} (batch : SseBatch α β) (hmain : s.main = .receiving) :
      Step maxBatchSize s .ordinary (s.receive maxBatchSize batch)
  | shutdown {s : Threads α β} (hmain : s.main = .receiving) :
      Step maxBatchSize s .ordinary { s with main := .stopped }
  | receiveFails {s : Threads α β} (hmain : s.main = .receiving) :
      Step maxBatchSize s .socketError { s with main := .stopped }
  | acquire {s : Threads α β} (batch : SseBatch α β) (event : StreamEvent)
      (todo : List StreamEvent) (value : ℕ) (hmain : s.main = .forwarding batch (event :: todo))
      (hvalue : s.value = value + 1) :
      Step maxBatchSize s .ordinary { s with main := .emitting batch event todo, value := value }
  | put {s : Threads α β} (batch : SseBatch α β) (event : StreamEvent) (todo : List StreamEvent)
      (hmain : s.main = .emitting batch event todo) :
      Step maxBatchSize s .ordinary (s.put batch event todo)
  | forwardEnds {s : Threads α β} (batch : SseBatch α β) (hmain : s.main = .forwarding batch []) :
      Step maxBatchSize s .ordinary { s with main := .replying batch none }
  | interrupt {s : Threads α β} (batch : SseBatch α β) (todo : List StreamEvent) (str : PyStr)
      (hmain : s.main = .forwarding batch todo) :
      Step maxBatchSize s .interrupt (s.interrupt batch str)
  | interruptHolding {s : Threads α β} (batch : SseBatch α β) (event : StreamEvent)
      (todo : List StreamEvent) (str : PyStr) (hmain : s.main = .emitting batch event todo) :
      Step maxBatchSize s .interrupt (s.interrupt batch str)
  | escape {s : Threads α β} (batch : SseBatch α β) (interrupted : Option PyStr)
      (hmain : s.main = .replying batch interrupted)
      (hreply : batch.reply maxBatchSize interrupted = none) :
      Step maxBatchSize s .ordinary { s with main := .stopped }
  | acquireReply {s : Threads α β} (batch : SseBatch α β) (interrupted : Option PyStr)
      (reply : HTTPStatusCode × List Bytes) (value : ℕ)
      (hmain : s.main = .replying batch interrupted)
      (hreply : batch.reply maxBatchSize interrupted = some reply)
      (hvalue : s.value = value + 1) :
      Step maxBatchSize s .ordinary
        (({ s with value := value } : Threads α β).beginReply true (batch.frame reply))
  | acquireTimesOut {s : Threads α β} (batch : SseBatch α β) (interrupted : Option PyStr)
      (reply : HTTPStatusCode × List Bytes) (hmain : s.main = .replying batch interrupted)
      (hreply : batch.reply maxBatchSize interrupted = some reply) (hvalue : s.value = 0) :
      Step maxBatchSize s .acquireTimesOut (s.beginReply false (batch.frame reply))
  | write {s : Threads α β} (acquired : Bool) (chunk left : Bytes)
      (hmain : s.main = .sending acquired (chunk ++ left)) :
      Step maxBatchSize s .ordinary
        { s with main := .sending acquired left, wire := s.wire ++ chunk }
  | sent {s : Threads α β} (acquired : Bool) (hmain : s.main = .sending acquired []) :
      Step maxBatchSize s .ordinary { s with main := .releasing acquired true }
  | sendFails {s : Threads α β} (acquired : Bool) (left : Bytes)
      (hmain : s.main = .sending acquired left) :
      Step maxBatchSize s .socketError { s with main := .releasing acquired false }
  | release {s : Threads α β} (acquired goesOn : Bool)
      (hmain : s.main = .releasing acquired goesOn) :
      Step maxBatchSize s .ordinary
        { s with main := if goesOn then .receiving else .stopped, value := s.value + 1 }
  | streamGet {s : Threads α β} (event : StreamEvent) (queue : List StreamEvent)
      (hstreamer : s.streamer = .waiting) (hqueue : s.queue = event :: queue) :
      Step maxBatchSize s .ordinary { s with streamer := .taken event, queue := queue }
  | streamBuild {s : Threads α β} (event : StreamEvent) (frame : Bytes)
      (hstreamer : s.streamer = .taken event)
      (hframe : eventFrame s.currentIds event = some frame) :
      Step maxBatchSize s .ordinary { s with streamer := .sending frame }
  | streamRaises {s : Threads α β} (event : StreamEvent) (hstreamer : s.streamer = .taken event)
      (hframe : eventFrame s.currentIds event = none) :
      Step maxBatchSize s .ordinary { s with streamer := .dead (some event) }
  | streamWrite {s : Threads α β} (chunk left : Bytes)
      (hstreamer : s.streamer = .sending (chunk ++ left)) :
      Step maxBatchSize s .ordinary { s with streamer := .sending left, wire := s.wire ++ chunk }
  | streamSent {s : Threads α β} (hstreamer : s.streamer = .sending []) :
      Step maxBatchSize s .ordinary { s with streamer := .sent }
  | streamFails {s : Threads α β} (left : Bytes) (hstreamer : s.streamer = .sending left) :
      Step maxBatchSize s .socketError { s with streamer := .dead none }
  | streamRelease {s : Threads α β} (hstreamer : s.streamer = .sent) :
      Step maxBatchSize s .ordinary { s with streamer := .waiting, value := s.value + 1 }
  | streamStops {s : Threads α β} (hstreamer : s.streamer = .waiting) :
      Step maxBatchSize s .ordinary { s with streamer := .dead none }

inductive Runs (maxBatchSize : ℕ) (allowed : Threads α β → StreamLabel → Prop)
    (s : Threads α β) : Threads α β → Prop
  | refl : Runs maxBatchSize allowed s s
  | tail {t u : Threads α β} {label : StreamLabel} (hruns : Runs maxBatchSize allowed s t)
      (hstep : Step maxBatchSize t label u) (hallowed : allowed t label) :
      Runs maxBatchSize allowed s u

end Threads

end Mosec
