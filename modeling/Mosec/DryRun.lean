import Mathlib.Data.List.Chain
import Mosec.Attempts
import Mosec.Coordinator

namespace Mosec

open Protocol (PyItem)

inductive PyValue (α : Type) where
  | obj (a : α)
  | list (items : List (PyValue α))

namespace PyValue

variable {α : Type}

/-- The elements of the result of a batch; other objects raise where they are counted or
subscripted. -/
def items : PyValue α → Except Raised (List (PyValue α))
  | .obj _ => .error .exception
  | .list items => .ok items

def first (x : PyValue α) : Except Raised (PyValue α) := do
  match ← x.items with
  | [] => .error .exception
  | item :: _ => return item

end PyValue

/-- What `Coordinator.__init__` sets on the worker it makes. A worker that streams gets a queue and
a semaphore for its events. -/
structure Attributes where
  workerId : ℕ
  maxBatchSize : ℕ
  stage : String
  streams : Bool

def Attributes.unset : Attributes := ⟨0, 1, "", false⟩

structure Methods (α : Type) where
  deserialize : Bytes → Except Raised (PyValue α)
  deserializeIpc : Bytes → Except Raised (PyValue α)
  forward : PyValue α → Except Raised (PyValue α)
  serialize : PyValue α → Except Raised Bytes
  serializeIpc : PyValue α → Except Raised Bytes

/-- The worker class of a stage, whose methods may read what is set on the worker, and what its
runtime has the coordinator set. -/
structure StageWorker (α : Type) where
  attributes : Attributes
  methods : Attributes → Methods α

structure Examples (α : Type) where
  truth : α → Bool
  single : Option (PyValue α)
  multi : List (PyValue α)

variable {α : Type}

namespace StageWorker

def maxBatchSize (w : StageWorker α) : ℕ := w.attributes.maxBatchSize

def served (w : StageWorker α) : Methods α := w.methods w.attributes

def fresh (w : StageWorker α) : Methods α := w.methods .unset

def calls (w : StageWorker α) : WorkerCalls (PyValue α) (PyValue α) where
  deserialize _ := w.served.deserialize
  deserializeIpc _ := w.served.deserializeIpc
  forwardBatch data := w.served.forward (.list data) >>= PyValue.items
  forwardOne := w.served.forward
  serialize _ := w.served.serialize
  serializeIpc _ := w.served.serializeIpc

end StageWorker

def Examples.holds (examples : Examples α) : PyValue α → Bool
  | .obj a => examples.truth a
  | .list items => !items.isEmpty

namespace Coordinator

def warmup (examples : Examples α) : List (PyValue α) :=
  if examples.multi ≠ [] then examples.multi else (examples.single.filter examples.holds).toList

def argument (w : StageWorker α) (items : List PyItem) : Except Raised (PyValue α) := do
  let data ← decodeAll w.calls items
  if w.maxBatchSize > 1 then return .list data
  else match data with
    | [] => .error .exception
    | datum :: _ => return datum

def results (w : StageWorker α) (out : PyValue α) : Except Raised (List (PyValue α)) :=
  if w.maxBatchSize > 1 then out.items else return [out]

/-- What `forward` returns to `coordinate`. -/
def execute (w : StageWorker α) (items : List PyItem) : Except Raised (PyValue α) := do
  let x ← argument w items
  w.served.forward x

def serveStage (w : StageWorker α) (state : ℕ) (payload : Bytes) : Except Raised Bytes := do
  let payloads ← infer w.calls w.maxBatchSize [⟨[], state, payload⟩]
  match payloads with
  | [] => .error .exception
  | payload :: _ => return payload

def serve (w : StageWorker α) (state : ℕ) : List (StageWorker α) → Bytes → Except Raised Bytes
  | [], payload => serveStage w (state ||| egress) payload
  | next :: rest, payload => do
    let payload ← serveStage w state payload
    serve next 0 rest payload

end Coordinator

namespace DryRun

def warmup (examples : Examples α) : Option (PyValue α) :=
  ((examples.single.filter examples.holds).or examples.multi.head?).filter examples.holds

def argument (w : StageWorker α) (received : PyValue α ⊕ Bytes) : Except Raised (PyValue α) := do
  let data ← match received with
    | .inl data => pure data
    | .inr payload => w.fresh.deserialize payload
  return if w.maxBatchSize > 1 then .list [data] else data

/-- What `forward` returns to `dry_run_func`. -/
def execute (w : StageWorker α) (received : PyValue α ⊕ Bytes) : Except Raised (PyValue α) := do
  let x ← argument w received
  w.fresh.forward x

def result (w : StageWorker α) (out : PyValue α) : Except Raised (PyValue α) :=
  if w.maxBatchSize > 1 then out.first else return out

def dryRunFunc (w : StageWorker α) (received : PyValue α ⊕ Bytes) : Except Raised Bytes := do
  let out ← execute w received
  let data ← result w out
  w.fresh.serialize data

def run (w : StageWorker α) : List (StageWorker α) → PyValue α ⊕ Bytes → Except Raised Bytes
  | [], received => dryRunFunc w received
  | next :: rest, received => do
    let payload ← dryRunFunc w received
    run next rest (.inr payload)

def Inverts (prev next : StageWorker α) : Prop :=
  ∀ x payload, prev.served.serializeIpc x = .ok payload →
    prev.fresh.serialize x >>= next.fresh.deserialize = .ok x

variable {w prev next : StageWorker α} {rest : List (StageWorker α)} {x : PyValue α}

def rawMethods : Methods Bytes where
  deserialize payload := .ok (.obj payload)
  deserializeIpc payload := .ok (.obj payload)
  forward := .ok
  serialize
    | .obj payload => .ok payload
    | .list _ => .error .exception
  serializeIpc
    | .obj payload => .ok payload
    | .list _ => .error .exception

def rawWorker : StageWorker Bytes := ⟨⟨1, 1, "raw", false⟩, fun _ => rawMethods⟩

theorem raw_serializeIpc {x : PyValue Bytes} {payload : Bytes}
    (h : rawMethods.serializeIpc x = .ok payload) : x = .obj payload := by
  cases x with
  | obj payload' =>
    cases h
    rfl
  | list items => cases h

def groupingWorker : StageWorker Bytes where
  attributes := ⟨1, 16, "models", false⟩
  methods attributes :=
    { rawMethods with
      forward
        | .list items =>
          if attributes.maxBatchSize > 1 then .ok (.list items) else .error .exception
        | .obj payload =>
          if attributes.maxBatchSize > 1 then .error .exception else .ok (.obj payload) }

theorem dryRun_fails_unset :
    [rawWorker, groupingWorker].IsChain Inverts ∧
      run rawWorker [groupingWorker] (.inl (.obj [0x61])) = .error .exception ∧
      Coordinator.serve rawWorker Coordinator.ingress [groupingWorker] [0x61] = .ok [0x61] := by
  refine ⟨?_, rfl, rfl⟩
  rw [List.isChain_pair]
  intro x payload h
  rw [raw_serializeIpc h]
  rfl

end DryRun

end Mosec
