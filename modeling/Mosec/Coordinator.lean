import Mosec.Protocol
import Mosec.PyStr

namespace Mosec

open Protocol (PyItem HTTPStatusCode)

/-- What the worker raises: an error of the library or of a class that extends it, with the
attributes `code` and `msg` of its class and its `str`, any other `Exception`, or what is none. -/
inductive Raised where
  | mosecError (code : HTTPStatusCode) (nonOk : code ≠ .OK) (msg str : PyStr)
  | timeoutError (str : PyStr)
  | exception
  | baseException

def decodingError : Raised :=
  .mosecError .BAD_REQUEST HTTPStatusCode.noConfusion (.ofString "decoding error") []

/-- The methods of the worker during one batch. The number is the position of the item, so that
two calls with equal arguments may differ. -/
structure WorkerCalls (α β : Type) where
  deserialize : ℕ → Bytes → Except Raised α
  deserializeIpc : ℕ → Bytes → Except Raised α
  forwardBatch : List α → Except Raised (List β)
  forwardOne : α → Except Raised β
  serialize : ℕ → β → Except Raised Bytes
  serializeIpc : ℕ → β → Except Raised Bytes

namespace Coordinator

abbrev ingress : ℕ := 0b1
abbrev egress : ℕ := 0b10

variable {α β : Type} (calls : WorkerCalls α β) (maxBatchSize : ℕ)

def decode (i : ℕ) (payload : Bytes) (state : ℕ) : Except Raised α :=
  if state &&& ingress ≠ 0 then calls.deserialize i payload else calls.deserializeIpc i payload

def encode (i : ℕ) (data : β) (state : ℕ) : Except Raised Bytes :=
  if state &&& egress ≠ 0 then calls.serialize i data else calls.serializeIpc i data

def decodeAll (items : List PyItem) : Except Raised (List α) :=
  items.zipIdx.mapM fun (item, i) => decode calls i item.payload item.state

def forward (data : List α) : Except Raised (List β) :=
  if maxBatchSize > 1 then calls.forwardBatch data
  else match data with
    | [] => .error .exception
    | datum :: _ => do
      let result ← calls.forwardOne datum
      return [result]

def infer (items : List PyItem) : Except Raised (List Bytes) := do
  let data ← decodeAll calls items
  let results ← forward calls maxBatchSize data
  if results.length ≠ items.length then throw .exception
  (results.zip items).zipIdx.mapM fun ((result, item), i) => encode calls i result item.state

def timeoutMsg : PyStr := .ofString "mosec timeout error"

def internalError : PyStr := .ofString "inference internal error"

def errorText (msg str : PyStr) : PyStr :=
  let errMsg := str.joinLines
  msg ++ .ofString ": " ++ if errMsg = [] then msg else errMsg

/-- The status and the payload of the handlers, unless their own `encode` raises or there is none
for the exception. -/
def handler : Raised → Option (HTTPStatusCode × Bytes)
  | .mosecError code _ msg str => (errorText msg str).encode.map (code, ·)
  | .timeoutError str => (errorText timeoutMsg str).encode.map (.TIMEOUT_ERROR, ·)
  | .exception => internalError.encode.map (.INTERNAL_ERROR, ·)
  | .baseException => none

def reply (items : List PyItem) : Option (HTTPStatusCode × List Bytes) :=
  match infer calls maxBatchSize items with
  | .ok payloads => some (.OK, payloads)
  | .error err => (handler err).map fun (status, text) =>
      (status, List.replicate items.length text)

def answer (items : List PyItem) : Option Bytes := do
  let (status, payloads) ← reply calls maxBatchSize items
  (Protocol.send status.value (items.map PyItem.id) (items.map PyItem.state) payloads).toOption

/-- What `receive` brings: `sends` is false where `sendall` raises for the reply. -/
inductive Incoming (α β : Type) where
  | timeout
  | broken
  | batch (items : List PyItem) (calls : WorkerCalls α β) (sends : Bool)

inductive Exit where
  | shutdown
  | broken
  | escaped
  deriving DecidableEq

structure Session where
  frames : List Bytes
  exit : Exit

def Session.cons (frame : Bytes) (session : Session) : Session :=
  ⟨frame :: session.frames, session.exit⟩

def coordinate : List (Incoming α β) → Session
  | [] => ⟨[], .shutdown⟩
  | .timeout :: incoming => coordinate incoming
  | .broken :: _ => ⟨[], .broken⟩
  | .batch items calls sends :: incoming =>
    match answer calls maxBatchSize items with
    | none => ⟨[], .escaped⟩
    | some frame => if sends then (coordinate incoming).cons frame else ⟨[], .broken⟩

end Coordinator

end Mosec
