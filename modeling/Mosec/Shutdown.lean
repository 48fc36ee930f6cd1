import Mosec.Progress

namespace Mosec

open Function (update)

inductive Visit where
  | absent
  | reading (isSse : Bool) (key : String)
  | unavailable
  | tooLarge
  | gone
  | submitted (h : ℕ)
  deriving DecidableEq, Repr

/-- Where `shutdown_signal` is: before the signal, in the loop of `TaskManager::shutdown`, or past
it, and then whether the loop was given up at the timeout. -/
inductive Closing where
  | serving
  | waiting
  | complete (timedOut : Bool)
  deriving DecidableEq, Repr

structure Front where
  state : State
  visits : ℕ → Visit
  arrived : ℕ
  isShutdown : Bool
  closing : Closing

inductive FrontAction where
  | arrive (isSse : Bool) (key : String)
  | body (v : ℕ) (data : Bytes)
  | drop (v : ℕ)
  | service (a : Action)
  | terminate
  | tick
  | timeout
  deriving DecidableEq, Repr

/-- `table.len()`: only ids that were given out can be in the table. -/
def TaskManager.len (m : TaskManager) : ℕ :=
  ((List.range (min m.allocated UInt32.size)).filter fun n =>
    (m.table (UInt32.ofNat n)).isSome).length

namespace Front

def start : Front := ⟨State.start, fun _ => .absent, 0, false, .serving⟩

def setVisit (f : Front) (v : ℕ) (visit : Visit) : Front :=
  { f with visits := update f.visits v visit }

/-- The listener takes connections until `shutdown_signal` returns; `is_shutdown` is looked at once,
before the body is read. -/
def arrive (f : Front) (isSse : Bool) (key : String) : Option Front :=
  match f.closing with
  | .complete _ => none
  | _ => some
    { f.setVisit f.arrived (if f.isShutdown then .unavailable else .reading isSse key) with
      arrived := f.arrived + 1 }

def body (limit : ℕ) (f : Front) (v : ℕ) (data : Bytes) : Option Front :=
  match f.visits v with
  | .reading isSse key =>
    if data.length ≤ limit then some
      { f.setVisit v (.submitted f.state.submitted) with state := f.state.submit isSse key data }
    else some (f.setVisit v .tooLarge)
  | _ => none

def drop (f : Front) (v : ℕ) : Option Front :=
  match f.visits v with
  | .reading _ _ => some (f.setVisit v .gone)
  | _ => none

def tick (f : Front) : Option Front :=
  match f.closing with
  | .waiting =>
    some (if f.state.manager.len = 0 then { f with closing := .complete false } else f)
  | _ => none

def step (svc : Service) (limit : ℕ) (f : Front) : FrontAction → Option Front
  | .arrive isSse key => f.arrive isSse key
  | .body v data => f.body limit v data
  | .drop v => f.drop v
  | .service (.submit _ _ _) => none
  | .service a => (f.state.step svc a).map fun s => { f with state := s }
  | .terminate =>
    match f.closing with
    | .serving => some { f with isShutdown := true, closing := .waiting }
    | _ => some f
  | .tick => f.tick
  | .timeout =>
    match f.closing with
    | .waiting => some { f with closing := .complete true }
    | _ => none

end Front

end Mosec
