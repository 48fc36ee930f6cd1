import Mosec.TaskManager

namespace Mosec

inductive Exit where
  | rejected
  | expired
  | finished
  deriving DecidableEq, Repr

inductive Outcome where
  | task (task : Task)
  | error (err : ServiceError)
  | noData
  | stream
  deriving DecidableEq, Repr

/-- The next atomic step of a submission: up to `trySend` in `add_new_task`, then in
`submit_task`, or in `submit_sse_task` and the `wait_sse_finish` it spawns. -/
inductive Handler where
  | absent
  | takeId
  | insertNotifier
  | insertTask
  | trySend
  | insertStream
  | count
  | spawn
  | waiting
  | takeTask
  | deleteNotifier (exit : Exit)
  | deleteTask (exit : Exit)
  | deleteStream
  | uncount (outcome : Outcome)
  | done (outcome : Outcome)
  | dropped
  | panicked
  deriving DecidableEq, Repr

structure Request where
  isSse : Bool
  key : String
  body : Bytes
  id : UInt32
  handler : Handler
  deriving DecidableEq, Repr

def Request.absent : Request := ⟨false, "", [], 0, .absent⟩

namespace Request

open TaskManager

def submit (m : TaskManager) (h : ℕ) (isSse : Bool) (key : String) (body : Bytes) :
    TaskManager × Request :=
  if body = [] then (m, ⟨isSse, key, body, 0, .done .noData⟩)
  else if isSse then (m, ⟨true, key, body, 0, .takeId⟩)
  else (m.count h 1, ⟨false, key, body, 0, .takeId⟩)

def close (m : TaskManager) (h : ℕ) : TaskManager :=
  m.setOneshot h { m.oneshots h with closed := true }

def afterDelete (q : Request) : Exit → Handler
  | .finished => .deleteStream
  | .expired => .uncount (.error .Timeout)
  | .rejected => if q.isSse then .done (.error .TooManyRequests)
    else .uncount (.error .TooManyRequests)

def run (svc : Service) (m : TaskManager) (h : ℕ) (q : Request) :
    Option (TaskManager × Request) :=
  match q.handler with
  | .takeId => some (m.takeId h, { q with id := m.currentId, handler := .insertNotifier })
  | .insertNotifier => some (m.insertNotifier q.id h, { q with handler := .insertTask })
  | .insertTask =>
    some (m.insertTask q.id (Task.new q.body q.key h), { q with handler := .trySend })
  | .trySend =>
    match (svc.senders q.key).bind List.head? with
    | none => some (close m h, { q with handler := .panicked })
    | some r =>
      if (m.queues r).length < svc.capacity then
        some (m.push r q.id, { q with handler := if q.isSse then .insertStream else .waiting })
      else some (m, { q with handler := .deleteNotifier .rejected })
  | .insertStream => some (m.insertStream q.id h, { q with handler := .count })
  | .count => some (m.count h 1, { q with handler := .spawn })
  | .spawn => some (m, { q with handler := .waiting })
  | .takeTask =>
    match m.table q.id with
    | some task => some (m.removeTask q.id, { q with handler := .uncount (.task task) })
    | none => some (m, { q with handler := .uncount (.error .UnknownError) })
  | .deleteNotifier exit =>
    some (m.deleteNotifier q.id, { q with handler := .deleteTask exit })
  | .deleteTask exit => some (m.removeTask q.id, { q with handler := q.afterDelete exit })
  | .deleteStream => some (m.removeStream q.id, { q with handler := .uncount .stream })
  | .uncount outcome => some (m.count h (-1), { q with handler := .done outcome })
  | _ => none

/-- The notifier was sent, or its sender is gone, which is no `Elapsed` either. -/
def resume (m : TaskManager) (h : ℕ) (q : Request) : Option (TaskManager × Request) :=
  if q.handler = .waiting ∧ ((m.oneshots h).sent ∨ (m.oneshots h).senderGone) then
    some (m, { q with handler := if q.isSse then .deleteNotifier .finished else .takeTask })
  else none

def elapse (m : TaskManager) (h : ℕ) (q : Request) : Option (TaskManager × Request) :=
  if q.handler = .waiting then
    some (close m h,
      { q with handler := .deleteNotifier (if q.isSse then .finished else .expired) })
  else none

/-- The client goes away while `submit_task` awaits, and the handler is dropped there. The task
of `wait_sse_finish` outlives its client. -/
def disconnect (m : TaskManager) (h : ℕ) (q : Request) : Option (TaskManager × Request) :=
  if q.handler = .waiting ∧ q.isSse = false then
    some (close m h, { q with handler := .dropped })
  else none

/-- The response of an SSE request exists from the end of `submit_sse_task` on. -/
def hasResponse (q : Request) : Bool :=
  q.isSse && match q.handler with
    | .waiting => true
    | .deleteNotifier .finished => true
    | .deleteTask .finished => true
    | .deleteStream => true
    | .uncount .stream => true
    | .done .stream => true
    | _ => false

/-- One `recv` of the response stream that does not have to wait; `clones` says that a
connection holds a clone of the sender. -/
def receiveEvent (m : TaskManager) (h : ℕ) (q : Request) (clones : Bool) :
    Option (TaskManager × Request) :=
  let stream := m.streams h
  if q.hasResponse ∧ stream.closed = false ∧ stream.ended = false then
    match stream.buffer with
    | event :: buffer =>
      some (m.setStream h
        { stream with buffer := buffer, received := stream.received ++ [event] }, q)
    | [] =>
      if m.streamSenders q.id ≠ some h ∧ clones = false then
        some (m.setStream h { stream with ended := true }, q)
      else none
  else none

def leave (m : TaskManager) (h : ℕ) (q : Request) : Option (TaskManager × Request) :=
  if q.hasResponse then some (m.setStream h { m.streams h with closed := true }, q) else none

end Request

end Mosec
