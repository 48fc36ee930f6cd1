import Mosec.TaskManager

namespace Mosec

inductive Job where
  | send (id : UInt32)
  | notify (id : UInt32)
  deriving DecidableEq, Repr

def Job.id : Job → UInt32
  | .send id => id
  | .notify id => id

inductive Next where
  | read
  | collect
  | closed
  deriving DecidableEq, Repr

structure Pushing where
  id : UInt32
  request : ℕ
  event : Event
  deriving DecidableEq, Repr

/-- The next atomic step of a connection task of `communicate`. `late` is `events` for a frame that
names an id the worker does not have. `check`, `signal`, `remove` and `uncount` are the parts of
`notify_task_done` after the notifier was taken. -/
inductive Point where
  | collect (ids : List UInt32)
  | fetch (ids : List UInt32)
  | write (items : List Item)
  | read (streamed : Bool)
  | update (code : TaskCode) (items : List Item)
  | events (pushing : Option Pushing) (todo : List (UInt32 × Event)) (jobs : List Job)
      (next : Next)
  | late (pushing : Option Pushing) (todo : List (UInt32 × Event))
  | work (jobs : List Job) (next : Next)
  | sending (id : UInt32) (r : ℕ) (jobs : List Job) (next : Next)
  | check (id : UInt32) (h : ℕ) (jobs : List Job) (next : Next)
  | signal (id : UInt32) (h : ℕ) (jobs : List Job) (next : Next)
  | remove (id : UInt32) (jobs : List Job) (next : Next)
  | uncount (id : UInt32) (jobs : List Job) (next : Next)
  | closed
  | panicked
  deriving DecidableEq, Repr

/-- A connection task together with its worker: `outstanding` are the items of the complete
frames the worker has been sent and not yet answered. -/
structure Conn where
  runtime : ℕ
  outstanding : List Item
  broken : Bool
  point : Point
  deriving DecidableEq, Repr

def Conn.absent : Conn := ⟨0, [], true, .closed⟩
def Conn.accept (r : ℕ) : Conn := ⟨r, [], false, .collect []⟩

namespace Conn

open Function (update)
open TaskManager

def recv (svc : Service) (m : TaskManager) (c : Conn) : Option (TaskManager × Conn) :=
  match c.point, m.queues c.runtime with
  | .collect ids, id :: queue =>
    let ids := ids ++ [id]
    let full := svc.batchSize c.runtime ≤ 1 ∨ ids.length = svc.batchSize c.runtime
    some ({ m with queues := update m.queues c.runtime queue },
      { c with point := if full then .fetch ids else .collect ids })
  | _, _ => none

def timeUp (m : TaskManager) (c : Conn) : Option (TaskManager × Conn) :=
  match c.point with
  | .collect (id :: ids) => some (m, { c with point := .fetch (id :: ids) })
  | _ => none

def handOver (r : ℕ) (history : History) (_ : Item) : History :=
  { history with handed := history.handed ++ [r] }

def streamEvent (history : History) (item : Item) : History :=
  { history with events := history.events ++ [(item.data, .Normal)] }

def answer (code : TaskCode) (history : History) (item : Item) : History :=
  { history with
    replies := history.replies ++ [(code, item.data)]
    events := if code = .Normal then history.events else history.events ++ [(item.data, code)] }

def writeOk (m : TaskManager) (c : Conn) : Option (TaskManager × Conn) :=
  match c.point with
  | .write items =>
    if c.broken then none
    else some (m.record items (handOver c.runtime),
      { c with outstanding := c.outstanding ++ items, point := .read false })
  | _ => none

/-- The worker has seen a strict prefix of the frame, and the connection ends after the batch
has been given back. -/
def writeErr (m : TaskManager) (c : Conn) : Option (TaskManager × Conn) :=
  match c.point with
  | .write items =>
    some (m, { c with
      outstanding := []
      point := .work (items.map fun item => .send item.id) .closed })
  | _ => none

/-- The ids of a frame from the worker are ids it was sent and has not answered. -/
def Names (items outstanding : List Item) : Prop :=
  ∀ item ∈ items, item.id ∈ outstanding.map Item.id

instance (items outstanding : List Item) : Decidable (Names items outstanding) :=
  inferInstanceAs (Decidable (∀ item ∈ items, item.id ∈ outstanding.map Item.id))

def unanswered (outstanding items : List Item) : List Item :=
  outstanding.filter fun item => item.id ∉ items.map Item.id

def readEvents (m : TaskManager) (c : Conn) (items : List Item) : Option (TaskManager × Conn) :=
  match c.point with
  | .read _ =>
    let todo := items.map fun item => (item.id, (item.data, .Normal))
    some (m.record items streamEvent,
      { c with point := if Names items c.outstanding then .events none todo [] .read
        else .late none todo })
  | _ => none

/-- A frame with any other code is read. It names each id once. -/
def readReply (m : TaskManager) (c : Conn) (code : TaskCode) (items : List Item) :
    Option (TaskManager × Conn) :=
  match c.point with
  | .read _ =>
    if code ≠ .StreamEvent ∧ Names items c.outstanding ∧ (items.map Item.id).Nodup then
      some (m.record items (answer code),
        { c with outstanding := unanswered c.outstanding items, point := .update code items })
    else none
  | _ => none

/-- The read fails. Before the first stream event this ends the connection. Later the `break`
only leaves the inner loop, with the `code` and the `items` read so far. -/
def readErr (m : TaskManager) (c : Conn) (code : TaskCode) (items : List Item) :
    Option (TaskManager × Conn) :=
  match c.point with
  | .read false => some (m, { c with outstanding := [], broken := true, point := .closed })
  | .read true =>
    if Names items c.outstanding ∧ (items.map Item.id).Nodup then
      some (m.record items (answer code),
        { c with outstanding := [], broken := true, point := .update code items })
    else none
  | _ => none

def proceed : Next → Point
  | .read => .read true
  | .collect => .collect []
  | .closed => .closed

/-- After the table is updated: the events of the abnormal tasks take `data[i]` at their place
among the abnormal tasks. -/
def afterUpdate (m : TaskManager) (code : TaskCode) (items : List Item) : Point :=
  if code = .Normal then .work (items.map fun item => .send item.id) .collect
  else
    let abnormal := m.abnormalTasks items
    .events none ((abnormal.zip items).map fun p => (p.1, (p.2.data, code)))
      (abnormal.map .notify) .collect

def sendTask (svc : Service) (m : TaskManager) (id : UInt32) (jobs : List Job) (next : Next) :
    Point :=
  match m.table id with
  | none => .work jobs next
  | some task =>
    match svc.senders task.route with
    | none => .panicked
    | some route =>
      match route[task.stage]? with
      | none => .work (.notify id :: jobs) next
      | some r => .sending id r jobs next

def panic (c : Conn) : Conn := { c with outstanding := [], point := .panicked }

def run (svc : Service) (m : TaskManager) (c : Conn) : Option (TaskManager × Conn) :=
  match c.point with
  | .fetch ids =>
    let items := m.getMultiTasksData svc ids
    some (m, { c with point := if items = [] then .collect [] else .write items })
  | .update code items =>
    some (m.updateMultiTasks code items, { c with point := afterUpdate m code items })
  | .events none [] jobs next => some (m, { c with point := .work jobs next })
  | .events none ((id, event) :: todo) jobs next =>
    some (m, { c with
      point := .events ((m.streamSenders id).map fun h => ⟨id, h, event⟩) todo jobs next })
  | .events (some p) todo jobs next =>
    let stream := m.streams p.request
    if stream.closed then some (m, { c with point := .events none todo jobs next })
    else if stream.buffer.length < streamCapacity then
      some (m.setStream p.request { stream with buffer := stream.buffer ++ [p.event] },
        { c with point := .events none todo jobs next })
    else none
  | .late none [] => some (m, { c with point := .read true })
  | .late none ((id, event) :: todo) =>
    some (m, { c with point := .late ((m.streamSenders id).map fun h => ⟨id, h, event⟩) todo })
  | .late (some p) todo =>
    let stream := m.streams p.request
    if stream.closed then some (m, { c with point := .late none todo })
    else if stream.buffer.length < streamCapacity then
      some (m.setStream p.request { stream with buffer := stream.buffer ++ [p.event] },
        { c with point := .late none todo })
    else none
  | .work [] next => some (m, { c with point := proceed next })
  | .work (.send id :: jobs) next =>
    some (m, match sendTask svc m id jobs next with
      | .panicked => c.panic
      | point => { c with point := point })
  | .sending id r jobs next =>
    if (m.queues r).length < svc.capacity then
      some (m.push r id, { c with point := .work jobs next })
    else none
  | .work (.notify id :: jobs) next =>
    match m.notifiers id with
    | none => some (m, { c with point := .work jobs next })
    | some h =>
      some ({ m with notifiers := update m.notifiers id none },
        { c with point := .check id h jobs next })
  | .check id h jobs next =>
    some (m, { c with point :=
      if (m.oneshots h).closed then .remove id jobs next else .signal id h jobs next })
  | .signal _ h jobs next =>
    if (m.oneshots h).closed then some (m, c.panic)
    else some (m.setOneshot h { m.oneshots h with sent := true },
      { c with point := .work jobs next })
  | .remove id jobs next =>
    some (m.removeTask id, { c with point := .uncount id jobs next })
  | .uncount id jobs next =>
    some (match m.owner id with
        | none => { m with remainingTask := m.remainingTask - 1 }
        | some h => m.count h (-1),
      { c with point := .work jobs next })
  | _ => none

end Conn

end Mosec
