import Mathlib.Logic.Function.Basic
import Mosec.Tasks

namespace Mosec

abbrev Event := Bytes × TaskCode

structure Oneshot where
  sent : Bool
  senderGone : Bool
  closed : Bool
  deriving DecidableEq, Repr

/-- The `mpsc` channel of an SSE submission: `received` is what the client has taken out,
`ended` that it was told no sender is left, `closed` that it dropped the receiver. -/
structure Stream where
  buffer : List Event
  received : List Event
  ended : Bool
  closed : Bool
  deriving DecidableEq, Repr

/-- What happened to a submission, which the code does not keep: the runtimes whose workers got
its task in a complete frame, the replies and the stream events read for it, and the increments
less the decrements of `remaining_task` made on its behalf. -/
structure History where
  handed : List ℕ
  replies : List (TaskCode × Bytes)
  events : List Event
  balance : ℤ
  deriving DecidableEq, Repr

/-- The maps of the task manager and the channels behind them. A channel of a submission is
named by the submission; `owner` is the last submission that was given an id and `allocated` the
number of ids given, both history variables like `history`. -/
structure TaskManager where
  table : UInt32 → Option Task
  notifiers : UInt32 → Option ℕ
  streamSenders : UInt32 → Option ℕ
  currentId : UInt32
  queues : ℕ → List UInt32
  remainingTask : ℤ
  oneshots : ℕ → Oneshot
  streams : ℕ → Stream
  owner : UInt32 → Option ℕ
  allocated : ℕ
  history : ℕ → History

def streamCapacity : ℕ := 16

section Update

variable {α β : Type} [DecidableEq α] {f : α → Option β} {i j : α} {v x : β}

theorem of_update_none (h : Function.update f i none j = some x) : j ≠ i ∧ f j = some x := by
  by_cases hj : j = i
  · rw [hj, Function.update_self] at h
    cases h
  · rw [Function.update_of_ne hj] at h
    exact ⟨hj, h⟩

theorem of_update_some (h : Function.update f i (some v) j = some x) :
    j = i ∧ v = x ∨ j ≠ i ∧ f j = some x := by
  by_cases hj : j = i
  · rw [hj, Function.update_self] at h
    exact Or.inl ⟨hj, Option.some.inj h⟩
  · rw [Function.update_of_ne hj] at h
    exact Or.inr ⟨hj, h⟩

end Update

namespace TaskManager

open Function (update)

def new : TaskManager where
  table := fun _ => none
  notifiers := fun _ => none
  streamSenders := fun _ => none
  currentId := 0
  queues := fun _ => []
  remainingTask := 0
  oneshots := fun _ => ⟨false, false, false⟩
  streams := fun _ => ⟨[], [], false, false⟩
  owner := fun _ => none
  allocated := 0
  history := fun _ => ⟨[], [], [], 0⟩

variable (m : TaskManager)

def takeId (h : ℕ) : TaskManager :=
  { m with
    currentId := m.currentId + 1
    owner := update m.owner m.currentId (some h)
    allocated := m.allocated + 1 }

def dropSender (id : UInt32) : ℕ → Oneshot :=
  match m.notifiers id with
  | none => m.oneshots
  | some h => update m.oneshots h { m.oneshots h with senderGone := true }

/-- An entry that is replaced drops its sender. -/
def insertNotifier (id : UInt32) (h : ℕ) : TaskManager :=
  { m with notifiers := update m.notifiers id (some h), oneshots := m.dropSender id }

def deleteNotifier (id : UInt32) : TaskManager :=
  { m with notifiers := update m.notifiers id none, oneshots := m.dropSender id }

def insertTask (id : UInt32) (task : Task) : TaskManager :=
  { m with table := update m.table id (some task) }

def removeTask (id : UInt32) : TaskManager := { m with table := update m.table id none }

def insertStream (id : UInt32) (h : ℕ) : TaskManager :=
  { m with streamSenders := update m.streamSenders id (some h) }

def removeStream (id : UInt32) : TaskManager :=
  { m with streamSenders := update m.streamSenders id none }

def push (r : ℕ) (id : UInt32) : TaskManager :=
  { m with queues := update m.queues r (m.queues r ++ [id]) }

def setOneshot (h : ℕ) (o : Oneshot) : TaskManager :=
  { m with oneshots := update m.oneshots h o }

def setStream (h : ℕ) (st : Stream) : TaskManager := { m with streams := update m.streams h st }

def count (h : ℕ) (n : ℤ) : TaskManager :=
  { m with
    remainingTask := m.remainingTask + n
    history := update m.history h
      { m.history h with balance := (m.history h).balance + n } }

def record (items : List Item) (f : History → Item → History) : TaskManager :=
  { m with
    history := fun h =>
      (items.filter fun item => m.owner item.id = some h).foldl f (m.history h) }

def getMultiTasksData (svc : Service) (ids : List UInt32) : List Item :=
  ids.filterMap fun id => (m.table id).map fun task =>
    ⟨id, task.encodeState ((svc.senders task.route).getD []).length, task.data⟩

def updateTable (code : TaskCode) : List Item → (UInt32 → Option Task) → UInt32 → Option Task
  | [], table => table
  | item :: items, table =>
    updateTable code items
      (update table item.id ((table item.id).map fun task => task.update code item.data))

def updateMultiTasks (code : TaskCode) (items : List Item) : TaskManager :=
  { m with table := updateTable code items m.table }

def abnormalTasks (items : List Item) : List UInt32 :=
  (items.map Item.id).filter fun id => (m.table id).isSome

section Fields

variable {m : TaskManager} (i : UInt32) (h r : ℕ) (task : Task)

@[simp] theorem insertTask_table : (m.insertTask i task).table = update m.table i (some task) := rfl
@[simp] theorem removeTask_table : (m.removeTask i).table = update m.table i none := rfl

@[simp] theorem insertNotifier_notifiers :
    (m.insertNotifier i h).notifiers = update m.notifiers i (some h) := rfl
@[simp] theorem deleteNotifier_notifiers :
    (m.deleteNotifier i).notifiers = update m.notifiers i none := rfl

@[simp] theorem insertStream_streamSenders :
    (m.insertStream i h).streamSenders = update m.streamSenders i (some h) := rfl
@[simp] theorem removeStream_streamSenders :
    (m.removeStream i).streamSenders = update m.streamSenders i none := rfl

@[simp] theorem updateMultiTasks_table (code : TaskCode) (items : List Item) :
    (m.updateMultiTasks code items).table = updateTable code items m.table := rfl

@[simp] theorem push_queues : (m.push r i).queues = update m.queues r (m.queues r ++ [i]) := rfl

end Fields

end TaskManager

end Mosec
