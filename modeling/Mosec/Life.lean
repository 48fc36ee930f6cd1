import Mosec.Places

namespace Mosec

structure Life where
  self : ℕ
  request : Request
  entry : Option Task
  notifier : Bool
  sender : Bool
  carried : Option (Place × Outbox)
  oneshot : Oneshot
  stream : Stream
  history : History

/-- The steps of a submission that conditions on runs single out, and what they depend on. -/
inductive Label where
  | act
  | submit (key : String) (body : Bytes)
  | disconnect
  | leave
  | elapse
  | lose
  | check
  | lookup
  | report (own given : Bytes)
  | reply (code : TaskCode) (data : Bytes)
  | hear
  deriving DecidableEq, Repr

namespace Life

def goto (ℓ : Life) (handler : Handler) : Life :=
  { ℓ with request := { ℓ.request with handler := handler } }

def charge (ℓ : Life) (n : ℤ) : Life :=
  { ℓ with history := { ℓ.history with balance := ℓ.history.balance + n } }

def carry (ℓ : Life) (p : Place) (outbox : Outbox) : Life :=
  { ℓ with carried := some (p, outbox) }

def gone (ℓ : Life) : Life := { ℓ with carried := none }

def closed (ℓ : Life) : Life := { ℓ with oneshot := { ℓ.oneshot with closed := true } }

def withoutNotifier (ℓ : Life) : Life :=
  { ℓ with
    notifier := false
    oneshot := if ℓ.notifier then { ℓ.oneshot with senderGone := true } else ℓ.oneshot }

def itemFor (svc : Service) (id : UInt32) (task : Task) : Item :=
  ⟨id, task.encodeState ((svc.senders task.route).getD []).length, task.data⟩

inductive AtRisk : Place → Prop
  | working (r : ℕ) (item : Item) : AtRisk (.working r item)
  | toSend : AtRisk .toSend
  | toNotify : AtRisk .toNotify
  | signal : AtRisk .signal

inductive Own (svc : Service) : Label → Life → Life → Prop
  | refuse {ℓ : Life} (isSse : Bool) (key : String) : ℓ.request.handler = .absent →
      Own svc (.submit key []) ℓ { ℓ with request := ⟨isSse, key, [], 0, .done .noData⟩ }
  | submit {ℓ : Life} (isSse : Bool) (key : String) {body : Bytes} :
      ℓ.request.handler = .absent → body ≠ [] →
      Own svc (.submit key body) ℓ ({ ℓ with request := ⟨isSse, key, body, 0, .takeId⟩ }.charge
        (if isSse then 0 else 1))
  | takeId {ℓ : Life} (id : UInt32) : ℓ.request.handler = .takeId →
      Own svc .act ℓ { ℓ with request := { ℓ.request with id := id, handler := .insertNotifier } }
  | insertNotifier {ℓ : Life} : ℓ.request.handler = .insertNotifier →
      Own svc .act ℓ { ℓ.withoutNotifier.goto .insertTask with notifier := true }
  | insertTask {ℓ : Life} : ℓ.request.handler = .insertTask →
      Own svc .act ℓ { ℓ.goto .trySend with
        entry := some (Task.new ℓ.request.body ℓ.request.key ℓ.self) }
  | panic {ℓ : Life} : ℓ.request.handler = .trySend → svc.senders ℓ.request.key = none →
      Own svc .act ℓ (ℓ.closed.goto .panicked)
  | accept {ℓ : Life} {route : List ℕ} {r : ℕ} : ℓ.request.handler = .trySend →
      svc.senders ℓ.request.key = some route → route[0]? = some r → ℓ.carried = none →
      Own svc .act ℓ ((ℓ.goto (if ℓ.request.isSse then .insertStream else .waiting)).carry
        (.queued r) .empty)
  | reject {ℓ : Life} : ℓ.request.handler = .trySend →
      Own svc .act ℓ (ℓ.goto (.deleteNotifier .rejected))
  | insertStream {ℓ : Life} : ℓ.request.handler = .insertStream →
      Own svc .act ℓ { ℓ.goto .count with sender := true }
  | count {ℓ : Life} : ℓ.request.handler = .count → Own svc .act ℓ ((ℓ.goto .spawn).charge 1)
  | spawn {ℓ : Life} : ℓ.request.handler = .spawn → Own svc .act ℓ (ℓ.goto .waiting)
  | resume {ℓ : Life} : ℓ.request.handler = .waiting → (ℓ.oneshot.sent ∨ ℓ.oneshot.senderGone) →
      Own svc .act ℓ
        (ℓ.goto (if ℓ.request.isSse then .deleteNotifier .finished else .takeTask))
  | elapse {ℓ : Life} : ℓ.request.handler = .waiting →
      Own svc .elapse ℓ
        (ℓ.closed.goto (.deleteNotifier (if ℓ.request.isSse then .finished else .expired)))
  | disconnect {ℓ : Life} : ℓ.request.handler = .waiting → ℓ.request.isSse = false →
      Own svc .disconnect ℓ (ℓ.closed.goto .dropped)
  | takeTask {ℓ : Life} {task : Task} : ℓ.request.handler = .takeTask → ℓ.entry = some task →
      Own svc .act ℓ { ℓ.goto (.uncount (.task task)) with entry := none }
  | missTask {ℓ : Life} : ℓ.request.handler = .takeTask → ℓ.entry = none →
      Own svc .act ℓ (ℓ.goto (.uncount (.error .UnknownError)))
  | deleteNotifier {ℓ : Life} {exit : Exit} : ℓ.request.handler = .deleteNotifier exit →
      Own svc .act ℓ (ℓ.withoutNotifier.goto (.deleteTask exit))
  | deleteTask {ℓ : Life} {exit : Exit} : ℓ.request.handler = .deleteTask exit →
      Own svc .act ℓ { ℓ.goto (ℓ.request.afterDelete exit) with entry := none }
  | deleteStream {ℓ : Life} : ℓ.request.handler = .deleteStream →
      Own svc .act ℓ { ℓ.goto (.uncount .stream) with sender := false }
  | uncount {ℓ : Life} {outcome : Outcome} : ℓ.request.handler = .uncount outcome →
      Own svc .act ℓ ((ℓ.goto (.done outcome)).charge (-1))
  | receiveEvent {ℓ : Life} {event : Event} {buffer : List Event} : ℓ.request.hasResponse →
      ℓ.stream.buffer = event :: buffer →
      Own svc .act ℓ { ℓ with
        stream.buffer := buffer, stream.received := ℓ.stream.received ++ [event] }
  | endStream {ℓ : Life} : ℓ.request.hasResponse → ℓ.stream.buffer = [] → ℓ.sender = false →
      (∀ p outbox, ℓ.carried = some (p, outbox) → outbox.pushing = none) →
      Own svc .act ℓ { ℓ with stream.ended := true }
  | leave {ℓ : Life} : ℓ.request.hasResponse →
      Own svc .leave ℓ { ℓ with stream.closed := true }

inductive Served (svc : Service) : Label → Life → Life → Prop
  | recv {ℓ : Life} {r : ℕ} : ℓ.carried = some (.queued r, .empty) →
      Served svc .act ℓ (ℓ.carry (.batched r) .empty)
  | fetch {ℓ : Life} {r : ℕ} {task : Task} : ℓ.carried = some (.batched r, .empty) →
      ℓ.entry = some task →
      Served svc .act ℓ (ℓ.carry (.framed r (itemFor svc ℓ.request.id task)) .empty)
  | skip {ℓ : Life} {r : ℕ} : ℓ.carried = some (.batched r, .empty) → ℓ.entry = none →
      Served svc .act ℓ ℓ.gone
  | write {ℓ : Life} {r : ℕ} {item : Item} : ℓ.carried = some (.framed r item, .empty) →
      Served svc .act ℓ { ℓ.carry (.working r item) .empty with
        history.handed := ℓ.history.handed ++ [r] }
  | giveBack {ℓ : Life} {r : ℕ} {item : Item} : ℓ.carried = some (.framed r item, .empty) →
      Served svc .act ℓ (ℓ.carry .toSend .empty)
  | lose {ℓ : Life} {p : Place} {outbox : Outbox} : ℓ.carried = some (p, outbox) → AtRisk p →
      (p = .signal → ℓ.oneshot.closed) → Served svc .lose ℓ ℓ.gone
  | readEvents {ℓ : Life} {r : ℕ} {item : Item} (events : List Event) :
      ℓ.carried = some (.working r item, .empty) → (∀ event ∈ events, event.2 = .Normal) →
      Served svc .act ℓ { ℓ.carry (.working r item) ⟨none, events⟩ with
        history.events := ℓ.history.events ++ events }
  | readReply {ℓ : Life} {r : ℕ} {item : Item} (code : TaskCode) (data : Bytes) :
      ℓ.carried = some (.working r item, .empty) →
      Served svc (.reply code data) ℓ { ℓ.carry (.answered code data) .empty with
        history := Conn.answer code ℓ.history ⟨ℓ.request.id, 0, data⟩ }
  | update {ℓ : Life} {data : Bytes} : ℓ.carried = some (.answered .Normal data, .empty) →
      Served svc .act ℓ { ℓ.carry .toSend .empty with
        entry := ℓ.entry.map fun task => task.update .Normal data }
  | report {ℓ : Life} {code : TaskCode} {data : Bytes} {task : Task} (given : Bytes) :
      ℓ.carried = some (.answered code data, .empty) → code ≠ .Normal → ℓ.entry = some task →
      Served svc (.report data given) ℓ { ℓ.carry .toNotify ⟨none, [(given, code)]⟩ with
        entry := some (task.update code data) }
  | ignore {ℓ : Life} {code : TaskCode} {data : Bytes} :
      ℓ.carried = some (.answered code data, .empty) → code ≠ .Normal → ℓ.entry = none →
      Served svc .act ℓ ℓ.gone
  | lookup {ℓ : Life} {p : Place} {event : Event} {todo : List Event} :
      ℓ.carried = some (p, ⟨none, event :: todo⟩) →
      Served svc .lookup ℓ (ℓ.carry p ⟨if ℓ.sender then some event else none, todo⟩)
  | push {ℓ : Life} {p : Place} {event : Event} {todo : List Event} :
      ℓ.carried = some (p, ⟨some event, todo⟩) → ℓ.stream.closed = false →
      Served svc .act ℓ { ℓ.carry p ⟨none, todo⟩ with
        stream.buffer := ℓ.stream.buffer ++ [event] }
  | pushClosed {ℓ : Life} {p : Place} {event : Event} {todo : List Event} :
      ℓ.carried = some (p, ⟨some event, todo⟩) → ℓ.stream.closed →
      Served svc .act ℓ (ℓ.carry p ⟨none, todo⟩)
  | sendMissing {ℓ : Life} : ℓ.carried = some (.toSend, .empty) → ℓ.entry = none →
      Served svc .act ℓ ℓ.gone
  | sendFinished {ℓ : Life} {task : Task} {route : List ℕ} : ℓ.carried = some (.toSend, .empty) →
      ℓ.entry = some task → svc.senders task.route = some route → route[task.stage]? = none →
      Served svc .act ℓ (ℓ.carry .toNotify .empty)
  | sendNext {ℓ : Life} {task : Task} {route : List ℕ} {r : ℕ} :
      ℓ.carried = some (.toSend, .empty) → ℓ.entry = some task →
      svc.senders task.route = some route → route[task.stage]? = some r →
      Served svc .act ℓ (ℓ.carry (.sending r) .empty)
  | enqueue {ℓ : Life} {r : ℕ} : ℓ.carried = some (.sending r, .empty) →
      Served svc .act ℓ (ℓ.carry (.queued r) .empty)
  | take {ℓ : Life} : ℓ.carried = some (.toNotify, .empty) → ℓ.notifier = true →
      Served svc .act ℓ { ℓ.carry .check .empty with notifier := false }
  | takeMissing {ℓ : Life} : ℓ.carried = some (.toNotify, .empty) → ℓ.notifier = false →
      Served svc .act ℓ ℓ.gone
  | checkClosed {ℓ : Life} : ℓ.carried = some (.check, .empty) → ℓ.oneshot.closed →
      Served svc .check ℓ (ℓ.carry .remove .empty)
  | checkOpen {ℓ : Life} : ℓ.carried = some (.check, .empty) → ℓ.oneshot.closed = false →
      Served svc .check ℓ (ℓ.carry .signal .empty)
  | signal {ℓ : Life} : ℓ.carried = some (.signal, .empty) → ℓ.oneshot.closed = false →
      Served svc .act ℓ { ℓ.gone with oneshot.sent := true }
  | remove {ℓ : Life} : ℓ.carried = some (.remove, .empty) →
      Served svc .act ℓ { ℓ.carry .uncount .empty with entry := none }
  | uncountClosed {ℓ : Life} : ℓ.carried = some (.uncount, .empty) →
      Served svc .act ℓ (ℓ.gone.charge (-1))

/-- The steps of connections whose worker no longer has its task. -/
inductive Heard : Life → Life → Prop
  | read {ℓ : Life} (events : List Event) : (∀ event ∈ events, event.2 = .Normal) →
      Heard ℓ { ℓ with history.events := ℓ.history.events ++ events }
  | push {ℓ : Life} (event : Event) : ℓ.stream.closed = false →
      Heard ℓ { ℓ with stream.buffer := ℓ.stream.buffer ++ [event] }

def Step (svc : Service) (lab : Label) (ℓ ℓ' : Life) : Prop :=
  Own svc lab ℓ ℓ' ∨ Served svc lab ℓ ℓ' ∨ lab = .hear ∧ Heard ℓ ℓ'

theorem Heard.frame {ℓ ℓ' : Life} (h : Heard ℓ ℓ') : ∃ events buffer,
    ℓ' = { ℓ with history.events := events, stream.buffer := buffer } := by
  cases h
  case read events hnormal => exact ⟨ℓ.history.events ++ events, ℓ.stream.buffer, rfl⟩
  case push event hopen => exact ⟨ℓ.history.events, ℓ.stream.buffer ++ [event], rfl⟩

end Life

namespace State

/-- The submission `h` as the state shows it, as long as its id has not been given away again. -/
noncomputable def life (s : State) (h : ℕ) : Life where
  self := h
  request := s.requests h
  entry := if s.manager.owner (s.requests h).id = some h
    then s.manager.table (s.requests h).id else none
  notifier := s.manager.notifiers (s.requests h).id == some h
  sender := s.manager.streamSenders (s.requests h).id == some h
  carried := if s.manager.owner (s.requests h).id = some h
    then s.carried (s.requests h).id else none
  oneshot := s.manager.oneshots h
  stream := s.manager.streams h
  history := s.manager.history h

end State

end Mosec
