import Mosec.Places

namespace Mosec

namespace Conn

open Function (update)
open TaskManager

inductive Move (svc : Service) (m : TaskManager) (c : Conn) :
    ConnAction → List UInt32 → TaskManager → Conn → Prop
  | recv {ids queue : List UInt32} {id : UInt32} {point : Point} : c.point = .collect ids →
      m.queues c.runtime = id :: queue →
      point = .fetch (ids ++ [id]) ∨ point = .collect (ids ++ [id]) →
      Move svc m c .recv [id] { m with queues := update m.queues c.runtime queue }
        { c with point := point }
  | timeUp {ids : List UInt32} : c.point = .collect ids →
      Move svc m c .timeUp [] m { c with point := .fetch ids }
  | fetch {ids : List UInt32} {items : List Item} {point : Point} : c.point = .fetch ids →
      items = m.getMultiTasksData svc ids →
      (items = [] ∧ point = .collect []) ∨ point = .write items →
      Move svc m c .run ids m { c with point := point }
  | writeOk {items : List Item} : c.point = .write items → c.broken = false →
      Move svc m c .writeOk (items.map Item.id) (m.record items (handOver c.runtime))
        { c with outstanding := c.outstanding ++ items, point := .read false }
  | writeErr {items : List Item} : c.point = .write items →
      Move svc m c .writeErr (items.map Item.id ++ c.outstanding.map Item.id) m
        { c with
          outstanding := []
          point := .work (items.map fun item => .send item.id) .closed }
  | readEvents {streamed : Bool} {items : List Item} : c.point = .read streamed →
      Names items c.outstanding →
      Move svc m c (.readEvents items) (items.map Item.id) (m.record items streamEvent)
        { c with
          point := .events none (items.map fun item => (item.id, (item.data, .Normal))) [] .read }
  | readLate {streamed : Bool} {items : List Item} : c.point = .read streamed →
      ¬ Names items c.outstanding →
      Move svc m c (.readEvents items) [] (m.record items streamEvent)
        { c with point := .late none (items.map fun item => (item.id, (item.data, .Normal))) }
  | readReply {streamed : Bool} {code : TaskCode} {items : List Item} :
      c.point = .read streamed → code ≠ .StreamEvent → Names items c.outstanding →
      (items.map Item.id).Nodup →
      Move svc m c (.readReply code items) (items.map Item.id) (m.record items (answer code))
        { c with outstanding := unanswered c.outstanding items, point := .update code items }
  | readCut {code : TaskCode} {items : List Item} : c.point = .read true →
      Names items c.outstanding → (items.map Item.id).Nodup →
      Move svc m c (.readErr code items) (c.outstanding.map Item.id)
        (m.record items (answer code))
        { c with outstanding := [], broken := true, point := .update code items }
  | readErr {code : TaskCode} {items : List Item} : c.point = .read false →
      Move svc m c (.readErr code items) (c.outstanding.map Item.id) m
        { c with outstanding := [], broken := true, point := .closed }
  | updateNormal {items : List Item} : c.point = .update .Normal items →
      Move svc m c .run (items.map Item.id) (m.updateMultiTasks .Normal items)
        { c with point := .work (items.map fun item => .send item.id) .collect }
  | updateAbnormal {code : TaskCode} {items : List Item} : c.point = .update code items →
      code ≠ .Normal →
      Move svc m c .run (items.map Item.id) (m.updateMultiTasks code items)
        { c with
          point := .events none
            (((m.abnormalTasks items).zip items).map fun p => (p.1, (p.2.data, code)))
            ((m.abnormalTasks items).map .notify) .collect }
  | eventsDone {jobs : List Job} {next : Next} : c.point = .events none [] jobs next →
      Move svc m c .run [] m { c with point := .work jobs next }
  | lookup {id : UInt32} {event : Event} {todo : List (UInt32 × Event)} {jobs : List Job}
      {next : Next} : c.point = .events none ((id, event) :: todo) jobs next →
      Move svc m c .run [id] m
        { c with
          point := .events ((m.streamSenders id).map fun h => ⟨id, h, event⟩) todo jobs next }
  | push {p : Pushing} {todo : List (UInt32 × Event)} {jobs : List Job} {next : Next} :
      c.point = .events (some p) todo jobs next → (m.streams p.request).closed = false →
      Move svc m c .run [p.id]
        (m.setStream p.request
          { m.streams p.request with buffer := (m.streams p.request).buffer ++ [p.event] })
        { c with point := .events none todo jobs next }
  | pushClosed {p : Pushing} {todo : List (UInt32 × Event)} {jobs : List Job} {next : Next} :
      c.point = .events (some p) todo jobs next → (m.streams p.request).closed →
      Move svc m c .run [p.id] m { c with point := .events none todo jobs next }
  | lateDone : c.point = .late none [] → Move svc m c .run [] m { c with point := .read true }
  | lateLookup {id : UInt32} {event : Event} {todo : List (UInt32 × Event)} :
      c.point = .late none ((id, event) :: todo) →
      Move svc m c .run [] m
        { c with point := .late ((m.streamSenders id).map fun h => ⟨id, h, event⟩) todo }
  | latePush {p : Pushing} {todo : List (UInt32 × Event)} : c.point = .late (some p) todo →
      (m.streams p.request).closed = false →
      Move svc m c .run []
        (m.setStream p.request
          { m.streams p.request with buffer := (m.streams p.request).buffer ++ [p.event] })
        { c with point := .late none todo }
  | lateClosed {p : Pushing} {todo : List (UInt32 × Event)} : c.point = .late (some p) todo →
      (m.streams p.request).closed → Move svc m c .run [] m { c with point := .late none todo }
  | workDone {next : Next} : c.point = .work [] next →
      Move svc m c .run [] m { c with point := proceed next }
  | sendMissing {id : UInt32} {jobs : List Job} {next : Next} :
      c.point = .work (.send id :: jobs) next → m.table id = none →
      Move svc m c .run [id] m { c with point := .work jobs next }
  | sendPanic {id : UInt32} {jobs : List Job} {next : Next} {task : Task} :
      c.point = .work (.send id :: jobs) next → m.table id = some task →
      svc.senders task.route = none → Move svc m c .run c.ids m c.panic
  | sendFinished {id : UInt32} {jobs : List Job} {next : Next} {task : Task} {route : List ℕ} :
      c.point = .work (.send id :: jobs) next → m.table id = some task →
      svc.senders task.route = some route → route[task.stage]? = none →
      Move svc m c .run [id] m { c with point := .work (.notify id :: jobs) next }
  | sendNext {id : UInt32} {jobs : List Job} {next : Next} {task : Task} {route : List ℕ} {r : ℕ} :
      c.point = .work (.send id :: jobs) next → m.table id = some task →
      svc.senders task.route = some route → route[task.stage]? = some r →
      Move svc m c .run [id] m { c with point := .sending id r jobs next }
  | enqueue {id : UInt32} {r : ℕ} {jobs : List Job} {next : Next} :
      c.point = .sending id r jobs next → (m.queues r).length < svc.capacity →
      Move svc m c .run [id] (m.push r id) { c with point := .work jobs next }
  | take {id : UInt32} {h : ℕ} {jobs : List Job} {next : Next} :
      c.point = .work (.notify id :: jobs) next → m.notifiers id = some h →
      Move svc m c .run [id] { m with notifiers := update m.notifiers id none }
        { c with point := .check id h jobs next }
  | takeMissing {id : UInt32} {jobs : List Job} {next : Next} :
      c.point = .work (.notify id :: jobs) next → m.notifiers id = none →
      Move svc m c .run [id] m { c with point := .work jobs next }
  | checkClosed {id : UInt32} {h : ℕ} {jobs : List Job} {next : Next} :
      c.point = .check id h jobs next → (m.oneshots h).closed →
      Move svc m c .run [id] m { c with point := .remove id jobs next }
  | checkOpen {id : UInt32} {h : ℕ} {jobs : List Job} {next : Next} :
      c.point = .check id h jobs next → (m.oneshots h).closed = false →
      Move svc m c .run [id] m { c with point := .signal id h jobs next }
  | signal {id : UInt32} {h : ℕ} {jobs : List Job} {next : Next} :
      c.point = .signal id h jobs next → (m.oneshots h).closed = false →
      Move svc m c .run [id] (m.setOneshot h { m.oneshots h with sent := true })
        { c with point := .work jobs next }
  | signalPanic {id : UInt32} {h : ℕ} {jobs : List Job} {next : Next} :
      c.point = .signal id h jobs next → (m.oneshots h).closed →
      Move svc m c .run c.ids m c.panic
  | remove {id : UInt32} {jobs : List Job} {next : Next} : c.point = .remove id jobs next →
      Move svc m c .run [id] (m.removeTask id) { c with point := .uncount id jobs next }
  | uncount {id : UInt32} {h : ℕ} {jobs : List Job} {next : Next} :
      c.point = .uncount id jobs next → m.owner id = some h →
      Move svc m c .run [id] (m.count h (-1)) { c with point := .work jobs next }
  | uncountUnowned {id : UInt32} {jobs : List Job} {next : Next} :
      c.point = .uncount id jobs next → m.owner id = none →
      Move svc m c .run [id] { m with remainingTask := m.remainingTask - 1 }
        { c with point := .work jobs next }

variable {svc : Service} {m m' : TaskManager} {c c' : Conn}

theorem move_of_recv (h : c.recv svc m = some (m', c')) : ∃ ids, Move svc m c .recv ids m' c' := by
  unfold recv at h
  split at h
  · rename_i ids id queue hp hq
    cases h
    refine ⟨_, .recv hp hq ?_⟩
    split
    · exact Or.inl rfl
    · exact Or.inr rfl
  · cases h

theorem move_of_timeUp (h : c.timeUp m = some (m', c')) :
    ∃ ids, Move svc m c .timeUp ids m' c' := by
  unfold timeUp at h
  split at h
  · rename_i id ids hp
    cases h
    exact ⟨_, .timeUp hp⟩
  · cases h

theorem move_of_writeOk (h : c.writeOk m = some (m', c')) :
    ∃ ids, Move svc m c .writeOk ids m' c' := by
  unfold writeOk at h
  split at h
  · rename_i items hp
    split at h
    · cases h
    · rename_i hb
      cases h
      exact ⟨_, .writeOk hp (by simpa using hb)⟩
  · cases h

theorem move_of_writeErr (h : c.writeErr m = some (m', c')) :
    ∃ ids, Move svc m c .writeErr ids m' c' := by
  unfold writeErr at h
  split at h
  · rename_i items hp
    cases h
    exact ⟨_, .writeErr hp⟩
  · cases h

theorem move_of_readEvents {items : List Item} (h : c.readEvents m items = some (m', c')) :
    ∃ ids, Move svc m c (.readEvents items) ids m' c' := by
  unfold readEvents at h
  split at h
  · rename_i hp
    cases h
    by_cases hnames : Names items c.outstanding
    · rw [if_pos hnames]
      exact ⟨_, .readEvents hp hnames⟩
    · rw [if_neg hnames]
      exact ⟨_, .readLate hp hnames⟩
  · cases h

theorem move_of_readReply {code : TaskCode} {items : List Item}
    (h : c.readReply m code items = some (m', c')) :
    ∃ ids, Move svc m c (.readReply code items) ids m' c' := by
  unfold readReply at h
  split at h
  · rename_i hp
    split at h
    · rename_i hguard
      cases h
      exact ⟨_, .readReply hp hguard.1 hguard.2.1 hguard.2.2⟩
    · cases h
  · cases h

theorem move_of_readErr {code : TaskCode} {items : List Item}
    (h : c.readErr m code items = some (m', c')) :
    ∃ ids, Move svc m c (.readErr code items) ids m' c' := by
  unfold readErr at h
  split at h
  · rename_i hp
    cases h
    exact ⟨_, .readErr hp⟩
  · rename_i hp
    split at h
    · rename_i hguard
      cases h
      exact ⟨_, .readCut hp hguard.1 hguard.2⟩
    · cases h
  · cases h

theorem move_of_send {id : UInt32} {jobs : List Job} {next : Next}
    (hp : c.point = .work (.send id :: jobs) next) (h : c.run svc m = some (m', c')) :
    ∃ ids, Move svc m c .run ids m' c' := by
  simp only [run, hp, sendTask] at h
  cases htask : m.table id with
  | none =>
    simp only [htask] at h
    cases h
    exact ⟨_, .sendMissing hp htask⟩
  | some task =>
    cases hroute : svc.senders task.route with
    | none =>
      simp only [htask, hroute] at h
      cases h
      exact ⟨_, .sendPanic hp htask hroute⟩
    | some route =>
      cases hr : route[task.stage]? with
      | none =>
        simp only [htask, hroute, hr] at h
        cases h
        exact ⟨_, .sendFinished hp htask hroute hr⟩
      | some r =>
        simp only [htask, hroute, hr] at h
        cases h
        exact ⟨_, .sendNext hp htask hroute hr⟩

theorem move_of_update {code : TaskCode} {items : List Item} (hp : c.point = .update code items)
    (h : c.run svc m = some (m', c')) : ∃ ids, Move svc m c .run ids m' c' := by
  simp only [run, hp, afterUpdate] at h
  by_cases hcode : code = .Normal
  · subst hcode
    cases h
    exact ⟨_, .updateNormal hp⟩
  · rw [if_neg hcode] at h
    cases h
    exact ⟨_, .updateAbnormal hp hcode⟩

theorem move_of_run (h : c.run svc m = some (m', c')) : ∃ ids, Move svc m c .run ids m' c' := by
  have hrun := h
  cases hp : c.point with
  | fetch ids =>
    simp only [run, hp] at h
    cases h
    refine ⟨_, .fetch hp rfl ?_⟩
    split
    · rename_i hnil
      exact Or.inl ⟨hnil, rfl⟩
    · exact Or.inr rfl
  | update code items => exact move_of_update hp hrun
  | events pushing todo jobs next =>
    cases pushing with
    | none =>
      cases todo with
      | nil =>
        simp only [run, hp] at h
        cases h
        exact ⟨_, .eventsDone hp⟩
      | cons p todo =>
        simp only [run, hp] at h
        cases h
        exact ⟨_, .lookup hp⟩
    | some p =>
      simp only [run, hp] at h
      split at h
      · rename_i hclosed
        cases h
        exact ⟨_, .pushClosed hp hclosed⟩
      · rename_i hopen
        split at h
        · cases h
          exact ⟨_, .push hp (by simpa using hopen)⟩
        · cases h
  | late pushing todo =>
    cases pushing with
    | none =>
      cases todo with
      | nil =>
        simp only [run, hp] at h
        cases h
        exact ⟨_, .lateDone hp⟩
      | cons p todo =>
        simp only [run, hp] at h
        cases h
        exact ⟨_, .lateLookup hp⟩
    | some p =>
      simp only [run, hp] at h
      split at h
      · rename_i hclosed
        cases h
        exact ⟨_, .lateClosed hp hclosed⟩
      · rename_i hopen
        split at h
        · cases h
          exact ⟨_, .latePush hp (by simpa using hopen)⟩
        · cases h
  | work jobs next =>
    cases jobs with
    | nil =>
      simp only [run, hp] at h
      cases h
      exact ⟨_, .workDone hp⟩
    | cons job jobs =>
      cases job with
      | send id => exact move_of_send hp hrun
      | notify id =>
        simp only [run, hp] at h
        split at h
        · rename_i hnone
          cases h
          exact ⟨_, .takeMissing hp hnone⟩
        · rename_i hsome
          cases h
          exact ⟨_, .take hp hsome⟩
  | sending id r jobs next =>
    simp only [run, hp] at h
    split at h
    · rename_i hroom
      cases h
      exact ⟨_, .enqueue hp hroom⟩
    · cases h
  | check id h' jobs next =>
    simp only [run, hp] at h
    cases h
    split
    · rename_i hclosed
      exact ⟨_, .checkClosed hp hclosed⟩
    · rename_i hopen
      exact ⟨_, .checkOpen hp (by simpa using hopen)⟩
  | signal id h' jobs next =>
    simp only [run, hp] at h
    split at h
    · rename_i hclosed
      cases h
      exact ⟨_, .signalPanic hp hclosed⟩
    · rename_i hopen
      cases h
      exact ⟨_, .signal hp (by simpa using hopen)⟩
  | remove id jobs next =>
    simp only [run, hp] at h
    cases h
    exact ⟨_, .remove hp⟩
  | uncount id jobs next =>
    simp only [run, hp] at h
    cases h
    split
    · rename_i hnone
      exact ⟨_, .uncountUnowned hp hnone⟩
    · rename_i hsome
      exact ⟨_, .uncount hp hsome⟩
  | collect ids => simp [run, hp] at h
  | write items => simp [run, hp] at h
  | read streamed => simp [run, hp] at h
  | closed => simp [run, hp] at h
  | panicked => simp [run, hp] at h

theorem move_of_step {act : ConnAction} (h : c.step svc m act = some (m', c')) :
    ∃ ids, Move svc m c act ids m' c' := by
  cases act with
  | run => exact move_of_run h
  | recv => exact move_of_recv h
  | timeUp => exact move_of_timeUp h
  | writeOk => exact move_of_writeOk h
  | writeErr => exact move_of_writeErr h
  | readEvents items => exact move_of_readEvents h
  | readReply code items => exact move_of_readReply h
  | readErr code items => exact move_of_readErr h

end Conn

namespace Request

open Function (update)
open TaskManager

inductive Move (svc : Service) (m : TaskManager) (h : ℕ) (q : Request) (clones : Bool) :
    RequestAction → TaskManager → Request → Prop
  | takeId : q.handler = .takeId → Move svc m h q clones .run (m.takeId h)
      { q with id := m.currentId, handler := .insertNotifier }
  | insertNotifier : q.handler = .insertNotifier →
      Move svc m h q clones .run (m.insertNotifier q.id h) { q with handler := .insertTask }
  | insertTask : q.handler = .insertTask →
      Move svc m h q clones .run (m.insertTask q.id (Task.new q.body q.key h))
        { q with handler := .trySend }
  | panic : q.handler = .trySend → svc.senders q.key = none →
      Move svc m h q clones .run (close m h) { q with handler := .panicked }
  | accept {route : List ℕ} {r : ℕ} : q.handler = .trySend → svc.senders q.key = some route →
      route[0]? = some r → (m.queues r).length < svc.capacity →
      Move svc m h q clones .run (m.push r q.id)
        { q with handler := if q.isSse then .insertStream else .waiting }
  | reject : q.handler = .trySend →
      Move svc m h q clones .run m { q with handler := .deleteNotifier .rejected }
  | insertStream : q.handler = .insertStream →
      Move svc m h q clones .run (m.insertStream q.id h) { q with handler := .count }
  | count : q.handler = .count →
      Move svc m h q clones .run (m.count h 1) { q with handler := .spawn }
  | spawn : q.handler = .spawn → Move svc m h q clones .run m { q with handler := .waiting }
  | takeTask {task : Task} : q.handler = .takeTask → m.table q.id = some task →
      Move svc m h q clones .run (m.removeTask q.id)
        { q with handler := .uncount (.task task) }
  | missTask : q.handler = .takeTask → m.table q.id = none →
      Move svc m h q clones .run m { q with handler := .uncount (.error .UnknownError) }
  | deleteNotifier {exit : Exit} : q.handler = .deleteNotifier exit →
      Move svc m h q clones .run (m.deleteNotifier q.id) { q with handler := .deleteTask exit }
  | deleteTask {exit : Exit} : q.handler = .deleteTask exit →
      Move svc m h q clones .run (m.removeTask q.id) { q with handler := q.afterDelete exit }
  | deleteStream : q.handler = .deleteStream →
      Move svc m h q clones .run (m.removeStream q.id) { q with handler := .uncount .stream }
  | uncount {outcome : Outcome} : q.handler = .uncount outcome →
      Move svc m h q clones .run (m.count h (-1)) { q with handler := .done outcome }
  | resume : q.handler = .waiting → ((m.oneshots h).sent ∨ (m.oneshots h).senderGone) →
      Move svc m h q clones .resume m
        { q with handler := if q.isSse then .deleteNotifier .finished else .takeTask }
  | elapse : q.handler = .waiting →
      Move svc m h q clones .elapse (close m h)
        { q with handler := .deleteNotifier (if q.isSse then .finished else .expired) }
  | disconnect : q.handler = .waiting → q.isSse = false →
      Move svc m h q clones .disconnect (close m h) { q with handler := .dropped }
  | receiveEvent {event : Event} {buffer : List Event} : q.hasResponse →
      (m.streams h).buffer = event :: buffer →
      Move svc m h q clones .receiveEvent
        (m.setStream h { m.streams h with
          buffer := buffer, received := (m.streams h).received ++ [event] }) q
  | endStream : q.hasResponse → (m.streams h).buffer = [] → m.streamSenders q.id ≠ some h →
      clones = false →
      Move svc m h q clones .receiveEvent (m.setStream h { m.streams h with ended := true }) q
  | leave : q.hasResponse →
      Move svc m h q clones .leave (m.setStream h { m.streams h with closed := true }) q

variable {svc : Service} {m m' : TaskManager} {h : ℕ} {q q' : Request} {clones : Bool}

theorem move_of_trySend (hq : q.handler = .trySend) (hs : q.run svc m h = some (m', q')) :
    Move svc m h q clones .run m' q' := by
  simp only [run, hq] at hs
  cases hroute : svc.senders q.key with
  | none =>
    simp only [hroute, Option.bind_none] at hs
    cases hs
    exact .panic hq hroute
  | some route =>
    cases route with
    | nil => exact absurd hroute (svc.senders_ne_nil q.key)
    | cons r route =>
      simp only [hroute, Option.bind_some, List.head?_cons] at hs
      split at hs
      · rename_i hroom
        cases hs
        exact .accept hq hroute rfl hroom
      · cases hs
        exact .reject hq

theorem move_of_run (hs : q.run svc m h = some (m', q')) :
    Move svc m h q clones .run m' q' := by
  have hrun := hs
  cases hq : q.handler with
  | trySend => exact move_of_trySend hq hrun
  | takeTask =>
    simp only [run, hq] at hs
    split at hs
    · rename_i htask
      cases hs
      exact .takeTask hq htask
    · rename_i htask
      cases hs
      exact .missTask hq htask
  | takeId =>
    simp only [run, hq] at hs
    cases hs
    exact .takeId hq
  | insertNotifier =>
    simp only [run, hq] at hs
    cases hs
    exact .insertNotifier hq
  | insertTask =>
    simp only [run, hq] at hs
    cases hs
    exact .insertTask hq
  | insertStream =>
    simp only [run, hq] at hs
    cases hs
    exact .insertStream hq
  | count =>
    simp only [run, hq] at hs
    cases hs
    exact .count hq
  | spawn =>
    simp only [run, hq] at hs
    cases hs
    exact .spawn hq
  | deleteNotifier exit =>
    simp only [run, hq] at hs
    cases hs
    exact .deleteNotifier hq
  | deleteTask exit =>
    simp only [run, hq] at hs
    cases hs
    exact .deleteTask hq
  | deleteStream =>
    simp only [run, hq] at hs
    cases hs
    exact .deleteStream hq
  | uncount outcome =>
    simp only [run, hq] at hs
    cases hs
    exact .uncount hq
  | absent => simp [run, hq] at hs
  | waiting => simp [run, hq] at hs
  | done => simp [run, hq] at hs
  | dropped => simp [run, hq] at hs
  | panicked => simp [run, hq] at hs

theorem move_of_receiveEvent (hs : q.receiveEvent m h clones = some (m', q')) :
    Move svc m h q clones .receiveEvent m' q' := by
  simp only [receiveEvent] at hs
  split at hs
  · rename_i hguard
    split at hs
    · rename_i hbuffer
      cases hs
      exact .receiveEvent hguard.1 hbuffer
    · rename_i hbuffer
      split at hs
      · rename_i hend
        cases hs
        exact .endStream hguard.1 hbuffer hend.1 hend.2
      · cases hs
  · cases hs

theorem move_of_step {act : RequestAction} (hs : q.step svc m h clones act = some (m', q')) :
    Move svc m h q clones act m' q' := by
  cases act with
  | run => exact move_of_run hs
  | receiveEvent => exact move_of_receiveEvent hs
  | resume =>
    simp only [step, resume] at hs
    split at hs
    · rename_i hguard
      cases hs
      exact .resume hguard.1 hguard.2
    · cases hs
  | elapse =>
    simp only [step, elapse] at hs
    split at hs
    · rename_i hguard
      cases hs
      exact .elapse hguard
    · cases hs
  | disconnect =>
    simp only [step, disconnect] at hs
    split at hs
    · rename_i hguard
      cases hs
      exact .disconnect hguard.1 hguard.2
    · cases hs
  | leave =>
    simp only [step, leave] at hs
    split at hs
    · rename_i hguard
      cases hs
      exact .leave hguard
    · cases hs

end Request

end Mosec
