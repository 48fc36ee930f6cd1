import Mosec.Runs

namespace Mosec

open Function (update update_self update_of_ne update_idem)

namespace Wire

structure Described (items : List Item) : Prop where
  count : (u16FromBeBytes (((sendMessage items).drop flagU8Size).take numU8Size)).toNat =
    items.length
  lengths : ∀ before item after, items = before ++ item :: after →
    (u32FromBeBytes (((sendMessage items).drop (flagU8Size + numU8Size +
      (before.flatMap itemBytes).length + taskIdU8Size + stateU8Size)).take lengthU8Size)).toNat =
        item.data.length

theorem take_drop_field (before field after : Bytes) {n k : ℕ} (hn : before.length = n)
    (hk : field.length = k) : ((before ++ (field ++ after)).drop n).take k = field := by
  subst hn hk
  rw [List.drop_left, List.take_left]

theorem countField_sendMessage (items : List Item) :
    ((sendMessage items).drop flagU8Size).take numU8Size =
      putU16 (UInt16.ofNat items.length) := by
  rw [sendMessage, List.append_assoc]
  exact take_drop_field _ _ _ (putU16_length _) (putU16_length _)

theorem lengthField_sendMessage (before after : List Item) (item : Item) :
    ((sendMessage (before ++ item :: after)).drop (flagU8Size + numU8Size +
      (before.flatMap itemBytes).length + taskIdU8Size + stateU8Size)).take lengthU8Size =
        putU32 (UInt32.ofNat item.data.length) := by
  have hsplit : sendMessage (before ++ item :: after) =
      (putU16 0 ++ putU16 (UInt16.ofNat (before ++ item :: after).length) ++
        before.flatMap itemBytes ++ putU32 item.id ++ putU16 item.state) ++
      (putU32 (UInt32.ofNat item.data.length) ++ (item.data ++ after.flatMap itemBytes)) := by
    rw [sendMessage, List.flatMap_append, List.flatMap_cons, itemBytes]
    simp only [List.append_assoc]
  rw [hsplit]
  apply take_drop_field
  · simp only [List.length_append, putU16_length, putU32_length, flagU8Size, numU8Size,
      taskIdU8Size, stateU8Size]
  · exact putU32_length _

theorem described_iff (items : List Item) :
    Described items ↔ items.length < 2 ^ 16 ∧ ∀ item ∈ items, item.data.length < 2 ^ 32 := by
  have hcount : (u16FromBeBytes (((sendMessage items).drop flagU8Size).take numU8Size)).toNat =
      items.length % 2 ^ 16 := by
    rw [countField_sendMessage, u16_putU16, UInt16.toNat_ofNat']
  have hlength : ∀ before item after, items = before ++ item :: after →
      (u32FromBeBytes (((sendMessage items).drop (flagU8Size + numU8Size +
        (before.flatMap itemBytes).length + taskIdU8Size + stateU8Size)).take
          lengthU8Size)).toNat = item.data.length % 2 ^ 32 := by
    rintro before item after rfl
    rw [lengthField_sendMessage, u32_putU32, UInt32.toNat_ofNat']
  constructor
  · intro h
    constructor
    · rw [← h.count, hcount]
      exact Nat.mod_lt _ (by decide)
    · intro item hitem
      obtain ⟨before, after, hsplit⟩ := List.append_of_mem hitem
      rw [← h.lengths before item after hsplit, hlength before item after hsplit]
      exact Nat.mod_lt _ (by decide)
  · rintro ⟨hlt, hdata⟩
    constructor
    · rw [hcount, Nat.mod_eq_of_lt hlt]
    · intro before item after hsplit
      rw [hlength before item after hsplit]
      exact Nat.mod_eq_of_lt (hdata item (by rw [hsplit]; simp))

end Wire

open Wire (Described described_iff)

namespace TaskManager

variable {m : TaskManager} {svc : Service} {ids : List UInt32}

def Fits (m : TaskManager) (ids : List UInt32) : Prop :=
  (ids.filter fun id => (m.table id).isSome).length < 2 ^ 16 ∧
    ∀ id ∈ ids, ∀ task, m.table id = some task → task.data.length < 2 ^ 32

theorem length_getMultiTasksData (svc : Service) (ids : List UInt32) :
    (m.getMultiTasksData svc ids).length = (ids.filter fun id => (m.table id).isSome).length := by
  rw [← getMultiTasksData_ids m svc, List.length_map]

theorem mem_getMultiTasksData {item : Item} (h : item ∈ m.getMultiTasksData svc ids) :
    item.id ∈ ids ∧ ∃ task, m.table item.id = some task ∧ item.data = task.data := by
  obtain ⟨id, hid, hitem⟩ := List.mem_filterMap.mp h
  obtain ⟨task, htask, rfl⟩ := Option.map_eq_some_iff.mp hitem
  exact ⟨hid, task, htask, rfl⟩

theorem exists_mem_getMultiTasksData (svc : Service) {id : UInt32} {task : Task} (hid : id ∈ ids)
    (htask : m.table id = some task) :
    ∃ item ∈ m.getMultiTasksData svc ids, item.data = task.data :=
  ⟨_, List.mem_filterMap.mpr ⟨id, hid, congrArg (Option.map _) htask⟩, rfl⟩

theorem described_getMultiTasksData :
    Described (m.getMultiTasksData svc ids) ↔ m.Fits ids := by
  rw [described_iff, length_getMultiTasksData, Fits]
  apply and_congr_right
  rintro -
  constructor
  · intro h id hid task htask
    obtain ⟨item, hitem, hdata⟩ := exists_mem_getMultiTasksData svc hid htask
    rw [← hdata]
    exact h item hitem
  · intro h item hitem
    obtain ⟨hid, task, htask, hdata⟩ := mem_getMultiTasksData hitem
    rw [hdata]
    exact h _ hid task htask

theorem updateTable_data {code : TaskCode} {items : List Item} {table : UInt32 → Option Task}
    {i : UInt32} {task : Task} (h : updateTable code items table i = some task) :
    (∃ item ∈ items, task.data = item.data) ∨
      ∃ task₀, table i = some task₀ ∧ task.data = task₀.data := by
  induction items generalizing table with
  | nil => exact Or.inr ⟨task, h, rfl⟩
  | cons item items ih =>
    rcases ih h with ⟨item', hitem', hdata⟩ | ⟨task₁, htask₁, hdata⟩
    · exact Or.inl ⟨item', List.mem_cons_of_mem _ hitem', hdata⟩
    · by_cases hi : i = item.id
      · rw [hi, update_self] at htask₁
        obtain ⟨task₀, -, rfl⟩ := Option.map_eq_some_iff.mp htask₁
        exact Or.inl ⟨item, List.mem_cons_self, hdata⟩
      · rw [update_of_ne hi] at htask₁
        exact Or.inr ⟨task₁, htask₁, hdata⟩

end TaskManager

def ConnAction.Framed : ConnAction → Prop
  | .readEvents items => ∀ item ∈ items, item.data.length < 2 ^ 32
  | .readReply _ items => ∀ item ∈ items, item.data.length < 2 ^ 32
  | .readErr _ items => ∀ item ∈ items, item.data.length < 2 ^ 32
  | _ => True

/-- What `to_bytes` lets through to the task manager, and what `read_message` reads. -/
def Action.Admitted (maxRequestSize : ℕ) : Action → Prop
  | .submit _ _ body => body.length ≤ maxRequestSize
  | .conn _ act => act.Framed
  | _ => True

def Service.limit (svc : Service) (r : ℕ) : ℕ := max 1 (svc.batchSize r)

def Point.Capped (limit : ℕ) : Point → Prop
  | .collect ids => ids.length < limit
  | .fetch ids => ids.length ≤ limit
  | .write items => items.length ≤ limit ∧ ∀ item ∈ items, item.data.length < 2 ^ 32
  | .update _ items => ∀ item ∈ items, item.data.length < 2 ^ 32
  | _ => True

def TaskManager.Short (m : TaskManager) : Prop :=
  ∀ i task, m.table i = some task → task.data.length < 2 ^ 32

namespace Conn

variable {svc : Service} {m m' : TaskManager} {c c' : Conn} {act : ConnAction}
  {touched : List UInt32}

theorem capped_recv (hc : c.point.Capped (svc.limit c.runtime))
    (h : c.recv svc m = some (m', c')) : c'.point.Capped (svc.limit c.runtime) := by
  unfold recv at h
  split at h
  · rename_i ids id queue hp hq
    cases h
    rw [hp] at hc
    change ids.length < max 1 _ at hc
    by_cases hfull : svc.batchSize c.runtime ≤ 1 ∨
        (ids ++ [id]).length = svc.batchSize c.runtime
    · simp only [if_pos hfull]
      change (ids ++ [id]).length ≤ _
      rw [List.length_append, List.length_singleton]
      exact hc
    · simp only [if_neg hfull]
      change (ids ++ [id]).length < max 1 _
      simp only [List.length_append, List.length_singleton] at hfull ⊢
      omega
  · cases h

theorem capped_step (hm : m.Short) (hc : c.point.Capped (svc.limit c.runtime))
    (hframed : act.Framed) (h : c.step svc m act = some (m', c')) :
    c'.point.Capped (svc.limit c.runtime) := by
  have hpos : 0 < svc.limit c.runtime := lt_of_lt_of_le Nat.zero_lt_one (le_max_left _ _)
  obtain ⟨touched, hmove⟩ := move_of_step h
  cases hmove
  case recv => exact capped_recv hc h
  case timeUp ids hp =>
    rw [hp] at hc
    exact Nat.le_of_lt hc
  case fetch items point hpoint hp hitems =>
    rw [hp] at hc
    rcases hpoint with ⟨-, rfl⟩ | rfl
    · exact hpos
    · refine ⟨?_, ?_⟩
      · rw [hitems, TaskManager.length_getMultiTasksData]
        exact (List.length_filter_le _ _).trans hc
      · intro item hitem
        obtain ⟨-, task, htask, hdata⟩ := TaskManager.mem_getMultiTasksData (hitems ▸ hitem)
        rw [hdata]
        exact hm _ _ htask
  case readReply => exact hframed
  case readCut => exact hframed
  case workDone next hp =>
    cases next
    · trivial
    · exact hpos
    · trivial
  all_goals trivial

theorem short_step (hm : m.Short) (hc : c.point.Capped (svc.limit c.runtime))
    (h : c.step svc m act = some (m', c')) : m'.Short := by
  have hupdate : ∀ {code items}, c.point = .update code items →
      (m.updateMultiTasks code items).Short := by
    intro code items hp i task htask
    rw [hp] at hc
    rcases TaskManager.updateTable_data htask with ⟨item, hitem, hdata⟩ | ⟨task₀, htask₀, hdata⟩
    · rw [hdata]
      exact hc item hitem
    · rw [hdata]
      exact hm _ _ htask₀
  obtain ⟨touched, hmove⟩ := move_of_step h
  cases hmove
  case updateNormal hp => exact hupdate hp
  case updateAbnormal hp hcode => exact hupdate hp
  case remove id jobs next hp =>
    intro i task htask
    exact hm _ _ (of_update_none htask).2
  all_goals exact hm

end Conn

namespace State

open Transition (Reachable)

variable {svc : Service} {s s' : State} {a : Action} {maxRequestSize : ℕ}

structure Capped (svc : Service) (s : State) : Prop where
  short : s.manager.Short
  body : ∀ h, (s.requests h).body.length < 2 ^ 32
  conn : ∀ k, (s.conns k).point.Capped (svc.limit (s.conns k).runtime)

theorem capped_start (svc : Service) : start.Capped svc where
  short := by
    intro i task htask
    cases htask
  body _ := Nat.zero_lt_succ _
  conn _ := trivial

theorem Capped.submit (hs : s.Capped svc) {isSse : Bool} {key : String} {body : Bytes}
    (hbody : body.length < 2 ^ 32) : (s.submit isSse key body).Capped svc where
  short := by
    change (Request.submit s.manager s.submitted isSse key body).1.Short
    rcases submit_manager s.manager s.submitted isSse key body with hm | hm
    · rw [hm]
      exact hs.short
    · rw [hm]
      exact hs.short
  body := by
    intro h
    change (update s.requests s.submitted _ h).body.length < _
    by_cases hh : h = s.submitted
    · rw [hh, update_self, Request.submit]
      split
      · exact hbody
      · split <;> exact hbody
    · rw [update_of_ne hh]
      exact hs.body h
  conn := hs.conn

theorem Capped.request (hs : s.Capped svc) {h : ℕ} {act : RequestAction} {m : TaskManager}
    {q : Request} (hmove : Request.Move svc s.manager h (s.requests h) (s.clones h) act m q) :
    (s.setRequest h m q).Capped svc := by
  have hq : q.body = (s.requests h).body := by cases hmove <;> rfl
  have hshort : m.Short := by
    have hremove : (s.manager.removeTask (s.requests h).id).Short := by
      intro i task htask
      exact hs.short _ _ (of_update_none htask).2
    cases hmove
    case insertTask =>
      intro i task htask
      rcases of_update_some htask with ⟨-, rfl⟩ | ⟨-, htask⟩
      · exact hs.body h
      · exact hs.short _ _ htask
    case takeTask => exact hremove
    case deleteTask => exact hremove
    all_goals exact hs.short
  refine ⟨hshort, ?_, hs.conn⟩
  intro h'
  change (update s.requests h q h').body.length < _
  by_cases hh : h' = h
  · rw [hh, update_self, hq]
    exact hs.body h
  · rw [update_of_ne hh]
    exact hs.body h'

theorem Capped.conns (hs : s.Capped svc) {k : ℕ} {act : ConnAction} {m : TaskManager} {c : Conn}
    (hframed : act.Framed) (hstep : (s.conns k).step svc s.manager act = some (m, c)) :
    (s.setConn k m c).Capped svc where
  short := Conn.short_step hs.short (hs.conn k) hstep
  body := hs.body
  conn := by
    intro j
    by_cases hj : j = k
    · obtain ⟨touched, hmove⟩ := Conn.move_of_step hstep
      rw [hj, setConn_conns_self, hmove.runtime]
      exact Conn.capped_step hs.short (hs.conn k) hframed hstep
    · rw [setConn_conns_ne _ _ _ hj]
      exact hs.conn j

theorem Capped.step (hs : s.Capped svc) (hmax : maxRequestSize < 2 ^ 32)
    (ha : a.Admitted maxRequestSize) (hstep : s.step svc a = some s') : s'.Capped svc := by
  cases a with
  | submit isSse key body =>
    obtain rfl := Option.some.inj hstep
    exact hs.submit (lt_of_le_of_lt ha hmax)
  | request h act =>
    obtain ⟨⟨m, q⟩, hrun, rfl⟩ := Option.map_eq_some_iff.mp hstep
    exact hs.request (Request.move_of_step hrun)
  | connect r =>
    simp only [State.step] at hstep
    split at hstep
    · cases hstep
      refine ⟨hs.short, hs.body, ?_⟩
      intro k
      by_cases hk : k = s.connected
      · rw [hk, accept_conns_self]
        exact lt_of_lt_of_le Nat.zero_lt_one (le_max_left _ _)
      · rw [accept_conns_ne s r hk]
        exact hs.conn k
    · cases hstep
  | conn k act =>
    obtain ⟨⟨m, c⟩, hrun, rfl⟩ := Option.map_eq_some_iff.mp hstep
    exact hs.conns ha hrun

def entering (s : State) (key : String) (body : Bytes) : List Action :=
  .submit true key body :: List.replicate 4 (.request s.submitted .run)

def entered (s : State) (key : String) (body : Bytes) (r : ℕ) : State :=
  { s with
    manager := (((s.manager.takeId s.submitted).insertNotifier s.manager.currentId
      s.submitted).insertTask s.manager.currentId (Task.new body key s.submitted)).push r
        s.manager.currentId
    requests := update s.requests s.submitted ⟨true, key, body, s.manager.currentId, .insertStream⟩
    submitted := s.submitted + 1 }

theorem run_entering {key : String} {r : ℕ} {route : List ℕ} {body : Bytes} (hbody : body ≠ [])
    (hkey : svc.senders key = some (r :: route))
    (hroom : (s.manager.queues r).length < svc.capacity) :
    Transition.run (step svc) s (s.entering key body) = some (s.entered key body r) := by
  simp only [entering, List.replicate, Transition.run, step, submit, Request.submit, hbody,
    if_false, if_true, setRequest, update_self, Request.step, Request.run, Option.map_some,
    Option.bind_some, hkey, List.head?_cons, TaskManager.takeId, TaskManager.insertNotifier,
    TaskManager.insertTask, hroom, update_idem, entered]

theorem entering_admitted {key : String} {body : Bytes} (hbody : body.length ≤ maxRequestSize) :
    ∀ a ∈ s.entering key body, a.Admitted maxRequestSize := by
  intro a ha
  rcases List.mem_cons.mp ha with rfl | ha
  · exact hbody
  · rw [List.eq_of_mem_replicate ha]
    trivial

structure Gathered (r n : ℕ) (s : State) : Prop where
  queue : s.manager.queues r = []
  runtime : (s.conns 0).runtime = r
  batch : ∃ ids, (s.conns 0).point = .collect ids ∧ ids.length = n ∧
    ∀ id ∈ ids, (s.manager.table id).isSome

abbrev AdmittedRun (svc : Service) (maxRequestSize : ℕ) : State → Prop :=
  Run svc fun _ a => a.Admitted maxRequestSize

theorem Gathered.succ {key : String} {r n : ℕ} {route : List ℕ}
    (hrun : AdmittedRun svc maxRequestSize s) (hs : s.Gathered r n)
    (hkey : svc.senders key = some (r :: route)) (hmax : 1 ≤ maxRequestSize)
    (hlt : n + 1 < svc.batchSize r) :
    ∃ s', AdmittedRun svc maxRequestSize s' ∧ s'.Gathered r (n + 1) := by
  obtain ⟨ids, hpoint, hlength, hids⟩ := hs.batch
  have hentered : AdmittedRun svc maxRequestSize (s.entered key [0] r) := by
    have hroom : (s.manager.queues r).length < svc.capacity := by
      rw [hs.queue]
      exact svc.capacity_pos
    have hfollows : Transition.Follows (step svc) (fun _ a => a.Admitted maxRequestSize) s
        (s.entering key [0]) :=
      Transition.follows_of_all (fun a ha _ => entering_admitted hmax a ha) s
    exact hrun.run hfollows (run_entering (by decide) hkey hroom)
  have hqueue : (s.entered key [0] r).manager.queues r = [s.manager.currentId] := by
    change update s.manager.queues r (s.manager.queues r ++ [s.manager.currentId]) r = _
    rw [update_self, hs.queue]
    rfl
  have hfull : ¬ (svc.batchSize r ≤ 1 ∨
      (ids ++ [s.manager.currentId]).length = svc.batchSize r) := by
    rw [List.length_append, List.length_singleton]
    omega
  have hrecv : (s.entered key [0] r).step svc (.conn 0 .recv) =
      some ((s.entered key [0] r).setConn 0 { (s.entered key [0] r).manager with
        queues := update (s.entered key [0] r).manager.queues r [] }
      { s.conns 0 with point := .collect (ids ++ [s.manager.currentId]) }) := by
    have hconn : (s.entered key [0] r).conns 0 = s.conns 0 := rfl
    simp only [step, Conn.step, Conn.recv, hconn, hpoint, hs.runtime, hqueue, if_neg hfull,
      Option.map_some]
  have hadmitted : (Action.conn 0 .recv).Admitted maxRequestSize := trivial
  refine ⟨_, hentered.step hadmitted hrecv, ?_, hs.runtime, _, rfl, ?_, ?_⟩
  · exact update_self ..
  · rw [List.length_append, List.length_singleton, hlength]
  · intro id hid
    change (update s.manager.table s.manager.currentId _ id).isSome
    by_cases hcur : id = s.manager.currentId
    · rw [hcur, update_self]
      rfl
    · rw [update_of_ne hcur]
      rcases List.mem_append.mp hid with hid | hid
      · exact hids id hid
      · exact absurd (List.mem_singleton.mp hid) hcur

theorem exists_gathered {key : String} {r n : ℕ} {route : List ℕ}
    (hkey : svc.senders key = some (r :: route)) (hmax : 1 ≤ maxRequestSize)
    (hlt : n < svc.batchSize r) :
    ∃ s, AdmittedRun svc maxRequestSize s ∧ s.Gathered r n := by
  induction n with
  | zero =>
    have hr : r < svc.runtimes.length := svc.senders_lt hkey List.mem_cons_self
    have hadmitted : (Action.connect r).Admitted maxRequestSize := trivial
    refine ⟨start.accept r, Reachable.init.step hadmitted (if_pos hr), rfl, rfl, [], rfl, rfl, ?_⟩
    intro id hid
    cases hid
  | succ n ih =>
    obtain ⟨s, hrun, hs⟩ := ih (Nat.lt_of_succ_lt hlt)
    exact hs.succ hrun hkey hmax hlt

theorem exists_batch {key : String} {r n : ℕ} {route : List ℕ}
    (hkey : svc.senders key = some (r :: route)) (hmax : 1 ≤ maxRequestSize) (hpos : 0 < n)
    (hlt : n < svc.batchSize r) : ∃ s items, AdmittedRun svc maxRequestSize s ∧
      (s.conns 0).point = .write items ∧ items.length = n := by
  obtain ⟨s, hrun, hs⟩ := exists_gathered hkey hmax hlt
  obtain ⟨ids, hpoint, hlength, hids⟩ := hs.batch
  have hne : ids ≠ [] := by
    rintro rfl
    rw [List.length_nil] at hlength
    omega
  have hitems : (s.manager.getMultiTasksData svc ids).length = n := by
    rw [TaskManager.length_getMultiTasksData, List.filter_eq_self.mpr hids, hlength]
  have hsome : s.manager.getMultiTasksData svc ids ≠ [] := by
    intro hnil
    rw [hnil, List.length_nil] at hitems
    omega
  have htimeUp : s.step svc (.conn 0 .timeUp) =
      some (s.setConn 0 s.manager { s.conns 0 with point := .fetch ids }) := by
    obtain ⟨id, rest, rfl⟩ := List.exists_cons_of_ne_nil hne
    simp only [step, Conn.step, Conn.timeUp, hpoint, Option.map_some]
  have hfetch : (s.setConn 0 s.manager { s.conns 0 with point := .fetch ids }).step svc
      (.conn 0 .run) =
        some ((s.setConn 0 s.manager { s.conns 0 with point := .fetch ids }).setConn 0 s.manager
          { s.conns 0 with point := .write (s.manager.getMultiTasksData svc ids) }) := by
    simp only [step, Conn.step, Conn.run, setConn, update_self, Option.map_some, hsome,
      ↓reduceIte]
  have hadmitted : (Action.conn 0 .timeUp).Admitted maxRequestSize := trivial
  have hadmitted' : (Action.conn 0 .run).Admitted maxRequestSize := trivial
  refine ⟨_, _, (hrun.step hadmitted htimeUp).step hadmitted' hfetch, ?_, hitems⟩
  rw [setConn_conns_self]

/-- The header of every frame is right that has few ids and short payloads, and no other. With a
small enough configuration these are all frames of all runs. -/
theorem frames_described_iff (svc : Service) (maxRequestSize : ℕ) :
    (∀ (m : TaskManager) ids, Described (m.getMultiTasksData svc ids) ↔ m.Fits ids) ∧
    ((∀ r, svc.batchSize r < 2 ^ 16) → maxRequestSize < 2 ^ 32 →
      ∀ s, AdmittedRun svc maxRequestSize s → ∀ k items, (s.conns k).point = .write items →
        Described items) := by
  refine ⟨fun m ids => TaskManager.described_getMultiTasksData, ?_⟩
  intro hbatch hmax s hrun k items hpoint
  have hcapped : s.Capped svc := by
    apply hrun.invariant (capped_start svc)
    intro s a s' hs ha hstep
    exact hs.step hmax ha hstep
  have hitems := hcapped.conn k
  rw [hpoint] at hitems
  apply (described_iff items).mpr
  refine ⟨?_, hitems.2⟩
  have hlimit : svc.limit (s.conns k).runtime < 2 ^ 16 := max_lt (by decide) (hbatch _)
  exact lt_of_le_of_lt hitems.1 hlimit

def narrow : Service :=
  Config.initFromConfig ⟨1024, [⟨"echo", 4⟩], [⟨"/inference", ["echo"]⟩]⟩
    ⟨by decide, by decide, by decide⟩

theorem frames_described_iff_narrow : ∃ s items, AdmittedRun narrow (10 * 1024 * 1024) s ∧
    (s.conns 0).point = .write items ∧ items.length = 3 ∧ Described items := by
  have hkey : narrow.senders "/inference" = some (0 :: []) := by decide
  have hlt : 3 < narrow.batchSize 0 := by decide
  have hmax : 1 ≤ 10 * 1024 * 1024 := by decide
  have hsmall : ∀ r, narrow.batchSize r < 2 ^ 16 := by
    rintro (_ | r)
    · decide
    · exact (by decide : 0 < 2 ^ 16)
  obtain ⟨s, items, hrun, hpoint, hlength⟩ := exists_batch hkey hmax (by decide) hlt
  exact ⟨s, items, hrun, hpoint, hlength,
    (frames_described_iff narrow (10 * 1024 * 1024)).2 hsmall (by decide) s hrun 0 items hpoint⟩

def wide : Service :=
  Config.initFromConfig ⟨1024, [⟨"echo", 100000⟩], [⟨"/inference", ["echo"]⟩]⟩
    ⟨by decide, by decide, by decide⟩

theorem frame_count_wraps : ∃ s items, AdmittedRun wide (10 * 1024 * 1024) s ∧
    (s.conns 0).point = .write items ∧ items.length = 65536 ∧
    (Wire.u16FromBeBytes (((Wire.sendMessage items).drop 2).take 2)).toNat = 0 ∧
    ¬ Described items := by
  have hkey : wide.senders "/inference" = some (0 :: []) := by decide
  have hlt : 65536 < wide.batchSize 0 := by decide
  have hmax : 1 ≤ 10 * 1024 * 1024 := by decide
  obtain ⟨s, items, hrun, hpoint, hlength⟩ := exists_batch hkey hmax (by decide) hlt
  refine ⟨s, items, hrun, hpoint, hlength, ?_, ?_⟩
  · have hcount := Wire.countField_sendMessage items
    rw [hlength] at hcount
    exact (congrArg (fun bytes => (Wire.u16FromBeBytes bytes).toNat) hcount).trans (by decide)
  · intro hdescribed
    have hlt := ((described_iff items).mp hdescribed).1
    rw [hlength] at hlt
    exact absurd hlt (by decide)

end State

end Mosec
