import Mosec.Runs
import Mosec.Life

namespace Mosec

open Function (update update_self update_of_ne)

namespace Point

theorem itemOf_append (items items' : List Item) (i : UInt32) :
    itemOf (items ++ items') i = (itemOf items i).or (itemOf items' i) :=
  List.find?_append

theorem itemOf_unanswered {outstanding items : List Item} {i : UInt32}
    (hi : i ∉ items.map Item.id) :
    itemOf (Conn.unanswered outstanding items) i = itemOf outstanding i := by
  induction outstanding with
  | nil => rfl
  | cons item outstanding ih =>
    rw [Conn.unanswered] at ih ⊢
    by_cases hmem : item.id ∈ items.map Item.id
    · have hne : item.id ≠ i := by
        rintro rfl
        exact hi hmem
      rw [List.filter_cons_of_neg (by simpa using hmem), ih, itemOf_cons, if_neg hne]
    · rw [List.filter_cons_of_pos (by simpa using hmem), itemOf_cons, itemOf_cons, ih]

theorem filter_eq_singleton {α : Type*} (key : α → UInt32) {l : List α} {x : α}
    (hnodup : (l.map key).Nodup) (h : x ∈ l) : (l.filter fun y => key y = key x) = [x] := by
  induction l with
  | nil => cases h
  | cons head l ih =>
    rw [List.map_cons, List.nodup_cons] at hnodup
    rcases List.mem_cons.mp h with rfl | h
    · have hrest : (l.filter fun y => key y = key x) = [] := by
        rw [List.filter_eq_nil_iff]
        intro y hmem heq
        apply hnodup.1
        rw [← of_decide_eq_true heq]
        exact List.mem_map_of_mem hmem
      rw [List.filter_cons_of_pos (by simp), hrest]
    · have hne : key head ≠ key x := by
        intro heq
        apply hnodup.1
        rw [heq]
        exact List.mem_map_of_mem h
      rw [List.filter_cons_of_neg (by simpa using hne)]
      exact ih hnodup.2 h

theorem filter_eq_of_itemOf {items : List Item} {i : UInt32} {item : Item}
    (hnodup : (items.map Item.id).Nodup) (h : itemOf items i = some item) :
    (items.filter fun item => item.id = i) = [item] := by
  obtain ⟨hmem, rfl⟩ := itemOf_mem h
  exact filter_eq_singleton Item.id hnodup hmem

theorem itemOf_of_mem {items : List Item} {item : Item} (hnodup : (items.map Item.id).Nodup)
    (h : item ∈ items) : itemOf items item.id = some item := by
  have hsome : (itemOf items item.id).isSome := itemOf_isSome.mpr (List.mem_map_of_mem h)
  obtain ⟨item', hitem'⟩ := Option.isSome_iff_exists.mp hsome
  have hfilter := filter_eq_of_itemOf hnodup hitem'
  have hmem : item ∈ items.filter fun it => it.id = item.id := by simp [h]
  rw [hfilter, List.mem_singleton] at hmem
  rw [hitem', hmem]

theorem itemOf_getMultiTasksData (svc : Service) (m : TaskManager) {ids : List UInt32} {i : UInt32}
    (hi : i ∈ ids) : itemOf (m.getMultiTasksData svc ids) i =
      (m.table i).map fun task =>
        ⟨i, task.encodeState ((svc.senders task.route).getD []).length, task.data⟩ := by
  induction ids with
  | nil => cases hi
  | cons id ids ih =>
    have hrest : id ≠ i → itemOf (m.getMultiTasksData svc ids) i =
        (m.table i).map fun task =>
          ⟨i, task.encodeState ((svc.senders task.route).getD []).length, task.data⟩ := by
      intro hne
      apply ih
      rcases List.mem_cons.mp hi with rfl | hi
      · exact absurd rfl hne
      · exact hi
    cases htask : m.table id with
    | none =>
      have heq : m.getMultiTasksData svc (id :: ids) = m.getMultiTasksData svc ids := by
        simp [TaskManager.getMultiTasksData, htask]
      rw [heq]
      by_cases hne : id = i
      · subst hne
        simp [htask, TaskManager.getMultiTasksData_ids]
      · exact hrest hne
    | some task =>
      have heq : m.getMultiTasksData svc (id :: ids) =
          ⟨id, task.encodeState ((svc.senders task.route).getD []).length, task.data⟩ ::
            m.getMultiTasksData svc ids := by
        simp [TaskManager.getMultiTasksData, htask]
      rw [heq, itemOf_cons]
      by_cases hne : id = i
      · subst hne
        simp [htask]
      · rw [if_neg hne]
        exact hrest hne

theorem jobOf_of_forall {jobs : List Job} {i : UInt32} {p : Place} (hi : i ∈ jobs.map Job.id)
    (h : ∀ job ∈ jobs, job.place = p) : jobOf jobs i = some p := by
  obtain ⟨job, hjob⟩ := Option.isSome_iff_exists.mp (by
    rw [List.find?_isSome]
    obtain ⟨job, hmem, rfl⟩ := List.mem_map.mp hi
    exact ⟨job, hmem, by simp⟩ : (jobs.find? fun job => job.id = i).isSome)
  rw [jobOf, hjob, Option.map_some, h job (List.mem_of_find?_eq_some hjob)]

end Point

theorem TaskManager.updateTable_of_notMem {code : TaskCode} {items : List Item}
    {table : UInt32 → Option Task} {i : UInt32} (hi : i ∉ items.map Item.id) :
    updateTable code items table i = table i := by
  induction items generalizing table with
  | nil => rfl
  | cons item items ih =>
    rw [List.map_cons, List.mem_cons, not_or] at hi
    rw [updateTable, ih hi.2, update_of_ne hi.1]

theorem TaskManager.updateTable_of_itemOf {code : TaskCode} {items : List Item}
    {table : UInt32 → Option Task} {i : UInt32} {item : Item}
    (hnodup : (items.map Item.id).Nodup) (h : Point.itemOf items i = some item) :
    updateTable code items table i = (table i).map fun task => task.update code item.data := by
  induction items generalizing table with
  | nil => cases h
  | cons head items ih =>
    rw [List.map_cons, List.nodup_cons] at hnodup
    rw [Point.itemOf_cons] at h
    rw [updateTable]
    by_cases hi : head.id = i
    · rw [if_pos hi] at h
      cases h
      subst hi
      rw [updateTable_of_notMem hnodup.1, update_self]
    · rw [if_neg hi] at h
      rw [ih hnodup.2 h, update_of_ne (Ne.symm hi)]

namespace Conn

theorem view_congr {c c' : Conn} {i : UInt32} (hplace : c'.place i = c.place i)
    (houtbox : c'.point.outbox i = c.point.outbox i) : c'.view i = c.view i := by
  rw [view, view, hplace, houtbox]

/-- A frame that names an id its worker does not have is read for the submission, or an event of
such a frame is put into its channel. -/
def Hears (m : TaskManager) (c : Conn) (act : ConnAction) (n : ℕ) : Prop :=
  match act, c.point with
  | .readEvents items, _ =>
    ¬ Names items c.outstanding ∧ ∃ item ∈ items, m.owner item.id = some n
  | .run, .late (some p) _ => p.request = n
  | _, _ => False

namespace Move

variable {svc : Service} {m m' : TaskManager} {c c' : Conn} {act : ConnAction}
  {touched : List UInt32} {i : UInt32}

theorem place_panic (hi : i ∉ c.ids) : c.panic.place i = c.place i := by
  have hplace : ∀ c : Conn, i ∉ c.ids → c.place i = none := by
    intro c hc
    have hview := view_eq_none.mpr hc
    rwa [view, Option.map_eq_none_iff] at hview
  rw [hplace c hi, hplace c.panic (by simp [ids, panic, Point.ids])]

theorem place_untouched (h : Move svc m c act touched m' c') (hi : i ∉ touched) :
    c'.place i = c.place i := by
  have hsub : ∀ {items : List Item}, Names items c.outstanding →
      i ∉ c.outstanding.map Item.id → i ∉ items.map Item.id := fun hnames hout hmem =>
    hout (names_subset hnames hmem)
  cases h
  case recv ids queue id point hp hq hpoint =>
    have hid : i ≠ id := by simpa using hi
    have hids : point.place c.runtime i = c.point.place c.runtime i := by
      rcases hpoint with hpoint | hpoint <;> simp [hpoint, hp, Point.place, hid]
    rw [place, place, hids]
  case fetch items point hpoint hp hitems =>
    have hnot : i ∉ items.map Item.id := by
      rw [hitems, TaskManager.getMultiTasksData_ids]
      exact fun hmem => hi (List.mem_filter.mp hmem).1
    have hids : point.place c.runtime i = c.point.place c.runtime i := by
      rcases hpoint with ⟨-, hpoint⟩ | hpoint
      · simp [hpoint, hp, Point.place, hi]
      · simp only [hpoint, hp, Point.place, Point.itemOf_eq_none.mpr hnot, if_neg hi]
        rfl
    rw [place, place, hids]
  case writeOk items hp hb =>
    simp only [place, hp, Point.place, Point.itemOf_append, Point.itemOf_eq_none.mpr hi]
    simp
  case writeErr items hp =>
    rw [List.mem_append, not_or] at hi
    have hjobs : Point.jobOf (items.map fun item => .send item.id) i = none := by
      rw [Point.jobOf_eq_none, sendJobs_ids]
      exact hi.1
    simp only [place, hp, Point.place, Point.itemOf_eq_none.mpr hi.1,
      Point.itemOf_eq_none.mpr hi.2, hjobs]
    rfl
  case readReply streamed code items hp hcode hnames hnodup =>
    simp only [place, hp, Point.place, Point.itemOf_unanswered hi, Point.itemOf_eq_none.mpr hi]
    rfl
  case readCut code items hp hnames hnodup =>
    simp only [place, hp, Point.place, Point.itemOf_eq_none.mpr hi,
      Point.itemOf_eq_none.mpr (hsub hnames hi)]
    rfl
  case readErr code items hp =>
    simp only [place, hp, Point.place, Point.itemOf_eq_none.mpr hi]
    rfl
  case updateNormal items hp =>
    have hjobs : Point.jobOf (items.map fun item => .send item.id) i = none := by
      rw [Point.jobOf_eq_none, sendJobs_ids]
      exact hi
    simp only [place, hp, Point.place, Point.itemOf_eq_none.mpr hi, hjobs]
    rfl
  case updateAbnormal code items hp hcode =>
    have hjobs : Point.jobOf ((m.abnormalTasks items).map .notify) i = none := by
      rw [Point.jobOf_eq_none, notifyJobs_ids]
      exact fun hmem => hi ((m.abnormalTasks_sublist items).subset hmem)
    simp only [place, hp, Point.place, Point.itemOf_eq_none.mpr hi, hjobs]
    rfl
  case workDone next hp =>
    cases next <;> simp [place, hp, Point.place, proceed, Point.jobOf]
  case sendPanic => exact place_panic hi
  case signalPanic => exact place_panic hi
  case readEvents streamed items hp hnames => simp [place, hp, Point.place, Point.jobOf]
  case timeUp ids hp => simp [place, hp, Point.place]
  case eventsDone jobs next hp => simp [place, hp, Point.place]
  case readLate streamed items hp hnames => simp [place, hp, Point.place]
  case lateDone hp => simp [place, hp, Point.place]
  case lateLookup id event todo hp => simp [place, hp, Point.place]
  case latePush p todo hp hopen => simp [place, hp, Point.place]
  case lateClosed p todo hp hclosed => simp [place, hp, Point.place]
  all_goals
    simp only [List.mem_singleton] at hi
    simp [place, *, Point.place, Job.id, Ne.symm hi]

theorem outbox_untouched (h : Move svc m c act touched m' c') (hi : i ∉ touched) :
    c'.point.outbox i = c.point.outbox i := by
  cases h
  case recv hp hq hpoint => rcases hpoint with hpoint | hpoint <;> simp [hpoint, hp, Point.outbox]
  case fetch hpoint hp hitems =>
    rcases hpoint with ⟨-, hpoint⟩ | hpoint <;> simp [hpoint, hp, Point.outbox]
  case readEvents streamed items hp hnames =>
    have hfilter : ((items.map fun item => (item.id, (item.data, TaskCode.Normal))).filter
        fun p => p.1 = i) = [] := by
      rw [List.filter_eq_nil_iff]
      intro p hmem heq
      obtain ⟨item, hitem, rfl⟩ := List.mem_map.mp hmem
      exact hi (List.mem_map.mpr ⟨item, hitem, of_decide_eq_true heq⟩)
    simp [hp, Point.outbox, hfilter, Outbox.empty]
  case updateAbnormal code items hp hcode =>
    have hfilter : ((((m.abnormalTasks items).zip items).map fun p => (p.1, (p.2.data, code))).filter
        fun p => p.1 = i) = [] := by
      rw [List.filter_eq_nil_iff]
      intro p hmem heq
      obtain ⟨q, hq, rfl⟩ := List.mem_map.mp hmem
      apply hi
      apply (m.abnormalTasks_sublist items).subset
      rw [← of_decide_eq_true heq]
      exact (List.of_mem_zip hq).1
    simp [hp, Point.outbox, hfilter, Outbox.empty]
  case workDone next hp => cases next <;> simp [hp, Point.outbox, proceed]
  case eventsDone jobs next hp => simp [hp, Point.outbox, Outbox.empty]
  case lookup id event todo jobs next hp =>
    have hid : id ≠ i := Ne.symm (by simpa using hi)
    cases hsen : m.streamSenders id <;> simp [hp, Point.outbox, hid]
  case push p todo jobs next hp hopen =>
    have hid : p.id ≠ i := Ne.symm (by simpa using hi)
    simp [hp, Point.outbox, hid]
  case pushClosed p todo jobs next hp hclosed =>
    have hid : p.id ≠ i := Ne.symm (by simpa using hi)
    simp [hp, Point.outbox, hid]
  all_goals simp [*, Point.outbox, panic]

theorem view_untouched (h : Move svc m c act touched m' c') (hi : i ∉ touched) :
    c'.view i = c.view i :=
  view_congr (h.place_untouched hi) (h.outbox_untouched hi)

theorem table_untouched (h : Move svc m c act touched m' c') (hi : i ∉ touched) :
    m'.table i = m.table i := by
  cases h
  case updateNormal => exact TaskManager.updateTable_of_notMem hi
  case updateAbnormal => exact TaskManager.updateTable_of_notMem hi
  case remove id jobs next hp =>
    rw [TaskManager.removeTask_table, update_of_ne (by simpa using hi)]
  all_goals rfl

theorem notifiers_untouched (h : Move svc m c act touched m' c') (hi : i ∉ touched) :
    m'.notifiers i = m.notifiers i := by
  cases h
  case take id n jobs next hp hn => exact update_of_ne (by simpa using hi) _ _
  all_goals rfl

theorem queues_untouched (h : Move svc m c act touched m' c') (hi : i ∉ touched) (r : ℕ) :
    i ∈ m'.queues r ↔ i ∈ m.queues r := by
  cases h
  case recv ids queue id point hp hq hpoint =>
    by_cases hr : r = c.runtime
    · have hid : i ≠ id := by simpa using hi
      subst hr
      simp [hq, hid]
    · simp [hr]
  case enqueue id r' jobs next hp hroom =>
    by_cases hr : r = r'
    · have hid : i ≠ id := by simpa using hi
      subst hr
      simp [hid]
    · simp [hr]
  all_goals rfl

variable {n : ℕ}

theorem record_untouched {items : List Item} {f : History → Item → History}
    (hn : ∀ i ∈ items.map Item.id, m.owner i ≠ some n) :
    (m.record items f).history n = m.history n := by
  have hfilter : (items.filter fun item => m.owner item.id = some n) = [] := by
    rw [List.filter_eq_nil_iff]
    intro item hmem
    simpa using hn item.id (List.mem_map_of_mem hmem)
  simp [TaskManager.record, hfilter]

theorem channels_untouched (h : Move svc m c act touched m' c') (hc : c.Named m.owner)
    (hn : ∀ i ∈ touched, m.owner i ≠ some n) (hlate : ¬ Hears m c act n) :
    m'.oneshots n = m.oneshots n ∧ m'.streams n = m.streams n ∧ m'.history n = m.history n := by
  cases h
  case writeOk => exact ⟨rfl, rfl, record_untouched hn⟩
  case readEvents => exact ⟨rfl, rfl, record_untouched hn⟩
  case readReply => exact ⟨rfl, rfl, record_untouched hn⟩
  case readCut hp hnames hnodup =>
    exact ⟨rfl, rfl, record_untouched fun i hi => hn i (names_subset hnames hi)⟩
  case push p todo jobs next hp hopen =>
    simp only [Named, hp] at hc
    have hne : n ≠ p.request := by
      rintro rfl
      exact hn p.id (by simp) (hc.1 p rfl).1
    exact ⟨rfl, update_of_ne hne _ _, rfl⟩
  case readLate streamed items hp hnames =>
    refine ⟨rfl, rfl, record_untouched ?_⟩
    intro i hi hown
    obtain ⟨item, hitem, rfl⟩ := List.mem_map.mp hi
    exact hlate ⟨hnames, item, hitem, hown⟩
  case latePush p todo hp hopen =>
    have hne : n ≠ p.request := by
      rintro rfl
      apply hlate
      simp [Hears, hp]
    exact ⟨rfl, update_of_ne hne _ _, rfl⟩
  case signal id h' jobs next hp hopen =>
    simp only [Named, hp] at hc
    have hne : n ≠ h' := by
      rintro rfl
      exact hn id (by simp) hc
    exact ⟨update_of_ne hne _ _, rfl, rfl⟩
  case uncount id h' jobs next hp howner =>
    have hne : n ≠ h' := by
      rintro rfl
      exact hn id (by simp) howner
    exact ⟨rfl, rfl, update_of_ne hne _ _⟩
  all_goals exact ⟨rfl, rfl, rfl⟩

end Move

end Conn

namespace State

variable {s : State} {k h : ℕ} {m' : TaskManager} {c' : Conn}

theorem shows_setConn (s : State) (m : TaskManager) (c : Conn) {i : UInt32}
    (hview : c.view i = (s.conns k).view i)
    (hq : ∀ r, i ∈ m.queues r ↔ i ∈ s.manager.queues r) (a : Holder) :
    (s.setConn k m c).shows a i = s.shows a i := by
  cases a with
  | queue r =>
    have hr := hq r
    simp only [shows]
    change (if i ∈ m.queues r then _ else _) = _
    simp only [hr]
  | conn j =>
    by_cases hj : j = k
    · rw [hj, shows, shows, setConn_conns_self, hview]
    · rw [shows, shows, setConn_conns_ne _ _ _ hj]

theorem Coherent.owner_iff (hs : s.Coherent) (hown : s.manager.owner (s.requests h).id = some h)
    {i : UInt32} : s.manager.owner i = some h ↔ i = (s.requests h).id := by
  constructor
  · intro hi
    exact (hs.owned hi).1.symm
  · rintro rfl
    exact hown

variable {svc : Service} {act : ConnAction} {touched : List UInt32}

theorem life_apart (hs : s.Coherent) (hs' : (s.setConn k m' c').Coherent)
    (hm : Conn.Move svc s.manager (s.conns k) act touched m' c')
    (hi : s.manager.owner (s.requests h).id = some h → (s.requests h).id ∉ touched) :
    (s.setConn k m' c').life h =
      { s.life h with
        oneshot := m'.oneshots h
        stream := m'.streams h
        history := m'.history h } := by
  have howner' : (s.setConn k m' c').manager.owner = s.manager.owner := hm.owner
  have hsender : (s.setConn k m' c').manager.streamSenders = s.manager.streamSenders :=
    hm.streamSenders
  have hreq : (s.setConn k m' c').requests h = s.requests h := rfl
  simp only [life, howner', hsender, hreq]
  by_cases hown : s.manager.owner (s.requests h).id = some h
  · have hnot := hi hown
    have htable : (s.setConn k m' c').manager.table (s.requests h).id =
        s.manager.table (s.requests h).id := hm.table_untouched hnot
    have hnotifier : (s.setConn k m' c').manager.notifiers (s.requests h).id =
        s.manager.notifiers (s.requests h).id := hm.notifiers_untouched hnot
    have hcarried : (s.setConn k m' c').carried (s.requests h).id = s.carried (s.requests h).id :=
      carried_congr (shows_setConn s m' c' (hm.view_untouched hnot) (hm.queues_untouched hnot))
    simp only [htable, hnotifier, hcarried]
    rfl
  · have hnot : s.manager.notifiers (s.requests h).id ≠ some h := fun hn => hown (hs.notifier hn)
    have hnot' : (s.setConn k m' c').manager.notifiers (s.requests h).id ≠ some h := fun hn =>
      hown (howner' ▸ hs'.notifier hn)
    simp only [if_neg hown, beq_false_of_ne hnot, beq_false_of_ne hnot']
    rfl

theorem life_untouched (hs : s.Coherent) (hs' : (s.setConn k m' c').Coherent)
    (hm : Conn.Move svc s.manager (s.conns k) act touched m' c')
    (hi : s.manager.owner (s.requests h).id = some h → (s.requests h).id ∉ touched)
    (hlate : ¬ Conn.Hears s.manager (s.conns k) act h) :
    (s.setConn k m' c').life h = s.life h := by
  have hch := hm.channels_untouched (n := h) (hs.named k) (by
    intro i hmem hown
    obtain ⟨rfl, -⟩ := hs.owned hown
    exact hi hown hmem) hlate
  rw [life_apart hs hs' hm hi, hch.1, hch.2.1, hch.2.2]
  rfl

end State

end Mosec
