import Mosec.Moves

namespace Mosec

open Function (update update_self update_of_ne)
open scoped List

namespace Handler

def given : Handler → Bool
  | .absent => false
  | .takeId => false
  | _ => true

def active : Handler → Bool
  | .absent => false
  | .takeId => false
  | .uncount _ => false
  | .done _ => false
  | .dropped => false
  | .panicked => false
  | _ => true

def entering : Handler → Bool
  | .insertNotifier => true
  | .insertTask => true
  | .trySend => true
  | _ => false

theorem active_of_entering {handler : Handler} (h : handler.entering) : handler.active := by
  cases handler <;> simp_all [entering, active]

end Handler

def Conn.Named (owner : UInt32 → Option ℕ) (c : Conn) : Prop :=
  match c.point with
  | .events pushing todo _ _ =>
    (∀ p ∈ pushing, owner p.id = some p.request ∧ p.id ∈ c.ids) ∧ ∀ e ∈ todo, e.1 ∈ c.ids
  | .check id h _ _ => owner id = some h
  | .signal id h _ _ => owner id = some h
  | _ => True

namespace State

def InUse (s : State) (i : UInt32) : Prop :=
  (s.manager.table i).isSome ∨ (s.manager.notifiers i).isSome ∨
    (s.manager.streamSenders i).isSome ∨ (∃ a, i ∈ s.holds a) ∨
    ∃ h, (s.requests h).id = i ∧ (s.requests h).handler.active

/-- No id is given out while it is in use. -/
def FreshId (s : State) (a : Action) : Prop :=
  ∀ h, a = .request h .run → (s.requests h).handler = .takeId → ¬ s.InUse s.manager.currentId

/-- Everything filed under an id belongs to the last submission that was given it. -/
structure Coherent (s : State) : Prop where
  exclusive : Custody.Exclusive s.holds
  owned : ∀ {i h}, s.manager.owner i = some h →
    (s.requests h).id = i ∧ (s.requests h).handler.given
  entry : ∀ {i task}, s.manager.table i = some task → s.manager.owner i = some task.createAt
  notifier : ∀ {i h}, s.manager.notifiers i = some h → s.manager.owner i = some h
  sender : ∀ {i h}, s.manager.streamSenders i = some h → s.manager.owner i = some h
  held : ∀ {i a}, i ∈ s.holds a → (s.manager.owner i).isSome
  active : ∀ {h}, (s.requests h).handler.active →
    s.manager.owner (s.requests h).id = some h
  unheld : ∀ {h}, (s.requests h).handler.entering → ∀ a, (s.requests h).id ∉ s.holds a
  named : ∀ k, (s.conns k).Named s.manager.owner
  absent : ∀ {h}, s.submitted ≤ h → s.requests h = .absent

end State

namespace TaskManager

theorem updateTable_eq_some {code : TaskCode} {items : List Item} {table : UInt32 → Option Task}
    {i : UInt32} {task : Task} (h : updateTable code items table i = some task) :
    ∃ task₀, table i = some task₀ ∧ task.createAt = task₀.createAt ∧ task.route = task₀.route := by
  induction items generalizing table with
  | nil => exact ⟨task, h, rfl, rfl⟩
  | cons item items ih =>
    obtain ⟨task₁, htask₁, hcreate, hroute⟩ := ih h
    by_cases hi : i = item.id
    · rw [hi, update_self] at htask₁
      obtain ⟨task₀, htask₀, rfl⟩ := Option.map_eq_some_iff.mp htask₁
      exact ⟨task₀, hi ▸ htask₀, hcreate, hroute⟩
    · rw [update_of_ne hi] at htask₁
      exact ⟨task₁, htask₁, hcreate, hroute⟩

theorem getMultiTasksData_ids (m : TaskManager) (svc : Service) (ids : List UInt32) :
    (m.getMultiTasksData svc ids).map Item.id = ids.filter fun id => (m.table id).isSome := by
  induction ids with
  | nil => rfl
  | cons id ids ih =>
    simp only [getMultiTasksData] at ih ⊢
    cases htask : m.table id with
    | none => simp [htask, ih]
    | some task => simp [htask, ih]

theorem abnormalTasks_sublist (m : TaskManager) (items : List Item) :
    m.abnormalTasks items <+ items.map Item.id :=
  List.filter_sublist

end TaskManager

namespace Conn

theorem unanswered_ids (outstanding items : List Item) :
    (unanswered outstanding items).map Item.id =
      (outstanding.map Item.id).filter (· ∉ items.map Item.id) := by
  rw [unanswered, List.filter_map]
  rfl

theorem names_subset {items outstanding : List Item} (h : Names items outstanding) :
    items.map Item.id ⊆ outstanding.map Item.id := by
  intro i hi
  obtain ⟨item, hitem, rfl⟩ := List.mem_map.mp hi
  exact h item hitem

theorem sendJobs_ids (items : List Item) :
    (items.map fun item => Job.send item.id).map Job.id = items.map Item.id := by
  simp [Job.id]

theorem notifyJobs_ids (ids : List UInt32) : (ids.map Job.notify).map Job.id = ids := by
  simp [Function.comp_def, Job.id]

namespace Move

variable {svc : Service} {m m' : TaskManager} {c c' : Conn} {act : ConnAction}
  {touched : List UInt32}

theorem owner (h : Move svc m c act touched m' c') : m'.owner = m.owner := by
  cases h <;> rfl

theorem runtime (h : Move svc m c act touched m' c') : c'.runtime = c.runtime := by
  cases h <;> rfl

theorem streamSenders (h : Move svc m c act touched m' c') :
    m'.streamSenders = m.streamSenders := by
  cases h <;> rfl

theorem currentId (h : Move svc m c act touched m' c') : m'.currentId = m.currentId := by
  cases h <;> rfl

theorem allocated (h : Move svc m c act touched m' c') : m'.allocated = m.allocated := by
  cases h <;> rfl

theorem table (h : Move svc m c act touched m' c') {i : UInt32} {task : Task}
    (htask : m'.table i = some task) : ∃ task₀, m.table i = some task₀ ∧
      task.createAt = task₀.createAt ∧ task.route = task₀.route := by
  cases h
  case updateNormal => exact TaskManager.updateTable_eq_some htask
  case updateAbnormal => exact TaskManager.updateTable_eq_some htask
  case remove id jobs next hp =>
    exact ⟨task, (of_update_none htask).2, rfl, rfl⟩
  all_goals exact ⟨task, htask, rfl, rfl⟩

theorem notifiers (h : Move svc m c act touched m' c') {i : UInt32} {n : ℕ}
    (hn : m'.notifiers i = some n) : m.notifiers i = some n := by
  cases h
  case take id h' jobs next hp hnot =>
    exact (of_update_none hn).2
  all_goals exact hn

theorem ids_subperm {point : Point} (h : point.ids <+ c.point.ids) :
    { c with point := point }.ids <+~ c.ids :=
  (h.append_right _).subperm

theorem panic_subperm (c : Conn) : c.panic.ids <+~ c.ids :=
  (List.nil_sublist _).subperm

theorem custody (h : Move svc m c act touched m' c') (hnodup : c.ids.Nodup) :
    (m'.queues = m.queues ∧ c'.ids <+~ c.ids) ∨
      (∃ id queue, m.queues c.runtime = id :: queue ∧
        m'.queues = update m.queues c.runtime queue ∧ c'.ids <+~ id :: c.ids) ∨
      ∃ id r, m'.queues = update m.queues r (m.queues r ++ [id]) ∧ id :: c'.ids <+~ c.ids := by
  have hout : (c.outstanding.map Item.id).Nodup := (List.nodup_append.mp hnodup).2.1
  cases h
  case recv ids queue id point hp hq hpoint =>
    refine Or.inr (Or.inl ⟨id, queue, hq, rfl, ?_⟩)
    have hids : point.ids = ids ++ [id] := by
      rcases hpoint with hpoint | hpoint <;> rw [hpoint] <;> rfl
    rw [Conn.ids, Conn.ids, hids, hp]
    apply List.Perm.subperm
    rw [List.append_assoc]
    exact List.perm_middle
  case enqueue id r jobs next hp hroom =>
    refine Or.inr (Or.inr ⟨id, r, rfl, ?_⟩)
    simp only [ids, hp, Point.ids]
    exact List.Subperm.refl _
  all_goals refine Or.inl ⟨rfl, ?_⟩
  case fetch items point hpoint hp hitems =>
    apply ids_subperm
    rw [hp]
    rcases hpoint with ⟨-, hpoint⟩ | hpoint
    · rw [hpoint]
      exact List.nil_sublist _
    · rw [hpoint, hitems]
      simp only [Point.ids, TaskManager.getMultiTasksData_ids]
      exact List.filter_sublist
  case writeOk items hp hb =>
    simp only [ids, hp, Point.ids, List.map_append, List.nil_append]
    exact List.perm_append_comm.subperm
  case writeErr items hp =>
    simp only [ids, hp, Point.ids, sendJobs_ids, List.map_nil, List.append_nil]
    exact (List.sublist_append_left _ _).subperm
  case readReply streamed code items hp hcode hnames hnd =>
    simp only [ids, hp, Point.ids, List.nil_append, unanswered_ids]
    apply List.Nodup.subperm
    · refine List.nodup_append.mpr ⟨hnd, hout.filter _, ?_⟩
      intro a ha b hb hab
      rw [List.mem_filter, ← hab] at hb
      exact (of_decide_eq_true hb.2) ha
    · exact List.append_subset.mpr ⟨names_subset hnames, List.filter_subset_self _⟩
  case readCut code items hp hnames hnd =>
    simp only [ids, hp, Point.ids, List.nil_append, List.map_nil, List.append_nil]
    exact List.Nodup.subperm hnd (names_subset hnames)
  case readErr => exact (List.nil_sublist _).subperm
  case updateNormal items hp =>
    apply ids_subperm
    rw [hp]
    simp only [Point.ids, sendJobs_ids]
    exact List.Sublist.refl _
  case updateAbnormal code items hp hcode =>
    apply ids_subperm
    rw [hp]
    simp only [Point.ids, notifyJobs_ids]
    exact m.abnormalTasks_sublist items
  case workDone next hp =>
    apply ids_subperm
    rw [hp]
    cases next <;> exact List.Sublist.refl _
  case sendPanic => exact panic_subperm c
  case signalPanic => exact panic_subperm c
  all_goals
    apply ids_subperm
    simp [*, Point.ids, Job.id]

theorem ids_subset (h : Move svc m c act touched m' c') (hnodup : c.ids.Nodup) {i : UInt32}
    (hi : i ∈ c'.ids) : i ∈ c.ids ∨ i ∈ m.queues c.runtime := by
  rcases h.custody hnodup with ⟨-, hsub⟩ | ⟨id, queue, hq, -, hsub⟩ | ⟨id, r, -, hsub⟩
  · exact Or.inl (hsub.subset hi)
  · rcases List.mem_cons.mp (hsub.subset hi) with hid | hi
    · rw [hq, hid]
      exact Or.inr List.mem_cons_self
    · exact Or.inl hi
  · exact Or.inl (hsub.subset (List.mem_cons_of_mem _ hi))

theorem named (h : Move svc m c act touched m' c') (hc : c.Named m.owner)
    (hnot : ∀ {i n}, m.notifiers i = some n → m.owner i = some n)
    (hsen : ∀ {i n}, m.streamSenders i = some n → m.owner i = some n) : c'.Named m.owner := by
  cases h
  case readEvents streamed items hp hnames =>
    refine ⟨by simp, ?_⟩
    intro e he
    obtain ⟨item, hitem, rfl⟩ := List.mem_map.mp he
    exact List.mem_append_right _ (hnames item hitem)
  case updateAbnormal code items hp hcode =>
    refine ⟨by simp, ?_⟩
    intro e he
    obtain ⟨p, hmem, rfl⟩ := List.mem_map.mp he
    apply List.mem_append_left
    simp only [Point.ids, notifyJobs_ids]
    exact (List.of_mem_zip hmem).1
  case lookup id event todo jobs next hp =>
    simp only [Named, hp] at hc
    refine ⟨?_, ?_⟩
    · intro p hmem
      obtain ⟨n, hn, rfl⟩ := Option.map_eq_some_iff.mp (Option.mem_def.mp hmem)
      have hid := hc.2 _ List.mem_cons_self
      simp only [ids, hp, Point.ids] at hid
      exact ⟨hsen hn, hid⟩
    · intro e he
      have hid := hc.2 e (List.mem_cons_of_mem _ he)
      simp only [ids, hp, Point.ids] at hid
      exact hid
  case push p todo jobs next hp hopen =>
    simp only [Named, hp, ids, Point.ids] at hc
    exact ⟨by simp, hc.2⟩
  case pushClosed p todo jobs next hp hopen =>
    simp only [Named, hp, ids, Point.ids] at hc
    exact ⟨by simp, hc.2⟩
  case take hp hn => exact hnot hn
  case checkOpen hp hopen =>
    simp only [Named, hp] at hc
    exact hc
  case recv hp hq hpoint => rcases hpoint with hpoint | hpoint <;> simp [Named, hpoint]
  case fetch hpoint hp hitems => rcases hpoint with ⟨-, hpoint⟩ | hpoint <;> simp [Named, hpoint]
  case workDone next hp => cases next <;> trivial
  all_goals trivial

end Move

end Conn

namespace State

variable {svc : Service} {s : State} {k : ℕ} {act : ConnAction} {touched : List UInt32}
  {m' : TaskManager} {c' : Conn}

@[simp] theorem setConn_conns_self (s : State) (k : ℕ) (m : TaskManager) (c : Conn) :
    (s.setConn k m c).conns k = c :=
  update_self _ _ _

theorem setConn_conns_ne (s : State) {k j : ℕ} (m : TaskManager) (c : Conn) (h : j ≠ k) :
    (s.setConn k m c).conns j = s.conns j :=
  update_of_ne h _ _

theorem holds_setConn (s : State) (m : TaskManager) (c : Conn) {a : Holder} (ha : a ≠ .conn k)
    (hq : ∀ r, a = .queue r → m.queues r = s.manager.queues r) :
    (s.setConn k m c).holds a = s.holds a := by
  cases a with
  | queue r => exact hq r rfl
  | conn j =>
    have hj : j ≠ k := by
      rintro rfl
      exact ha rfl
    exact congrArg Conn.ids (s.setConn_conns_ne m c hj)

theorem Coherent.conn_exclusive (hs : s.Coherent)
    (h : Conn.Move svc s.manager (s.conns k) act touched m' c') :
    Custody.Exclusive (s.setConn k m' c').holds := by
  have hnodup : (s.conns k).ids.Nodup := hs.exclusive.nodup (.conn k)
  rcases h.custody hnodup with ⟨hq, hsub⟩ | ⟨id, queue, hqueue, hq, hsub⟩ | ⟨id, r, hq, hsub⟩
  · apply hs.exclusive.release
    intro a
    by_cases ha : a = .conn k
    · rw [ha, holds, setConn_conns_self]
      exact hsub
    · rw [holds_setConn s m' c' ha fun r _ => by rw [hq]]
  · refine hs.exclusive.transfer (a := .queue (s.conns k).runtime) (b := .conn k) (i := id)
      (by simp) ?_ ?_ ?_
    · change id :: m'.queues _ <+~ s.manager.queues _
      rw [hq, update_self, hqueue]
    · rw [holds, setConn_conns_self]
      exact hsub
    · intro a hqa hka
      rw [holds_setConn s m' c' hka]
      intro r har
      rw [hq, update_of_ne]
      rintro rfl
      exact hqa har
  · refine hs.exclusive.transfer (a := .conn k) (b := .queue r) (i := id) (by simp) ?_ ?_ ?_
    · rw [holds, setConn_conns_self]
      exact hsub
    · change m'.queues r <+~ id :: s.manager.queues r
      rw [hq, update_self]
      exact (List.perm_append_singleton _ _).subperm
    · intro a hka hra
      rw [holds_setConn s m' c' hka]
      intro r' har
      rw [hq, update_of_ne]
      rintro rfl
      exact hra har

theorem Coherent.conn_origin (hs : s.Coherent)
    (h : Conn.Move svc s.manager (s.conns k) act touched m' c') {a : Holder} {i : UInt32}
    (hi : i ∈ (s.setConn k m' c').holds a) : ∃ b, i ∈ s.holds b := by
  have hnodup : (s.conns k).ids.Nodup := hs.exclusive.nodup (.conn k)
  by_cases ha : a = .conn k
  · rw [ha, holds, setConn_conns_self] at hi
    rcases h.ids_subset hnodup hi with hi | hi
    · exact ⟨.conn k, hi⟩
    · exact ⟨.queue _, hi⟩
  · cases a with
    | conn j =>
      rw [holds_setConn s m' c' ha (by simp)] at hi
      exact ⟨.conn j, hi⟩
    | queue r =>
      replace hi : i ∈ m'.queues r := hi
      rcases h.custody hnodup with ⟨hq, -⟩ | ⟨id, queue, hqueue, hq, -⟩ | ⟨id, r', hq, hsub⟩
      · exact ⟨.queue r, by rwa [hq] at hi⟩
      · by_cases hr : r = (s.conns k).runtime
        · rw [hq, hr, update_self] at hi
          refine ⟨.queue (s.conns k).runtime, ?_⟩
          rw [holds, hqueue]
          exact List.mem_cons_of_mem _ hi
        · rw [hq, update_of_ne hr] at hi
          exact ⟨.queue r, hi⟩
      · by_cases hr : r = r'
        · rw [hq, hr, update_self, List.mem_append, List.mem_singleton] at hi
          rcases hi with hi | hi
          · exact ⟨.queue r', hi⟩
          · exact ⟨.conn k, hsub.subset (hi ▸ List.mem_cons_self)⟩
        · rw [hq, update_of_ne hr] at hi
          exact ⟨.queue r, hi⟩

theorem Coherent.conn (hs : s.Coherent)
    (h : Conn.Move svc s.manager (s.conns k) act touched m' c') :
    (s.setConn k m' c').Coherent where
  exclusive := hs.conn_exclusive h
  owned := by
    intro i n hn
    rw [setConn, h.owner] at hn
    exact hs.owned hn
  entry := by
    intro i task htask
    obtain ⟨task₀, htask₀, hcreate, -⟩ := h.table htask
    rw [setConn, h.owner, hcreate]
    exact hs.entry htask₀
  notifier := by
    intro i n hn
    rw [setConn, h.owner]
    exact hs.notifier (h.notifiers hn)
  sender := by
    intro i n hn
    rw [setConn, h.streamSenders] at hn
    rw [setConn, h.owner]
    exact hs.sender hn
  held := by
    intro i a hi
    obtain ⟨b, hb⟩ := hs.conn_origin h hi
    rw [setConn, h.owner]
    exact hs.held hb
  active := by
    intro n hn
    rw [setConn, h.owner]
    exact hs.active hn
  unheld := by
    intro n hn a ha
    obtain ⟨b, hb⟩ := hs.conn_origin h ha
    exact hs.unheld hn b hb
  named := by
    intro j
    rw [setConn, h.owner]
    by_cases hj : j = k
    · rw [hj]
      simp only [update_self]
      exact h.named (hs.named k) hs.notifier hs.sender
    · simp only [update_of_ne hj]
      exact hs.named j
  absent := hs.absent

end State

namespace Request

theorem given_of_hasResponse {q : Request} (h : q.hasResponse) : q.handler.given := by
  unfold hasResponse at h
  cases hq : q.handler <;> simp_all [Handler.given]

namespace Move

variable {svc : Service} {m m' : TaskManager} {h : ℕ} {q q' : Request} {clones : Bool}
  {act : RequestAction}

theorem given (hm : Move svc m h q clones act m' q') : q'.handler.given := by
  cases hm
  case accept => cases q.isSse <;> rfl
  case resume => cases q.isSse <;> rfl
  case deleteTask exit hq =>
    cases exit <;> simp only [afterDelete]
    · cases q.isSse <;> rfl
    · rfl
    · rfl
  case receiveEvent hresp hbuffer => exact given_of_hasResponse hresp
  case endStream hresp _ _ _ => exact given_of_hasResponse hresp
  case leave hresp => exact given_of_hasResponse hresp
  all_goals rfl

variable (hm : Move svc m h q clones act m' q')
include hm

theorem table {i : UInt32} {task : Task} (ht : m'.table i = some task) :
    m.table i = some task ∨ (i = q.id ∧ task.createAt = h ∧ q.handler.active) := by
  cases hm
  case insertTask hq =>
    rcases of_update_some ht with ⟨hid, rfl⟩ | ⟨-, ht⟩
    · exact Or.inr ⟨hid, rfl, by simp [hq, Handler.active]⟩
    · exact Or.inl ht
  case takeTask => exact Or.inl (of_update_none ht).2
  case deleteTask => exact Or.inl (of_update_none ht).2
  all_goals exact Or.inl ht

theorem notifiers {i : UInt32} {n : ℕ} (hn : m'.notifiers i = some n) :
    m.notifiers i = some n ∨ (i = q.id ∧ n = h ∧ q.handler.active) := by
  cases hm
  case insertNotifier hq =>
    rcases of_update_some hn with ⟨hid, rfl⟩ | ⟨-, hn⟩
    · exact Or.inr ⟨hid, rfl, by simp [hq, Handler.active]⟩
    · exact Or.inl hn
  case deleteNotifier => exact Or.inl (of_update_none hn).2
  all_goals exact Or.inl hn

theorem streamSenders {i : UInt32} {n : ℕ} (hn : m'.streamSenders i = some n) :
    m.streamSenders i = some n ∨ (i = q.id ∧ n = h ∧ q.handler.active) := by
  cases hm
  case insertStream hq =>
    rcases of_update_some hn with ⟨hid, rfl⟩ | ⟨-, hn⟩
    · exact Or.inr ⟨hid, rfl, by simp [hq, Handler.active]⟩
    · exact Or.inl hn
  case deleteStream => exact Or.inl (of_update_none hn).2
  all_goals exact Or.inl hn

theorem queues : m'.queues = m.queues ∨
    ∃ r, m'.queues = update m.queues r (m.queues r ++ [q.id]) ∧ q.handler.entering ∧
      q'.handler.entering = false := by
  cases hm
  case accept route r hq _ _ _ =>
    refine Or.inr ⟨r, rfl, by simp [hq, Handler.entering], ?_⟩
    cases q.isSse <;> rfl
  all_goals exact Or.inl rfl

variable (hne : q.handler ≠ .takeId)
include hne

theorem id : q'.id = q.id := by
  cases hm <;> first | rfl | contradiction

theorem owner : m'.owner = m.owner := by
  cases hm <;> first | rfl | contradiction

theorem active (ha : q'.handler.active) : q.handler.active := by
  cases hm
  case deleteTask hq => simp [hq, Handler.active]
  all_goals simp_all [Handler.active]

theorem entering (he : q'.handler.entering) : q.handler.entering := by
  cases hm
  case accept hq _ _ _ => simp [hq, Handler.entering]
  case resume => cases hq : q.isSse <;> simp_all [Handler.entering]
  case deleteTask exit hq =>
    cases exit <;> cases hs : q.isSse <;> simp_all [Handler.entering, afterDelete]
  all_goals simp_all [Handler.entering]

end Move

end Request

namespace State

variable {svc : Service} {s : State} {h : ℕ} {act : RequestAction} {m' : TaskManager}
  {q' : Request} {clones : Bool}

@[simp] theorem setRequest_requests_self (s : State) (h : ℕ) (m : TaskManager) (q : Request) :
    (s.setRequest h m q).requests h = q :=
  update_self _ _ _

theorem setRequest_requests_ne (s : State) {h n : ℕ} (m : TaskManager) (q : Request) (hn : n ≠ h) :
    (s.setRequest h m q).requests n = s.requests n :=
  update_of_ne hn _ _

theorem Coherent.active_ne (hs : s.Coherent) {h n : ℕ} (hh : (s.requests h).handler.active)
    (hn : (s.requests n).handler.active) (hne : n ≠ h) :
    (s.requests n).id ≠ (s.requests h).id := by
  intro heq
  have hown := hs.active hn
  rw [heq, hs.active hh] at hown
  exact hne (Option.some.inj hown).symm

section Request

variable (hs : s.Coherent)
  (hm : Request.Move svc s.manager h (s.requests h) clones act m' q')
include hs hm

theorem Coherent.request_custody :
    Custody.Exclusive (s.setRequest h m' q').holds ∧
      ∀ a i, i ∈ (s.setRequest h m' q').holds a → i ∈ s.holds a ∨
        (i = (s.requests h).id ∧ (s.requests h).handler.entering ∧
          q'.handler.entering = false) := by
  rcases hm.queues with hq | ⟨r, hq, hent, hent'⟩
  · have hholds : (s.setRequest h m' q').holds = s.holds := by
      funext a
      cases a with
      | queue r => exact congrFun hq r
      | conn k => rfl
    rw [hholds]
    exact ⟨hs.exclusive, fun a i hi => Or.inl hi⟩
  · have hqueue : (s.setRequest h m' q').holds (.queue r) =
        s.manager.queues r ++ [(s.requests h).id] := by
      change m'.queues r = _
      rw [hq, update_self]
    have hrest : ∀ a, a ≠ .queue r → (s.setRequest h m' q').holds a = s.holds a := by
      intro a ha
      cases a with
      | queue r' =>
        change m'.queues r' = _
        rw [hq, update_of_ne]
        · rfl
        · rintro rfl
          exact ha rfl
      | conn k => rfl
    constructor
    · refine hs.exclusive.acquire (b := .queue r) (hs.unheld hent) ?_ ?_
      · rw [hqueue]
        exact (List.perm_append_singleton _ _).subperm
      · intro a ha
        rw [hrest a ha]
    · intro a i hi
      by_cases ha : a = .queue r
      · rw [ha, hqueue, List.mem_append, List.mem_singleton] at hi
        rcases hi with hi | hi
        · exact Or.inl (ha ▸ hi)
        · exact Or.inr ⟨hi, hent, hent'⟩
      · rw [hrest a ha] at hi
        exact Or.inl hi

theorem Coherent.request (hne : (s.requests h).handler ≠ .takeId) : (s.setRequest h m' q').Coherent := by
  have hcustody := hs.request_custody hm
  have howner := hm.owner hne
  exact
    { exclusive := hcustody.1
      owned := by
        intro i n hn
        replace hn : m'.owner i = some n := hn
        rw [howner] at hn
        by_cases hh : n = h
        · rw [hh, setRequest_requests_self, hm.id hne]
          exact ⟨(hs.owned (hh ▸ hn)).1, hm.given⟩
        · rw [setRequest_requests_ne _ _ _ hh]
          exact hs.owned hn
      entry := by
        intro i task htask
        change m'.owner i = _
        rw [howner]
        rcases hm.table htask with htask | ⟨hi, hcreate, hact⟩
        · exact hs.entry htask
        · rw [hi, hcreate]
          exact hs.active hact
      notifier := by
        intro i n hn
        change m'.owner i = _
        rw [howner]
        rcases hm.notifiers hn with hn | ⟨hi, rfl, hact⟩
        · exact hs.notifier hn
        · rw [hi]
          exact hs.active hact
      sender := by
        intro i n hn
        change m'.owner i = _
        rw [howner]
        rcases hm.streamSenders hn with hn | ⟨hi, rfl, hact⟩
        · exact hs.sender hn
        · rw [hi]
          exact hs.active hact
      held := by
        intro i a hi
        change (m'.owner i).isSome
        rw [howner]
        rcases hcustody.2 a i hi with hi | ⟨hi, hent, -⟩
        · exact hs.held hi
        · rw [hi, hs.active (Handler.active_of_entering hent)]
          rfl
      active := by
        intro n hn
        change m'.owner _ = _
        rw [howner]
        by_cases hh : n = h
        · rw [hh, setRequest_requests_self] at hn ⊢
          rw [hm.id hne]
          exact hs.active (hm.active hne hn)
        · rw [setRequest_requests_ne _ _ _ hh] at hn ⊢
          exact hs.active hn
      unheld := by
        intro n hn a ha
        by_cases hh : n = h
        · rw [hh, setRequest_requests_self] at hn ha
          rw [hm.id hne] at ha
          rcases hcustody.2 a _ ha with ha | ⟨-, -, hent'⟩
          · exact hs.unheld (hm.entering hne hn) a ha
          · rw [hent'] at hn
            cases hn
        · rw [setRequest_requests_ne _ _ _ hh] at hn ha
          rcases hcustody.2 a _ ha with ha | ⟨heq, hent, -⟩
          · exact hs.unheld hn a ha
          · exact hs.active_ne (Handler.active_of_entering hent)
              (Handler.active_of_entering hn) hh heq
      named := by
        intro k
        change Conn.Named m'.owner (s.conns k)
        rw [howner]
        exact hs.named k
      absent := by
        intro n hn
        have habsent := hs.absent hn
        by_cases hh : n = h
        · rw [hh] at habsent
          exfalso
          rw [habsent] at hm
          cases hm <;> simp_all [Request.absent, Request.hasResponse]
        · rw [setRequest_requests_ne _ _ _ hh]
          exact habsent }

end Request

theorem Coherent.takeId (hs : s.Coherent) (hq : (s.requests h).handler = .takeId)
    (hfresh : ¬ s.InUse s.manager.currentId) :
    (s.setRequest h (s.manager.takeId h)
      { s.requests h with id := s.manager.currentId, handler := .insertNotifier }).Coherent := by
  simp only [InUse, not_or, not_exists, not_and, Option.not_isSome_iff_eq_none] at hfresh
  obtain ⟨htable, hnot, hsen, hheld, hact⟩ := hfresh
  have howner : ∀ {i n}, i ≠ s.manager.currentId →
      (update s.manager.owner s.manager.currentId (some h) i = some n ↔
        s.manager.owner i = some n) := by
    intro i n hi
    rw [update_of_ne hi]
  have hne : ∀ {i n}, s.manager.owner i = some n → n ≠ h := by
    rintro i n hn rfl
    have hgiven := (hs.owned hn).2
    simp [hq, Handler.given] at hgiven
  have hheld_ne : ∀ {i a}, i ∈ s.holds a → i ≠ s.manager.currentId := by
    rintro i a hi rfl
    exact hheld a hi
  exact
    { exclusive := hs.exclusive
      owned := by
        intro i n hn
        by_cases hi : i = s.manager.currentId
        · replace hn : update s.manager.owner s.manager.currentId (some h) i = some n := hn
          rw [hi, update_self] at hn
          cases hn
          rw [setRequest_requests_self]
          exact ⟨hi.symm, rfl⟩
        · have hn := (howner hi).mp hn
          rw [setRequest_requests_ne _ _ _ (hne hn)]
          exact hs.owned hn
      entry := by
        intro i task htask
        refine (howner ?_).mpr (hs.entry htask)
        rintro rfl
        exact absurd (htable.symm.trans htask) (by simp)
      notifier := by
        intro i n hn
        refine (howner ?_).mpr (hs.notifier hn)
        rintro rfl
        exact absurd (hnot.symm.trans hn) (by simp)
      sender := by
        intro i n hn
        refine (howner ?_).mpr (hs.sender hn)
        rintro rfl
        exact absurd (hsen.symm.trans hn) (by simp)
      held := by
        intro i a hi
        obtain ⟨n, hn⟩ := Option.isSome_iff_exists.mp (hs.held hi)
        exact Option.isSome_iff_exists.mpr ⟨n, (howner (hheld_ne hi)).mpr hn⟩
      active := by
        intro n hn
        by_cases hh : n = h
        · rw [hh, setRequest_requests_self]
          exact update_self _ _ _
        · rw [setRequest_requests_ne _ _ _ hh] at hn ⊢
          refine (howner ?_).mpr (hs.active hn)
          intro hid
          exact hact n hid hn
      unheld := by
        intro n hn a ha
        by_cases hh : n = h
        · rw [hh, setRequest_requests_self] at ha
          exact hheld a ha
        · rw [setRequest_requests_ne _ _ _ hh] at hn ha
          exact hs.unheld hn a ha
      named := by
        intro k
        have hk := hs.named k
        have hids : ∀ {i}, i ∈ (s.conns k).ids → i ≠ s.manager.currentId := fun hi =>
          hheld_ne (a := .conn k) hi
        change Conn.Named (update s.manager.owner s.manager.currentId (some h)) (s.conns k)
        unfold Conn.Named at hk ⊢
        cases hp : (s.conns k).point with
        | events pushing todo jobs next =>
          simp only [hp] at hk ⊢
          exact ⟨fun p hmem => ⟨(howner (hids (hk.1 p hmem).2)).mpr (hk.1 p hmem).1,
            (hk.1 p hmem).2⟩, hk.2⟩
        | check id n jobs next =>
          simp only [hp] at hk ⊢
          exact (howner (hids (by simp [Conn.ids, hp, Point.ids]))).mpr hk
        | signal id n jobs next =>
          simp only [hp] at hk ⊢
          exact (howner (hids (by simp [Conn.ids, hp, Point.ids]))).mpr hk
        | _ => trivial
      absent := by
        intro n hn
        by_cases hh : n = h
        · have habsent := hs.absent hn
          rw [hh] at habsent
          simp [habsent, Request.absent] at hq
        · rw [setRequest_requests_ne _ _ _ hh]
          exact hs.absent hn }

theorem submit_handler (m : TaskManager) (h : ℕ) (isSse : Bool) (key : String) (body : Bytes) :
    (Request.submit m h isSse key body).2.handler = .takeId ∨
      (Request.submit m h isSse key body).2.handler = .done .noData := by
  unfold Request.submit
  split
  · exact Or.inr rfl
  · split <;> exact Or.inl rfl

theorem submit_manager (m : TaskManager) (h : ℕ) (isSse : Bool) (key : String) (body : Bytes) :
    (Request.submit m h isSse key body).1 = m ∨
      (Request.submit m h isSse key body).1 = m.count h 1 := by
  unfold Request.submit
  split
  · exact Or.inl rfl
  · split
    · exact Or.inl rfl
    · exact Or.inr rfl

theorem Coherent.submit (hs : s.Coherent) {m : TaskManager} {q : Request}
    (hm : m = s.manager ∨ m = s.manager.count s.submitted 1)
    (hq : q.handler = .takeId ∨ q.handler = .done .noData) :
    ({ s.setRequest s.submitted m q with submitted := s.submitted + 1 } : State).Coherent := by
  have hne : ∀ {i n}, s.manager.owner i = some n → n ≠ s.submitted := by
    rintro i n hn rfl
    have hgiven := (hs.owned hn).2
    simp [hs.absent le_rfl, Request.absent, Handler.given] at hgiven
  have hactive : q.handler.active = false := by
    rcases hq with hq | hq <;> simp [hq, Handler.active]
  have hother : ∀ {n}, n ≠ s.submitted →
      (s.setRequest s.submitted m q).requests n = s.requests n := fun hn =>
    s.setRequest_requests_ne m q hn
  have hself : (s.setRequest s.submitted m q).requests s.submitted = q :=
    s.setRequest_requests_self s.submitted m q
  have howned : ∀ {i n}, s.manager.owner i = some n →
      ((s.setRequest s.submitted m q).requests n).id = i ∧
        ((s.setRequest s.submitted m q).requests n).handler.given := by
    intro i n hn
    rw [hother (hne hn)]
    exact hs.owned hn
  have hact : ∀ {n}, ((s.setRequest s.submitted m q).requests n).handler.active →
      s.manager.owner ((s.setRequest s.submitted m q).requests n).id = some n := by
    intro n hn
    by_cases hh : n = s.submitted
    · rw [hh, hself, hactive] at hn
      cases hn
    · rw [hother hh] at hn ⊢
      exact hs.active hn
  have hunheld : ∀ {n}, ((s.setRequest s.submitted m q).requests n).handler.entering → ∀ a,
      ((s.setRequest s.submitted m q).requests n).id ∉ s.holds a := by
    intro n hn
    by_cases hh : n = s.submitted
    · rw [hh, hself] at hn
      have hact' := Handler.active_of_entering hn
      rw [hactive] at hact'
      cases hact'
    · rw [hother hh] at hn ⊢
      exact hs.unheld hn
  have habsent : ∀ {n}, s.submitted + 1 ≤ n →
      (s.setRequest s.submitted m q).requests n = .absent := by
    intro n hn
    rw [hother (by omega)]
    exact hs.absent (by omega)
  have hholds : ({ s.setRequest s.submitted m q with submitted := s.submitted + 1 } : State).holds =
      s.holds := by
    funext a
    rcases hm with rfl | rfl <;> cases a <;> rfl
  constructor
  case exclusive =>
    rw [hholds]
    exact hs.exclusive
  case held =>
    intro i a hi
    rw [hholds] at hi
    rcases hm with rfl | rfl <;> exact hs.held hi
  case unheld =>
    rw [hholds]
    exact hunheld
  case absent => exact habsent
  all_goals rcases hm with rfl | rfl
  case owned => exact howned
  case owned => exact howned
  case entry => exact hs.entry
  case entry => exact hs.entry
  case notifier => exact hs.notifier
  case notifier => exact hs.notifier
  case sender => exact hs.sender
  case sender => exact hs.sender
  case active => exact hact
  case active => exact hact
  case named => exact hs.named
  case named => exact hs.named

@[simp] theorem accept_conns_self (s : State) (r : ℕ) :
    (s.accept r).conns s.connected = Conn.accept r :=
  update_self _ _ _

theorem accept_conns_ne (s : State) (r : ℕ) {k : ℕ} (hk : k ≠ s.connected) :
    (s.accept r).conns k = s.conns k :=
  update_of_ne hk _ _

theorem accept_holds (r : ℕ) (hconn : s.conns s.connected = .absent) :
    (s.accept r).holds = s.holds := by
  funext a
  cases a with
  | queue r => rfl
  | conn k =>
    by_cases hk : k = s.connected
    · rw [hk, holds, holds, accept_conns_self, hconn]
      rfl
    · rw [holds, holds, s.accept_conns_ne r hk]

theorem Coherent.accept (hs : s.Coherent) (r : ℕ) (hconn : s.conns s.connected = .absent) :
    (s.accept r).Coherent :=
  { hs with
    exclusive := by
      rw [accept_holds r hconn]
      exact hs.exclusive
    held := by
      intro i a hi
      rw [accept_holds r hconn] at hi
      exact hs.held hi
    unheld := by
      rw [accept_holds r hconn]
      exact hs.unheld
    named := by
      intro k
      by_cases hk : k = s.connected
      · rw [hk, accept_conns_self]
        trivial
      · rw [s.accept_conns_ne r hk]
        exact hs.named k }

theorem coherent_start : start.Coherent where
  exclusive := by
    refine ⟨fun a => ?_, fun {a b i} ha => ?_⟩
    · cases a <;> exact List.nodup_nil
    · cases a <;> exact absurd ha List.not_mem_nil
  owned := by
    intro i h hi
    cases hi
  entry := by
    intro i task hi
    cases hi
  notifier := by
    intro i h hi
    cases hi
  sender := by
    intro i h hi
    cases hi
  held := by
    intro i a hi
    cases a <;> exact absurd hi List.not_mem_nil
  active := by
    intro h hh
    cases hh
  unheld := by
    intro h hh
    cases hh
  named := fun _ => trivial
  absent := fun _ => rfl

def Unaccepted (s : State) : Prop := ∀ k, s.connected ≤ k → s.conns k = .absent

theorem Unaccepted.step (hs : s.Unaccepted) {a : Action} {s' : State}
    (h : s.step svc a = some s') : s'.Unaccepted := by
  cases a with
  | submit isSse key body =>
    cases h
    exact hs
  | request h act =>
    obtain ⟨p, -, rfl⟩ := Option.map_eq_some_iff.mp h
    exact hs
  | connect r =>
    simp only [State.step] at h
    split at h
    · cases h
      intro k hk
      have hk : s.connected + 1 ≤ k := hk
      rw [s.accept_conns_ne r (by omega)]
      exact hs k (by omega)
    · cases h
  | conn j act =>
    obtain ⟨⟨m, c⟩, hstep, rfl⟩ := Option.map_eq_some_iff.mp h
    intro k hk
    by_cases hkj : k = j
    · have habsent := hs k hk
      rw [← hkj, habsent] at hstep
      cases act <;> simp [Conn.step, Conn.absent, Conn.run, Conn.recv, Conn.timeUp, Conn.writeOk,
        Conn.writeErr, Conn.readEvents, Conn.readReply, Conn.readErr] at hstep
    · rw [s.setConn_conns_ne m c hkj]
      exact hs k hk

theorem Coherent.step (hs : s.Coherent) (hconns : s.Unaccepted) {a : Action}
    (hfresh : s.FreshId a) {s' : State} (h : s.step svc a = some s') : s'.Coherent := by
  cases a with
  | submit isSse key body =>
    obtain rfl := Option.some.inj h
    exact hs.submit (submit_manager _ _ _ _ _) (submit_handler _ _ _ _ _)
  | request n act =>
    obtain ⟨⟨m, q⟩, hstep, rfl⟩ := Option.map_eq_some_iff.mp h
    have hm := Request.move_of_step hstep
    by_cases hq : (s.requests n).handler = .takeId
    · cases hm
      case takeId => exact hs.takeId hq (hfresh n rfl hq)
      all_goals simp_all [Request.hasResponse]
    · exact hs.request hm hq
  | connect r =>
    simp only [State.step] at h
    split at h
    · cases h
      exact hs.accept r (hconns _ le_rfl)
    · cases h
  | conn k act =>
    obtain ⟨⟨m, c⟩, hstep, rfl⟩ := Option.map_eq_some_iff.mp h
    obtain ⟨ids, hm⟩ := Conn.move_of_step hstep
    exact hs.conn hm

end State

end Mosec
