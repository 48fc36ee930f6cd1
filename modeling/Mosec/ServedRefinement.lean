import Mosec.Locality

namespace Mosec.State

open Function (update update_self update_of_ne)

variable {svc : Service} {s : State} {k h : ℕ} {m' : TaskManager} {c' : Conn}

/-- The ids that an action takes away with a failing connection or its worker. -/
def loses (svc : Service) (s : State) : Action → List UInt32
  | .conn k .run =>
    match (s.conns k).run svc s.manager with
    | some (_, c) => if c.point = .panicked then (s.conns k).ids else []
    | none => []
  | .conn k .writeErr => (s.conns k).outstanding.map Item.id
  | .conn k (.readErr _ items) =>
    match (s.conns k).point with
    | .read true => (Conn.unanswered (s.conns k).outstanding items).map Item.id
    | _ => (s.conns k).outstanding.map Item.id
  | _ => []

/-- What an action must have been for the submission `h` to take a step with a given label. -/
def Caused (svc : Service) (s : State) (a : Action) (h : ℕ) : Label → Prop
  | .act => True
  | .submit key body => h = s.submitted ∧ ∃ isSse, a = .submit isSse key body
  | .disconnect => a = .request h .disconnect
  | .leave => a = .request h .leave
  | .elapse => a = .request h .elapse
  | .lose => (s.requests h).id ∈ s.loses svc a
  | .check => ∃ k jobs next, a = .conn k .run ∧
      (s.conns k).point = .check (s.requests h).id h jobs next
  | .lookup => ∃ k event todo jobs next, a = .conn k .run ∧
      (s.conns k).point = .events none (((s.requests h).id, event) :: todo) jobs next
  | .report own given => ∃ k code items, a = .conn k .run ∧
      (s.conns k).point = .update code items ∧ code ≠ .Normal ∧
      (∃ item ∈ items, item.id = (s.requests h).id ∧ item.data = own) ∧
      ∃ p ∈ (s.manager.abnormalTasks items).zip items,
        p.1 = (s.requests h).id ∧ p.2.data = given
  | .reply code data => ∃ k items,
      (a = .conn k (.readReply code items) ∨ a = .conn k (.readErr code items)) ∧
      ∃ item ∈ items, item.id = (s.requests h).id ∧ item.data = data
  | .hear => ∃ k act, a = .conn k act ∧ Conn.Hears s.manager (s.conns k) act h

theorem owner_of_carried {p : Place} {outbox : Outbox}
    (hp : (s.life h).carried = some (p, outbox)) :
    s.manager.owner (s.requests h).id = some h := by
  by_contra hown
  simp [life, hown] at hp

section Owned

variable (hs : s.Coherent) (hown : s.manager.owner (s.requests h).id = some h)

include hown in
theorem life_entry : (s.life h).entry = s.manager.table (s.requests h).id := by
  simp [life, hown]

include hown in
theorem life_carried : (s.life h).carried = s.carried (s.requests h).id := by
  simp [life, hown]

theorem shown_of_carried {v : Place × Outbox} (hp : (s.life h).carried = some v) :
    (∃ r, v = (.queued r, .empty)) ∨ ∃ k, (s.conns k).view (s.requests h).id = some v := by
  rw [life_carried (owner_of_carried hp)] at hp
  obtain ⟨b, hb⟩ := Custody.exists_of_locate hp
  cases b with
  | queue r =>
    simp only [shows] at hb
    split at hb
    · cases hb
      exact .inl ⟨r, rfl⟩
    · cases hb
  | conn k => exact .inr ⟨k, hb⟩

include hs hown in
theorem carried_of_view {p : Place} {outbox : Outbox}
    (hview : (s.conns k).view (s.requests h).id = some (p, outbox)) :
    (s.life h).carried = some (p, outbox) := by
  have hmem : (s.requests h).id ∈ (s.conns k).ids := by
    rw [← Conn.view_isSome, hview]
    rfl
  rw [life_carried hown, carried_conn hs.exclusive hmem, hview]

include hown in
theorem life_setConn (howner : m'.owner = s.manager.owner)
    (hsender : m'.streamSenders = s.manager.streamSenders) :
    (s.setConn k m' c').life h =
      { s.life h with
        entry := m'.table (s.requests h).id
        notifier := m'.notifiers (s.requests h).id == some h
        carried := (s.setConn k m' c').carried (s.requests h).id
        oneshot := m'.oneshots h
        stream := m'.streams h
        history := m'.history h } := by
  have howner' : (s.setConn k m' c').manager.owner = s.manager.owner := howner
  have hsender' : (s.setConn k m' c').manager.streamSenders = s.manager.streamSenders := hsender
  have hreq : (s.setConn k m' c').requests h = s.requests h := rfl
  simp only [life, howner', hsender', hreq, if_pos hown]
  rfl

theorem life_setConn_same (hown : s.manager.owner (s.requests h).id = some h)
    {carried : Option (Place × Outbox)}
    (hcarried : (s.setConn k s.manager c').carried (s.requests h).id = carried) :
    (s.setConn k s.manager c').life h = { s.life h with carried := carried } := by
  rw [life_setConn hown rfl rfl, hcarried]
  simp [life, hown]

end Owned

theorem setConn_carried (hs' : (s.setConn k m' c').Coherent) {i : UInt32} {p : Place}
    {o : Outbox} (hview : c'.view i = some (p, o)) :
    (s.setConn k m' c').carried i = some (p, o) := by
  have hmem : i ∈ ((s.setConn k m' c').conns k).ids := by
    rw [setConn_conns_self, ← Conn.view_isSome, hview]
    rfl
  rw [carried_conn hs'.exclusive hmem, setConn_conns_self, hview]

theorem setConn_gone (hs : s.Coherent) {i : UInt32} (hmem : i ∈ (s.conns k).ids)
    (hgone : i ∉ c'.ids) (hq : m'.queues = s.manager.queues) :
    (s.setConn k m' c').carried i = none := by
  apply carried_none
  intro a hi
  by_cases ha : a = .conn k
  · rw [ha, holds, setConn_conns_self] at hi
    exact hgone hi
  · rw [holds_setConn s m' c' ha fun r _ => by rw [hq]] at hi
    exact ha (hs.exclusive.unique hi (b := .conn k) hmem)

theorem setConn_gone_head (hs : s.Coherent) {i : UInt32} (hids : (s.conns k).ids = i :: c'.ids)
    (hq : m'.queues = s.manager.queues) : (s.setConn k m' c').carried i = none := by
  have hnodup : (s.conns k).ids.Nodup := hs.exclusive.nodup (.conn k)
  rw [hids, List.nodup_cons] at hnodup
  exact setConn_gone hs (by rw [hids]; exact List.mem_cons_self) hnodup.1 hq

section Touched

variable (hs : s.Coherent) (hs' : (s.setConn k m' c').Coherent)
  (hown : s.manager.owner (s.requests h).id = some h)
  {jobs : List Job} {next : Next} {todo : List (UInt32 × Event)}

/-! The steps of the head of the jobs of a connection. -/

include hs hown in
theorem step_sendMissing (hp : (s.conns k).point = .work (.send (s.requests h).id :: jobs) next)
    (htable : s.manager.table (s.requests h).id = none) :
    Life.Served svc .act (s.life h)
      ((s.setConn k s.manager { s.conns k with point := .work jobs next }).life h) := by
  have hbefore : (s.life h).carried = some (.toSend, .empty) := by
    apply carried_of_view (k := k) hs hown
    simp [Conn.view, Conn.place, hp, Point.place, Point.outbox, Job.id, Job.place]
  rw [life_setConn_same hown (setConn_gone_head hs (by simp [Conn.ids, hp, Point.ids, Job.id]) rfl)]
  exact .sendMissing hbefore (by rw [life_entry hown, htable])

include hs hown in
theorem step_sendPlaced {point : Point} {p : Place}
    (hs' : (s.setConn k s.manager { s.conns k with point := point }).Coherent)
    (hview : ({ s.conns k with point := point } : Conn).view (s.requests h).id = some (p, .empty))
    (hp : (s.conns k).point = .work (.send (s.requests h).id :: jobs) next) {task : Task}
    {route : List ℕ} (htask : s.manager.table (s.requests h).id = some task)
    (hroute : svc.senders task.route = some route)
    (hplace : (p = .toNotify ∧ route[task.stage]? = none) ∨
      ∃ r, p = .sending r ∧ route[task.stage]? = some r) :
    Life.Served svc .act (s.life h)
      ((s.setConn k s.manager { s.conns k with point := point }).life h) := by
  have hbefore : (s.life h).carried = some (.toSend, .empty) := by
    apply carried_of_view (k := k) hs hown
    simp [Conn.view, Conn.place, hp, Point.place, Point.outbox, Job.id, Job.place]
  have hentry : (s.life h).entry = some task := by rw [life_entry hown, htask]
  rw [life_setConn_same hown (setConn_carried hs' hview)]
  rcases hplace with ⟨rfl, hr⟩ | ⟨r, rfl, hr⟩
  · exact .sendFinished hbefore hentry hroute hr
  · exact .sendNext hbefore hentry hroute hr

include hs hown in
theorem step_enqueue {r : ℕ} (hs' : (s.setConn k (s.manager.push r (s.requests h).id)
      { s.conns k with point := .work jobs next }).Coherent)
    (hp : (s.conns k).point = .sending (s.requests h).id r jobs next) :
    Life.Served svc .act (s.life h) ((s.setConn k (s.manager.push r (s.requests h).id)
      { s.conns k with point := .work jobs next }).life h) := by
  have hbefore : (s.life h).carried = some (.sending r, .empty) := by
    apply carried_of_view (k := k) hs hown
    simp [Conn.view, Conn.place, hp, Point.place, Point.outbox]
  have hmem : (s.requests h).id ∈ (s.manager.push r (s.requests h).id).queues r := by simp
  rw [life_setConn hown (by rfl) (by rfl), carried_queue hs'.exclusive hmem]
  have hstep : Life.Served svc _ _ _ := .enqueue hbefore
  simpa [life, hown, TaskManager.push, Life.carry] using hstep

include hs hown in
theorem step_take {n : ℕ} (hs' : (s.setConn k
      { s.manager with notifiers := update s.manager.notifiers (s.requests h).id none }
      { s.conns k with point := .check (s.requests h).id n jobs next }).Coherent)
    (hp : (s.conns k).point = .work (.notify (s.requests h).id :: jobs) next)
    (hn : s.manager.notifiers (s.requests h).id = some n) :
    Life.Served svc .act (s.life h) ((s.setConn k
      { s.manager with notifiers := update s.manager.notifiers (s.requests h).id none }
      { s.conns k with point := .check (s.requests h).id n jobs next }).life h) := by
  have hbefore : (s.life h).carried = some (.toNotify, .empty) := by
    apply carried_of_view (k := k) hs hown
    simp [Conn.view, Conn.place, hp, Point.place, Point.outbox, Job.id, Job.place]
  have hnh : n = h := by
    have hown' := hs.notifier hn
    rw [hown] at hown'
    exact (Option.some.inj hown').symm
  have hview : ({ s.conns k with point := .check (s.requests h).id n jobs next } : Conn).view
      (s.requests h).id = some (.check, .empty) := by
    simp [Conn.view, Conn.place, Point.place, Point.outbox]
  rw [life_setConn hown (by rfl) (by rfl), setConn_carried hs' hview]
  have hnotifier : (s.life h).notifier = true := by simp [life, hn, hnh]
  have hstep : Life.Served svc _ _ _ := .take hbefore hnotifier
  simpa [life, hown, Life.carry] using hstep

include hs hown in
theorem step_takeMissing (hp : (s.conns k).point = .work (.notify (s.requests h).id :: jobs) next)
    (hn : s.manager.notifiers (s.requests h).id = none) :
    Life.Served svc .act (s.life h)
      ((s.setConn k s.manager { s.conns k with point := .work jobs next }).life h) := by
  have hbefore : (s.life h).carried = some (.toNotify, .empty) := by
    apply carried_of_view (k := k) hs hown
    simp [Conn.view, Conn.place, hp, Point.place, Point.outbox, Job.id, Job.place]
  rw [life_setConn_same hown (setConn_gone_head hs (by simp [Conn.ids, hp, Point.ids, Job.id]) rfl)]
  exact .takeMissing hbefore (by simp [life, hn])

theorem eq_of_named {id : UInt32} {n : ℕ} (hs : s.Coherent)
    (hown : s.manager.owner id = some h)
    (hp : (s.conns k).point = .check id n jobs next ∨ (s.conns k).point = .signal id n jobs next) :
    n = h := by
  have hnamed := hs.named k
  rcases hp with hp | hp
  all_goals
    simp only [Conn.Named, hp] at hnamed
    rw [hown] at hnamed
    exact (Option.some.inj hnamed).symm

include hs hown in
theorem step_checkClosed {n : ℕ} (hs' : (s.setConn k s.manager
      { s.conns k with point := .remove (s.requests h).id jobs next }).Coherent)
    (hp : (s.conns k).point = .check (s.requests h).id n jobs next)
    (hclosed : (s.manager.oneshots n).closed) :
    Life.Served svc .check (s.life h) ((s.setConn k s.manager
      { s.conns k with point := .remove (s.requests h).id jobs next }).life h) := by
  obtain rfl := eq_of_named hs hown (Or.inl hp)
  have hbefore : (s.life n).carried = some (.check, .empty) := by
    apply carried_of_view (k := k) hs hown
    simp [Conn.view, Conn.place, hp, Point.place, Point.outbox]
  rw [life_setConn_same hown (setConn_carried hs' (p := .remove) (o := .empty)
    (by simp [Conn.view, Conn.place, Point.place, Point.outbox]))]
  exact .checkClosed hbefore hclosed

include hs hown in
theorem step_checkOpen {n : ℕ} (hs' : (s.setConn k s.manager
      { s.conns k with point := .signal (s.requests h).id n jobs next }).Coherent)
    (hp : (s.conns k).point = .check (s.requests h).id n jobs next)
    (hopen : (s.manager.oneshots n).closed = false) :
    Life.Served svc .check (s.life h) ((s.setConn k s.manager
      { s.conns k with point := .signal (s.requests h).id n jobs next }).life h) := by
  obtain rfl := eq_of_named hs hown (Or.inl hp)
  have hbefore : (s.life n).carried = some (.check, .empty) := by
    apply carried_of_view (k := k) hs hown
    simp [Conn.view, Conn.place, hp, Point.place, Point.outbox]
  rw [life_setConn_same hown (setConn_carried hs' (p := .signal) (o := .empty)
    (by simp [Conn.view, Conn.place, Point.place, Point.outbox]))]
  exact .checkOpen hbefore hopen

include hs hown in
theorem step_signal {n : ℕ} (hp : (s.conns k).point = .signal (s.requests h).id n jobs next)
    (hopen : (s.manager.oneshots n).closed = false) :
    Life.Served svc .act (s.life h) ((s.setConn k
      (s.manager.setOneshot n { s.manager.oneshots n with sent := true })
      { s.conns k with point := .work jobs next }).life h) := by
  obtain rfl := eq_of_named hs hown (Or.inr hp)
  have hbefore : (s.life n).carried = some (.signal, .empty) := by
    apply carried_of_view (k := k) hs hown
    simp [Conn.view, Conn.place, hp, Point.place, Point.outbox]
  rw [life_setConn hown (by rfl) (by rfl),
    setConn_gone_head hs (by simp [Conn.ids, hp, Point.ids]) (by rfl)]
  have hstep : Life.Served svc _ _ _ := .signal hbefore hopen
  simpa [life, hown, TaskManager.setOneshot, Life.gone] using hstep

include hs hown in
theorem step_remove (hs' : (s.setConn k (s.manager.removeTask (s.requests h).id)
      { s.conns k with point := .uncount (s.requests h).id jobs next }).Coherent)
    (hp : (s.conns k).point = .remove (s.requests h).id jobs next) :
    Life.Served svc .act (s.life h) ((s.setConn k (s.manager.removeTask (s.requests h).id)
      { s.conns k with point := .uncount (s.requests h).id jobs next }).life h) := by
  have hbefore : (s.life h).carried = some (.remove, .empty) := by
    apply carried_of_view (k := k) hs hown
    simp [Conn.view, Conn.place, hp, Point.place, Point.outbox]
  rw [life_setConn hown (by rfl) (by rfl), setConn_carried hs' (p := .uncount) (o := .empty)
    (by simp [Conn.view, Conn.place, Point.place, Point.outbox])]
  have hstep : Life.Served svc _ _ _ := .remove hbefore
  simpa [life, hown, TaskManager.removeTask, Life.carry] using hstep

include hs hown in
theorem step_uncount (hp : (s.conns k).point = .uncount (s.requests h).id jobs next) :
    Life.Served svc .act (s.life h) ((s.setConn k (s.manager.count h (-1))
      { s.conns k with point := .work jobs next }).life h) := by
  have hbefore : (s.life h).carried = some (.uncount, .empty) := by
    apply carried_of_view (k := k) hs hown
    simp [Conn.view, Conn.place, hp, Point.place, Point.outbox]
  rw [life_setConn hown (by rfl) (by rfl),
    setConn_gone_head hs (by simp [Conn.ids, hp, Point.ids]) (by rfl)]
  have hstep : Life.Served svc _ _ _ := .uncountClosed hbefore
  simpa [life, hown, TaskManager.count, Life.gone, Life.charge] using hstep

/-! The steps of a batch. -/

include hs hown in
theorem step_recv {ids queue : List UInt32} {point : Point}
    (hs' : (s.setConn k
      { s.manager with queues := update s.manager.queues (s.conns k).runtime queue }
      { s.conns k with point := point }).Coherent)
    (hq : s.manager.queues (s.conns k).runtime = (s.requests h).id :: queue)
    (hpoint : point = .fetch (ids ++ [(s.requests h).id]) ∨
      point = .collect (ids ++ [(s.requests h).id])) :
    Life.Served svc .act (s.life h) ((s.setConn k
      { s.manager with queues := update s.manager.queues (s.conns k).runtime queue }
      { s.conns k with point := point }).life h) := by
  have hmem : (s.requests h).id ∈ s.manager.queues (s.conns k).runtime := by simp [hq]
  have hbefore : (s.life h).carried = some (.queued (s.conns k).runtime, .empty) := by
    rw [life_carried hown, carried_queue hs.exclusive hmem]
  have hview : ({ s.conns k with point := point } : Conn).view (s.requests h).id =
      some (.batched (s.conns k).runtime, .empty) := by
    rcases hpoint with hpoint | hpoint <;>
      simp [Conn.view, Conn.place, hpoint, Point.place, Point.outbox]
  rw [life_setConn hown (by rfl) (by rfl), setConn_carried hs' hview]
  have hstep : Life.Served svc _ _ _ := .recv hbefore
  simpa [life, hown, Life.carry] using hstep

include hs hown in
theorem step_fetch {ids : List UInt32} {items : List Item} {point : Point}
    (hs' : (s.setConn k s.manager { s.conns k with point := point }).Coherent)
    (hp : (s.conns k).point = .fetch ids) (hitems : items = s.manager.getMultiTasksData svc ids)
    (hpoint : (items = [] ∧ point = .collect []) ∨ point = .write items)
    (hi : (s.requests h).id ∈ ids) :
    Life.Served svc .act (s.life h)
      ((s.setConn k s.manager { s.conns k with point := point }).life h) := by
  have hbefore : (s.life h).carried = some (.batched (s.conns k).runtime, .empty) := by
    apply carried_of_view (k := k) hs hown
    simp [Conn.view, Conn.place, hp, Point.place, Point.outbox, hi]
  have hitem := Point.itemOf_getMultiTasksData svc s.manager hi
  rw [← hitems] at hitem
  cases htask : s.manager.table (s.requests h).id with
  | some task =>
    rw [htask, Option.map_some] at hitem
    have hwrite : point = .write items := by
      rcases hpoint with ⟨rfl, -⟩ | hpoint
      · cases hitem
      · exact hpoint
    have hview : ({ s.conns k with point := point } : Conn).view (s.requests h).id =
        some (.framed (s.conns k).runtime (Life.itemFor svc (s.requests h).id task), .empty) := by
      simp [Conn.view, Conn.place, hwrite, Point.place, Point.outbox, hitem, Life.itemFor]
    rw [life_setConn_same hown (setConn_carried hs' hview)]
    exact .fetch hbefore (by rw [life_entry hown, htask])
  | none =>
    rw [htask, Option.map_none, Point.itemOf_eq_none] at hitem
    have hnot : (s.requests h).id ∉ point.ids := by
      rcases hpoint with ⟨-, rfl⟩ | rfl
      · exact List.not_mem_nil
      · exact hitem
    have hnodup : (s.conns k).ids.Nodup := hs.exclusive.nodup (.conn k)
    rw [Conn.ids, hp] at hnodup
    have hout : (s.requests h).id ∉ (s.conns k).outstanding.map Item.id := fun hmem =>
      (List.nodup_append.mp hnodup).2.2 _ hi _ hmem rfl
    rw [life_setConn_same hown (setConn_gone hs (k := k) (by simp [Conn.ids, hp, Point.ids, hi])
      (by simpa [Conn.ids, hnot] using hout) rfl)]
    exact .skip hbefore (by rw [life_entry hown, htask])

theorem record_of_itemOf (hs : s.Coherent) (hown : s.manager.owner (s.requests h).id = some h)
    {items : List Item} {f : History → Item → History} {item : Item}
    (hnodup : (items.map Item.id).Nodup) (hitem : Point.itemOf items (s.requests h).id = some item) :
    (s.manager.record items f).history h = f (s.manager.history h) item := by
  have hfilter : (items.filter fun item => s.manager.owner item.id = some h) = [item] := by
    rw [← Point.filter_eq_of_itemOf hnodup hitem]
    apply List.filter_congr
    intro it _
    simp only [hs.owner_iff hown]
  simp [TaskManager.record, hfilter]

include hs hown in
theorem step_writeOk {items : List Item}
    (hs' : (s.setConn k (s.manager.record items (Conn.handOver (s.conns k).runtime))
      { s.conns k with
        outstanding := (s.conns k).outstanding ++ items, point := .read false }).Coherent)
    (hp : (s.conns k).point = .write items) (hi : (s.requests h).id ∈ items.map Item.id) :
    Life.Served svc .act (s.life h)
      ((s.setConn k (s.manager.record items (Conn.handOver (s.conns k).runtime))
        { s.conns k with
          outstanding := (s.conns k).outstanding ++ items, point := .read false }).life h) := by
  obtain ⟨item, hitem⟩ := Option.isSome_iff_exists.mp (Point.itemOf_isSome.mpr hi)
  have hbefore : (s.life h).carried = some (.framed (s.conns k).runtime item, .empty) := by
    apply carried_of_view (k := k) hs hown
    simp [Conn.view, Conn.place, hp, Point.place, Point.outbox, hitem]
  have hnodup : (s.conns k).ids.Nodup := hs.exclusive.nodup (.conn k)
  rw [Conn.ids, hp, List.nodup_append] at hnodup
  have hout : (s.requests h).id ∉ (s.conns k).outstanding.map Item.id := fun hmem =>
    hnodup.2.2 _ hi _ hmem rfl
  have hview : ({ s.conns k with
      outstanding := (s.conns k).outstanding ++ items, point := .read false } : Conn).view
        (s.requests h).id = some (.working (s.conns k).runtime item, .empty) := by
    simp [Conn.view, Conn.place, Point.place, Point.outbox, Point.itemOf_append,
      Point.itemOf_eq_none.mpr hout, hitem]
  rw [life_setConn hown (by rfl) (by rfl), setConn_carried hs' hview,
    record_of_itemOf hs hown hnodup.1 hitem]
  have hstep : Life.Served svc _ _ _ := .write hbefore
  simpa [life, hown, Life.carry, TaskManager.record, Conn.handOver] using hstep

theorem jobOf_sendJobs {items : List Item} {i : UInt32} (hi : i ∈ items.map Item.id) :
    Point.jobOf (items.map fun item => .send item.id) i = some .toSend := by
  apply Point.jobOf_of_forall
  · rw [Conn.sendJobs_ids]
    exact hi
  · simp [Job.place]

include hs hown in
theorem step_writeErr {items : List Item}
    (hs' : (s.setConn k s.manager { s.conns k with
      outstanding := [], point := .work (items.map fun item => .send item.id) .closed }).Coherent)
    (hp : (s.conns k).point = .write items) (hi : (s.requests h).id ∈ items.map Item.id) :
    Life.Served svc .act (s.life h) ((s.setConn k s.manager { s.conns k with
      outstanding := [], point := .work (items.map fun item => .send item.id) .closed }).life h) := by
  obtain ⟨item, hitem⟩ := Option.isSome_iff_exists.mp (Point.itemOf_isSome.mpr hi)
  have hbefore : (s.life h).carried = some (.framed (s.conns k).runtime item, .empty) := by
    apply carried_of_view (k := k) hs hown
    simp [Conn.view, Conn.place, hp, Point.place, Point.outbox, hitem]
  have hjob := jobOf_sendJobs hi
  rw [life_setConn_same hown (setConn_carried hs' (p := .toSend) (o := .empty)
    (by simp [Conn.view, Conn.place, Point.place, Point.outbox, hjob]))]
  exact .giveBack hbefore

include hs hown in
theorem step_lose {p : Place} {outbox : Outbox}
    (hview : (s.conns k).view (s.requests h).id = some (p, outbox)) (hp : Life.AtRisk p)
    (hclosed : p = .signal → (s.manager.oneshots h).closed)
    (hgone : (s.requests h).id ∉ c'.ids) (hq : m'.queues = s.manager.queues)
    (htable : m'.table (s.requests h).id = s.manager.table (s.requests h).id)
    (hnotifiers : m'.notifiers = s.manager.notifiers) (howner : m'.owner = s.manager.owner)
    (hsender : m'.streamSenders = s.manager.streamSenders)
    (hch : m'.oneshots h = s.manager.oneshots h ∧ m'.streams h = s.manager.streams h ∧
      m'.history h = s.manager.history h) :
    Life.Served svc .lose (s.life h) ((s.setConn k m' c').life h) := by
  have hmem : (s.requests h).id ∈ (s.conns k).ids := by
    rw [← Conn.view_isSome, hview]
    rfl
  rw [life_setConn hown howner hsender, setConn_gone hs hmem hgone hq, htable, hnotifiers, hch.1,
    hch.2.1, hch.2.2]
  have hstep : Life.Served svc _ _ _ := .lose (carried_of_view hs hown hview) hp hclosed
  simpa [life, hown, Life.gone] using hstep

theorem view_of_outstanding {i : UInt32} {item : Item}
    (hitem : Point.itemOf (s.conns k).outstanding i = some item) (hi : i ∉ (s.conns k).point.ids) :
    (s.conns k).view i =
      some (.working (s.conns k).runtime item, (s.conns k).point.outbox i) := by
  have hplace : (s.conns k).point.place (s.conns k).runtime i = none := by
    rw [← Option.not_isSome_iff_eq_none, Point.place_isSome]
    exact hi
  simp [Conn.view, Conn.place, hplace, hitem]

theorem record_streamEvent (m : TaskManager) (items : List Item) (h : ℕ) :
    (m.record items Conn.streamEvent).history h =
      { m.history h with
        events := (m.history h).events ++
          (items.filter fun item => m.owner item.id = some h).map
            fun item => (item.data, .Normal) } := by
  have hfold : ∀ (items : List Item) (history : History),
      items.foldl Conn.streamEvent history =
        { history with
          events := history.events ++ items.map fun item => (item.data, .Normal) } := by
    intro items
    induction items with
    | nil => simp
    | cons item items ih => simp [ih, Conn.streamEvent]
  simp only [TaskManager.record, hfold]

include hs hown in
theorem step_readEvents {streamed : Bool} {items : List Item}
    (hs' : (s.setConn k (s.manager.record items Conn.streamEvent) { s.conns k with
      point := .events none (items.map fun item => (item.id, (item.data, .Normal))) [] .read
      }).Coherent)
    (hp : (s.conns k).point = .read streamed) (hnames : Conn.Names items (s.conns k).outstanding)
    (hi : (s.requests h).id ∈ items.map Item.id) :
    Life.Served svc .act (s.life h)
      ((s.setConn k (s.manager.record items Conn.streamEvent) { s.conns k with
        point := .events none (items.map fun item => (item.id, (item.data, .Normal))) [] .read
        }).life h) := by
  obtain ⟨item, hitem⟩ := Option.isSome_iff_exists.mp
    (Point.itemOf_isSome.mpr (Conn.names_subset hnames hi))
  have hbefore : (s.life h).carried = some (.working (s.conns k).runtime item, .empty) := by
    apply carried_of_view (k := k) hs hown
    simp [Conn.view, Conn.place, hp, Point.place, Point.outbox, hitem]
  have hview : ({ s.conns k with
      point := .events none (items.map fun item => (item.id, (item.data, .Normal))) [] .read
      } : Conn).view (s.requests h).id =
      some (.working (s.conns k).runtime item,
        ⟨none, (items.filter fun item => item.id = (s.requests h).id).map
          fun item => (item.data, .Normal)⟩) := by
    simp [Conn.view, Conn.place, Point.place, Point.outbox, Point.jobOf, hitem, List.filter_map,
      Function.comp_def]
  have hfilter : (items.filter fun item => s.manager.owner item.id = some h) =
      items.filter fun item => item.id = (s.requests h).id := by
    apply List.filter_congr
    intro it _
    simp only [hs.owner_iff hown]
  rw [life_setConn hown (by rfl) (by rfl), setConn_carried hs' hview, record_streamEvent, hfilter]
  have hstep : Life.Served svc _ _ _ := .readEvents
    ((items.filter fun item => item.id = (s.requests h).id).map
      fun item => (item.data, .Normal)) hbefore (by
        intro event hmem
        obtain ⟨item, -, rfl⟩ := List.mem_map.mp hmem
        rfl)
  simpa [life, hown, Life.carry, TaskManager.record] using hstep

include hs hown in
theorem step_reply {streamed : Bool} {code : TaskCode} {items : List Item}
    (hs' : (s.setConn k (s.manager.record items (Conn.answer code)) c').Coherent)
    (hp : (s.conns k).point = .read streamed) (hnames : Conn.Names items (s.conns k).outstanding)
    (hnodup : (items.map Item.id).Nodup) (hc' : c'.point = .update code items)
    {item : Item} (hitem : Point.itemOf items (s.requests h).id = some item) :
    Life.Served svc (.reply code item.data) (s.life h)
      ((s.setConn k (s.manager.record items (Conn.answer code)) c').life h) := by
  have hmem : (s.requests h).id ∈ items.map Item.id := by
    rw [← Point.itemOf_isSome, hitem]
    rfl
  obtain ⟨item₀, hitem₀⟩ := Option.isSome_iff_exists.mp
    (Point.itemOf_isSome.mpr (Conn.names_subset hnames hmem))
  have hbefore : (s.life h).carried = some (.working (s.conns k).runtime item₀, .empty) := by
    apply carried_of_view (k := k) hs hown
    simp [Conn.view, Conn.place, hp, Point.place, Point.outbox, hitem₀]
  have hview : c'.view (s.requests h).id = some (.answered code item.data, .empty) := by
    simp [Conn.view, Conn.place, hc', Point.place, Point.outbox, hitem]
  rw [life_setConn hown (by rfl) (by rfl), setConn_carried hs' hview,
    record_of_itemOf hs hown hnodup hitem]
  have hstep : Life.Served svc _ _ _ := .readReply code item.data hbefore
  simpa [life, hown, Life.carry, TaskManager.record, Conn.answer] using hstep

include hs hown in
theorem step_updateNormal {items : List Item}
    (hs' : (s.setConn k (s.manager.updateMultiTasks .Normal items) { s.conns k with
      point := .work (items.map fun item => .send item.id) .collect }).Coherent)
    (hp : (s.conns k).point = .update .Normal items)
    (hi : (s.requests h).id ∈ items.map Item.id) :
    Life.Served svc .act (s.life h)
      ((s.setConn k (s.manager.updateMultiTasks .Normal items) { s.conns k with
        point := .work (items.map fun item => .send item.id) .collect }).life h) := by
  obtain ⟨item, hitem⟩ := Option.isSome_iff_exists.mp (Point.itemOf_isSome.mpr hi)
  have hbefore : (s.life h).carried = some (.answered .Normal item.data, .empty) := by
    apply carried_of_view (k := k) hs hown
    simp [Conn.view, Conn.place, hp, Point.place, Point.outbox, hitem]
  have hnodup : (s.conns k).ids.Nodup := hs.exclusive.nodup (.conn k)
  rw [Conn.ids, hp, List.nodup_append] at hnodup
  have hjob := jobOf_sendJobs hi
  rw [life_setConn hown (by rfl) (by rfl), setConn_carried hs' (p := .toSend) (o := .empty)
    (by simp [Conn.view, Conn.place, Point.place, Point.outbox, hjob]),
    TaskManager.updateMultiTasks_table, TaskManager.updateTable_of_itemOf hnodup.1 hitem]
  have hstep : Life.Served svc _ _ _ := .update hbefore
  simpa [life, hown, Life.carry, TaskManager.updateMultiTasks] using hstep

theorem abnormal_keys (m : TaskManager) (items : List Item) :
    ((m.abnormalTasks items).zip items).map Prod.fst = m.abnormalTasks items := by
  apply List.map_fst_zip
  have hle := (m.abnormalTasks_sublist items).length_le
  rwa [List.length_map] at hle

theorem abnormal_nodup (m : TaskManager) {items : List Item}
    (hnodup : (items.map Item.id).Nodup) :
    (((m.abnormalTasks items).zip items).map Prod.fst).Nodup := by
  rw [abnormal_keys]
  exact hnodup.sublist (m.abnormalTasks_sublist items)

theorem abnormal_event {m : TaskManager} {items : List Item} {i : UInt32} (code : TaskCode)
    (hnodup : (items.map Item.id).Nodup) (hi : i ∈ m.abnormalTasks items) :
    ∃ p ∈ (m.abnormalTasks items).zip items, p.1 = i ∧
      (((((m.abnormalTasks items).zip items).map fun p => (p.1, (p.2.data, code))).filter
        fun e => e.1 = i).map Prod.snd) = [(p.2.data, code)] := by
  have hnodup' := abnormal_nodup m hnodup
  rw [← abnormal_keys m items] at hi
  obtain ⟨p, hmem, rfl⟩ := List.mem_map.mp hi
  refine ⟨p, hmem, rfl, ?_⟩
  have hfilter := Point.filter_eq_singleton Prod.fst hnodup' hmem
  rw [List.filter_map, Function.comp_def]
  simp only [hfilter]
  rfl

include hs hown in
theorem step_updateAbnormal {code : TaskCode} {items : List Item}
    (hs' : (s.setConn k (s.manager.updateMultiTasks code items) { s.conns k with
      point := .events none
        (((s.manager.abnormalTasks items).zip items).map fun p => (p.1, (p.2.data, code)))
        ((s.manager.abnormalTasks items).map .notify) .collect }).Coherent)
    (hp : (s.conns k).point = .update code items) (hcode : code ≠ .Normal)
    (hi : (s.requests h).id ∈ items.map Item.id) :
    ∃ lab, Caused svc s (.conn k .run) h lab ∧ Life.Served svc lab (s.life h)
      ((s.setConn k (s.manager.updateMultiTasks code items) { s.conns k with
        point := .events none
          (((s.manager.abnormalTasks items).zip items).map fun p => (p.1, (p.2.data, code)))
          ((s.manager.abnormalTasks items).map .notify) .collect }).life h) := by
  obtain ⟨item, hitem⟩ := Option.isSome_iff_exists.mp (Point.itemOf_isSome.mpr hi)
  have hbefore : (s.life h).carried = some (.answered code item.data, .empty) := by
    apply carried_of_view (k := k) hs hown
    simp [Conn.view, Conn.place, hp, Point.place, Point.outbox, hitem]
  have hnodup : (s.conns k).ids.Nodup := hs.exclusive.nodup (.conn k)
  rw [Conn.ids, hp, List.nodup_append] at hnodup
  have htable : TaskManager.updateTable code items s.manager.table (s.requests h).id = _ :=
    TaskManager.updateTable_of_itemOf hnodup.1 hitem
  cases htask : s.manager.table (s.requests h).id with
  | some task =>
    have hmem : (s.requests h).id ∈ s.manager.abnormalTasks items :=
      List.mem_filter.mpr ⟨hi, by simp [htask]⟩
    obtain ⟨p, hzip, hpid, hevent⟩ := abnormal_event code hnodup.1 hmem
    have hjob : Point.jobOf ((s.manager.abnormalTasks items).map .notify) (s.requests h).id =
        some .toNotify := by
      apply Point.jobOf_of_forall
      · rw [Conn.notifyJobs_ids]
        exact hmem
      · simp [Job.place]
    refine ⟨.report item.data p.2.data, ⟨k, code, items, rfl, hp, hcode,
      ⟨item, (Point.itemOf_mem hitem).1, (Point.itemOf_mem hitem).2, rfl⟩, p, hzip, hpid, rfl⟩, ?_⟩
    rw [life_setConn hown (by rfl) (by rfl),
      setConn_carried hs' (p := .toNotify) (o := ⟨none, [(p.2.data, code)]⟩)
        (by simp only [Conn.view, Conn.place, Point.place, Point.outbox, hjob, hevent]; rfl),
      TaskManager.updateMultiTasks_table, htable, htask]
    have hstep : Life.Served svc _ _ _ := .report p.2.data hbefore hcode
      (by rw [life_entry hown, htask])
    simpa [life, hown, Life.carry, TaskManager.updateMultiTasks] using hstep
  | none =>
    have hnot : (s.requests h).id ∉ s.manager.abnormalTasks items := by
      intro hmem
      have hsome := (List.mem_filter.mp hmem).2
      rw [htask] at hsome
      cases hsome
    have hout : (s.requests h).id ∉ (s.conns k).outstanding.map Item.id := fun hmem =>
      hnodup.2.2 _ hi _ hmem rfl
    refine ⟨.act, trivial, ?_⟩
    rw [life_setConn hown (by rfl) (by rfl),
      setConn_gone hs (k := k) (by simpa [Conn.ids, hp, Point.ids] using Or.inl hi)
        (by
          rw [Conn.ids, List.mem_append, not_or]
          simp only [Point.ids, Conn.notifyJobs_ids]
          exact ⟨hnot, hout⟩) (by rfl),
      TaskManager.updateMultiTasks_table, htable, htask]
    have hstep : Life.Served svc _ _ _ := .ignore hbefore hcode (by rw [life_entry hown, htask])
    simpa [life, hown, Life.gone, htask, TaskManager.updateMultiTasks] using hstep

/-! The stream events of a frame. -/

include hs hown in
theorem step_lookup {event : Event}
    (hs' : (s.setConn k s.manager { s.conns k with
      point := .events ((s.manager.streamSenders (s.requests h).id).map
        fun n => ⟨(s.requests h).id, n, event⟩) todo jobs next }).Coherent)
    (hp : (s.conns k).point = .events none (((s.requests h).id, event) :: todo) jobs next) :
    Life.Served svc .lookup (s.life h) ((s.setConn k s.manager { s.conns k with
      point := .events ((s.manager.streamSenders (s.requests h).id).map
        fun n => ⟨(s.requests h).id, n, event⟩) todo jobs next }).life h) := by
  have hnamed := hs.named k
  simp only [Conn.Named, hp] at hnamed
  have hmem := hnamed.2 _ List.mem_cons_self
  rw [← Conn.view_isSome, Conn.view, Option.isSome_map] at hmem
  obtain ⟨p, hplace⟩ := Option.isSome_iff_exists.mp hmem
  have hbefore : (s.life h).carried = some (p, ⟨none, event ::
      (todo.filter fun e => e.1 = (s.requests h).id).map Prod.snd⟩) := by
    apply carried_of_view (k := k) hs hown
    rw [Conn.view, hplace]
    simp [hp, Point.outbox]
  have hplace' : ∀ pushing, ({ s.conns k with point := .events pushing todo jobs next } :
      Conn).place (s.requests h).id = some p := by
    intro pushing
    rw [← hplace]
    simp only [Conn.place, hp, Point.place]
  have hsender : ((s.manager.streamSenders (s.requests h).id).map
      fun n => (⟨(s.requests h).id, n, event⟩ : Pushing)) =
        if (s.life h).sender then some ⟨(s.requests h).id, h, event⟩ else none := by
    cases hsen : s.manager.streamSenders (s.requests h).id with
    | none => simp [life, hsen]
    | some n =>
      have hnh : some n = some h := (hs.sender hsen).symm.trans hown
      simp [life, hsen, Option.some.inj hnh]
  have hview : ({ s.conns k with
      point := .events ((s.manager.streamSenders (s.requests h).id).map
        fun n => ⟨(s.requests h).id, n, event⟩) todo jobs next } : Conn).view (s.requests h).id =
      some (p, ⟨if (s.life h).sender then some event else none,
        (todo.filter fun e => e.1 = (s.requests h).id).map Prod.snd⟩) := by
    rw [Conn.view, hplace', hsender]
    cases hlife : (s.life h).sender <;> simp [Point.outbox]
  rw [life_setConn_same hown (setConn_carried hs' hview)]
  exact .lookup hbefore

include hs hown in
theorem step_push {p : Pushing}
    (hs' : (s.setConn k m' { s.conns k with point := .events none todo jobs next }).Coherent)
    (hp : (s.conns k).point = .events (some p) todo jobs next) (hid : p.id = (s.requests h).id)
    (hm' : (m' = s.manager ∧ (s.manager.streams p.request).closed) ∨
      ((s.manager.streams p.request).closed = false ∧ m' = s.manager.setStream p.request
        { s.manager.streams p.request with
          buffer := (s.manager.streams p.request).buffer ++ [p.event] })) :
    Life.Served svc .act (s.life h)
      ((s.setConn k m' { s.conns k with point := .events none todo jobs next }).life h) := by
  have hnamed := hs.named k
  simp only [Conn.Named, hp] at hnamed
  obtain ⟨howner, hmem⟩ := hnamed.1 p rfl
  have hreq : p.request = h := by
    rw [hid, hown] at howner
    exact (Option.some.inj howner).symm
  rw [hid, ← Conn.view_isSome, Conn.view, Option.isSome_map] at hmem
  obtain ⟨place, hplace⟩ := Option.isSome_iff_exists.mp hmem
  have hbefore : (s.life h).carried = some (place, ⟨some p.event,
      (todo.filter fun e => e.1 = (s.requests h).id).map Prod.snd⟩) := by
    apply carried_of_view (k := k) hs hown
    rw [Conn.view, hplace]
    simp [hp, Point.outbox, hid]
  have hview : ({ s.conns k with point := .events none todo jobs next } : Conn).view
      (s.requests h).id = some (place, ⟨none,
        (todo.filter fun e => e.1 = (s.requests h).id).map Prod.snd⟩) := by
    have hplace' : ({ s.conns k with point := .events none todo jobs next } : Conn).place
        (s.requests h).id = some place := by
      rw [← hplace]
      simp only [Conn.place, hp, Point.place]
    rw [Conn.view, hplace']
    simp [Point.outbox]
  rw [hreq] at hm'
  rcases hm' with ⟨rfl, hclosed⟩ | ⟨hopen, rfl⟩
  · rw [life_setConn_same hown (setConn_carried hs' hview)]
    exact .pushClosed hbefore hclosed
  · rw [life_setConn hown (by rfl) (by rfl), setConn_carried hs' hview]
    have hstep : Life.Served svc _ _ _ := .push hbefore hopen
    simpa [life, hown, Life.carry, TaskManager.setStream] using hstep

/-! The ids that a failure takes away. -/

include hs hown in
theorem step_writeLose {items : List Item} (hp : (s.conns k).point = .write items)
    (hi : (s.requests h).id ∈ (s.conns k).outstanding.map Item.id) :
    Life.Served svc .lose (s.life h) ((s.setConn k s.manager { s.conns k with
      outstanding := [], point := .work (items.map fun item => .send item.id) .closed }).life h) := by
  have hnodup : (s.conns k).ids.Nodup := hs.exclusive.nodup (.conn k)
  rw [Conn.ids, List.nodup_append] at hnodup
  have hnot : (s.requests h).id ∉ (s.conns k).point.ids := fun hmem =>
    hnodup.2.2 _ hmem _ hi rfl
  obtain ⟨item, hitem⟩ := Option.isSome_iff_exists.mp (Point.itemOf_isSome.mpr hi)
  refine step_lose hs hown (view_of_outstanding hitem hnot) (.working _ _) (by simp) ?_ rfl rfl rfl
    rfl rfl ⟨rfl, rfl, rfl⟩
  rw [hp] at hnot
  simp only [Conn.ids, Point.ids, Conn.sendJobs_ids, List.map_nil, List.append_nil]
  exact hnot

include hs hown in
theorem step_readLose {streamed : Bool} (hp : (s.conns k).point = .read streamed)
    (hi : (s.requests h).id ∈ (s.conns k).outstanding.map Item.id)
    (hgone : (s.requests h).id ∉ c'.ids) {f : History → Item → History} {l : List Item}
    (hm' : m' = s.manager ∨
      (m' = s.manager.record l f ∧ (s.requests h).id ∉ l.map Item.id)) :
    Life.Served svc .lose (s.life h) ((s.setConn k m' c').life h) := by
  obtain ⟨item, hitem⟩ := Option.isSome_iff_exists.mp (Point.itemOf_isSome.mpr hi)
  have hview := view_of_outstanding (k := k) hitem (by simp [hp, Point.ids])
  rcases hm' with rfl | ⟨rfl, hnot⟩
  · exact step_lose hs hown hview (.working _ _) (by simp) hgone rfl rfl rfl rfl rfl
      ⟨rfl, rfl, rfl⟩
  · refine step_lose hs hown hview (.working _ _) (by simp) hgone rfl rfl rfl rfl rfl
      ⟨rfl, rfl, ?_⟩
    apply Conn.Move.record_untouched
    intro i hmem howner
    rw [(hs.owner_iff hown).mp howner] at hmem
    exact hnot hmem

theorem atRisk_of_jobOf {i : UInt32} {p : Place} (hp : Point.jobOf jobs i = some p) :
    Life.AtRisk p := by
  obtain ⟨job, -, rfl⟩ := Option.map_eq_some_iff.mp hp
  cases job with
  | send => exact .toSend
  | notify => exact .toNotify

theorem ne_signal_of_jobOf {i : UInt32} {p : Place} (hp : Point.jobOf jobs i = some p) :
    p ≠ .signal := by
  obtain ⟨job, -, rfl⟩ := Option.map_eq_some_iff.mp hp
  cases job <;> exact Place.noConfusion

include hs hown in
theorem step_panic (hi : (s.requests h).id ∈ (s.conns k).ids)
    (hrisk : ∀ p, (s.conns k).point.place (s.conns k).runtime (s.requests h).id = some p →
      Life.AtRisk p ∧ (p = .signal → (s.manager.oneshots h).closed)) :
    Life.Served svc .lose (s.life h) ((s.setConn k s.manager (s.conns k).panic).life h) := by
  have hgone : (s.requests h).id ∉ (s.conns k).panic.ids := by
    simp [Conn.ids, Conn.panic, Point.ids]
  rw [← Conn.view_isSome, Conn.view, Option.isSome_map] at hi
  obtain ⟨p, hplace⟩ := Option.isSome_iff_exists.mp hi
  have hview : (s.conns k).view (s.requests h).id =
      some (p, (s.conns k).point.outbox (s.requests h).id) := by
    rw [Conn.view, hplace, Option.map_some]
  have hp : Life.AtRisk p ∧ (p = .signal → (s.manager.oneshots h).closed) := by
    rcases Option.or_eq_some_iff.mp hplace with hplace | ⟨-, hplace⟩
    · exact hrisk p hplace
    · obtain ⟨item, -, rfl⟩ := Option.map_eq_some_iff.mp hplace
      exact ⟨.working _ _, by simp⟩
  exact step_lose hs hown hview hp.1 hp.2 hgone rfl rfl rfl rfl rfl ⟨rfl, rfl, rfl⟩

end Touched

theorem hears_refines (hs : s.Coherent) (hs' : (s.setConn k m' c').Coherent) {act : ConnAction}
    (hstep : (s.conns k).step svc s.manager act = some (m', c'))
    (hhears : Conn.Hears s.manager (s.conns k) act h) :
    (s.setConn k m' c').life h = s.life h ∨
      Life.Heard (s.life h) ((s.setConn k m' c').life h) := by
  obtain ⟨touched, hm⟩ := Conn.move_of_step hstep
  have hafter := life_apart hs hs' hm (h := h)
  cases hm
  case readLate streamed items hp hnames =>
    right
    rw [hafter fun _ => List.not_mem_nil, record_streamEvent]
    apply Life.Heard.read
    intro event hevent
    obtain ⟨item, -, rfl⟩ := List.mem_map.mp hevent
    rfl
  case latePush p todo hp hopen =>
    obtain rfl : p.request = h := by simpa [Conn.Hears, hp] using hhears
    right
    rw [hafter fun _ => List.not_mem_nil]
    have hpushed := Life.Heard.push (ℓ := s.life p.request) p.event hopen
    simpa [TaskManager.setStream, life] using hpushed
  case lateClosed p todo hp hclosed => exact Or.inl (hafter fun _ => List.not_mem_nil)
  case readEvents streamed items hp hnames => exact absurd hnames hhears.1
  all_goals simp [Conn.Hears, *] at hhears

theorem conn_refines (hs : s.Coherent) (hs' : (s.setConn k m' c').Coherent) {act : ConnAction}
    (hstep : (s.conns k).step svc s.manager act = some (m', c')) (h : ℕ)
    (hlate : ¬ Conn.Hears s.manager (s.conns k) act h) :
    (s.setConn k m' c').life h = s.life h ∨ ∃ lab, Caused svc s (.conn k act) h lab ∧
      Life.Served svc lab (s.life h) ((s.setConn k m' c').life h) := by
  obtain ⟨touched, hm⟩ := Conn.move_of_step hstep
  by_cases htouched : s.manager.owner (s.requests h).id = some h →
      (s.requests h).id ∉ touched
  · exact Or.inl (life_untouched hs hs' hm htouched hlate)
  · right
    rw [Classical.not_imp, not_not] at htouched
    obtain ⟨hown, hi⟩ := htouched
    cases hm
    case recv ids queue id point hp hq hpoint =>
      obtain rfl : _ = id := by simpa using hi
      exact ⟨.act, trivial, step_recv hs hown hs' hq hpoint⟩
    case timeUp => cases hi
    case fetch items point hpoint hp hitems =>
      exact ⟨.act, trivial, step_fetch hs hown hs' hp hitems hpoint hi⟩
    case writeOk items hp hb => exact ⟨.act, trivial, step_writeOk hs hown hs' hp hi⟩
    case writeErr items hp =>
      rcases List.mem_append.mp hi with hi | hi
      · exact ⟨.act, trivial, step_writeErr hs hown hs' hp hi⟩
      · exact ⟨.lose, hi, step_writeLose hs hown hp hi⟩
    case readEvents streamed items hp hnames =>
      exact ⟨.act, trivial, step_readEvents hs hown hs' hp hnames hi⟩
    case readLate => cases hi
    case lateDone => cases hi
    case lateLookup => cases hi
    case latePush => cases hi
    case lateClosed => cases hi
    case readReply streamed code items hp hcode hnames hnodup =>
      obtain ⟨item, hitem⟩ := Option.isSome_iff_exists.mp (Point.itemOf_isSome.mpr hi)
      obtain ⟨hmem, hid⟩ := Point.itemOf_mem hitem
      exact ⟨.reply code item.data, ⟨k, items, Or.inl rfl, item, hmem, hid, rfl⟩,
        step_reply hs hown hs' hp hnames hnodup rfl hitem⟩
    case readCut code items hp hnames hnodup =>
      by_cases hitems : (s.requests h).id ∈ items.map Item.id
      · obtain ⟨item, hitem⟩ := Option.isSome_iff_exists.mp (Point.itemOf_isSome.mpr hitems)
        obtain ⟨hmem, hid⟩ := Point.itemOf_mem hitem
        exact ⟨.reply code item.data, ⟨k, items, Or.inr rfl, item, hmem, hid, rfl⟩,
          step_reply hs hown hs' hp hnames hnodup rfl hitem⟩
      · refine ⟨.lose, ?_, step_readLose hs hown hp hi ?_ (Or.inr ⟨rfl, hitems⟩)⟩
        · simp only [Caused, loses, hp, Conn.unanswered_ids]
          exact List.mem_filter.mpr ⟨hi, by simpa using hitems⟩
        · simpa [Conn.ids, Point.ids] using hitems
    case readErr code items hp =>
      refine ⟨.lose, ?_, step_readLose (f := Conn.answer code) (l := items) hs hown hp hi ?_
        (Or.inl rfl)⟩
      · simpa only [Caused, loses, hp] using hi
      · simp [Conn.ids, Point.ids]
    case updateNormal items hp => exact ⟨.act, trivial, step_updateNormal hs hown hs' hp hi⟩
    case updateAbnormal code items hp hcode =>
      exact step_updateAbnormal hs hown hs' hp hcode hi
    case eventsDone => cases hi
    case lookup id event todo jobs next hp =>
      obtain rfl : _ = id := by simpa using hi
      exact ⟨.lookup, ⟨k, event, todo, jobs, next, rfl, hp⟩, step_lookup hs hown hs' hp⟩
    case push p todo jobs next hp hopen =>
      have hid : p.id = (s.requests h).id := by simpa [eq_comm] using hi
      exact ⟨.act, trivial, step_push hs hown hs' hp hid (Or.inr ⟨hopen, rfl⟩)⟩
    case pushClosed p todo jobs next hp hclosed =>
      have hid : p.id = (s.requests h).id := by simpa [eq_comm] using hi
      exact ⟨.act, trivial, step_push hs hown hs' hp hid (Or.inl ⟨rfl, hclosed⟩)⟩
    case workDone => cases hi
    case sendMissing id jobs next hp htable =>
      obtain rfl : _ = id := by simpa using hi
      exact ⟨.act, trivial, step_sendMissing hs hown hp htable⟩
    case sendPanic id jobs next task hp htask hroute =>
      refine ⟨.lose, ?_, step_panic hs hown hi ?_⟩
      · replace hstep : (s.conns k).run svc s.manager = _ := hstep
        simpa [Caused, loses, hstep, Conn.panic] using hi
      · intro p hplace
        simp only [hp, Point.place] at hplace
        exact ⟨atRisk_of_jobOf hplace, fun hsignal => absurd hsignal (ne_signal_of_jobOf hplace)⟩
    case sendFinished id jobs next task route hp htask hroute hr =>
      obtain rfl : _ = id := by simpa using hi
      exact ⟨.act, trivial, step_sendPlaced hs hown hs' (by
        simp [Conn.view, Conn.place, Point.place, Point.outbox, Job.id, Job.place]) hp htask hroute
        (Or.inl ⟨rfl, hr⟩)⟩
    case sendNext id jobs next task route r hp htask hroute hr =>
      obtain rfl : _ = id := by simpa using hi
      exact ⟨.act, trivial, step_sendPlaced hs hown hs' (by
        simp [Conn.view, Conn.place, Point.place, Point.outbox]) hp htask hroute
        (Or.inr ⟨r, rfl, hr⟩)⟩
    case enqueue id r jobs next hp hroom =>
      obtain rfl : _ = id := by simpa using hi
      exact ⟨.act, trivial, step_enqueue hs hown hs' hp⟩
    case take id n jobs next hp hn =>
      obtain rfl : _ = id := by simpa using hi
      exact ⟨.act, trivial, step_take hs hown hs' hp hn⟩
    case takeMissing id jobs next hp hn =>
      obtain rfl : _ = id := by simpa using hi
      exact ⟨.act, trivial, step_takeMissing hs hown hp hn⟩
    case checkClosed id n jobs next hp hclosed =>
      obtain rfl : _ = id := by simpa using hi
      obtain rfl := eq_of_named hs hown (Or.inl hp)
      exact ⟨.check, ⟨k, jobs, next, rfl, hp⟩, step_checkClosed hs hown hs' hp hclosed⟩
    case checkOpen id n jobs next hp hopen =>
      obtain rfl : _ = id := by simpa using hi
      obtain rfl := eq_of_named hs hown (Or.inl hp)
      exact ⟨.check, ⟨k, jobs, next, rfl, hp⟩, step_checkOpen hs hown hs' hp hopen⟩
    case signal id n jobs next hp hopen =>
      obtain rfl : _ = id := by simpa using hi
      exact ⟨.act, trivial, step_signal hs hown hp hopen⟩
    case signalPanic id n jobs next hp hclosed =>
      refine ⟨.lose, ?_, step_panic hs hown hi ?_⟩
      · replace hstep : (s.conns k).run svc s.manager = _ := hstep
        simpa [Caused, loses, hstep, Conn.panic] using hi
      · intro p hplace
        simp only [hp, Point.place] at hplace
        by_cases hid : id = (s.requests h).id
        · rw [if_pos hid] at hplace
          cases hplace
          subst hid
          rw [eq_of_named hs hown (Or.inr hp)] at hclosed
          exact ⟨.signal, fun _ => hclosed⟩
        · rw [if_neg hid] at hplace
          exact ⟨atRisk_of_jobOf hplace,
            fun hsignal => absurd hsignal (ne_signal_of_jobOf hplace)⟩
    case remove id jobs next hp =>
      obtain rfl : _ = id := by simpa using hi
      exact ⟨.act, trivial, step_remove hs hown hs' hp⟩
    case uncount id n jobs next hp howner =>
      obtain rfl : _ = id := by simpa using hi
      obtain rfl : h = n := Option.some.inj (hown.symm.trans howner)
      exact ⟨.act, trivial, step_uncount hs hown hp⟩
    case uncountUnowned id jobs next hp howner =>
      obtain rfl : _ = id := by simpa using hi
      rw [hown] at howner
      cases howner

end Mosec.State
