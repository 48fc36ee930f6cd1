import Mosec.Workload

namespace Mosec

open Function (update update_self update_of_ne)

namespace Conn

open State (managed)

variable {svc : Service} {m m' : TaskManager} {c c' : Conn} {act : ConnAction}
  {touched : List UInt32} {e e' n : ℕ}

theorem unanswered_length {items outstanding : List Item} (h : Names items outstanding)
    (hnodup : (items.map Item.id).Nodup) :
    items.length + (unanswered outstanding items).length ≤ outstanding.length := by
  have hsplit := List.length_eq_length_filter_add (l := outstanding.map Item.id)
    fun i => decide (i ∈ items.map Item.id)
  have hunanswered := congrArg List.length (unanswered_ids outstanding items)
  simp only [List.length_map, decide_not] at hsplit hunanswered
  have hanswered : (items.map Item.id).Subperm
      ((outstanding.map Item.id).filter fun i => decide (i ∈ items.map Item.id)) := by
    apply hnodup.subperm
    intro i hi
    exact List.mem_filter.mpr ⟨names_subset h hi, decide_eq_true hi⟩
  have hlength := hanswered.length_le
  simp only [List.length_map] at hlength
  omega

theorem failures_mono (hnext : c.point.next = .closed → c'.point.next = .closed)
    (hbroken : c.broken → c'.broken) : c'.failures ≤ c.failures := by
  simp only [failures]
  split
  · exact Nat.zero_le _
  · next hopen =>
    rw [if_neg fun hclosed => hopen (hnext hclosed)]
    split
    · split <;> omega
    · next hwhole => rw [if_neg fun hc => hwhole (hbroken hc)]

theorem failures_pos (hnext : c.point.next ≠ .closed) : 1 ≤ c.failures := by
  rw [failures, if_neg hnext]
  split <;> omega

namespace Move

theorem failures_le (hm : Move svc m c act touched m' c') : c'.failures ≤ c.failures := by
  cases hm
  case recv hp hq hpoint =>
    refine failures_mono ?_ fun hbroken => hbroken
    rcases hpoint with rfl | rfl <;> simp [hp, Point.next]
  case fetch hpoint hp hitems =>
    refine failures_mono ?_ fun hbroken => hbroken
    rcases hpoint with ⟨-, rfl⟩ | rfl <;> simp [hp, Point.next]
  case readErr => exact Nat.zero_le _
  case readCut hp hnames hnodup => exact failures_mono (by simp [hp, Point.next]) fun _ => rfl
  case workDone next hp =>
    refine failures_mono ?_ fun hbroken => hbroken
    cases next <;> simp [hp, proceed, Point.next]
  case sendPanic => exact Nat.zero_le _
  case signalPanic => exact Nat.zero_le _
  all_goals exact failures_mono (by simp [*, Point.next]) fun hbroken => hbroken

theorem failures_writeErr (hm : Move svc m c .writeErr touched m' c') :
    c'.failures + 1 ≤ c.failures := by
  cases hm with
  | writeErr hp => exact failures_pos (by simp [hp, Point.next])

theorem workload_writeErr (hm : Move svc m c .writeErr touched m' c') (he : e' + 12 ≤ e) :
    c'.workload svc m'.table e' + managed svc e' n m' <
      c.workload svc m.table e + managed svc e n m := by
  cases hm with
  | @writeErr items hp =>
    have hjobs := jobsWorkload_send_le svc m.table e' items
    have hmul : items.length * (20 + e') ≤ items.length * (8 + e) :=
      Nat.mul_le_mul_left _ (by omega)
    have hmanaged := State.managed_mono svc n m (show e' ≤ e by omega)
    simp only [workload, hp, Point.workload, Next.workload, List.length_nil, Nat.zero_mul]
    omega

theorem workload_lt (hm : Move svc m c act touched m' c')
    (hevents : ∀ items, act ≠ .readEvents items) (hwrite : act ≠ .writeErr)
    (htime : act = .timeUp → c.point ≠ .collect [])
    (hqueue : ∀ i ∈ m.queues c.runtime, c.runtime < svc.runtimes.length) :
    c'.workload svc m'.table e + managed svc e n m' <
      c.workload svc m.table e + managed svc e n m := by
  cases hm
  case readEvents items hp hnames => exact absurd rfl (hevents items)
  case readLate items hp hnames => exact absurd rfl (hevents items)
  case writeErr => exact absurd rfl hwrite
  case recv ids queue id point hp hq hpoint =>
    have hr := hqueue id (by rw [hq]; exact List.mem_cons_self)
    have hmanaged := managed_queue (m := m) (e := e) (n := n) hr queue
    rw [hq, List.length_cons, Nat.add_mul, Nat.one_mul] at hmanaged
    have hpoints : point.workload svc m.table e <
        (Point.collect ids).workload svc m.table e + (18 + e) := by
      rcases hpoint with rfl | rfl <;> cases ids <;> simp [Point.workload, Nat.add_mul] <;> omega
    simp only [workload, hp]
    omega
  case timeUp ids hp =>
    cases ids with
    | nil => exact absurd hp (htime rfl)
    | cons id ids =>
      simp only [workload, hp, Point.workload, List.length_cons]
      omega
  case fetch items point hpoint hp hitems =>
    have hlength : items.length ≤ touched.length := by
      rw [hitems]
      exact List.length_filterMap_le _ _
    have hmul := Nat.mul_le_mul_right (8 + e) hlength
    rcases hpoint with ⟨-, rfl⟩ | rfl <;> simp only [workload, hp, Point.workload] <;> omega
  case writeOk items hp hb =>
    have hmanaged : managed svc e n (m.record items (handOver c.runtime)) = managed svc e n m :=
      managed_of_eq rfl rfl rfl
    simp only [workload, hp, Point.workload, List.length_append, Nat.add_mul]
    omega
  case readReply streamed code items hp hcode hnames hnodup =>
    have hmanaged : managed svc e n (m.record items (answer code)) = managed svc e n m :=
      managed_of_eq rfl rfl rfl
    have hmul := Nat.mul_le_mul_right (8 + e) (unanswered_length hnames hnodup)
    rw [Nat.add_mul] at hmul
    simp only [workload, hp, Point.workload]
    omega
  case readCut code items hp hnames hnodup =>
    have hmanaged : managed svc e n (m.record items (answer code)) = managed svc e n m :=
      managed_of_eq rfl rfl rfl
    have hmul := Nat.mul_le_mul_right (8 + e) (unanswered_length hnames hnodup)
    rw [Nat.add_mul] at hmul
    simp only [workload, hp, Point.workload, List.length_nil, Nat.zero_mul]
    omega
  case readErr code items hp =>
    simp only [workload, hp, Point.workload, List.length_nil, Nat.zero_mul]
    omega
  case updateNormal items hp =>
    have hjobs := sendJobs_workload svc e .Normal items m.table
    have hmanaged := managed_table svc m e n (TaskManager.updateTable .Normal items m.table)
    simp only [workload, hp, Point.workload, Next.workload, TaskManager.updateMultiTasks]
    omega
  case updateAbnormal code items hp hcode =>
    have hhops := hopsOf_mono (hopsAt_updateTable svc code items m.table)
    have hmanaged := managed_table svc m e n (TaskManager.updateTable code items m.table)
    have habnormal := (m.abnormalTasks_sublist items).length_le
    have hmul : items.length * 8 ≤ items.length * (8 + e) := Nat.mul_le_mul_left _ (by omega)
    simp only [List.length_map] at habnormal
    simp only [workload, hp, Point.workload, Next.workload, TaskManager.updateMultiTasks,
      jobsWorkload_notify, List.length_map, List.length_zip, Option.isSome_none]
    simp only [Bool.false_eq_true, if_false]
    omega
  case lookup id event todo jobs next hp =>
    simp only [workload, hp, Point.workload, List.length_cons, Option.isSome_map]
    simp only [Option.isSome_none, Bool.false_eq_true, if_false]
    split <;> omega
  case push p todo jobs next hp hopen =>
    have hmanaged := managed_event (m := m) svc e n p.request p.event
    simp only [workload, hp, Point.workload, TaskManager.setStream] at hmanaged ⊢
    simp only [Option.isSome_some, Option.isSome_none, Bool.false_eq_true, if_true, if_false]
    omega
  case lateLookup id event todo hp =>
    simp only [workload, hp, Point.workload, List.length_cons, Option.isSome_map]
    simp only [Option.isSome_none, Bool.false_eq_true, if_false]
    split <;> omega
  case latePush p todo hp hopen =>
    have hmanaged := managed_event (m := m) svc e n p.request p.event
    simp only [workload, hp, Point.workload, TaskManager.setStream] at hmanaged ⊢
    simp only [Option.isSome_some, Option.isSome_none, Bool.false_eq_true, if_true, if_false]
    omega
  case workDone next hp =>
    cases next <;> simp [workload, hp, proceed, Point.workload, Next.workload, jobsWorkload]
  case sendMissing id jobs next hp htask =>
    simp only [workload, hp, Point.workload, jobsWorkload_cons, Job.workload]
    split <;> omega
  case sendPanic => simp [workload, panic, Point.workload, *, jobsWorkload_cons, Job.workload]
  case sendFinished id jobs next task route hp htask hroute hstage =>
    simp only [workload, hp, Point.workload, jobsWorkload_cons, Job.workload]
    split <;> omega
  case sendNext id jobs next task route r hp htask hroute hstage =>
    have hhops : hopsAt svc m.table id ≠ 0 := by
      have hlt := (List.getElem?_eq_some_iff.mp hstage).1
      rw [hopsAt, htask, Option.elim_some, Service.hopsLeft, hroute, Option.getD_some]
      omega
    simp only [workload, hp, Point.workload, jobsWorkload_cons, Job.workload, if_neg hhops]
    omega
  case enqueue id r jobs next hp hroom =>
    have hmanaged := managed_push svc m e n r id
    simp only [workload, hp, Point.workload, TaskManager.push] at hmanaged ⊢
    omega
  case take id h jobs next hp hn =>
    have hmanaged : managed svc e n { m with notifiers := update m.notifiers id none } =
        managed svc e n m := managed_of_eq rfl rfl rfl
    simp only [workload, hp, Point.workload, jobsWorkload_cons, Job.workload]
    omega
  case signal id h jobs next hp hopen =>
    have hmanaged : managed svc e n (m.setOneshot h { m.oneshots h with sent := true }) =
        managed svc e n m := managed_of_eq rfl rfl rfl
    simp only [workload, hp, Point.workload, TaskManager.setOneshot] at hmanaged ⊢
    omega
  case remove id jobs next hp =>
    have hhops := hopsOf_mono (hopsAt_remove svc m.table id)
    have hmanaged := managed_table svc m e n (update m.table id none)
    have hjobs : jobsWorkload svc (update m.table id none) e jobs ≤
        jobsWorkload svc m.table e jobs :=
      jobsWorkload_mono le_rfl fun i _ => hopsAt_remove svc m.table id i
    simp only [workload, hp, Point.workload, TaskManager.removeTask]
    omega
  case uncount id h jobs next hp hown =>
    have hmanaged : managed svc e n (m.count h (-1)) = managed svc e n m :=
      managed_of_eq rfl rfl rfl
    simp only [workload, hp, Point.workload, TaskManager.count] at hmanaged ⊢
    omega
  case uncountUnowned id jobs next hp hown =>
    have hmanaged : managed svc e n { m with remainingTask := m.remainingTask - 1 } =
        managed svc e n m := managed_of_eq rfl rfl rfl
    simp only [workload, hp, Point.workload]
    omega
  case signalPanic => simp [workload, panic, Point.workload, *]
  -- the manager stays as it is and the connection goes to its next point
  all_goals
    simp only [workload, ‹c.point = _›, Point.workload, jobsWorkload_cons, Job.workload,
      Option.isSome_some, Option.isSome_none, if_true, Bool.false_eq_true, if_false]
    omega

end Move

end Conn

namespace Request

open State (managed)

variable {svc : Service} {m m' : TaskManager} {q q' : Request} {act : RequestAction} {clones : Bool}
  {e h n : ℕ}

variable (svc e) in
theorem receiveEvent_workload (hh : h < n) (hs : q.receiveEvent m h clones = some (m', q')) :
    q' = q ∧ m'.table = m.table ∧ managed svc e n m' < managed svc e n m := by
  simp only [receiveEvent] at hs
  split at hs
  case isFalse => cases hs
  case isTrue hresponse =>
    split at hs
    case h_1 event buffer hbuffer =>
      cases hs
      have hmanaged := managed_stream svc m e hh { m.streams h with
        buffer := buffer, received := (m.streams h).received ++ [event] }
      simp only [Stream.workload, hbuffer, List.length_cons] at hmanaged
      exact ⟨rfl, rfl, by omega⟩
    case h_2 hbuffer =>
      split at hs
      · cases hs
        have hmanaged := managed_stream svc m e hh { m.streams h with ended := true }
        simp only [Stream.workload, hresponse.2.2, if_true, Bool.false_eq_true,
          if_false] at hmanaged
        exact ⟨rfl, rfl, by omega⟩
      · cases hs

theorem Move.workload_lt (hm : Move svc m h q clones act m' q') (hleave : act ≠ .leave)
    (hreceive : act ≠ .receiveEvent) :
    q'.workload svc e + managed svc e n m' < q.workload svc e + managed svc e n m := by
  cases hm
  case receiveEvent => exact absurd rfl hreceive
  case endStream => exact absurd rfl hreceive
  case leave => exact absurd rfl hleave
  case insertTask hq =>
    have hhops := hopsOf_update svc m.table q.id (some (Task.new q.body q.key h))
    have hmanaged := managed_table svc m e n
      (update m.table q.id (some (Task.new q.body q.key h)))
    simp only [Option.elim_some, Service.hopsLeft, Task.new, Nat.sub_zero] at hhops
    simp only [workload, hq, TaskManager.insertTask, Task.new] at hmanaged ⊢
    omega
  case accept route r hq hroute hr hroom =>
    have hmanaged := managed_push svc m e n r q.id
    by_cases hsse : q.isSse <;> simp only [workload, hq, hsse, if_true, Bool.false_eq_true,
      if_false] <;> omega
  case takeTask task hq htask =>
    have hhops := hopsOf_mono (hopsAt_remove svc m.table q.id)
    have hmanaged := managed_table svc m e n (update m.table q.id none)
    simp only [workload, hq, TaskManager.removeTask]
    omega
  case deleteTask exit hq =>
    have hhops := hopsOf_mono (hopsAt_remove svc m.table q.id)
    have hmanaged := managed_table svc m e n (update m.table q.id none)
    have hafter : (Request.workload svc e { q with handler := q.afterDelete exit }) ≤ 2 := by
      cases exit <;> by_cases hsse : q.isSse <;> simp [workload, afterDelete, hsse]
    simp only [TaskManager.removeTask]
    have hbefore : q.workload svc e = 3 := by simp only [workload, hq]
    omega
  case resume hq hdone =>
    by_cases hsse : q.isSse <;> simp [workload, hq, hsse]
  case elapse hq =>
    have hmanaged : managed svc e n (close m h) = managed svc e n m := managed_of_eq rfl rfl rfl
    simp only [workload, hq]
    omega
  case disconnect hq hsse =>
    have hmanaged : managed svc e n (close m h) = managed svc e n m := managed_of_eq rfl rfl rfl
    simp only [workload, hq]
    omega
  all_goals
    apply Nat.add_lt_add_of_lt_of_le
    · simp only [workload, ‹q.handler = _›]
      omega
    · exact (managed_of_eq rfl rfl rfl).le

theorem Move.hopsAt_le (hm : Move svc m h q clones act m' q') {i : UInt32}
    (hi : q.handler.entering → i ≠ q.id) : hopsAt svc m'.table i ≤ hopsAt svc m.table i := by
  cases hm
  case insertTask hq =>
    have hne := hi (by rw [hq]; rfl)
    rw [TaskManager.insertTask_table, hopsAt_update, if_neg hne]
  case takeTask => exact hopsAt_remove svc m.table q.id i
  case deleteTask => exact hopsAt_remove svc m.table q.id i
  all_goals exact le_rfl

end Request

theorem Conn.Move.hopsAt_le {svc : Service} {m m' : TaskManager} {c c' : Conn} {act : ConnAction}
    {touched : List UInt32} (hm : Move svc m c act touched m' c') (i : UInt32) :
    hopsAt svc m'.table i ≤ hopsAt svc m.table i := by
  cases hm
  case updateNormal items hp => exact hopsAt_updateTable svc .Normal items m.table i
  case updateAbnormal code items hp hcode => exact hopsAt_updateTable svc code items m.table i
  case remove id jobs next hp => exact hopsAt_remove svc m.table id i
  all_goals exact le_rfl

namespace State

variable {svc : Service} {ok : State → Action → Prop} {s s' : State} {a : Action}

/-- A step of the service, its workers and its clients that is neither a new request or
connection, nor one more stream event of a worker, nor a client that leaves its stream. -/
def internal : Action → Bool
  | .submit _ _ _ => false
  | .connect _ => false
  | .request _ .leave => false
  | .conn _ (.readEvents _) => false
  | _ => true

theorem workload_request (hs : FreshRun svc ok s) {n : ℕ} {act : RequestAction}
    (ha : internal (.request n act)) (hstep : s.step svc (.request n act) = some s') :
    s'.workload svc < s.workload svc := by
  obtain ⟨⟨m, q⟩, hmove, rfl⟩ := Option.map_eq_some_iff.mp hstep
  have hcoherent := coherent_of_run hs
  have hm := Request.move_of_step hmove
  set e := 12 * s.failures with he
  have hn : n < s.submitted := by
    by_contra hn
    have habsent := hcoherent.absent (by omega : s.submitted ≤ n)
    rw [habsent] at hmove
    cases act <;> simp [Request.step, Request.absent, Request.run, Request.resume, Request.elapse,
      Request.disconnect, Request.receiveEvent, Request.leave, Request.hasResponse] at hmove
  have hlocal : q.workload svc e + managed svc e s.submitted m <
      (s.requests n).workload svc e + managed svc e s.submitted s.manager := by
    by_cases hreceive : act = .receiveEvent
    · subst hreceive
      obtain ⟨rfl, -, hlt⟩ := Request.receiveEvent_workload svc e hn hmove
      omega
    · exact hm.workload_lt (by rintro rfl; cases ha) hreceive
  have hrequests := Transition.sum_update_eq (Finset.mem_range.mpr hn) (Request.workload svc e)
    s.requests q
  have hconns : ∑ k ∈ Finset.range s.connected, (s.conns k).workload svc m.table e ≤
      ∑ k ∈ Finset.range s.connected, (s.conns k).workload svc s.manager.table e := by
    apply Finset.sum_le_sum
    intro k _
    apply Conn.workload_mono _ le_rfl
    intro i hi
    apply hm.hopsAt_le
    rintro hentering rfl
    exact hcoherent.unheld hentering (.conn k) hi
  change managed svc e s.submitted m + ∑ h ∈ Finset.range s.submitted,
      (update s.requests n q h).workload svc e +
    ∑ k ∈ Finset.range s.connected, (s.conns k).workload svc m.table e < _
  simp only [workload, ← he]
  omega

theorem workload_conn (hs : FreshRun svc ok s) {k : ℕ} {act : ConnAction}
    (ha : internal (.conn k act)) (hstep : s.step svc (.conn k act) = some s') :
    s'.workload svc < s.workload svc := by
  obtain ⟨⟨m, c⟩, hmove, rfl⟩ := Option.map_eq_some_iff.mp hstep
  obtain ⟨touched, hm⟩ := Conn.move_of_step hmove
  have hk : k < s.connected := by
    by_contra hk
    rw [unaccepted_of_run hs k (by omega)] at hmove
    cases act <;> simp [Conn.step, Conn.absent, Conn.run, Conn.recv, Conn.timeUp, Conn.writeOk,
      Conn.writeErr, Conn.readEvents, Conn.readReply, Conn.readErr] at hmove
  have hrange := Finset.mem_range.mpr hk
  have hfailures := Transition.sum_update_eq hrange Conn.failures s.conns c
  set e := 12 * s.failures with he
  set e' := 12 * (s.setConn k m c).failures with he'
  have hless := hm.failures_le
  have hle : e' ≤ e := by
    simp only [failures, setConn] at he he'
    omega
  have hlocal : c.workload svc m.table e' + managed svc e' s.submitted m <
      (s.conns k).workload svc s.manager.table e + managed svc e s.submitted s.manager := by
    by_cases hwrite : act = .writeErr
    · subst hwrite
      apply hm.workload_writeErr
      have hone := hm.failures_writeErr
      simp only [failures, setConn] at he he'
      omega
    · have hlt := hm.workload_lt (e := e) (n := s.submitted) (by rintro items rfl; cases ha) hwrite
        (by
          rintro rfl hp
          simp only [Conn.step, Conn.timeUp, hp] at hmove
          cases hmove)
        fun i hi => runtime_of_queued hs hi
      have hconn := c.workload_mono hle fun i _ => le_refl (hopsAt svc m.table i)
      have hmanaged := managed_mono svc s.submitted m hle
      omega
  have hrequests : ∑ h ∈ Finset.range s.submitted, (s.requests h).workload svc e' ≤
      ∑ h ∈ Finset.range s.submitted, (s.requests h).workload svc e :=
    Finset.sum_le_sum fun h _ => (s.requests h).workload_mono hle
  have hothers : ∀ x : Conn, x.workload svc m.table e' ≤ x.workload svc s.manager.table e :=
    fun x => x.workload_mono hle fun i _ => hm.hopsAt_le i
  have hconns := Transition.sum_update_le hrange s.conns c hothers
  change managed svc e' s.submitted m + ∑ h ∈ Finset.range s.submitted,
      (s.requests h).workload svc e' + ∑ j ∈ Finset.range s.connected,
      (update s.conns k c j).workload svc m.table e' < _
  simp only [workload, ← he]
  omega

theorem workload_lt_of_step (hs : FreshRun svc ok s) (ha : internal a)
    (hstep : s.step svc a = some s') : s'.workload svc < s.workload svc := by
  cases a with
  | submit isSse key body => cases ha
  | connect r => cases ha
  | request n act => exact workload_request hs ha hstep
  | conn k act => exact workload_conn hs ha hstep

def Settled (svc : Service) (s : State) : Prop := ∀ a, internal a → s.step svc a = none

theorem submitted_of_internal (ha : internal a) (hstep : s.step svc a = some s') :
    s'.submitted = s.submitted := by
  cases a with
  | submit isSse key body => cases ha
  | connect r => cases ha
  | request n act =>
    obtain ⟨⟨m, q⟩, -, rfl⟩ := Option.map_eq_some_iff.mp hstep
    rfl
  | conn k act =>
    obtain ⟨⟨m, c⟩, -, rfl⟩ := Option.map_eq_some_iff.mp hstep
    rfl

theorem waiting_of_still {h : ℕ} (hrun : s.step svc (.request h .run) = none) :
    (s.requests h).handler.idle ∨ (s.requests h).handler = .waiting := by
  simp only [step, Request.step, Option.map_eq_none_iff] at hrun
  generalize s.requests h = q at hrun
  cases hq : q.handler with
  | waiting => exact Or.inr rfl
  | trySend =>
    simp only [Request.run, hq] at hrun
    split at hrun
    · cases hrun
    · split at hrun <;> cases hrun
  | takeTask =>
    simp only [Request.run, hq] at hrun
    split at hrun <;> cases hrun
  | absent => exact Or.inl rfl
  | done outcome => exact Or.inl rfl
  | dropped => exact Or.inl rfl
  | panicked => exact Or.inl rfl
  | _ => simp [Request.run, hq] at hrun

theorem idle_of_still {h : ℕ} (hrun : s.step svc (.request h .run) = none)
    (helapse : s.step svc (.request h .elapse) = none) : (s.requests h).handler.idle := by
  apply (waiting_of_still hrun).resolve_right
  intro hq
  simp [step, Request.step, Request.elapse, hq] at helapse

end State

namespace Life

variable {svc : Service} {lab : Label} {ℓ ℓ' : Life}

def Housed (ℓ : Life) : Prop :=
  ℓ.entry.isSome → ℓ.request.handler.tasked ∨ ℓ.request.handler = .dropped ∨
    ℓ.request.handler = .panicked

theorem Housed.own (h : ℓ.Housed) (hs : Own svc lab ℓ ℓ') : ℓ'.Housed := by
  intro hentry
  rcases hs.entered hentry with hentry₀ | hq'
  · rcases h hentry₀ with htasked | hq | hq
    · rcases hs.leads.tasked htasked with htasked' | ⟨hq, hne⟩ | ⟨-, hq'⟩ | ⟨-, hq'⟩
      · exact Or.inl htasked'
      · rcases hs.removed hq with hstay | hnone
        · exact absurd hstay hne
        · rw [hnone] at hentry
          cases hentry
      · exact Or.inr (Or.inr hq')
      · exact Or.inr (Or.inl hq')
    · exact Or.inr (Or.inl (hs.over hq).1)
    · have hleads := hs.leads
      rw [hq] at hleads
      right
      right
      generalize ℓ'.request.handler = handler at hleads
      cases hleads
      rfl
  · rw [hq']
    exact Or.inl rfl

theorem Housed.step (h : ℓ.Housed) (hs : Step svc lab ℓ ℓ') : ℓ'.Housed := by
  rcases hs with hs | hs | ⟨-, hs⟩
  · exact h.own hs
  · intro hentry
    rw [hs.frame.2.1]
    rcases hs.entry with heq | ⟨-, hnone⟩
    · exact h (heq ▸ hentry)
    · rw [hnone] at hentry
      cases hentry
  · obtain ⟨events, buffer, rfl⟩ := hs.frame
    exact h

end Life

namespace State

variable {svc : Service} {ok : State → Action → Prop} {s s' : State} {a : Action}

theorem housed_of_run (hs : FreshRun svc ok s) (h : ℕ) : (s.life h).Housed :=
  life_always Life.Housed (fun _ hentry => by cases hentry) (fun hlife hinv => hinv.step hlife) hs h

theorem abandoned_of_idle (hs : FreshRun svc ok s) {i : UInt32} {task : Task}
    (htask : s.manager.table i = some task) (hidle : (s.requests task.createAt).handler.idle) :
    (s.requests task.createAt).handler = .dropped ∨
      (s.requests task.createAt).handler = .panicked := by
  have hcoherent := coherent_of_run hs
  have hown := hcoherent.entry htask
  obtain ⟨hid, -⟩ := hcoherent.owned hown
  have hentry : (s.life task.createAt).entry.isSome := by
    rw [life_entry (hid.symm ▸ hown), hid, htask]
    rfl
  rcases housed_of_run hs task.createAt hentry with htasked | habandoned
  · replace htasked : (s.requests task.createAt).handler.tasked = true := htasked
    rw [(Handler.idle_spec hidle).1] at htasked
    cases htasked
  · exact habandoned

/-- The service on its own comes to an end, whatever its workers, its clients and the clock do,
and then every request has been answered or was abandoned, which alone leaves a task behind. -/
theorem requests_resolve (hs : Run svc ok s) (hlt : s.submitted < 2 ^ 32) :
    (∀ as t, (∀ a ∈ as, internal a) → Transition.run (step svc) s as = some t →
      as.length ≤ s.workload svc ∧ (t.Settled svc → (∀ h, (t.requests h).handler.idle) ∧
        ∀ i task, t.manager.table i = some task → (t.requests task.createAt).handler = .dropped ∨
          (t.requests task.createAt).handler = .panicked)) ∧
    ∃ as t, (∀ a ∈ as, internal a) ∧ Transition.run (step svc) s as = some t ∧ t.Settled svc := by
  have hstart : Run svc (fun _ _ => True) s ∧ s.submitted < 2 ^ 32 :=
    ⟨hs.mono fun _ _ _ => trivial, hlt⟩
  have hdescent : ∀ s a s', Run svc (fun _ _ => True) s ∧ s.submitted < 2 ^ 32 → internal a →
      s.step svc a = some s' → (Run svc (fun _ _ => True) s' ∧ s'.submitted < 2 ^ 32) ∧
        s'.workload svc < s.workload svc := by
    rintro s a s' ⟨hrun, hlt⟩ ha hstep
    have hfresh := (freshRun_of_submitted hrun hlt).1
    refine ⟨⟨hrun.step trivial hstep, ?_⟩, workload_lt_of_step hfresh ha hstep⟩
    rwa [submitted_of_internal ha hstep]
  constructor
  · intro as t has hrun
    obtain ⟨⟨ht, hlt'⟩, hlength⟩ := Transition.length_le_of_descent hdescent hstart
      (Transition.follows_of_all (fun a ha _ => has a ha) s) hrun
    refine ⟨by omega, ?_⟩
    intro hsettled
    have hidle := fun h => idle_of_still (hsettled (.request h .run) rfl)
      (hsettled (.request h .elapse) rfl)
    exact ⟨hidle, fun i task htask =>
      abandoned_of_idle (freshRun_of_submitted ht hlt').1 htask (hidle _)⟩
  · obtain ⟨as, t, has, hrun, -, hsettled⟩ := Transition.exists_settled hdescent hstart
    exact ⟨as, t, Transition.all_of_follows has hrun, hrun, hsettled⟩

theorem requests_resolve_echo : ∃ s,
    Transition.run (step echo) start ((echoRun [2]).take 8) = some s ∧
      (s.requests 0).handler = .waiting ∧
      ∃ t : State, t.Settled echo ∧ (t.requests 0).handler.idle := by
  have hview : ((Transition.run (step echo) start ((echoRun [2]).take 8)).map fun s =>
      (s.submitted, (s.requests 0).handler)) = some (1, .waiting) := by
    decide +kernel
  obtain ⟨s, hs, hfields⟩ := Option.map_eq_some_iff.mp hview
  obtain ⟨hsubmitted, hhandler⟩ := Prod.mk.inj hfields
  obtain ⟨hbounded, as, t, has, hrun, hsettled⟩ :=
    requests_resolve (Transition.reachable_of_run hs) (by rw [hsubmitted]; decide)
  exact ⟨s, hs, hhandler, t, hsettled, ((hbounded as t has hrun).2 hsettled).1 0⟩

end State

end Mosec
