import Mosec.Potential
import Mosec.Leaks
import Mosec.ShmAccounting

namespace Mosec

open Function (update update_self update_of_ne)

def Service.hopsLeft (svc : Service) (task : Task) : ℕ :=
  ((svc.senders task.route).getD []).length - task.stage

def hopsAt (svc : Service) (table : UInt32 → Option Task) (i : UInt32) : ℕ :=
  (table i).elim 0 svc.hopsLeft

def allIds : Finset UInt32 := (Finset.range UInt32.size).image UInt32.ofNat

theorem mem_allIds (i : UInt32) : i ∈ allIds := by
  apply Finset.mem_image.mpr
  exact ⟨i.toNat, Finset.mem_range.mpr i.toNat_lt_size, UInt32.ofNat_toNat⟩

def hopsOf (svc : Service) (table : UInt32 → Option Task) : ℕ := ∑ i ∈ allIds, hopsAt svc table i

/-- What `send_task` costs: a task with a stage to go has to be taken to the queue of it. `e` is
what an id costs for the connections that may still fail under it. -/
def Job.workload (svc : Service) (table : UInt32 → Option Task) (e : ℕ) : Job → ℕ
  | .send id => if hopsAt svc table id = 0 then 6 else 20 + e
  | .notify _ => 5

def jobsWorkload (svc : Service) (table : UInt32 → Option Task) (e : ℕ) (jobs : List Job) : ℕ :=
  (jobs.map (Job.workload svc table e)).sum

def Next.workload : Next → ℕ
  | .read => 5
  | .collect => 0
  | .closed => 0

def Point.workload (svc : Service) (table : UInt32 → Option Task) (e : ℕ) : Point → ℕ
  | .collect [] => 0
  | .collect (_ :: ids) => 8 + (ids.length + 1) * (8 + e)
  | .fetch ids => 7 + ids.length * (8 + e)
  | .write items => 6 + items.length * (8 + e)
  | .read _ => 5
  | .update _ items => 4 + items.length * (8 + e)
  | .events pushing todo jobs next =>
    next.workload + 2 + (if pushing.isSome then 2 else 0) + 3 * todo.length +
      jobsWorkload svc table e jobs
  | .late pushing todo => 6 + (if pushing.isSome then 2 else 0) + 3 * todo.length
  | .work jobs next => next.workload + 1 + jobsWorkload svc table e jobs
  | .sending _ _ jobs next => next.workload + 20 + e + jobsWorkload svc table e jobs
  | .check _ _ jobs next => next.workload + 5 + jobsWorkload svc table e jobs
  | .signal _ _ jobs next => next.workload + 4 + jobsWorkload svc table e jobs
  | .remove _ jobs next => next.workload + 4 + jobsWorkload svc table e jobs
  | .uncount _ jobs next => next.workload + 3 + jobsWorkload svc table e jobs
  | .closed => 0
  | .panicked => 0

namespace Conn

def failures (c : Conn) : ℕ := if c.point.next = .closed then 0 else if c.broken then 1 else 2

def workload (svc : Service) (table : UInt32 → Option Task) (e : ℕ) (c : Conn) : ℕ :=
  c.point.workload svc table e + c.outstanding.length * (8 + e)

end Conn

namespace Request

def workload (svc : Service) (e : ℕ) (q : Request) : ℕ :=
  let hops := 12 * ((svc.senders q.key).getD []).length
  match q.handler with
  | .takeId => 30 + e + hops
  | .insertNotifier => 29 + e + hops
  | .insertTask => 28 + e + hops
  | .trySend => 27 + e
  | .insertStream => 8
  | .count => 7
  | .spawn => 6
  | .waiting => 5
  | .deleteNotifier _ => 4
  | .deleteTask _ => 3
  | .takeTask => 2
  | .deleteStream => 2
  | .uncount _ => 1
  | _ => 0

end Request

def Stream.workload (stream : Stream) : ℕ :=
  stream.buffer.length + if stream.ended then 0 else 1

namespace State

def failures (s : State) : ℕ := ∑ k ∈ Finset.range s.connected, (s.conns k).failures

def managed (svc : Service) (e n : ℕ) (m : TaskManager) : ℕ :=
  12 * hopsOf svc m.table +
    (∑ r ∈ Finset.range svc.runtimes.length, (m.queues r).length) * (18 + e) +
    ∑ h ∈ Finset.range n, (m.streams h).workload

/-- A bound on the steps that the service can still take on its own. -/
def workload (svc : Service) (s : State) : ℕ :=
  let e := 12 * s.failures
  managed svc e s.submitted s.manager +
    ∑ h ∈ Finset.range s.submitted, (s.requests h).workload svc e +
    ∑ k ∈ Finset.range s.connected, (s.conns k).workload svc s.manager.table e

end State

section Hops

variable {svc : Service} {table table' : UInt32 → Option Task} {e e' : ℕ}

theorem hopsOf_update (svc : Service) (table : UInt32 → Option Task) (i : UInt32)
    (entry : Option Task) :
    hopsOf svc (update table i entry) + hopsAt svc table i =
      hopsOf svc table + entry.elim 0 svc.hopsLeft :=
  Transition.sum_update_eq (mem_allIds i) (fun entry => Option.elim entry 0 svc.hopsLeft) table
    entry

theorem hopsLeft_update (svc : Service) (task : Task) (code : TaskCode) (data : Bytes) :
    svc.hopsLeft (task.update code data) = svc.hopsLeft task - 1 :=
  (Nat.sub_sub ..).symm

theorem hopsAt_update (svc : Service) (table : UInt32 → Option Task) (i j : UInt32)
    (entry : Option Task) : hopsAt svc (update table i entry) j =
      if j = i then entry.elim 0 svc.hopsLeft else hopsAt svc table j := by
  by_cases hj : j = i
  · rw [if_pos hj, hj, hopsAt, update_self]
  · rw [if_neg hj, hopsAt, update_of_ne hj, hopsAt]

theorem hopsAt_remove (svc : Service) (table : UInt32 → Option Task) (i j : UInt32) :
    hopsAt svc (update table i none) j ≤ hopsAt svc table j := by
  rw [hopsAt_update]
  split
  · exact Nat.zero_le _
  · exact le_rfl

theorem elim_update (svc : Service) (table : UInt32 → Option Task) (i : UInt32) (code : TaskCode)
    (data : Bytes) :
    ((table i).map fun task => task.update code data).elim 0 svc.hopsLeft =
      hopsAt svc table i - 1 := by
  rw [hopsAt]
  cases table i with
  | none => rfl
  | some task => exact hopsLeft_update svc task code data

theorem hopsAt_updateTable (svc : Service) (code : TaskCode) (items : List Item)
    (table : UInt32 → Option Task) (i : UInt32) :
    hopsAt svc (TaskManager.updateTable code items table) i ≤ hopsAt svc table i := by
  induction items generalizing table with
  | nil => exact le_rfl
  | cons item items ih =>
    rw [TaskManager.updateTable]
    apply (ih _).trans
    rw [hopsAt_update, elim_update]
    split
    case isTrue hi =>
      rw [hi]
      exact Nat.sub_le _ _
    case isFalse => exact le_rfl

theorem hopsOf_mono (h : ∀ i, hopsAt svc table' i ≤ hopsAt svc table i) :
    hopsOf svc table' ≤ hopsOf svc table :=
  Finset.sum_le_sum fun i _ => h i

theorem sendJobs_workload (svc : Service) (e : ℕ) (code : TaskCode) (items : List Item)
    (table : UInt32 → Option Task) :
    jobsWorkload svc (TaskManager.updateTable code items table) e
        (items.map fun item => .send item.id) +
      12 * hopsOf svc (TaskManager.updateTable code items table) ≤
      items.length * (8 + e) + 12 * hopsOf svc table := by
  induction items generalizing table with
  | nil => simp [jobsWorkload, TaskManager.updateTable]
  | cons item items ih =>
    set entry := (table item.id).map fun task => task.update code item.data with hentry
    have helim : entry.elim 0 svc.hopsLeft = hopsAt svc table item.id - 1 :=
      elim_update svc table item.id code item.data
    have hrest := ih (update table item.id entry)
    have hsum := hopsOf_update svc table item.id entry
    have hlater := hopsAt_updateTable svc code items (update table item.id entry) item.id
    rw [hopsAt_update, if_pos rfl, helim] at hlater
    rw [helim] at hsum
    rw [TaskManager.updateTable, ← hentry]
    simp only [jobsWorkload, List.map_cons, List.sum_cons, Job.workload, List.length_cons,
      Nat.add_mul, Nat.one_mul] at hrest ⊢
    split <;> omega

theorem jobsWorkload_cons (job : Job) (jobs : List Job) :
    jobsWorkload svc table e (job :: jobs) =
      job.workload svc table e + jobsWorkload svc table e jobs := by
  simp [jobsWorkload]

theorem jobsWorkload_notify (ids : List UInt32) :
    jobsWorkload svc table e (ids.map .notify) = ids.length * 5 := by
  induction ids with
  | nil => rfl
  | cons id ids ih =>
    rw [List.map_cons, jobsWorkload_cons, ih, List.length_cons, Job.workload]
    omega

theorem jobsWorkload_send_le (svc : Service) (table : UInt32 → Option Task) (e : ℕ)
    (items : List Item) :
    jobsWorkload svc table e (items.map fun item => .send item.id) ≤ items.length * (20 + e) := by
  induction items with
  | nil => exact Nat.zero_le _
  | cons item items ih =>
    rw [List.map_cons, jobsWorkload_cons, List.length_cons, Nat.add_mul, Nat.one_mul]
    have hjob : (Job.send item.id).workload svc table e ≤ 20 + e := by
      simp only [Job.workload]
      split <;> omega
    omega

theorem jobsWorkload_mono {jobs : List Job} (he : e' ≤ e)
    (h : ∀ i ∈ jobs.map Job.id, hopsAt svc table' i ≤ hopsAt svc table i) :
    jobsWorkload svc table' e' jobs ≤ jobsWorkload svc table e jobs := by
  induction jobs with
  | nil => exact le_rfl
  | cons job jobs ih =>
    have hrest := ih fun i hi => h i (List.mem_cons_of_mem _ hi)
    have hjob : job.workload svc table' e' ≤ job.workload svc table e := by
      cases job with
      | send id =>
        have hid := h id List.mem_cons_self
        simp only [Job.workload]
        split <;> split <;> omega
      | notify id => exact le_rfl
    rw [jobsWorkload_cons, jobsWorkload_cons]
    omega

end Hops

section Mono

variable {svc : Service} {table table' : UInt32 → Option Task} {e e' : ℕ}

theorem Point.workload_mono (p : Point) (he : e' ≤ e)
    (h : ∀ i ∈ p.ids, hopsAt svc table' i ≤ hopsAt svc table i) :
    p.workload svc table' e' ≤ p.workload svc table e := by
  have hmul : ∀ n, n * (8 + e') ≤ n * (8 + e) := fun n => Nat.mul_le_mul_left n (by omega)
  cases p with
  | collect ids =>
    cases ids with
    | nil => exact le_rfl
    | cons id ids => exact Nat.add_le_add_left (hmul _) _
  | fetch ids => exact Nat.add_le_add_left (hmul _) _
  | write items => exact Nat.add_le_add_left (hmul _) _
  | update code items => exact Nat.add_le_add_left (hmul _) _
  | events pushing todo jobs next => exact Nat.add_le_add_left (jobsWorkload_mono he h) _
  | work jobs next => exact Nat.add_le_add_left (jobsWorkload_mono he h) _
  | sending id r jobs next =>
    have hjobs := jobsWorkload_mono he fun i hi => h i (List.mem_cons_of_mem _ hi)
    simp only [Point.workload]
    omega
  | check id n jobs next =>
    exact Nat.add_le_add_left (jobsWorkload_mono he fun i hi => h i (List.mem_cons_of_mem _ hi)) _
  | signal id n jobs next =>
    exact Nat.add_le_add_left (jobsWorkload_mono he fun i hi => h i (List.mem_cons_of_mem _ hi)) _
  | remove id jobs next =>
    exact Nat.add_le_add_left (jobsWorkload_mono he fun i hi => h i (List.mem_cons_of_mem _ hi)) _
  | uncount id jobs next =>
    exact Nat.add_le_add_left (jobsWorkload_mono he fun i hi => h i (List.mem_cons_of_mem _ hi)) _
  | _ => exact le_rfl

theorem Conn.workload_mono (c : Conn) (he : e' ≤ e)
    (h : ∀ i ∈ c.ids, hopsAt svc table' i ≤ hopsAt svc table i) :
    c.workload svc table' e' ≤ c.workload svc table e := by
  have hpoint := c.point.workload_mono he fun i hi => h i (List.mem_append_left _ hi)
  have hout : c.outstanding.length * (8 + e') ≤ c.outstanding.length * (8 + e) :=
    Nat.mul_le_mul_left _ (by omega)
  exact Nat.add_le_add hpoint hout

theorem Request.workload_mono (q : Request) (he : e' ≤ e) :
    q.workload svc e' ≤ q.workload svc e := by
  simp only [Request.workload]
  cases q.handler <;> simp only <;> omega

theorem State.managed_mono (svc : Service) (n : ℕ) (m : TaskManager) (he : e' ≤ e) :
    managed svc e' n m ≤ managed svc e n m := by
  have hqueues := Nat.mul_le_mul_left (∑ r ∈ Finset.range svc.runtimes.length, (m.queues r).length)
    (show 18 + e' ≤ 18 + e by omega)
  simp only [managed]
  omega

end Mono

section Queues

variable {svc : Service} {m : TaskManager} {e n : ℕ}

theorem managed_queue {r : ℕ} (hr : r < svc.runtimes.length) (queue : List UInt32) :
    State.managed svc e n { m with queues := update m.queues r queue } +
        (m.queues r).length * (18 + e) =
      State.managed svc e n m + queue.length * (18 + e) := by
  have hsum := Transition.sum_update_eq (Finset.mem_range.mpr hr) List.length m.queues queue
  have hmul := congrArg (· * (18 + e)) hsum
  simp only [Nat.add_mul] at hmul
  simp only [State.managed]
  omega

theorem managed_queue_of_le {r : ℕ} (hr : svc.runtimes.length ≤ r) (queue : List UInt32) :
    State.managed svc e n { m with queues := update m.queues r queue } =
      State.managed svc e n m := by
  have hnot : r ∉ Finset.range svc.runtimes.length := by simpa using hr
  have hsum := Transition.sum_update_of_notMem hnot List.length m.queues queue
  simp only [State.managed]
  rw [hsum]

theorem managed_push (svc : Service) (m : TaskManager) (e n r : ℕ) (i : UInt32) :
    State.managed svc e n (m.push r i) ≤ State.managed svc e n m + (18 + e) := by
  by_cases hr : r < svc.runtimes.length
  · have hqueue := managed_queue (m := m) (e := e) (n := n) hr (m.queues r ++ [i])
    rw [List.length_append, List.length_singleton, Nat.add_mul, Nat.one_mul] at hqueue
    have hpush : m.push r i = { m with queues := update m.queues r (m.queues r ++ [i]) } := rfl
    rw [hpush]
    omega
  · have hle : svc.runtimes.length ≤ r := by omega
    have hqueue := managed_queue_of_le (m := m) (e := e) (n := n) hle (m.queues r ++ [i])
    have hpush : m.push r i = { m with queues := update m.queues r (m.queues r ++ [i]) } := rfl
    rw [hpush, hqueue]
    omega

theorem managed_stream (svc : Service) (m : TaskManager) (e : ℕ) {h n : ℕ} (hh : h < n)
    (stream : Stream) :
    State.managed svc e n (m.setStream h stream) + (m.streams h).workload =
      State.managed svc e n m + stream.workload := by
  have hsum := Transition.sum_update_eq (Finset.mem_range.mpr hh) Stream.workload m.streams stream
  simp only [State.managed, TaskManager.setStream]
  omega

theorem managed_event (svc : Service) (e n : ℕ) (h : ℕ) (event : Event) :
    State.managed svc e n (m.setStream h
        { m.streams h with buffer := (m.streams h).buffer ++ [event] }) ≤
      State.managed svc e n m + 1 := by
  generalize hstream : { m.streams h with buffer := (m.streams h).buffer ++ [event] } = stream
  have hle : stream.workload ≤ (m.streams h).workload + 1 := by
    rw [← hstream]
    simp only [Stream.workload, List.length_append, List.length_singleton]
    omega
  by_cases hh : h < n
  · have hsum := managed_stream svc m e hh stream
    omega
  · have hnot : h ∉ Finset.range n := by simpa using hh
    have hsum := Transition.sum_update_of_notMem hnot Stream.workload m.streams stream
    simp only [State.managed, TaskManager.setStream]
    omega

theorem managed_table (svc : Service) (m : TaskManager) (e n : ℕ)
    (table : UInt32 → Option Task) :
    State.managed svc e n { m with table := table } + 12 * hopsOf svc m.table =
      State.managed svc e n m + 12 * hopsOf svc table := by
  simp only [State.managed]
  omega

theorem managed_of_eq {m' : TaskManager} (htable : m'.table = m.table)
    (hqueues : m'.queues = m.queues) (hstreams : m'.streams = m.streams) :
    State.managed svc e n m' = State.managed svc e n m := by
  simp only [State.managed, htable, hqueues, hstreams]

end Queues

end Mosec
