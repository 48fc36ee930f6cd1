import Mosec.Owing

namespace Mosec

open Function (update update_self update_of_ne update_comm update_idem)

section Masked

variable {α : Type} {mask : Option UInt32} {f : UInt32 → Option α} {i j : UInt32}

def masked (mask : Option UInt32) (f : UInt32 → Option α) : UInt32 → Option α :=
  match mask with
  | none => f
  | some i => update f i none

theorem masked_apply (hj : mask ≠ some j) : masked mask f j = f j := by
  cases mask with
  | none => rfl
  | some i =>
    have hne : j ≠ i := by
      rintro rfl
      exact hj rfl
    exact update_of_ne hne _ _

theorem masked_update (hj : mask ≠ some j) (v : Option α) :
    masked mask (update f j v) = update (masked mask f) j v := by
  cases mask with
  | none => rfl
  | some i =>
    have hne : j ≠ i := by
      rintro rfl
      exact hj rfl
    exact update_comm hne _ _ _

theorem masked_update_self (v : Option α) : masked (some i) (update f i v) = masked (some i) f :=
  update_idem ..

theorem masked_of_none (h : f i = none) : masked (some i) f = f := by
  change update f i none = f
  rw [← h, Function.update_eq_self]

end Masked

namespace TaskManager

/-- The second manager is the first one without the entries of the submission `h`. Its gauge, its
history variables and the completion channel of `h` are left open. -/
structure Masks (mask : Option UInt32) (h : ℕ) (m₁ m₂ : TaskManager) : Prop where
  table : m₂.table = masked mask m₁.table
  notifiers : m₂.notifiers = masked mask m₁.notifiers
  streamSenders : m₂.streamSenders = m₁.streamSenders
  queues : m₂.queues = m₁.queues
  streams : m₂.streams = m₁.streams
  currentId : m₂.currentId = m₁.currentId
  oneshots : ∀ n, n ≠ h → m₂.oneshots n = m₁.oneshots n

namespace Masks

variable {mask : Option UInt32} {h n : ℕ} {m₁ m₂ : TaskManager} {j : UInt32}

theorem count (hm : Masks mask h m₁ m₂) (n : ℕ) (d : ℤ) :
    Masks mask h (m₁.count n d) (m₂.count n d) :=
  { hm with }

theorem record (hm : Masks mask h m₁ m₂) (items : List Item) (f : History → Item → History) :
    Masks mask h (m₁.record items f) (m₂.record items f) :=
  { hm with }

theorem takeId (hm : Masks mask h m₁ m₂) (n : ℕ) : Masks mask h (m₁.takeId n) (m₂.takeId n) :=
  { hm with currentId := congrArg (· + 1) hm.currentId }

theorem dropSender (hm : Masks mask h m₁ m₂) (hj : mask ≠ some j) (hn : n ≠ h) :
    m₂.dropSender j n = m₁.dropSender j n := by
  have hnotifier : m₂.notifiers j = m₁.notifiers j := by rw [hm.notifiers, masked_apply hj]
  rw [State.dropSender_apply, State.dropSender_apply, hnotifier, hm.oneshots n hn]

theorem insertNotifier (hm : Masks mask h m₁ m₂) (hj : mask ≠ some j) (n : ℕ) :
    Masks mask h (m₁.insertNotifier j n) (m₂.insertNotifier j n) :=
  { hm with
    notifiers := by
      rw [insertNotifier_notifiers, insertNotifier_notifiers, masked_update hj, hm.notifiers]
    oneshots := fun _ hn => hm.dropSender hj hn }

theorem deleteNotifier (hm : Masks mask h m₁ m₂) (hj : mask ≠ some j) :
    Masks mask h (m₁.deleteNotifier j) (m₂.deleteNotifier j) :=
  { hm with
    notifiers := by
      rw [deleteNotifier_notifiers, deleteNotifier_notifiers, masked_update hj, hm.notifiers]
    oneshots := fun _ hn => hm.dropSender hj hn }

theorem takeNotifier (hm : Masks mask h m₁ m₂) (hj : mask ≠ some j) :
    Masks mask h { m₁ with notifiers := update m₁.notifiers j none }
      { m₂ with notifiers := update m₂.notifiers j none } :=
  { hm with
    notifiers := by
      change update m₂.notifiers j none = masked mask (update m₁.notifiers j none)
      rw [masked_update hj, hm.notifiers] }

theorem insertTask (hm : Masks mask h m₁ m₂) (hj : mask ≠ some j) (task : Task) :
    Masks mask h (m₁.insertTask j task) (m₂.insertTask j task) :=
  { hm with
    table := by rw [insertTask_table, insertTask_table, masked_update hj, hm.table] }

theorem removeTask (hm : Masks mask h m₁ m₂) (hj : mask ≠ some j) :
    Masks mask h (m₁.removeTask j) (m₂.removeTask j) :=
  { hm with
    table := by rw [removeTask_table, removeTask_table, masked_update hj, hm.table] }

theorem setStreamSenders (hm : Masks mask h m₁ m₂) (senders : UInt32 → Option ℕ) :
    Masks mask h { m₁ with streamSenders := senders } { m₂ with streamSenders := senders } :=
  { hm with streamSenders := rfl }

theorem insertStream (hm : Masks mask h m₁ m₂) (n : ℕ) :
    Masks mask h (m₁.insertStream j n) (m₂.insertStream j n) := by
  rw [TaskManager.insertStream, TaskManager.insertStream, hm.streamSenders]
  exact hm.setStreamSenders _

theorem removeStream (hm : Masks mask h m₁ m₂) :
    Masks mask h (m₁.removeStream j) (m₂.removeStream j) := by
  rw [TaskManager.removeStream, TaskManager.removeStream, hm.streamSenders]
  exact hm.setStreamSenders _

theorem setQueues (hm : Masks mask h m₁ m₂) (queues : ℕ → List UInt32) :
    Masks mask h { m₁ with queues := queues } { m₂ with queues := queues } :=
  { hm with queues := rfl }

theorem push (hm : Masks mask h m₁ m₂) (r : ℕ) : Masks mask h (m₁.push r j) (m₂.push r j) := by
  rw [TaskManager.push, TaskManager.push, hm.queues]
  exact hm.setQueues _

theorem setStream (hm : Masks mask h m₁ m₂) (n : ℕ) (stream : Stream) :
    Masks mask h (m₁.setStream n stream) (m₂.setStream n stream) :=
  { hm with
    streams := by
      change update m₂.streams n stream = update m₁.streams n stream
      rw [hm.streams] }

theorem setOneshot (hm : Masks mask h m₁ m₂) (n : ℕ) (oneshot : Oneshot) :
    Masks mask h (m₁.setOneshot n oneshot) (m₂.setOneshot n oneshot) :=
  { hm with
    oneshots := by
      intro n' hn'
      change update m₂.oneshots n oneshot n' = update m₁.oneshots n oneshot n'
      by_cases hn : n' = n
      · rw [hn, update_self, update_self]
      · rw [update_of_ne hn, update_of_ne hn]
        exact hm.oneshots n' hn' }

theorem updateMultiTasks (hm : Masks mask h m₁ m₂) (code : TaskCode) {items : List Item}
    (hids : ∀ i ∈ items.map Item.id, mask ≠ some i) :
    Masks mask h (m₁.updateMultiTasks code items) (m₂.updateMultiTasks code items) :=
  { hm with
    table := by
      rw [updateMultiTasks_table, updateMultiTasks_table, hm.table]
      generalize m₁.table = table
      induction items generalizing table with
      | nil => rfl
      | cons item items ih =>
        have hid : mask ≠ some item.id := hids _ List.mem_cons_self
        rw [updateTable, updateTable, masked_apply hid, ← masked_update hid]
        exact ih (fun i hi => hids i (List.mem_cons_of_mem _ hi)) _ }

theorem table_apply (hm : Masks mask h m₁ m₂) (hj : mask ≠ some j) :
    m₂.table j = m₁.table j := by
  rw [hm.table, masked_apply hj]

theorem notifiers_apply (hm : Masks mask h m₁ m₂) (hj : mask ≠ some j) :
    m₂.notifiers j = m₁.notifiers j := by
  rw [hm.notifiers, masked_apply hj]

theorem getMultiTasksData (hm : Masks mask h m₁ m₂) (svc : Service) {ids : List UInt32}
    (hids : ∀ i ∈ ids, mask ≠ some i) :
    m₂.getMultiTasksData svc ids = m₁.getMultiTasksData svc ids := by
  apply List.filterMap_congr
  intro i hi
  rw [hm.table_apply (hids i hi)]

theorem abnormalTasks (hm : Masks mask h m₁ m₂) {items : List Item}
    (hids : ∀ i ∈ items.map Item.id, mask ≠ some i) :
    m₂.abnormalTasks items = m₁.abnormalTasks items := by
  apply List.filter_congr
  intro i hi
  rw [hm.table_apply (hids i hi)]

end Masks

end TaskManager

open TaskManager (Masks)

namespace Request

variable {svc : Service} {mask : Option UInt32} {h n : ℕ} {m₁ m₂ m₁' : TaskManager}
  {q q' : Request} {clones : Bool} {act : RequestAction}

theorem masks_close (hm : Masks mask h m₁ m₂) (hn : n ≠ h) :
    Masks mask h (close m₁ n) (close m₂ n) := by
  rw [close, close, hm.oneshots n hn]
  exact hm.setOneshot n _

theorem masks_run (hm : Masks mask h m₁ m₂) (hn : n ≠ h)
    (hid : q.handler.active → mask ≠ some q.id) (hstep : q.run svc m₁ n = some (m₁', q')) :
    ∃ m₂', q.run svc m₂ n = some (m₂', q') ∧ Masks mask h m₁' m₂' := by
  cases hq : q.handler with
  | takeId =>
    simp only [run, hq] at hstep ⊢
    cases hstep
    refine ⟨m₂.takeId n, ?_, hm.takeId n⟩
    rw [hm.currentId]
  | insertNotifier =>
    simp only [run, hq] at hstep ⊢
    cases hstep
    exact ⟨_, rfl, hm.insertNotifier (hid (by rw [hq]; rfl)) n⟩
  | insertTask =>
    simp only [run, hq] at hstep ⊢
    cases hstep
    exact ⟨_, rfl, hm.insertTask (hid (by rw [hq]; rfl)) _⟩
  | trySend =>
    simp only [run, hq, hm.queues] at hstep ⊢
    split at hstep
    · cases hstep
      exact ⟨_, rfl, masks_close hm hn⟩
    · split at hstep
      · rename_i hroom
        cases hstep
        exact ⟨_, if_pos hroom, hm.push _⟩
      · rename_i hfull
        cases hstep
        exact ⟨_, if_neg hfull, hm⟩
  | insertStream =>
    simp only [run, hq] at hstep ⊢
    cases hstep
    exact ⟨_, rfl, hm.insertStream n⟩
  | count =>
    simp only [run, hq] at hstep ⊢
    cases hstep
    exact ⟨_, rfl, hm.count n 1⟩
  | spawn =>
    simp only [run, hq] at hstep ⊢
    cases hstep
    exact ⟨_, rfl, hm⟩
  | takeTask =>
    have hmask := hid (by rw [hq]; rfl)
    simp only [run, hq, hm.table_apply hmask] at hstep ⊢
    split at hstep
    · cases hstep
      exact ⟨_, rfl, hm.removeTask hmask⟩
    · cases hstep
      exact ⟨_, rfl, hm⟩
  | deleteNotifier exit =>
    simp only [run, hq] at hstep ⊢
    cases hstep
    exact ⟨_, rfl, hm.deleteNotifier (hid (by rw [hq]; rfl))⟩
  | deleteTask exit =>
    simp only [run, hq] at hstep ⊢
    cases hstep
    exact ⟨_, rfl, hm.removeTask (hid (by rw [hq]; rfl))⟩
  | deleteStream =>
    simp only [run, hq] at hstep ⊢
    cases hstep
    exact ⟨_, rfl, hm.removeStream⟩
  | uncount outcome =>
    simp only [run, hq] at hstep ⊢
    cases hstep
    exact ⟨_, rfl, hm.count n (-1)⟩
  | absent => simp [run, hq] at hstep
  | waiting => simp [run, hq] at hstep
  | done => simp [run, hq] at hstep
  | dropped => simp [run, hq] at hstep
  | panicked => simp [run, hq] at hstep

theorem masks_receiveEvent (hm : Masks mask h m₁ m₂)
    (hstep : q.receiveEvent m₁ n clones = some (m₁', q')) :
    ∃ m₂', q.receiveEvent m₂ n clones = some (m₂', q') ∧ Masks mask h m₁' m₂' := by
  simp only [receiveEvent, hm.streams, hm.streamSenders] at hstep ⊢
  split at hstep
  · rename_i hguard
    rw [if_pos hguard]
    split at hstep
    · cases hstep
      exact ⟨_, rfl, hm.setStream n _⟩
    · split at hstep
      · rename_i hend
        cases hstep
        exact ⟨_, if_pos hend, hm.setStream n _⟩
      · cases hstep
  · cases hstep

theorem masks_step (hm : Masks mask h m₁ m₂) (hn : n ≠ h)
    (hid : q.handler.active → mask ≠ some q.id)
    (hstep : q.step svc m₁ n clones act = some (m₁', q')) :
    ∃ m₂', q.step svc m₂ n clones act = some (m₂', q') ∧ Masks mask h m₁' m₂' := by
  cases act with
  | run => exact masks_run hm hn hid hstep
  | receiveEvent => exact masks_receiveEvent hm hstep
  | resume =>
    simp only [step, resume, hm.oneshots n hn] at hstep ⊢
    split at hstep
    · rename_i hguard
      cases hstep
      exact ⟨_, if_pos hguard, hm⟩
    · cases hstep
  | elapse =>
    simp only [step, elapse] at hstep ⊢
    split at hstep
    · rename_i hguard
      cases hstep
      exact ⟨_, if_pos hguard, masks_close hm hn⟩
    · cases hstep
  | disconnect =>
    simp only [step, disconnect] at hstep ⊢
    split at hstep
    · rename_i hguard
      cases hstep
      exact ⟨_, if_pos hguard, masks_close hm hn⟩
    · cases hstep
  | leave =>
    simp only [step, leave, hm.streams] at hstep ⊢
    split at hstep
    · rename_i hguard
      cases hstep
      exact ⟨_, if_pos hguard, hm.setStream n _⟩
    · cases hstep

end Request

namespace Conn

variable {svc : Service} {mask : Option UInt32} {h : ℕ} {m₁ m₂ m₁' : TaskManager} {c c' : Conn}
  {act : ConnAction}

theorem masks_recv (hm : Masks mask h m₁ m₂) (hstep : c.recv svc m₁ = some (m₁', c')) :
    ∃ m₂', c.recv svc m₂ = some (m₂', c') ∧ Masks mask h m₁' m₂' := by
  simp only [recv, hm.queues] at hstep ⊢
  split at hstep
  · cases hstep
    exact ⟨_, rfl, hm.setQueues _⟩
  · cases hstep

theorem masks_push (hm : Masks mask h m₁ m₂) {stream : Stream} {n : ℕ} {event : Event}
    {next : Conn}
    (hstep : (if stream.closed then some (m₁, next)
      else if stream.buffer.length < streamCapacity then
        some (m₁.setStream n { stream with buffer := stream.buffer ++ [event] }, next)
      else none) = some (m₁', c')) :
    ∃ m₂', (if stream.closed then some (m₂, next)
      else if stream.buffer.length < streamCapacity then
        some (m₂.setStream n { stream with buffer := stream.buffer ++ [event] }, next)
      else none) = some (m₂', c') ∧ Masks mask h m₁' m₂' := by
  by_cases hclosed : stream.closed
  · rw [if_pos hclosed] at hstep ⊢
    cases hstep
    exact ⟨_, rfl, hm⟩
  · rw [if_neg hclosed] at hstep ⊢
    by_cases hroom : stream.buffer.length < streamCapacity
    · rw [if_pos hroom] at hstep ⊢
      cases hstep
      exact ⟨_, rfl, hm.setStream _ _⟩
    · rw [if_neg hroom] at hstep
      cases hstep

theorem masks_run (hm : Masks mask h m₁ m₂) (hids : ∀ i ∈ c.ids, mask ≠ some i)
    (htakes : ¬ c.point.Takes h) (hstep : c.run svc m₁ = some (m₁', c')) :
    ∃ m₂', c.run svc m₂ = some (m₂', c') ∧ Masks mask h m₁' m₂' := by
  have hpoint : ∀ i ∈ c.point.ids, mask ≠ some i := fun i hi =>
    hids i (List.mem_append_left _ hi)
  cases hp : c.point with
  | fetch ids =>
    rw [hp] at hpoint
    have hitems : m₂.getMultiTasksData svc ids = m₁.getMultiTasksData svc ids :=
      hm.getMultiTasksData svc hpoint
    simp only [run, hp, hitems] at hstep ⊢
    cases hstep
    exact ⟨_, rfl, hm⟩
  | update code items =>
    rw [hp] at hpoint
    have hafter : afterUpdate m₂ code items = afterUpdate m₁ code items := by
      rw [afterUpdate, afterUpdate, hm.abnormalTasks hpoint]
    simp only [run, hp, hafter] at hstep ⊢
    cases hstep
    exact ⟨_, rfl, hm.updateMultiTasks code hpoint⟩
  | events pushing todo jobs next =>
    cases pushing with
    | none =>
      cases todo with
      | nil =>
        simp only [run, hp] at hstep ⊢
        cases hstep
        exact ⟨_, rfl, hm⟩
      | cons e todo =>
        simp only [run, hp, hm.streamSenders] at hstep ⊢
        cases hstep
        exact ⟨_, rfl, hm⟩
    | some p =>
      simp only [run, hp, hm.streams] at hstep ⊢
      exact masks_push hm hstep
  | late pushing todo =>
    cases pushing with
    | none =>
      cases todo with
      | nil =>
        simp only [run, hp] at hstep ⊢
        cases hstep
        exact ⟨_, rfl, hm⟩
      | cons e todo =>
        simp only [run, hp, hm.streamSenders] at hstep ⊢
        cases hstep
        exact ⟨_, rfl, hm⟩
    | some p =>
      simp only [run, hp, hm.streams] at hstep ⊢
      exact masks_push hm hstep
  | work jobs next =>
    rw [hp] at hpoint
    cases jobs with
    | nil =>
      simp only [run, hp] at hstep ⊢
      cases hstep
      exact ⟨_, rfl, hm⟩
    | cons job jobs =>
      cases job with
      | send id =>
        have hid : mask ≠ some id := hpoint id List.mem_cons_self
        have hsend : sendTask svc m₂ id jobs next = sendTask svc m₁ id jobs next := by
          rw [sendTask, sendTask, hm.table_apply hid]
        simp only [run, hp, hsend] at hstep ⊢
        cases hstep
        exact ⟨_, rfl, hm⟩
      | notify id =>
        have hid : mask ≠ some id := hpoint id List.mem_cons_self
        simp only [run, hp, hm.notifiers_apply hid] at hstep ⊢
        split at hstep
        · cases hstep
          exact ⟨_, rfl, hm⟩
        · cases hstep
          exact ⟨_, rfl, hm.takeNotifier hid⟩
  | sending id r jobs next =>
    simp only [run, hp, hm.queues] at hstep ⊢
    split at hstep
    · rename_i hroom
      cases hstep
      exact ⟨_, if_pos hroom, hm.push r⟩
    · cases hstep
  | check id n jobs next =>
    rw [hp] at htakes
    simp only [run, hp, hm.oneshots n htakes] at hstep ⊢
    cases hstep
    exact ⟨_, rfl, hm⟩
  | signal id n jobs next =>
    rw [hp] at htakes
    simp only [run, hp, hm.oneshots n htakes] at hstep ⊢
    split at hstep
    · rename_i hclosed
      cases hstep
      exact ⟨_, if_pos hclosed, hm⟩
    · rename_i hopen
      cases hstep
      exact ⟨_, if_neg hopen, hm.setOneshot n _⟩
  | remove id jobs next =>
    rw [hp] at hpoint
    simp only [run, hp] at hstep ⊢
    cases hstep
    exact ⟨_, rfl, hm.removeTask (hpoint id List.mem_cons_self)⟩
  | uncount id jobs next =>
    simp only [run, hp] at hstep ⊢
    cases hstep
    refine ⟨_, rfl, ?_⟩
    split <;> split <;> exact { hm with }
  | collect ids => simp [run, hp] at hstep
  | write items => simp [run, hp] at hstep
  | read streamed => simp [run, hp] at hstep
  | closed => simp [run, hp] at hstep
  | panicked => simp [run, hp] at hstep

theorem masks_step (hm : Masks mask h m₁ m₂) (hids : ∀ i ∈ c.ids, mask ≠ some i)
    (htakes : ¬ c.point.Takes h) (hstep : c.step svc m₁ act = some (m₁', c')) :
    ∃ m₂', c.step svc m₂ act = some (m₂', c') ∧ Masks mask h m₁' m₂' := by
  cases act with
  | run => exact masks_run hm hids htakes hstep
  | recv => exact masks_recv hm hstep
  | timeUp =>
    simp only [step, timeUp] at hstep ⊢
    split at hstep
    · cases hstep
      exact ⟨_, rfl, hm⟩
    · cases hstep
  | writeOk =>
    simp only [step, writeOk] at hstep ⊢
    split at hstep
    · split at hstep
      · cases hstep
      · rename_i hopen
        cases hstep
        exact ⟨_, if_neg hopen, hm.record _ _⟩
    · cases hstep
  | writeErr =>
    simp only [step, writeErr] at hstep ⊢
    split at hstep
    · cases hstep
      exact ⟨_, rfl, hm⟩
    · cases hstep
  | readEvents items =>
    simp only [step, readEvents] at hstep ⊢
    split at hstep
    · cases hstep
      exact ⟨_, rfl, hm.record _ _⟩
    · cases hstep
  | readReply code items =>
    simp only [step, readReply] at hstep ⊢
    split at hstep
    · split at hstep
      · rename_i hguard
        cases hstep
        exact ⟨_, if_pos hguard, hm.record _ _⟩
      · cases hstep
    · cases hstep
  | readErr code items =>
    simp only [step, readErr] at hstep ⊢
    split at hstep
    · cases hstep
      exact ⟨_, rfl, hm⟩
    · split at hstep
      · rename_i hguard
        cases hstep
        exact ⟨_, if_pos hguard, hm.record _ _⟩
      · cases hstep
    · cases hstep

end Conn

end Mosec
