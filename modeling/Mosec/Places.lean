import Mosec.Custody
import Mosec.System

namespace Mosec

inductive Place where
  | queued (r : ℕ)
  | batched (r : ℕ)
  | framed (r : ℕ) (item : Item)
  | working (r : ℕ) (item : Item)
  | answered (code : TaskCode) (data : Bytes)
  | toSend
  | sending (r : ℕ)
  | toNotify
  | check
  | signal
  | remove
  | uncount
  deriving DecidableEq, Repr

structure Outbox where
  pushing : Option Event
  todo : List Event
  deriving DecidableEq, Repr

def Outbox.empty : Outbox := ⟨none, []⟩

inductive Holder where
  | queue (r : ℕ)
  | conn (k : ℕ)
  deriving DecidableEq, Repr

def Job.place : Job → Place
  | .send _ => .toSend
  | .notify _ => .toNotify

namespace Point

def ids : Point → List UInt32
  | .collect ids => ids
  | .fetch ids => ids
  | .write items => items.map Item.id
  | .read _ => []
  | .update _ items => items.map Item.id
  | .events _ _ jobs _ => jobs.map Job.id
  | .late _ _ => []
  | .work jobs _ => jobs.map Job.id
  | .sending id _ jobs _ => id :: jobs.map Job.id
  | .check id _ jobs _ => id :: jobs.map Job.id
  | .signal id _ jobs _ => id :: jobs.map Job.id
  | .remove id jobs _ => id :: jobs.map Job.id
  | .uncount id jobs _ => id :: jobs.map Job.id
  | .closed => []
  | .panicked => []

def itemOf (items : List Item) (i : UInt32) : Option Item := items.find? fun item => item.id = i

def jobOf (jobs : List Job) (i : UInt32) : Option Place :=
  (jobs.find? fun job => job.id = i).map Job.place

def place (r : ℕ) (i : UInt32) : Point → Option Place
  | .collect ids => if i ∈ ids then some (.batched r) else none
  | .fetch ids => if i ∈ ids then some (.batched r) else none
  | .write items => (itemOf items i).map (.framed r)
  | .read _ => none
  | .update code items => (itemOf items i).map fun item => .answered code item.data
  | .events _ _ jobs _ => jobOf jobs i
  | .late _ _ => none
  | .work jobs _ => jobOf jobs i
  | .sending id r' jobs _ => if id = i then some (.sending r') else jobOf jobs i
  | .check id _ jobs _ => if id = i then some .check else jobOf jobs i
  | .signal id _ jobs _ => if id = i then some .signal else jobOf jobs i
  | .remove id jobs _ => if id = i then some .remove else jobOf jobs i
  | .uncount id jobs _ => if id = i then some .uncount else jobOf jobs i
  | .closed => none
  | .panicked => none

def outbox (i : UInt32) : Point → Outbox
  | .events pushing todo _ _ =>
    ⟨(pushing.filter fun p => p.id = i).map Pushing.event,
      (todo.filter fun p => p.1 = i).map Prod.snd⟩
  | _ => .empty

end Point

namespace Conn

def ids (c : Conn) : List UInt32 := c.point.ids ++ c.outstanding.map Item.id

def place (c : Conn) (i : UInt32) : Option Place :=
  (c.point.place c.runtime i).or ((Point.itemOf c.outstanding i).map (.working c.runtime))

def view (c : Conn) (i : UInt32) : Option (Place × Outbox) :=
  (c.place i).map fun p => (p, c.point.outbox i)

end Conn

namespace State

def holds (s : State) : Holder → List UInt32
  | .queue r => s.manager.queues r
  | .conn k => (s.conns k).ids

def shows (s : State) : Holder → UInt32 → Option (Place × Outbox)
  | .queue r, i => if i ∈ s.manager.queues r then some (.queued r, .empty) else none
  | .conn k, i => (s.conns k).view i

noncomputable def carried (s : State) (i : UInt32) : Option (Place × Outbox) :=
  Custody.locate s.shows i

end State

namespace Point

theorem itemOf_isSome {items : List Item} {i : UInt32} :
    (itemOf items i).isSome ↔ i ∈ items.map Item.id := by
  simp [itemOf, List.find?_isSome]

theorem jobOf_isSome {jobs : List Job} {i : UInt32} :
    (jobOf jobs i).isSome ↔ i ∈ jobs.map Job.id := by
  simp [jobOf, List.find?_isSome]

@[simp] theorem itemOf_eq_none {items : List Item} {i : UInt32} :
    itemOf items i = none ↔ i ∉ items.map Item.id := by
  simp [itemOf]

@[simp] theorem jobOf_eq_none {jobs : List Job} {i : UInt32} :
    jobOf jobs i = none ↔ i ∉ jobs.map Job.id := by
  simp [jobOf]

theorem itemOf_mem {items : List Item} {i : UInt32} {item : Item} (h : itemOf items i = some item) :
    item ∈ items ∧ item.id = i :=
  ⟨List.mem_of_find?_eq_some h, by simpa using List.find?_some h⟩

@[simp] theorem itemOf_cons (item : Item) (items : List Item) (i : UInt32) :
    itemOf (item :: items) i = if item.id = i then some item else itemOf items i := by
  by_cases h : item.id = i <;> simp [itemOf, h]

@[simp] theorem jobOf_cons (job : Job) (jobs : List Job) (i : UInt32) :
    jobOf (job :: jobs) i = if job.id = i then some job.place else jobOf jobs i := by
  by_cases h : job.id = i <;> simp [jobOf, h]

theorem place_isSome (r : ℕ) (i : UInt32) (p : Point) : (p.place r i).isSome ↔ i ∈ p.ids := by
  have hcons : ∀ (id : UInt32) (p : Place) (jobs : List Job),
      (if id = i then some p else jobOf jobs i).isSome ↔ i ∈ id :: jobs.map Job.id := by
    intro id p jobs
    by_cases h : id = i
    · simp [h]
    · rw [if_neg h, jobOf_isSome, List.mem_cons]
      simp [Ne.symm h]
  cases p with
  | collect ids => by_cases h : i ∈ ids <;> simp [place, Point.ids, h]
  | fetch ids => by_cases h : i ∈ ids <;> simp [place, Point.ids, h]
  | write items => simp [place, Point.ids, itemOf_isSome]
  | read => simp [place, Point.ids]
  | update => simp [place, Point.ids, itemOf_isSome]
  | events => exact jobOf_isSome
  | late => simp [place, Point.ids]
  | work => exact jobOf_isSome
  | sending => exact hcons _ _ _
  | check => exact hcons _ _ _
  | signal => exact hcons _ _ _
  | remove => exact hcons _ _ _
  | uncount => exact hcons _ _ _
  | closed => simp [place, Point.ids]
  | panicked => simp [place, Point.ids]

end Point

theorem Conn.view_isSome (c : Conn) (i : UInt32) : (c.view i).isSome ↔ i ∈ c.ids := by
  rw [Conn.view, Option.isSome_map, Conn.place, Option.isSome_or, Bool.or_eq_true,
    Point.place_isSome, Option.isSome_map, Point.itemOf_isSome, Conn.ids, List.mem_append]

theorem Conn.view_eq_none {c : Conn} {i : UInt32} : c.view i = none ↔ i ∉ c.ids := by
  rw [← c.view_isSome, Option.not_isSome_iff_eq_none]

namespace State

theorem shows_holds (s : State) : Custody.Shows s.shows s.holds := by
  intro a i
  cases a with
  | queue r => by_cases h : i ∈ s.manager.queues r <;> simp [shows, holds, h]
  | conn k => exact (s.conns k).view_isSome i

variable {s : State}

theorem carried_conn (hs : Custody.Exclusive s.holds) {k : ℕ} {i : UInt32}
    (h : i ∈ (s.conns k).ids) : s.carried i = (s.conns k).view i :=
  Custody.locate_eq s.shows_holds hs (a := .conn k) h

theorem carried_queue (hs : Custody.Exclusive s.holds) {r : ℕ} {i : UInt32}
    (h : i ∈ s.manager.queues r) : s.carried i = some (.queued r, .empty) := by
  rw [carried, Custody.locate_eq s.shows_holds hs (a := .queue r) h]
  simp [shows, h]

theorem carried_none {i : UInt32} (h : ∀ a, i ∉ s.holds a) : s.carried i = none := by
  apply Custody.locate_eq_none
  intro a
  rw [← Option.not_isSome_iff_eq_none, s.shows_holds a i]
  exact h a

theorem carried_congr {s' : State} {i : UInt32} (h : ∀ a, s'.shows a i = s.shows a i) :
    s'.carried i = s.carried i :=
  Custody.locate_congr h

end State

end Mosec
