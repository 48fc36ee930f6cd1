import Mathlib.Data.List.Flatten
import Mosec.Connection
import Mosec.Transition

namespace Mosec

open List

/-- Where a call of `get_batch` waits: for its first id, in `inner_batch`, or not any more. -/
inductive BatchPoint where
  | first
  | inner
  | returned (timedOut : Bool)
  deriving DecidableEq, Repr

structure BatchCall (α : Type) where
  ids : List α
  receives : ℕ
  point : BatchPoint
  deriving DecidableEq, Repr

/-- A channel with the calls made on clones of its receiver; `sent` is its history. -/
structure Batching (α : Type) where
  sent : List α
  queue : List α
  calls : List (BatchCall α)
  deriving DecidableEq, Repr

inductive BatchAction (α : Type) where
  | send (id : α)
  | call
  | recv (k : ℕ)
  | timeUp (k : ℕ)
  deriving DecidableEq, Repr

namespace BatchCall

variable {α : Type}

def new : BatchCall α := ⟨[], 0, .first⟩

def recv (b : ℕ) (call : BatchCall α) (id : α) : Option (BatchCall α) :=
  let ids := call.ids ++ [id]
  match call.point with
  | .first => some ⟨ids, call.receives + 1, if b ≤ 1 then .returned false else .inner⟩
  | .inner => some ⟨ids, call.receives + 1, if ids.length = b then .returned false else .inner⟩
  | .returned _ => none

def timeUp (call : BatchCall α) : Option (BatchCall α) :=
  match call.point with
  | .inner => some { call with point := .returned true }
  | _ => none

def returned (call : BatchCall α) : Bool :=
  match call.point with
  | .returned _ => true
  | _ => false

end BatchCall

namespace Batching

variable {α : Type}

def empty : Batching α := ⟨[], [], []⟩

def step (b : ℕ) (s : Batching α) : BatchAction α → Option (Batching α)
  | .send id => some { s with sent := s.sent ++ [id], queue := s.queue ++ [id] }
  | .call => some { s with calls := s.calls ++ [.new] }
  | .recv k =>
    match s.calls[k]?, s.queue with
    | some call, id :: queue => (call.recv b id).map fun call' =>
        { s with queue := queue, calls := s.calls.set k call' }
    | _, _ => none
  | .timeUp k =>
    match s.calls[k]? with
    | some call => call.timeUp.map fun call' => { s with calls := s.calls.set k call' }
    | none => none

def batches (s : Batching α) : List (List α) :=
  (s.calls.filter BatchCall.returned).map BatchCall.ids

def held (s : Batching α) : List α :=
  (s.calls.filter fun call => !call.returned).flatMap BatchCall.ids

end Batching

namespace BatchCall

variable {α : Type} {b : ℕ} {call call' : BatchCall α} {id : α}

def Sized (b : ℕ) (call : BatchCall α) : Prop :=
  match call.point with
  | .first => call.ids = []
  | .inner => 0 < call.ids.length ∧ call.ids.length < b
  | .returned timedOut =>
    0 < call.ids.length ∧ call.ids.length ≤ b ∧ (timedOut = false → call.ids.length = b)

theorem recv_ids (h : call.recv b id = some call') :
    call'.ids = call.ids ++ [id] ∧ call'.receives = call.receives + 1 := by
  unfold recv at h
  cases hpoint : call.point with
  | first | inner =>
    rw [hpoint] at h
    cases h
    exact ⟨rfl, rfl⟩
  | returned timedOut =>
    rw [hpoint] at h
    cases h

theorem timeUp_ids (h : call.timeUp = some call') :
    call'.ids = call.ids ∧ call'.receives = call.receives := by
  unfold timeUp at h
  split at h
  · cases h
    exact ⟨rfl, rfl⟩
  · cases h

theorem Sized.recv (hb : 1 ≤ b) (hs : call.Sized b) (h : call.recv b id = some call') :
    call'.Sized b := by
  unfold BatchCall.recv at h
  cases hpoint : call.point with
  | first =>
    simp only [Sized, hpoint] at hs
    simp only [hpoint, Option.some.injEq] at h
    subst h
    by_cases hone : b ≤ 1
    · simp only [Sized, hs, hone, ↓reduceIte, nil_append, length_singleton]
      omega
    · simp only [Sized, hs, hone, ↓reduceIte, nil_append, length_singleton]
      omega
  | inner =>
    simp only [Sized, hpoint] at hs
    simp only [hpoint, Option.some.injEq] at h
    subst h
    by_cases hfull : (call.ids ++ [id]).length = b
    · simp only [Sized, hfull, ↓reduceIte, le_refl, implies_true, and_self, and_true]
      exact hb
    · simp only [Sized, hfull, ↓reduceIte]
      simp only [length_append, length_singleton] at hfull ⊢
      omega
  | returned timedOut =>
    rw [hpoint] at h
    cases h

theorem Sized.timeUp (hs : call.Sized b) (h : call.timeUp = some call') : call'.Sized b := by
  unfold BatchCall.timeUp at h
  split at h
  · rename_i hpoint
    cases h
    simp only [Sized, hpoint] at hs
    exact ⟨hs.1, hs.2.le, fun hfalse => Bool.noConfusion hfalse⟩
  · cases h

end BatchCall

namespace Batching

variable {α : Type} {b : ℕ} {s s' : Batching α}

theorem exists_split {l : List α} {k : ℕ} {x : α} (h : l[k]? = some x) :
    ∃ before after, l = before ++ x :: after ∧ ∀ y, l.set k y = before ++ y :: after := by
  obtain ⟨hk, rfl⟩ := List.getElem?_eq_some_iff.mp h
  refine ⟨l.take k, l.drop (k + 1), ?_, fun y => ?_⟩
  · rw [← drop_eq_getElem_cons hk, take_append_drop]
  · rw [set_eq_take_append_cons_drop, if_pos hk]

theorem step_recv {k : ℕ} (h : s.step b (.recv k) = some s') :
    ∃ before call after id queue call', s.calls = before ++ call :: after ∧
      s.queue = id :: queue ∧ call.recv b id = some call' ∧
      s' = { s with queue := queue, calls := before ++ call' :: after } := by
  simp only [step] at h
  split at h
  · rename_i call id queue hcall hqueue
    obtain ⟨call', hrecv, rfl⟩ := Option.map_eq_some_iff.mp h
    obtain ⟨before, after, hcalls, hset⟩ := exists_split hcall
    exact ⟨before, call, after, id, queue, call', hcalls, hqueue, hrecv, by rw [hset]⟩
  · cases h

theorem step_timeUp {k : ℕ} (h : s.step b (.timeUp k) = some s') :
    ∃ before call after call', s.calls = before ++ call :: after ∧ call.timeUp = some call' ∧
      s' = { s with calls := before ++ call' :: after } := by
  simp only [step] at h
  split at h
  · rename_i call hcall
    obtain ⟨call', htime, rfl⟩ := Option.map_eq_some_iff.mp h
    obtain ⟨before, after, hcalls, hset⟩ := exists_split hcall
    exact ⟨before, call, after, call', hcalls, htime, by rw [hset]⟩
  · cases h

structure CallInv (b : ℕ) (s : Batching α) (call : BatchCall α) : Prop where
  sized : call.Sized b
  receives : call.receives = call.ids.length
  order : (call.ids ++ s.queue).Sublist s.sent

structure Inv (b : ℕ) (s : Batching α) : Prop where
  calls : ∀ call ∈ s.calls, CallInv b s call
  queue : s.queue.Sublist s.sent
  accounted : (s.calls.flatMap BatchCall.ids ++ s.queue).Perm s.sent

theorem inv_empty : Inv b (empty : Batching α) where
  calls := by simp [empty]
  queue := .refl _
  accounted := .refl _

theorem Inv.send (h : Inv b s) (id : α) :
    Inv b { s with sent := s.sent ++ [id], queue := s.queue ++ [id] } where
  calls call hcall := by
    have hinv := h.calls call hcall
    refine ⟨hinv.sized, hinv.receives, ?_⟩
    rw [← append_assoc]
    exact hinv.order.append_right [id]
  queue := h.queue.append_right [id]
  accounted := by
    rw [← append_assoc]
    exact h.accounted.append_right [id]

theorem Inv.call (h : Inv b s) : Inv b { s with calls := s.calls ++ [.new] } where
  calls call hcall := by
    rcases mem_append.mp hcall with hcall | hcall
    · exact ⟨(h.calls call hcall).sized, (h.calls call hcall).receives, (h.calls call hcall).order⟩
    · rw [mem_singleton.mp hcall]
      exact ⟨rfl, rfl, h.queue⟩
  queue := h.queue
  accounted := by simpa [BatchCall.new] using h.accounted

theorem Inv.recv (hb : 1 ≤ b) (h : Inv b s) {k : ℕ} (hstep : s.step b (.recv k) = some s') :
    Inv b s' := by
  obtain ⟨before, call, after, id, queue, call', hcalls, hqueue, hrecv, rfl⟩ := step_recv hstep
  have hinv := h.calls call (by simp [hcalls])
  obtain ⟨hids, hreceives⟩ := BatchCall.recv_ids hrecv
  have hsub : queue.Sublist s.queue := hqueue ▸ sublist_cons_self id queue
  have hcall' : CallInv b { s with queue := queue, calls := before ++ call' :: after } call' := by
    refine ⟨hinv.sized.recv hb hrecv, ?_, ?_⟩
    · rw [hreceives, hids, hinv.receives, length_append, length_singleton]
    · have horder := hinv.order
      rw [hqueue] at horder
      rwa [hids, append_assoc, singleton_append]
  refine ⟨?_, hsub.trans h.queue, ?_⟩
  · intro other hother
    have hother : other = call' ∨ other ∈ s.calls := by
      rw [hcalls]
      simp only [mem_append, mem_cons] at hother ⊢
      tauto
    rcases hother with rfl | hother
    · exact hcall'
    · have hinv := h.calls other hother
      exact ⟨hinv.sized, hinv.receives, (hsub.append_left _).trans hinv.order⟩
  · have haccounted := h.accounted
    simp only [hcalls, hqueue, flatMap_append, flatMap_cons, append_assoc] at haccounted
    simp only [flatMap_append, flatMap_cons, hids, append_assoc, singleton_append]
    refine Perm.trans ((Perm.append_left _ (Perm.append_left _ ?_))) haccounted
    exact perm_middle.symm

theorem Inv.timeUp (h : Inv b s) {k : ℕ} (hstep : s.step b (.timeUp k) = some s') :
    Inv b s' := by
  obtain ⟨before, call, after, call', hcalls, htime, rfl⟩ := step_timeUp hstep
  have hinv := h.calls call (by simp [hcalls])
  obtain ⟨hids, hreceives⟩ := BatchCall.timeUp_ids htime
  refine ⟨?_, h.queue, ?_⟩
  · intro other hother
    have hother : other = call' ∨ other ∈ s.calls := by
      rw [hcalls]
      simp only [mem_append, mem_cons] at hother ⊢
      tauto
    rcases hother with rfl | hother
    · refine ⟨hinv.sized.timeUp htime, ?_, ?_⟩
      · rw [hreceives, hids, hinv.receives]
      · rw [hids]
        exact hinv.order
    · have hinv := h.calls other hother
      exact ⟨hinv.sized, hinv.receives, hinv.order⟩
  · have haccounted := h.accounted
    rw [hcalls] at haccounted
    simpa only [flatMap_append, flatMap_cons, hids] using haccounted

theorem Inv.step (hb : 1 ≤ b) (h : Inv b s) {a : BatchAction α} (hstep : s.step b a = some s') :
    Inv b s' := by
  cases a with
  | send id =>
    cases hstep
    exact h.send id
  | call =>
    cases hstep
    exact h.call
  | recv k => exact h.recv hb hstep
  | timeUp k => exact h.timeUp hstep

theorem reachable_inv (hb : 1 ≤ b) (hs : Transition.Reachable (step b) (fun _ _ => True) empty s) :
    Inv b s :=
  hs.invariant inv_empty fun _ _ _ h _ hstep => h.step hb hstep

structure Sound (b : ℕ) (s : Batching α) : Prop where
  accounted : (s.batches.flatten ++ s.held ++ s.queue).Perm s.sent
  batches : ∀ batch ∈ s.batches, batch ≠ [] ∧ batch.length ≤ b ∧ batch.Sublist s.sent
  full : 1 < b → ∀ call ∈ s.calls, call.returned → call.ids.length < b →
    call.point = .returned true
  receives : ∀ call ∈ s.calls, call.receives ≤ b ∧ (call.receives = b → call.returned)

theorem flatMap_ids_perm (s : Batching α) :
    (s.batches.flatten ++ s.held).Perm (s.calls.flatMap BatchCall.ids) := by
  rw [batches, ← flatMap_def, held, ← flatMap_append]
  exact (filter_append_perm BatchCall.returned s.calls).flatMap_right BatchCall.ids

theorem CallInv.returned_bounds {call : BatchCall α} (h : CallInv b s call)
    (hreturned : call.returned) : 0 < call.ids.length ∧ call.ids.length ≤ b ∧
      (call.ids.length < b → call.point = .returned true) := by
  have hsized := h.sized
  unfold BatchCall.returned at hreturned
  split at hreturned
  · rename_i timedOut hpoint
    simp only [BatchCall.Sized, hpoint] at hsized
    refine ⟨hsized.1, hsized.2.1, fun hlt => ?_⟩
    cases timedOut with
    | true => exact hpoint
    | false => exact absurd (hsized.2.2 rfl) hlt.ne
  · cases hreturned

theorem CallInv.receives_le (hb : 1 ≤ b) {call : BatchCall α} (h : CallInv b s call) :
    call.receives ≤ b ∧ (call.receives = b → call.returned) := by
  have hsized := h.sized
  rw [h.receives, BatchCall.returned]
  cases hpoint : call.point with
  | first =>
    simp only [BatchCall.Sized, hpoint] at hsized
    simp only [hsized, length_nil, Bool.false_eq_true, imp_false]
    omega
  | inner =>
    simp only [BatchCall.Sized, hpoint] at hsized
    simp only [Bool.false_eq_true, imp_false]
    omega
  | returned timedOut =>
    simp only [BatchCall.Sized, hpoint] at hsized
    exact ⟨hsized.2.1, fun _ => rfl⟩

theorem batching_sound (hb : 1 ≤ b)
    (hs : Transition.Reachable (step b) (fun _ _ => True) empty s) : s.Sound b := by
  have hinv := reachable_inv hb hs
  refine ⟨?_, ?_, ?_, fun call hcall => (hinv.calls call hcall).receives_le hb⟩
  · exact (s.flatMap_ids_perm.append_right s.queue).trans hinv.accounted
  · intro batch hbatch
    obtain ⟨call, hcall, rfl⟩ := mem_map.mp hbatch
    obtain ⟨hcall, hreturned⟩ := mem_filter.mp hcall
    have hcallInv := hinv.calls call hcall
    obtain ⟨hpos, hle, -⟩ := hcallInv.returned_bounds hreturned
    exact ⟨ne_nil_of_length_pos hpos, hle, (sublist_append_left _ _).trans hcallInv.order⟩
  · intro _ call hcall hreturned hlt
    exact ((hinv.calls call hcall).returned_bounds hreturned).2.2 hlt

theorem batching_sound_race : ∃ s, Transition.run (step 2) empty
      [.call, .call, .send 1, .send 2, .recv 0, .recv 1, .send 3, .recv 0, .send 4, .timeUp 1] =
        some s ∧ s.Sound 2 ∧ s.batches = [[1, 3], [2]] ∧ s.queue = [4] := by
  have hrun : Transition.run (step 2) empty
      [.call, .call, .send 1, .send 2, .recv 0, .recv 1, .send 3, .recv 0, .send 4, .timeUp 1] =
        some ⟨[1, 2, 3, 4], [4], [⟨[1, 3], 2, .returned false⟩, ⟨[2], 1, .returned true⟩]⟩ := by
    decide
  have hsound := batching_sound (by decide) (Transition.reachable_of_run hrun)
  exact ⟨_, hrun, hsound, by decide, by decide⟩

end Batching

namespace Conn

def batchCall {α : Type} (ids : List α) : BatchCall α :=
  ⟨ids, ids.length, if ids.isEmpty then .first else .inner⟩

def ofBatchCall (call : BatchCall UInt32) : Point :=
  if call.returned then .fetch call.ids else .collect call.ids

theorem recv_eq_batchCall {svc : Service} {m m' : TaskManager} {c c' : Conn} {ids : List UInt32}
    (hp : c.point = .collect ids) (hids : ids = [] ∨ 1 < svc.batchSize c.runtime)
    (h : Conn.recv svc m c = some (m', c')) :
    ∃ id queue call, m.queues c.runtime = id :: queue ∧ m'.queues c.runtime = queue ∧
      (batchCall ids).recv (svc.batchSize c.runtime) id = some call ∧
      c' = { c with point := ofBatchCall call } := by
  unfold Conn.recv at h
  rw [hp] at h
  cases hqueue : m.queues c.runtime with
  | nil => simp [hqueue] at h
  | cons id queue =>
    simp only [hqueue, Option.some.injEq, Prod.mk.injEq] at h
    obtain ⟨rfl, rfl⟩ := h
    cases ids with
    | nil =>
      refine ⟨id, queue, _, rfl, Function.update_self .., rfl, ?_⟩
      by_cases hone : svc.batchSize c.runtime ≤ 1
      · simp [hone, batchCall, ofBatchCall, BatchCall.returned]
      · have hne : 1 ≠ svc.batchSize c.runtime := by omega
        simp [hone, hne, batchCall, ofBatchCall, BatchCall.returned]
    | cons head ids =>
      have hone : ¬ svc.batchSize c.runtime ≤ 1 := by simpa using hids
      refine ⟨id, queue, _, rfl, Function.update_self .., rfl, ?_⟩
      by_cases hfull : ids.length + 1 + 1 = svc.batchSize c.runtime
      · simp [hone, hfull, batchCall, ofBatchCall, BatchCall.returned]
      · simp [hone, hfull, batchCall, ofBatchCall, BatchCall.returned]

theorem timeUp_eq_batchCall {m m' : TaskManager} {c c' : Conn} {ids : List UInt32}
    (hp : c.point = .collect ids) (h : Conn.timeUp m c = some (m', c')) :
    ∃ call, (batchCall ids).timeUp = some call ∧ m' = m ∧
      c' = { c with point := ofBatchCall call } := by
  unfold Conn.timeUp at h
  rw [hp] at h
  cases ids with
  | nil => cases h
  | cons id ids =>
    cases h
    exact ⟨_, rfl, rfl, rfl⟩

end Conn

end Mosec
