import Mosec.ServedRefinement

namespace Mosec

namespace TaskManager

def errorEvents (m : TaskManager) (code : TaskCode) (items : List Item) : List (UInt32 × Event) :=
  if code = .Normal then []
  else (((m.abnormalTasks items).zip items).map fun p => (p.1, (p.2.data, code))).filter
    fun e => (m.streamSenders e.1).isSome

def Streaming (m : TaskManager) (id : UInt32) : Prop :=
  (m.table id).isSome ∧ (m.streamSenders id).isSome

/-- The `i` that the loop over `abnormal_tasks` has reached when it comes to the id at `k`. -/
def abnormalIndex (m : TaskManager) (items : List Item) (k : ℕ) : ℕ :=
  (m.abnormalTasks (items.take k)).length

instance (m : TaskManager) (id : UInt32) : Decidable (m.Streaming id) :=
  inferInstanceAs (Decidable (_ ∧ _))

variable {m : TaskManager} {code : TaskCode} {items : List Item}

theorem errorEvents_of_afterUpdate (hcode : code ≠ .Normal) :
    ∃ todo jobs, Conn.afterUpdate m code items = .events none todo jobs .collect ∧
      m.errorEvents code items = todo.filter fun e => (m.streamSenders e.1).isSome := by
  refine ⟨_, _, if_neg hcode, ?_⟩
  rw [errorEvents, if_neg hcode]

theorem abnormalIndex_le (k : ℕ) : m.abnormalIndex items k ≤ k := by
  have hle := (m.abnormalTasks_sublist (items.take k)).length_le
  rw [List.length_map, List.length_take] at hle
  exact hle.trans (Nat.min_le_left k _)

theorem abnormalTasks_getElem {k : ℕ} (hk : k < items.length)
    (hin : (m.table items[k].id).isSome) :
    (m.abnormalTasks items)[m.abnormalIndex items k]? = some items[k].id := by
  have hsplit : items = items.take k ++ items[k] :: items.drop (k + 1) := by
    rw [← List.drop_eq_getElem_cons hk, List.take_append_drop]
  have htasks : m.abnormalTasks items =
      m.abnormalTasks (items.take k) ++ items[k].id :: m.abnormalTasks (items.drop (k + 1)) := by
    conv_lhs => rw [abnormalTasks, hsplit]
    rw [List.map_append, List.map_cons, List.filter_append,
      List.filter_cons_of_pos (p := fun id => (m.table id).isSome) hin]
    rfl
  rw [htasks, abnormalIndex, List.getElem?_append_right le_rfl, Nat.sub_self,
    List.getElem?_cons_zero]

theorem errorEvents_filter (hcode : code ≠ .Normal) (hnodup : (items.map Item.id).Nodup) {k : ℕ}
    (hk : k < items.length) (hs : m.Streaming items[k].id) :
    ∃ h : m.abnormalIndex items k < items.length,
      (m.errorEvents code items).filter (fun e => e.1 = items[k].id) =
        [(items[k].id, (items[m.abnormalIndex items k].data, code))] := by
  have hlt : m.abnormalIndex items k < items.length := (abnormalIndex_le k).trans_lt hk
  refine ⟨hlt, ?_⟩
  have hget := abnormalTasks_getElem hk hs.1
  have hmem : (items[k].id, items[m.abnormalIndex items k]) ∈
      (m.abnormalTasks items).zip items := by
    refine List.mem_of_getElem? (i := m.abnormalIndex items k) ?_
    rw [List.getElem?_zip_eq_some]
    exact ⟨hget, List.getElem?_eq_getElem hlt⟩
  have hone := Point.filter_eq_singleton Prod.fst (State.abnormal_nodup m hnodup) hmem
  have hcongr : (((m.abnormalTasks items).zip items).filter fun p =>
      decide (p.1 = items[k].id) && (m.streamSenders p.1).isSome) =
      ((m.abnormalTasks items).zip items).filter fun p => p.1 = items[k].id := by
    refine List.filter_congr fun p _ => ?_
    by_cases hp : p.1 = items[k].id
    · simp only [hp, hs.2, Bool.and_true]
    · simp only [hp, decide_false, Bool.false_and]
  rw [errorEvents, if_neg hcode, List.filter_filter, List.filter_map, Function.comp_def]
  simp only [hcongr, hone, List.map_cons, List.map_nil]

theorem errorEvents_mem {e : UInt32 × Event} (h : e ∈ m.errorEvents code items) :
    e.1 ∈ items.map Item.id ∧ m.Streaming e.1 := by
  unfold errorEvents at h
  split at h
  · cases h
  · obtain ⟨hmem, hsender⟩ := List.mem_filter.mp h
    obtain ⟨p, hp, rfl⟩ := List.mem_map.mp hmem
    have htask := (List.of_mem_zip hp).1
    exact ⟨(m.abnormalTasks_sublist items).subset htask, (List.mem_filter.mp htask).2, hsender⟩

theorem updateMultiTasks_data (hnodup : (items.map Item.id).Nodup) {item : Item}
    (hitem : item ∈ items) :
    ((m.updateMultiTasks code items).table item.id).map Task.data =
      (m.table item.id).map fun _ => item.data := by
  rw [updateMultiTasks_table, updateTable_of_itemOf hnodup (Point.itemOf_of_mem hnodup hitem)]
  cases m.table item.id <;> rfl

structure OwnPayloads (m : TaskManager) (code : TaskCode) (items : List Item) : Prop where
  message : ∀ item ∈ items, m.Streaming item.id →
    (m.errorEvents code items).filter (fun e => e.1 = item.id) = [(item.id, (item.data, code))]
  others : ∀ e ∈ m.errorEvents code items, e.1 ∈ items.map Item.id ∧ m.Streaming e.1
  data : ∀ item ∈ items, (m.table item.id).isSome →
    ((m.updateMultiTasks code items).table item.id).map Task.data = some item.data

theorem ownPayloads_iff (m : TaskManager) {code : TaskCode} {items : List Item}
    (hcode : code ≠ .Normal) (hnodup : (items.map Item.id).Nodup) :
    m.OwnPayloads code items ↔ ∀ (k : ℕ) (hk : k < items.length), m.Streaming items[k].id →
      (items[m.abnormalIndex items k]?).map Item.data = some items[k].data := by
  constructor
  · intro h k hk hs
    obtain ⟨hlt, hfilter⟩ := errorEvents_filter hcode hnodup hk hs
    rw [h.message _ (List.getElem_mem hk) hs] at hfilter
    simp only [List.cons.injEq, Prod.mk.injEq, true_and, and_true] at hfilter
    rw [List.getElem?_eq_getElem hlt, Option.map_some, hfilter]
  · intro h
    refine ⟨?_, fun e he => errorEvents_mem he, ?_⟩
    · intro item hitem hs
      obtain ⟨k, hk, rfl⟩ := List.mem_iff_getElem.mp hitem
      obtain ⟨hlt, hfilter⟩ := errorEvents_filter hcode hnodup hk hs
      have hdata := h k hk hs
      rw [List.getElem?_eq_getElem hlt, Option.map_some, Option.some.injEq] at hdata
      rw [hfilter, hdata]
    · intro item hitem hin
      obtain ⟨task, htask⟩ := Option.isSome_iff_exists.mp hin
      rw [updateMultiTasks_data hnodup hitem, htask, Option.map_some]

def lateTable : TaskManager := (new.insertTask 2 (Task.new [] "/" 0)).insertStream 2 0

theorem ownPayloads_iff_lateTable :
    lateTable.OwnPayloads .InternalError [⟨2, 0, [20]⟩, ⟨1, 0, [10]⟩] :=
  (ownPayloads_iff lateTable (by decide) (by decide)).mpr (by decide +kernel)

/-- The stream of the second id is sent the payload of the first, which has expired. -/
theorem errorEvents_shifted :
    lateTable.errorEvents .InternalError [⟨1, 0, [10]⟩, ⟨2, 0, [20]⟩] =
      [(2, ([10], .InternalError))] ∧
    ¬ lateTable.OwnPayloads .InternalError [⟨1, 0, [10]⟩, ⟨2, 0, [20]⟩] := by
  refine ⟨by decide +kernel, ?_⟩
  intro h
  have hmessage := h.message ⟨2, 0, [20]⟩ (by decide) (by decide)
  exact absurd hmessage (by decide +kernel)

end TaskManager

end Mosec
