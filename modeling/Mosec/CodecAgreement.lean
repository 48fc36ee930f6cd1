import Mosec.FrameReading

namespace Mosec.Protocol

open Wire

/-- Each `recv` yields all it asks for; each `recv_into` yields some of what it asks for. -/
def FullHeaders (s : Socket) : Prop :=
  (∀ i, Full 4 (s.recvs i)) ∧ ∀ i, s.recvIntos i ≠ .timeout

def receiveMany : ℕ → Recv (List PyBatch)
  | 0 => pure []
  | n + 1 => do
    let batch ← receive
    let batches ← receiveMany n
    return batch :: batches

def readMany (code : TaskCode) : ℕ → Bytes → List (TaskCode × List Item) × Option Bytes
  | 0, stream => ([], some stream)
  | n + 1, stream =>
    match readMessage code stream with
    | ⟨_, _, none⟩ => ([], none)
    | ⟨code, items, some rest⟩ =>
      let (frames, rest) := readMany code n rest
      ((code, items) :: frames, rest)

def PyItem.toItem (item : PyItem) : Item :=
  ⟨u32FromBeBytes item.id, UInt16.ofNat item.state, item.payload⟩

def PyItem.WellSized (item : PyItem) : Prop :=
  item.id.length = 4 ∧ item.state < 2 ^ 16 ∧ item.payload.length < 2 ^ 32

def sendItems (flag : HTTPStatusCode) (items : List PyItem) : Except SendError Bytes :=
  send flag.value (items.map PyItem.id) (items.map PyItem.state) (items.map PyItem.payload)

def HTTPStatusCode.taskCode : HTTPStatusCode → TaskCode
  | .OK => .Normal
  | .BAD_REQUEST => .BadRequestError
  | .VALIDATION_ERROR => .ValidationError
  | .INTERNAL_ERROR => .InternalError
  | .TIMEOUT_ERROR => .TimeoutError
  | .STREAM_EVENT => .StreamEvent

theorem payloadAnswered_exists (d : Schedule) (h : ∀ i, d i ≠ .timeout) (length : ℕ) :
    ∃ calls, PayloadAnswered calls length d := by
  induction length using Nat.strong_induction_on generalizing d with
  | h length ih =>
    rcases Nat.eq_zero_or_pos length with rfl | hpos
    · exact ⟨0, rfl⟩
    · have ha := Delivery.amount_pos (h 0)
      obtain ⟨calls, hc⟩ := ih (length - (d 0).amount) (by omega) (d.drop 1) (fun i => h (i + 1))
      exact ⟨calls + 1, hpos, h 0, hc⟩

theorem itemsAnswered_exists (items : List Item) (headers payloads : Schedule)
    (hh : ∀ i, Full 4 (headers i)) (hp : ∀ i, payloads i ≠ .timeout) :
    ∃ calls, ItemsAnswered items headers payloads calls := by
  induction items generalizing headers payloads with
  | nil => exact ⟨0, rfl⟩
  | cons item items ih =>
    obtain ⟨here, hhere⟩ := payloadAnswered_exists payloads hp item.data.length
    obtain ⟨later, hlater⟩ := ih (headers.drop 3) (payloads.drop here)
      (fun i => hh (i + 3)) (fun i => hp (i + here))
    have hstate : Full lengthTaskState (headers 1) := le_trans (by decide) (hh 1)
    exact ⟨here + later, hh 0, hstate, hh 2, here, later, rfl, hhere, hlater⟩

theorem frameAnswered_exists {s : Socket} (items : List Item) (h : FullHeaders s) :
    ∃ calls, FrameAnswered items s.recvs s.recvIntos calls := by
  obtain ⟨calls, hc⟩ := itemsAnswered_exists items (s.recvs.drop 2) s.recvIntos
    (fun i => h.1 (i + 2)) h.2
  exact ⟨calls, le_trans (by decide) (h.1 0), le_trans (by decide) (h.1 1), hc⟩

theorem receiveMany_frames {batches : List (List Item)} {s : Socket} {rest : Bytes}
    (hb : ∀ b ∈ batches, WellSized b) (hf : FullHeaders s)
    (hs : s.stream = batches.flatMap sendMessage ++ rest) :
    ∃ s', (receiveMany batches.length).run s = .ok (batches.map pyBatch) s' ∧ s'.stream = rest := by
  induction batches generalizing s with
  | nil => exact ⟨s, rfl, hs⟩
  | cons b batches ih =>
    obtain ⟨calls, hc⟩ := frameAnswered_exists b hf
    rw [List.flatMap_cons, List.append_assoc] at hs
    have hread := receive_answered hc (hb b (by simp)) hs
    let t : Socket := ⟨batches.flatMap sendMessage ++ rest, s.closed,
      s.recvs.drop (2 + 3 * b.length), s.recvIntos.drop calls⟩
    have ht : FullHeaders t := ⟨fun i => hf.1 _, fun i => hf.2 _⟩
    obtain ⟨s', hrun, hrest⟩ := ih (s := t) (fun b hb' => hb b (List.mem_cons_of_mem _ hb')) ht rfl
    refine ⟨s', ?_, hrest⟩
    rw [List.length_cons, receiveMany, bind_ok hread, bind_ok hrun]
    rfl

theorem pyItem_toItem {item : PyItem} (h : item.WellSized) : pyItem item.toItem = item := by
  obtain ⟨hid, hstate, _⟩ := h
  have hlt : BigEndian.decode item.id < 2 ^ 32 := by
    have hdecode := BigEndian.decode_lt item.id
    rwa [hid] at hdecode
  have hidBytes : putU32 (u32FromBeBytes item.id) = item.id := by
    rw [putU32, u32FromBeBytes, UInt32.toNat_ofNat_of_lt' hlt, ← hid, BigEndian.encode_decode]
  have hstateVal : (UInt16.ofNat item.state).toNat = item.state := UInt16.toNat_ofNat_of_lt' hstate
  simp only [PyItem.toItem, pyItem, hidBytes, hstateVal]

theorem pack_ok (width : ℕ) {n : ℕ} (h : n < 256 ^ width) :
    pack width n = .ok (BigEndian.encode width n) := if_pos h

theorem packItems_ok (items : List PyItem) (h : ∀ item ∈ items, item.WellSized) :
    packItems (items.map PyItem.id) (items.map PyItem.state) (items.map PyItem.payload) =
      .ok ((items.map PyItem.toItem).flatMap itemBytes) := by
  induction items with
  | nil => rfl
  | cons item items ih =>
    have hitem := h item (by simp)
    obtain ⟨hid, hstate, hlen⟩ := hitem
    have htail := ih (fun i hi => h i (List.mem_cons_of_mem _ hi))
    have hbytes : itemBytes item.toItem = item.id ++ BigEndian.encode 2 item.state ++
        BigEndian.encode 4 item.payload.length ++ item.payload := by
      have hpy := pyItem_toItem ⟨hid, hstate, hlen⟩
      have hfst : putU32 item.toItem.id = item.id := congrArg PyItem.id hpy
      have hsnd : item.toItem.state.toNat = item.state := congrArg PyItem.state hpy
      have hlen' : (UInt32.ofNat item.payload.length).toNat = item.payload.length :=
        UInt32.toNat_ofNat_of_lt' hlen
      rw [itemBytes, hfst, putU16, hsnd, putU32]
      simp only [PyItem.toItem, hlen']
    simp only [List.map_cons, packItems, pack_ok lengthTaskState hstate,
      pack_ok lengthTaskBodyLen hlen, htail, List.flatMap_cons, hbytes]
    rfl

theorem sendItems_ok (flag : HTTPStatusCode) (items : List PyItem) (hnum : items.length < 2 ^ 16)
    (h : ∀ item ∈ items, item.WellSized) :
    sendItems flag items = .ok (putU16 (UInt16.ofNat flag.value) ++
      putU16 (UInt16.ofNat (items.map PyItem.toItem).length) ++
        (items.map PyItem.toItem).flatMap itemBytes) := by
  have hflag : flag.value < 2 ^ 16 := by cases flag <;> decide
  have hnum' : (UInt16.ofNat items.length).toNat = items.length := UInt16.toNat_ofNat_of_lt' hnum
  have hflag' : (UInt16.ofNat flag.value).toNat = flag.value := UInt16.toNat_ofNat_of_lt' hflag
  simp only [sendItems, send, List.length_map, pack_ok lengthTaskFlag hflag,
    pack_ok lengthTaskBatch hnum, packItems_ok items h, putU16, hnum', hflag']
  cases items with
  | nil => rfl
  | cons item items => simp [bind, Except.bind, pure, Except.pure]

theorem codeOfFlag_value (flag : HTTPStatusCode) :
    codeOfFlag (UInt16.ofNat flag.value) = flag.taskCode := by
  cases flag <;> decide

theorem readMessage_sendItems (code : TaskCode) (flag : HTTPStatusCode) (items : List PyItem)
    (hnum : items.length < 2 ^ 16) (h : ∀ item ∈ items, item.WellSized) :
    ∃ frame, sendItems flag items = .ok frame ∧ ∀ rest,
      readMessage code (frame ++ rest) = ⟨flag.taskCode, items.map PyItem.toItem, some rest⟩ := by
  refine ⟨_, sendItems_ok flag items hnum h, fun rest => ?_⟩
  rw [readMessage_frame _ _ _ _ (by simpa using hnum), codeOfFlag_value]
  intro item hitem
  obtain ⟨p, hp, rfl⟩ := List.mem_map.mp hitem
  exact (h p hp).2.2

theorem readMany_sendItems (code : TaskCode) (replies : List (HTTPStatusCode × List PyItem))
    (h : ∀ r ∈ replies, r.2.length < 2 ^ 16 ∧ ∀ item ∈ r.2, item.WellSized) :
    ∃ frames, replies.mapM (fun r => sendItems r.1 r.2) = .ok frames ∧
      readMany code replies.length frames.flatten =
        (replies.map (fun r => (r.1.taskCode, r.2.map PyItem.toItem)), some []) := by
  induction replies generalizing code with
  | nil => exact ⟨[], rfl, rfl⟩
  | cons r replies ih =>
    obtain ⟨hnum, hitems⟩ := h r (by simp)
    obtain ⟨frame, hsend, hread⟩ := readMessage_sendItems code r.1 r.2 hnum hitems
    obtain ⟨frames, hframes, hreads⟩ :=
      ih r.1.taskCode (fun r hr => h r (List.mem_cons_of_mem _ hr))
    refine ⟨frame :: frames, ?_, ?_⟩
    · rw [List.mapM_cons, hsend, hframes]
      rfl
    · rw [List.length_cons, List.flatten_cons, readMany, hread]
      simp only [hreads, List.map_cons]

theorem codecs_agree :
    (∀ (batches : List (List Item)) (s : Socket), (∀ b ∈ batches, WellSized b) → FullHeaders s →
      s.stream = batches.flatMap sendMessage →
      ∃ s', (receiveMany batches.length).run s = .ok (batches.map pyBatch) s' ∧ s'.stream = []) ∧
    (∀ (code : TaskCode) (replies : List (HTTPStatusCode × List PyItem)),
      (∀ r ∈ replies, r.2.length < 2 ^ 16 ∧ ∀ item ∈ r.2, item.WellSized) →
      ∃ frames reads, replies.mapM (fun r => sendItems r.1 r.2) = .ok frames ∧
        readMany code replies.length frames.flatten = (reads, some []) ∧
        reads.map (fun r => (r.1, r.2.map pyItem)) =
          replies.map (fun r => (r.1.taskCode, r.2))) ∧
    ∀ (code : TaskCode) (flag : HTTPStatusCode) (batch : List Item) (replies : List PyItem),
      WellSized batch → replies.map PyItem.id = (pyBatch batch).items.map PyItem.id →
      (∀ item ∈ replies, item.WellSized) →
      ∃ frame, sendItems flag replies = .ok frame ∧
        (readMessage code frame).items.map Item.id = batch.map Item.id := by
  refine ⟨?_, ?_, ?_⟩
  · intro batches s hb hf hs
    exact receiveMany_frames hb hf (by rw [hs, List.append_nil])
  · intro code replies h
    obtain ⟨frames, hframes, hreads⟩ := readMany_sendItems code replies h
    refine ⟨frames, _, hframes, hreads, ?_⟩
    rw [List.map_map]
    apply List.map_congr_left
    intro r hr
    have hback : ∀ item ∈ r.2, (pyItem ∘ PyItem.toItem) item = id item :=
      fun item hi => pyItem_toItem ((h r hr).2 item hi)
    simp only [Function.comp_apply, List.map_map]
    rw [List.map_congr_left hback, List.map_id]
  · intro code flag batch replies hb hids hr
    have hlen : replies.length = batch.length := by
      simpa [pyBatch] using congrArg List.length hids
    obtain ⟨frame, hsend, hread⟩ := readMessage_sendItems code flag replies (hlen ▸ hb.1) hr
    refine ⟨frame, hsend, ?_⟩
    have hread' := hread []
    rw [List.append_nil] at hread'
    rw [hread']
    have hecho := congrArg (List.map u32FromBeBytes) hids
    simpa [pyBatch, pyItem, PyItem.toItem, List.map_map, Function.comp_def] using hecho

theorem codecs_agree_fragments :
    let batches : List (List Item) := [[⟨1, 3, [7, 8]⟩, ⟨2, 0, []⟩], []]
    let s : Socket := ⟨batches.flatMap sendMessage, false, fun _ => .upTo 4, fun _ => .upTo 1⟩
    (∃ s', (receiveMany 2).run s = .ok (batches.map pyBatch) s' ∧ s'.stream = []) ∧
      ∃ frame, sendItems .VALIDATION_ERROR [⟨[0, 0, 0, 9], 2, [5]⟩] = .ok frame ∧
        (readMessage .InternalError frame).items.map Item.id = [9] := by
  intro batches s
  have hb : ∀ b ∈ batches, WellSized b := by
    simp only [batches, List.forall_mem_cons, List.not_mem_nil, false_implies, implies_true, and_true]
    constructor <;> constructor <;> simp
  have hs : FullHeaders s := ⟨fun _ => le_refl 4, fun _ => by simp [s]⟩
  refine ⟨codecs_agree.1 batches s hb hs rfl, ?_⟩
  exact codecs_agree.2.2 .InternalError .VALIDATION_ERROR [⟨9, 0, []⟩] [⟨[0, 0, 0, 9], 2, [5]⟩]
    (by constructor <;> simp) (by decide) (by simp [PyItem.WellSized])

end Mosec.Protocol
