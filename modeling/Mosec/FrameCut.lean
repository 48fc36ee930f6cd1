import Mosec.TaskManager
import Mosec.Wire

namespace Mosec

namespace Wire

theorem readExact_extend {n : ℕ} {stream bytes rest : Bytes}
    (h : readExact n stream = some (bytes, rest)) (more : Bytes) :
    readExact n (stream ++ more) = some (bytes, rest ++ more) := by
  unfold readExact at h
  split at h
  · rename_i hle
    cases h
    rw [readExact, if_pos (by rw [List.length_append]; omega), List.take_append_of_le_length hle,
      List.drop_append_of_le_length hle]
  · cases h

theorem readItem_extend {stream rest : Bytes} {item : Item}
    (h : readItem stream = some (item, rest)) (more : Bytes) :
    readItem (stream ++ more) = some (item, rest ++ more) := by
  obtain ⟨⟨idBuf, stream₁⟩, hid, h⟩ := Option.bind_eq_some_iff.mp h
  obtain ⟨⟨stateBuf, stream₂⟩, hstate, h⟩ := Option.bind_eq_some_iff.mp h
  obtain ⟨⟨lengthBuf, stream₃⟩, hlength, h⟩ := Option.bind_eq_some_iff.mp h
  obtain ⟨⟨dataBuf, stream₄⟩, hdata, h⟩ := Option.bind_eq_some_iff.mp h
  cases h
  simp only [readItem, readExact_extend hid, readExact_extend hstate, readExact_extend hlength,
    readExact_extend hdata, Option.bind_eq_bind, Option.bind_some]
  rfl

theorem readItems_extend {code : TaskCode} {num : ℕ} {stream rest : Bytes}
    (h : (readItems code num stream).rest = some rest) (more : Bytes) :
    readItems code num (stream ++ more) =
      { readItems code num stream with rest := some (rest ++ more) } := by
  induction num generalizing stream with
  | zero =>
    cases h
    rfl
  | succ num ih =>
    unfold readItems at h ⊢
    cases hitem : readItem stream with
    | none =>
      rw [hitem] at h
      cases h
    | some read =>
      obtain ⟨item, stream'⟩ := read
      rw [hitem] at h
      rw [readItem_extend hitem more]
      simp only at h ⊢
      rw [ih h]

theorem readMessage_extend {code : TaskCode} {stream rest : Bytes}
    (h : (readMessage code stream).rest = some rest) (more : Bytes) :
    readMessage code (stream ++ more) =
      { readMessage code stream with rest := some (rest ++ more) } := by
  unfold readMessage at h ⊢
  cases hflag : readExact flagU8Size stream with
  | none =>
    rw [hflag] at h
    cases h
  | some read =>
    obtain ⟨flagBuf, stream₁⟩ := read
    rw [hflag] at h
    rw [readExact_extend hflag more]
    simp only at h ⊢
    cases hnum : readExact numU8Size stream₁ with
    | none =>
      rw [hnum] at h
      cases h
    | some read =>
      obtain ⟨numBuf, stream₂⟩ := read
      rw [hnum] at h
      rw [readExact_extend hnum more]
      simp only at h ⊢
      exact readItems_extend h more

end Wire

open Wire

structure Frame where
  flag : UInt16
  items : List Item
  count : items.length < 2 ^ 16
  sizes : ∀ item ∈ items, item.data.length < 2 ^ 32

namespace Frame

def code (frame : Frame) : TaskCode := codeOfFlag frame.flag

def bytes (frame : Frame) : Bytes :=
  putU16 frame.flag ++ putU16 (UInt16.ofNat frame.items.length) ++ frame.items.flatMap itemBytes

def isEvent (frame : Frame) : Bool := frame.code = .StreamEvent

theorem readMessage_bytes (frame : Frame) (code : TaskCode) (rest : Bytes) :
    readMessage code (frame.bytes ++ rest) = ⟨frame.code, frame.items, some rest⟩ :=
  readMessage_frame code frame.flag frame.items rest frame.count frame.sizes

theorem bytes_length_pos (frame : Frame) : 0 < frame.bytes.length := by
  simp only [bytes, List.length_append, putU16_length]
  omega

def IsCut (cut : Bytes) : Prop := ∃ (frame : Frame) (more : Bytes), more ≠ [] ∧
  frame.bytes = cut ++ more

theorem readMessage_cut {cut : Bytes} (h : IsCut cut) (code : TaskCode) :
    (readMessage code cut).rest = none := by
  obtain ⟨frame, more, hmore, hbytes⟩ := h
  cases hrest : (readMessage code cut).rest with
  | none => rfl
  | some rest =>
    have hread := readMessage_bytes frame code []
    rw [List.append_nil, hbytes, readMessage_extend hrest] at hread
    have hempty := congrArg Received.rest hread
    simp only [Option.some.injEq, List.append_eq_nil_iff] at hempty
    exact absurd hempty.2 hmore

end Frame

namespace Communicate

/-- What comes of a batch before its answer is read: its tasks have all expired, it is written,
or the write fails. -/
inductive Turn where
  | expired
  | written
  | unwritable (ids : List UInt32)
  deriving DecidableEq, Repr

inductive Call where
  | getBatch
  | sendStreamEvent (items : List Item)
  | updateMultiTasks (code : TaskCode) (items : List Item)
  | sendTask (id : UInt32)
  deriving DecidableEq, Repr

inductive End where
  | waiting
  | closed
  deriving DecidableEq, Repr

structure Outcome where
  calls : List Call
  ended : End
  deriving DecidableEq, Repr

def Outcome.after (outcome : Outcome) (calls : List Call) : Outcome :=
  ⟨calls ++ outcome.calls, outcome.ended⟩

def streamLoop : ℕ → Received → List Call × Received
  | 0, received => ([], received)
  | fuel + 1, received =>
    match received.rest with
    | none => ([], received)
    | some rest =>
      if received.code = .StreamEvent then
        let (calls, last) := streamLoop fuel (readMessage received.code rest)
        (.sendStreamEvent received.items :: calls, last)
      else ([], received)

def finish (code : TaskCode) (items : List Item) : List Call :=
  .updateMultiTasks code items ::
    if code = .Normal then items.map fun item => .sendTask item.id else []

/-- The loop of `communicate` on what the worker writes. After a failed read there is nothing more
to read. -/
def communicate (code : TaskCode) : List Turn → Bytes → Outcome
  | [], _ => ⟨[], .waiting⟩
  | .expired :: turns, stream => (communicate code turns stream).after [.getBatch]
  | .unwritable ids :: _, _ => ⟨.getBatch :: ids.map .sendTask, .closed⟩
  | .written :: turns, stream =>
    let first := readMessage code stream
    if first.rest = none then ⟨[.getBatch], .closed⟩
    else
      let (events, last) := streamLoop (stream.length + 1) first
      (communicate last.code turns (last.rest.getD [])).after
        (.getBatch :: events ++ finish last.code last.items)

def eventCalls (frames : List Frame) : List Call :=
  frames.map fun frame => .sendStreamEvent frame.items

def atomically : List Turn → List Frame → Outcome
  | [], _ => ⟨[], .waiting⟩
  | .expired :: turns, frames => (atomically turns frames).after [.getBatch]
  | .unwritable ids :: _, _ => ⟨.getBatch :: ids.map .sendTask, .closed⟩
  | .written :: turns, frames =>
    let events := eventCalls (frames.takeWhile Frame.isEvent)
    match frames.dropWhile Frame.isEvent with
    | [] => ⟨.getBatch :: events, .closed⟩
    | reply :: frames =>
      (atomically turns frames).after (.getBatch :: events ++ finish reply.code reply.items)

def CutAfterEvent : List Turn → List Frame → Prop
  | [], _ => False
  | .expired :: turns, frames => CutAfterEvent turns frames
  | .unwritable _ :: _, _ => False
  | .written :: turns, frames =>
    match frames.dropWhile Frame.isEvent with
    | [] => frames ≠ []
    | _ :: frames => CutAfterEvent turns frames

theorem Outcome.after_inj {o o' : Outcome} {calls : List Call} :
    o.after calls = o'.after calls ↔ o = o' := by
  obtain ⟨l, e⟩ := o
  obtain ⟨l', e'⟩ := o'
  simp [Outcome.after]

theorem streamLoop_failed {received : Received} (h : received.rest = none) (fuel : ℕ) :
    streamLoop fuel received = ([], received) := by
  cases fuel with
  | zero => rfl
  | succ fuel => rw [streamLoop, h]

theorem readMessage_frames (frame : Frame) (frames : List Frame) (code : TaskCode) (cut : Bytes) :
    readMessage code ((frame :: frames).flatMap Frame.bytes ++ cut) =
      ⟨frame.code, frame.items, some (frames.flatMap Frame.bytes ++ cut)⟩ := by
  rw [List.flatMap_cons, List.append_assoc]
  exact frame.readMessage_bytes code _

theorem streamLoop_frames {cut : Bytes} (hcut : Frame.IsCut cut) (frame : Frame)
    (frames : List Frame) {fuel : ℕ} (hfuel : frames.length < fuel) :
    streamLoop fuel ⟨frame.code, frame.items, some (frames.flatMap Frame.bytes ++ cut)⟩ =
      (eventCalls ((frame :: frames).takeWhile Frame.isEvent),
        match (frame :: frames).dropWhile Frame.isEvent with
        | [] => readMessage .StreamEvent cut
        | reply :: frames =>
          ⟨reply.code, reply.items, some (frames.flatMap Frame.bytes ++ cut)⟩) := by
  induction frames generalizing frame fuel with
  | nil =>
    obtain ⟨fuel, rfl⟩ := Nat.exists_eq_add_one_of_ne_zero (Nat.ne_zero_of_lt hfuel)
    by_cases hevent : frame.code = .StreamEvent
    · have hpos : frame.isEvent := decide_eq_true hevent
      have hfailed := streamLoop_failed (Frame.readMessage_cut hcut .StreamEvent) fuel
      simp only [streamLoop, hevent, ↓reduceIte, List.flatMap_nil, List.nil_append, hfailed,
        List.takeWhile_cons_of_pos hpos, List.dropWhile_cons_of_pos hpos, List.takeWhile_nil,
        List.dropWhile_nil, eventCalls, List.map_cons, List.map_nil]
    · have hneg : ¬ frame.isEvent := fun h => hevent (of_decide_eq_true h)
      simp only [streamLoop, hevent, ↓reduceIte, List.takeWhile_cons_of_neg hneg,
        List.dropWhile_cons_of_neg hneg, eventCalls, List.map_nil]
  | cons next frames ih =>
    obtain ⟨fuel, rfl⟩ := Nat.exists_eq_add_one_of_ne_zero (Nat.ne_zero_of_lt hfuel)
    by_cases hevent : frame.code = .StreamEvent
    · have hpos : frame.isEvent := decide_eq_true hevent
      have hnext := ih next (Nat.lt_of_succ_lt_succ hfuel)
      simp only [streamLoop, hevent, ↓reduceIte, readMessage_frames, hnext,
        List.takeWhile_cons_of_pos hpos, List.dropWhile_cons_of_pos hpos, eventCalls,
        List.map_cons]
    · have hneg : ¬ frame.isEvent := fun h => hevent (of_decide_eq_true h)
      simp only [streamLoop, hevent, ↓reduceIte, List.takeWhile_cons_of_neg hneg,
        List.dropWhile_cons_of_neg hneg, eventCalls, List.map_nil]

theorem length_le_bytes (frames : List Frame) (cut : Bytes) :
    frames.length ≤ (frames.flatMap Frame.bytes ++ cut).length := by
  induction frames with
  | nil => exact Nat.zero_le _
  | cons frame frames ih =>
    have hpos := frame.bytes_length_pos
    rw [List.flatMap_cons, List.append_assoc, List.length_append, List.length_cons]
    omega

theorem communicate_written {cut : Bytes} (hcut : Frame.IsCut cut) (code : TaskCode)
    (turns : List Turn) (frame : Frame) (frames : List Frame) :
    communicate code (.written :: turns) ((frame :: frames).flatMap Frame.bytes ++ cut) =
      match (frame :: frames).dropWhile Frame.isEvent with
      | [] =>
        let last := readMessage .StreamEvent cut
        (communicate last.code turns []).after
          (.getBatch :: eventCalls ((frame :: frames).takeWhile Frame.isEvent) ++
            finish last.code last.items)
      | reply :: rest =>
        (communicate reply.code turns (rest.flatMap Frame.bytes ++ cut)).after
          (.getBatch :: eventCalls ((frame :: frames).takeWhile Frame.isEvent) ++
            finish reply.code reply.items) := by
  have hfuel : frames.length <
      ((frame :: frames).flatMap Frame.bytes ++ cut).length + 1 := by
    have hle := length_le_bytes (frame :: frames) cut
    rw [List.length_cons] at hle
    omega
  simp only [communicate, readMessage_frames, streamLoop_frames hcut frame frames hfuel,
    reduceCtorEq, ↓reduceIte]
  cases (frame :: frames).dropWhile Frame.isEvent with
  | nil => simp only [Frame.readMessage_cut hcut, Option.getD_none]
  | cons reply rest => simp only [Option.getD_some]

/-- The loop acts on complete frames only, and ends with the first failing read, exactly if that
read is not the one after a stream event. -/
theorem communicate_eq_iff (code : TaskCode) (turns : List Turn) (frames : List Frame)
    {cut : Bytes} (hcut : Frame.IsCut cut) :
    communicate code turns (frames.flatMap Frame.bytes ++ cut) = atomically turns frames ↔
      ¬ CutAfterEvent turns frames := by
  induction turns generalizing code frames with
  | nil => exact iff_of_true rfl not_false
  | cons turn turns ih =>
    cases turn with
    | expired => exact Outcome.after_inj.trans (ih code frames)
    | unwritable ids => exact iff_of_true rfl not_false
    | written =>
      cases frames with
      | nil =>
        refine iff_of_true ?_ (fun h => h rfl)
        simp [communicate, Frame.readMessage_cut hcut, atomically, eventCalls]
      | cons frame frames =>
        rw [communicate_written hcut, atomically, CutAfterEvent]
        cases (frame :: frames).dropWhile Frame.isEvent with
        | nil =>
          refine iff_of_false ?_ (not_not_intro (List.cons_ne_nil _ _))
          intro h
          have hlength := congrArg (fun o => o.calls.length) h
          simp [Outcome.after, finish] at hlength
        | cons reply rest => exact Outcome.after_inj.trans (ih reply.code rest)

theorem cutAfterEvent_last {turns : List Turn} {frames : List Frame}
    (h : CutAfterEvent turns frames) : ∃ frame ∈ frames.getLast?, frame.isEvent := by
  induction turns generalizing frames with
  | nil => exact h.elim
  | cons turn turns ih =>
    cases turn with
    | expired => exact ih h
    | unwritable ids => exact h.elim
    | written =>
      rw [CutAfterEvent] at h
      cases hrest : frames.dropWhile Frame.isEvent with
      | nil =>
        rw [hrest] at h
        have hlast := List.getLast?_eq_some_getLast h
        have hall : frames.all Frame.isEvent := by
          rw [← List.takeWhile_append_dropWhile (p := Frame.isEvent) (l := frames), hrest]
          simp
        exact ⟨_, hlast, List.all_eq_true.mp hall _ (List.getLast_mem h)⟩
      | cons reply rest =>
        rw [hrest] at h
        obtain ⟨frame, hlast, hevent⟩ := ih h
        have hsplit : frames = frames.takeWhile Frame.isEvent ++ reply :: rest := by
          rw [← hrest, List.takeWhile_append_dropWhile]
        refine ⟨frame, ?_, hevent⟩
        rw [hsplit, List.getLast?_append_cons, List.getLast?_cons, hlast]
        rfl

def eventOne : Frame := ⟨32768, [⟨1, 0, [7]⟩], by decide, by decide⟩
def replyOne : Frame := ⟨1, [⟨1, 3, [9]⟩], by decide, by decide⟩
def replyTwo : Frame := ⟨1, [⟨1, 3, [9]⟩, ⟨2, 3, [8]⟩], by decide, by decide⟩

theorem communicate_eq_iff_replyOne :
    communicate .InternalError [.written, .written]
      ([eventOne, replyOne].flatMap Frame.bytes ++ replyTwo.bytes.take 15) =
      atomically [.written, .written] [eventOne, replyOne] :=
  (communicate_eq_iff .InternalError [.written, .written] [eventOne, replyOne]
    ⟨replyTwo, replyTwo.bytes.drop 15, by decide +kernel, (List.take_append_drop _ _).symm⟩).mpr
    (by simp [CutAfterEvent, List.dropWhile, show eventOne.isEvent = true by decide +kernel,
      show replyOne.isEvent = false by decide +kernel])

theorem cut_reply_updates :
    Frame.IsCut (replyTwo.bytes.take 15) ∧
    communicate .InternalError [.written, .written]
      ([eventOne].flatMap Frame.bytes ++ replyTwo.bytes.take 15) =
      ⟨[.getBatch, .sendStreamEvent [⟨1, 0, [7]⟩], .updateMultiTasks .Normal [⟨1, 3, [9]⟩],
        .sendTask 1, .getBatch], .closed⟩ ∧
    atomically [.written, .written] [eventOne] =
      ⟨[.getBatch, .sendStreamEvent [⟨1, 0, [7]⟩]], .closed⟩ :=
  ⟨⟨replyTwo, replyTwo.bytes.drop 15, by decide +kernel, (List.take_append_drop _ _).symm⟩,
    by decide +kernel, by decide +kernel⟩

end Communicate

end Mosec
