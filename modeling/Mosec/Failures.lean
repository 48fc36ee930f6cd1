import Mosec.FrameAccounting
import Mosec.Replies

namespace Mosec

namespace Protocol

theorem unpack_lt {width n : ℕ} {bytes : Bytes} {s t : Socket}
    (h : (unpack width bytes).run s = .ok n t) : n < 256 ^ width := by
  obtain ⟨hlen, hn, -⟩ := unpack_eq_ok h
  rw [hn, ← hlen]
  exact BigEndian.decode_lt bytes

theorem receiveItems_bounds {batchSize : ℕ} {s t : Socket} {items : List PyItem}
    (h : (receiveItems batchSize).run s = .ok items t) :
    items.length = batchSize ∧ ∀ item ∈ items, item.state < 2 ^ 16 := by
  induction batchSize generalizing s items with
  | zero =>
    cases h
    exact ⟨rfl, fun item hitem => absurd hitem List.not_mem_nil⟩
  | succ batchSize ih =>
    obtain ⟨idBytes, s₁, -, h⟩ := bind_eq_ok.mp h
    obtain ⟨stateBytes, s₂, -, h⟩ := bind_eq_ok.mp h
    obtain ⟨lengthBytes, s₃, -, h⟩ := bind_eq_ok.mp h
    obtain ⟨length, s₄, -, h⟩ := bind_eq_ok.mp h
    obtain ⟨payload, s₅, -, h⟩ := bind_eq_ok.mp h
    obtain ⟨state, s₆, hstate, h⟩ := bind_eq_ok.mp h
    obtain ⟨items', s₇, hitems, h⟩ := bind_eq_ok.mp h
    cases h
    have hrest := ih hitems
    refine ⟨congrArg (· + 1) hrest.1, ?_⟩
    rw [List.forall_mem_cons]
    exact ⟨unpack_lt hstate, hrest.2⟩

theorem receive_bounds {s t : Socket} {batch : PyBatch} (h : receive.run s = .ok batch t) :
    batch.items.length < 2 ^ 16 ∧ ∀ item ∈ batch.items, item.state < 2 ^ 16 := by
  obtain ⟨flag, s₁, -, h⟩ := bind_eq_ok.mp h
  obtain ⟨batchSizeBytes, s₂, -, h⟩ := bind_eq_ok.mp h
  obtain ⟨batchSize, s₃, hsize, h⟩ := bind_eq_ok.mp h
  obtain ⟨items, s₄, hitems, h⟩ := bind_eq_ok.mp h
  cases h
  have hbounds := receiveItems_bounds hitems
  refine ⟨?_, hbounds.2⟩
  rw [hbounds.1]
  exact unpack_lt hsize

theorem pack_isOk (width n : ℕ) : (∃ bytes, pack width n = .ok bytes) ↔ n < 256 ^ width := by
  unfold pack
  split
  · exact iff_of_true ⟨_, rfl⟩ ‹_›
  · refine iff_of_false ?_ ‹_›
    rintro ⟨bytes, h⟩
    cases h

theorem packItems_text {items : List PyItem} (text : Bytes)
    (hstates : ∀ item ∈ items, item.state < 2 ^ 16) :
    (∃ data, packItems (items.map PyItem.id) (items.map PyItem.state)
      (List.replicate items.length text) = .ok data) ↔ (items ≠ [] → text.length < 2 ^ 32) := by
  induction items with
  | nil => exact iff_of_true ⟨[], rfl⟩ fun h => absurd rfl h
  | cons item items ih =>
    rw [List.forall_mem_cons] at hstates
    obtain ⟨stateBytes, hstate⟩ := (pack_isOk lengthTaskState _).mpr hstates.1
    rw [List.map_cons, List.map_cons, List.length_cons, List.replicate_succ, packItems, hstate]
    constructor
    · rintro ⟨data, h⟩ -
      obtain ⟨stateBytes', -, h⟩ := Attempts.bind_eq_ok.mp h
      obtain ⟨lengthBytes, hlength, -⟩ := Attempts.bind_eq_ok.mp h
      exact (pack_isOk _ _).mp ⟨lengthBytes, hlength⟩
    · intro h
      have htext := h (List.cons_ne_nil _ _)
      obtain ⟨lengthBytes, hlength⟩ := (pack_isOk lengthTaskBodyLen _).mpr htext
      obtain ⟨data, hdata⟩ := (ih hstates.2).mpr fun _ => htext
      exact ⟨_, by rw [hlength, hdata]; rfl⟩

theorem send_text {items : List PyItem} (code : HTTPStatusCode) (text : Bytes)
    (hsize : items.length < 2 ^ 16) (hstates : ∀ item ∈ items, item.state < 2 ^ 16) :
    (∃ frame, send code.value (items.map PyItem.id) (items.map PyItem.state)
      (List.replicate items.length text) = .ok frame) ↔ (items ≠ [] → text.length < 2 ^ 32) := by
  have hflag : code.value < 256 ^ lengthTaskFlag := by cases code <;> decide
  obtain ⟨flagBytes, hflag⟩ := (pack_isOk _ _).mpr hflag
  obtain ⟨batchBytes, hbatch⟩ := (pack_isOk lengthTaskBatch _).mpr hsize
  rw [← packItems_text text hstates]
  cases items with
  | nil =>
    refine iff_of_true ⟨flagBytes ++ batchBytes, ?_⟩ ⟨[], rfl⟩
    have hempty : pack lengthTaskBatch 0 = .ok batchBytes := hbatch
    simp [send, hflag, hempty, bind, Except.bind, pure, Except.pure]
  | cons item items =>
    have hsend : send code.value ((item :: items).map PyItem.id) ((item :: items).map PyItem.state)
        (List.replicate (item :: items).length text) =
        (packItems ((item :: items).map PyItem.id) ((item :: items).map PyItem.state)
          (List.replicate (item :: items).length text)).map (flagBytes ++ batchBytes ++ ·) := by
      simp only [send, hflag, List.length_map, List.length_replicate, hbatch]
      simp [bind, Except.bind, pure, Except.pure, Except.map]
    rw [hsend]
    constructor
    · rintro ⟨frame, h⟩
      cases hdata : packItems ((item :: items).map PyItem.id) ((item :: items).map PyItem.state)
          (List.replicate (item :: items).length text) with
      | ok data => exact ⟨data, rfl⟩
      | error e =>
        rw [hdata] at h
        cases h
    · rintro ⟨data, hdata⟩
      exact ⟨_, by rw [hdata]; rfl⟩

end Protocol

open Protocol (PyItem PyBatch HTTPStatusCode)

/-- Raised as an error of the library with one of its codes, or as an `Exception`. -/
def Raised.Library : Raised → Prop
  | .mosecError code _ _ _ =>
    code ∈ [.BAD_REQUEST, .VALIDATION_ERROR, .INTERNAL_ERROR, .TIMEOUT_ERROR]
  | .timeoutError _ => True
  | .exception => True
  | .baseException => False

namespace Coordinator

def Sendable (items : List PyItem) (msg str : PyStr) : Prop :=
  (∀ c ∈ msg ++ str, ¬ Surrogate c) ∧
    (items ≠ [] → (errorText msg str).utf8Length < 2 ^ 32)

def Answerable (items : List PyItem) : Raised → Prop
  | .mosecError _ _ msg str => Sendable items msg str
  | .timeoutError str => Sendable items timeoutMsg str
  | .exception => True
  | .baseException => False

variable {α β : Type}

def Survives (calls : WorkerCalls α β) (maxBatchSize : ℕ) (items : List PyItem) : Prop :=
  ∃ code payloads frame, code ≠ .STREAM_EVENT ∧ Replies items code payloads frame ∧
    ∀ incoming, coordinate maxBatchSize (.batch items calls true :: incoming) =
      (coordinate maxBatchSize incoming).cons frame

theorem errorText_encodable {msg str : PyStr} :
    (∀ c ∈ errorText msg str, ¬ Surrogate c) ↔ ∀ c ∈ msg ++ str, ¬ Surrogate c := by
  unfold errorText
  simp only [List.forall_mem_append]
  have hcolon := PyStr.ofString_encodable ": "
  constructor
  · rintro ⟨⟨hmsg, -⟩, hstr⟩
    refine ⟨hmsg, PyStr.surrogate_joinLines.mp ?_⟩
    split at hstr
    case isTrue hnil =>
      rw [hnil]
      exact fun c hc => absurd hc List.not_mem_nil
    case isFalse => exact hstr
  · rintro ⟨hmsg, hstr⟩
    refine ⟨⟨hmsg, hcolon⟩, ?_⟩
    split
    · exact hmsg
    · exact PyStr.surrogate_joinLines.mpr hstr

theorem text_sent {items : List PyItem} (msg str : PyStr) (code : HTTPStatusCode)
    (hsize : items.length < 2 ^ 16) (hstates : ∀ item ∈ items, item.state < 2 ^ 16) :
    (∃ text frame, (errorText msg str).encode = some text ∧
      Protocol.send code.value (items.map PyItem.id) (items.map PyItem.state)
        (List.replicate items.length text) = .ok frame) ↔ Sendable items msg str := by
  constructor
  · rintro ⟨text, frame, htext, hframe⟩
    constructor
    · apply errorText_encodable.mp
      exact (PyStr.encode_isSome _).mp (Option.isSome_iff_exists.mpr ⟨text, htext⟩)
    · rw [← PyStr.encode_length htext]
      exact (Protocol.send_text code text hsize hstates).mp ⟨frame, hframe⟩
  · rintro ⟨hplain, hlength⟩
    obtain ⟨text, htext⟩ := Option.isSome_iff_exists.mp
      ((PyStr.encode_isSome _).mpr (errorText_encodable.mpr hplain))
    rw [← PyStr.encode_length htext] at hlength
    obtain ⟨frame, hframe⟩ := (Protocol.send_text code text hsize hstates).mpr hlength
    exact ⟨text, frame, htext, hframe⟩

theorem internalError_sent {items : List PyItem} (hsize : items.length < 2 ^ 16)
    (hstates : ∀ item ∈ items, item.state < 2 ^ 16) :
    ∃ text frame, internalError.encode = some text ∧
      Protocol.send HTTPStatusCode.INTERNAL_ERROR.value (items.map PyItem.id)
        (items.map PyItem.state) (List.replicate items.length text) = .ok frame := by
  obtain ⟨text, htext⟩ := Option.isSome_iff_exists.mp
    ((PyStr.encode_isSome internalError).mpr (PyStr.ofString_encodable _))
  have hlength : text.length < 2 ^ 32 := by
    rw [PyStr.encode_length htext]
    decide +kernel
  obtain ⟨frame, hframe⟩ := (Protocol.send_text .INTERNAL_ERROR text hsize hstates).mpr
    fun _ => hlength
  exact ⟨text, frame, htext, hframe⟩

def Handled (items : List PyItem) (err : Raised) (code : HTTPStatusCode) (text frame : Bytes) :
    Prop :=
  handler err = some (code, text) ∧
    Protocol.send code.value (items.map PyItem.id) (items.map PyItem.state)
      (List.replicate items.length text) = .ok frame

theorem handled_iff {items : List PyItem} (err : Raised) (hsize : items.length < 2 ^ 16)
    (hstates : ∀ item ∈ items, item.state < 2 ^ 16) :
    (∃ code text frame, Handled items err code text frame) ↔ Answerable items err := by
  have htext : ∀ (msg str : PyStr) (code : HTTPStatusCode), (∃ (code' : HTTPStatusCode) (text frame : Bytes),
      (errorText msg str).encode.map (code, ·) = some (code', text) ∧
        Protocol.send code'.value (items.map PyItem.id) (items.map PyItem.state)
          (List.replicate items.length text) = .ok frame) ↔ Sendable items msg str := by
    intro msg str code
    rw [← text_sent msg str code hsize hstates]
    constructor
    · rintro ⟨code', text, frame, hencode, hframe⟩
      obtain ⟨text', htext', heq⟩ := Option.map_eq_some_iff.mp hencode
      cases heq
      exact ⟨text, frame, htext', hframe⟩
    · rintro ⟨text, frame, hencode, hframe⟩
      exact ⟨code, text, frame, Option.map_eq_some_iff.mpr ⟨text, hencode, rfl⟩, hframe⟩
  cases err with
  | mosecError code nonOk msg str => exact htext msg str code
  | timeoutError str => exact htext timeoutMsg str .TIMEOUT_ERROR
  | exception =>
    refine iff_of_true ?_ trivial
    obtain ⟨text, frame, hencode, hframe⟩ := internalError_sent hsize hstates
    exact ⟨.INTERNAL_ERROR, text, frame, Option.map_eq_some_iff.mpr ⟨text, hencode, rfl⟩, hframe⟩
  | baseException =>
    apply iff_of_false
    · rintro ⟨code, text, frame, h, -⟩
      cases h
    · exact fun h => h

theorem answer_of_fails {calls : WorkerCalls α β} {maxBatchSize : ℕ} {items : List PyItem}
    {err : Raised} (h : Fails calls maxBatchSize items err) {frame : Bytes} :
    answer calls maxBatchSize items = some frame ↔
      ∃ code text, Handled items err code text frame := by
  unfold answer reply
  rw [infer_eq_error.mpr h]
  constructor
  · intro hanswer
    obtain ⟨⟨code, payloads⟩, hreply, hsend⟩ := Option.bind_eq_some_iff.mp hanswer
    obtain ⟨⟨code', text⟩, hhandler, heq⟩ := Option.map_eq_some_iff.mp hreply
    cases heq
    exact ⟨code, text, hhandler, toOption_eq_some hsend⟩
  · rintro ⟨code, text, hhandler, hsend⟩
    refine Option.bind_eq_some_iff.mpr ⟨(code, List.replicate items.length text), ?_, ?_⟩
    · exact Option.map_eq_some_iff.mpr ⟨(code, text), hhandler, rfl⟩
    · exact congrArg Except.toOption hsend

theorem handler_library {err : Raised} (hlib : err.Library) {code : HTTPStatusCode} {text : Bytes}
    (h : handler err = some (code, text)) : code ≠ .STREAM_EVENT := by
  have hcode : ∀ {code' : HTTPStatusCode} {encoded : Option Bytes},
      encoded.map (code', ·) = some (code, text) → code = code' := by
    intro code' encoded hmap
    obtain ⟨text', -, heq⟩ := Option.map_eq_some_iff.mp hmap
    exact (congrArg Prod.fst heq).symm
  cases err with
  | mosecError code' nonOk msg str =>
    rw [hcode h]
    intro heq
    have hmem : code' ∈ [.BAD_REQUEST, .VALIDATION_ERROR, .INTERNAL_ERROR, .TIMEOUT_ERROR] := hlib
    rw [heq] at hmem
    exact absurd hmem (by decide)
  | timeoutError str => exact hcode h ▸ HTTPStatusCode.noConfusion
  | exception =>
    unfold handler at h
    exact hcode h ▸ HTTPStatusCode.noConfusion
  | baseException => cases h

theorem failure_answered_iff (calls : WorkerCalls α β) (maxBatchSize : ℕ)
    {s t : Protocol.Socket} {batch : PyBatch} (hreceived : Protocol.receive.run s = .ok batch t)
    {err : Raised} (hfails : Fails calls maxBatchSize batch.items err) (hlib : err.Library) :
    Survives calls maxBatchSize batch.items ↔ Answerable batch.items err := by
  obtain ⟨hsize, hstates⟩ := Protocol.receive_bounds hreceived
  rw [← handled_iff err hsize hstates]
  constructor
  · rintro ⟨code, payloads, frame, -, -, hloop⟩
    have hnext := hloop []
    cases hanswer : answer calls maxBatchSize batch.items with
    | none =>
      rw [coordinate_escaped hanswer] at hnext
      cases hnext
    | some frame' =>
      obtain ⟨code', text, hhandled⟩ := (answer_of_fails hfails).mp hanswer
      exact ⟨code', text, frame', hhandled⟩
  · rintro ⟨code, text, frame, hhandled⟩
    refine ⟨code, _, frame, handler_library hlib hhandled.1,
      ⟨List.length_replicate, hhandled.2⟩, ?_⟩
    intro incoming
    exact coordinate_answered ((answer_of_fails hfails).mpr ⟨code, text, hhandled⟩) incoming

def rejecting (str : PyStr) : WorkerCalls Bytes Bytes where
  deserialize := fun _ payload => .ok payload
  deserializeIpc := fun _ payload => .ok payload
  forwardBatch := fun _ =>
    .error (.mosecError .VALIDATION_ERROR (by decide) (.ofString "request validation error") str)
  forwardOne := fun _ =>
    .error (.mosecError .VALIDATION_ERROR (by decide) (.ofString "request validation error") str)
  serialize := fun _ data => .ok data
  serializeIpc := fun _ data => .ok data

def emptyBody : Protocol.Socket where
  stream := [0, 0, 0, 1, 0, 0, 0, 7, 0, 3, 0, 0, 0, 0]
  closed := false
  recvs := fun _ => .upTo 4
  recvIntos := fun _ => .upTo 4

def emptyItem : PyItem := ⟨[0, 0, 0, 7], 3, []⟩

theorem emptyBody_received :
    Protocol.receive.run emptyBody = .ok ⟨[0, 0], [emptyItem]⟩
      { emptyBody with stream := [], recvs := Protocol.Schedule.drop 5 emptyBody.recvs } := rfl

theorem rejecting_fails (str : PyStr) : Fails (rejecting str) 1 [emptyItem]
    (.mosecError .VALIDATION_ERROR (by decide) (.ofString "request validation error") str) :=
  infer_eq_error.mp rfl

theorem failure_answered_plain : Survives (rejecting (.ofString "no prompt")) 1 [emptyItem] := by
  apply (failure_answered_iff _ 1 emptyBody_received (rejecting_fails _)
    (by simp [Raised.Library])).mpr
  constructor
  · rw [List.forall_mem_append]
    exact ⟨PyStr.ofString_encodable _, PyStr.ofString_encodable _⟩
  · intro _
    decide +kernel

theorem failure_escapes : Fails (rejecting [0xD800]) 1 [emptyItem]
      (.mosecError .VALIDATION_ERROR (by decide) (.ofString "request validation error") [0xD800]) ∧
    coordinate 1 [.batch [emptyItem] (rejecting [0xD800]) true] = ⟨[], .escaped⟩ ∧
    ¬ Survives (rejecting [0xD800]) 1 [emptyItem] := by
  have hanswer : answer (rejecting [0xD800]) 1 [emptyItem] = none := by decide +kernel
  refine ⟨rejecting_fails _, coordinate_escaped hanswer true [], ?_⟩
  rintro ⟨code, payloads, frame, -, -, hloop⟩
  have hnext := hloop []
  rw [coordinate_escaped hanswer] at hnext
  cases hnext

end Coordinator

end Mosec
