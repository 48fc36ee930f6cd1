import Mosec.CodecAgreement
import Mosec.Replies

namespace Mosec

open Protocol (PyItem HTTPStatusCode)

structure Stage (V : Type) where
  deserialize : Bytes → V
  deserializeIpc : Bytes → V
  forward : V → V
  serialize : V → Bytes
  serializeIpc : V → Bytes

namespace Stage

variable {V : Type} (stage : Stage V)

/-- The calls of a batch may raise at any time; what they return is the stage's, and a batched
`forward` takes the items one by one and in their order. -/
structure Serves (calls : WorkerCalls V V) : Prop where
  deserialize : ∀ {i payload x}, calls.deserialize i payload = .ok x → x = stage.deserialize payload
  deserializeIpc : ∀ {i payload x}, calls.deserializeIpc i payload = .ok x →
    x = stage.deserializeIpc payload
  forwardBatch : ∀ {xs ys}, calls.forwardBatch xs = .ok ys → ys = xs.map stage.forward
  forwardOne : ∀ {x y}, calls.forwardOne x = .ok y → y = stage.forward x
  serialize : ∀ {i x payload}, calls.serialize i x = .ok payload → payload = stage.serialize x
  serializeIpc : ∀ {i x payload}, calls.serializeIpc i x = .ok payload →
    payload = stage.serializeIpc x

def decode (state : ℕ) (payload : Bytes) : V :=
  if state &&& Coordinator.ingress ≠ 0 then stage.deserialize payload
  else stage.deserializeIpc payload

def encode (state : ℕ) (data : V) : Bytes :=
  if state &&& Coordinator.egress ≠ 0 then stage.serialize data else stage.serializeIpc data

def infer (state : ℕ) (payload : Bytes) : Bytes :=
  stage.encode state (stage.forward (stage.decode state payload))

variable {stage} {calls : WorkerCalls V V} {maxBatchSize : ℕ} {items : List PyItem}

namespace Serves

theorem decode_eq (h : stage.Serves calls) {i : ℕ} {payload : Bytes} {state : ℕ} {x : V}
    (hx : Coordinator.decode calls i payload state = .ok x) : x = stage.decode state payload := by
  unfold Coordinator.decode at hx
  unfold Stage.decode
  split at hx
  case isTrue hbit =>
    rw [if_pos hbit]
    exact h.deserialize hx
  case isFalse hbit =>
    rw [if_neg hbit]
    exact h.deserializeIpc hx

theorem encode_eq (h : stage.Serves calls) {i : ℕ} {data : V} {state : ℕ} {payload : Bytes}
    (hx : Coordinator.encode calls i data state = .ok payload) :
    payload = stage.encode state data := by
  unfold Coordinator.encode at hx
  unfold Stage.encode
  split at hx
  case isTrue hbit =>
    rw [if_pos hbit]
    exact h.serialize hx
  case isFalse hbit =>
    rw [if_neg hbit]
    exact h.serializeIpc hx

theorem decodes_eq (h : stage.Serves calls) {data : List V}
    (hdata : Coordinator.Decodes calls items data) :
    data = items.map fun item => stage.decode item.state item.payload := by
  apply List.ext_getElem
  · rw [hdata.1, List.length_map]
  · intro i hi hi'
    rw [List.getElem_map]
    exact h.decode_eq (hdata.2 i (by simpa using hi') hi)

theorem forwards_eq (h : stage.Serves calls) {results : List V}
    (hresults : Coordinator.Forwards calls maxBatchSize items results) :
    results = items.map fun item => stage.forward (stage.decode item.state item.payload) := by
  obtain ⟨data, hdata, hforward, hlength⟩ := hresults
  have hdecode := h.decodes_eq hdata
  unfold Coordinator.forward at hforward
  split at hforward
  case isTrue =>
    rw [h.forwardBatch hforward, hdecode, List.map_map]
    rfl
  case isFalse =>
    cases hitems : items with
    | nil =>
      rw [hdecode, hitems] at hforward
      cases hforward
    | cons item items' =>
      rw [hdecode, hitems] at hforward
      obtain ⟨y, hy, hsingle⟩ := Attempts.bind_eq_ok.mp hforward
      cases hsingle
      rw [hitems] at hlength
      obtain rfl : items' = [] := List.eq_nil_of_length_eq_zero (by simpa using hlength.symm)
      rw [h.forwardOne hy]
      rfl

theorem succeeds_eq (h : stage.Serves calls) {payloads : List Bytes}
    (hpayloads : Coordinator.Succeeds calls maxBatchSize items payloads) :
    payloads = items.map fun item => stage.infer item.state item.payload := by
  obtain ⟨results, hresults, hlength, hencode⟩ := hpayloads
  have hforward := h.forwards_eq hresults
  apply List.ext_getElem
  · rw [hlength, List.length_map]
  · intro i hi hi'
    have hi'' : i < items.length := by simpa using hi'
    have hr : i < results.length := by simpa [hforward] using hi''
    rw [List.getElem_map, h.encode_eq (hencode i hi'' hr hi)]
    simp only [hforward, List.getElem_map, Stage.infer]

end Serves

end Stage

namespace Protocol

open Wire

theorem packItems_sized {ids : List Bytes} {states : List ℕ} {payloads : List Bytes} {data : Bytes}
    (h : packItems ids states payloads = .ok data) : ∀ payload ∈ payloads,
      payload.length < 2 ^ 32 := by
  induction payloads generalizing ids states data with
  | nil => simp
  | cons payload payloads ih =>
    cases ids with
    | nil => cases states <;> cases h
    | cons id ids =>
      cases states with
      | nil => cases h
      | cons state states =>
        obtain ⟨stateBytes, -, h⟩ := Attempts.bind_eq_ok.mp h
        obtain ⟨lengthBytes, hlength, h⟩ := Attempts.bind_eq_ok.mp h
        obtain ⟨rest, hrest, -⟩ := Attempts.bind_eq_ok.mp h
        intro p hp
        rcases List.mem_cons.mp hp with rfl | hp
        · unfold pack at hlength
          split at hlength
          · assumption
          · cases hlength
        · exact ih hrest p hp

def replyItems (items : List PyItem) (payloads : List Bytes) : List PyItem :=
  List.zipWith (fun item payload => { item with payload := payload }) items payloads

theorem send_sized {code : HTTPStatusCode} {items : List PyItem} {payloads : List Bytes}
    {frame : Bytes} (hlength : payloads.length = items.length)
    (h : send code.value (items.map PyItem.id) (items.map PyItem.state) payloads = .ok frame) :
    ∀ payload ∈ payloads, payload.length < 2 ^ 32 := by
  obtain ⟨flagBytes, -, h⟩ := Attempts.bind_eq_ok.mp h
  rw [if_neg (by simp [hlength])] at h
  obtain ⟨batchBytes, -, h⟩ := Attempts.bind_eq_ok.mp h
  split at h
  case isTrue =>
    obtain ⟨data, hdata, -⟩ := Attempts.bind_eq_ok.mp h
    exact packItems_sized hdata
  case isFalse hzero =>
    obtain rfl : payloads = [] := by
      apply List.eq_nil_of_length_eq_zero
      rw [hlength]
      simpa using hzero
    simp

theorem send_replyItems {code : HTTPStatusCode} {items : List PyItem} {payloads : List Bytes}
    (hlength : payloads.length = items.length) :
    sendItems code (replyItems items payloads) =
      send code.value (items.map PyItem.id) (items.map PyItem.state) payloads := by
  have hids : (replyItems items payloads).map PyItem.id = items.map PyItem.id := by
    apply List.ext_getElem <;> simp [replyItems, hlength]
  have hstates : (replyItems items payloads).map PyItem.state = items.map PyItem.state := by
    apply List.ext_getElem <;> simp [replyItems, hlength]
  have hpayloads : (replyItems items payloads).map PyItem.payload = payloads := by
    apply List.ext_getElem <;> simp [replyItems, hlength]
  rw [sendItems, hids, hstates, hpayloads]

theorem toItem_replyItems {sent : List Item} {payloads : List Bytes} :
    (replyItems (sent.map pyItem) payloads).map PyItem.toItem =
      List.zipWith (fun item payload => { item with data := payload }) sent payloads := by
  rw [replyItems, List.zipWith_map_left, List.map_zipWith]
  congr 1
  funext item payload
  simp [pyItem, PyItem.toItem]

theorem replyItems_sized {sent : List Item} {payloads : List Bytes} (hsized : WellSized sent)
    (hpayloads : ∀ payload ∈ payloads, payload.length < 2 ^ 32) :
    (replyItems (sent.map pyItem) payloads).length < 2 ^ 16 ∧
      ∀ item ∈ replyItems (sent.map pyItem) payloads, item.WellSized := by
  constructor
  · rw [replyItems, List.length_zipWith, List.length_map]
    exact lt_of_le_of_lt (min_le_left _ _) hsized.1
  · intro item hitem
    obtain ⟨i, hi, rfl⟩ := List.mem_iff_getElem.mp hitem
    simp only [replyItems, List.getElem_zipWith, List.getElem_map]
    exact ⟨putU32_length _, UInt16.toNat_lt _, hpayloads _ (List.getElem_mem _)⟩

end Protocol

open Protocol Wire

variable {V : Type}

/-- The worker of a stage reads the frame with the items `sent`, and what it answers is read as
`code` and `items`. Every header field reaches it in one piece and no read of it times out. -/
structure FrameExchange (stage : Stage V) (maxBatchSize : ℕ) (sent : List Item) (code : TaskCode)
    (items : List Item) : Prop where
  sized : WellSized sent
  exchanged : ∃ (socket socket' : Socket) (batch : PyBatch) (calls : WorkerCalls V V)
    (frame : Bytes) (before : TaskCode), FullHeaders socket ∧ socket.stream = sendMessage sent ∧
      receive.run socket = .ok batch socket' ∧ stage.Serves calls ∧
      Coordinator.answer calls maxBatchSize batch.items = some frame ∧
      readMessage before frame = ⟨code, items, some []⟩

/-- A reply names the ids of its frame in their order, and in a batch of any mix each item of an
OK is its own payload after the stage. -/
theorem FrameExchange.items_eq {stage : Stage V} {maxBatchSize : ℕ} {sent items : List Item}
    {code : TaskCode} (h : FrameExchange stage maxBatchSize sent code items) :
    items.map Item.id = sent.map Item.id ∧ (code = .Normal →
      items = sent.map fun item => { item with data := stage.infer item.state.toNat item.data }) := by
  obtain ⟨socket, socket', batch, calls, frame, before, hfull, hstream, hreceive, hserves, hanswer,
    hread⟩ := h.exchanged
  obtain ⟨calls', hcalls⟩ := frameAnswered_exists sent hfull
  have hframe : socket.stream = sendMessage sent ++ [] := by rw [hstream, List.append_nil]
  rw [receive_answered hcalls h.sized hframe] at hreceive
  obtain rfl : pyBatch sent = batch := by
    cases hreceive
    rfl
  obtain ⟨status, payloads, ⟨hlength, hsend⟩, hreply⟩ := Coordinator.answer_answers hanswer
  have hpayloads := send_sized hlength hsend
  replace hsend : sendItems status (replyItems (sent.map pyItem) payloads) = .ok frame :=
    (send_replyItems hlength).trans hsend
  replace hlength : payloads.length = sent.length := by simpa [pyBatch] using hlength
  obtain ⟨hnum, hsized⟩ := replyItems_sized h.sized hpayloads
  obtain ⟨frame', hframe', hread'⟩ := readMessage_sendItems before status _ hnum hsized
  rw [hsend] at hframe'
  cases hframe'
  rw [← List.append_nil frame, hread' []] at hread
  simp only [Received.mk.injEq, toItem_replyItems] at hread
  obtain ⟨rfl, rfl, -⟩ := hread
  refine ⟨by apply List.ext_getElem <;> simp [hlength], ?_⟩
  intro hcode
  have hok : status = .OK := by cases status <;> first | rfl | cases hcode
  rcases hreply with ⟨-, hsucceeds⟩ | ⟨err, text, -, -, hne, -⟩
  · have hinfer := hserves.succeeds_eq hsucceeds
    apply List.ext_getElem
    · simp [hlength]
    · intro i hi hi'
      simp [hinfer, pyBatch, pyItem]
  · exact absurd hok hne

def Stage.calls (stage : Stage V) : WorkerCalls V V where
  deserialize _ payload := .ok (stage.deserialize payload)
  deserializeIpc _ payload := .ok (stage.deserializeIpc payload)
  forwardBatch xs := .ok (xs.map stage.forward)
  forwardOne x := .ok (stage.forward x)
  serialize _ x := .ok (stage.serialize x)
  serializeIpc _ x := .ok (stage.serializeIpc x)

theorem Stage.calls_serves (stage : Stage V) : stage.Serves stage.calls where
  deserialize h := (Except.ok.inj h).symm
  deserializeIpc h := (Except.ok.inj h).symm
  forwardBatch h := (Except.ok.inj h).symm
  forwardOne h := (Except.ok.inj h).symm
  serialize h := (Except.ok.inj h).symm
  serializeIpc h := (Except.ok.inj h).symm

theorem Stage.calls_infer (stage : Stage V) {maxBatchSize : ℕ} {items : List PyItem}
    (hbatch : maxBatchSize > 1 ∨ items.length = 1) :
    Coordinator.infer stage.calls maxBatchSize items =
      .ok (items.map fun item => stage.infer item.state item.payload) := by
  rw [Coordinator.infer_eq_ok]
  have hdata : Coordinator.Decodes stage.calls items
      (items.map fun item => stage.decode item.state item.payload) := by
    refine ⟨List.length_map _, fun i hi hi' => ?_⟩
    rw [List.getElem_map, Coordinator.decode, Stage.decode]
    split <;> rfl
  refine ⟨items.map fun item => stage.forward (stage.decode item.state item.payload),
    ⟨_, hdata, ?_, List.length_map _⟩, List.length_map _, fun i hi hi' hi'' => ?_⟩
  · unfold Coordinator.forward
    split
    case isTrue => simp [Stage.calls]
    case isFalse hsingle =>
      obtain ⟨item, rfl⟩ := List.length_eq_one_iff.mp (hbatch.resolve_left hsingle)
      rfl
  · rw [List.getElem_map, List.getElem_map, Coordinator.encode, Stage.infer, Stage.encode]
    split <;> rfl

theorem frameExchange_of_sized (stage : Stage V) {maxBatchSize : ℕ} {sent : List Item}
    (hbatch : maxBatchSize > 1 ∨ sent.length = 1) (hsized : WellSized sent)
    (hresults : ∀ item ∈ sent, (stage.infer item.state.toNat item.data).length < 2 ^ 32) :
    FrameExchange stage maxBatchSize sent .Normal
      (sent.map fun item => { item with data := stage.infer item.state.toNat item.data }) := by
  let socket : Socket := ⟨sendMessage sent, false, fun _ => .upTo 4, fun _ => .upTo 1⟩
  have hfull : FullHeaders socket := ⟨fun _ => le_refl 4, fun _ => by simp [socket]⟩
  obtain ⟨calls, hcalls⟩ := frameAnswered_exists sent hfull
  have hreceive := receive_answered hcalls hsized (List.append_nil _).symm
  have hinfer : Coordinator.infer stage.calls maxBatchSize (pyBatch sent).items = .ok _ :=
    stage.calls_infer (by simpa [pyBatch] using hbatch)
  have hpayloads : ((pyBatch sent).items.map fun item => stage.infer item.state item.payload) =
      sent.map fun item => stage.infer item.state.toNat item.data := by
    rw [pyBatch, List.map_map]
    rfl
  rw [hpayloads] at hinfer
  generalize hdata : (sent.map fun item => stage.infer item.state.toNat item.data) = payloads
    at hinfer
  have hlength : payloads.length = (pyBatch sent).items.length := by simp [← hdata, pyBatch]
  have hsizes : ∀ payload ∈ payloads, payload.length < 2 ^ 32 := by
    rw [← hdata]
    simpa using hresults
  obtain ⟨hnum, hitems⟩ := replyItems_sized hsized hsizes
  obtain ⟨frame, hframe, hread⟩ := readMessage_sendItems .InternalError .OK _ hnum hitems
  replace hread := hread []
  rw [List.append_nil, toItem_replyItems] at hread
  refine ⟨hsized, socket, _, pyBatch sent, stage.calls, frame, .InternalError, hfull, rfl,
    hreceive, stage.calls_serves, ?_, ?_⟩
  · rw [Coordinator.answer, Coordinator.reply, hinfer]
    have hsend := (send_replyItems hlength).symm.trans hframe
    simp only [Option.bind_eq_bind, Option.bind_some, hsend]
    rfl
  · rw [hread]
    congr 1
    apply List.ext_getElem
    · simp [← hdata]
    · intro i hi hi'
      simp [← hdata]

end Mosec
