import Mosec.Attempts
import Mosec.Coordinator

namespace Mosec

open Protocol (PyItem HTTPStatusCode)

structure ItemWorker (α β : Type) where
  deserialize : Bytes → Except Raised α
  deserializeIpc : Bytes → Except Raised α
  forward : α → β
  serialize : β → Except Raised Bytes
  serializeIpc : β → Except Raised Bytes

namespace ItemWorker

variable {α β : Type} (w : ItemWorker α β)

def calls : WorkerCalls α β where
  deserialize _ := w.deserialize
  deserializeIpc _ := w.deserializeIpc
  forwardBatch data := .ok (data.map w.forward)
  forwardOne datum := .ok (w.forward datum)
  serialize _ := w.serialize
  serializeIpc _ := w.serializeIpc

def decode (item : PyItem) : Except Raised α :=
  Coordinator.decode w.calls 0 item.payload item.state

def encode (item : PyItem) (result : β) : Except Raised Bytes :=
  Coordinator.encode w.calls 0 result item.state

def outcome (item : PyItem) : Except Raised Bytes := do
  let datum ← w.decode item
  w.encode item (w.forward datum)

/-- What the batch raises: all items are decoded before the first one is encoded. -/
def firstFailure (items : List PyItem) : Option Raised :=
  (Attempts.firstError w.decode items).or (Attempts.firstError w.outcome items)

variable {w} {maxBatchSize : ℕ} {items : List PyItem}

theorem decodeAll_eq : Coordinator.decodeAll w.calls items = items.mapM w.decode :=
  Attempts.mapM_zipIdx_fst (g := w.decode) items

theorem encodeAll_eq (results : List β) :
    ((results.zip items).zipIdx.mapM fun ((result, item), i) =>
      Coordinator.encode w.calls i result item.state) =
      (results.zip items).mapM fun p => w.encode p.2 p.1 :=
  Attempts.mapM_zipIdx_fst (g := fun p : β × PyItem => w.encode p.2 p.1) (results.zip items)

theorem encodeAll_forward {data : List α}
    (hdata : List.Forall₂ (fun item datum => w.decode item = .ok datum) items data) :
    (((data.map w.forward).zip items).mapM fun p => w.encode p.2 p.1) = items.mapM w.outcome := by
  induction hdata with
  | nil => rfl
  | cons hdatum _ ih =>
    rw [List.map_cons, List.zip_cons_cons, List.mapM_cons, List.mapM_cons, ih, outcome, hdatum]
    rfl

theorem forward_calls (hsize : items.length ≤ maxBatchSize) (hne : items ≠ []) {data : List α}
    (hlen : data.length = items.length) :
    Coordinator.forward w.calls maxBatchSize data = .ok (data.map w.forward) := by
  unfold Coordinator.forward
  by_cases hbatch : maxBatchSize > 1
  · rw [if_pos hbatch]
    rfl
  · have hpos := List.length_pos_iff.mpr hne
    obtain ⟨datum, rfl⟩ := List.length_eq_one_iff.mp (show data.length = 1 by omega)
    rw [if_neg hbatch]
    rfl

theorem infer_of_decodes (hsize : items.length ≤ maxBatchSize) (hne : items ≠ [])
    (hdecode : Attempts.firstError w.decode items = none) :
    Coordinator.infer w.calls maxBatchSize items = items.mapM w.outcome := by
  obtain ⟨data, hdata⟩ := Attempts.forall₂_of_no_error hdecode
  have hlen : data.length = items.length := hdata.length_eq.symm
  unfold Coordinator.infer
  rw [decodeAll_eq, Attempts.mapM_eq_ok.mpr hdata, ← encodeAll_forward hdata]
  simp only [bind, Except.bind, forward_calls hsize hne hlen, List.length_map, hlen, ne_eq,
    not_true_eq_false, ↓reduceIte]
  exact encodeAll_eq _

theorem infer_of_failure (hsize : items.length ≤ maxBatchSize) (hne : items ≠ []) {err : Raised}
    (h : w.firstFailure items = some err) :
    Coordinator.infer w.calls maxBatchSize items = .error err := by
  cases hdecode : Attempts.firstError w.decode items with
  | none =>
    rw [firstFailure, hdecode, Option.none_or] at h
    rw [infer_of_decodes hsize hne hdecode, Attempts.mapM_of_firstError h]
  | some err' =>
    rw [firstFailure, hdecode, Option.some_or, Option.some.injEq] at h
    unfold Coordinator.infer
    rw [decodeAll_eq, Attempts.mapM_of_firstError hdecode, h]
    rfl

theorem infer_of_no_failure (hsize : items.length ≤ maxBatchSize) (hne : items ≠ [])
    (h : w.firstFailure items = none) :
    ∃ payloads, Coordinator.infer w.calls maxBatchSize items = .ok payloads ∧
      List.Forall₂ (fun item payload => w.outcome item = .ok payload) items payloads := by
  obtain ⟨hdecode, houtcome⟩ := Option.or_eq_none_iff.mp h
  obtain ⟨payloads, hpayloads⟩ := Attempts.forall₂_of_no_error houtcome
  refine ⟨payloads, ?_, hpayloads⟩
  rw [infer_of_decodes hsize hne hdecode, Attempts.mapM_eq_ok.mpr hpayloads]

variable (w) in
def sent (maxBatchSize : ℕ) (items : List PyItem) (i : ℕ) : Option (HTTPStatusCode × Bytes) := do
  let (status, payloads) ← Coordinator.reply w.calls maxBatchSize items
  let payload ← payloads[i]?
  return (status, payload)

theorem sent_of_no_failure (hsize : items.length ≤ maxBatchSize)
    (h : w.firstFailure items = none) {i : ℕ} (hi : i < items.length) :
    ∃ payload, w.outcome items[i] = .ok payload ∧
      w.sent maxBatchSize items i = some (.OK, payload) := by
  have hne := List.ne_nil_of_length_pos (Nat.zero_lt_of_lt hi)
  obtain ⟨payloads, hinfer, hpayloads⟩ := infer_of_no_failure hsize hne h
  have hi' : i < payloads.length := hpayloads.length_eq ▸ hi
  refine ⟨payloads[i], hpayloads.get hi hi', ?_⟩
  simp [sent, Coordinator.reply, hinfer, hi']

theorem sent_of_failure (hsize : items.length ≤ maxBatchSize) {err : Raised}
    (h : w.firstFailure items = some err) {i : ℕ} (hi : i < items.length) :
    w.sent maxBatchSize items i = Coordinator.handler err := by
  have hne := List.ne_nil_of_length_pos (Nat.zero_lt_of_lt hi)
  simp only [sent, Coordinator.reply, infer_of_failure hsize hne h]
  cases Coordinator.handler err with
  | none => rfl
  | some answer => simp [hi]

theorem firstFailure_eq_none_iff :
    w.firstFailure items = none ↔ ∀ item ∈ items, ∃ payload, w.outcome item = .ok payload := by
  rw [firstFailure, Option.or_eq_none_iff, Attempts.firstError_eq_none_iff,
    Attempts.firstError_eq_none_iff, and_iff_right_iff_imp]
  intro h item hitem
  obtain ⟨payload, hpayload⟩ := h item hitem
  obtain ⟨datum, hdatum, -⟩ := Attempts.bind_eq_ok.mp hpayload
  exact ⟨datum, hdatum⟩

theorem outcome_congr {item item' : PyItem} (hpayload : item.payload = item'.payload)
    (hstate : item.state = item'.state) : w.outcome item = w.outcome item' := by
  simp only [outcome, decode, encode, hpayload, hstate]

theorem batch_isolation (w : ItemWorker α β) {maxBatchSize : ℕ} (xs ys : List PyItem) {i j : ℕ}
    (hxs : xs.length ≤ maxBatchSize) (hys : ys.length ≤ maxBatchSize)
    (hi : i < xs.length) (hj : j < ys.length) (hpayload : xs[i].payload = ys[j].payload)
    (hstate : xs[i].state = ys[j].state) :
    ((∀ item ∈ xs ++ ys, ∃ payload, w.outcome item = .ok payload) →
      ∃ payload, w.sent maxBatchSize xs i = some (.OK, payload) ∧
        w.sent maxBatchSize ys j = some (.OK, payload)) ∧
    ∀ err, w.firstFailure xs = some err →
      ∀ k < xs.length, w.sent maxBatchSize xs k = Coordinator.handler err := by
  constructor
  · intro hall
    have hx := firstFailure_eq_none_iff.mpr fun item h => hall item (List.mem_append_left ys h)
    have hy := firstFailure_eq_none_iff.mpr fun item h => hall item (List.mem_append_right xs h)
    obtain ⟨payload, hpx, hsx⟩ := sent_of_no_failure hxs hx hi
    obtain ⟨payload', hpy, hsy⟩ := sent_of_no_failure hys hy hj
    rw [outcome_congr hpayload hstate, hpy, Except.ok.injEq] at hpx
    exact ⟨payload, hsx, hpx ▸ hsy⟩
  · intro err herr k hk
    exact sent_of_failure hxs herr hk

def asciiWorker : ItemWorker Bytes Bytes where
  deserialize payload := if payload.all (· < 0x80) then .ok payload else .error decodingError
  deserializeIpc := .ok
  forward := id
  serialize := .ok
  serializeIpc := .ok

theorem batch_isolation_ascii :
    (∃ payload, asciiWorker.sent 4 [⟨[1], 3, [0x31]⟩] 0 = some (.OK, payload) ∧
      asciiWorker.sent 4 [⟨[7], 3, [0x32]⟩, ⟨[8], 3, [0x31]⟩] 1 = some (.OK, payload)) ∧
    asciiWorker.sent 4 [⟨[7], 3, [0xff]⟩, ⟨[8], 3, [0x31]⟩] 1 = Coordinator.handler decodingError :=
  ⟨(batch_isolation asciiWorker [⟨[1], 3, [0x31]⟩]
      [⟨[7], 3, [0x32]⟩, ⟨[8], 3, [0x31]⟩] (i := 0) (j := 1) (by decide) (by decide)
      (by decide) (by decide) rfl rfl).1
      (by simp [outcome, decode, encode, Coordinator.decode, Coordinator.encode, calls, asciiWorker,
        bind, Except.bind]),
    (batch_isolation asciiWorker [⟨[7], 3, [0xff]⟩, ⟨[8], 3, [0x31]⟩]
      [⟨[8], 3, [0x31]⟩] (i := 1) (j := 0) (by decide) (by decide) (by decide) (by decide)
      rfl rfl).2 decodingError rfl 1 (by decide)⟩

/-- The body `0xff` of one client puts the error of its decoding into the response of another. -/
theorem batch_not_isolated :
    asciiWorker.sent 4 [⟨[1], 3, [0x31]⟩] 0 = some (.OK, [0x31]) ∧
    asciiWorker.sent 4 [⟨[7], 3, [0xff]⟩, ⟨[8], 3, [0x31]⟩] 1 =
      some (.BAD_REQUEST, "decoding error: decoding error".toUTF8.toList) := by
  constructor <;> decide +kernel

end ItemWorker

end Mosec
