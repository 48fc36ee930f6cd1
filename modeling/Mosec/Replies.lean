import Mosec.Attempts
import Mosec.Coordinator

namespace Mosec.Coordinator

open Protocol (PyItem HTTPStatusCode)

variable {α β : Type} {calls : WorkerCalls α β} {maxBatchSize : ℕ} {items : List PyItem}

def Decodes (calls : WorkerCalls α β) (items : List PyItem) (data : List α) : Prop :=
  data.length = items.length ∧ ∀ (i : ℕ) (h : i < items.length) (h' : i < data.length),
    decode calls i items[i].payload items[i].state = .ok data[i]

def Forwards (calls : WorkerCalls α β) (maxBatchSize : ℕ) (items : List PyItem)
    (results : List β) : Prop :=
  ∃ data, Decodes calls items data ∧ forward calls maxBatchSize data = .ok results ∧
    results.length = items.length

def Succeeds (calls : WorkerCalls α β) (maxBatchSize : ℕ) (items : List PyItem)
    (payloads : List Bytes) : Prop :=
  ∃ results, Forwards calls maxBatchSize items results ∧ payloads.length = items.length ∧
    ∀ (i : ℕ) (h : i < items.length) (h' : i < results.length) (h'' : i < payloads.length),
      encode calls i results[i] items[i].state = .ok payloads[i]

inductive Fails (calls : WorkerCalls α β) (maxBatchSize : ℕ) (items : List PyItem) :
    Raised → Prop
  | decode {err : Raised} (i : ℕ) (h : i < items.length)
      (hbefore : ∀ (j : ℕ) (hj : j < i), ∃ x,
        decode calls j items[j].payload items[j].state = .ok x)
      (hraise : decode calls i items[i].payload items[i].state = .error err) :
      Fails calls maxBatchSize items err
  | forward {err : Raised} (data : List α) (hdata : Decodes calls items data)
      (hraise : forward calls maxBatchSize data = .error err) : Fails calls maxBatchSize items err
  | length (data : List α) (results : List β) (hdata : Decodes calls items data)
      (hresults : forward calls maxBatchSize data = .ok results)
      (hlength : results.length ≠ items.length) : Fails calls maxBatchSize items .exception
  | encode {err : Raised} (results : List β) (hresults : Forwards calls maxBatchSize items results)
      (i : ℕ) (h : i < items.length) (h' : i < results.length)
      (hbefore : ∀ (j : ℕ) (hj : j < i), ∃ x, encode calls j results[j] items[j].state = .ok x)
      (hraise : encode calls i results[i] items[i].state = .error err) :
      Fails calls maxBatchSize items err

theorem decodeAll_eq_ok {data : List α} : decodeAll calls items = .ok data ↔
    Decodes calls items data := Attempts.mapM_zipIdx_eq_ok

theorem encodeAll_eq_ok {results : List β} {payloads : List Bytes}
    (hlen : results.length = items.length) :
    ((results.zip items).zipIdx.mapM fun ((result, item), i) => encode calls i result item.state) =
        .ok payloads ↔
      payloads.length = items.length ∧
        ∀ (i : ℕ) (h : i < items.length) (h' : i < results.length) (h'' : i < payloads.length),
          encode calls i results[i] items[i].state = .ok payloads[i] := by
  have hzip : (results.zip items).length = items.length := by
    rw [List.length_zip, hlen, Nat.min_self]
  rw [Attempts.mapM_zipIdx_eq_ok]
  simp only [hzip, List.getElem_zip]
  constructor
  · exact fun h => ⟨h.1, fun i hi _ hp => h.2 i hi hp⟩
  · exact fun h => ⟨h.1, fun i hi hp => h.2 i hi (hlen ▸ hi) hp⟩

theorem encodeAll_eq_error {results : List β} {err : Raised}
    (hlen : results.length = items.length) :
    ((results.zip items).zipIdx.mapM fun ((result, item), i) => encode calls i result item.state) =
        .error err ↔
      ∃ (i : ℕ) (h : i < items.length) (h' : i < results.length),
        (∀ (j : ℕ) (hj : j < i), ∃ x, encode calls j results[j] items[j].state = .ok x) ∧
          encode calls i results[i] items[i].state = .error err := by
  have hzip : (results.zip items).length = items.length := by
    rw [List.length_zip, hlen, Nat.min_self]
  rw [Attempts.mapM_zipIdx_eq_error]
  simp only [hzip, List.getElem_zip]
  constructor
  · rintro ⟨i, hi, hbefore, hraise⟩
    exact ⟨i, hi, hi.trans_eq hlen.symm, hbefore, hraise⟩
  · rintro ⟨i, hi, hi', hbefore, hraise⟩
    exact ⟨i, hi, hbefore, hraise⟩

theorem infer_eq_ok {payloads : List Bytes} :
    infer calls maxBatchSize items = .ok payloads ↔
      Succeeds calls maxBatchSize items payloads := by
  unfold infer
  rw [Attempts.bind_eq_ok]
  constructor
  · rintro ⟨data, hdata, h⟩
    obtain ⟨results, hresults, h⟩ := Attempts.bind_eq_ok.mp h
    by_cases hlen : results.length = items.length
    · rw [if_neg (not_not_intro hlen)] at h
      exact ⟨results, ⟨data, decodeAll_eq_ok.mp hdata, hresults, hlen⟩,
        (encodeAll_eq_ok hlen).mp h⟩
    · rw [if_pos hlen] at h
      cases h
  · rintro ⟨results, ⟨data, hdata, hresults, hlen⟩, h⟩
    refine ⟨data, decodeAll_eq_ok.mpr hdata, Attempts.bind_eq_ok.mpr ⟨results, hresults, ?_⟩⟩
    rw [if_neg (not_not_intro hlen)]
    exact (encodeAll_eq_ok hlen).mpr h

theorem infer_eq_error {err : Raised} :
    infer calls maxBatchSize items = .error err ↔ Fails calls maxBatchSize items err := by
  unfold infer
  rw [Attempts.bind_eq_error]
  constructor
  · rintro (h | ⟨data, hdata, h⟩)
    · obtain ⟨i, hi, hbefore, hraise⟩ := Attempts.mapM_zipIdx_eq_error.mp h
      exact .decode i hi hbefore hraise
    · have hdecodes := decodeAll_eq_ok.mp hdata
      cases Attempts.bind_eq_error.mp h with
      | inl h => exact .forward data hdecodes h
      | inr h =>
        obtain ⟨results, hresults, h⟩ := h
        by_cases hlen : results.length = items.length
        · rw [if_neg (not_not_intro hlen)] at h
          obtain ⟨i, hi, hi', hbefore, hraise⟩ := (encodeAll_eq_error hlen).mp h
          exact .encode results ⟨data, hdecodes, hresults, hlen⟩ i hi hi' hbefore hraise
        · rw [if_pos hlen] at h
          cases h
          exact .length data results hdecodes hresults hlen
  · intro h
    cases h with
    | decode i hi hbefore hraise =>
      exact .inl (Attempts.mapM_zipIdx_eq_error.mpr ⟨i, hi, hbefore, hraise⟩)
    | forward data hdata hraise =>
      exact .inr ⟨data, decodeAll_eq_ok.mpr hdata, Attempts.bind_eq_error.mpr (.inl hraise)⟩
    | length data results hdata hresults hlen =>
      refine .inr ⟨data, decodeAll_eq_ok.mpr hdata, ?_⟩
      apply Attempts.bind_eq_error.mpr
      refine .inr ⟨results, hresults, ?_⟩
      rw [if_pos hlen]
      rfl
    | encode results hresults i hi hi' hbefore hraise =>
      obtain ⟨data, hdata, hforward, hlen⟩ := hresults
      refine .inr ⟨data, decodeAll_eq_ok.mpr hdata, ?_⟩
      apply Attempts.bind_eq_error.mpr
      refine .inr ⟨results, hforward, ?_⟩
      rw [if_neg (not_not_intro hlen)]
      exact (encodeAll_eq_error hlen).mpr ⟨i, hi, hi', hbefore, hraise⟩

def Replies (items : List PyItem) (code : HTTPStatusCode) (payloads : List Bytes)
    (frame : Bytes) : Prop :=
  payloads.length = items.length ∧
    Protocol.send code.value (items.map PyItem.id) (items.map PyItem.state) payloads = .ok frame

/-- The frame that answers a batch: its results, or the text of what was raised for each item. -/
def Answers (calls : WorkerCalls α β) (maxBatchSize : ℕ) (items : List PyItem)
    (frame : Bytes) : Prop :=
  ∃ code payloads, Replies items code payloads frame ∧
    ((code = .OK ∧ Succeeds calls maxBatchSize items payloads) ∨
      ∃ err text, Fails calls maxBatchSize items err ∧ handler err = some (code, text) ∧
        code ≠ .OK ∧ payloads = List.replicate items.length text)

theorem handler_not_ok {err : Raised} {code : HTTPStatusCode} {text : Bytes}
    (h : handler err = some (code, text)) : code ≠ .OK := by
  cases err with
  | mosecError code' nonOk msg str =>
    obtain ⟨bytes, -, heq⟩ := Option.map_eq_some_iff.mp h
    cases heq
    exact nonOk
  | timeoutError str =>
    obtain ⟨bytes, -, heq⟩ := Option.map_eq_some_iff.mp h
    cases heq
    exact HTTPStatusCode.noConfusion
  | exception =>
    unfold handler at h
    obtain ⟨bytes, -, heq⟩ := Option.map_eq_some_iff.mp h
    cases heq
    exact HTTPStatusCode.noConfusion
  | baseException => cases h

theorem toOption_eq_some {ε γ : Type} {x : Except ε γ} {a : γ} (h : x.toOption = some a) :
    x = .ok a := by
  cases x with
  | error e => cases h
  | ok b =>
    cases h
    rfl

theorem answer_answers {frame : Bytes} (h : answer calls maxBatchSize items = some frame) :
    Answers calls maxBatchSize items frame := by
  unfold answer at h
  obtain ⟨⟨code, payloads⟩, hreply, hsend⟩ := Option.bind_eq_some_iff.mp h
  have hframe := toOption_eq_some hsend
  unfold reply at hreply
  cases hinfer : infer calls maxBatchSize items with
  | ok payloads' =>
    rw [hinfer] at hreply
    cases hreply
    have hsucceeds := infer_eq_ok.mp hinfer
    obtain ⟨results, -, hlen, -⟩ := hsucceeds
    exact ⟨.OK, payloads, ⟨hlen, hframe⟩, .inl ⟨rfl, infer_eq_ok.mp hinfer⟩⟩
  | error err =>
    rw [hinfer] at hreply
    obtain ⟨⟨code', text⟩, hhandler, heq⟩ := Option.map_eq_some_iff.mp hreply
    cases heq
    exact ⟨code, _, ⟨List.length_replicate, hframe⟩,
      .inr ⟨err, text, infer_eq_error.mp hinfer, hhandler, handler_not_ok hhandler, rfl⟩⟩

theorem answer_of_answers {frame : Bytes} (h : Answers calls maxBatchSize items frame) :
    answer calls maxBatchSize items = some frame := by
  obtain ⟨code, payloads, ⟨-, hsend⟩, ⟨rfl, hsucceeds⟩ | ⟨err, text, hfails, hhandler, -, rfl⟩⟩ := h
  · simp only [answer, reply, infer_eq_ok.mpr hsucceeds, Option.bind_eq_bind, Option.bind_some,
      hsend, Except.toOption]
  · simp only [answer, reply, infer_eq_error.mpr hfails, hhandler, Option.map_some,
      Option.bind_eq_bind, Option.bind_some, hsend, Except.toOption]

theorem coordinate_escaped (h : answer calls maxBatchSize items = none) (sends : Bool)
    (incoming : List (Incoming α β)) :
    coordinate maxBatchSize (.batch items calls sends :: incoming) = ⟨[], .escaped⟩ := by
  rw [coordinate, h]

theorem coordinate_answered {frame : Bytes} (h : answer calls maxBatchSize items = some frame)
    (incoming : List (Incoming α β)) :
    coordinate maxBatchSize (.batch items calls true :: incoming) =
      (coordinate maxBatchSize incoming).cons frame := by
  rw [coordinate, h]
  rfl

theorem coordinate_unsent {frame : Bytes} (h : answer calls maxBatchSize items = some frame)
    (incoming : List (Incoming α β)) :
    coordinate maxBatchSize (.batch items calls false :: incoming) = ⟨[], .broken⟩ := by
  rw [coordinate, h]
  rfl

def batches : List (Incoming α β) → List (List PyItem × WorkerCalls α β)
  | [] => []
  | .batch items calls _ :: incoming => (items, calls) :: batches incoming
  | _ :: incoming => batches incoming

def Incoming.passes : Incoming α β → Bool
  | .timeout => true
  | .broken => false
  | .batch _ _ sends => sends

/-- What stops the loop: nothing but the shutdown, a socket that fails for a read or for a reply,
or a batch that no frame answers. -/
inductive Ends (maxBatchSize : ℕ) : Exit → List (Incoming α β) → Prop
  | shutdown : Ends maxBatchSize .shutdown []
  | unread (incoming : List (Incoming α β)) : Ends maxBatchSize .broken (.broken :: incoming)
  | unsent {items : List PyItem} {calls : WorkerCalls α β} {frame : Bytes}
      (incoming : List (Incoming α β)) : Answers calls maxBatchSize items frame →
      Ends maxBatchSize .broken (.batch items calls false :: incoming)
  | escaped {items : List PyItem} {calls : WorkerCalls α β} (sends : Bool)
      (incoming : List (Incoming α β)) : (∀ frame, ¬ Answers calls maxBatchSize items frame) →
      Ends maxBatchSize .escaped (.batch items calls sends :: incoming)

theorem replies_line_up (maxBatchSize : ℕ) (incoming : List (Incoming α β)) :
    ∃ done rest, incoming = done ++ rest ∧ (∀ event ∈ done, event.passes) ∧
      List.Forall₂ (fun batch frame => Answers batch.2 maxBatchSize batch.1 frame) (batches done)
        (coordinate maxBatchSize incoming).frames ∧
      Ends maxBatchSize (coordinate maxBatchSize incoming).exit rest := by
  induction incoming with
  | nil => exact ⟨[], [], rfl, by simp, .nil, .shutdown⟩
  | cons head incoming ih =>
    obtain ⟨done, rest, hsplit, hpasses, hframes, hends⟩ := ih
    cases head with
    | timeout =>
      refine ⟨.timeout :: done, rest, congrArg _ hsplit, ?_, hframes, hends⟩
      exact List.forall_mem_cons.mpr ⟨rfl, hpasses⟩
    | broken => exact ⟨[], _, rfl, by simp, .nil, .unread incoming⟩
    | batch items calls sends =>
      cases hanswer : answer calls maxBatchSize items with
      | none =>
        rw [coordinate_escaped hanswer]
        refine ⟨[], _, rfl, by simp, .nil, .escaped sends incoming ?_⟩
        intro frame hframe
        rw [answer_of_answers hframe] at hanswer
        cases hanswer
      | some frame =>
        have hanswers := answer_answers hanswer
        cases sends with
        | false =>
          rw [coordinate_unsent hanswer]
          exact ⟨[], _, rfl, by simp, .nil, .unsent incoming hanswers⟩
        | true =>
          rw [coordinate_answered hanswer]
          refine ⟨.batch items calls true :: done, rest, congrArg _ hsplit, ?_, ?_, hends⟩
          · exact List.forall_mem_cons.mpr ⟨rfl, hpasses⟩
          · exact .cons hanswers hframes

def forwarding (forward : List Bytes → Except Raised (List Bytes)) : WorkerCalls Bytes Bytes where
  deserialize := fun _ payload => .ok payload
  deserializeIpc := fun _ payload => .ok payload
  forwardBatch := forward
  forwardOne := fun data => .ok data
  serialize := fun _ data => .ok data
  serializeIpc := fun _ data => .ok data

def oneItem : List PyItem := [⟨[0, 0, 0, 7], 3, [5]⟩]

def mixedBatches : List (Incoming Bytes Bytes) :=
  [.timeout, .batch oneItem (forwarding .ok) true,
    .batch oneItem (forwarding fun _ => .error .baseException) true]

theorem replies_line_up_escaped :
    coordinate 2 mixedBatches = ⟨[[0, 1, 0, 1, 0, 0, 0, 7, 0, 3, 0, 0, 0, 1, 5]], .escaped⟩ ∧
    ∃ done rest, mixedBatches = done ++ rest ∧ (batches done).length = 1 ∧
      Ends 2 .escaped rest := by
  have hfirst : answer (forwarding .ok) 2 oneItem =
      some [0, 1, 0, 1, 0, 0, 0, 7, 0, 3, 0, 0, 0, 1, 5] := by
    decide +kernel
  have hsecond : answer (forwarding fun _ => .error .baseException) 2 oneItem = none := by
    decide +kernel
  have hrun : coordinate 2 mixedBatches =
      ⟨[[0, 1, 0, 1, 0, 0, 0, 7, 0, 3, 0, 0, 0, 1, 5]], .escaped⟩ := by
    rw [mixedBatches, coordinate, coordinate_answered hfirst, coordinate_escaped hsecond]
    rfl
  obtain ⟨done, rest, hsplit, -, hframes, hends⟩ := replies_line_up 2 mixedBatches
  rw [hrun] at hframes hends
  exact ⟨hrun, done, rest, hsplit, hframes.length_eq, hends⟩

end Mosec.Coordinator
