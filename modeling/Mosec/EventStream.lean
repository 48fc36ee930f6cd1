import Mosec.EventDelivery
import Mosec.Pipeline
import Mosec.PyStr
import Mosec.Utf8

namespace Mosec

structure SseEvent where
  event : Option String
  data : List Char
  deriving DecidableEq, Repr

def TaskCode.display : TaskCode → String
  | .Normal => "200: OK"
  | .BadRequestError => "400: Bad Request"
  | .ValidationError => "422: Unprocessable Content"
  | .TimeoutError => "408: Request Timeout"
  | .InternalError => "500: Internal Server Error"
  | .StreamEvent => "200: Server Sent Event"

def sseError (code : TaskCode) : String := "SSE inference error: " ++ code.display

def errorData (code : TaskCode) (text : List Char) : List Char :=
  (sseError code).toList ++ ": ".toList ++ text

/-- What the stream of `sse_inference` yields for an event of the channel, where an error breaks
the response off. -/
def sseYield : Event → Except TaskCode SseEvent
  | (msg, .Normal) => .ok ⟨none, Utf8.fromUtf8Lossy msg⟩
  | (_, .StreamEvent) => .error .StreamEvent
  | (msg, code) => .ok ⟨some "error", errorData code (Utf8.fromUtf8Lossy msg)⟩

inductive SseResponse where
  | plain (response : Response)
  | stream (body : List (Except TaskCode SseEvent))

def Request.sseResponse (q : Request) (stream : Stream) : Option SseResponse :=
  if q.hasResponse then some (.stream (stream.received.map sseYield))
  else match q.isSse, q.handler with
    | true, .done (.error err) => some (.plain ⟨err.status, ascii err.display⟩)
    | true, .done .noData => some (.plain ⟨200, responseEmpty⟩)
    | _, _ => none

namespace PyStr

def chars (s : PyStr) : List Char := s.map fun c => Char.ofNat c.val

theorem encode_eq {s : PyStr} {bytes : Bytes} (h : s.encode = some bytes) :
    bytes = s.chars.flatMap String.utf8EncodeChar := by
  induction s generalizing bytes with
  | nil =>
    cases h
    rfl
  | cons c s ih =>
    obtain ⟨first, hfirst, h⟩ := Option.bind_eq_some_iff.mp h
    obtain ⟨rest, hrest, h⟩ := Option.bind_eq_some_iff.mp h
    obtain rfl := Option.some.inj h
    rw [encodePoint] at hfirst
    split at hfirst
    · cases hfirst
    · obtain rfl := Option.some.inj hfirst
      rw [chars, List.map_cons, List.flatMap_cons, ih hrest]
      rfl

theorem fromUtf8Lossy_encode {s : PyStr} {bytes : Bytes} (h : s.encode = some bytes) :
    Utf8.fromUtf8Lossy bytes = s.chars := by
  rw [encode_eq h, Utf8.fromUtf8Lossy_encode]

end PyStr

theorem sseYield_text {text : PyStr} {bytes : Bytes} (h : text.encode = some bytes) :
    sseYield (bytes, .Normal) = .ok ⟨none, text.chars⟩ := by
  rw [sseYield, PyStr.fromUtf8Lossy_encode h]

theorem sseYield_error {text : PyStr} {bytes : Bytes} {code : TaskCode}
    (h : text.encode = some bytes) (hnormal : code ≠ .Normal) (hevent : code ≠ .StreamEvent) :
    sseYield (bytes, code) = .ok ⟨some "error", errorData code text.chars⟩ := by
  rw [← PyStr.fromUtf8Lossy_encode h]
  cases code with
  | Normal => exact absurd rfl hnormal
  | StreamEvent => exact absurd rfl hevent
  | _ => rfl

structure Speech where
  texts : List PyStr
  failure : Option (TaskCode × PyStr)

namespace Speech

def encoded (speech : Speech) : List (Option Bytes × TaskCode) :=
  speech.texts.map (fun text => (text.encode, .Normal)) ++
    speech.failure.toList.map fun failure => (failure.2.encode, failure.1)

def rendered (speech : Speech) : List SseEvent :=
  speech.texts.map (fun text => ⟨none, text.chars⟩) ++
    speech.failure.toList.map fun failure =>
      ⟨some "error", errorData failure.1 failure.2.chars⟩

theorem exists_texts {payloads : List Bytes}
    (h : ∀ payload ∈ payloads, ∃ text : PyStr, text.encode = some payload) :
    ∃ texts : List PyStr, texts.map PyStr.encode = payloads.map some := by
  induction payloads with
  | nil => exact ⟨[], rfl⟩
  | cons payload payloads ih =>
    rw [List.forall_mem_cons] at h
    obtain ⟨text, htext⟩ := h.1
    obtain ⟨texts, htexts⟩ := ih h.2
    exact ⟨text :: texts, by rw [List.map_cons, List.map_cons, htext, htexts]⟩

theorem yields_texts {texts : List PyStr} {payloads : List Bytes}
    (h : texts.map PyStr.encode = payloads.map some) :
    payloads.map (fun data => sseYield (data, .Normal)) =
      texts.map fun text => .ok ⟨none, text.chars⟩ := by
  induction payloads generalizing texts with
  | nil =>
    obtain rfl := List.map_eq_nil_iff.mp h
    rfl
  | cons payload payloads ih =>
    obtain ⟨text, texts, rfl, htext, htexts⟩ := List.map_eq_cons_iff.mp h
    rw [List.map_cons, List.map_cons, sseYield_text htext, ih htexts]

theorem of_events {events : List Event} {replies : List (TaskCode × Bytes)}
    (hrecorded : ∃ payloads : List Bytes,
      events = payloads.map (fun data => (data, .Normal)) ++ Life.errorEvent replies)
    (hspoken : ∀ event ∈ events, event.2 ≠ .StreamEvent ∧
      ∃ text : PyStr, text.encode = some event.1) :
    ∃ speech : Speech, events.map (fun event => (some event.1, event.2)) = speech.encoded ∧
      events.map sseYield = speech.rendered.map .ok ∧
      ∀ failure ∈ speech.failure, failure.1 ≠ .Normal := by
  obtain ⟨payloads, rfl⟩ := hrecorded
  obtain ⟨texts, htexts⟩ := exists_texts fun payload hpayload =>
    (hspoken (payload, .Normal)
      (List.mem_append_left _ (List.mem_map_of_mem hpayload))).2
  have hencoded : payloads.map (fun data => (some data, TaskCode.Normal)) =
      texts.map fun text => (text.encode, TaskCode.Normal) := by
    have hmap := congrArg (List.map fun data => (data, TaskCode.Normal)) htexts
    rw [List.map_map, List.map_map] at hmap
    exact hmap.symm
  have hyields := yields_texts htexts
  by_cases hnone : Life.errorEvent replies = []
  · refine ⟨⟨texts, none⟩, ?_, ?_, by simp⟩
    · simpa [hnone, encoded, Function.comp_def] using hencoded
    · simpa [hnone, rendered, Function.comp_def] using hyields
  · obtain ⟨code, data, hcode, herror⟩ : ∃ code data, code ≠ .Normal ∧
        Life.errorEvent replies = [(data, code)] := by
      unfold Life.errorEvent at hnone ⊢
      split at hnone
      case h_1 code data hlast =>
        by_cases hcode : code = .Normal
        · rw [if_pos hcode] at hnone
          exact absurd rfl hnone
        · exact ⟨code, data, hcode, by rw [if_neg hcode]⟩
      case h_2 => exact absurd rfl hnone
    rw [herror] at hspoken ⊢
    obtain ⟨hevent, text, htext⟩ := hspoken (data, code) (by simp)
    refine ⟨⟨texts, some (code, text)⟩, ?_, ?_, ?_⟩
    · simpa [encoded, htext, Function.comp_def] using hencoded
    · simpa [rendered, Function.comp_def, sseYield_error htext hcode hevent] using hyields
    · rintro failure ⟨⟩
      exact hcode

end Speech

def Request.streams (q : Request) : Bool :=
  !q.isSse || match q.handler with
    | .takeTask => false
    | .dropped => false
    | .deleteNotifier exit => exit != .expired
    | .deleteTask exit => exit != .expired
    | .uncount outcome => outcome == .stream
    | .done outcome =>
      outcome == .noData || outcome == .error .TooManyRequests || outcome == .stream
    | _ => true

theorem Life.streams_step {svc : Service} {lab : Label} {ℓ ℓ' : Life}
    (hs : Step svc lab ℓ ℓ') (h : ℓ.request.streams = true) : ℓ'.request.streams = true := by
  rcases hs with hs | hs | ⟨-, hs⟩
  · cases hs
    case receiveEvent => exact h
    case endStream => exact h
    case leave => exact h
    case accept => by_cases hsse : ℓ.request.isSse <;> simp [goto, carry, Request.streams, hsse]
    case resume => by_cases hsse : ℓ.request.isSse <;> simp [goto, Request.streams, hsse]
    case elapse => by_cases hsse : ℓ.request.isSse <;> simp [goto, closed, Request.streams, hsse]
    case deleteTask exit hq =>
      by_cases hsse : ℓ.request.isSse <;> cases exit <;>
        simp_all [goto, Request.streams, Request.afterDelete]
    case uncount outcome hq =>
      by_cases hsse : ℓ.request.isSse <;> simp_all [goto, charge, Request.streams]
    all_goals simp_all [goto, charge, closed, withoutNotifier, Request.streams]
  · rw [hs.frame.2.1]
    exact h
  · obtain ⟨events, buffer, rfl⟩ := hs.frame
    exact h

theorem Request.Move.events {svc : Service} {m m' : TaskManager} {h : ℕ} {q q' : Request}
    {clones : Bool} {act : RequestAction} (hm : Move svc m h q clones act m' q') (n : ℕ) :
    (m'.history n).events = (m.history n).events := by
  cases hm
  case count =>
    by_cases hn : n = h <;> simp [TaskManager.count, hn]
  case uncount =>
    by_cases hn : n = h <;> simp [TaskManager.count, hn]
  all_goals rfl

namespace Conn

theorem foldl_streamEvent (items : List Item) (history : History) :
    (items.foldl streamEvent history).events =
      history.events ++ items.map fun item => (item.data, .Normal) := by
  induction items generalizing history with
  | nil => simp
  | cons item items ih =>
    rw [List.foldl_cons, ih]
    simp [streamEvent]

theorem foldl_answer {code : TaskCode} (items : List Item) (history : History) :
    (items.foldl (answer code) history).events =
      history.events ++ if code = .Normal then [] else items.map fun item => (item.data, code) := by
  induction items generalizing history with
  | nil => simp
  | cons item items ih =>
    rw [List.foldl_cons, ih]
    by_cases hcode : code = .Normal <;> simp [answer, hcode]

variable {svc : Service} {m m' : TaskManager} {c c' : Conn} {act : ConnAction}
  {touched : List UInt32}

inductive Says (m : TaskManager) (h : ℕ) : ConnAction → Event → Prop
  | event {items : List Item} {item : Item} : item ∈ items → m.owner item.id = some h →
      Says m h (.readEvents items) (item.data, .Normal)
  | reply {code : TaskCode} {items : List Item} {item : Item} : code ≠ .Normal → item ∈ items →
      m.owner item.id = some h → Says m h (.readReply code items) (item.data, code)
  | cut {code : TaskCode} {items : List Item} {item : Item} : code ≠ .Normal → item ∈ items →
      m.owner item.id = some h → Says m h (.readErr code items) (item.data, code)

theorem Move.events (hm : Move svc m c act touched m' c') {h : ℕ} {event : Event}
    (hevent : event ∈ (m'.history h).events) :
    event ∈ (m.history h).events ∨ Says m h act event := by
  have hanswers : ∀ {code : TaskCode} {items : List Item},
      event ∈ ((m.record items (answer code)).history h).events →
      event ∈ (m.history h).events ∨ code ≠ .Normal ∧
        ∃ item ∈ items, m.owner item.id = some h ∧ event = (item.data, code) := by
    intro code items hmem
    rw [TaskManager.record, foldl_answer] at hmem
    rcases List.mem_append.mp hmem with hmem | hmem
    · exact Or.inl hmem
    · split at hmem
      · cases hmem
      · obtain ⟨item, hitem, rfl⟩ := List.mem_map.mp hmem
        obtain ⟨hitem, hown⟩ := List.mem_filter.mp hitem
        exact Or.inr ⟨‹_›, item, hitem, of_decide_eq_true hown, rfl⟩
  have hstream : ∀ {items : List Item},
      event ∈ ((m.record items streamEvent).history h).events →
      event ∈ (m.history h).events ∨ Says m h (.readEvents items) event := by
    intro items hmem
    rw [TaskManager.record, foldl_streamEvent] at hmem
    rcases List.mem_append.mp hmem with hmem | hmem
    · exact Or.inl hmem
    · obtain ⟨item, hitem, rfl⟩ := List.mem_map.mp hmem
      obtain ⟨hitem, hown⟩ := List.mem_filter.mp hitem
      exact Or.inr (.event hitem (of_decide_eq_true hown))
  cases hm
  case readEvents => exact hstream hevent
  case readLate => exact hstream hevent
  case readReply streamed code items hp hcode hnames hnodup =>
    rcases hanswers hevent with hevent | ⟨hcode, item, hitem, hown, rfl⟩
    · exact Or.inl hevent
    · exact Or.inr (.reply hcode hitem hown)
  case readCut code items hp hnames hnodup =>
    rcases hanswers hevent with hevent | ⟨hcode, item, hitem, hown, rfl⟩
    · exact Or.inl hevent
    · exact Or.inr (.cut hcode hitem hown)
  case writeOk items hp hopen =>
    left
    have hfold : ∀ (items : List Item) (history : History),
        (items.foldl (handOver c.runtime) history).events = history.events := by
      intro items
      induction items with
      | nil => exact fun _ => rfl
      | cons item items ih => exact fun history => ih _
    rwa [TaskManager.record, hfold] at hevent
  case uncount id h' jobs next hp hown =>
    left
    by_cases hh : h = h'
    · simpa [TaskManager.count, hh] using hevent
    · simpa [TaskManager.count, hh] using hevent
  all_goals exact Or.inl hevent

end Conn

namespace State

variable {svc : Service} {ok : State → Action → Prop} {s s' : State} {a : Action} {h : ℕ}

def Spoken (h : ℕ) (s : State) (a : Action) : Prop :=
  ∀ k act event, a = .conn k act → Conn.Says s.manager h act event →
    event.2 ≠ .StreamEvent ∧ ∃ text : PyStr, text.encode = some event.1

theorem spoken_of_run (hs : FreshRun svc (Spoken h) s) {event : Event}
    (hevent : event ∈ (s.manager.history h).events) :
    event.2 ≠ .StreamEvent ∧ ∃ text : PyStr, text.encode = some event.1 := by
  induction hs with
  | init => cases hevent
  | @step s s' a hrun hok hstep ih =>
    cases a with
    | submit isSse key body =>
      obtain rfl := Option.some.inj hstep
      apply ih
      replace hevent : event ∈
        ((Request.submit s.manager s.submitted isSse key body).1.history h).events := hevent
      unfold Request.submit at hevent
      split at hevent
      · exact hevent
      · split at hevent
        · exact hevent
        · by_cases hh : h = s.submitted <;> simpa [TaskManager.count, hh] using hevent
    | request n act =>
      obtain ⟨⟨m, q⟩, hmove, rfl⟩ := Option.map_eq_some_iff.mp hstep
      apply ih
      rwa [← (Request.move_of_step hmove).events h]
    | connect r =>
      simp only [step] at hstep
      split at hstep
      · obtain rfl := Option.some.inj hstep
        exact ih hevent
      · cases hstep
    | conn k act =>
      obtain ⟨⟨m, c⟩, hmove, rfl⟩ := Option.map_eq_some_iff.mp hstep
      obtain ⟨touched, hm⟩ := Conn.move_of_step hmove
      rcases hm.events hevent with hevent | hsays
      · exact ih hevent
      · exact hok.2 k act event rfl hsays

theorem streams_of_run (hs : FreshRun svc ok s) (h : ℕ) : (s.requests h).streams = true :=
  life_always (fun ℓ => ℓ.request.streams = true) (fun _ => rfl) Life.streams_step hs h

/-- The client of an SSE request learns that it sent nothing or that the service is full, or reads
the texts its workers sent, in their order and unaltered, with at most one error after them. -/
theorem sse_response_spoken
    (hs : Run svc (fun s a => Attended h a ∧ s.Timely h a ∧ s.Punctual h a ∧ s.Spoken h a) s)
    (hlt : s.submitted < 2 ^ 32) {response : SseResponse}
    (hresponse : (s.requests h).sseResponse (s.manager.streams h) = some response) :
    ((s.requests h).body = [] ∧ response = .plain ⟨200, responseEmpty⟩) ∨
      response = .plain ⟨429, ascii "too many request: task queue is full"⟩ ∨
      ∃ (speech : Speech) (body : List (Except TaskCode SseEvent)), response = .stream body ∧
        (s.manager.history h).events.map (fun event => (some event.1, event.2)) =
          speech.encoded ∧
        (∀ failure ∈ speech.failure, failure.1 ≠ .Normal) ∧
        body <+: speech.rendered.map .ok ∧
        ((s.manager.streams h).ended → body = speech.rendered.map .ok) := by
  have hrun := (freshRun_of_submitted hs hlt).1
  have hstreams := streams_of_run hrun h
  unfold Request.sseResponse at hresponse
  split at hresponse
  case isTrue hhas =>
    right
    right
    have hsse : (s.requests h).isSse = true := (Request.waiting_or_finished hhas).1
    have htimely : FreshRun svc (fun s a => Attended h a ∧ s.Timely h a ∧ s.Punctual h a) s :=
      hrun.mono fun _ _ hok => ⟨hok.1, hok.2.1, hok.2.2.1, hok.2.2.2.1⟩
    have hpunctual : FreshRun svc (Punctual h) s := hrun.mono fun _ _ hok => ⟨hok.1, hok.2.2.2.1⟩
    have hspoken : FreshRun svc (Spoken h) s := hrun.mono fun _ _ hok => ⟨hok.1, hok.2.2.2.2⟩
    obtain ⟨speech, hencoded, hrendered, hfailure⟩ :=
      Speech.of_events (recorded_of_run hpunctual) fun _ => spoken_of_run hspoken
    have hstreamed := streamed_of_run htimely
    have hdelivered : (s.manager.history h).events = _ := hstreamed.delivered (Or.inl hsse)
    refine ⟨speech, _, (Option.some.inj hresponse).symm, hencoded, hfailure, ?_, ?_⟩
    · rw [← hrendered]
      change _ <+: (s.manager.history h).events.map sseYield
      rw [hdelivered, List.append_assoc]
      exact (List.prefix_append _ _).map _
    · intro hended
      have hcomplete : (s.manager.streams h).received = _ := hstreamed.complete hended
      rw [hcomplete]
      exact hrendered
  case isFalse hhas =>
    split at hresponse
    case h_1 err hsse hq =>
      right
      left
      rw [Request.streams, hsse, hq] at hstreams
      obtain rfl : err = .TooManyRequests := by simpa using hstreams
      exact (Option.some.inj hresponse).symm
    case h_2 hsse hq =>
      refine Or.inl ⟨refused_of_run hrun h ?_, (Option.some.inj hresponse).symm⟩
      change (s.requests h).handler.outcome = _
      rw [hq]
      rfl
    case h_3 => cases hresponse

def isText (data : Bytes) : Bool :=
  (PyStr.ofString (String.ofList (Utf8.fromUtf8Lossy data))).encode == some data

def speaks (h : ℕ) (s : State) : Action → Bool
  | .conn _ (.readEvents items) => items.all fun item =>
    s.manager.owner item.id != some h || isText item.data
  | .conn _ (.readReply code items) => code == .Normal || code != .StreamEvent &&
    items.all fun item => s.manager.owner item.id != some h || isText item.data
  | .conn _ (.readErr code items) => code == .Normal || code != .StreamEvent &&
    items.all fun item => s.manager.owner item.id != some h || isText item.data
  | _ => true

theorem spoken_of_speaks (ht : s.speaks h a) : s.Spoken h a := by
  have hexists : ∀ {data : Bytes}, isText data → ∃ text : PyStr, text.encode = some data :=
    fun htext => ⟨_, eq_of_beq htext⟩
  have hreply : ∀ {code : TaskCode} {items : List Item} {item : Item}, code ≠ .Normal →
      item ∈ items → s.manager.owner item.id = some h →
      (code == .Normal || code != .StreamEvent &&
        items.all fun item => s.manager.owner item.id != some h || isText item.data) →
      code ≠ .StreamEvent ∧ ∃ text : PyStr, text.encode = some item.data := by
    intro code items item hcode hitem hown htest
    simp only [Bool.or_eq_true, beq_iff_eq, hcode, false_or, Bool.and_eq_true, bne_iff_ne, ne_eq,
      List.all_eq_true] at htest
    exact ⟨htest.1, hexists ((htest.2 item hitem).resolve_left (not_not_intro hown))⟩
  rintro k act event rfl hsays
  cases hsays with
  | event hitem hown =>
    simp only [speaks, List.all_eq_true, Bool.or_eq_true, bne_iff_ne, ne_eq] at ht
    exact ⟨by simp, hexists ((ht _ hitem).resolve_left (not_not_intro hown))⟩
  | reply hcode hitem hown => exact hreply hcode hitem hown ht
  | cut hcode hitem hown => exact hreply hcode hitem hown ht

def spokenRun : List Action := List.flatten [
  [.connect 0, .submit true "/" [1]],
  List.replicate 7 (.request 0 .run),
  [.conn 0 .recv, .conn 0 .run, .conn 0 .writeOk, .conn 0 (.readEvents [⟨0, 0, [104, 105]⟩])],
  List.replicate 4 (.conn 0 .run),
  [.conn 0 (.readEvents [⟨0, 0, [195, 169]⟩])],
  List.replicate 4 (.conn 0 .run),
  [.conn 0 (.readReply .InternalError [⟨0, 0, [110, 111]⟩])],
  List.replicate 8 (.conn 0 .run),
  [.request 0 .resume],
  List.replicate 4 (.request 0 .run),
  List.replicate 4 (.request 0 .receiveEvent)]

theorem sse_response_spoken_run : ∃ s, Transition.run (step echo) start spokenRun = some s ∧
    (s.requests 0).sseResponse (s.manager.streams 0) = some (.stream [.ok ⟨none, ['h', 'i']⟩,
      .ok ⟨none, ['é']⟩,
      .ok ⟨some "error", "SSE inference error: 500: Internal Server Error: no".toList⟩]) ∧
    ∃ speech : Speech, (s.manager.history 0).events.map (fun event => (some event.1, event.2)) =
        speech.encoded ∧
      (s.requests 0).sseResponse (s.manager.streams 0) =
        some (.stream (speech.rendered.map .ok)) := by
  have hview : ((Transition.run (step echo) start spokenRun).map fun s =>
      (s.submitted, s.requests 0, s.manager.streams 0)) =
      some (1, ⟨true, "/", [1], 0, .done .stream⟩, ⟨[], [([104, 105], .Normal),
        ([195, 169], .Normal), ([110, 111], .InternalError)], true, false⟩) := by
    decide +kernel
  have hchecked : Transition.checked (step echo)
      (fun s a => delivers 0 s a && inTime 0 s a && speaks 0 s a) start spokenRun := by
    decide +kernel
  have htest : ∀ (s : State) (a : Action), delivers 0 s a && inTime 0 s a && speaks 0 s a →
      Attended 0 a ∧ s.Timely 0 a ∧ s.Punctual 0 a ∧ s.Spoken 0 a := by
    intro s a ht
    rw [Bool.and_eq_true, Bool.and_eq_true] at ht
    obtain ⟨⟨hdelivers, hintime⟩, hspeaks⟩ := ht
    exact ⟨attended_of_delivers hdelivers, timely_of_delivers hdelivers,
      punctual_of_inTime hintime, spoken_of_speaks hspeaks⟩
  obtain ⟨s, hs, hrun, hfields⟩ := Transition.Reachable.of_checked htest hchecked hview
  simp only [Prod.mk.injEq] at hfields
  obtain ⟨hsubmitted, hrequest, hstream⟩ := hfields
  have hlt : s.submitted < 2 ^ 32 := by
    rw [hsubmitted]
    decide
  have hresponse : (s.requests 0).sseResponse (s.manager.streams 0) =
      some (.stream ((s.manager.streams 0).received.map sseYield)) := by
    rw [hrequest]
    rfl
  refine ⟨s, hs, ?_, ?_⟩
  · rw [hresponse, hstream]
    rfl
  · rcases sse_response_spoken hrun hlt hresponse with ⟨-, hplain⟩ | hplain |
      ⟨speech, body, hbody, hencoded, -, -, hended⟩
    · cases hplain
    · cases hplain
    · refine ⟨speech, hencoded, ?_⟩
      rw [hresponse, hbody, hended (by rw [hstream])]

end State

end Mosec
