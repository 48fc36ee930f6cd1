import Mosec.Responses

namespace Mosec

namespace Handler

def listening : Handler → Bool
  | .insertStream => true
  | .count => true
  | .spawn => true
  | .waiting => true
  | _ => false

def registered : Handler → Bool
  | .count => true
  | .spawn => true
  | .waiting => true
  | _ => false

def unregistered : Handler → Bool
  | .insertStream => true
  | handler => handler.arriving

theorem Leads.unregistered {a b : Handler} (h : Leads a b) (hb : b.unregistered) :
    a.unregistered := by
  cases h <;> first | rfl | exact hb

def finished : Handler → Bool
  | .deleteNotifier .finished => true
  | .deleteTask .finished => true
  | .deleteStream => true
  | .uncount .stream => true
  | .done .stream => true
  | _ => false

theorem awaiting_of_listening {handler : Handler} (h : handler.listening) : handler.awaiting := by
  cases handler <;> first | rfl | cases h

theorem filed_of_listening {handler : Handler} (h : handler.listening) : handler.filed := by
  cases handler <;> first | rfl | cases h

theorem registered_of_listening {handler : Handler} (h : handler.listening)
    (hne : handler ≠ .insertStream) : handler.registered := by
  cases handler <;> first | exact absurd rfl hne | rfl | cases h

theorem not_listening_of_finished {handler : Handler} (h : handler.finished) :
    handler.listening = false := by
  cases handler <;> first | rfl | cases h

end Handler

theorem Request.waiting_or_finished {q : Request} (h : q.hasResponse) :
    q.isSse ∧ (q.handler = .waiting ∨ q.handler.finished) := by
  rw [hasResponse, Bool.and_eq_true] at h
  refine ⟨h.1, ?_⟩
  have hhandler := h.2
  split at hhandler
  case h_1 hq => exact Or.inl hq
  case h_7 => cases hhandler
  all_goals
    right
    rw [‹q.handler = _›]
    rfl

namespace Place

def report : Place → List Event
  | .answered code data => if code = .Normal then [] else [(data, code)]
  | _ => []

end Place

namespace Life

/-- The events read for the submission that are not in its channel yet, in their order. -/
def unsent (ℓ : Life) : List Event :=
  match ℓ.carried with
  | some (p, outbox) => outbox.pushing.toList ++ outbox.todo ++ p.report
  | none => []

theorem unsent_of_carried {ℓ : Life} {p : Place} {outbox : Outbox}
    (h : ℓ.carried = some (p, outbox)) :
    ℓ.unsent = outbox.pushing.toList ++ outbox.todo ++ p.report := by
  rw [unsent, h]

theorem unsent_of_gone {ℓ : Life} (h : ℓ.carried = none) : ℓ.unsent = [] := by
  rw [unsent, h]

/-- What the steps of a submission leave out here: its timeout, the departure of its client, an
event that finds no sender because none has been inserted yet, an abnormal reply that is given the
data of another, and an event that comes too late. -/
def Undisturbed (ℓ : Life) : Label → Prop
  | .elapse => False
  | .leave => False
  | .lookup => ℓ.request.handler ≠ .insertStream
  | .report own given => given = own
  | .lose => ∀ p outbox, ℓ.carried = some (p, outbox) → outbox = .empty
  | .hear => False
  | _ => True

structure Streamed (ℓ : Life) : Prop where
  connected : ℓ.stream.closed = false
  delivered : ℓ.request.isSse ∨ ℓ.request.handler = .absent →
    ℓ.history.events = ℓ.stream.received ++ ℓ.stream.buffer ++ ℓ.unsent
  carried : ∀ {p outbox}, ℓ.request.isSse → ℓ.carried = some (p, outbox) →
    ℓ.request.handler.listening
  sender : ℓ.request.isSse → ℓ.request.handler.registered → ℓ.sender = true
  ended : ℓ.stream.ended → ℓ.request.isSse ∧ ℓ.request.handler.finished ∧ ℓ.stream.buffer = []

variable {svc : Service} {lab : Label} {ℓ ℓ' : Life}

theorem Streamed.new (h : ℕ) : (new h).Streamed := by
  constructor <;> simp [Life.new, Request.absent, unsent, Handler.registered]

theorem Own.unsent (hs : Own svc lab ℓ ℓ') (hn : ℓ.Notified) : ℓ'.unsent = ℓ.unsent := by
  rcases hs.carried with heq | ⟨hq, route, r, -, -, hqueued, -⟩
  · rw [Life.unsent, Life.unsent, heq]
  · rw [unsent_of_carried hqueued, unsent_of_gone (hn.arriving (by rw [hq]; rfl)).1]
    rfl

theorem Own.isSse (hs : Own svc lab ℓ ℓ') (hq : ℓ.request.handler ≠ .absent) :
    ℓ'.request.isSse = ℓ.request.isSse := by
  rcases hs.request with habsent | ⟨-, -, hsse, -⟩
  · exact absurd habsent hq
  · exact hsse

theorem Own.listening (hs : Own svc lab ℓ ℓ') (hsse : ℓ.request.isSse)
    (hq : ℓ.request.handler.listening) (hok : ℓ.Undisturbed lab) :
    ℓ'.request.handler.listening ∨
      ℓ'.request.handler.finished ∧ (ℓ.oneshot.sent ∨ ℓ.oneshot.senderGone) := by
  cases hs
  case insertStream => exact Or.inl rfl
  case count => exact Or.inl rfl
  case spawn => exact Or.inl rfl
  case resume hdone =>
    right
    refine ⟨?_, hdone⟩
    simp only [goto, if_pos hsse]
    rfl
  case elapse => exact hok.elim
  case disconnect hsse' =>
    rw [hsse] at hsse'
    cases hsse'
  case receiveEvent => exact Or.inl hq
  case endStream => exact Or.inl hq
  case leave => exact hok.elim
  all_goals
    rw [‹ℓ.request.handler = _›] at hq
    cases hq

theorem Streamed.delivered_own (h : ℓ.Streamed) (hn : ℓ.Notified) (hs : Own svc lab ℓ ℓ')
    (hsse : ℓ'.request.isSse ∨ ℓ'.request.handler = .absent) :
    ℓ'.history.events = ℓ'.stream.received ++ ℓ'.stream.buffer ++ ℓ'.unsent := by
  have hbefore : ℓ.request.isSse ∨ ℓ.request.handler = .absent := by
    by_cases hq : ℓ.request.handler = .absent
    · exact Or.inr hq
    · rcases hsse with hsse | hq'
      · exact Or.inl (hs.isSse hq ▸ hsse)
      · have hleads := hs.leads
        rw [hq'] at hleads
        generalize ℓ.request.handler = handler at hleads hq
        cases hleads
        exact absurd rfl hq
  have hdelivered := h.delivered hbefore
  rw [hs.history.2.2, hs.unsent hn, hdelivered]
  cases hs
  case receiveEvent event buffer hresponse hbuffer => simp [hbuffer]
  all_goals rfl

theorem Streamed.own (h : ℓ.Streamed) (hn : ℓ.Notified) (hs : Own svc lab ℓ ℓ')
    (hok : ℓ.Undisturbed lab) : ℓ'.Streamed where
  connected := by
    cases hs
    case leave => exact hok.elim
    all_goals exact h.connected
  delivered := h.delivered_own hn hs
  carried := by
    intro p outbox hsse hp
    rcases hs.carried with heq | ⟨hq, route, r, -, -, -, hq'⟩
    · rw [heq] at hp
      have hne : ℓ.request.handler ≠ .absent := by
        intro hq
        rw [(hn.arriving (by rw [hq]; rfl)).1] at hp
        cases hp
      have hsse₀ := hs.isSse hne ▸ hsse
      rcases hs.listening hsse₀ (h.carried hsse₀ hp) hok with hq | ⟨-, hsent | hgone⟩
      · exact hq
      · rw [hn.sent hsent] at hp
        cases hp
      · rw [(hn.awaiting (Handler.awaiting_of_listening (h.carried hsse₀ hp))).2] at hgone
        cases hgone
    · rw [hs.isSse (by rw [hq]; simp)] at hsse
      rw [hq', if_pos hsse]
      rfl
  sender := by
    intro hsse hq
    cases hs
    case insertStream => rfl
    case count hq₀ => exact h.sender hsse (by rw [hq₀]; rfl)
    case spawn hq₀ => exact h.sender hsse (by rw [hq₀]; rfl)
    case receiveEvent => exact h.sender hsse hq
    case endStream => exact h.sender hsse hq
    case leave => exact h.sender hsse hq
    case accept hq₀ hroute hc =>
      replace hsse : ℓ.request.isSse = true := hsse
      simp only [goto, carry, if_pos hsse] at hq
      cases hq
    case resume hdone =>
      replace hsse : ℓ.request.isSse = true := hsse
      simp only [goto, if_pos hsse] at hq
      cases hq
    case deleteTask exit hq₀ =>
      replace hsse : ℓ.request.isSse = true := hsse
      cases exit <;> simp only [goto, Request.afterDelete, if_pos hsse] at hq <;> cases hq
    all_goals cases hq
  ended := by
    intro hended
    cases hs
    case endStream hresponse hbuffer hsender hpushing =>
      obtain ⟨hsse, hq | hfinished⟩ := Request.waiting_or_finished hresponse
      · rw [h.sender hsse (by rw [hq]; rfl)] at hsender
        cases hsender
      · exact ⟨hsse, hfinished, hbuffer⟩
    case receiveEvent event buffer hresponse hbuffer =>
      have hempty := (h.ended hended).2.2
      rw [hbuffer] at hempty
      cases hempty
    case deleteTask exit hq =>
      obtain ⟨hsse, hfinished, hbuffer⟩ := h.ended hended
      refine ⟨hsse, ?_, hbuffer⟩
      rw [hq] at hfinished
      cases exit <;> first | rfl | cases hfinished
    case deleteNotifier exit hq =>
      obtain ⟨hsse, hfinished, hbuffer⟩ := h.ended hended
      refine ⟨hsse, ?_, hbuffer⟩
      rw [hq] at hfinished
      cases exit <;> first | rfl | cases hfinished
    case deleteStream hq =>
      obtain ⟨hsse, hfinished, hbuffer⟩ := h.ended hended
      exact ⟨hsse, rfl, hbuffer⟩
    case uncount outcome hq =>
      obtain ⟨hsse, hfinished, hbuffer⟩ := h.ended hended
      refine ⟨hsse, ?_, hbuffer⟩
      rw [hq] at hfinished
      cases outcome <;> first | rfl | cases hfinished
    case leave => exact h.ended hended
    all_goals
      have hfinished := (h.ended hended).2.1
      rw [‹ℓ.request.handler = _›] at hfinished
      cases hfinished

theorem Streamed.delivered_served (h : ℓ.Streamed) (hf : ℓ.Filed) (hs : Served svc lab ℓ ℓ')
    (hok : ℓ.Undisturbed lab) (hsse : ℓ.request.isSse) :
    ℓ'.history.events = ℓ'.stream.received ++ ℓ'.stream.buffer ++ ℓ'.unsent := by
  have hdelivered := h.delivered (Or.inl hsse)
  cases hs
  case readEvents r item events hnormal hp =>
    rw [unsent_of_carried hp] at hdelivered
    simp [unsent, carry, hdelivered, Place.report, Outbox.empty]
  case readReply r item code data hp =>
    rw [unsent_of_carried hp] at hdelivered
    by_cases hcode : code = .Normal <;>
      simp [unsent, carry, Conn.answer, hdelivered, hcode, Place.report, Outbox.empty]
  case report code data task given hcode hp htask =>
    obtain rfl : given = data := hok
    rw [unsent_of_carried hp] at hdelivered
    simpa [unsent, carry, Place.report, Outbox.empty, hcode] using hdelivered
  case ignore code data hcode hp hnone =>
    have hsome := hf.filed (Handler.filed_of_listening (h.carried hsse hp))
    rw [hnone] at hsome
    cases hsome
  case lookup p event todo hp =>
    have hsender := h.sender hsse (Handler.registered_of_listening (h.carried hsse hp) hok)
    rw [unsent_of_carried hp] at hdelivered
    simpa [unsent, carry, hsender] using hdelivered
  case push p event todo hp hopen =>
    rw [unsent_of_carried hp] at hdelivered
    simpa [unsent, carry] using hdelivered
  case pushClosed p event todo hp hclosed =>
    rw [h.connected] at hclosed
    cases hclosed
  case lose p outbox hrisk hp hclosed =>
    obtain rfl := hok p outbox hp
    rw [unsent_of_carried hp] at hdelivered
    cases hrisk <;> exact hdelivered
  -- the id goes on from a place with nothing to deliver
  all_goals
    rw [unsent_of_carried ‹ℓ.carried = some (_, Outbox.empty)›] at hdelivered
    exact hdelivered

theorem Served.stream (hs : Served svc lab ℓ ℓ') :
    ℓ'.stream.closed = ℓ.stream.closed ∧ ℓ'.stream.ended = ℓ.stream.ended := by
  cases hs <;> exact ⟨rfl, rfl⟩

theorem Streamed.served (h : ℓ.Streamed) (hn : ℓ.Notified) (hf : ℓ.Filed)
    (hs : Served svc lab ℓ ℓ') (hok : ℓ.Undisturbed lab) : ℓ'.Streamed := by
  obtain ⟨-, hrequest, hsender, -, -⟩ := hs.frame
  obtain ⟨hclosed, hended⟩ := hs.stream
  obtain ⟨p₀, outbox₀, hp₀⟩ := hs.carried
  constructor
  case connected => exact hclosed.trans h.connected
  case delivered =>
    rintro (hsse | hq)
    · exact h.delivered_served hf hs hok (hrequest ▸ hsse)
    · rw [hrequest] at hq
      rw [(hn.arriving (by rw [hq]; rfl)).1] at hp₀
      cases hp₀
  case carried =>
    intro p outbox hsse hp
    rw [hrequest] at hsse ⊢
    exact h.carried hsse hp₀
  case sender =>
    intro hsse hq
    rw [hrequest] at hsse hq
    rw [hsender]
    exact h.sender hsse hq
  case ended =>
    intro hend
    obtain ⟨hsse, hfinished, -⟩ := h.ended (hended ▸ hend)
    have hlistening := h.carried hsse hp₀
    rw [Handler.not_listening_of_finished hfinished] at hlistening
    cases hlistening

theorem Streamed.step (h : ℓ.Streamed) (hn : ℓ.Notified) (hf : ℓ.Filed) (hs : Step svc lab ℓ ℓ')
    (hok : ℓ.Undisturbed lab) : ℓ'.Streamed := by
  rcases hs with hs | hs | ⟨rfl, -⟩
  · exact h.own hn hs hok
  · exact h.served hn hf hs hok
  · exact hok.elim

theorem Streamed.complete (h : ℓ.Streamed) (hended : ℓ.stream.ended) :
    ℓ.stream.received = ℓ.history.events := by
  obtain ⟨hsse, hfinished, hbuffer⟩ := h.ended hended
  have hgone : ℓ.carried = none := by
    by_contra hcarried
    obtain ⟨⟨p, outbox⟩, hp⟩ := Option.ne_none_iff_exists'.mp hcarried
    have hlistening := h.carried hsse hp
    rw [Handler.not_listening_of_finished hfinished] at hlistening
    cases hlistening
  rw [h.delivered (Or.inl hsse), unsent_of_gone hgone, hbuffer, List.append_nil, List.append_nil]

def Unregistered (ℓ : Life) : Prop := ℓ.request.handler.unregistered → ℓ.sender = false

theorem Unregistered.new (h : ℕ) : (new h).Unregistered := fun _ => rfl

theorem Unregistered.step (h : ℓ.Unregistered) (hs : Step svc lab ℓ ℓ') : ℓ'.Unregistered := by
  intro hq
  rcases hs with hs | hs | ⟨-, hs⟩
  · have hsender := h (hs.leads.unregistered hq)
    cases hs
    case insertStream => cases hq
    case deleteStream => rfl
    all_goals exact hsender
  · obtain ⟨-, hrequest, hsender, -, -⟩ := hs.frame
    rw [hsender]
    exact h (hrequest ▸ hq)
  · obtain ⟨events, buffer, rfl⟩ := hs.frame
    exact h hq

theorem Served.missing (hs : Served svc lab ℓ ℓ') (hu : ℓ.Unregistered)
    (hlab : lab = .lookup ∨ ∃ own given, lab = .report own given) (hbad : ¬ ℓ.Undisturbed lab)
    (hdelivered : ℓ.history.events = ℓ.stream.received ++ ℓ.stream.buffer ++ ℓ.unsent) :
    ℓ'.history.events ≠ ℓ'.stream.received ++ ℓ'.stream.buffer ++ ℓ'.unsent := by
  have hsame : ∀ {rest : List Event}, ℓ.history.events =
      ℓ.stream.received ++ ℓ.stream.buffer ++ rest → rest = ℓ.unsent := by
    intro rest hrest
    exact List.append_cancel_left (hrest.symm.trans hdelivered)
  intro hdelivered'
  cases hs
  case lookup p event todo hp =>
    have hq : ℓ.request.handler = .insertStream := not_not.mp hbad
    have hsender := hu (by rw [hq]; rfl)
    have hunsent := hsame hdelivered'
    rw [unsent_of_carried hp] at hunsent
    simp [unsent, carry, hsender] at hunsent
  case report code data task given hcode hp htask =>
    have hunsent := hsame hdelivered'
    rw [unsent_of_carried hp] at hunsent
    have heq : given = data := by
      simpa [unsent, carry, Place.report, Outbox.empty, hcode] using hunsent
    exact hbad heq
  all_goals rcases hlab with hlab | ⟨own, given, hlab⟩ <;> cases hlab

theorem Served.reports (hs : Served svc lab ℓ ℓ') {code : TaskCode} {data : Bytes}
    (hp : ℓ.carried = some (.answered code data, .empty)) (hcode : code ≠ .Normal)
    (hentry : ℓ.entry.isSome) : ∃ given, lab = .report data given := by
  cases hs
  case report given hcode' hp' htask =>
    rw [hp] at hp'
    cases hp'
    exact ⟨given, rfl⟩
  case ignore hcode' hp' hnone =>
    rw [hnone] at hentry
    cases hentry
  case update hp' =>
    rw [hp] at hp'
    cases hp'
    exact absurd rfl hcode
  case lose hrisk hp' hclosed =>
    rw [hp] at hp'
    cases hp'
    cases hrisk
  all_goals
    have hp' := ‹ℓ.carried = some _›
    rw [hp] at hp'
    cases hp'

def errorEvent (replies : List (TaskCode × Bytes)) : List Event :=
  match replies.getLast? with
  | some (code, data) => if code = .Normal then [] else [(data, code)]
  | none => []

theorem errorEvent_concat (replies : List (TaskCode × Bytes)) (code : TaskCode) (data : Bytes) :
    errorEvent (replies ++ [(code, data)]) = if code = .Normal then [] else [(data, code)] := by
  rw [errorEvent, List.getLast?_concat]

theorem errorEvent_of_normals {replies : List (TaskCode × Bytes)} (h : Normals replies) :
    errorEvent replies = [] := by
  rw [errorEvent]
  split
  case h_1 code data hlast =>
    obtain rfl : code = .Normal := h _ (List.mem_of_getLast? hlast)
    rfl
  case h_2 => rfl

def Recorded (ℓ : Life) : Prop :=
  ∃ payloads : List Bytes, ℓ.history.events =
    payloads.map (fun data => (data, .Normal)) ++ errorEvent ℓ.history.replies

theorem Recorded.new (h : ℕ) : (new h).Recorded := ⟨[], rfl⟩

theorem Recorded.step (h : ℓ.Recorded) (hf : ℓ.Filed) (hs : Step svc lab ℓ ℓ')
    (hlab : lab ≠ .hear) : ℓ'.Recorded := by
  obtain ⟨payloads, hevents⟩ := h
  rcases hs with hs | hs | ⟨hhear, -⟩
  · obtain ⟨hreplies, -, hsame⟩ := hs.history
    exact ⟨payloads, by rw [hsame, hreplies, hevents]⟩
  · cases hs
    case readEvents r item events hnormal hp =>
      refine ⟨payloads ++ events.map Prod.fst, ?_⟩
      have hmap : (events.map Prod.fst).map (fun data => (data, TaskCode.Normal)) = events := by
        conv_rhs => rw [← List.map_id events]
        rw [List.map_map]
        apply List.map_congr_left
        intro event he
        exact Prod.ext rfl (hnormal event he).symm
      change ℓ.history.events ++ events = _ ++ errorEvent ℓ.history.replies
      rw [hevents, errorEvent_of_normals (hf.serving hp rfl), List.map_append, hmap]
      simp
    case readReply r item code data hp =>
      refine ⟨payloads, ?_⟩
      change (if code = .Normal then ℓ.history.events else ℓ.history.events ++ [(data, code)]) =
        _ ++ errorEvent (ℓ.history.replies ++ [(code, data)])
      rw [errorEvent_concat, hevents, errorEvent_of_normals (hf.serving hp rfl)]
      split <;> simp
    all_goals exact ⟨payloads, hevents⟩
  · exact absurd hhear hlab

end Life

namespace Conn

def unsent (c : Conn) (i : UInt32) : List Event :=
  match c.point with
  | .update code items =>
    if code = .Normal then []
    else (items.filter fun item => item.id = i).map fun item => (item.data, code)
  | point => (point.outbox i).pushing.toList ++ (point.outbox i).todo

theorem report_of_jobOf {jobs : List Job} {i : UInt32} {p : Place}
    (hp : Point.jobOf jobs i = some p) : p.report = [] := by
  obtain ⟨job, -, rfl⟩ := Option.map_eq_some_iff.mp hp
  cases job <;> rfl

theorem report_of_place {r : ℕ} {i : UInt32} {p : Place} {point : Point}
    (hpoint : ∀ code items, point ≠ .update code items) (hp : point.place r i = some p) :
    p.report = [] := by
  have hcons : ∀ {id : UInt32} {first : Place} {jobs : List Job}, first.report = [] →
      (if id = i then some first else Point.jobOf jobs i) = some p → p.report = [] := by
    intro id first jobs hfirst hp
    split at hp
    · cases hp
      exact hfirst
    · exact report_of_jobOf hp
  cases point with
  | collect ids =>
    simp only [Point.place, Option.ite_none_right_eq_some] at hp
    cases hp.2
    rfl
  | fetch ids =>
    simp only [Point.place, Option.ite_none_right_eq_some] at hp
    cases hp.2
    rfl
  | write items =>
    obtain ⟨item, -, rfl⟩ := Option.map_eq_some_iff.mp hp
    rfl
  | read => cases hp
  | update code items => exact absurd rfl (hpoint code items)
  | events => exact report_of_jobOf hp
  | late => cases hp
  | work => exact report_of_jobOf hp
  | sending => exact hcons (by rfl) hp
  | check => exact hcons (by rfl) hp
  | signal => exact hcons (by rfl) hp
  | remove => exact hcons (by rfl) hp
  | uncount => exact hcons (by rfl) hp
  | closed => cases hp
  | panicked => cases hp

theorem outbox_of_view {c : Conn} {i : UInt32} {p : Place} {outbox : Outbox}
    (h : c.view i = some (p, outbox)) : c.place i = some p ∧ c.point.outbox i = outbox := by
  obtain ⟨p', hplace, hpair⟩ := Option.map_eq_some_iff.mp h
  obtain ⟨rfl, rfl⟩ := Prod.mk.inj hpair
  exact ⟨hplace, rfl⟩

theorem unsent_of_view {c : Conn} {i : UInt32} {p : Place} {outbox : Outbox}
    (hnodup : c.ids.Nodup) (h : c.view i = some (p, outbox)) :
    c.unsent i = outbox.pushing.toList ++ outbox.todo ++ p.report := by
  obtain ⟨hplace, rfl⟩ := outbox_of_view h
  by_cases hupdate : ∃ code items, c.point = .update code items
  · obtain ⟨code, items, hp⟩ := hupdate
    rw [ids, hp, Point.ids, List.nodup_append] at hnodup
    simp only [unsent, hp, Point.outbox, Outbox.empty]
    rcases Option.or_eq_some_iff.mp hplace with hplace | ⟨hnone, hplace⟩
    · simp only [hp, Point.place] at hplace
      obtain ⟨item, hitem, rfl⟩ := Option.map_eq_some_iff.mp hplace
      rw [Point.filter_eq_of_itemOf hnodup.1 hitem]
      rfl
    · simp only [hp, Point.place, Option.map_eq_none_iff] at hnone
      obtain ⟨item, -, rfl⟩ := Option.map_eq_some_iff.mp hplace
      have hfilter : (items.filter fun item => item.id = i) = [] := by
        rw [List.filter_eq_nil_iff]
        intro item hitem
        have hne := List.find?_eq_none.mp hnone item hitem
        simpa using hne
      rw [hfilter]
      simp [Place.report]
  · have hpoint : ∀ code items, c.point ≠ .update code items := fun code items hp =>
      hupdate ⟨code, items, hp⟩
    have hreport : p.report = [] := by
      rcases Option.or_eq_some_iff.mp hplace with hplace | ⟨-, hplace⟩
      · exact report_of_place hpoint hplace
      · obtain ⟨item, -, rfl⟩ := Option.map_eq_some_iff.mp hplace
        rfl
    rw [hreport, List.append_nil, unsent]
    split
    case h_1 hp => exact absurd hp (hpoint _ _)
    case h_2 => rfl

theorem unsent_of_notMem {c : Conn} {owner : UInt32 → Option ℕ} {i : UInt32} (hc : c.Named owner)
    (hi : i ∉ c.ids) : c.unsent i = [] := by
  have hpoint : i ∉ c.point.ids := fun hmem => hi (List.mem_append_left _ hmem)
  rw [unsent]
  split
  case h_1 code items hp =>
    rw [hp] at hpoint
    have hfilter : (items.filter fun item => item.id = i) = [] := by
      rw [List.filter_eq_nil_iff]
      intro item hitem heq
      exact hpoint (of_decide_eq_true heq ▸ List.mem_map_of_mem hitem)
    rw [hfilter]
    split <;> rfl
  case h_2 =>
    cases hp : c.point with
    | events pushing todo jobs next =>
      simp only [Named, hp] at hc
      have htodo : (todo.filter fun e => e.1 = i) = [] := by
        rw [List.filter_eq_nil_iff]
        intro e he heq
        exact hi (of_decide_eq_true heq ▸ hc.2 e he)
      have hpushing : pushing.filter (fun p => p.id = i) = none := by
        rw [Option.filter_eq_none_iff]
        intro p hp heq
        exact hi (of_decide_eq_true heq ▸ (hc.1 p hp).2)
      simp [Point.outbox, htodo, hpushing]
    | _ => rfl

end Conn

namespace State

def unsent (s : State) (h : ℕ) : List Event :=
  if s.manager.owner (s.requests h).id = some h then
    (List.range s.connected).flatMap fun k => (s.conns k).unsent (s.requests h).id
  else []

def Attended (h : ℕ) (a : Action) : Prop := a ≠ .request h .elapse ∧ a ≠ .request h .leave

structure Timely (s : State) (h : ℕ) (a : Action) : Prop where
  registered : ∀ k i event todo jobs next, a = .conn k .run →
    (s.conns k).point = .events none ((i, event) :: todo) jobs next →
    s.manager.owner i = some h → (s.requests h).handler ≠ .insertStream
  aligned : ∀ k code items, a = .conn k .run → (s.conns k).point = .update code items →
    code ≠ .Normal → ∀ p ∈ (s.manager.abnormalTasks items).zip items,
      s.manager.owner p.1 = some h → ∀ item ∈ items, item.id = p.1 → p.2.data = item.data

def Punctual (h : ℕ) (s : State) (a : Action) : Prop :=
  ∀ k act, a = .conn k act → ¬ Conn.Hears s.manager (s.conns k) act h

variable {svc : Service} {ok : State → Action → Prop} {s s' : State} {a : Action} {h : ℕ}

theorem outbox_of_loses {i : UInt32} (hstep : s.step svc a = some s') (hi : i ∈ s.loses svc a) :
    ∃ k, i ∈ (s.conns k).ids ∧ (s.conns k).point.outbox i = .empty := by
  cases a with
  | submit => cases hi
  | request => cases hi
  | connect => cases hi
  | conn k act =>
    obtain ⟨⟨m, c⟩, hmove, -⟩ := Option.map_eq_some_iff.mp hstep
    obtain ⟨touched, hm⟩ := Conn.move_of_step hmove
    refine ⟨k, ?_⟩
    cases act with
    | run =>
      replace hmove : (s.conns k).run svc s.manager = some (m, c) := hmove
      simp only [loses, hmove] at hi
      split at hi
      case isFalse => cases hi
      case isTrue hpanicked =>
        refine ⟨hi, ?_⟩
        cases hm
        case sendPanic hp htask hroute =>
          rw [hp]
          rfl
        case signalPanic hp hclosed =>
          rw [hp]
          rfl
        case fetch items point hpoint hp hitems =>
          rw [hp]
          rfl
        case workDone next hp =>
          rw [hp]
          rfl
        all_goals cases hpanicked
    | writeErr =>
      refine ⟨List.mem_append_right _ hi, ?_⟩
      cases hm
      case writeErr hp =>
        rw [hp]
        rfl
    | readErr code items =>
      cases hm
      case readCut hp hnames hnodup =>
        simp only [loses, hp, Conn.unanswered_ids] at hi
        refine ⟨List.mem_append_right _ (List.mem_filter.mp hi).1, ?_⟩
        rw [hp]
        rfl
      case readErr hp =>
        simp only [loses, hp] at hi
        refine ⟨List.mem_append_right _ hi, ?_⟩
        rw [hp]
        rfl
    | _ => cases hi

theorem undisturbed_of_timely (hs : FreshRun svc ok s) (hstep : s.step svc a = some s')
    (hattended : Attended h a) (htimely : s.Timely h a) (hpunctual : s.Punctual h a) {lab : Label}
    {ℓ' : Life} (hlab : s.Caused svc a h lab) (hlife : Life.Step svc lab (s.life h) ℓ') :
    (s.life h).Undisturbed lab := by
  have hcoherent := coherent_of_run hs
  have howner : ∀ {lab ℓ'}, Life.Served svc lab (s.life h) ℓ' →
      s.manager.owner (s.requests h).id = some h := by
    intro lab ℓ' hserved
    obtain ⟨p, outbox, hp⟩ := hserved.carried
    exact owner_of_carried hp
  cases lab with
  | elapse => exact hattended.1 hlab
  | leave => exact hattended.2 hlab
  | lookup =>
    obtain ⟨k, event, todo, jobs, next, hact, hp⟩ := hlab
    rcases hlife with hown | hserved | ⟨hhear, -⟩
    · cases hown
    · exact htimely.registered k _ event todo jobs next hact hp (howner hserved)
    · cases hhear
  | report own given =>
    obtain ⟨k, code, items, hact, hp, hcode, ⟨item, hitem, hid, rfl⟩, p, hmem, hid', rfl⟩ := hlab
    rcases hlife with hown | hserved | ⟨hhear, -⟩
    · cases hown
    · exact htimely.aligned k code items hact hp hcode p hmem (hid' ▸ howner hserved) item hitem
        (hid.trans hid'.symm)
    · cases hhear
  | lose =>
    intro p outbox hp
    obtain ⟨k, hi, houtbox⟩ := outbox_of_loses hstep hlab
    rcases hlife with hown | hserved | ⟨hhear, -⟩
    · cases hown
    · rw [life_carried (howner hserved), carried_conn hcoherent.exclusive hi, Conn.view] at hp
      obtain ⟨p', -, hpair⟩ := Option.map_eq_some_iff.mp hp
      rw [houtbox] at hpair
      exact (Prod.mk.inj hpair).2.symm
    · cases hhear
  | hear =>
    obtain ⟨k, act, hact, hhears⟩ := hlab
    exact hpunctual k act hact hhears
  | _ => trivial

theorem streamed_of_run
    (hs : FreshRun svc (fun s a => Attended h a ∧ s.Timely h a ∧ s.Punctual h a) s) :
    (s.life h).Streamed :=
  life_invariant_of_step Life.Streamed Life.Streamed.new h
    (fun hrun hok hstep hlab hlife hinv =>
      hinv.step (notified_of_run hrun h) (filed_of_run hrun h) hlife
        (undisturbed_of_timely hrun hstep hok.1 hok.2.1 hok.2.2 hlab hlife)) hs

theorem flatMap_of_forall_ne {α β : Type*} {l : List α} {f : α → List β} {x : α}
    (hnodup : l.Nodup) (hx : x ∈ l) (h : ∀ y ∈ l, y ≠ x → f y = []) : l.flatMap f = f x := by
  induction l with
  | nil => cases hx
  | cons y l ih =>
    rw [List.nodup_cons] at hnodup
    rw [List.flatMap_cons]
    rcases List.mem_cons.mp hx with rfl | hx
    · have hrest : l.flatMap f = [] := by
        rw [List.flatMap_eq_nil_iff]
        intro y hy
        apply h y (List.mem_cons_of_mem _ hy)
        rintro rfl
        exact hnodup.1 hy
      rw [hrest, List.append_nil]
    · have hne : y ≠ x := by
        rintro rfl
        exact hnodup.1 hx
      rw [h y List.mem_cons_self hne, List.nil_append]
      exact ih hnodup.2 hx fun z hz => h z (List.mem_cons_of_mem _ hz)

theorem life_unsent (hs : FreshRun svc ok s) (h : ℕ) : (s.life h).unsent = s.unsent h := by
  have hcoherent := coherent_of_run hs
  by_cases hown : s.manager.owner (s.requests h).id = some h
  · rw [unsent, if_pos hown, Life.unsent, life_carried hown]
    have hempty : ∀ k, (s.requests h).id ∉ (s.conns k).ids →
        (s.conns k).unsent (s.requests h).id = [] := fun k =>
      Conn.unsent_of_notMem (hcoherent.named k)
    by_cases hheld : ∃ k, (s.requests h).id ∈ (s.conns k).ids
    · obtain ⟨k, hi⟩ := hheld
      have hk : k < s.connected := by
        by_contra hge
        rw [unaccepted_of_run hs k (by omega)] at hi
        cases hi
      obtain ⟨⟨p, outbox⟩, hview⟩ := Option.isSome_iff_exists.mp ((Conn.view_isSome _ _).mpr hi)
      rw [carried_conn hcoherent.exclusive hi, hview, flatMap_of_forall_ne List.nodup_range
        (List.mem_range.mpr hk)]
      · exact (Conn.unsent_of_view (hcoherent.exclusive.nodup (.conn k)) hview).symm
      · intro j _ hne
        apply hempty
        intro hj
        have heq := hcoherent.exclusive.unique (a := .conn j) (b := .conn k) hj hi
        exact hne (Holder.conn.inj heq)
    · have hflat : ((List.range s.connected).flatMap fun k =>
          (s.conns k).unsent (s.requests h).id) = [] := by
        rw [List.flatMap_eq_nil_iff]
        exact fun k _ => hempty k fun hi => hheld ⟨k, hi⟩
      rw [hflat]
      by_cases hqueued : ∃ r, (s.requests h).id ∈ s.manager.queues r
      · obtain ⟨r, hr⟩ := hqueued
        rw [carried_queue hcoherent.exclusive hr]
        rfl
      · rw [carried_none]
        intro b hb
        cases b with
        | queue r => exact hqueued ⟨r, hb⟩
        | conn k => exact hheld ⟨k, hb⟩
  · rw [unsent, if_neg hown]
    apply Life.unsent_of_gone
    simp [life, hown]

theorem recorded_of_run (hs : FreshRun svc (Punctual h) s) : (s.life h).Recorded :=
  life_invariant_of_step Life.Recorded Life.Recorded.new h
    (fun hrun hok _ hlab hlife hinv => by
      apply hinv.step (filed_of_run hrun _) hlife
      rintro rfl
      obtain ⟨k, act, hact, hhears⟩ := hlab
      exact hok k act hact hhears) hs

/-- In a run in which its events are sent before its reply and find their sender, and its error
the data of its reply, the channel of an SSE submission is given exactly what is read for it, and
ends after all of it. -/
theorem events_delivered
    (hs : FreshRun svc (fun s a => Attended h a ∧ s.Timely h a ∧ s.Punctual h a) s)
    (hsse : (s.requests h).isSse) :
    (∃ payloads : List Bytes, (s.manager.history h).events =
      payloads.map (fun data => (data, .Normal)) ++
        Life.errorEvent (s.manager.history h).replies) ∧
    (s.manager.history h).events =
      (s.manager.streams h).received ++ (s.manager.streams h).buffer ++ s.unsent h ∧
    ((s.manager.streams h).ended →
      (s.manager.streams h).received = (s.manager.history h).events) := by
  have hstreamed := streamed_of_run hs
  have hpunctual : FreshRun svc (Punctual h) s := hs.mono fun _ _ hok => ⟨hok.1, hok.2.2.2⟩
  refine ⟨recorded_of_run hpunctual, ?_, hstreamed.complete⟩
  rw [← life_unsent hs]
  exact hstreamed.delivered (Or.inl hsse)

theorem unregistered_of_run (hs : FreshRun svc ok s) (h : ℕ) : (s.life h).Unregistered :=
  life_always Life.Unregistered Life.Unregistered.new (fun hlife hinv => hinv.step hlife) hs h

theorem not_delivered_of_untimely (hs : FreshRun svc ok s) (hstep : s.step svc a = some s')
    (huntimely : ¬ s.Timely h a)
    (hdelivered : (s.manager.history h).events =
      (s.manager.streams h).received ++ (s.manager.streams h).buffer ++ s.unsent h) :
    (s'.manager.history h).events ≠
      (s'.manager.streams h).received ++ (s'.manager.streams h).buffer ++ s'.unsent h := by
  have hcases : (∃ k i event todo jobs next, a = .conn k .run ∧
        (s.conns k).point = .events none ((i, event) :: todo) jobs next ∧
        s.manager.owner i = some h ∧ (s.requests h).handler = .insertStream) ∨
      ∃ k code items, a = .conn k .run ∧ (s.conns k).point = .update code items ∧ code ≠ .Normal ∧
        ∃ p ∈ (s.manager.abnormalTasks items).zip items, s.manager.owner p.1 = some h ∧
          ∃ item ∈ items, item.id = p.1 ∧ p.2.data ≠ item.data := by
    by_contra hnone
    rw [not_or] at hnone
    apply huntimely
    constructor
    · intro k i event todo jobs next ha hp hown hq
      exact hnone.1 ⟨k, i, event, todo, jobs, next, ha, hp, hown, hq⟩
    · intro k code items ha hp hcode p hmem hown item hitem hid
      by_contra hne
      exact hnone.2 ⟨k, code, items, ha, hp, hcode, p, hmem, hown, item, hitem, hid, hne⟩
  have hcoherent := coherent_of_run hs
  have hrun : FreshRun svc (fun _ _ => True) s := hs.mono fun _ _ hok => ⟨hok.1, trivial⟩
  have hfresh : s.FreshId a := by
    rcases hcases with ⟨k, -, -, -, -, -, rfl, -⟩ | ⟨k, -, -, rfl, -⟩ <;> rintro n ⟨⟩
  have hcoherent' := hcoherent.step (unaccepted_of_run hs) hfresh hstep
  rw [← life_unsent (hrun.step ⟨hfresh, trivial⟩ hstep)]
  rw [← life_unsent hs] at hdelivered
  rcases hcases with ⟨k, i, event, todo, jobs, next, rfl, hp, hown, hq⟩ |
    ⟨k, code, items, rfl, hp, hcode, p, hmem, hown, item, hitem, hid, hne⟩
  · obtain ⟨rfl, -⟩ := hcoherent.owned hown
    simp only [State.step, Conn.step, Conn.run, hp, Option.map_some, Option.some.injEq] at hstep
    subst hstep
    have hserved : Life.Served svc _ _ _ := step_lookup hcoherent hown hcoherent' hp
    exact hserved.missing (unregistered_of_run hs h) (Or.inl rfl) (not_not_intro hq) hdelivered
  · have hreq := (hcoherent.owned hown).1
    simp only [State.step, Conn.step, Conn.run, hp, Conn.afterUpdate, if_neg hcode,
      Option.map_some, Option.some.injEq] at hstep
    subst hstep
    have hown' : s.manager.owner (s.requests h).id = some h := by rwa [hreq]
    have hi : (s.requests h).id ∈ items.map Item.id := by
      rw [hreq, ← hid]
      exact List.mem_map_of_mem hitem
    have hnodup : (s.conns k).ids.Nodup := hcoherent.exclusive.nodup (.conn k)
    rw [Conn.ids, hp, List.nodup_append] at hnodup
    have hitem' : Point.itemOf items (s.requests h).id = some item := by
      rw [hreq, ← hid]
      exact Point.itemOf_of_mem hnodup.1 hitem
    have hbefore : (s.life h).carried = some (.answered code item.data, .empty) := by
      apply carried_of_view (k := k) hcoherent hown'
      simp [Conn.view, Conn.place, hp, Point.place, Point.outbox, hitem']
    have hentry : (s.life h).entry.isSome := by
      rw [life_entry hown', hreq]
      simpa using (List.mem_filter.mp (List.of_mem_zip hmem).1).2
    obtain ⟨lab, hlab, hserved⟩ : ∃ lab, Caused svc s (.conn k .run) h lab ∧
        Life.Served svc lab _ _ := step_updateAbnormal hcoherent hown' hcoherent' hp hcode hi
    obtain ⟨given, rfl⟩ := hserved.reports hbefore hcode hentry
    refine hserved.missing (unregistered_of_run hs h) (Or.inr ⟨_, _, rfl⟩) ?_ hdelivered
    intro hgiven
    obtain ⟨k', code', items', hact, hp', -, -, p', hmem', hid', hdata⟩ := hlab
    cases hact
    rw [hp] at hp'
    cases hp'
    have heq : p = p' := List.inj_on_of_nodup_map (abnormal_nodup s.manager hnodup.1) hmem
      hmem' (hreq.symm.trans hid'.symm)
    apply hne
    rw [heq, hdata]
    exact hgiven

def delivers (h : ℕ) (s : State) : Action → Bool
  | .request n .elapse => n != h
  | .request n .leave => n != h
  | .conn k .run =>
    match (s.conns k).point with
    | .events none ((i, _) :: _) _ _ =>
      s.manager.owner i != some h || (s.requests h).handler != .insertStream
    | .update code items =>
      code == .Normal || ((s.manager.abnormalTasks items).zip items).all fun p =>
        s.manager.owner p.1 != some h || items.all fun item => item.id != p.1 ||
          p.2.data == item.data
    | _ => true
  | _ => true

def inTime (h : ℕ) (s : State) : Action → Bool
  | .conn k (.readEvents items) => decide (Conn.Names items (s.conns k).outstanding) ||
    items.all fun item => s.manager.owner item.id != some h
  | .conn k .run =>
    match (s.conns k).point with
    | .late (some p) _ => p.request != h
    | _ => true
  | _ => true

theorem attended_of_delivers (ht : s.delivers h a) : Attended h a := by
  constructor
  · rintro rfl
    simp [delivers] at ht
  · rintro rfl
    simp [delivers] at ht

theorem timely_of_delivers (ht : s.delivers h a) : s.Timely h a where
  registered := by
    rintro k i event todo jobs next rfl hp hown
    simpa [delivers, hp, hown] using ht
  aligned := by
    rintro k code items rfl hp hcode p hmem hown item hitem hid
    simp only [delivers, hp, Bool.or_eq_true, beq_iff_eq, hcode, false_or, List.all_eq_true,
      bne_iff_ne, ne_eq] at ht
    exact (((ht p hmem).resolve_left (not_not_intro hown)) item hitem).resolve_left
      (not_not_intro hid)

theorem punctual_of_inTime (ht : s.inTime h a) : s.Punctual h a := by
  rintro k act rfl hhears
  cases act with
  | readEvents items =>
    obtain ⟨hnames, item, hitem, hown⟩ := hhears
    simp only [inTime, hnames, decide_false, Bool.false_or, List.all_eq_true] at ht
    simpa [hown] using ht item hitem
  | run =>
    cases hp : (s.conns k).point with
    | late pushing todo =>
      cases pushing with
      | none => simp [Conn.Hears, hp] at hhears
      | some p =>
        simp only [Conn.Hears, hp] at hhears
        simp [inTime, hp, hhears] at ht
    | _ => simp [Conn.Hears, hp] at hhears
  | _ => exact hhears

def streamRun (early : Bool) : List Action :=
  [.connect 0, .submit true "/" [1]] ++ List.replicate (if early then 7 else 4) (.request 0 .run) ++
    [.conn 0 .recv, .conn 0 .run, .conn 0 .writeOk, .conn 0 (.readEvents [⟨0, 0, [7]⟩])] ++
    List.replicate (if early then 4 else 3) (.conn 0 .run) ++
    List.replicate (if early then 0 else 3) (.request 0 .run)

def failRun (reads : ℕ) : List Action :=
  [.conn 0 (.readReply .InternalError [⟨0, 0, [9]⟩])] ++ List.replicate 8 (.conn 0 .run) ++
    [.request 0 .resume] ++ List.replicate 4 (.request 0 .run) ++
    List.replicate reads (.request 0 .receiveEvent)

theorem events_delivered_echo :
    ∃ s, Transition.run (step echo) start (streamRun true ++ failRun 3) = some s ∧
      (s.manager.history 0).events = [([7], .Normal), ([9], .InternalError)] ∧
      (s.manager.streams 0).received = (s.manager.history 0).events := by
  have hview : ((Transition.run (step echo) start (streamRun true ++ failRun 3)).map fun s =>
      (s.submitted, (s.requests 0).isSse && (s.manager.streams 0).ended, s.manager.history 0)) =
      some (1, true, ⟨[0], [(.InternalError, [9])],
        [([7], .Normal), ([9], .InternalError)], 0⟩) := by
    decide +kernel
  have hchecked : Transition.checked (step echo) (fun s a => s.delivers 0 a && s.inTime 0 a) start
      (streamRun true ++ failRun 3) := by
    decide +kernel
  have htest : ∀ (s : State) (a : Action), s.delivers 0 a && s.inTime 0 a →
      Attended 0 a ∧ s.Timely 0 a ∧ s.Punctual 0 a := by
    intro s a ht
    rw [Bool.and_eq_true] at ht
    exact ⟨attended_of_delivers ht.1, timely_of_delivers ht.1, punctual_of_inTime ht.2⟩
  obtain ⟨s, hs, hrun, hfields⟩ := freshRun_of_checked htest hchecked hview (by decide)
  obtain ⟨hended, hhistory⟩ := Prod.mk.inj hfields
  rw [Bool.and_eq_true] at hended
  have hdelivered := events_delivered hrun hended.1
  exact ⟨s, hs, congrArg History.events hhistory, hdelivered.2.2 hended.2⟩

theorem event_lost : ∃ s, Run echo (fun _ a => Attended 0 a) s ∧ (s.requests 0).isSse ∧
    (s.manager.history 0).events = [([7], .Normal), ([9], .InternalError)] ∧
    (s.manager.streams 0).ended ∧
    (s.manager.streams 0).received = [([9], .InternalError)] := by
  have hview : ((Transition.run (step echo) start (streamRun false ++ failRun 2)).map fun s =>
      ((s.requests 0).isSse, s.manager.history 0, s.manager.streams 0)) =
      some (true, ⟨[0], [(.InternalError, [9])], [([7], .Normal), ([9], .InternalError)], 0⟩,
        ⟨[], [([9], .InternalError)], true, false⟩) := by
    decide +kernel
  have hchecked : Transition.checked (step echo)
      (fun _ a => a != .request 0 .elapse && a != .request 0 .leave) start
      (streamRun false ++ failRun 2) := by
    decide +kernel
  have htest : ∀ (s : State) (a : Action),
      a != .request 0 .elapse && a != .request 0 .leave → Attended 0 a := by
    intro s a ht
    simpa [Attended] using ht
  obtain ⟨s, -, hrun, hfields⟩ := Transition.Reachable.of_checked htest hchecked hview
  obtain ⟨hsse, hfields⟩ := Prod.mk.inj hfields
  obtain ⟨hhistory, hstream⟩ := Prod.mk.inj hfields
  exact ⟨s, hrun, hsse, congrArg History.events hhistory, congrArg Stream.ended hstream,
    congrArg Stream.received hstream⟩

def lateRun : List Action := List.flatten [
  [.connect 0, .submit true "/" [1]],
  List.replicate 7 (.request 0 .run),
  [.conn 0 .recv, .conn 0 .run, .conn 0 .writeOk,
    .conn 0 (.readReply .InternalError [⟨0, 0, [9]⟩])],
  List.replicate 8 (.conn 0 .run),
  [.submit false "/" [2]],
  List.replicate 4 (.request 1 .run),
  [.conn 0 .recv, .conn 0 .run, .conn 0 .writeOk, .conn 0 (.readEvents [⟨0, 0, [7]⟩])],
  List.replicate 3 (.conn 0 .run),
  List.replicate 2 (.request 0 .receiveEvent)]

/-- An event that the worker sends after its reply is read with the next batch, and delivered
after the error. -/
theorem event_late : ∃ s, Run echo (fun s a => Attended 0 a ∧ s.Timely 0 a) s ∧
    (s.requests 0).isSse ∧
    (s.manager.streams 0).received = [([9], .InternalError), ([7], .Normal)] := by
  have hview : ((Transition.run (step echo) start lateRun).map fun s =>
      ((s.requests 0).isSse, (s.manager.streams 0).received)) =
      some (true, [([9], .InternalError), ([7], .Normal)]) := by
    decide +kernel
  have hchecked : Transition.checked (step echo) (delivers 0) start lateRun := by
    decide +kernel
  obtain ⟨s, -, hrun, hfields⟩ := Transition.Reachable.of_checked
    (fun _ _ ht => And.intro (attended_of_delivers ht) (timely_of_delivers ht)) hchecked hview
  obtain ⟨hsse, hreceived⟩ := Prod.mk.inj hfields
  exact ⟨s, hrun, hsse, hreceived⟩

end State

end Mosec
