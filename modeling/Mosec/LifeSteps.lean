import Mosec.Lives

namespace Mosec

namespace Handler

inductive Leads : Handler → Handler → Prop
  | stay (handler : Handler) : Leads handler handler
  | refuse : Leads .absent (.done .noData)
  | submit : Leads .absent .takeId
  | takeId : Leads .takeId .insertNotifier
  | insertNotifier : Leads .insertNotifier .insertTask
  | insertTask : Leads .insertTask .trySend
  | panic : Leads .trySend .panicked
  | acceptStream : Leads .trySend .insertStream
  | accept : Leads .trySend .waiting
  | reject : Leads .trySend (.deleteNotifier .rejected)
  | insertStream : Leads .insertStream .count
  | count : Leads .count .spawn
  | spawn : Leads .spawn .waiting
  | finish : Leads .waiting (.deleteNotifier .finished)
  | resume : Leads .waiting .takeTask
  | expire : Leads .waiting (.deleteNotifier .expired)
  | disconnect : Leads .waiting .dropped
  | takeTask (task : Task) : Leads .takeTask (.uncount (.task task))
  | missTask : Leads .takeTask (.uncount (.error .UnknownError))
  | deleteNotifier (exit : Exit) : Leads (.deleteNotifier exit) (.deleteTask exit)
  | finished : Leads (.deleteTask .finished) .deleteStream
  | expired : Leads (.deleteTask .expired) (.uncount (.error .Timeout))
  | rejected : Leads (.deleteTask .rejected) (.uncount (.error .TooManyRequests))
  | rejectedStream : Leads (.deleteTask .rejected) (.done (.error .TooManyRequests))
  | deleteStream : Leads .deleteStream (.uncount .stream)
  | uncount (outcome : Outcome) : Leads (.uncount outcome) (.done outcome)

end Handler

namespace Life

variable {svc : Service} {lab : Label} {ℓ ℓ' : Life}

theorem Own.leads (hs : Own svc lab ℓ ℓ') :
    Handler.Leads ℓ.request.handler ℓ'.request.handler := by
  cases hs
  case accept route r hr hq hroute hc =>
    rw [hq]
    by_cases hsse : ℓ.request.isSse
    · simp only [goto, carry, if_pos hsse]
      exact .acceptStream
    · simp only [goto, carry, if_neg hsse]
      exact .accept
  case resume hq hdone =>
    rw [hq]
    by_cases hsse : ℓ.request.isSse
    · simp only [goto, if_pos hsse]
      exact .finish
    · simp only [goto, if_neg hsse]
      exact .resume
  case elapse hq =>
    rw [hq]
    by_cases hsse : ℓ.request.isSse
    · simp only [goto, closed, if_pos hsse]
      exact .finish
    · simp only [goto, closed, if_neg hsse]
      exact .expire
  case deleteTask exit hq =>
    rw [hq]
    cases exit with
    | finished => exact .finished
    | expired => exact .expired
    | rejected =>
      by_cases hsse : ℓ.request.isSse
      · simp only [goto, Request.afterDelete, if_pos hsse]
        exact .rejectedStream
      · simp only [goto, Request.afterDelete, if_neg hsse]
        exact .rejected
  case receiveEvent => exact .stay _
  case endStream => exact .stay _
  case leave => exact .stay _
  case refuse hq => rw [hq]; exact .refuse
  case submit hbody hq => rw [hq]; exact .submit
  case takeId hq => rw [hq]; exact .takeId
  case insertNotifier hq => rw [hq]; exact .insertNotifier
  case insertTask hq => rw [hq]; exact .insertTask
  case panic hq hroute => rw [hq]; exact .panic
  case reject hq => rw [hq]; exact .reject
  case insertStream hq => rw [hq]; exact .insertStream
  case count hq => rw [hq]; exact .count
  case spawn hq => rw [hq]; exact .spawn
  case disconnect hq hsse => rw [hq]; exact .disconnect
  case takeTask hq htask => rw [hq]; exact .takeTask _
  case missTask hq htask => rw [hq]; exact .missTask
  case deleteNotifier hq => rw [hq]; exact .deleteNotifier _
  case deleteStream hq => rw [hq]; exact .deleteStream
  case uncount hq => rw [hq]; exact .uncount _

theorem Own.history (hs : Own svc lab ℓ ℓ') : ℓ'.history.replies = ℓ.history.replies ∧
    ℓ'.history.handed = ℓ.history.handed ∧ ℓ'.history.events = ℓ.history.events := by
  cases hs <;> exact ⟨rfl, rfl, rfl⟩

theorem Own.self (hs : Own svc lab ℓ ℓ') : ℓ'.self = ℓ.self := by
  cases hs <;> rfl

theorem Own.sent (hs : Own svc lab ℓ ℓ') : ℓ'.oneshot.sent = ℓ.oneshot.sent := by
  cases hs
  case insertNotifier hq => by_cases hn : ℓ.notifier <;> simp [goto, withoutNotifier, hn]
  case deleteNotifier exit hq => by_cases hn : ℓ.notifier <;> simp [goto, withoutNotifier, hn]
  all_goals rfl

theorem Own.closed (hs : Own svc lab ℓ ℓ') (h : ℓ.oneshot.closed) : ℓ'.oneshot.closed := by
  cases hs
  case insertNotifier hq => by_cases hn : ℓ.notifier <;> simp [goto, withoutNotifier, hn, h]
  case deleteNotifier exit hq => by_cases hn : ℓ.notifier <;> simp [goto, withoutNotifier, hn, h]
  all_goals first
    | exact h
    | rfl

theorem Own.carried (hs : Own svc lab ℓ ℓ') : ℓ'.carried = ℓ.carried ∨
    ℓ.request.handler = .trySend ∧ ∃ route r, svc.senders ℓ.request.key = some route ∧
      route[0]? = some r ∧ ℓ'.carried = some (.queued r, .empty) ∧
      ℓ'.request.handler = if ℓ.request.isSse then .insertStream else .waiting := by
  cases hs
  case accept route r hr hq hroute hc => exact Or.inr ⟨hq, route, r, hroute, hr, rfl, rfl⟩
  all_goals exact Or.inl rfl

theorem Own.notifier (hs : Own svc lab ℓ ℓ') (h : ℓ'.notifier = true) :
    ℓ.notifier = true ∨
      ℓ.request.handler = .insertNotifier ∧ ℓ'.request.handler = .insertTask := by
  cases hs
  case insertNotifier hq => exact Or.inr ⟨hq, rfl⟩
  case deleteNotifier exit hq => cases h
  all_goals exact Or.inl h

theorem Own.notified (hs : Own svc lab ℓ ℓ') (h : ℓ.notifier = true) :
    ℓ'.notifier = true ∨ ∃ exit, ℓ.request.handler = .deleteNotifier exit := by
  cases hs
  case insertNotifier => exact Or.inl rfl
  case deleteNotifier exit hq => exact Or.inr ⟨exit, hq⟩
  all_goals exact Or.inl h

theorem Own.inserted (hs : Own svc lab ℓ ℓ') (h : ℓ.request.handler = .insertNotifier) :
    ℓ'.request.handler = .insertNotifier ∨ ℓ'.notifier = true := by
  cases hs
  case insertNotifier => exact Or.inr rfl
  case receiveEvent => exact Or.inl h
  case endStream => exact Or.inl h
  case leave => exact Or.inl h
  all_goals
    have hq := ‹ℓ.request.handler = _›
    rw [h] at hq
    cases hq

theorem Own.entry (hs : Own svc lab ℓ ℓ') (h : ℓ.entry.isSome) : ℓ'.entry.isSome ∨
    (∃ task, ℓ'.request.handler = .uncount (.task task)) ∨
      ∃ exit, ℓ.request.handler = .deleteTask exit := by
  cases hs
  case insertTask => exact Or.inl rfl
  case takeTask task hq htask => exact Or.inr (Or.inl ⟨task, rfl⟩)
  case deleteTask exit hq => exact Or.inr (Or.inr ⟨exit, hq⟩)
  all_goals exact Or.inl h

theorem Own.insertedTask (hs : Own svc lab ℓ ℓ') (h : ℓ.request.handler = .insertTask) :
    ℓ'.request.handler = .insertTask ∨ ℓ'.entry.isSome := by
  cases hs
  case insertTask => exact Or.inr rfl
  case receiveEvent => exact Or.inl h
  case endStream => exact Or.inl h
  case leave => exact Or.inl h
  all_goals
    have hq := ‹ℓ.request.handler = _›
    rw [h] at hq
    cases hq

theorem Own.entered (hs : Own svc lab ℓ ℓ') (h : ℓ'.entry.isSome) :
    ℓ.entry.isSome ∨ ℓ'.request.handler = .trySend := by
  cases hs
  case insertTask => exact Or.inr rfl
  case takeTask => cases h
  case deleteTask => cases h
  all_goals exact Or.inl h

theorem Own.removed (hs : Own svc lab ℓ ℓ')
    (h : ℓ.request.handler = .takeTask ∨ ∃ exit, ℓ.request.handler = .deleteTask exit) :
    ℓ'.request.handler = ℓ.request.handler ∨ ℓ'.entry = none := by
  cases hs
  case takeTask => exact Or.inr rfl
  case missTask hq hnone => exact Or.inr hnone
  case deleteTask => exact Or.inr rfl
  case receiveEvent => exact Or.inl rfl
  case endStream => exact Or.inl rfl
  case leave => exact Or.inl rfl
  all_goals
    rw [‹ℓ.request.handler = _›] at h
    rcases h with h | ⟨exit, h⟩ <;> cases h

theorem Own.cleared (hs : Own svc lab ℓ ℓ') {exit : Exit}
    (h : ℓ.request.handler = .deleteNotifier exit) :
    ℓ'.request.handler = .deleteNotifier exit ∨ ℓ'.notifier = false := by
  cases hs
  case deleteNotifier => exact Or.inr rfl
  case receiveEvent => exact Or.inl h
  case endStream => exact Or.inl h
  case leave => exact Or.inl h
  all_goals
    have hq := ‹ℓ.request.handler = _›
    rw [h] at hq
    cases hq

theorem Own.panicked (hs : Own svc lab ℓ ℓ') (h : ℓ'.request.handler = .panicked) :
    ℓ.request.handler = .panicked ∨
      ℓ.request.handler = .trySend ∧ svc.senders ℓ.request.key = none := by
  have hleads := hs.leads
  rw [h] at hleads
  cases hs
  case panic hq hkey => exact Or.inr ⟨hq, hkey⟩
  case receiveEvent => exact Or.inl h
  case endStream => exact Or.inl h
  case leave => exact Or.inl h
  case reject => cases h
  case accept hq hroute hc => by_cases hsse : ℓ.request.isSse <;> simp [goto, carry, hsse] at h
  all_goals
    rw [‹ℓ.request.handler = _›] at hleads
    cases hleads

theorem Own.dropped (hs : Own svc lab ℓ ℓ') (h : ℓ'.request.handler = .dropped) :
    ℓ.request.handler = .dropped ∨ ℓ.request.handler = .waiting ∧ ℓ.request.isSse = false ∧
      lab = .disconnect ∧ ℓ' = ℓ.closed.goto .dropped := by
  have hleads := hs.leads
  rw [h] at hleads
  cases hs
  case disconnect hq hsse => exact Or.inr ⟨hq, hsse, rfl, rfl⟩
  case receiveEvent => exact Or.inl h
  case endStream => exact Or.inl h
  case leave => exact Or.inl h
  case elapse => cases h
  case resume hq hdone => by_cases hsse : ℓ.request.isSse <;> simp [goto, hsse] at h
  all_goals
    rw [‹ℓ.request.handler = _›] at hleads
    cases hleads

theorem Own.over (hs : Own svc lab ℓ ℓ') (h : ℓ.request.handler = .dropped) :
    ℓ'.request.handler = .dropped ∧ ℓ'.entry = ℓ.entry ∧ ℓ'.notifier = ℓ.notifier ∧
      ℓ'.carried = ℓ.carried ∧ ℓ'.history = ℓ.history := by
  cases hs
  case receiveEvent => exact ⟨h, rfl, rfl, rfl, rfl⟩
  case endStream => exact ⟨h, rfl, rfl, rfl, rfl⟩
  case leave => exact ⟨h, rfl, rfl, rfl, rfl⟩
  all_goals
    have hq := ‹ℓ.request.handler = _›
    rw [h] at hq
    cases hq

theorem Own.resumed (hs : Own svc lab ℓ ℓ') (h : ℓ'.request.handler = .takeTask) :
    ℓ.request.handler = .takeTask ∨
      ℓ.request.handler = .waiting ∧ (ℓ.oneshot.sent ∨ ℓ.oneshot.senderGone) := by
  cases hs
  case resume hq hdone => exact Or.inr ⟨hq, hdone⟩
  case receiveEvent => exact Or.inl h
  case endStream => exact Or.inl h
  case leave => exact Or.inl h
  case accept hq hroute hc =>
    have hleads := h
    by_cases hsse : ℓ.request.isSse <;> simp [goto, carry, hsse] at h
  case deleteTask exit hq =>
    by_cases hsse : ℓ.request.isSse <;> cases exit <;> simp [goto, Request.afterDelete, hsse] at h
  all_goals cases h

theorem Own.request (hs : Own svc lab ℓ ℓ') : ℓ.request.handler = .absent ∨
    ℓ'.request.key = ℓ.request.key ∧ ℓ'.request.body = ℓ.request.body ∧
      ℓ'.request.isSse = ℓ.request.isSse ∧
      (ℓ.request.handler = .takeId ∨ ℓ'.request.id = ℓ.request.id) := by
  cases hs
  case refuse hq => exact Or.inl hq
  case submit hbody hq => exact Or.inl hq
  case takeId hq => exact Or.inr ⟨rfl, rfl, rfl, Or.inl hq⟩
  all_goals exact Or.inr ⟨rfl, rfl, rfl, Or.inr rfl⟩

theorem Served.frame (hs : Served svc lab ℓ ℓ') : ℓ'.self = ℓ.self ∧ ℓ'.request = ℓ.request ∧
    ℓ'.sender = ℓ.sender ∧ ℓ'.oneshot.closed = ℓ.oneshot.closed ∧
    ℓ'.oneshot.senderGone = ℓ.oneshot.senderGone := by
  cases hs <;> exact ⟨rfl, rfl, rfl, rfl, rfl⟩

theorem Served.carried (hs : Served svc lab ℓ ℓ') : ∃ p outbox, ℓ.carried = some (p, outbox) := by
  cases hs <;> exact ⟨_, _, ‹_›⟩

theorem Served.entry (hs : Served svc lab ℓ ℓ') : ℓ'.entry.isSome = ℓ.entry.isSome ∨
    ℓ.carried = some (.remove, .empty) ∧ ℓ'.entry = none := by
  cases hs
  case remove hp => exact Or.inr ⟨hp, rfl⟩
  case update => exact Or.inl (Option.isSome_map ..)
  case report htask =>
    rw [htask]
    exact Or.inl rfl
  all_goals exact Or.inl rfl

theorem Served.notifier (hs : Served svc lab ℓ ℓ') : ℓ'.notifier = ℓ.notifier ∨
    ℓ.carried = some (.toNotify, .empty) ∧ ℓ'.carried = some (.check, .empty) ∧
      ℓ'.notifier = false := by
  cases hs
  case take hp hn => exact Or.inr ⟨hp, rfl, rfl⟩
  all_goals exact Or.inl rfl

theorem Served.sent (hs : Served svc lab ℓ ℓ') : ℓ'.oneshot.sent = ℓ.oneshot.sent ∨
    ℓ.carried = some (.signal, .empty) ∧ ℓ'.carried = none ∧ ℓ'.oneshot.sent = true := by
  cases hs
  case signal hp hopen => exact Or.inr ⟨hp, rfl, rfl⟩
  all_goals exact Or.inl rfl

end Life

end Mosec
