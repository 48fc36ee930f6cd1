import Mosec.Routing

namespace Mosec

namespace Handler

def notifying : Handler → Bool
  | .insertTask => true
  | .trySend => true
  | .insertStream => true
  | .count => true
  | .spawn => true
  | .waiting => true
  | .deleteNotifier _ => true
  | _ => false

def tasked : Handler → Bool
  | .deleteNotifier _ => true
  | .deleteTask _ => true
  | handler => handler.filed

def streaming : Handler → Bool
  | .count => true
  | .spawn => true
  | .waiting => true
  | .deleteNotifier .finished => true
  | .deleteTask .finished => true
  | .deleteStream => true
  | _ => false

def idle : Handler → Bool
  | .absent => true
  | .done _ => true
  | .dropped => true
  | .panicked => true
  | _ => false

theorem idle_spec {handler : Handler} (h : handler.idle) :
    handler.tasked = false ∧ handler.notifying = false ∧ handler.streaming = false := by
  cases handler <;> first | exact ⟨rfl, rfl, rfl⟩ | cases h

namespace Leads

variable {a b : Handler}

theorem notifying (h : Leads a b) (ha : a.notifying) : b.notifying ∨
    (∃ exit, a = .deleteNotifier exit ∧ b = .deleteTask exit) ∨ a = .waiting ∧ b = .takeTask ∨
      a = .trySend ∧ b = .panicked ∨ a = .waiting ∧ b = .dropped := by
  cases h
  case stay => exact Or.inl ha
  case deleteNotifier exit => exact Or.inr (Or.inl ⟨exit, rfl, rfl⟩)
  case resume => exact Or.inr (Or.inr (Or.inl ⟨rfl, rfl⟩))
  case panic => exact Or.inr (Or.inr (Or.inr (Or.inl ⟨rfl, rfl⟩)))
  case disconnect => exact Or.inr (Or.inr (Or.inr (Or.inr ⟨rfl, rfl⟩)))
  all_goals first
    | exact Or.inl rfl
    | cases ha

theorem tasked (h : Leads a b) (ha : a.tasked) : b.tasked ∨
    (a = .takeTask ∨ ∃ exit, a = .deleteTask exit) ∧ b ≠ a ∨ a = .trySend ∧ b = .panicked ∨
      a = .waiting ∧ b = .dropped := by
  cases h
  case stay => exact Or.inl ha
  case panic => exact Or.inr (Or.inr (Or.inl ⟨rfl, rfl⟩))
  case disconnect => exact Or.inr (Or.inr (Or.inr ⟨rfl, rfl⟩))
  all_goals first
    | exact Or.inl rfl
    | exact Or.inr (Or.inl ⟨Or.inl rfl, by simp⟩)
    | exact Or.inr (Or.inl ⟨Or.inr ⟨_, rfl⟩, by simp⟩)
    | cases ha

end Leads

end Handler

namespace Life

def Attended (ℓ : Life) : Prop :=
  ∃ p outbox, ℓ.carried = some (p, outbox) ∧ (ℓ.notifier = true ∨ p = .check ∨ p = .remove)

structure Kept (ℓ : Life) (svc : Service) : Prop where
  known : ℓ.request.handler.arriving → ℓ.request.handler ≠ .absent →
    (svc.senders ℓ.request.key).isSome
  sse : ℓ.request.handler = .insertStream → ℓ.request.isSse = true
  closed : ℓ.request.handler = .dropped → ℓ.oneshot.closed = true
  sender : ℓ.sender = true → ℓ.request.isSse = true ∧ ℓ.request.handler.streaming
  notifier : ℓ.notifier = true → ℓ.request.handler.notifying ∨
    ℓ.request.handler = .dropped ∧ ℓ.entry.isSome
  entry : ℓ.entry.isSome → ℓ.request.handler.tasked ∨
    ℓ.request.handler = .dropped ∧ ℓ.Attended

/-- The steps that leave nothing behind: the route is known, a handler is dropped only while a
connection is there to clean up after it, and no id is lost after that. -/
def Tidy (svc : Service) (ℓ : Life) : Label → Prop
  | .submit key _ => (svc.senders key).isSome
  | .disconnect => ∃ p outbox, ℓ.carried = some (p, outbox) ∧ (ℓ.notifier = true ∨ p = .check)
  | .lose => ℓ.request.handler ≠ .dropped
  | _ => True

variable {svc : Service} {lab : Label} {ℓ ℓ' : Life}

theorem Kept.new (h : ℕ) : (new h).Kept svc := by
  constructor <;> simp [Life.new, Request.absent]

theorem Kept.known_own (h : ℓ.Kept svc) (hs : Own svc lab ℓ ℓ') (hlab : ℓ.Tidy svc lab)
    (ha : ℓ'.request.handler.arriving) (hne : ℓ'.request.handler ≠ .absent) :
    (svc.senders ℓ'.request.key).isSome := by
  have ha₀ := hs.leads.arriving ha
  cases hs
  case refuse => cases ha
  case submit hbody hq => exact hlab
  case receiveEvent => exact h.known ha hne
  case endStream => exact h.known ha hne
  case leave => exact h.known ha hne
  all_goals exact h.known ha₀ (by rw [‹ℓ.request.handler = _›]; simp)

theorem Kept.sse_own (h : ℓ.Kept svc) (hs : Own svc lab ℓ ℓ')
    (hq' : ℓ'.request.handler = .insertStream) : ℓ'.request.isSse = true := by
  cases hs
  case accept hq hroute hc =>
    by_cases hsse : ℓ.request.isSse
    · exact hsse
    · simp [goto, carry, hsse] at hq'
  case resume hq hdone => by_cases hsse : ℓ.request.isSse <;> simp [goto, hsse] at hq'
  case deleteTask exit hq =>
    by_cases hsse : ℓ.request.isSse <;> cases exit <;>
      simp [goto, Request.afterDelete, hsse] at hq'
  case receiveEvent => exact h.sse hq'
  case endStream => exact h.sse hq'
  case leave => exact h.sse hq'
  all_goals cases hq'

theorem Kept.sender_own (h : ℓ.Kept svc) (hs : Own svc lab ℓ ℓ') (hsender : ℓ'.sender = true) :
    ℓ'.request.isSse = true ∧ ℓ'.request.handler.streaming := by
  cases hs
  case insertStream hq => exact ⟨h.sse hq, rfl⟩
  case deleteStream => cases hsender
  case receiveEvent => exact h.sender hsender
  case endStream => exact h.sender hsender
  case leave => exact h.sender hsender
  all_goals
    obtain ⟨hsse, hstreaming⟩ := h.sender hsender
    rw [‹ℓ.request.handler = _›] at hstreaming
  case resume => exact ⟨hsse, by simp [goto, hsse, Handler.streaming]⟩
  case elapse => exact ⟨hsse, by simp [goto, hsse, Handler.streaming]⟩
  case disconnect hsse' =>
    rw [hsse] at hsse'
    cases hsse'
  case deleteNotifier exit hq => cases exit <;> first | exact ⟨hsse, rfl⟩ | cases hstreaming
  case deleteTask exit hq => cases exit <;> first | exact ⟨hsse, rfl⟩ | cases hstreaming
  all_goals first
    | exact ⟨hsse, rfl⟩
    | cases hstreaming

theorem Kept.not_panicked (h : ℓ.Kept svc) (hs : Own svc lab ℓ ℓ')
    (hq : ℓ.request.handler = .trySend) : ℓ'.request.handler ≠ .panicked := by
  intro hq'
  rcases hs.panicked hq' with hq₀ | ⟨-, hkey⟩
  · rw [hq] at hq₀
    cases hq₀
  · have hknown := h.known (by rw [hq]; rfl) (by rw [hq]; simp)
    rw [hkey] at hknown
    cases hknown

theorem Kept.notifier_own (h : ℓ.Kept svc) (hn : ℓ.Notified) (hf : ℓ.Filed)
    (hs : Own svc lab ℓ ℓ') (hnotifier : ℓ'.notifier = true) :
    ℓ'.request.handler.notifying ∨ ℓ'.request.handler = .dropped ∧ ℓ'.entry.isSome := by
  rcases hs.notifier hnotifier with hnotifier₀ | ⟨-, hq'⟩
  · rcases h.notifier hnotifier₀ with hnotifying | ⟨hq, hentry⟩
    · rcases hs.leads.notifying hnotifying with
        hnotifying' | ⟨exit, hq, hq'⟩ | ⟨hq, hq'⟩ | ⟨hq, hq'⟩ | ⟨hq, hq'⟩
      · exact Or.inl hnotifying'
      · rcases hs.cleared hq with hstay | hfalse
        · rw [hq'] at hstay
          cases hstay
        · rw [hfalse] at hnotifier
          cases hnotifier
      · exfalso
        rcases hs.resumed hq' with hq₀ | ⟨-, hsent | hgone⟩
        · rw [hq] at hq₀
          cases hq₀
        · rw [hn.unsent hnotifier₀] at hsent
          cases hsent
        · rw [(hn.awaiting (by rw [hq]; rfl)).2] at hgone
          cases hgone
      · exact absurd hq' (h.not_panicked hs hq)
      · rcases hs.dropped hq' with hq₀ | ⟨-, -, -, rfl⟩
        · rw [hq] at hq₀
          cases hq₀
        · exact Or.inr ⟨rfl, hf.filed (by rw [hq]; rfl)⟩
    · obtain ⟨hq', hentry', -⟩ := hs.over hq
      exact Or.inr ⟨hq', hentry' ▸ hentry⟩
  · rw [hq']
    exact Or.inl rfl

theorem Kept.entry_own (h : ℓ.Kept svc) (hs : Own svc lab ℓ ℓ') (hlab : ℓ.Tidy svc lab)
    (hentry : ℓ'.entry.isSome) :
    ℓ'.request.handler.tasked ∨ ℓ'.request.handler = .dropped ∧ ℓ'.Attended := by
  rcases hs.entered hentry with hentry₀ | hq'
  · rcases h.entry hentry₀ with htasked | ⟨hq, p, outbox, hp, hattended⟩
    · rcases hs.leads.tasked htasked with htasked' | ⟨hq, hne⟩ | ⟨hq, hq'⟩ | ⟨hq, hq'⟩
      · exact Or.inl htasked'
      · rcases hs.removed hq with hstay | hnone
        · exact absurd hstay hne
        · rw [hnone] at hentry
          cases hentry
      · exact absurd hq' (h.not_panicked hs hq)
      · rcases hs.dropped hq' with hq₀ | ⟨-, -, rfl, rfl⟩
        · rw [hq] at hq₀
          cases hq₀
        · obtain ⟨p, outbox, hp, hattended⟩ := hlab
          exact Or.inr ⟨rfl, p, outbox, hp, hattended.imp_right Or.inl⟩
    · obtain ⟨hq', -, hnotifier', hcarried', -⟩ := hs.over hq
      refine Or.inr ⟨hq', p, outbox, hcarried'.trans hp, ?_⟩
      rwa [hnotifier']
  · rw [hq']
    exact Or.inl rfl

theorem Kept.own (h : ℓ.Kept svc) (hn : ℓ.Notified) (hf : ℓ.Filed) (hs : Own svc lab ℓ ℓ')
    (hlab : ℓ.Tidy svc lab) : ℓ'.Kept svc where
  known := h.known_own hs hlab
  sse := h.sse_own hs
  closed := by
    intro hq'
    rcases hs.dropped hq' with hq | ⟨-, -, -, rfl⟩
    · exact hs.closed (h.closed hq)
    · rfl
  sender := h.sender_own hs
  notifier := h.notifier_own hn hf hs
  entry := h.entry_own hs hlab

theorem Attended.served (h : ℓ.Attended) (hn : ℓ.Notified) (hq : ℓ.request.handler = .dropped)
    (hclosed : ℓ.oneshot.closed = true) (hs : Served svc lab ℓ ℓ') (hlab : ℓ.Tidy svc lab)
    (hentry : ℓ'.entry.isSome) : ℓ'.Attended := by
  obtain ⟨p, outbox, hp, hattended⟩ := h
  have hnotifier : p ≠ .check → p ≠ .remove → ℓ.notifier = true := by
    intro hcheck hremove
    exact hattended.resolve_right (not_or.mpr ⟨hcheck, hremove⟩)
  have hnone : ℓ.entry = none → ℓ'.entry = none → ℓ'.Attended := by
    intro _ hnone'
    rw [hnone'] at hentry
    cases hentry
  cases hs
  case lose => exact absurd hq hlab
  case skip hp₀ hentry₀ => exact hnone hentry₀ hentry₀
  case ignore hcode hp₀ hentry₀ => exact hnone hentry₀ hentry₀
  case sendMissing hp₀ hentry₀ => exact hnone hentry₀ hentry₀
  case remove => cases hentry
  case take => exact ⟨_, _, rfl, Or.inr (Or.inl rfl)⟩
  case checkClosed => exact ⟨_, _, rfl, Or.inr (Or.inr rfl)⟩
  case checkOpen hopen =>
    rw [hclosed] at hopen
    cases hopen
  case signal hopen =>
    rw [hclosed] at hopen
    cases hopen
  case takeMissing hp₀ hfalse =>
    rw [hp] at hp₀
    cases hp₀
    rw [hnotifier (by simp) (by simp)] at hfalse
    cases hfalse
  case lookup hp₀ =>
    rw [hp] at hp₀
    cases hp₀
    exact ⟨_, _, rfl, hattended⟩
  case push hp₀ hopen =>
    rw [hp] at hp₀
    cases hp₀
    exact ⟨_, _, rfl, hattended⟩
  case pushClosed hp₀ hclosed =>
    rw [hp] at hp₀
    cases hp₀
    exact ⟨_, _, rfl, hattended⟩
  all_goals
    have hp₀ := ‹ℓ.carried = some (_, Outbox.empty)›
    rw [hp] at hp₀
    cases hp₀
    have hnotifier := hnotifier (by simp) (by simp)
  case uncountClosed => cases hn.untaken hnotifier hp
  all_goals exact ⟨_, _, rfl, Or.inl hnotifier⟩

theorem Kept.served (h : ℓ.Kept svc) (hn : ℓ.Notified) (hs : Served svc lab ℓ ℓ')
    (hlab : ℓ.Tidy svc lab) : ℓ'.Kept svc := by
  obtain ⟨-, hrequest, hsender, hclosed, -⟩ := hs.frame
  have hsome : ℓ'.entry.isSome → ℓ.entry.isSome := by
    intro hentry
    rcases hs.entry with heq | ⟨-, hnone⟩
    · rwa [heq] at hentry
    · rw [hnone] at hentry
      cases hentry
  constructor
  case known =>
    rw [hrequest]
    exact h.known
  case sse =>
    rw [hrequest]
    exact h.sse
  case closed =>
    rw [hrequest, hclosed]
    exact h.closed
  case sender =>
    rw [hrequest, hsender]
    exact h.sender
  case notifier =>
    intro hnotifier
    rcases hs.notifier with heq | ⟨-, -, hfalse⟩
    · rw [heq] at hnotifier
      rw [hrequest]
      refine (h.notifier hnotifier).imp_right fun ⟨hq, hentry⟩ => ⟨hq, ?_⟩
      rcases hs.entry with heq | ⟨hremove, -⟩
      · rwa [heq]
      · cases hn.untaken hnotifier hremove
    · rw [hfalse] at hnotifier
      cases hnotifier
  case entry =>
    intro hentry
    rw [hrequest]
    refine (h.entry (hsome hentry)).imp_right fun ⟨hq, hattended⟩ => ⟨hq, ?_⟩
    exact hattended.served hn hq (h.closed hq) hs hlab hentry

theorem Kept.step (h : ℓ.Kept svc) (hn : ℓ.Notified) (hf : ℓ.Filed) (hs : Step svc lab ℓ ℓ')
    (hlab : ℓ.Tidy svc lab) : ℓ'.Kept svc := by
  rcases hs with hs | hs | ⟨-, hs⟩
  · exact h.own hn hf hs hlab
  · exact h.served hn hs hlab
  · obtain ⟨events, buffer, rfl⟩ := hs.frame
    exact { h with }

theorem Kept.nothing_left (h : ℓ.Kept svc) (hidle : ℓ.request.handler.idle)
    (hcarried : ℓ.carried = none) : ℓ.entry = none ∧ ℓ.notifier = false ∧ ℓ.sender = false := by
  obtain ⟨htasked, hnotifying, hstreaming⟩ := Handler.idle_spec hidle
  have hentry : ℓ.entry.isSome = false := by
    rw [← Bool.not_eq_true]
    intro hsome
    rcases h.entry hsome with hq | ⟨-, p, outbox, hp, -⟩
    · rw [htasked] at hq
      cases hq
    · rw [hcarried] at hp
      cases hp
  refine ⟨Option.isSome_eq_false_iff.mp hentry |> Option.isNone_iff_eq_none.mp, ?_, ?_⟩
  · rw [← Bool.not_eq_true]
    intro hnotifier
    rcases h.notifier hnotifier with hq | ⟨-, hsome⟩
    · rw [hnotifying] at hq
      cases hq
    · rw [hentry] at hsome
      cases hsome
  · rw [← Bool.not_eq_true]
    intro hsender
    have hq := (h.sender hsender).2
    rw [hstreaming] at hq
    cases hq

end Life

end Mosec
