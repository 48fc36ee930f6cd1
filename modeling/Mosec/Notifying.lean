import Mosec.LifeSteps

namespace Mosec

namespace Handler

def arriving : Handler → Bool
  | .absent => true
  | .takeId => true
  | .insertNotifier => true
  | .insertTask => true
  | .trySend => true
  | _ => false

def unnotified : Handler → Bool
  | .absent => true
  | .takeId => true
  | .insertNotifier => true
  | _ => false

def awaiting : Handler → Bool
  | .insertStream => true
  | .count => true
  | .spawn => true
  | .waiting => true
  | handler => handler.arriving

namespace Leads

variable {a b : Handler}

theorem arriving (h : Leads a b) (hb : b.arriving) : a.arriving := by
  cases h <;> first | rfl | exact hb

theorem unnotified (h : Leads a b) (hb : b.unnotified) : a.unnotified := by
  cases h <;> first | rfl | exact hb

theorem awaiting (h : Leads a b) (hb : b.awaiting) : a.awaiting := by
  cases h <;> first | rfl | exact hb

theorem inserting (h : Leads a b) (ha : a.unnotified) (hb : b.awaiting) :
    b.unnotified ∨ a = .insertNotifier := by
  cases h
  case stay => exact Or.inl ha
  case insertNotifier => exact Or.inr rfl
  case refuse => cases hb
  all_goals first
    | exact Or.inl rfl
    | cases ha

end Leads

end Handler

def Place.completing : Place → Bool
  | .check => true
  | .signal => true
  | .remove => true
  | .uncount => true
  | _ => false

def Place.abandoned : Place → Bool
  | .remove => true
  | .uncount => true
  | _ => false

namespace Life

/-- One completion message at most is on its way, and it has one sender. -/
structure Notified (ℓ : Life) : Prop where
  arriving : ℓ.request.handler.arriving → ℓ.carried = none ∧ ℓ.oneshot.sent = false
  unnotified : ℓ.request.handler.unnotified → ℓ.notifier = false
  awaiting : ℓ.request.handler.awaiting →
    ℓ.oneshot.closed = false ∧ ℓ.oneshot.senderGone = false
  unsent : ℓ.notifier = true → ℓ.oneshot.sent = false
  untaken : ∀ {p outbox}, ℓ.notifier = true → ℓ.carried = some (p, outbox) → p.completing = false
  sent : ℓ.oneshot.sent = true → ℓ.carried = none
  abandoned : ∀ {p outbox}, ℓ.carried = some (p, outbox) → p.abandoned → ℓ.oneshot.closed = true
  pending : ℓ.request.handler.awaiting → ℓ.request.handler.unnotified ∨ ℓ.notifier = true ∨
    ℓ.oneshot.sent = true ∨ ∃ p outbox, ℓ.carried = some (p, outbox) ∧ p.completing
  taking : ℓ.request.handler = .takeTask → ℓ.oneshot.sent = true

variable {svc : Service} {lab : Label} {ℓ ℓ' : Life}

theorem Notified.new (h : ℕ) : (new h).Notified := by
  constructor <;> simp [Life.new, Request.absent, Handler.arriving, Handler.unnotified]

theorem Notified.awaiting_own (h : ℓ.Notified) (hs : Own svc lab ℓ ℓ')
    (ha : ℓ'.request.handler.awaiting) :
    ℓ'.oneshot.closed = false ∧ ℓ'.oneshot.senderGone = false := by
  have hopen := h.awaiting (hs.leads.awaiting ha)
  cases hs
  case insertNotifier hq =>
    have hnotifier := h.unnotified (by rw [hq]; rfl)
    simpa [goto, withoutNotifier, hnotifier] using hopen
  case panic => cases ha
  case elapse => cases ha
  case disconnect => cases ha
  case deleteNotifier => cases ha
  all_goals exact hopen

theorem Notified.pending_own (h : ℓ.Notified) (hs : Own svc lab ℓ ℓ')
    (ha : ℓ'.request.handler.awaiting) : ℓ'.request.handler.unnotified ∨ ℓ'.notifier = true ∨
      ℓ'.oneshot.sent = true ∨ ∃ p outbox, ℓ'.carried = some (p, outbox) ∧ p.completing := by
  have ha' := hs.leads.awaiting ha
  rcases h.pending ha' with hunnotified | hnotifier | hsent | ⟨p, outbox, hp, hcompleting⟩
  · rcases hs.leads.inserting hunnotified ha with hq | hq
    · exact Or.inl hq
    · rcases hs.inserted hq with hq' | hnotifier
      · exact Or.inl (by rw [hq']; rfl)
      · exact Or.inr (Or.inl hnotifier)
  · rcases hs.notified hnotifier with hnotifier' | ⟨exit, hq⟩
    · exact Or.inr (Or.inl hnotifier')
    · rw [hq] at ha'
      cases ha'
  · exact Or.inr (Or.inr (Or.inl (hs.sent.trans hsent)))
  · rcases hs.carried with heq | ⟨hq, -⟩
    · exact Or.inr (Or.inr (Or.inr ⟨p, outbox, heq.trans hp, hcompleting⟩))
    · rw [(h.arriving (by rw [hq]; rfl)).1] at hp
      cases hp

theorem Notified.own (h : ℓ.Notified) (hs : Own svc lab ℓ ℓ') : ℓ'.Notified where
  arriving := by
    intro ha
    have ha' := hs.leads.arriving ha
    rcases hs.carried with heq | ⟨-, route, r, -, -, -, hq'⟩
    · rw [heq, hs.sent]
      exact h.arriving ha'
    · rw [hq'] at ha
      split at ha <;> cases ha
  unnotified := by
    intro hu
    have hu' := hs.leads.unnotified hu
    rw [← Bool.not_eq_true]
    intro hn
    rcases hs.notifier hn with hnotifier | ⟨-, hq'⟩
    · rw [h.unnotified hu'] at hnotifier
      cases hnotifier
    · rw [hq'] at hu
      cases hu
  awaiting := h.awaiting_own hs
  unsent := by
    intro hn
    rw [hs.sent]
    rcases hs.notifier hn with hnotifier | ⟨hq, -⟩
    · exact h.unsent hnotifier
    · exact (h.arriving (by rw [hq]; rfl)).2
  untaken := by
    intro p outbox hn hp
    rcases hs.carried with heq | ⟨-, route, r, -, -, hqueued, -⟩
    · rw [heq] at hp
      rcases hs.notifier hn with hnotifier | ⟨hq, -⟩
      · exact h.untaken hnotifier hp
      · rw [(h.arriving (by rw [hq]; rfl)).1] at hp
        cases hp
    · rw [hqueued] at hp
      cases hp
      rfl
  sent := by
    intro hsent
    rw [hs.sent] at hsent
    rcases hs.carried with heq | ⟨hq, -⟩
    · exact heq.trans (h.sent hsent)
    · rw [(h.arriving (by rw [hq]; rfl)).2] at hsent
      cases hsent
  abandoned := by
    intro p outbox hp habandoned
    rcases hs.carried with heq | ⟨-, route, r, -, -, hqueued, -⟩
    · exact hs.closed (h.abandoned (heq ▸ hp) habandoned)
    · rw [hqueued] at hp
      cases hp
      cases habandoned
  pending := h.pending_own hs
  taking := by
    intro hq'
    rw [hs.sent]
    rcases hs.resumed hq' with hq | ⟨hq, hsent | hgone⟩
    · exact h.taking hq
    · exact hsent
    · rw [(h.awaiting (by rw [hq]; rfl)).2] at hgone
      cases hgone

theorem Served.completing (hs : Served svc lab ℓ ℓ') {p : Place} {outbox : Outbox}
    (hp : ℓ'.carried = some (p, outbox)) (h : p.completing) :
    (∃ p₀ outbox₀, ℓ.carried = some (p₀, outbox₀) ∧ p₀.completing) ∨
      ℓ.notifier = true ∧ ℓ'.notifier = false := by
  cases hs
  case take hp hn => exact Or.inr ⟨hn, rfl⟩
  case lookup p₀ event todo hp₀ =>
    cases hp
    exact Or.inl ⟨_, _, hp₀, h⟩
  case push p₀ event todo hp₀ hopen =>
    cases hp
    exact Or.inl ⟨_, _, hp₀, h⟩
  case pushClosed p₀ event todo hp₀ hclosed =>
    cases hp
    exact Or.inl ⟨_, _, hp₀, h⟩
  case checkClosed hp₀ hclosed => exact Or.inl ⟨_, _, hp₀, rfl⟩
  case checkOpen hp₀ hopen => exact Or.inl ⟨_, _, hp₀, rfl⟩
  case remove hp₀ => exact Or.inl ⟨_, _, hp₀, rfl⟩
  all_goals cases hp <;> cases h

theorem Served.abandoned (hs : Served svc lab ℓ ℓ') {p : Place} {outbox : Outbox}
    (hp : ℓ'.carried = some (p, outbox)) (h : p.abandoned) :
    (lab = .check ∧ ℓ.oneshot.closed = true) ∨
      ∃ p₀ outbox₀, ℓ.carried = some (p₀, outbox₀) ∧ p₀.abandoned := by
  cases hs
  case lookup p₀ event todo hp₀ =>
    cases hp
    exact Or.inr ⟨_, _, hp₀, h⟩
  case push p₀ event todo hp₀ hopen =>
    cases hp
    exact Or.inr ⟨_, _, hp₀, h⟩
  case pushClosed p₀ event todo hp₀ hclosed =>
    cases hp
    exact Or.inr ⟨_, _, hp₀, h⟩
  case checkClosed hp₀ hclosed => exact Or.inl ⟨rfl, hclosed⟩
  case remove hp₀ => exact Or.inr ⟨_, _, hp₀, rfl⟩
  all_goals cases hp <;> cases h

theorem Served.completes (hs : Served svc lab ℓ ℓ') {p : Place} {outbox : Outbox}
    (hp : ℓ.carried = some (p, outbox)) (h : p.completing) :
    (∃ p' outbox', ℓ'.carried = some (p', outbox') ∧ p'.completing) ∨ ℓ'.oneshot.sent = true ∨
      ℓ.oneshot.closed = true ∨ p.abandoned := by
  cases hs
  case lookup p₀ event todo hp₀ =>
    rw [hp] at hp₀
    cases hp₀
    exact Or.inl ⟨_, _, rfl, h⟩
  case push p₀ event todo hp₀ hopen =>
    rw [hp] at hp₀
    cases hp₀
    exact Or.inl ⟨_, _, rfl, h⟩
  case pushClosed p₀ event todo hp₀ hclosed =>
    rw [hp] at hp₀
    cases hp₀
    exact Or.inl ⟨_, _, rfl, h⟩
  case checkClosed hp₀ hclosed => exact Or.inl ⟨_, _, rfl, rfl⟩
  case checkOpen hp₀ hopen => exact Or.inl ⟨_, _, rfl, rfl⟩
  case signal => exact Or.inr (Or.inl rfl)
  case remove => exact Or.inl ⟨_, _, rfl, rfl⟩
  case uncountClosed hp₀ =>
    rw [hp] at hp₀
    cases hp₀
    exact Or.inr (Or.inr (Or.inr rfl))
  case lose p₀ outbox₀ hrisk hp₀ hclosed =>
    rw [hp] at hp₀
    cases hp₀
    cases hrisk
    case signal => exact Or.inr (Or.inr (Or.inl (hclosed rfl)))
    all_goals cases h
  all_goals
    have hp₀ := ‹ℓ.carried = _›
    rw [hp] at hp₀
    cases hp₀
    cases h

theorem Notified.served (h : ℓ.Notified) (hs : Served svc lab ℓ ℓ') : ℓ'.Notified := by
  obtain ⟨-, hrequest, -, hclosed, hgone⟩ := hs.frame
  obtain ⟨p₀, outbox₀, hp₀⟩ := hs.carried
  have hunsent : ℓ.oneshot.sent = false := by
    rw [← Bool.not_eq_true]
    intro hsent
    rw [h.sent hsent] at hp₀
    cases hp₀
  have hnotifier : ℓ'.notifier = true → ℓ.notifier = true := by
    intro hn
    rcases hs.notifier with heq | ⟨-, -, hfalse⟩
    · exact heq ▸ hn
    · rw [hfalse] at hn
      cases hn
  constructor
  case arriving =>
    intro ha
    rw [hrequest] at ha
    rw [(h.arriving ha).1] at hp₀
    cases hp₀
  case unnotified =>
    intro hu
    rw [hrequest] at hu
    rw [← Bool.not_eq_true]
    intro hn
    have := hnotifier hn
    rw [h.unnotified hu] at this
    cases this
  case awaiting =>
    intro ha
    rw [hclosed, hgone]
    exact h.awaiting (hrequest ▸ ha)
  case unsent =>
    intro hn
    rcases hs.sent with heq | ⟨hsignal, -, -⟩
    · exact heq.trans hunsent
    · cases h.untaken (hnotifier hn) hsignal
  case untaken =>
    intro p outbox hn hp
    rw [← Bool.not_eq_true]
    intro hcompleting
    rcases hs.completing hp hcompleting with ⟨p₁, outbox₁, hp₁, hcompleting₁⟩ | ⟨-, hfalse⟩
    · rw [h.untaken (hnotifier hn) hp₁] at hcompleting₁
      cases hcompleting₁
    · rw [hfalse] at hn
      cases hn
  case sent =>
    intro hsent
    rcases hs.sent with heq | ⟨-, hnone, -⟩
    · rw [heq, hunsent] at hsent
      cases hsent
    · exact hnone
  case abandoned =>
    intro p outbox hp habandoned
    rw [hclosed]
    rcases hs.abandoned hp habandoned with ⟨-, hclosed⟩ | ⟨p₁, outbox₁, hp₁, habandoned₁⟩
    · exact hclosed
    · exact h.abandoned hp₁ habandoned₁
  case pending =>
    intro ha
    rw [hrequest] at ha ⊢
    have hopen := (h.awaiting ha).1
    rcases h.pending ha with hu | hn | hsent | ⟨p, outbox, hp, hcompleting⟩
    · exact Or.inl hu
    · rcases hs.notifier with heq | ⟨-, hcheck, -⟩
      · exact Or.inr (Or.inl (heq.trans hn))
      · exact Or.inr (Or.inr (Or.inr ⟨_, _, hcheck, rfl⟩))
    · rw [hunsent] at hsent
      cases hsent
    · rcases hs.completes hp hcompleting with hmore | hsent | hclosed | habandoned
      · exact Or.inr (Or.inr (Or.inr hmore))
      · exact Or.inr (Or.inr (Or.inl hsent))
      · rw [hopen] at hclosed
        cases hclosed
      · rw [h.abandoned hp habandoned] at hopen
        cases hopen
  case taking =>
    intro hq
    rw [hrequest] at hq
    rw [h.taking hq] at hunsent
    cases hunsent

theorem Notified.step (h : ℓ.Notified) (hs : Step svc lab ℓ ℓ') : ℓ'.Notified := by
  rcases hs with hs | hs | ⟨-, hs⟩
  · exact h.own hs
  · exact h.served hs
  · obtain ⟨events, buffer, rfl⟩ := hs.frame
    exact { h with }

end Life

end Mosec
