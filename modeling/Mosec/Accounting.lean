import Mosec.Keeping

namespace Mosec

def Handler.weight (isSse : Bool) : Handler → ℤ
  | .absent => 0
  | .takeId => if isSse then 0 else 1
  | .insertNotifier => if isSse then 0 else 1
  | .insertTask => if isSse then 0 else 1
  | .trySend => if isSse then 0 else 1
  | .insertStream => 0
  | .count => 0
  | .deleteNotifier .rejected => if isSse then 0 else 1
  | .deleteTask .rejected => if isSse then 0 else 1
  | .done _ => 0
  | .dropped => 0
  | .panicked => 0
  | _ => 1

theorem Handler.weight_nonneg (isSse : Bool) (handler : Handler) : 0 ≤ handler.weight isSse := by
  unfold weight
  split <;> omega

theorem Handler.weight_of_idle {handler : Handler} (isSse : Bool) (h : handler.idle) :
    handler.weight isSse = 0 := by
  cases handler <;> first | rfl | cases h

namespace Life

def Outstanding (ℓ : Life) : Prop :=
  ∃ p outbox, ℓ.carried = some (p, outbox) ∧
    (ℓ.notifier = true ∨ p = .check ∨ p.abandoned = true)

/-- The increments made for a submission and not yet taken back have one place each where this
will happen. -/
structure Balanced (ℓ : Life) : Prop where
  unpanicked : ℓ.request.handler ≠ .panicked
  abandoned : ∀ {p outbox}, ℓ.carried = some (p, outbox) → p.abandoned →
    ℓ.request.handler = .dropped
  handled : ℓ.request.handler ≠ .dropped →
    ℓ.history.balance = ℓ.request.handler.weight ℓ.request.isSse
  dropped : ℓ.request.handler = .dropped → ℓ.history.balance = 1 ∧ ℓ.Outstanding ∨
    ℓ.history.balance = 0 ∧ ℓ.notifier = false ∧
      ∀ p outbox, ℓ.carried = some (p, outbox) → p.completing = false

def Accountable (svc : Service) (ℓ : Life) (lab : Label) : Prop :=
  ℓ.Tidy svc lab ∧ (lab = .check → ℓ.oneshot.closed = true → ℓ.request.handler = .dropped)

variable {svc : Service} {lab : Label} {ℓ ℓ' : Life}

theorem Balanced.new (h : ℕ) : (new h).Balanced := by
  constructor <;> simp [Life.new, Request.absent, Handler.weight]

theorem Balanced.handled_own (h : ℓ.Balanced) (hs : Own svc lab ℓ ℓ')
    (hq' : ℓ'.request.handler ≠ .dropped) (hpanic : ℓ'.request.handler ≠ .panicked) :
    ℓ'.history.balance = ℓ'.request.handler.weight ℓ'.request.isSse := by
  have hq₀ : ℓ.request.handler ≠ .dropped := fun hq => hq' (hs.over hq).1
  have hbalance := h.handled hq₀
  cases hs
  case receiveEvent => exact hbalance
  case endStream => exact hbalance
  case leave => exact hbalance
  all_goals
    rw [‹ℓ.request.handler = _›] at hbalance
  case submit isSse key body hbody hq =>
    change ℓ.history.balance + _ = _
    rw [hbalance]
    cases isSse <;> rfl
  case accept hq hroute hc =>
    change ℓ.history.balance = _
    rw [hbalance]
    by_cases hsse : ℓ.request.isSse <;> simp [goto, carry, hsse, Handler.weight]
  case resume hq hdone =>
    change ℓ.history.balance = _
    rw [hbalance]
    by_cases hsse : ℓ.request.isSse <;> simp [goto, hsse, Handler.weight]
  case elapse hq =>
    change ℓ.history.balance = _
    rw [hbalance]
    by_cases hsse : ℓ.request.isSse <;> simp [goto, hsse, Handler.weight]
  case deleteNotifier exit hq => cases exit <;> exact hbalance
  case deleteTask exit hq =>
    change ℓ.history.balance = _
    rw [hbalance]
    by_cases hsse : ℓ.request.isSse <;> cases exit <;>
      simp [goto, hsse, Handler.weight, Request.afterDelete]
  case count hq =>
    change ℓ.history.balance + 1 = _
    rw [hbalance]
    rfl
  case uncount hq =>
    change ℓ.history.balance + -1 = _
    rw [hbalance]
    rfl
  case disconnect => exact absurd rfl hq'
  case panic => exact absurd rfl hpanic
  all_goals exact hbalance

theorem Balanced.own (h : ℓ.Balanced) (hk : ℓ.Kept svc) (hs : Own svc lab ℓ ℓ')
    (hlab : ℓ.Accountable svc lab) : ℓ'.Balanced := by
  have hpanic : ℓ'.request.handler ≠ .panicked := by
    intro hq'
    rcases hs.panicked hq' with hq | ⟨hq, -⟩
    · exact h.unpanicked hq
    · exact hk.not_panicked hs hq hq'
  constructor
  case unpanicked => exact hpanic
  case abandoned =>
    intro p outbox hp habandoned
    rcases hs.carried with heq | ⟨-, route, r, -, -, hqueued, -⟩
    · exact (hs.over (h.abandoned (heq ▸ hp) habandoned)).1
    · rw [hqueued] at hp
      cases hp
      cases habandoned
  case handled => exact fun hq' => h.handled_own hs hq' hpanic
  case dropped =>
    intro hq'
    rcases hs.dropped hq' with hq | ⟨hq, -, rfl, rfl⟩
    · obtain ⟨-, -, hnotifier, hcarried, hhistory⟩ := hs.over hq
      rw [Outstanding, hnotifier, hcarried, hhistory]
      exact h.dropped hq
    · obtain ⟨p, outbox, hp, hattended⟩ := hlab.1
      have hbalance := h.handled (by rw [hq]; simp)
      rw [hq] at hbalance
      exact Or.inl ⟨hbalance, p, outbox, hp, hattended.imp_right Or.inl⟩

theorem Outstanding.served (h : ℓ.Outstanding) (hn : ℓ.Notified) (hk : ℓ.Kept svc)
    (hq : ℓ.request.handler = .dropped) (hs : Served svc lab ℓ ℓ') (hlab : ℓ.Tidy svc lab) :
    ℓ'.Outstanding ∧ ℓ'.history.balance = ℓ.history.balance ∨
      ℓ'.carried = none ∧ ℓ'.notifier = false ∧ ℓ'.history.balance = ℓ.history.balance - 1 := by
  obtain ⟨p, outbox, hp, hattended⟩ := h
  have hclosed := hk.closed hq
  have hnotifier : p ≠ .check → p.abandoned = false → ℓ.notifier = true := by
    intro hcheck habandoned
    exact hattended.resolve_right (not_or.mpr ⟨hcheck, by simp [habandoned]⟩)
  have hentry : ℓ.notifier = true → ℓ.entry ≠ none := by
    intro hn hnone
    rcases hk.notifier hn with hnotifying | ⟨-, hsome⟩
    · rw [hq] at hnotifying
      cases hnotifying
    · rw [hnone] at hsome
      cases hsome
  cases hs
  case lose => exact absurd hq hlab
  case take => exact Or.inl ⟨⟨_, _, rfl, Or.inr (Or.inl rfl)⟩, rfl⟩
  case checkClosed => exact Or.inl ⟨⟨_, _, rfl, Or.inr (Or.inr rfl)⟩, rfl⟩
  case remove => exact Or.inl ⟨⟨_, _, rfl, Or.inr (Or.inr rfl)⟩, rfl⟩
  case checkOpen hopen =>
    rw [hclosed] at hopen
    cases hopen
  case signal hopen =>
    rw [hclosed] at hopen
    cases hopen
  case uncountClosed hp₀ =>
    refine Or.inr ⟨rfl, ?_, rfl⟩
    rw [← Bool.not_eq_true]
    intro hnotifier
    cases hn.untaken hnotifier hp₀
  case takeMissing hp₀ hfalse =>
    rw [hp] at hp₀
    cases hp₀
    rw [hnotifier (by simp) rfl] at hfalse
    cases hfalse
  case lookup hp₀ =>
    rw [hp] at hp₀
    cases hp₀
    exact Or.inl ⟨⟨_, _, rfl, hattended⟩, rfl⟩
  case push hp₀ hopen =>
    rw [hp] at hp₀
    cases hp₀
    exact Or.inl ⟨⟨_, _, rfl, hattended⟩, rfl⟩
  case pushClosed hp₀ hclosed =>
    rw [hp] at hp₀
    cases hp₀
    exact Or.inl ⟨⟨_, _, rfl, hattended⟩, rfl⟩
  all_goals
    have hp₀ := ‹ℓ.carried = some (_, Outbox.empty)›
    rw [hp] at hp₀
    cases hp₀
    have hnotifier := hnotifier (by simp) rfl
  case skip => exact absurd ‹ℓ.entry = none› (hentry hnotifier)
  case ignore => exact absurd ‹ℓ.entry = none› (hentry hnotifier)
  case sendMissing => exact absurd ‹ℓ.entry = none› (hentry hnotifier)
  all_goals exact Or.inl ⟨⟨_, _, rfl, Or.inl hnotifier⟩, rfl⟩

theorem Served.balance (hs : Served svc lab ℓ ℓ') : ℓ'.history.balance = ℓ.history.balance ∨
    ∃ outbox, ℓ.carried = some (.uncount, outbox) := by
  cases hs
  case uncountClosed hp => exact Or.inr ⟨_, hp⟩
  all_goals exact Or.inl rfl

theorem Balanced.served (h : ℓ.Balanced) (hn : ℓ.Notified) (hk : ℓ.Kept svc)
    (hs : Served svc lab ℓ ℓ') (hlab : ℓ.Accountable svc lab) : ℓ'.Balanced := by
  obtain ⟨-, hrequest, -, -⟩ := hs.frame
  constructor
  case unpanicked =>
    rw [hrequest]
    exact h.unpanicked
  case abandoned =>
    intro p outbox hp habandoned
    rw [hrequest]
    rcases hs.abandoned hp habandoned with ⟨rfl, hclosed⟩ | ⟨p₁, outbox₁, hp₁, habandoned₁⟩
    · exact hlab.2 rfl hclosed
    · exact h.abandoned hp₁ habandoned₁
  case handled =>
    intro hq
    rw [hrequest] at hq ⊢
    rcases hs.balance with heq | ⟨outbox, hp⟩
    · rw [heq]
      exact h.handled hq
    · exact absurd (h.abandoned hp rfl) hq
  case dropped =>
    intro hq
    rw [hrequest] at hq
    rcases h.dropped hq with ⟨hone, houtstanding⟩ | ⟨hzero, hnotifier, hcompleting⟩
    · rcases houtstanding.served hn hk hq hs hlab.1 with
        ⟨houtstanding', heq⟩ | ⟨hnone, hnotifier', heq⟩
      · exact Or.inl ⟨heq.trans hone, houtstanding'⟩
      · refine Or.inr ⟨by rw [heq, hone]; rfl, hnotifier', ?_⟩
        intro p outbox hp
        rw [hnone] at hp
        cases hp
    · refine Or.inr ⟨?_, ?_, ?_⟩
      · rcases hs.balance with heq | ⟨outbox, hp⟩
        · exact heq.trans hzero
        · cases hcompleting _ _ hp
      · rcases hs.notifier with heq | ⟨-, -, hfalse⟩
        · exact heq.trans hnotifier
        · exact hfalse
      · intro p outbox hp
        rw [← Bool.not_eq_true]
        intro hcompleting'
        rcases hs.completing hp hcompleting' with ⟨p₁, outbox₁, hp₁, hcompleting₁⟩ | ⟨htrue, -⟩
        · rw [hcompleting _ _ hp₁] at hcompleting₁
          cases hcompleting₁
        · rw [hnotifier] at htrue
          cases htrue

theorem Balanced.step (h : ℓ.Balanced) (hn : ℓ.Notified) (hk : ℓ.Kept svc)
    (hs : Step svc lab ℓ ℓ') (hlab : ℓ.Accountable svc lab) : ℓ'.Balanced := by
  rcases hs with hs | hs | ⟨-, hs⟩
  · exact h.own hk hs hlab
  · exact h.served hn hk hs hlab
  · obtain ⟨events, buffer, rfl⟩ := hs.frame
    exact { h with }

theorem Balanced.balance_nonneg (h : ℓ.Balanced) : 0 ≤ ℓ.history.balance := by
  by_cases hq : ℓ.request.handler = .dropped
  · rcases h.dropped hq with ⟨hone, -⟩ | ⟨hzero, -⟩ <;> omega
  · rw [h.handled hq]
    exact Handler.weight_nonneg _ _

theorem Balanced.balance_idle (h : ℓ.Balanced) (hidle : ℓ.request.handler.idle)
    (hcarried : ℓ.carried = none) : ℓ.history.balance = 0 := by
  by_cases hq : ℓ.request.handler = .dropped
  · rcases h.dropped hq with ⟨-, p, outbox, hp, -⟩ | ⟨hzero, -⟩
    · rw [hcarried] at hp
      cases hp
    · exact hzero
  · rw [h.handled hq]
    exact Handler.weight_of_idle _ hidle

end Life

end Mosec
