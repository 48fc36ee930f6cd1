import Mosec.Deadlock
import Mosec.Draining
import Mosec.EventDelivery

namespace Mosec

namespace Life

variable {svc : Service} {lab : Label} {ℓ ℓ' : Life}

def opened (ℓ : Life) : Prop :=
  ℓ.request.isSse = true ∧ (ℓ.request.handler.registered ∨ ℓ.request.handler.finished)

structure Offered (ℓ : Life) : Prop where
  sse : ℓ.request.handler = .insertStream → ℓ.request.isSse = true
  sender : ℓ.sender = true → ℓ.opened
  pushing : ∀ {p outbox}, ℓ.carried = some (p, outbox) → outbox.pushing ≠ none →
    ℓ.opened ∧ ℓ.stream.ended = false
  ended : ℓ.stream.ended = true → ℓ.opened ∧ ℓ.sender = false

theorem Offered.new (h : ℕ) : (new h).Offered := by
  constructor <;> simp [Life.new, Request.absent]

theorem opened_own (h : ℓ.opened) (hs : Own svc lab ℓ ℓ') : ℓ'.opened := by
  obtain ⟨hsse, hq⟩ := h
  have hne : ℓ.request.handler ≠ .absent := by
    intro habsent
    rw [habsent] at hq
    rcases hq with hq | hq <;> cases hq
  refine ⟨hs.isSse hne ▸ hsse, ?_⟩
  cases hs
  case resume => simp [goto, hsse, Handler.finished]
  case elapse => simp [goto, closed, hsse, Handler.finished]
  case disconnect hsse' =>
    rw [hsse] at hsse'
    cases hsse'
  case deleteTask exit hq' =>
    rw [hq'] at hq
    cases exit with
    | finished => exact Or.inr rfl
    | rejected => rcases hq with hq | hq <;> cases hq
    | expired => rcases hq with hq | hq <;> cases hq
  case deleteNotifier exit hq' =>
    rw [hq'] at hq
    cases exit with
    | finished => exact Or.inr rfl
    | rejected => rcases hq with hq | hq <;> cases hq
    | expired => rcases hq with hq | hq <;> cases hq
  case uncount outcome hq' =>
    rw [hq'] at hq
    right
    rcases hq with hq | hq
    · cases hq
    · cases outcome <;> first | rfl | cases hq
  case receiveEvent => exact hq
  case endStream => exact hq
  case leave => exact hq
  case spawn => exact Or.inl rfl
  case count => exact Or.inl rfl
  case deleteStream => exact Or.inr rfl
  all_goals
    rw [‹ℓ.request.handler = _›] at hq
    rcases hq with hq | hq <;> cases hq

theorem not_opened_of_insertStream (hq : ℓ.request.handler = .insertStream) : ¬ ℓ.opened := by
  rintro ⟨-, h | h⟩ <;> rw [hq] at h <;> cases h

theorem Offered.sse_own (h : ℓ.Offered) (hs : Own svc lab ℓ ℓ')
    (hq' : ℓ'.request.handler = .insertStream) : ℓ'.request.isSse = true := by
  cases hs
  case accept hq hroute hc =>
    by_cases hsse : ℓ.request.isSse
    · exact hsse
    · simp [goto, carry, hsse] at hq'
  case resume hq hdone => by_cases hsse : ℓ.request.isSse <;> simp [goto, hsse] at hq'
  case deleteTask exit hq =>
    by_cases hsse : ℓ.request.isSse <;> cases exit <;>
      simp [goto, Request.afterDelete, hsse] at hq'
  case receiveEvent => exact h.sse hq'
  case endStream => exact h.sse hq'
  case leave => exact h.sse hq'
  all_goals cases hq'

theorem Own.sender_of (hs : Own svc lab ℓ ℓ') (h : ℓ'.sender = true) :
    ℓ.sender = true ∨ ℓ.request.handler = .insertStream := by
  cases hs
  case insertStream hq => exact Or.inr hq
  case deleteStream => cases h
  all_goals exact Or.inl h

theorem Own.ended_of (hs : Own svc lab ℓ ℓ') (h : ℓ'.stream.ended = true) :
    ℓ.stream.ended = true ∨ ℓ.opened ∧ ℓ'.sender = false ∧
      ∀ p outbox, ℓ'.carried = some (p, outbox) → outbox.pushing = none := by
  cases hs
  case endStream hresponse hbuffer hsender hpushing =>
    obtain ⟨hsse, hq⟩ := Request.waiting_or_finished hresponse
    refine Or.inr ⟨⟨hsse, ?_⟩, hsender, hpushing⟩
    rcases hq with hq | hq
    · rw [hq]
      exact Or.inl rfl
    · exact Or.inr hq
  all_goals exact Or.inl h

theorem Offered.own (h : ℓ.Offered) (hs : Own svc lab ℓ ℓ') : ℓ'.Offered where
  sse := h.sse_own hs
  sender := by
    intro hsender
    rcases hs.sender_of hsender with hbefore | hq
    · exact opened_own (h.sender hbefore) hs
    · cases hs
      case insertStream => exact ⟨h.sse hq, Or.inl rfl⟩
      case receiveEvent => exact absurd (h.sender hsender) (not_opened_of_insertStream hq)
      case endStream => exact absurd (h.sender hsender) (not_opened_of_insertStream hq)
      case leave => exact absurd (h.sender hsender) (not_opened_of_insertStream hq)
      all_goals
        have hq' := ‹ℓ.request.handler = _›
        rw [hq] at hq'
        cases hq'
  pushing := by
    intro p outbox hp hne
    rcases hs.carried with heq | ⟨-, route, r, -, -, hqueued, -⟩
    · obtain ⟨hopened, hended⟩ := h.pushing (heq ▸ hp) hne
      refine ⟨opened_own hopened hs, ?_⟩
      by_contra hended'
      rcases hs.ended_of (by simpa using hended') with hbefore | ⟨-, -, hnone⟩
      · rw [hended] at hbefore
        cases hbefore
      · exact hne (hnone p outbox hp)
    · rw [hqueued] at hp
      cases hp
      exact absurd rfl hne
  ended := by
    intro hended
    rcases hs.ended_of hended with hbefore | ⟨hopened, hsender, -⟩
    · obtain ⟨hopened, hsender⟩ := h.ended hbefore
      refine ⟨opened_own hopened hs, ?_⟩
      by_contra hsender'
      rcases hs.sender_of (by simpa using hsender') with hbefore' | hq
      · rw [hsender] at hbefore'
        cases hbefore'
      · exact not_opened_of_insertStream hq hopened
    · exact ⟨opened_own hopened hs, hsender⟩

theorem Offered.served (h : ℓ.Offered) (hs : Served svc lab ℓ ℓ') : ℓ'.Offered := by
  obtain ⟨-, hrequest, hsender, -, -⟩ := hs.frame
  obtain ⟨-, hended⟩ := hs.stream
  constructor
  case sse =>
    rw [hrequest]
    exact h.sse
  case sender =>
    intro hs'
    rw [opened, hrequest]
    exact h.sender (hsender ▸ hs')
  case ended =>
    intro hend
    rw [opened, hrequest, hsender]
    exact h.ended (hended ▸ hend)
  case pushing =>
    intro p outbox hp hne
    rw [opened, hrequest, hended]
    cases hs
    case lookup p event todo hp₀ =>
      cases hp
      have hsome : ℓ.sender = true := by
        by_contra hnone
        rw [if_neg hnone] at hne
        exact hne rfl
      refine ⟨h.sender hsome, ?_⟩
      by_contra hend
      rw [(h.ended (by simpa using hend)).2] at hsome
      cases hsome
    all_goals
      first
        | cases hp
          exact absurd rfl hne
        | cases hp

theorem Offered.step (h : ℓ.Offered) (hs : Step svc lab ℓ ℓ') : ℓ'.Offered := by
  rcases hs with hs | hs | ⟨-, hs⟩
  · exact h.own hs
  · exact h.served hs
  · obtain ⟨events, buffer, rfl⟩ := hs.frame
    exact { h with }

theorem opened_step (h : ℓ.opened) (hs : Step svc lab ℓ ℓ') : ℓ'.opened := by
  rcases hs with hs | hs | ⟨-, hs⟩
  · exact opened_own h hs
  · rw [opened, hs.frame.2.1]
    exact h
  · obtain ⟨events, buffer, rfl⟩ := hs.frame
    exact h

end Life

theorem Request.Move.ended_of {svc : Service} {m m' : TaskManager} {n h : ℕ} {q q' : Request}
    {clones : Bool} {act : RequestAction} (hm : Move svc m n q clones act m' q')
    (hended : (m'.streams h).ended = true) :
    (m.streams h).ended = true ∨ h = n ∧ clones = false := by
  by_cases hh : h = n
  · cases hm
    case endStream hclones => exact Or.inr ⟨hh, hclones⟩
    case receiveEvent =>
      left
      simpa [TaskManager.setStream, hh] using hended
    case leave =>
      left
      simpa [TaskManager.setStream, hh] using hended
    all_goals exact Or.inl hended
  · left
    cases hm
    case receiveEvent => simpa [TaskManager.setStream, hh] using hended
    case endStream => simpa [TaskManager.setStream, hh] using hended
    case leave => simpa [TaskManager.setStream, hh] using hended
    all_goals exact hended

namespace Conn.Move

variable {svc : Service} {m m' : TaskManager} {c c' : Conn} {act : ConnAction}
  {touched : List UInt32}

theorem ended (hm : Move svc m c act touched m' c') (h : ℕ) :
    (m'.streams h).ended = (m.streams h).ended := by
  cases hm
  case push p todo jobs next hp hopen =>
    by_cases hh : h = p.request <;> simp [TaskManager.setStream, hh]
  case latePush p todo hp hopen =>
    by_cases hh : h = p.request <;> simp [TaskManager.setStream, hh]
  all_goals rfl

theorem late_of (hm : Move svc m c act touched m' c') {p : Pushing}
    {todo : List (UInt32 × Event)} (hp : c'.point = .late (some p) todo) :
    m.streamSenders p.id = some p.request := by
  cases hm
  case lateLookup id event todo' hpoint =>
    obtain ⟨hsome, -⟩ := Point.late.inj hp
    obtain ⟨h, hsender, rfl⟩ := Option.map_eq_some_iff.mp hsome
    exact hsender
  case recv hpoint => rcases hpoint with rfl | rfl <;> cases hp
  case fetch hpoint hpoint' hitems => rcases hpoint with ⟨-, rfl⟩ | rfl <;> cases hp
  case workDone next hpoint => cases next <;> cases hp
  all_goals cases hp

end Conn.Move

namespace State

variable {svc : Service} {ok : State → Action → Prop} {s s' : State} {a : Action}

theorem offered_of_run (hs : FreshRun svc ok s) (h : ℕ) : (s.life h).Offered :=
  life_always Life.Offered Life.Offered.new (fun hlife hinv => hinv.step hlife) hs h

def Belated (s : State) : Prop :=
  ∀ k p todo, (s.conns k).point = .late (some p) todo →
    (s.life p.request).opened ∧ (s.manager.streams p.request).ended = false

theorem opened_of_step (hs : FreshRun svc ok s) (hfresh : s.FreshId a)
    (hstep : s.step svc a = some s') {h : ℕ} (hopened : (s.life h).opened) :
    (s'.life h).opened := by
  rcases refines (coherent_of_run hs) (unaccepted_of_run hs) hfresh hstep h with
    heq | ⟨lab, -, hlife⟩
  · rw [heq]
    exact hopened
  · exact Life.opened_step hopened hlife

theorem offered_of_sender (hs : FreshRun svc ok s) {i : UInt32} {h : ℕ}
    (hsender : s.manager.streamSenders i = some h) :
    (s.life h).opened ∧ (s.manager.streams h).ended = false := by
  have hcoherent := coherent_of_run hs
  obtain ⟨hreq, -⟩ := hcoherent.owned (hcoherent.sender hsender)
  have hoffered := offered_of_run hs h
  have hlife : (s.life h).sender = true := by simp [life, hreq, hsender]
  refine ⟨hoffered.sender hlife, ?_⟩
  by_contra hended
  rw [(hoffered.ended (by simpa [life] using hended)).2] at hlife
  cases hlife

theorem Belated.step (hbelated : s.Belated) (hs : FreshRun svc ok s) (hfresh : s.FreshId a)
    (hstep : s.step svc a = some s') : s'.Belated := by
  intro k p todo hp
  suffices hpast : (s.life p.request).opened ∧ (s'.manager.streams p.request).ended = false from
    ⟨opened_of_step hs hfresh hstep hpast.1, hpast.2⟩
  cases a with
  | submit isSse key body =>
    cases hstep
    obtain ⟨hopened, hended⟩ := hbelated k p todo hp
    refine ⟨hopened, ?_⟩
    have hmanager : (s.submit isSse key body).manager = s.manager ∨
        (s.submit isSse key body).manager = s.manager.count s.submitted 1 :=
      submit_manager s.manager s.submitted isSse key body
    rcases hmanager with hm | hm <;> rw [hm] <;> exact hended
  | request n act =>
    obtain ⟨⟨m, q⟩, hmove, rfl⟩ := Option.map_eq_some_iff.mp hstep
    replace hp : (s.conns k).point = .late (some p) todo := hp
    obtain ⟨hopened, hended⟩ := hbelated k p todo hp
    refine ⟨hopened, ?_⟩
    change (m.streams p.request).ended = false
    by_contra hended'
    rw [Bool.not_eq_false] at hended'
    rcases (Request.move_of_step hmove).ended_of hended' with hbefore | ⟨rfl, hclones⟩
    · rw [hended] at hbefore
      cases hbefore
    · have hk : k < s.connected := by
        by_contra hge
        rw [unaccepted_of_run hs k (by omega)] at hp
        cases hp
      rw [clones, List.any_eq_false] at hclones
      apply hclones k (List.mem_range.mpr hk)
      simp [Conn.pushesTo, hp]
  | connect r =>
    simp only [State.step] at hstep
    split at hstep
    · cases hstep
      by_cases hk : k = s.connected
      · rw [hk, accept_conns_self] at hp
        cases hp
      · rw [accept_conns_ne s r hk] at hp
        exact hbelated k p todo hp
    · cases hstep
  | conn j act =>
    obtain ⟨⟨m, c⟩, hmove, rfl⟩ := Option.map_eq_some_iff.mp hstep
    obtain ⟨touched, hm⟩ := Conn.move_of_step hmove
    change _ ∧ (m.streams p.request).ended = false
    rw [hm.ended]
    by_cases hk : k = j
    · subst hk
      rw [setConn_conns_self] at hp
      exact offered_of_sender hs (hm.late_of hp)
    · rw [setConn_conns_ne s m c hk] at hp
      exact hbelated k p todo hp

theorem belated_of_run (hs : FreshRun svc ok s) : s.Belated := by
  induction hs with
  | init => exact fun _ _ _ hp => by cases hp
  | step hrun hok hstep ih => exact ih.step hrun hok.1 hstep

def Sound (s : State) : Prop := ∀ k, (s.conns k).live → (s.conns k).broken = false

theorem Sound.step (hs : s.Sound) (hok : Answered a) (hstep : s.step svc a = some s') :
    s'.Sound := by
  cases a with
  | submit isSse key body =>
    cases hstep
    exact hs
  | request n act =>
    obtain ⟨⟨m, q⟩, -, rfl⟩ := Option.map_eq_some_iff.mp hstep
    exact hs
  | connect r =>
    simp only [State.step] at hstep
    split at hstep
    · cases hstep
      intro k hlive
      by_cases hk : k = s.connected
      · rw [hk, accept_conns_self]
        rfl
      · rw [accept_conns_ne s r hk] at hlive ⊢
        exact hs k hlive
    · cases hstep
  | conn k act =>
    obtain ⟨⟨m, c⟩, hmove, rfl⟩ := Option.map_eq_some_iff.mp hstep
    obtain ⟨touched, hm⟩ := Conn.move_of_step hmove
    intro j hlive
    by_cases hj : j = k
    · subst hj
      rw [setConn_conns_self] at hlive ⊢
      have hbefore : (s.conns j).broken = false := by
        apply hs
        cases hm <;> simp_all [Conn.live]
      cases hm
      case readCut => exact hok.elim
      case readErr => exact hok.elim
      all_goals exact hbefore
    · rw [setConn_conns_ne s m c hj] at hlive ⊢
      exact hs j hlive

theorem sound_of_run (hs : FreshRun svc (fun _ a => Answered a) s) : s.Sound := by
  induction hs with
  | init =>
    intro k hlive
    cases hlive
  | step _ hok hstep ih => exact ih.step hok.2 hstep

/-- Nothing is left to do for a service whose workers answer every batch with OK. -/
def Exhausted (svc : Service) (s : State) : Prop :=
  ∀ a, internal a → Answered a → s.step svc a = none

theorem room_of_opened
    (hwait : ∀ h, (s.requests h).handler.idle ∨ (s.requests h).handler = .waiting)
    (hstuck : ∀ h, s.step svc (.request h .receiveEvent) = none) {h : ℕ}
    (hopened : (s.life h).opened) (hended : (s.manager.streams h).ended = false)
    (hclosed : (s.manager.streams h).closed = false) :
    (s.manager.streams h).buffer.length < streamCapacity := by
  obtain ⟨hsse, hopened⟩ := hopened
  replace hsse : (s.requests h).isSse = true := hsse
  have hresponse : (s.requests h).hasResponse = true := by
    have hq := hwait h
    replace hopened : (s.requests h).handler.registered = true ∨
      (s.requests h).handler.finished = true := hopened
    rw [Request.hasResponse, hsse]
    generalize (s.requests h).handler = handler at hq hopened
    cases handler with
    | done outcome => cases outcome <;> rcases hopened with h | h <;> first | rfl | cases h
    | waiting => rfl
    | absent => rcases hopened with h | h <;> cases h
    | dropped => rcases hopened with h | h <;> cases h
    | panicked => rcases hopened with h | h <;> cases h
    | _ => rcases hq with hq | hq <;> cases hq
  by_contra hfull
  have hbuffer : (s.manager.streams h).buffer ≠ [] := by
    intro hnil
    rw [hnil] at hfull
    exact hfull (by decide)
  obtain ⟨event, buffer, hcons⟩ := List.exists_cons_of_ne_nil hbuffer
  have hreceive := hstuck h
  simp [step, Request.step, Request.receiveEvent, hresponse, hended, hcons, hclosed] at hreceive

theorem offered_of_pushing (hs : FreshRun svc ok s) {k : ℕ} {p : Pushing}
    {todo : List (UInt32 × Event)} {jobs : List Job} {next : Next}
    (hpoint : (s.conns k).point = .events (some p) todo jobs next) :
    (s.life p.request).opened ∧ (s.manager.streams p.request).ended = false := by
  have hcoherent := coherent_of_run hs
  have hnamed := hcoherent.named k
  simp only [Conn.Named, hpoint] at hnamed
  obtain ⟨hown, hid⟩ := hnamed.1 p rfl
  obtain ⟨hreq, -⟩ := hcoherent.owned hown
  obtain ⟨place, hplace⟩ := Option.isSome_iff_exists.mp
    ((s.conns k).view_isSome p.id |>.mpr hid)
  have hview : (s.conns k).view (s.requests p.request).id =
      some (place.1, (Point.events (some p) todo jobs next).outbox p.id) := by
    rw [hreq, hplace]
    obtain ⟨p₀, hp₀, rfl⟩ := Option.map_eq_some_iff.mp hplace
    rw [hpoint]
  have hcarried := carried_of_view hcoherent (hreq.symm ▸ hown) hview
  exact (offered_of_run hs p.request).pushing hcarried (by simp [Point.outbox])

theorem not_pushing (hs : FreshRun svc ok s)
    (hwait : ∀ h, (s.requests h).handler.idle ∨ (s.requests h).handler = .waiting)
    (hstuck : ∀ h, s.step svc (.request h .receiveEvent) = none) {k : ℕ} {p : Pushing}
    (hpoint : (∃ todo jobs next, (s.conns k).point = .events (some p) todo jobs next) ∨
      ∃ todo, (s.conns k).point = .late (some p) todo) :
    s.step svc (.conn k .run) ≠ none := by
  have hoffered : (s.life p.request).opened ∧ (s.manager.streams p.request).ended = false := by
    rcases hpoint with ⟨todo, jobs, next, hp⟩ | ⟨todo, hp⟩
    · exact offered_of_pushing hs hp
    · exact belated_of_run hs k p todo hp
  have hroom := room_of_opened hwait hstuck hoffered.1 hoffered.2
  intro hblocked
  rcases hpoint with ⟨todo, jobs, next, hp⟩ | ⟨todo, hp⟩
  all_goals
    simp only [step, Conn.step, Conn.run, hp, Option.map_eq_none_iff] at hblocked
    split at hblocked
    · cases hblocked
    · next hclosed => simp [hroom (by simpa using hclosed)] at hblocked

def Parked (svc : Service) (s : State) (k : ℕ) : Prop :=
  (s.conns k).point = .collect [] ∧ s.manager.queues (s.conns k).runtime = [] ∨
    ∃ id r jobs next, (s.conns k).point = .sending id r jobs next ∧
      svc.capacity ≤ (s.manager.queues r).length

theorem parked_of_still (hs : FreshRun svc ok s)
    (hwait : ∀ h, (s.requests h).handler.idle ∨ (s.requests h).handler = .waiting)
    (hreceive : ∀ h, s.step svc (.request h .receiveEvent) = none) {k : ℕ}
    (hlive : (s.conns k).live) (hwrite : ∀ items, (s.conns k).point ≠ .write items)
    (hread : ∀ streamed, (s.conns k).point ≠ .read streamed)
    (hrun : s.step svc (.conn k .run) = none) (hrecv : s.step svc (.conn k .recv) = none)
    (htime : s.step svc (.conn k .timeUp) = none) : s.Parked svc k := by
  have hpushing := fun p => not_pushing hs hwait hreceive (k := k) (p := p)
  have hblocked := hrun
  simp only [step, Conn.step, Option.map_eq_none_iff] at hrun hrecv htime
  cases hp : (s.conns k).point with
  | collect ids =>
    cases ids with
    | nil =>
      refine Or.inl ⟨hp, ?_⟩
      cases hqueue : s.manager.queues (s.conns k).runtime with
      | nil => rfl
      | cons id queue => simp [Conn.recv, hp, hqueue] at hrecv
    | cons id ids => simp [Conn.timeUp, hp] at htime
  | write items => exact absurd hp (hwrite items)
  | read streamed => exact absurd hp (hread streamed)
  | sending id r jobs next =>
    refine Or.inr ⟨id, r, jobs, next, hp, ?_⟩
    by_contra hroom
    simp [Conn.run, hp, Nat.lt_of_not_le hroom] at hrun
  | events pushing todo jobs next =>
    cases pushing with
    | some p => exact absurd hblocked (hpushing p (Or.inl ⟨todo, jobs, next, hp⟩))
    | none => cases todo <;> simp [Conn.run, hp] at hrun
  | late pushing todo =>
    cases pushing with
    | some p => exact absurd hblocked (hpushing p (Or.inr ⟨todo, hp⟩))
    | none => cases todo <;> simp [Conn.run, hp] at hrun
  | work jobs next =>
    cases jobs with
    | nil => simp [Conn.run, hp] at hrun
    | cons job jobs =>
      cases job with
      | send id => simp [Conn.run, hp] at hrun
      | notify id =>
        simp only [Conn.run, hp] at hrun
        split at hrun <;> cases hrun
  | signal id h jobs next =>
    simp only [Conn.run, hp] at hrun
    split at hrun <;> cases hrun
  | closed => simp [Conn.live, hp] at hlive
  | panicked => simp [Conn.live, hp] at hlive
  | _ => simp [Conn.run, hp] at hrun

theorem queues_empty (hacyclic : ∀ r, ¬ Relation.TransGen svc.Feeds r r)
    (hwait : ∀ a < svc.runtimes.length, s.manager.queues a ≠ [] →
      ∃ b < svc.runtimes.length, s.manager.queues b ≠ [] ∧ svc.Feeds a b) {r : ℕ}
    (hr : r < svc.runtimes.length) : s.manager.queues r = [] := by
  by_contra hne
  have hfin : {r | r < svc.runtimes.length ∧ s.manager.queues r ≠ []}.Finite :=
    (Set.finite_lt_nat svc.runtimes.length).subset fun _ h => h.1
  obtain ⟨a, -, hcycle⟩ := exists_cycle hfin ⟨r, hr, hne⟩ (R := svc.Feeds) (by
    rintro a ⟨ha, hqueue⟩
    obtain ⟨b, hb, hqueue', hfeeds⟩ := hwait a ha hqueue
    exact ⟨b, ⟨hb, hqueue'⟩, hfeeds⟩)
  exact hacyclic a (Relation.TransGen.mono (fun _ _ h => h.2.2) a a hcycle)

theorem ne_nil_of_full {queue : List UInt32} (hfull : svc.capacity ≤ queue.length) :
    queue ≠ [] := by
  rintro rfl
  exact absurd svc.capacity_pos (by simpa using hfull)

structure Drained (svc : Service) (s : State) : Prop where
  idle : ∀ h, (s.requests h).handler.idle
  queues : ∀ r < svc.runtimes.length, s.manager.queues r = []
  waiting : ∀ k, (s.conns k).live → (s.conns k).point = .collect []

theorem drained_of_exhausted (hs : FreshRun svc (fun _ a => Answered a) s)
    (hstuck : s.Exhausted svc) (hstaffed : s.Staffed svc)
    (hacyclic : ∀ r, ¬ Relation.TransGen svc.Feeds r r) : s.Drained svc := by
  have hidle := fun h => idle_of_still (hstuck (.request h .run) rfl trivial)
    (hstuck (.request h .elapse) rfl trivial)
  have hparked : ∀ k, (s.conns k).live → s.Parked svc k := by
    intro k hlive
    apply parked_of_still hs (fun h => Or.inl (hidle h))
      (fun h => hstuck (.request h .receiveEvent) rfl trivial) hlive
    · intro items hp
      have hwrite := hstuck (.conn k .writeOk) rfl trivial
      simp [step, Conn.step, Conn.writeOk, hp, sound_of_run hs k hlive] at hwrite
    · intro streamed hp
      have hreply := hstuck (.conn k (.readReply .Normal [])) rfl rfl
      simp [step, Conn.step, Conn.readReply, hp, Conn.Names] at hreply
    · exact hstuck _ rfl trivial
    · exact hstuck _ rfl trivial
    · exact hstuck _ rfl trivial
  have hqueues : ∀ r < svc.runtimes.length, s.manager.queues r = [] := by
    refine fun r hr => queues_empty hacyclic ?_ hr
    intro a ha hqueue
    obtain ⟨k, hk, hlive, rfl⟩ := hstaffed a ha
    rcases hparked k hlive with ⟨-, hempty⟩ | ⟨id, r, jobs, next, hp, hfull⟩
    · exact absurd hempty hqueue
    · have hfeeds := feeds_of_sending hs hp
      obtain ⟨key, route, n, hroute, -, hr⟩ := hfeeds
      exact ⟨r, svc.senders_lt hroute (List.mem_of_getElem? hr), ne_nil_of_full hfull,
        feeds_of_sending hs hp⟩
  refine ⟨hidle, hqueues, fun k hlive => ?_⟩
  rcases hparked k hlive with ⟨hp, -⟩ | ⟨id, r, jobs, next, hp, hfull⟩
  · exact hp
  · obtain ⟨key, route, n, hroute, -, hr⟩ := feeds_of_sending hs hp
    exact absurd (hqueues r (svc.senders_lt hroute (List.mem_of_getElem? hr)))
      (ne_nil_of_full hfull)

/-- With workers that answer every batch, routes without a circle and a connection for every
stage, the service comes to its end only with everything served. -/
theorem service_drains (hs : Run svc (fun _ a => Answered a) s) (hlt : s.submitted < 2 ^ 32)
    (hacyclic : ∀ r, ¬ Relation.TransGen svc.Feeds r r) {as : List Action} {t : State}
    (has : ∀ a ∈ as, internal a ∧ Answered a) (hrun : Transition.run (step svc) s as = some t) :
    as.length ≤ s.workload svc ∧ (t.Exhausted svc → t.Staffed svc → t.Drained svc) := by
  have hdescent : ∀ s a s', Run svc (fun _ a => Answered a) s ∧ s.submitted < 2 ^ 32 →
      internal a ∧ Answered a → s.step svc a = some s' →
      (Run svc (fun _ a => Answered a) s' ∧ s'.submitted < 2 ^ 32) ∧
        s'.workload svc < s.workload svc := by
    rintro s a s' ⟨hrun, hlt⟩ ⟨hinternal, hanswered⟩ hstep
    have hfresh := (freshRun_of_submitted hrun hlt).1
    refine ⟨⟨hrun.step hanswered hstep, ?_⟩, workload_lt_of_step hfresh hinternal hstep⟩
    rwa [submitted_of_internal hinternal hstep]
  obtain ⟨⟨ht, hlt'⟩, hlength⟩ := Transition.length_le_of_descent hdescent ⟨hs, hlt⟩
    (Transition.follows_of_all (fun a ha _ => has a ha) s) hrun
  exact ⟨by omega, fun hstuck hstaffed =>
    drained_of_exhausted (freshRun_of_submitted ht hlt').1 hstuck hstaffed hacyclic⟩

theorem settled_of_still (hs : FreshRun svc ok s)
    (hrequests : ∀ h, (s.requests h).handler.idle ∧ (s.requests h).hasResponse = false)
    (hconns : ∀ k < s.connected, (s.conns k).point = .closed ∨
      (s.conns k).point = .collect [] ∧ s.manager.queues (s.conns k).runtime = []) :
    s.Settled svc := by
  intro a ha
  cases a with
  | submit isSse key body => cases ha
  | connect r => cases ha
  | request n act =>
    obtain ⟨hidle, hresponse⟩ := hrequests n
    simp only [step, Request.step, Option.map_eq_none_iff]
    generalize s.requests n = q at hidle hresponse
    cases hq : q.handler <;> rw [hq] at hidle <;> cases act <;>
      simp [Request.run, Request.resume, Request.elapse, Request.disconnect, Request.receiveEvent,
        Request.leave, hq, hresponse] at hidle ⊢ <;> cases hidle
  | conn k act =>
    simp only [step, Option.map_eq_none_iff]
    have hpoint : (s.conns k).point = .closed ∨
        (s.conns k).point = .collect [] ∧ s.manager.queues (s.conns k).runtime = [] := by
      by_cases hk : k < s.connected
      · exact hconns k hk
      · exact Or.inl (by rw [unaccepted_of_run hs k (by omega)]; rfl)
    rcases hpoint with hp | ⟨hp, hqueue⟩
    · cases act <;> simp [Conn.step, Conn.run, Conn.recv, Conn.timeUp, Conn.writeOk,
        Conn.writeErr, Conn.readEvents, Conn.readReply, Conn.readErr, hp]
    · cases act <;> simp [Conn.step, Conn.run, Conn.recv, Conn.timeUp, Conn.writeOk,
        Conn.writeErr, Conn.readEvents, Conn.readReply, Conn.readErr, hp, hqueue]

theorem echo_feeds (a b : ℕ) : ¬ echo.Feeds a b := by
  rintro ⟨key, route, n, hroute, -, hb⟩
  obtain ⟨r, hr, rfl⟩ := Config.mem_routes_of_senders hroute
  obtain rfl := List.mem_singleton.mp hr
  cases hb

def echoRest : List Action := (echoRun [2]).drop 8 ++ [.request 0 .run]

theorem service_drains_echo : ∃ s t,
    Transition.run (step echo) start ((echoRun [2]).take 8) = some s ∧
      Transition.run (step echo) s echoRest = some t ∧ t.Drained echo := by
  have hview : ((Transition.run (step echo) start ((echoRun [2]).take 8)).bind fun s =>
      (Transition.run (step echo) s echoRest).map fun t =>
        ((s.submitted, t.submitted, t.connected), t.requests 0, t.conns 0, t.manager.queues 0)) =
      some ((1, 1, 1), ⟨false, "/", [1], 0, .done (.task ⟨.Normal, [2], 1, "/", 0⟩)⟩,
        ⟨0, [], false, .collect []⟩, []) := by
    decide +kernel
  have hanswers : (echoRun [2] ++ echoRest).all answers = true := by decide +kernel
  have hinternal : echoRest.all internal = true := by decide +kernel
  simp only [List.all_eq_true] at hanswers hinternal
  obtain ⟨s, hs, hrest⟩ := Option.bind_eq_some_iff.mp hview
  obtain ⟨t, ht, hfields⟩ := Option.map_eq_some_iff.mp hrest
  simp only [Prod.mk.injEq] at hfields
  obtain ⟨⟨hbefore, hsubmitted, hconnected⟩, hrequest, hconn, hqueue⟩ := hfields
  have hrun : Run echo (fun _ a => Answered a) s := by
    refine .run .init (Transition.follows_of_all ?_ start) hs
    intro a ha _
    exact answered_of_answers (hanswers a (List.mem_append_left _ (List.mem_of_mem_take ha)))
  have hrest : ∀ a ∈ echoRest, internal a ∧ Answered a := by
    intro a ha
    exact ⟨hinternal a ha, answered_of_answers (hanswers a (List.mem_append_right _ ha))⟩
  have hfollows : Transition.Follows (step echo) (fun _ a => Answered a) s echoRest :=
    Transition.follows_of_all (fun a ha _ => (hrest a ha).2) s
  have hafter : FreshRun echo (fun _ a => Answered a) t :=
    (freshRun_of_submitted (hrun.run hfollows ht) (by rw [hsubmitted]; decide)).1
  have hfirst : ∀ k < t.connected, k = 0 := by
    intro k hk
    omega
  refine ⟨s, t, hs, ht, (service_drains hrun (by rw [hbefore]; decide)
    (fun r hcycle => by cases hcycle <;> exact echo_feeds _ _ ‹_›) hrest ht).2 ?_ ?_⟩
  · refine fun a ha _ => settled_of_still hafter ?_ ?_ a ha
    · intro h
      by_cases hh : h = 0
      · rw [hh, hrequest]
        exact ⟨rfl, rfl⟩
      · rw [(coherent_of_run hafter).absent (by omega)]
        exact ⟨rfl, rfl⟩
    · intro k hk
      rw [hfirst k hk, hconn]
      exact Or.inr ⟨rfl, hqueue⟩
  · intro r hr
    obtain rfl : r = 0 := Nat.lt_one_iff.mp hr
    exact ⟨0, by omega, by simp [hconn, Conn.live], by rw [hconn]⟩

end State

end Mosec
