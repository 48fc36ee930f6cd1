import Mosec.Failover
import Mosec.Pipeline

namespace Mosec

def Request.onCourse (q : Request) : Bool :=
  match q.handler with
  | .insertStream => q.isSse
  | .count => q.isSse
  | .spawn => q.isSse
  | .takeTask => !q.isSse
  | .deleteNotifier .finished => q.isSse
  | .deleteNotifier .expired => false
  | .deleteTask .finished => q.isSse
  | .deleteTask .expired => false
  | .deleteStream => q.isSse
  | .uncount (.task _) => !q.isSse
  | .uncount .stream => q.isSse
  | .uncount (.error err) => err = .TooManyRequests
  | .done (.task _) => !q.isSse
  | .done .stream => q.isSse
  | .done (.error err) => err = .TooManyRequests
  | .dropped => false
  | .panicked => false
  | _ => true

namespace Life

variable {svc : Service} {lab : Label} {ℓ ℓ' : Life}

def Unclosed (ℓ : Life) : Prop := ℓ.carried ≠ none → ℓ.oneshot.closed = false

theorem Unclosed.new (h : ℕ) : (new h).Unclosed := fun _ => rfl

theorem Unclosed.own (h : ℓ.Unclosed) (hn : ℓ.Notified) (hs : Own svc lab ℓ ℓ')
    (helapse : lab ≠ .elapse) (hdisconnect : lab ≠ .disconnect) : ℓ'.Unclosed := by
  intro hp
  cases hs
  case insertNotifier hq => exact absurd (hn.arriving (by rw [hq]; rfl)).1 hp
  case panic hq hkey => exact absurd (hn.arriving (by rw [hq]; rfl)).1 hp
  case accept hq hroute hc => exact (hn.awaiting (by rw [hq]; rfl)).1
  case elapse => exact absurd rfl helapse
  case disconnect => exact absurd rfl hdisconnect
  case deleteNotifier exit hq =>
    have hopen := h hp
    by_cases hnotifier : ℓ.notifier <;> simpa [goto, withoutNotifier, hnotifier] using hopen
  all_goals exact h hp

theorem Unclosed.served (h : ℓ.Unclosed) (hs : Served svc lab ℓ ℓ') : ℓ'.Unclosed := by
  obtain ⟨-, -, -, hclosed, -⟩ := hs.frame
  obtain ⟨p, outbox, hp⟩ := hs.carried
  intro _
  rw [hclosed]
  exact h (by simp [hp])

def Awaited (ℓ : Life) : Prop :=
  ℓ.request.handler.listening → ℓ.carried = none → ℓ.oneshot.sent = true

theorem Awaited.new (h : ℕ) : (new h).Awaited := fun hq _ => by cases hq

theorem Awaited.own (h : ℓ.Awaited) (hs : Own svc lab ℓ ℓ') : ℓ'.Awaited := by
  intro hq hp
  rw [hs.sent]
  rcases hs.carried with heq | ⟨-, route, r, -, -, hqueued, -⟩
  · rw [heq] at hp
    have hbefore : ℓ.request.handler.listening → ℓ.oneshot.sent = true := fun hq => h hq hp
    cases hs
    case accept => cases heq ▸ hp
    case resume hq' hdone => exact hbefore (by rw [hq']; rfl)
    case insertStream hq' => exact hbefore (by rw [hq']; rfl)
    case count hq' => exact hbefore (by rw [hq']; rfl)
    case spawn hq' => exact hbefore (by rw [hq']; rfl)
    case receiveEvent => exact hbefore hq
    case endStream => exact hbefore hq
    case leave => exact hbefore hq
    case deleteTask exit hq' =>
      by_cases hsse : ℓ.request.isSse <;> cases exit <;>
        simp [goto, Request.afterDelete, hsse, Handler.listening] at hq
    all_goals cases hq
  · rw [hqueued] at hp
    cases hp

theorem awaited_served (hn : ℓ.Notified) (hf : ℓ.Filed) (hs : Served svc lab ℓ ℓ')
    (hlose : lab ≠ .lose) : ℓ'.Awaited := by
  obtain ⟨-, hrequest, -, -, -⟩ := hs.frame
  intro hq hp
  rw [hrequest] at hq
  have hsome := hf.filed (Handler.filed_of_listening hq)
  have hawaiting := Handler.awaiting_of_listening hq
  cases hs
  case skip hp₀ hnone =>
    rw [hnone] at hsome
    cases hsome
  case ignore hcode hp₀ hnone =>
    rw [hnone] at hsome
    cases hsome
  case sendMissing hp₀ hnone =>
    rw [hnone] at hsome
    cases hsome
  case lose => exact absurd rfl hlose
  case signal => rfl
  case takeMissing hp₀ hnotifier =>
    rcases hn.pending hawaiting with hu | hnotifier' | hsent | ⟨p, outbox, hp', hcompleting⟩
    · generalize ℓ.request.handler = handler at hq hu
      cases handler <;> first | (cases hu; done) | cases hq
    · rw [hnotifier] at hnotifier'
      cases hnotifier'
    · exact hsent
    · rw [hp₀] at hp'
      cases hp'
      cases hcompleting
  case uncountClosed hp₀ =>
    have hclosed := hn.abandoned hp₀ rfl
    rw [(hn.awaiting hawaiting).1] at hclosed
    cases hclosed
  all_goals cases hp

def OnCourse (ℓ : Life) : Prop := ℓ.request.onCourse = true

def Known (svc : Service) (ℓ : Life) : Prop :=
  ℓ.request.handler ≠ .absent → (svc.senders ℓ.request.key).isSome

theorem Known.step (h : ℓ.Known svc) (hs : Step svc lab ℓ ℓ')
    (hlab : ∀ key body, lab = .submit key body → (svc.senders key).isSome) : ℓ'.Known svc := by
  intro hq'
  rcases hs with hs | hs | ⟨-, hs⟩
  · by_cases hq : ℓ.request.handler = .absent
    · cases hs
      case refuse => exact hlab _ _ rfl
      case submit => exact hlab _ _ rfl
      case receiveEvent => exact absurd hq hq'
      case endStream => exact absurd hq hq'
      case leave => exact absurd hq hq'
      all_goals
        rw [‹ℓ.request.handler = _›] at hq
        cases hq
    · rcases hs.request with habsent | ⟨hkey, -⟩
      · exact absurd habsent hq
      · rw [hkey]
        exact h hq
  · rw [hs.frame.2.1] at hq' ⊢
    exact h hq'
  · obtain ⟨events, buffer, rfl⟩ := hs.frame
    exact h hq'

def Unlisted (ℓ : Life) : Prop := ℓ.request.handler.outcome = some .stream → ℓ.sender = false

theorem Unlisted.step (h : ℓ.Unlisted) (hs : Step svc lab ℓ ℓ') : ℓ'.Unlisted := by
  intro hq
  rcases hs with hs | hs | ⟨-, hs⟩
  · cases hs
    case deleteStream => rfl
    case uncount outcome hq₀ => exact h (by rw [hq₀]; exact hq)
    case receiveEvent => exact h hq
    case endStream => exact h hq
    case leave => exact h hq
    case accept hq₀ hroute hc =>
      by_cases hsse : ℓ.request.isSse <;> simp [goto, carry, hsse, Handler.outcome] at hq
    case resume hq₀ hdone =>
      by_cases hsse : ℓ.request.isSse <;> simp [goto, hsse, Handler.outcome] at hq
    case deleteTask exit hq₀ =>
      by_cases hsse : ℓ.request.isSse <;> cases exit <;>
        simp [goto, Request.afterDelete, hsse, Handler.outcome] at hq
    all_goals cases hq
  · obtain ⟨-, hrequest, hsender, -, -⟩ := hs.frame
    rw [hsender]
    exact h (hrequest ▸ hq)
  · obtain ⟨events, buffer, rfl⟩ := hs.frame
    exact h hq

theorem OnCourse.own (h : ℓ.OnCourse) (hf : ℓ.Filed) (hk : ℓ.Known svc) (hs : Own svc lab ℓ ℓ')
    (helapse : lab ≠ .elapse) (hdisconnect : lab ≠ .disconnect) : ℓ'.OnCourse := by
  unfold OnCourse Request.onCourse at h ⊢
  cases hs
  case panic hq hkey =>
    have hknown := hk (by simp [hq])
    rw [hkey] at hknown
    cases hknown
  case elapse => exact absurd rfl helapse
  case disconnect => exact absurd rfl hdisconnect
  case missTask hq hnone =>
    have hsome := hf.filed (by rw [hq]; rfl)
    rw [hnone] at hsome
    cases hsome
  case accept hq hroute hc => by_cases hsse : ℓ.request.isSse <;> simp [goto, carry, hsse]
  case resume hq hdone => by_cases hsse : ℓ.request.isSse <;> simp [goto, hsse]
  case deleteTask exit hq =>
    rw [hq] at h
    by_cases hsse : ℓ.request.isSse <;> cases exit <;>
      simp [goto, Request.afterDelete, hsse] at h ⊢
  case deleteNotifier exit hq =>
    rw [hq] at h
    cases exit <;> first | rfl | exact h
  case uncount outcome hq =>
    rw [hq] at h
    cases outcome <;> first | rfl | exact h
  case receiveEvent => exact h
  case endStream => exact h
  case leave => exact h
  case insertStream hq => rw [hq] at h; exact h
  case count hq => rw [hq] at h; exact h
  case takeTask hq htask => rw [hq] at h; exact h
  case deleteStream hq => rw [hq] at h; exact h
  all_goals rfl

theorem normals_step (h : Normals ℓ.history.replies) (hs : Step svc lab ℓ ℓ')
    (hlab : ∀ code data, lab = .reply code data → code = .Normal) :
    Normals ℓ'.history.replies := by
  rcases hs with hs | hs | ⟨-, hs⟩
  · rw [hs.history.1]
    exact h
  · cases hs
    case readReply r item code data hp =>
      intro reply hreply
      rcases List.mem_append.mp hreply with hreply | hreply
      · exact h reply hreply
      · rw [List.mem_singleton.mp hreply]
        exact hlab code data rfl
    all_goals exact h
  · obtain ⟨events, buffer, rfl⟩ := hs.frame
    exact h

theorem Served.replied (hs : Served svc lab ℓ ℓ') {code : TaskCode} {data : Bytes}
    (hlab : lab = .reply code data) : (∃ r item, ℓ.carried = some (.working r item, .empty)) ∧
      ℓ'.history.replies = ℓ.history.replies ++ [(code, data)] := by
  cases hs
  case readReply r item code' data' hp =>
    cases hlab
    exact ⟨⟨r, item, hp⟩, rfl⟩
  all_goals cases hlab

end Life

namespace State

variable {V : Type} {svc : Service} {stages : ℕ → Stage V} {s s' : State} {a : Action} {h : ℕ}

def With (s : State) (h k : ℕ) : Prop :=
  ∃ item ∈ (s.conns k).outstanding, s.manager.owner item.id = some h

/-- A worker that has the task of `h` answers it, with OK and what its stage computes. -/
def Serves (stages : ℕ → Stage V) (s : State) (h k : ℕ) : ConnAction → Prop
  | .readReply code items => code = .Normal ∧ ∀ sent ∈ (s.conns k).outstanding,
    s.manager.owner sent.id = some h →
      { sent with data := (stages (s.conns k).runtime).infer sent.state.toNat sent.data } ∈ items
  | .readErr _ _ => False
  | _ => True

/-- Nothing goes wrong for one request: it names a route of the configuration, every worker that
has its task serves it, no connection takes it along when it fails, and its client does not give
up. -/
structure Spared (svc : Service) (stages : ℕ → Stage V) (h : ℕ) (s : State) (a : Action) :
    Prop where
  routed : ∀ isSse key body, a = .submit isSse key body → h = s.submitted →
    (svc.senders key).isSome
  served : ∀ k act, a = .conn k act → s.With h k → s.Serves stages h k act
  kept : s.manager.owner (s.requests h).id = some h → (s.requests h).id ∉ s.loses svc a
  patient : a ≠ .request h .elapse ∧ a ≠ .request h .disconnect

theorem unclosed_of_run (hs : FreshRun svc (Spared svc stages h) s) : (s.life h).Unclosed := by
  refine life_invariant_of_step Life.Unclosed Life.Unclosed.new h ?_ hs
  intro s a s' lab hrun hok hstep hlab hlife hinv
  rcases hlife with hlife | hlife | ⟨-, hheard⟩
  · refine hinv.own (notified_of_run hrun h) hlife ?_ ?_
    · rintro rfl
      exact hok.patient.1 hlab
    · rintro rfl
      exact hok.patient.2 hlab
  · exact hinv.served hlife
  · obtain ⟨events, buffer, hafter⟩ := hheard.frame
    rw [hafter]
    exact hinv

theorem awaited_of_run (hs : FreshRun svc (Spared svc stages h) s) : (s.life h).Awaited := by
  refine life_invariant_of_step Life.Awaited Life.Awaited.new h ?_ hs
  intro s a s' lab hrun hok hstep hlab hlife hinv
  rcases hlife with hlife | hlife | ⟨-, hheard⟩
  · exact hinv.own hlife
  · refine Life.awaited_served (notified_of_run hrun h) (filed_of_run hrun h) hlife ?_
    rintro rfl
    obtain ⟨p, outbox, hp⟩ := hlife.carried
    exact hok.kept (owner_of_carried hp) hlab
  · obtain ⟨events, buffer, hafter⟩ := hheard.frame
    rw [hafter]
    exact hinv

theorem known_of_run (hs : FreshRun svc (Spared svc stages h) s) : (s.life h).Known svc := by
  refine life_invariant_of_step (Life.Known svc) (fun _ hq => absurd rfl hq) h ?_ hs
  intro s a s' lab hrun hok hstep hlab hlife hinv
  refine hinv.step hlife ?_
  rintro key body rfl
  obtain ⟨hh, isSse, rfl⟩ := hlab
  exact hok.routed isSse key body rfl hh

theorem onCourse_of_run (hs : FreshRun svc (Spared svc stages h) s) : (s.life h).OnCourse := by
  refine life_invariant_of_step Life.OnCourse (fun _ => rfl) h ?_ hs
  intro s a s' lab hrun hok hstep hlab hlife hinv
  rcases hlife with hlife | hlife | ⟨-, hheard⟩
  · refine hinv.own (filed_of_run hrun h) (known_of_run hrun) hlife ?_ ?_
    · rintro rfl
      exact hok.patient.1 hlab
    · rintro rfl
      exact hok.patient.2 hlab
  · rw [Life.OnCourse, hlife.frame.2.1]
    exact hinv
  · obtain ⟨events, buffer, hafter⟩ := hheard.frame
    rw [hafter]
    exact hinv

theorem unlisted_of_run {ok : State → Action → Prop} (hs : FreshRun svc ok s) (h : ℕ) :
    (s.life h).Unlisted :=
  life_always Life.Unlisted (fun _ hq => by cases hq) (fun hlife hinv => hinv.step hlife) hs h

theorem Spared.reply (hs : s.Spared svc stages h a) (hcoherent : s.Coherent)
    (hstep : s.step svc a = some s') {code : TaskCode} {data : Bytes}
    (hlab : s.Caused svc a h (.reply code data))
    (hlife : Life.Step svc (.reply code data) (s.life h) (s'.life h)) :
    code = .Normal ∧ (s.life h).Computed stages (.reply code data) := by
  obtain ⟨k, items, hact, item, hitem, hid, rfl⟩ := hlab
  obtain ⟨⟨r, item₀, hp⟩, hreplies⟩ : (∃ r item, (s.life h).carried =
      some (.working r item, .empty)) ∧
      (s'.life h).history.replies = (s.life h).history.replies ++ [(code, item.data)] := by
    rcases hlife with hlife | hlife | ⟨hhear, -⟩
    · cases hlife
    · exact hlife.replied rfl
    · cases hhear
  have hown := owner_of_carried hp
  have hwith : Conn.Names items (s.conns k).outstanding →
      ∃ sent ∈ (s.conns k).outstanding, sent.id = item.id ∧ s.manager.owner sent.id = some h := by
    intro hnames
    obtain ⟨sent, hsent, hsentid⟩ := List.mem_map.mp (hnames item hitem)
    exact ⟨sent, hsent, hsentid, by rwa [hsentid, hid]⟩
  rcases hact with rfl | rfl
  · obtain ⟨⟨m, c⟩, hmove, -⟩ := Option.map_eq_some_iff.mp hstep
    obtain ⟨touched, hm⟩ := Conn.move_of_step hmove
    cases hm with
    | readReply hpoint hcode hnames hnodup =>
      obtain ⟨sent, hsent, hsentid, hsentown⟩ := hwith hnames
      obtain ⟨rfl, hall⟩ := hs.served k _ rfl ⟨sent, hsent, hsentown⟩
      have hanswer := hall sent hsent hsentown
      obtain rfl := List.inj_on_of_nodup_map hnodup hitem hanswer hsentid.symm
      refine ⟨rfl, ?_⟩
      intro r' item' outbox hp' _
      rw [life_carried hown, ← hid, ← hsentid, carried_of_outstanding hcoherent hsent] at hp'
      cases hp'
      rfl
  · obtain ⟨⟨m, c⟩, hmove, rfl⟩ := Option.map_eq_some_iff.mp hstep
    obtain ⟨touched, hm⟩ := Conn.move_of_step hmove
    cases hm with
    | readCut hpoint hnames hnodup =>
      obtain ⟨sent, hsent, hsentid, hsentown⟩ := hwith hnames
      exact (hs.served k _ rfl ⟨sent, hsent, hsentown⟩).elim
    | readErr hpoint =>
      replace hreplies : (s.manager.history h).replies =
        (s.manager.history h).replies ++ [(code, item.data)] := hreplies
      simp at hreplies

theorem normals_of_run (hs : FreshRun svc (Spared svc stages h) s) :
    Life.Normals (s.life h).history.replies := by
  refine life_invariant_of_step (fun ℓ => Life.Normals ℓ.history.replies)
    (fun _ reply hreply => by cases hreply) h ?_ hs
  intro s a s' lab hrun hok hstep hlab hlife hinv
  refine Life.normals_step hinv hlife ?_
  rintro code data rfl
  exact (hok.reply (coherent_of_run hrun) hstep hlab hlife).1

theorem piped_of_spared (hs : FreshRun svc (Spared svc stages h) s) :
    (s.life h).Piped svc stages := by
  refine life_invariant_of_step (Life.Piped svc stages) Life.Piped.new h ?_ hs
  intro s a s' lab hrun hok hstep hlab hlife hinv
  refine hinv.step (filed_of_run hrun h) (routed_of_run hrun h) hlife ?_
  cases lab with
  | reply code data => exact (hok.reply (coherent_of_run hrun) hstep hlab hlife).2
  | _ => trivial

def Reading (s : State) (h : ℕ) : Prop := ∀ k, s.With h k → (s.conns k).point.next = .read

theorem Reading.of_eq (hs : s.Reading h) (hconns : s'.conns = s.conns)
    (howner : ∀ k, ∀ item ∈ (s.conns k).outstanding, s'.manager.owner item.id = some h →
      s.manager.owner item.id = some h) : s'.Reading h := by
  rintro k ⟨item, hitem, hown⟩
  rw [hconns] at hitem ⊢
  exact hs k ⟨item, hitem, howner k item hitem hown⟩

theorem Reading.conn (hs : s.Reading h) {k : ℕ} {act : ConnAction} {touched : List UInt32}
    {m' : TaskManager} {c' : Conn} (hok : s.With h k → s.Serves stages h k act)
    (hm : (s.conns k).Move svc s.manager act touched m' c') : (s.setConn k m' c').Reading h := by
  rintro j ⟨item, hitem, hown⟩
  replace hown : s.manager.owner item.id = some h := hm.owner ▸ hown
  by_cases hj : j = k
  · subst hj
    rw [setConn_conns_self] at hitem ⊢
    have hbefore := fun hitem => hs j ⟨item, hitem, hown⟩
    cases hm
    case writeOk => rfl
    case readEvents => rfl
    case readReply hp hcode hnames hnodup =>
      obtain ⟨hmem, hunanswered⟩ := List.mem_filter.mp hitem
      have hanswer := (hok ⟨item, hmem, hown⟩).2 item hmem hown
      exact absurd (List.mem_map_of_mem hanswer) (of_decide_eq_true hunanswered)
    case recv hp hq hpoint =>
      have hread := hbefore hitem
      rw [hp] at hread
      cases hread
    case fetch hpoint hp hitems =>
      have hread := hbefore hitem
      rw [hp] at hread
      cases hread
    case workDone next hp =>
      have hread := hbefore hitem
      rw [hp] at hread
      obtain rfl : next = .read := hread
      rfl
    case writeErr => cases hitem
    case readCut => cases hitem
    case readErr => cases hitem
    case sendPanic => cases hitem
    case signalPanic => cases hitem
    all_goals
      have hread := hbefore hitem
      rw [‹(s.conns j).point = _›] at hread
      exact hread
  · rw [setConn_conns_ne s m' c' hj] at hitem ⊢
    exact hs j ⟨item, hitem, hown⟩

theorem reading_of_run (hs : FreshRun svc (Spared svc stages h) s) : s.Reading h := by
  induction hs with
  | init =>
    rintro k ⟨item, hitem, -⟩
    cases hitem
  | @step s s' a hrun hok hstep ih =>
    cases a with
    | submit isSse key body =>
      obtain rfl := Option.some.inj hstep
      refine ih.of_eq rfl fun k item hitem hown => ?_
      have hmanager : (s.submit isSse key body).manager = s.manager ∨
          (s.submit isSse key body).manager = s.manager.count s.submitted 1 :=
        submit_manager s.manager s.submitted isSse key body
      rcases hmanager with hm | hm <;> rw [hm] at hown <;> exact hown
    | request n act =>
      obtain ⟨⟨m, q⟩, hmove, rfl⟩ := Option.map_eq_some_iff.mp hstep
      have hm := Request.move_of_step hmove
      refine ih.of_eq rfl fun k item hitem hown => ?_
      replace hown : m.owner item.id = some h := hown
      cases hm
      case takeId hq =>
        have hne : item.id ≠ s.manager.currentId := by
          intro heq
          apply hok.1 n rfl hq
          have hheld : item.id ∈ s.holds (.conn k) :=
            List.mem_append_right _ (List.mem_map_of_mem hitem)
          exact Or.inr (Or.inr (Or.inr (Or.inl ⟨.conn k, heq ▸ hheld⟩)))
        replace hown : Function.update s.manager.owner s.manager.currentId (some n) item.id =
          some h := hown
        rwa [Function.update_of_ne hne] at hown
      all_goals exact hown
    | connect r =>
      simp only [State.step] at hstep
      split at hstep
      · obtain rfl := Option.some.inj hstep
        rintro k ⟨item, hitem, hown⟩
        by_cases hk : k = s.connected
        · rw [hk, accept_conns_self] at hitem
          cases hitem
        · rw [accept_conns_ne s r hk] at hitem ⊢
          exact ih k ⟨item, hitem, hown⟩
      · cases hstep
    | conn k act =>
      obtain ⟨⟨m, c⟩, hmove, rfl⟩ := Option.map_eq_some_iff.mp hstep
      obtain ⟨touched, hm⟩ := Conn.move_of_step hmove
      exact ih.conn (hok.2.served k act rfl) hm

end State

end Mosec
