import Mosec.Leaks
import Mosec.Masking

namespace Mosec

open Function (update update_self update_of_ne)
open TaskManager (Masks)

namespace Handler

def provisional : Handler → Bool
  | .deleteNotifier .rejected => true
  | .deleteTask .rejected => true
  | handler => handler.entering

def rejected : Handler → Bool
  | .uncount (.error .TooManyRequests) => true
  | .done (.error .TooManyRequests) => true
  | _ => false

def refusing (handler : Handler) : Bool :=
  handler.arriving || handler.provisional || handler.rejected

theorem Leads.refusing {a b : Handler} (h : Leads a b) (hb : b.refusing) : a.refusing := by
  cases h
  case deleteNotifier exit => cases exit <;> first | rfl | cases hb
  case uncount outcome =>
    cases outcome with
    | error err => cases err <;> first | rfl | cases hb
    | task => cases hb
    | noData => cases hb
    | stream => cases hb
  all_goals first
    | rfl
    | exact hb

theorem refusing_of_rejected {handler : Handler} (h : handler.rejected) : handler.refusing := by
  rw [refusing, h, Bool.or_true]

theorem active_of_provisional {handler : Handler} (h : handler.provisional) : handler.active := by
  cases handler
  case deleteNotifier => rfl
  case deleteTask => rfl
  all_goals first
    | rfl
    | cases h

end Handler

def Action.isOf (h : ℕ) : Action → Bool
  | .request n _ => n = h
  | _ => false

namespace Life

variable {svc : Service} {lab : Label} {ℓ ℓ' : Life}

def Uncarried (ℓ : Life) : Prop := ℓ.request.handler.refusing → ℓ.carried = none

theorem Uncarried.new (h : ℕ) : (new h).Uncarried := fun _ => rfl

theorem Uncarried.step (h : ℓ.Uncarried) (hs : Step svc lab ℓ ℓ') : ℓ'.Uncarried := by
  intro hq
  rcases hs with hs | hs | ⟨-, hs⟩
  · have hnone := h (hs.leads.refusing hq)
    rcases hs.carried with heq | ⟨-, route, r, -, -, -, hq'⟩
    · exact heq.trans hnone
    · rw [hq'] at hq
      split at hq <;> cases hq
  · obtain ⟨-, hrequest, -⟩ := hs.frame
    obtain ⟨p, outbox, hp⟩ := hs.carried
    rw [hrequest] at hq
    rw [h hq] at hp
    cases hp
  · obtain ⟨events, buffer, rfl⟩ := hs.frame
    exact h hq

end Life

namespace State

variable {svc : Service} {ok : State → Action → Prop} {s s' t : State} {a : Action} {h : ℕ}

theorem uncarried_of_run (hs : FreshRun svc ok s) (h : ℕ) : (s.life h).Uncarried :=
  life_always Life.Uncarried Life.Uncarried.new (fun hlife hinv => hinv.step hlife) hs h

theorem leads_of_step (hs : FreshRun svc ok s) (hfresh : s.FreshId a)
    (hstep : s.step svc a = some s') (h : ℕ) :
    Handler.Leads (s.requests h).handler (s'.requests h).handler := by
  have hstay : (s'.life h).request = (s.life h).request →
      Handler.Leads (s.requests h).handler (s'.requests h).handler := by
    intro hrequest
    replace hrequest : s'.requests h = s.requests h := hrequest
    rw [hrequest]
    exact .stay _
  rcases refines (coherent_of_run hs) (unaccepted_of_run hs) hfresh hstep h with
    heq | ⟨lab, -, hown | hserved | ⟨-, hheard⟩⟩
  · exact hstay (congrArg Life.request heq)
  · exact hown.leads
  · exact hstay hserved.frame.2.1
  · obtain ⟨events, buffer, hlife⟩ := hheard.frame
    exact hstay (by rw [hlife])

theorem unheld_of_refusing (hs : FreshRun svc ok s) (hq : (s.requests h).handler.refusing)
    (hown : s.manager.owner (s.requests h).id = some h) (b : Holder) :
    (s.requests h).id ∉ s.holds b := by
  intro hb
  obtain ⟨p, outbox, hp⟩ := carried_of_held (coherent_of_run hs) hown hb
  rw [uncarried_of_run hs h hq] at hp
  cases hp

theorem not_takes_of_refusing (hs : FreshRun svc ok s) (hq : (s.requests h).handler.refusing)
    (k : ℕ) : ¬ (s.conns k).point.Takes h := by
  have hcoherent := coherent_of_run hs
  have hheld : ∀ {id}, s.manager.owner id = some h → id ∉ (s.conns k).point.ids := by
    intro id hown hid
    obtain ⟨rfl, -⟩ := hcoherent.owned hown
    exact unheld_of_refusing hs hq hown (.conn k) (List.mem_append_left _ hid)
  have hnamed := hcoherent.named k
  intro ht
  cases hp : (s.conns k).point
  case check id h' jobs next =>
    rw [hp] at ht hheld
    obtain rfl : h' = h := ht
    simp only [Conn.Named, hp] at hnamed
    exact hheld hnamed List.mem_cons_self
  case signal id h' jobs next =>
    rw [hp] at ht hheld
    obtain rfl : h' = h := ht
    simp only [Conn.Named, hp] at hnamed
    exact hheld hnamed List.mem_cons_self
  all_goals
    rw [hp] at ht
    exact ht

def mask (s : State) (h : ℕ) : Option UInt32 :=
  if (s.requests h).handler.provisional then some (s.requests h).id else none

theorem mask_of_provisional (hq : (s.requests h).handler.provisional) :
    s.mask h = some (s.requests h).id :=
  if_pos hq

theorem mask_of_rejected (hq : (s.requests h).handler.rejected) : s.mask h = none := by
  apply if_neg
  intro hp
  cases hhandler : (s.requests h).handler <;> rw [hhandler] at hq hp
  all_goals first
    | cases hq
    | cases hp

theorem mask_congr (hq : s'.requests h = s.requests h) : s'.mask h = s.mask h := by
  rw [mask, hq, mask]

/-- The second state is where the other operations alone have come to. -/
structure Shadows (svc : Service) (h : ℕ) (s t : State) : Prop where
  run : FreshRun svc (fun _ _ => True) s
  refused : (s.requests h).handler.provisional ∨ (s.requests h).handler.rejected
  manager : Masks (s.mask h) h s.manager t.manager
  requests : ∀ n, n ≠ h → t.requests n = s.requests n
  submitted : t.submitted = s.submitted
  conns : t.conns = s.conns
  connected : t.connected = s.connected

theorem Shadows.refusing (hst : Shadows svc h s t) : (s.requests h).handler.refusing := by
  rw [Handler.refusing]
  rcases hst.refused with hq | hq
  · rw [hq, Bool.or_true, Bool.true_or]
  · rw [hq, Bool.or_true]

theorem Shadows.mask_ne (hst : Shadows svc h s t) {i : UInt32} {b : Holder}
    (hi : i ∈ s.holds b) : s.mask h ≠ some i := by
  rcases hst.refused with hq | hq
  · rw [mask_of_provisional hq]
    rintro ⟨rfl⟩
    have hown := (coherent_of_run hst.run).active (Handler.active_of_provisional hq)
    exact unheld_of_refusing hst.run hst.refusing hown b hi
  · rw [mask_of_rejected hq]
    rintro ⟨⟩

theorem Shadows.mask_ne_active (hst : Shadows svc h s t) {n : ℕ} (hn : n ≠ h)
    (hq : (s.requests n).handler.active) : s.mask h ≠ some (s.requests n).id := by
  rcases hst.refused with hp | hp
  · rw [mask_of_provisional hp]
    intro hid
    have hne := (coherent_of_run hst.run).active_ne (Handler.active_of_provisional hp) hq hn
    exact hne (Option.some.inj hid).symm
  · rw [mask_of_rejected hp]
    rintro ⟨⟩

theorem Shadows.clones (hst : Shadows svc h s t) (n : ℕ) : t.clones n = s.clones n := by
  rw [State.clones, State.clones, hst.conns, hst.connected]

theorem notifiers_of_deleteTask (hs : FreshRun svc ok s) {exit : Exit}
    (hq : (s.requests h).handler = .deleteTask exit) :
    s.manager.notifiers (s.requests h).id = none := by
  have hcoherent := coherent_of_run hs
  by_contra hsome
  obtain ⟨n, hn⟩ := Option.ne_none_iff_exists'.mp hsome
  have hown := hcoherent.notifier hn
  rw [hcoherent.active (h := h) (by rw [hq]; rfl)] at hown
  obtain rfl := Option.some.inj hown
  have howes := ((owing_of_run hs).notifier hn).2.1
  rw [hq] at howes
  rcases howes with howes | howes <;> cases howes

theorem not_hasResponse_of_refusing {q : Request} (hq : q.handler.refusing) : ¬ q.hasResponse := by
  intro hresponse
  unfold Request.hasResponse at hresponse
  cases hhandler : q.handler <;> simp_all [Handler.refusing, Handler.arriving,
    Handler.provisional, Handler.entering, Handler.rejected]
  all_goals split at hresponse <;> simp_all

section Own

variable {m : TaskManager} {q : Request} {act : RequestAction}

theorem Shadows.own_manager (hst : Shadows svc h s t)
    (hmove : Request.Move svc s.manager h (s.requests h) (s.clones h) act m q)
    (hq : q.handler.refusing) :
    Masks ((s.setRequest h m q).mask h) h m t.manager ∧
      (q.handler.provisional ∨ q.handler.rejected) := by
  have hne : (s.requests h).handler ≠ .takeId := by
    intro htake
    have hrefused := hst.refused
    rw [htake] at hrefused
    rcases hrefused with hrefused | hrefused <;> cases hrefused
  have honeshots : ∀ n, n ≠ h → t.manager.oneshots n = m.oneshots n := by
    intro n hn
    rw [hst.manager.oneshots n hn, (request_untouched (coherent_of_run hst.run) hmove hne hn).1.1]
  have hmask : (s.setRequest h m q).mask h = if q.handler.provisional then some q.id else none := by
    rw [mask, setRequest_requests_self]
  have hprovisional : (s.requests h).handler.provisional → s.mask h = some (s.requests h).id :=
    mask_of_provisional
  rw [hmask]
  obtain ⟨htable, hnotifiers, hsenders, hqueues, hstreams, hcurrent, -⟩ := hst.manager
  cases hmove
  case takeId htake => exact absurd htake hne
  case insertNotifier hq₀ =>
    rw [hprovisional (by rw [hq₀]; rfl)] at htable hnotifiers
    refine ⟨⟨htable, ?_, hsenders, hqueues, hstreams, hcurrent, honeshots⟩, Or.inl rfl⟩
    rw [TaskManager.insertNotifier_notifiers, hnotifiers]
    exact (masked_update_self _).symm
  case insertTask hq₀ =>
    rw [hprovisional (by rw [hq₀]; rfl)] at htable hnotifiers
    refine ⟨⟨?_, hnotifiers, hsenders, hqueues, hstreams, hcurrent, honeshots⟩, Or.inl rfl⟩
    rw [TaskManager.insertTask_table, htable]
    exact (masked_update_self _).symm
  case reject hq₀ =>
    rw [hprovisional (by rw [hq₀]; rfl)] at htable hnotifiers
    exact ⟨⟨htable, hnotifiers, hsenders, hqueues, hstreams, hcurrent, honeshots⟩, Or.inl rfl⟩
  case deleteNotifier exit hq₀ =>
    cases exit
    case rejected =>
      rw [hprovisional (by rw [hq₀]; rfl)] at htable hnotifiers
      refine ⟨⟨htable, ?_, hsenders, hqueues, hstreams, hcurrent, honeshots⟩, Or.inl rfl⟩
      rw [TaskManager.deleteNotifier_notifiers, hnotifiers]
      exact (masked_update_self _).symm
    all_goals cases hq
  case deleteTask exit hq₀ =>
    cases exit
    case rejected =>
      have hnone := notifiers_of_deleteTask hst.run hq₀
      rw [hprovisional (by rw [hq₀]; rfl)] at htable hnotifiers
      rw [masked_of_none hnone] at hnotifiers
      have hend : ((s.requests h).afterDelete .rejected).provisional = false ∧
          ((s.requests h).afterDelete .rejected).rejected := by
        rw [Request.afterDelete]
        split <;> exact ⟨rfl, rfl⟩
      rw [hend.1]
      exact ⟨⟨htable, hnotifiers, hsenders, hqueues, hstreams, hcurrent, honeshots⟩, Or.inr hend.2⟩
    all_goals cases hq
  case uncount outcome hq₀ =>
    cases outcome with
    | error err =>
      cases err with
      | TooManyRequests =>
        rw [mask_of_rejected (by rw [hq₀]; rfl)] at htable hnotifiers
        exact ⟨⟨htable, hnotifiers, hsenders, hqueues, hstreams, hcurrent, honeshots⟩, Or.inr rfl⟩
      | Timeout => cases hq
      | UnknownError => cases hq
    | task => cases hq
    | noData => cases hq
    | stream => cases hq
  case accept => cases hs : (s.requests h).isSse <;> simp only [hs] at hq <;> cases hq
  case resume => cases hs : (s.requests h).isSse <;> simp only [hs] at hq <;> cases hq
  case elapse => cases hs : (s.requests h).isSse <;> simp only [hs] at hq <;> cases hq
  case receiveEvent hresponse _ => exact absurd hresponse (not_hasResponse_of_refusing hq)
  case endStream hresponse _ _ _ => exact absurd hresponse (not_hasResponse_of_refusing hq)
  case leave hresponse => exact absurd hresponse (not_hasResponse_of_refusing hq)
  all_goals cases hq

end Own

theorem Shadows.own (hst : Shadows svc h s t) {act : RequestAction} (hfresh : s.FreshId a)
    (ha : a = .request h act) (hstep : s.step svc a = some s')
    (hq : (s'.requests h).handler.refusing) : Shadows svc h s' t := by
  have hrun := hst.run.step ⟨hfresh, trivial⟩ hstep
  subst ha
  obtain ⟨⟨m, q⟩, hmove, rfl⟩ := Option.map_eq_some_iff.mp hstep
  rw [setRequest_requests_self] at hq
  obtain ⟨hmanager, hrefused⟩ := hst.own_manager (Request.move_of_step hmove) hq
  refine ⟨hrun, ?_, hmanager, ?_, hst.submitted, hst.conns, hst.connected⟩
  · rw [setRequest_requests_self]
    exact hrefused
  · intro n hn
    rw [setRequest_requests_ne _ _ _ hn]
    exact hst.requests n hn

theorem masks_submit {mask : Option UInt32} {m₁ m₂ : TaskManager} (hm : Masks mask h m₁ m₂) (n : ℕ)
    (isSse : Bool) (key : String) (body : Bytes) :
    Masks mask h (Request.submit m₁ n isSse key body).1 (Request.submit m₂ n isSse key body).1 ∧
      (Request.submit m₂ n isSse key body).2 = (Request.submit m₁ n isSse key body).2 := by
  unfold Request.submit
  split
  · exact ⟨hm, rfl⟩
  · split
    · exact ⟨hm, rfl⟩
    · exact ⟨hm.count n 1, rfl⟩

theorem Shadows.submit (hst : Shadows svc h s t) {isSse : Bool} {key : String} {body : Bytes}
    (hrun : FreshRun svc (fun _ _ => True) (s.submit isSse key body)) :
    Shadows svc h (s.submit isSse key body) (t.submit isSse key body) := by
  have hne : h ≠ s.submitted := by
    rintro rfl
    have habsent := (coherent_of_run hst.run).absent (le_refl s.submitted)
    have hrefused := hst.refused
    rw [habsent] at hrefused
    rcases hrefused with hrefused | hrefused <;> cases hrefused
  have hself : (s.submit isSse key body).requests h = s.requests h := update_of_ne hne ..
  obtain ⟨hmanager, hrequest⟩ := masks_submit hst.manager s.submitted isSse key body
  refine ⟨hrun, ?_, ?_, ?_, congrArg (· + 1) hst.submitted, hst.conns, hst.connected⟩
  · rw [hself]
    exact hst.refused
  · rw [mask_congr hself]
    change Masks _ _ _ (Request.submit t.manager t.submitted isSse key body).1
    rw [hst.submitted]
    exact hmanager
  · intro n hn
    change update t.requests t.submitted (Request.submit t.manager t.submitted isSse key body).2 n =
      update s.requests s.submitted (Request.submit s.manager s.submitted isSse key body).2 n
    rw [hst.submitted, hrequest]
    by_cases hsub : n = s.submitted
    · rw [hsub, update_self, update_self]
    · rw [update_of_ne hsub, update_of_ne hsub]
      exact hst.requests n hn

theorem Shadows.request (hst : Shadows svc h s t) {n : ℕ} {act : RequestAction} {m : TaskManager}
    {q : Request} (hn : n ≠ h)
    (hmove : (s.requests n).step svc s.manager n (s.clones n) act = some (m, q))
    (hrun : FreshRun svc (fun _ _ => True) (s.setRequest n m q)) :
    ∃ t', t.step svc (.request n act) = some t' ∧ Shadows svc h (s.setRequest n m q) t' := by
  obtain ⟨m', hmove', hmanager⟩ := Request.masks_step hst.manager hn (hst.mask_ne_active hn) hmove
  have hself : (s.setRequest n m q).requests h = s.requests h :=
    setRequest_requests_ne _ _ _ (Ne.symm hn)
  refine ⟨t.setRequest n m' q, ?_, hrun, ?_, ?_, ?_, hst.submitted, hst.conns, hst.connected⟩
  · rw [State.step, hst.requests n hn, hst.clones, hmove']
    rfl
  · rw [hself]
    exact hst.refused
  · rw [mask_congr hself]
    exact hmanager
  · intro n' hn'
    by_cases hsame : n' = n
    · rw [hsame, setRequest_requests_self, setRequest_requests_self]
    · rw [setRequest_requests_ne _ _ _ hsame, setRequest_requests_ne _ _ _ hsame]
      exact hst.requests n' hn'

theorem Shadows.conn (hst : Shadows svc h s t) {k : ℕ} {act : ConnAction} {m : TaskManager}
    {c : Conn} (hmove : (s.conns k).step svc s.manager act = some (m, c))
    (hrun : FreshRun svc (fun _ _ => True) (s.setConn k m c)) :
    ∃ t', t.step svc (.conn k act) = some t' ∧ Shadows svc h (s.setConn k m c) t' := by
  have hids : ∀ i ∈ (s.conns k).ids, s.mask h ≠ some i := by
    intro i hi
    exact hst.mask_ne (b := .conn k) hi
  obtain ⟨m', hmove', hmanager⟩ := Conn.masks_step hst.manager hids
    (not_takes_of_refusing hst.run hst.refusing k) hmove
  refine ⟨t.setConn k m' c, ?_, hrun, hst.refused, hmanager, hst.requests, hst.submitted, ?_,
    hst.connected⟩
  · rw [State.step, hst.conns, hmove']
    rfl
  · change update t.conns k c = update s.conns k c
    rw [hst.conns]

theorem Shadows.step (hst : Shadows svc h s t)
    (hok : s.FreshId a ∧ ∀ s', s.step svc a = some s' → (s'.requests h).handler.refusing)
    (hstep : s.step svc a = some s') :
    if a.isOf h then Shadows svc h s' t
    else ∃ t', t.step svc a = some t' ∧ Shadows svc h s' t' := by
  have hrun := hst.run.step ⟨hok.1, trivial⟩ hstep
  cases a with
  | submit isSse key body =>
    obtain rfl := Option.some.inj hstep
    exact ⟨_, rfl, hst.submit hrun⟩
  | request n act =>
    by_cases hn : n = h
    · subst hn
      have hof : Action.isOf n (.request n act) := decide_eq_true rfl
      rw [if_pos hof]
      exact hst.own hok.1 rfl hstep (hok.2 s' hstep)
    · rw [if_neg (by simpa [Action.isOf] using hn)]
      obtain ⟨⟨m, q⟩, hmove, rfl⟩ := Option.map_eq_some_iff.mp hstep
      exact hst.request hn hmove hrun
  | connect r =>
    simp only [State.step] at hstep
    split at hstep
    · rename_i hr
      cases hstep
      refine ⟨_, if_pos hr, hrun, hst.refused, hst.manager, hst.requests, hst.submitted, ?_,
        congrArg (· + 1) hst.connected⟩
      change update t.conns t.connected (Conn.accept r) = update s.conns s.connected (Conn.accept r)
      rw [hst.conns, hst.connected]
    · cases hstep
  | conn k act =>
    obtain ⟨⟨m, c⟩, hmove, rfl⟩ := Option.map_eq_some_iff.mp hstep
    exact hst.conn hmove hrun

def advance (s : State) : State :=
  { s with manager := { s.manager with currentId := s.manager.currentId + 1 } }

theorem shadows_takeId (hs : FreshRun svc (fun _ _ => True) s)
    (hq : (s.requests h).handler = .takeId) (hfresh : s.FreshId (.request h .run))
    (hstep : s.step svc (.request h .run) = some s') : Shadows svc h s' s.advance := by
  have hrun := hs.step ⟨hfresh, trivial⟩ hstep
  have hfree : ¬ s.InUse s.manager.currentId := hfresh h rfl hq
  simp only [InUse, not_or, Option.not_isSome_iff_eq_none] at hfree
  obtain ⟨htable, hnotifiers, -⟩ := hfree
  simp only [State.step, Request.step, Request.run, hq, Option.map_some, Option.some.injEq] at hstep
  subst hstep
  have hmask : (s.setRequest h (s.manager.takeId h)
      { s.requests h with id := s.manager.currentId, handler := .insertNotifier }).mask h =
        some s.manager.currentId := by
    rw [mask, setRequest_requests_self]
    rfl
  refine ⟨hrun, ?_, ?_, ?_, rfl, rfl, rfl⟩
  · rw [setRequest_requests_self]
    exact Or.inl rfl
  · rw [hmask]
    exact ⟨(masked_of_none htable).symm, (masked_of_none hnotifiers).symm, rfl, rfl, rfl, rfl,
      fun _ _ => rfl⟩
  · intro n hn
    rw [setRequest_requests_ne _ _ _ hn]
    rfl

/-- The two states differ in the submission `h` alone, which has left nothing behind. -/
structure Traceless (h : ℕ) (s t : State) : Prop where
  table : t.manager.table = s.manager.table
  notifiers : t.manager.notifiers = s.manager.notifiers
  streamSenders : t.manager.streamSenders = s.manager.streamSenders
  queues : t.manager.queues = s.manager.queues
  currentId : t.manager.currentId = s.manager.currentId
  requests : ∀ n, n ≠ h → t.requests n = s.requests n
  conns : t.conns = s.conns

theorem Shadows.traceless (hst : Shadows svc h s t) (hq : (s.requests h).handler.rejected) :
    Traceless h s t := by
  obtain ⟨htable, hnotifiers, hsenders, hqueues, -, hcurrent, -⟩ := hst.manager
  rw [mask_of_rejected hq] at htable hnotifiers
  exact ⟨htable, hnotifiers, hsenders, hqueues, hcurrent, hst.requests, hst.conns⟩

theorem rejected_traceless (hs : FreshRun svc (fun _ _ => True) s) {as : List Action}
    (hq : (s.requests h).handler = .takeId)
    (has : Transition.Follows (step svc) FreshId s (.request h .run :: as))
    (hrun : Transition.run (step svc) s (.request h .run :: as) = some s')
    (hq' : (s'.requests h).handler.rejected) :
    ∃ t', Transition.run (step svc) s.advance (as.filter fun a => !a.isOf h) = some t' ∧
      Traceless h s' t' := by
  obtain ⟨s₁, hs₁, hrun⟩ := Option.bind_eq_some_iff.mp hrun
  have hshadow : Shadows svc h s₁ s.advance := shadows_takeId hs hq has.1 hs₁
  have hback : ∀ s a s', FreshRun svc (fun _ _ => True) s → s.FreshId a ∧ True →
      s.step svc a = some s' → (s'.requests h).handler.refusing →
      (s.requests h).handler.refusing := by
    intro s a s' hs hok hstep hq
    exact (leads_of_step hs hok.1 hstep h).refusing hq
  have hfollows : Transition.Follows (step svc) (fun s a => s.FreshId a ∧ True) s₁ as :=
    (has.2 s₁ hs₁).mono fun _ _ hfresh => ⟨hfresh, trivial⟩
  obtain ⟨-, hpath⟩ := Transition.Reachable.follows_back hback hshadow.run hfollows hrun
    (Handler.refusing_of_rejected hq')
  obtain ⟨t', ht', hshadow'⟩ := Transition.run_erased
    (fun _ _ _ _ hst hok hstep => Shadows.step hst ⟨hok.1.1, hok.2⟩ hstep) hshadow hpath hrun
  exact ⟨t', ht', hshadow'.traceless hq'⟩

end State

end Mosec
