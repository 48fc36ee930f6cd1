import Mosec.Rejection
import Mosec.Spared

namespace Mosec

namespace Handler

def overloaded : Handler → Bool
  | .deleteNotifier .rejected => true
  | .deleteTask .rejected => true
  | handler => handler.rejected

end Handler

theorem Request.Move.overloaded {svc : Service} {m m' : TaskManager} {h : ℕ} {q q' : Request}
    {clones : Bool} {act : RequestAction} (hm : Move svc m h q clones act m' q')
    (hq' : q'.handler.overloaded) : q.handler.overloaded ∨ q.handler = .trySend := by
  cases hm
  case accept hq hkey hr hroom => exact Or.inr hq
  case reject hq => exact Or.inr hq
  case deleteNotifier exit hq =>
    cases exit with
    | rejected => exact Or.inl (by rw [hq]; rfl)
    | expired => cases hq'
    | finished => cases hq'
  case deleteTask exit hq =>
    cases exit with
    | rejected => exact Or.inl (by rw [hq]; rfl)
    | expired => cases hq'
    | finished => cases hq'
  case uncount outcome hq =>
    rw [hq]
    left
    cases outcome with
    | error err => cases err <;> first | rfl | cases hq'
    | task task => cases hq'
    | noData => cases hq'
    | stream => cases hq'
  case resume hq hdone =>
    by_cases hsse : q.isSse <;> simp [hsse, Handler.overloaded, Handler.rejected] at hq'
  case elapse hq =>
    by_cases hsse : q.isSse <;> simp [hsse, Handler.overloaded, Handler.rejected] at hq'
  case receiveEvent => exact Or.inl hq'
  case endStream => exact Or.inl hq'
  case leave => exact Or.inl hq'
  all_goals cases hq'

namespace State

variable {V : Type} {svc : Service} {stages : ℕ → Stage V} {ok : State → Action → Prop}
  {s s' : State} {a : Action}

section Room

theorem queue_lt_submitted (hs : FreshRun svc ok s) {h : ℕ} (hlt : h < s.submitted)
    (hq : (s.requests h).handler = .trySend) (r : ℕ) :
    (s.manager.queues r).length < s.submitted := by
  have hcoherent := coherent_of_run hs
  have hnodup : (s.manager.queues r).Nodup := hcoherent.exclusive.nodup (.queue r)
  have hsub : (s.manager.queues r).toFinset ⊆
      ((Finset.range s.submitted).erase h).image fun n => (s.requests n).id := by
    intro i hi
    have hheld : i ∈ s.holds (.queue r) := List.mem_toFinset.mp hi
    obtain ⟨n, hown⟩ := Option.isSome_iff_exists.mp (hcoherent.held hheld)
    obtain ⟨rfl, hgiven⟩ := hcoherent.owned hown
    refine Finset.mem_image.mpr ⟨n, Finset.mem_erase.mpr ⟨?_, ?_⟩, rfl⟩
    · rintro rfl
      exact hcoherent.unheld (by rw [hq]; rfl) _ hheld
    · rw [Finset.mem_range]
      by_contra hge
      rw [hcoherent.absent (by omega)] at hgiven
      cases hgiven
  have hcard := (Finset.card_le_card hsub).trans Finset.card_image_le
  rw [List.toFinset_card_of_nodup hnodup, Finset.card_erase_of_mem (Finset.mem_range.mpr hlt),
    Finset.card_range] at hcard
  omega

theorem full_of_overloaded {m : TaskManager} {h : ℕ} {q q' : Request} {m' : TaskManager}
    {clones : Bool} {act : RequestAction} (hstep : q.step svc m h clones act = some (m', q'))
    (hq : q.handler = .trySend) (hq' : q'.handler.overloaded) :
    ∃ r, svc.capacity ≤ (m.queues r).length := by
  cases act with
  | run =>
    simp only [Request.step, Request.run, hq] at hstep
    split at hstep
    · cases hstep
      cases hq'
    · next r hr =>
      split at hstep
      · cases hstep
        by_cases hsse : q.isSse <;> simp [hsse, Handler.overloaded, Handler.rejected] at hq'
      · next hfull => exact ⟨r, Nat.le_of_not_lt hfull⟩
  | resume => simp [Request.step, Request.resume, hq] at hstep
  | elapse => simp [Request.step, Request.elapse, hq] at hstep
  | disconnect => simp [Request.step, Request.disconnect, hq] at hstep
  | receiveEvent => simp [Request.step, Request.receiveEvent, Request.hasResponse, hq] at hstep
  | leave => simp [Request.step, Request.leave, Request.hasResponse, hq] at hstep

theorem capacity_lt_of_overloaded (hs : FreshRun svc ok s) {h : ℕ}
    (hq : (s.requests h).handler.overloaded) : svc.capacity < s.submitted := by
  induction hs generalizing h with
  | init => cases hq
  | @step s s' a hrun hok hstep ih =>
    cases a with
    | submit isSse key body =>
      obtain rfl := Option.some.inj hstep
      by_cases hh : h = s.submitted
      · subst hh
        have hnew : (s.submit isSse key body).requests s.submitted =
            (Request.submit s.manager s.submitted isSse key body).2 := Function.update_self _ _ _
        rw [hnew, Request.submit] at hq
        split at hq
        · cases hq
        · split at hq <;> cases hq
      · have hsame : (s.submit isSse key body).requests h = s.requests h :=
          Function.update_of_ne hh _ _
        rw [hsame] at hq
        have hlt := ih hq
        change svc.capacity < s.submitted + 1
        omega
    | request n act =>
      obtain ⟨⟨m, q⟩, hmove, rfl⟩ := Option.map_eq_some_iff.mp hstep
      change svc.capacity < s.submitted
      by_cases hh : h = n
      · subst hh
        have hcoherent := coherent_of_run hrun
        have hafter : (s.setRequest h m q).requests h = q := Function.update_self _ _ _
        rw [hafter] at hq
        rcases (Request.move_of_step hmove).overloaded hq with hbefore | htry
        · exact ih hbefore
        · obtain ⟨r, hfull⟩ := full_of_overloaded hmove htry hq
          have hlt : h < s.submitted := by
            by_contra hge
            rw [hcoherent.absent (by omega)] at htry
            cases htry
          have hroom := queue_lt_submitted hrun hlt htry r
          omega
      · have hsame : (s.setRequest n m q).requests h = s.requests h :=
          Function.update_of_ne hh _ _
        exact ih (hsame ▸ hq)
    | connect r =>
      simp only [State.step] at hstep
      split at hstep
      · obtain rfl := Option.some.inj hstep
        exact ih hq
      · cases hstep
    | conn k act =>
      obtain ⟨⟨m, c⟩, -, rfl⟩ := Option.map_eq_some_iff.mp hstep
      exact ih hq

end Room

def unaided : Action → Bool
  | .request _ .run => true
  | .request _ .resume => true
  | .request _ .receiveEvent => true
  | .conn _ .run => true
  | .conn _ .recv => true
  | .conn _ .timeUp => true
  | _ => false

theorem internal_of_unaided (ha : unaided a) : internal a := by
  cases a with
  | submit isSse key body => cases ha
  | connect r => cases ha
  | request n act => cases act <;> first | rfl | cases ha
  | conn k act => cases act <;> first | rfl | cases ha

/-- No batch is on its way to a worker or with one, and without one nothing moves. -/
structure Resting (svc : Service) (s : State) : Prop where
  still : ∀ a, unaided a → s.step svc a = none
  written : ∀ k items, (s.conns k).point ≠ .write items
  answered : ∀ k streamed, (s.conns k).point ≠ .read streamed

inductive Resolved (svc : Service) (stages : ℕ → Stage V) (s : State) (h : ℕ) : Prop
  | empty : (s.requests h).body = [] → (s.requests h).handler = .done .noData →
      Resolved svc stages s h
  | rejected : svc.capacity < s.submitted →
      (s.requests h).handler = .done (.error .TooManyRequests) → Resolved svc stages s h
  | response {first : ℕ} {rest : List ℕ} : (s.requests h).isSse = false →
      svc.senders (s.requests h).key = some (first :: rest) →
      (s.requests h).response =
        some ⟨200, Stage.compose stages first rest (s.requests h).body⟩ → Resolved svc stages s h
  | stream : (s.requests h).isSse = true → (s.requests h).handler = .done .stream →
      ((s.manager.streams h).ended ∨ (s.manager.streams h).closed) → Resolved svc stages s h

section Resting

variable (hs : FreshRun svc ok s) (hrest : s.Resting svc) (hmanned : s.Manned svc)
  (hacyclic : ∀ r, ¬ Relation.TransGen svc.Feeds r r)

include hs hrest hmanned hacyclic

theorem empty_of_resting : (∀ r < svc.runtimes.length, s.manager.queues r = []) ∧
    (∀ k, (s.conns k).live → (s.conns k).point = .collect []) ∧
    ∀ k, (s.conns k).point.ids = [] ∧ (s.conns k).point.next ≠ .read := by
  have hparked : ∀ k, (s.conns k).live → s.Parked svc k := fun k hlive =>
    parked_of_still hs (fun h => waiting_of_still (hrest.still (.request h .run) rfl))
      (fun h => hrest.still (.request h .receiveEvent) rfl) hlive (hrest.written k)
      (hrest.answered k) (hrest.still _ rfl) (hrest.still _ rfl) (hrest.still _ rfl)
  obtain ⟨hqueues, hwaiting⟩ := waiting_of_parked hs hparked hmanned hacyclic
  refine ⟨hqueues, hwaiting, fun k => ?_⟩
  by_cases hlive : (s.conns k).live
  · rw [hwaiting k hlive]
    exact ⟨rfl, by simp [Point.next]⟩
  · simp only [Conn.live, Bool.and_eq_true, bne_iff_ne, ne_eq, not_and, not_not] at hlive
    by_cases hclosed : (s.conns k).point = .closed
    · rw [hclosed]
      exact ⟨rfl, by simp [Point.next]⟩
    · rw [hlive hclosed]
      exact ⟨rfl, by simp [Point.next]⟩

theorem uncarried_of_resting {h : ℕ} (hreading : s.Reading h) : (s.life h).carried = none := by
  obtain ⟨hqueues, -, hpoints⟩ := empty_of_resting hs hrest hmanned hacyclic
  by_contra hcarried
  obtain ⟨⟨p, outbox⟩, hp⟩ := Option.ne_none_iff_exists'.mp hcarried
  have hown := owner_of_carried hp
  rw [life_carried hown] at hp
  obtain ⟨b, hb⟩ := Custody.exists_of_locate hp
  have hheld : (s.requests h).id ∈ s.holds b := by
    rw [← s.shows_holds b, hb]
    rfl
  cases b with
  | queue r =>
    rw [holds, hqueues r (runtime_of_queued hs hheld)] at hheld
    cases hheld
  | conn k =>
    obtain ⟨hids, hnext⟩ := hpoints k
    rw [holds, Conn.ids, hids, List.nil_append] at hheld
    obtain ⟨item, hitem, hid⟩ := List.mem_map.mp hheld
    exact hnext (hreading k ⟨item, hitem, by rwa [hid]⟩)

theorem ended_of_resting {h : ℕ} (hsse : (s.requests h).isSse = true)
    (hq : (s.requests h).handler = .done .stream) :
    (s.manager.streams h).ended ∨ (s.manager.streams h).closed := by
  obtain ⟨-, hwaiting, -⟩ := empty_of_resting hs hrest hmanned hacyclic
  have hsender : (s.life h).sender = false := by
    apply unlisted_of_run hs h
    change (s.requests h).handler.outcome = _
    rw [hq]
    rfl
  replace hsender : s.manager.streamSenders (s.requests h).id ≠ some h := by
    simpa [life] using hsender
  have hclones : s.clones h = false := by
    rw [clones, List.any_eq_false]
    intro k _ hpushes
    have hlive : (s.conns k).live := by
      cases hp : (s.conns k).point <;> simp_all [Conn.pushesTo, Conn.live]
    simp [Conn.pushesTo, hwaiting k hlive] at hpushes
  have hreceive := hrest.still (.request h .receiveEvent) rfl
  have hresponse : (s.requests h).hasResponse = true := by
    rw [Request.hasResponse, hsse, hq]
    rfl
  by_contra hneither
  rw [not_or, Bool.not_eq_true, Bool.not_eq_true] at hneither
  cases hbuffer : (s.manager.streams h).buffer <;>
    simp [step, Request.step, Request.receiveEvent, hresponse, hneither, hbuffer, hsender,
      hclones] at hreceive

end Resting

section Spared

variable {h : ℕ} (hs : FreshRun svc (Spared svc stages h) s) (hrest : s.Resting svc)
  (hmanned : s.Manned svc) (hacyclic : ∀ r, ¬ Relation.TransGen svc.Feeds r r)

include hs hrest hmanned hacyclic

theorem idle_of_resting : (s.requests h).handler.idle := by
  apply (waiting_of_still (hrest.still (.request h .run) rfl)).resolve_right
  intro hq
  have hlistening : (s.life h).request.handler.listening := by
    change (s.requests h).handler.listening
    rw [hq]
    rfl
  have hsent : (s.manager.oneshots h).sent = true :=
    awaited_of_run hs hlistening
      (uncarried_of_resting hs hrest hmanned hacyclic (reading_of_run hs))
  have hresume := hrest.still (.request h .resume) rfl
  simp [step, Request.step, Request.resume, hq, hsent] at hresume

omit hrest hmanned hacyclic in
theorem data_of_spared (hstages : Stage.Compatible svc stages) {task : Task}
    (htask : (s.requests h).handler.outcome = some (.task task)) : task.code = .Normal ∧
      ∃ first rest, svc.senders (s.requests h).key = some (first :: rest) ∧
        task.data = Stage.compose stages first rest (s.requests h).body := by
  obtain ⟨hsent, rfl⟩ := (concluded_of_run hs h).task htask
  obtain ⟨earlier, code, data, hreplies, -, hend⟩ := (routed_of_run hs h).sent hsent
  have hnormals := normals_of_run hs
  obtain rfl : code = .Normal := hnormals (code, data) (by rw [hreplies]; simp)
  refine ⟨by rw [Life.taskAfter, hreplies, Task.after_append]; rfl, ?_⟩
  obtain ⟨route, hroute, hlength⟩ := hend.resolve_left (not_not_intro rfl)
  have hdata := piped_of_spared hs route hroute hnormals
  cases route with
  | nil => exact absurd hroute (svc.senders_ne_nil _)
  | cons first rest =>
    refine ⟨first, rest, hroute, hdata.trans ?_⟩
    rw [hlength]
    exact Stage.dataAfter_length hstages hroute _

theorem resolved_of_resting (hstages : Stage.Compatible svc stages) (hlt : h < s.submitted) :
    s.Resolved svc stages h := by
  have hidle := idle_of_resting hs hrest hmanned hacyclic
  have hcourse : (s.requests h).onCourse = true := onCourse_of_run hs
  unfold Request.onCourse at hcourse
  cases hq : (s.requests h).handler with
  | done outcome =>
    rw [hq] at hcourse
    cases outcome with
    | noData =>
      refine .empty (refused_of_run hs h ?_) hq
      change (s.requests h).handler.outcome = _
      rw [hq]
      rfl
    | error err =>
      obtain rfl : err = .TooManyRequests := of_decide_eq_true hcourse
      exact .rejected (capacity_lt_of_overloaded hs (by rw [hq]; rfl)) hq
    | stream => exact .stream hcourse hq (ended_of_resting hs hrest hmanned hacyclic hcourse hq)
    | task task =>
      have hsse : (s.requests h).isSse = false := by simpa using hcourse
      have houtcome : (s.requests h).handler.outcome = some (.task task) := by
        rw [hq]
        rfl
      obtain ⟨hcode, first, rest, hroute, hdata⟩ := data_of_spared hs hstages houtcome
      refine .response hsse hroute ?_
      rw [Request.response, hsse, hq]
      simp only [hcode, hdata, TaskCode.status]
  | absent => exact absurd hq (present_of_run hs hlt)
  | dropped =>
    rw [hq] at hcourse
    cases hcourse
  | panicked =>
    rw [hq] at hcourse
    cases hcourse
  | _ =>
    rw [hq] at hidle
    cases hidle

end Spared

/-- A fault hits nobody but those it befalls: whatever happens to the other requests, where the
service can go on no further, a request that nothing went wrong for has got what its route
computes. -/
theorem spared_fulfilled {h : ℕ} (hs : Run svc (Spared svc stages h) s) (hlt : s.submitted < 2 ^ 32)
    (hstages : Stage.Compatible svc stages) (hacyclic : ∀ r, ¬ Relation.TransGen svc.Feeds r r)
    (hrest : s.Resting svc) (hmanned : s.Manned svc) (hh : h < s.submitted) :
    s.Resolved svc stages h :=
  resolved_of_resting (freshRun_of_submitted hs hlt).1 hrest hmanned hacyclic hstages hh

theorem relay_feeds {a b : ℕ} (h : relay.Feeds a b) : a < b := by
  obtain ⟨key, route, n, hroute, ha, hb⟩ := h
  have hroutes : route = [0, 1] ∨ route = [1] := by
    obtain ⟨r, hr, rfl⟩ := Config.mem_routes_of_senders hroute
    rcases List.mem_cons.mp hr with rfl | hr
    · exact Or.inl (by decide)
    · obtain rfl := List.mem_singleton.mp hr
      exact Or.inr (by decide)
  rcases hroutes with rfl | rfl
  · cases n with
    | zero =>
      cases ha
      cases hb
      decide
    | succ n => simp at hb
  · simp at hb

theorem relay_acyclic (r : ℕ) : ¬ Relation.TransGen relay.Feeds r r := by
  intro hcycle
  have hlt : ∀ {a b}, Relation.TransGen relay.Feeds a b → a < b := by
    intro a b h
    induction h with
    | single h => exact relay_feeds h
    | tail _ h ih => exact ih.trans (relay_feeds h)
  exact lt_irrefl r (hlt hcycle)

def serves (stages : ℕ → Stage V) (s : State) (h k : ℕ) : ConnAction → Bool
  | .readReply code items => code == .Normal && (s.conns k).outstanding.all fun sent =>
    s.manager.owner sent.id != some h || items.contains
      { sent with data := (stages (s.conns k).runtime).infer sent.state.toNat sent.data }
  | .readErr _ _ => false
  | _ => true

def spares (svc : Service) (stages : ℕ → Stage V) (h : ℕ) (s : State) : Action → Bool
  | .submit _ key _ => h != s.submitted || (svc.senders key).isSome
  | .request n .elapse => n != h
  | .request n .disconnect => n != h
  | .conn k act => ((s.conns k).outstanding.all (fun item => s.manager.owner item.id != some h) ||
      s.serves stages h k act) &&
    (s.manager.owner (s.requests h).id != some h ||
      !(s.loses svc (.conn k act)).contains (s.requests h).id)
  | _ => true

theorem serves_spec {h k : ℕ} {act : ConnAction} (ht : s.serves stages h k act) :
    s.Serves stages h k act := by
  cases act with
  | readReply code items =>
    simp only [serves, Bool.and_eq_true, beq_iff_eq, List.all_eq_true, Bool.or_eq_true,
      bne_iff_ne, ne_eq, List.contains_iff_mem] at ht
    exact ⟨ht.1, fun sent hsent hown => (ht.2 sent hsent).resolve_left (not_not_intro hown)⟩
  | readErr => cases ht
  | _ => trivial

theorem spared_of_spares {h : ℕ} (ht : s.spares svc stages h a) : s.Spared svc stages h a where
  routed := by
    rintro isSse key body rfl rfl
    simpa [spares] using ht
  served := by
    rintro k act rfl ⟨item, hitem, hown⟩
    simp only [spares, Bool.and_eq_true, Bool.or_eq_true, List.all_eq_true, bne_iff_ne] at ht
    exact serves_spec (ht.1.resolve_left fun hall => hall item hitem hown)
  kept := by
    intro hown hlost
    cases a with
    | conn k act =>
      simp only [spares, Bool.and_eq_true, Bool.or_eq_true, bne_iff_ne, hown, not_true_eq_false,
        ne_eq, false_or, Bool.not_eq_true', List.contains_eq_mem, decide_eq_false_iff_not] at ht
      exact ht.2 hlost
    | _ => cases hlost
  patient := by
    refine ⟨?_, ?_⟩ <;> rintro rfl <;> simp [spares] at ht

def outageRun : List Action := List.flatten [
  [.connect 0, .connect 0, .connect 1, .submit false "/" [5]],
  List.replicate 4 (.request 0 .run),
  [.conn 0 .recv, .conn 0 .run, .conn 0 .writeOk, .submit false "/" [1]],
  List.replicate 4 (.request 1 .run),
  [.conn 1 .recv, .conn 0 (.readErr .Normal []), .request 0 .elapse],
  List.replicate 3 (.request 0 .run),
  [.conn 1 .run, .conn 1 .writeOk, .conn 1 (.readReply .Normal [⟨1, 1, [7, 1, 0]⟩])],
  List.replicate 4 (.conn 1 .run),
  [.conn 2 .recv, .conn 2 .timeUp, .conn 2 .run, .conn 2 .writeOk,
    .conn 2 (.readReply .Normal [⟨1, 2, [1, 0, 1, 0]⟩])],
  List.replicate 6 (.conn 2 .run),
  [.request 1 .resume, .request 1 .run, .request 1 .run]]

theorem resting_of_view (hs : FreshRun svc ok s)
    (hrequests : ∀ h < s.submitted, (s.requests h).handler.idle ∧ (s.requests h).isSse = false)
    (hconns : ∀ k < s.connected, (s.conns k).point = .closed ∨
      (s.conns k).point = .collect [] ∧ s.manager.queues (s.conns k).runtime = []) :
    s.Resting svc := by
  have hsettled : s.Settled svc := by
    apply settled_of_still hs ?_ hconns
    intro h
    by_cases hh : h < s.submitted
    · obtain ⟨hidle, hsse⟩ := hrequests h hh
      exact ⟨hidle, by simp [Request.hasResponse, hsse]⟩
    · rw [(coherent_of_run hs).absent (by omega)]
      exact ⟨rfl, rfl⟩
  have hpoints : ∀ k, (s.conns k).point = .closed ∨ (s.conns k).point = .collect [] := by
    intro k
    by_cases hk : k < s.connected
    · exact (hconns k hk).imp_right And.left
    · rw [unaccepted_of_run hs k (by omega)]
      exact Or.inl rfl
  refine ⟨fun a ha => hsettled a (internal_of_unaided ha), fun k items hp => ?_,
    fun k streamed hp => ?_⟩
  · rcases hpoints k with h | h <;> rw [h] at hp <;> cases hp
  · rcases hpoints k with h | h <;> rw [h] at hp <;> cases hp

theorem spared_fulfilled_outage : ∃ s, Run relay (Spared relay relayStages 1) s ∧
    (s.requests 0).response = some ⟨408, ascii "inference timeout"⟩ ∧
    (s.requests 1).handler.overloaded = false ∧ s.Resolved relay relayStages 1 := by
  have hview : ((Transition.run (step relay) start outageRun).map fun s =>
      ([s.submitted, s.connected], [s.conns 0, s.conns 1, s.conns 2],
        [s.requests 0, s.requests 1], s.manager.queues 0 ++ s.manager.queues 1)) =
      some ([2, 3], [⟨0, [], true, .closed⟩, ⟨0, [], false, .collect []⟩,
        ⟨1, [], false, .collect []⟩],
        [⟨false, "/", [5], 0, .done (.error .Timeout)⟩,
          ⟨false, "/", [1], 1, .done (.task ⟨.Normal, [1, 0, 1, 0], 2, "/", 1⟩)⟩], []) := by
    decide +kernel
  have hchecked : Transition.checked (step relay) (spares relay relayStages 1) start
      outageRun := by
    decide +kernel
  obtain ⟨s, -, hrun, hfields⟩ :=
    Transition.Reachable.of_checked (fun _ _ => spared_of_spares) hchecked hview
  simp only [Prod.mk.injEq, List.cons.injEq, and_true, List.append_eq_nil_iff] at hfields
  obtain ⟨⟨hsubmitted, hconnected⟩, ⟨hzero, hone, htwo⟩, ⟨hlost, hspared⟩, hqueue, hqueue'⟩ :=
    hfields
  have hlt : s.submitted < 2 ^ 32 := by
    rw [hsubmitted]
    decide
  have hrest : s.Resting relay := by
    apply resting_of_view (freshRun_of_submitted hrun hlt).1
    · intro h hh
      obtain rfl | rfl : h = 0 ∨ h = 1 := by omega
      · rw [hlost]
        exact ⟨rfl, rfl⟩
      · rw [hspared]
        exact ⟨rfl, rfl⟩
    · intro k hk
      obtain rfl | rfl | rfl : k = 0 ∨ k = 1 ∨ k = 2 := by omega
      · exact Or.inl (by rw [hzero])
      · exact Or.inr (by rw [hone]; exact ⟨rfl, hqueue⟩)
      · exact Or.inr (by rw [htwo]; exact ⟨rfl, hqueue'⟩)
  have hmanned : s.Manned relay := by
    intro r hr
    replace hr : r < 2 := hr
    obtain rfl | rfl : r = 0 ∨ r = 1 := by omega
    · exact ⟨1, by omega, by rw [hone]; rfl, by rw [hone]⟩
    · exact ⟨2, by omega, by rw [htwo]; rfl, by rw [htwo]⟩
  exact ⟨s, hrun, by rw [hlost]; rfl, by rw [hspared]; rfl,
    spared_fulfilled hrun hlt relayStages_compatible relay_acyclic hrest hmanned (by omega)⟩

end State

end Mosec
