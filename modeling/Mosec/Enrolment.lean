import Mosec.Rejection

namespace Mosec

open Function (update update_self update_of_ne)

namespace Handler

def enrolled : Handler → Bool
  | .insertStream => true
  | .count => true
  | .spawn => true
  | .waiting => true
  | .dropped => true
  | _ => false

end Handler

theorem TaskManager.updateTable_createAt (code : TaskCode) (items : List Item)
    (table : UInt32 → Option Task) (i : UInt32) :
    (updateTable code items table i).map Task.createAt = (table i).map Task.createAt := by
  induction items generalizing table with
  | nil => rfl
  | cons item items ih =>
    rw [updateTable, ih]
    by_cases hi : i = item.id
    · rw [hi, update_self, Option.map_map]
      rfl
    · rw [update_of_ne hi]

namespace State

variable {svc : Service} {ok : State → Action → Prop} {s s' t : State} {a : Action} {h : ℕ}
  {i : UInt32}

def Ends (h : ℕ) (i : UInt32) (s : State) : Action → Prop
  | .request n .elapse => n = h
  | .conn k .run => ∃ jobs next, (s.conns k).point = .work (.notify i :: jobs) next
  | _ => False

structure Enrolled (h : ℕ) (i : UInt32) (s : State) : Prop where
  id : (s.requests h).id = i
  handler : (s.requests h).handler.enrolled
  notifier : s.manager.notifiers i = some h
  entry : (s.manager.table i).map Task.createAt = some h

theorem Enrolled.owner (he : s.Enrolled h i) (hs : FreshRun svc ok s) :
    s.manager.owner i = some h :=
  (coherent_of_run hs).notifier he.notifier

theorem Enrolled.of_eq (he : s.Enrolled h i) (hrequest : s'.requests h = s.requests h)
    (hnotifier : s'.manager.notifiers i = s.manager.notifiers i)
    (htable : (s'.manager.table i).map Task.createAt = (s.manager.table i).map Task.createAt) :
    s'.Enrolled h i where
  id := by rw [hrequest, he.id]
  handler := by rw [hrequest, he.handler]
  notifier := by rw [hnotifier, he.notifier]
  entry := by rw [htable, he.entry]

theorem Enrolled.silent (he : s.Enrolled h i) (hs : FreshRun svc ok s) :
    Silent s.manager h :=
  ((owing_of_run hs).notifier he.notifier).2.2

theorem Enrolled.own (he : s.Enrolled h i) (hs : FreshRun svc ok s) {act : RequestAction}
    {m : TaskManager} {q : Request} (hends : act ≠ .elapse)
    (hmove : Request.Move svc s.manager h (s.requests h) (s.clones h) act m q) :
    (s.setRequest h m q).Enrolled h i := by
  have hsilent := he.silent hs
  obtain ⟨hid, hhandler, hnotifier, hentry⟩ := he
  have hkept : ∀ {m : TaskManager} {q : Request}, m.notifiers = s.manager.notifiers →
      m.table = s.manager.table → q.id = (s.requests h).id → q.handler.enrolled →
      (s.setRequest h m q).Enrolled h i := by
    intro m q hn ht hid' hq
    refine ⟨?_, ?_, ?_, ?_⟩
    · rw [setRequest_requests_self, hid', hid]
    · rw [setRequest_requests_self, hq]
    · change m.notifiers i = some h
      rw [hn, hnotifier]
    · change (m.table i).map Task.createAt = some h
      rw [ht, hentry]
  cases hmove
  case insertStream => exact hkept rfl rfl rfl rfl
  case count => exact hkept rfl rfl rfl rfl
  case spawn => exact hkept rfl rfl rfl rfl
  case disconnect => exact hkept rfl rfl rfl rfl
  case receiveEvent => exact hkept rfl rfl rfl hhandler
  case endStream => exact hkept rfl rfl rfl hhandler
  case leave => exact hkept rfl rfl rfl hhandler
  case resume hq hdone =>
    rw [hsilent.1, hsilent.2] at hdone
    rcases hdone with hdone | hdone <;> cases hdone
  case elapse => exact absurd rfl hends
  all_goals
    rw [‹(s.requests h).handler = _›] at hhandler
    cases hhandler

theorem Enrolled.not_remove (he : s.Enrolled h i) (hs : FreshRun svc ok s) {k : ℕ}
    {jobs : List Job} {next : Next} : (s.conns k).point ≠ .remove i jobs next := by
  intro hp
  have hcoherent := coherent_of_run hs
  have hown := he.owner hs
  have hmem : i ∈ (s.conns k).ids := by
    rw [Conn.ids, hp]
    exact List.mem_append_left _ List.mem_cons_self
  have hplace : (s.conns k).place i = some .remove := by
    rw [Conn.place, hp, Point.place, if_pos rfl]
    rfl
  have hcarried : (s.life h).carried = some (.remove, (s.conns k).point.outbox i) := by
    rw [life_carried (by rw [he.id]; exact hown), he.id, carried_conn hcoherent.exclusive hmem,
      Conn.view, hplace]
    rfl
  have hnotifier : (s.life h).notifier = true := by
    rw [life, he.id, he.notifier]
    exact beq_self_eq_true _
  have hfalse := (notified_of_run hs h).untaken hnotifier hcarried
  cases hfalse

theorem Enrolled.conn (he : s.Enrolled h i) (hs : FreshRun svc ok s) {k : ℕ} {act : ConnAction}
    {m : TaskManager} {c : Conn} {touched : List UInt32} (hends : ¬ s.Ends h i (.conn k act))
    (hmove : Conn.Move svc s.manager (s.conns k) act touched m c) :
    (s.setConn k m c).Enrolled h i := by
  have hself : (s.setConn k m c).requests h = s.requests h := rfl
  apply he.of_eq hself
  · change m.notifiers i = _
    cases hmove
    case take id n jobs next hp hn =>
      have hne : i ≠ id := by
        rintro rfl
        exact hends ⟨jobs, next, hp⟩
      exact update_of_ne hne _ _
    all_goals rfl
  · change (m.table i).map _ = _
    cases hmove
    case updateNormal => exact TaskManager.updateTable_createAt ..
    case updateAbnormal => exact TaskManager.updateTable_createAt ..
    case remove id jobs next hp =>
      have hne : i ≠ id := by
        rintro rfl
        exact he.not_remove hs hp
      rw [TaskManager.removeTask_table, update_of_ne hne]
    all_goals rfl

theorem Enrolled.other (he : s.Enrolled h i) (hs : FreshRun svc ok s) {n : ℕ} (hn : n ≠ h)
    {act : RequestAction} {m : TaskManager} {q : Request}
    (hmove : Request.Move svc s.manager n (s.requests n) (s.clones n) act m q) :
    (s.setRequest n m q).Enrolled h i := by
  have hself : (s.setRequest n m q).requests h = s.requests h :=
    setRequest_requests_ne _ _ _ (Ne.symm hn)
  by_cases htake : (s.requests n).handler = .takeId
  · cases hmove
    case takeId => exact he.of_eq hself rfl rfl
    case receiveEvent => exact he.of_eq hself rfl rfl
    case endStream => exact he.of_eq hself rfl rfl
    case leave => exact he.of_eq hself rfl rfl
    all_goals
      rw [‹(s.requests n).handler = _›] at htake
      cases htake
  · obtain ⟨-, hmaps⟩ := request_untouched (coherent_of_run hs) hmove htake (Ne.symm hn)
    obtain ⟨htable, hnotifier, -⟩ := hmaps i (he.owner hs)
    exact he.of_eq hself hnotifier (congrArg (Option.map Task.createAt) htable)

theorem Enrolled.step (he : s.Enrolled h i) (hs : FreshRun svc ok s)
    (hends : ¬ s.Ends h i a) (hstep : s.step svc a = some s') : s'.Enrolled h i := by
  cases a with
  | submit isSse key body =>
    obtain rfl := Option.some.inj hstep
    have hne : h ≠ s.submitted := by
      rintro rfl
      have hhandler := he.handler
      rw [(coherent_of_run hs).absent (le_refl s.submitted)] at hhandler
      cases hhandler
    have hself : (s.submit isSse key body).requests h = s.requests h := update_of_ne hne ..
    have hmanager : (s.submit isSse key body).manager =
        (Request.submit s.manager s.submitted isSse key body).1 := rfl
    rcases submit_manager s.manager s.submitted isSse key body with hm | hm
    · apply he.of_eq hself <;> rw [hmanager, hm]
    · apply he.of_eq hself <;> rw [hmanager, hm] <;> rfl
  | request n act =>
    obtain ⟨⟨m, q⟩, hrun, rfl⟩ := Option.map_eq_some_iff.mp hstep
    have hmove := Request.move_of_step hrun
    by_cases hn : n = h
    · subst hn
      apply he.own hs ?_ hmove
      rintro rfl
      exact hends rfl
    · exact he.other hs hn hmove
  | connect r =>
    simp only [State.step] at hstep
    split at hstep
    · cases hstep
      exact he.of_eq rfl rfl rfl
    · cases hstep
  | conn k act =>
    obtain ⟨⟨m, c⟩, hrun, rfl⟩ := Option.map_eq_some_iff.mp hstep
    obtain ⟨touched, hmove⟩ := Conn.move_of_step hrun
    exact he.conn hs hends hmove

theorem Enrolled.run {as : List Action} (he : s.Enrolled h i)
    (hs : FreshRun svc (fun _ _ => True) s)
    (has : Transition.Follows (State.step svc) (fun s a => s.FreshId a ∧ ¬ s.Ends h i a) s as)
    (hrun : Transition.run (State.step svc) s as = some t) : t.Enrolled h i := by
  induction as generalizing s with
  | nil =>
    cases hrun
    exact he
  | cons a as ih =>
    obtain ⟨s', hs', hrun⟩ := Option.bind_eq_some_iff.mp hrun
    have hnext := hs.step ⟨has.1.1, trivial⟩ hs'
    exact ih (he.step hs has.1.2 hs') hnext (has.2 s' hs') hrun

theorem filed_of_trySend (hs : FreshRun svc ok s) (hq : (s.requests h).handler = .trySend) :
    s.manager.notifiers (s.requests h).id = some h ∧
      (s.manager.table (s.requests h).id).map Task.createAt = some h := by
  have hcoherent := coherent_of_run hs
  have hown := hcoherent.active (h := h) (by rw [hq]; rfl)
  have hnotified := notified_of_run hs h
  have harriving : (s.life h).request.handler.arriving := by
    rw [life, hq]
    rfl
  obtain ⟨hcarried, hunsent⟩ := hnotified.arriving harriving
  constructor
  · rcases hnotified.pending (by rw [life, hq]; rfl) with hu | hn | hsent | ⟨p, outbox, hp, -⟩
    · rw [life, hq] at hu
      cases hu
    · exact eq_of_beq hn
    · rw [hunsent] at hsent
      cases hsent
    · rw [hcarried] at hp
      cases hp
  · have hentry := (filed_of_run hs h).filed (by rw [life, hq]; rfl)
    rw [life_entry hown] at hentry
    obtain ⟨task, htask⟩ := Option.isSome_iff_exists.mp hentry
    have hcreate := hcoherent.entry htask
    rw [hown] at hcreate
    rw [htask, Option.map_some, hcreate]

theorem enrolled_of_trySend (hs : FreshRun svc ok s) (hq : (s.requests h).handler = .trySend)
    (hstep : s.step svc (.request h .run) = some s') {r : ℕ}
    (hqueued : (s.requests h).id ∈ s'.manager.queues r) : s'.Enrolled h (s.requests h).id := by
  have hunheld : (s.requests h).id ∉ s.manager.queues r :=
    (coherent_of_run hs).unheld (by rw [hq]; rfl) (.queue r)
  obtain ⟨hnotifier, hentry⟩ := filed_of_trySend hs hq
  obtain ⟨⟨m, q⟩, hrun, rfl⟩ := Option.map_eq_some_iff.mp hstep
  have hmove := Request.move_of_step hrun
  cases hmove
  case panic => exact absurd hqueued hunheld
  case reject => exact absurd hqueued hunheld
  case accept =>
    refine ⟨?_, ?_, hnotifier, hentry⟩
    · rw [setRequest_requests_self]
    · rw [setRequest_requests_self]
      dsimp only
      split <;> rfl
  all_goals
    rw [‹(s.requests h).handler = _›] at hq
    cases hq

structure AllOrNothing (svc : Service) (h : ℕ) (s : State) : Prop where
  rejected : ∀ as t, (s.requests h).handler = .takeId →
    Transition.Follows (State.step svc) FreshId s (.request h .run :: as) →
    Transition.run (State.step svc) s (.request h .run :: as) = some t →
    (t.requests h).handler.rejected →
      ∃ t', Transition.run (State.step svc) s.advance (as.filter fun a => !a.isOf h) = some t' ∧
        Traceless h t t'
  accepted : ∀ s' r as t, (s.requests h).handler = .trySend →
    s.step svc (.request h .run) = some s' → (s.requests h).id ∈ s'.manager.queues r →
    Transition.Follows (State.step svc)
      (fun x a => x.FreshId a ∧ ¬ x.Ends h (s.requests h).id a) s' as →
    Transition.run (State.step svc) s' as = some t →
      t.manager.notifiers (s.requests h).id = some h ∧
        ∃ task, t.manager.table (s.requests h).id = some task ∧ task.createAt = h

/-- A rejected submission leaves what the others would have made of the maps and the queues, and
an accepted one stays filed until it is completed or expires. -/
theorem add_new_task_all_or_nothing (hs : FreshRun svc (fun _ _ => True) s) (h : ℕ) :
    AllOrNothing svc h s where
  rejected as t hq has hrun hq' := rejected_traceless hs hq has hrun hq'
  accepted s' r as t hq hstep hqueued has hrun := by
    have hfresh : s.FreshId (.request h .run) := by
      rintro n ⟨⟩ htake
      rw [hq] at htake
      cases htake
    have he := (enrolled_of_trySend hs hq hstep hqueued).run (hs.step ⟨hfresh, trivial⟩ hstep) has
      hrun
    obtain ⟨task, htask, hcreate⟩ := Option.map_eq_some_iff.mp he.entry
    exact ⟨he.notifier, task, htask, hcreate⟩

theorem add_new_task_all_or_nothing_full : ∃ s, FreshRun echo (fun _ _ => True) s ∧
    s.manager.queues 0 = [0] ∧ (s.requests 1).handler = .takeId ∧ AllOrNothing echo 1 s := by
  have hrun : ∃ s, Transition.run (State.step echo) start
      [.submit false "/" [1], .request 0 .run, .request 0 .run, .request 0 .run, .request 0 .run,
        .submit false "/" [2]] = some s ∧
      FreshRun echo (fun _ _ => True) s ∧
      (s.manager.queues 0, (s.requests 1).handler) = ([0], .takeId) := by
    have htest : ∀ (s : State) (a : Action), (fun _ _ => true : State → Action → Bool) s a → True :=
      fun _ _ _ => trivial
    exact freshRun_of_checked (n := 2) htest (by decide +kernel) (by decide +kernel) (by decide)
  obtain ⟨s, -, hs, hview⟩ := hrun
  obtain ⟨hqueue, hq⟩ := Prod.mk.inj hview
  exact ⟨s, hs, hqueue, hq, add_new_task_all_or_nothing hs 1⟩

end State

end Mosec
