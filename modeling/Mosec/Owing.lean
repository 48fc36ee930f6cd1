import Mosec.Keeping

namespace Mosec

open Function (update update_self update_of_ne)

namespace Handler

def abandoned : Handler → Bool
  | .dropped => true
  | .panicked => true
  | _ => false

theorem notified_of_owes {handler : Handler} (h : handler.notifying ∨ handler.abandoned) :
    handler.unnotified = false := by
  cases handler <;> first | rfl | (rcases h with h | h <;> cases h)

end Handler

def Point.Takes (h : ℕ) : Point → Prop
  | .check _ h' _ _ => h' = h
  | .signal _ h' _ _ => h' = h
  | _ => False

namespace State

def Silent (m : TaskManager) (h : ℕ) : Prop :=
  (m.oneshots h).sent = false ∧ (m.oneshots h).senderGone = false

/-- Every entry belongs to a handler that still has to remove it, whether or not ids are unique. -/
structure Owing (s : State) : Prop where
  absent : ∀ {h}, s.submitted ≤ h → s.requests h = .absent
  entry : ∀ {i task}, s.manager.table i = some task → (s.requests task.createAt).id = i ∧
    ((s.requests task.createAt).handler.tasked ∨ (s.requests task.createAt).handler.abandoned)
  notifier : ∀ {i h}, s.manager.notifiers i = some h → (s.requests h).id = i ∧
    ((s.requests h).handler.notifying ∨ (s.requests h).handler.abandoned) ∧ Silent s.manager h
  taken : ∀ {k h}, (s.conns k).point.Takes h → (∀ i, s.manager.notifiers i ≠ some h) ∧
    (s.requests h).handler.unnotified = false
  fresh : ∀ {h}, (s.requests h).handler.unnotified → Silent s.manager h

end State

namespace Request.Move

open State (Silent)

variable {svc : Service} {m m' : TaskManager} {h : ℕ} {q q' : Request} {clones : Bool}
  {act : RequestAction}

theorem owes_task (hm : Move svc m h q clones act m' q')
    (hbefore : ∀ {i task}, m.table i = some task → task.createAt = h →
      q.id = i ∧ (q.handler.tasked ∨ q.handler.abandoned)) {i : UInt32} {task : Task}
    (htask : m'.table i = some task) (hcreate : task.createAt = h) :
    q'.id = i ∧ (q'.handler.tasked ∨ q'.handler.abandoned) := by
  have hremoved : (m.removeTask q.id).table i = some task → False := by
    intro htask
    obtain ⟨hi, htask⟩ := of_update_none htask
    exact hi (hbefore htask hcreate).1.symm
  cases hm
  case insertTask hq =>
    rcases of_update_some htask with ⟨hi, -⟩ | ⟨hi, htask⟩
    · exact ⟨hi.symm, Or.inl rfl⟩
    · exact absurd (hbefore htask hcreate).1.symm hi
  case takeTask => exact (hremoved htask).elim
  case deleteTask => exact (hremoved htask).elim
  case missTask hq hnone =>
    obtain ⟨rfl, -⟩ := hbefore htask hcreate
    rw [hnone] at htask
    cases htask
  case receiveEvent => exact hbefore htask hcreate
  case endStream => exact hbefore htask hcreate
  case leave => exact hbefore htask hcreate
  all_goals
    obtain ⟨hid, howes⟩ := hbefore htask hcreate
    rw [‹q.handler = _›] at howes
  case accept => cases q.isSse <;> exact ⟨hid, Or.inl rfl⟩
  case resume => cases q.isSse <;> exact ⟨hid, Or.inl rfl⟩
  case elapse => cases q.isSse <;> exact ⟨hid, Or.inl rfl⟩
  case panic => exact ⟨hid, Or.inr rfl⟩
  case disconnect => exact ⟨hid, Or.inr rfl⟩
  all_goals first
    | exact ⟨hid, Or.inl rfl⟩
    | rcases howes with howes | howes <;> cases howes

theorem unnotified (hm : Move svc m h q clones act m' q') (hq' : q'.handler.unnotified) :
    q.handler.unnotified := by
  cases hm
  case takeId hq =>
    rw [hq]
    rfl
  case accept => cases hs : q.isSse <;> simp [hs, Handler.unnotified] at hq'
  case resume => cases hs : q.isSse <;> simp [hs, Handler.unnotified] at hq'
  case deleteTask exit hq =>
    cases exit <;> cases hs : q.isSse <;> simp [afterDelete, hs, Handler.unnotified] at hq'
  case receiveEvent => exact hq'
  case endStream => exact hq'
  case leave => exact hq'
  all_goals cases hq'

theorem silent (hm : Move svc m h q clones act m' q') {n : ℕ}
    (hn : m.notifiers q.id = some n → m'.notifiers q.id = some n ∧
      (n = h → q.handler ≠ .insertNotifier)) (hsilent : Silent m n) : Silent m' n := by
  have hdrop : m.notifiers q.id ≠ some n → Silent { m with oneshots := m.dropSender q.id } n := by
    intro hne
    change (m.dropSender q.id n).sent = false ∧ (m.dropSender q.id n).senderGone = false
    rw [TaskManager.dropSender]
    cases howner : m.notifiers q.id with
    | none => exact hsilent
    | some n' =>
      have hne' : n ≠ n' := by
        rintro rfl
        exact hne howner
      dsimp only
      rw [update_of_ne hne']
      exact hsilent
  have hclose : Silent (close m h) n := by
    by_cases hnh : n = h
    · subst hnh
      change (update m.oneshots n _ n).sent = false ∧ (update m.oneshots n _ n).senderGone = false
      rw [update_self]
      exact hsilent
    · change (update m.oneshots h _ n).sent = false ∧ (update m.oneshots h _ n).senderGone = false
      rw [update_of_ne hnh]
      exact hsilent
  cases hm
  case insertNotifier hq =>
    apply hdrop
    intro howner
    obtain ⟨hstays, hhandler⟩ := hn howner
    rw [TaskManager.insertNotifier_notifiers, update_self] at hstays
    exact hhandler (Option.some.inj hstays).symm hq
  case deleteNotifier =>
    apply hdrop
    intro howner
    have hstays := (hn howner).1
    rw [TaskManager.deleteNotifier_notifiers, update_self] at hstays
    cases hstays
  case panic => exact hclose
  case elapse => exact hclose
  case disconnect => exact hclose
  all_goals exact hsilent

theorem notifier_cases (hm : Move svc m h q clones act m' q') {i : UInt32} {n : ℕ}
    (hn : m'.notifiers i = some n) :
    m.notifiers i = some n ∨ n = h ∧ q.handler = .insertNotifier := by
  cases hm
  case insertNotifier hq =>
    rcases of_update_some hn with ⟨-, rfl⟩ | ⟨-, hn⟩
    · exact Or.inr ⟨rfl, hq⟩
    · exact Or.inl hn
  case deleteNotifier exit hq => exact Or.inl (of_update_none hn).2
  all_goals exact Or.inl hn

theorem owes_notifier (hm : Move svc m h q clones act m' q')
    (hbefore : ∀ {i}, m.notifiers i = some h → q.id = i ∧
      (q.handler.notifying ∨ q.handler.abandoned) ∧ Silent m h)
    {i : UInt32} (hn : m'.notifiers i = some h) :
    q'.id = i ∧ (q'.handler.notifying ∨ q'.handler.abandoned) := by
  cases hm
  case insertNotifier hq =>
    rcases of_update_some hn with ⟨hi, -⟩ | ⟨hi, hn⟩
    · exact ⟨hi.symm, Or.inl rfl⟩
    · exact absurd (hbefore hn).1.symm hi
  case deleteNotifier exit hq =>
    obtain ⟨hi, hn⟩ := of_update_none hn
    exact absurd (hbefore hn).1.symm hi
  case resume hq hdone =>
    obtain ⟨hid, -, hsent, hgone⟩ := hbefore hn
    rcases hdone with hdone | hdone
    · rw [hsent] at hdone
      cases hdone
    · rw [hgone] at hdone
      cases hdone
  case receiveEvent => exact ⟨(hbefore hn).1, (hbefore hn).2.1⟩
  case endStream => exact ⟨(hbefore hn).1, (hbefore hn).2.1⟩
  case leave => exact ⟨(hbefore hn).1, (hbefore hn).2.1⟩
  all_goals
    obtain ⟨hid, howes, -⟩ := hbefore hn
    rw [‹q.handler = _›] at howes
  case accept => cases q.isSse <;> exact ⟨hid, Or.inl rfl⟩
  case elapse => cases q.isSse <;> exact ⟨hid, Or.inl rfl⟩
  case panic => exact ⟨hid, Or.inr rfl⟩
  case disconnect => exact ⟨hid, Or.inr rfl⟩
  all_goals first
    | exact ⟨hid, Or.inl rfl⟩
    | rcases howes with howes | howes <;> cases howes

end Request.Move

namespace Conn.Move

open State (Silent)

variable {svc : Service} {m m' : TaskManager} {c c' : Conn} {act : ConnAction}
  {touched : List UInt32} {h : ℕ}

theorem silent (hm : Move svc m c act touched m' c') (hnot : ¬ c.point.Takes h)
    (hsilent : Silent m h) : Silent m' h := by
  cases hm
  case signal id n jobs next hp hopen =>
    have hne : h ≠ n := by
      rintro rfl
      rw [hp] at hnot
      exact hnot rfl
    change (update m.oneshots n _ h).sent = false ∧ (update m.oneshots n _ h).senderGone = false
    rw [update_of_ne hne]
    exact hsilent
  all_goals exact hsilent

theorem takes (hm : Move svc m c act touched m' c') (ht : c'.point.Takes h) :
    c.point.Takes h ∨
      ∃ id, m.notifiers id = some h ∧ m'.notifiers = update m.notifiers id none := by
  cases hm
  case recv hp hq hpoint => rcases hpoint with rfl | rfl <;> exact ht.elim
  case fetch items point hpoint hp hitems => rcases hpoint with ⟨-, rfl⟩ | rfl <;> exact ht.elim
  case workDone next hp => cases next <;> exact ht.elim
  case take id n jobs next hp hn =>
    cases ht
    exact Or.inr ⟨id, hn, rfl⟩
  case checkOpen id n jobs next hp hopen =>
    left
    rw [hp]
    exact ht
  all_goals exact ht.elim

end Conn.Move

namespace State

variable {svc : Service} {ok : State → Action → Prop} {s s' : State} {a : Action}

theorem owing_start : start.Owing where
  absent _ := rfl
  entry htask := by cases htask
  notifier hn := by cases hn
  taken ht := ht.elim
  fresh _ := ⟨rfl, rfl⟩

theorem Owing.submit (hs : s.Owing) (isSse : Bool) (key : String) (body : Bytes) :
    (s.submit isSse key body).Owing := by
  obtain ⟨htable, hnotifiers, honeshots⟩ :
      (s.submit isSse key body).manager.table = s.manager.table ∧
        (s.submit isSse key body).manager.notifiers = s.manager.notifiers ∧
        (s.submit isSse key body).manager.oneshots = s.manager.oneshots := by
    change (Request.submit s.manager s.submitted isSse key body).1.table = _ ∧
      (Request.submit s.manager s.submitted isSse key body).1.notifiers = _ ∧
      (Request.submit s.manager s.submitted isSse key body).1.oneshots = _
    rcases submit_manager s.manager s.submitted isSse key body with hm | hm
    · rw [hm]
      exact ⟨rfl, rfl, rfl⟩
    · rw [hm]
      exact ⟨rfl, rfl, rfl⟩
  have habsent := hs.absent (le_refl s.submitted)
  have hother : ∀ {h}, h ≠ s.submitted → (s.submit isSse key body).requests h = s.requests h :=
    fun hh => update_of_ne hh ..
  have hold : ∀ {h}, (s.requests h).handler ≠ .absent →
      (s.submit isSse key body).requests h = s.requests h := by
    intro h hh
    apply hother
    rintro rfl
    exact hh (by rw [habsent]; rfl)
  have hsilent : ∀ {h}, Silent s.manager h → Silent (s.submit isSse key body).manager h := by
    intro h hsilent
    rw [Silent, honeshots]
    exact hsilent
  constructor
  case absent =>
    intro h hh
    change s.submitted + 1 ≤ h at hh
    rw [hother (by omega)]
    exact hs.absent (by omega)
  case entry =>
    intro i task htask
    rw [htable] at htask
    obtain ⟨hid, howes⟩ := hs.entry htask
    rw [hold (by rintro hq; rw [hq] at howes; rcases howes with howes | howes <;> cases howes)]
    exact ⟨hid, howes⟩
  case notifier =>
    intro i h hn
    rw [hnotifiers] at hn
    obtain ⟨hid, howes, hsil⟩ := hs.notifier hn
    rw [hold (by rintro hq; rw [hq] at howes; rcases howes with howes | howes <;> cases howes)]
    exact ⟨hid, howes, hsilent hsil⟩
  case taken =>
    intro k h ht
    obtain ⟨hnone, hq⟩ := hs.taken ht
    rw [hnotifiers, hold (by rintro hq'; rw [hq'] at hq; cases hq)]
    exact ⟨hnone, hq⟩
  case fresh =>
    intro h hq
    apply hsilent
    by_cases hh : h = s.submitted
    · apply hs.fresh
      rw [hh, habsent]
      rfl
    · rw [hother hh] at hq
      exact hs.fresh hq

theorem Owing.request (hs : s.Owing) {h : ℕ} {act : RequestAction} {m : TaskManager}
    {q : Request} (hmove : Request.Move svc s.manager h (s.requests h) (s.clones h) act m q) :
    (s.setRequest h m q).Owing := by
  have hself : (s.setRequest h m q).requests h = q := setRequest_requests_self ..
  have hother : ∀ {n}, n ≠ h → (s.setRequest h m q).requests n = s.requests n :=
    fun hn => setRequest_requests_ne _ _ _ hn
  constructor
  case absent =>
    intro n hn
    have habsent := hs.absent (show s.submitted ≤ n from hn)
    by_cases hnh : n = h
    · exfalso
      subst hnh
      rw [habsent] at hmove
      cases hmove <;> simp_all [Request.absent, Request.hasResponse]
    · rw [hother hnh]
      exact habsent
  case entry =>
    intro i task htask
    by_cases hcreate : task.createAt = h
    · rw [hcreate, hself]
      apply hmove.owes_task ?_ htask hcreate
      rintro i' task' htask' rfl
      exact hs.entry htask'
    · rw [hother hcreate]
      rcases hmove.table htask with htask | ⟨-, hcreate', -⟩
      · exact hs.entry htask
      · exact absurd hcreate' hcreate
  case notifier =>
    intro i n hn
    have howes : ((s.setRequest h m q).requests n).id = i ∧
        (((s.setRequest h m q).requests n).handler.notifying ∨
          ((s.setRequest h m q).requests n).handler.abandoned) := by
      by_cases hnh : n = h
      · subst hnh
        rw [hself]
        exact hmove.owes_notifier hs.notifier hn
      · rw [hother hnh]
        obtain ⟨hid, howes, -⟩ := hs.notifier ((hmove.notifier_cases hn).resolve_right
          fun hnew => hnh hnew.1)
        exact ⟨hid, howes⟩
    refine ⟨howes.1, howes.2, hmove.silent ?_ ?_⟩
    · intro hold
      obtain ⟨hid, howes₀, -⟩ := hs.notifier hold
      have hq : n = h → (s.requests h).handler ≠ .insertNotifier ∧
          (s.requests h).handler ≠ .takeId := by
        rintro rfl
        constructor <;> intro hq <;> rw [hq] at howes₀ <;>
          rcases howes₀ with howes₀ | howes₀ <;> cases howes₀
      refine ⟨?_, fun hnh => (hq hnh).1⟩
      have hsame : ((s.setRequest h m q).requests n).id = (s.requests n).id := by
        by_cases hnh : n = h
        · rw [hnh, hself]
          exact hmove.id (hq hnh).2
        · rw [hother hnh]
      rw [← hid, ← hsame, howes.1]
      exact hn
    · rcases hmove.notifier_cases hn with hold | ⟨rfl, hq⟩
      · exact (hs.notifier hold).2.2
      · apply hs.fresh
        rw [hq]
        rfl
  case taken =>
    intro k n ht
    obtain ⟨hnone, hq⟩ := hs.taken (k := k) ht
    constructor
    · intro i hn
      rcases hmove.notifier_cases hn with hold | ⟨rfl, hq'⟩
      · exact hnone i hold
      · rw [hq'] at hq
        cases hq
    · by_cases hnh : n = h
      · rw [hnh, hself, ← Bool.not_eq_true]
        intro hu
        have hu' := hmove.unnotified hu
        rw [← hnh, hq] at hu'
        cases hu'
      · rw [hother hnh]
        exact hq
  case fresh =>
    intro n hq
    have hq₀ : (s.requests n).handler.unnotified := by
      by_cases hnh : n = h
      · rw [hnh, hself] at hq
        rw [hnh]
        exact hmove.unnotified hq
      · rwa [hother hnh] at hq
    apply hmove.silent ?_ (hs.fresh hq₀)
    intro hold
    have howes := (hs.notifier hold).2.1
    rw [Handler.notified_of_owes howes] at hq₀
    cases hq₀

theorem Owing.conn (hs : s.Owing) {k : ℕ} {act : ConnAction} {m : TaskManager} {c : Conn}
    {touched : List UInt32} (hmove : Conn.Move svc s.manager (s.conns k) act touched m c) :
    (s.setConn k m c).Owing := by
  constructor
  case absent => exact hs.absent
  case entry =>
    intro i task htask
    obtain ⟨task₀, htask₀, hcreate, -⟩ := hmove.table htask
    rw [hcreate]
    exact hs.entry htask₀
  case notifier =>
    intro i h hn
    have hn₀ := hmove.notifiers hn
    obtain ⟨hid, howes, hsil⟩ := hs.notifier hn₀
    refine ⟨hid, howes, hmove.silent ?_ hsil⟩
    intro ht
    exact (hs.taken ht).1 i hn₀
  case taken =>
    intro k' h ht
    have hbefore : (s.conns k').point.Takes h ∨
        ∃ id, s.manager.notifiers id = some h ∧
          m.notifiers = update s.manager.notifiers id none := by
      by_cases hk : k' = k
      · rw [hk, setConn_conns_self] at ht
        rw [hk]
        exact hmove.takes ht
      · rw [setConn_conns_ne _ _ _ hk] at ht
        exact Or.inl ht
    rcases hbefore with ht | ⟨id, hn, hm⟩
    · obtain ⟨hnone, hq⟩ := hs.taken ht
      exact ⟨fun i hi => hnone i (hmove.notifiers hi), hq⟩
    · obtain ⟨hid, howes, -⟩ := hs.notifier hn
      refine ⟨?_, Handler.notified_of_owes howes⟩
      intro i hi
      replace hi : m.notifiers i = some h := hi
      obtain ⟨hid', -, -⟩ := hs.notifier (hmove.notifiers hi)
      rw [hm] at hi
      exact (of_update_none hi).1 (hid'.symm.trans hid)
  case fresh =>
    intro h hq
    apply hmove.silent ?_ (hs.fresh hq)
    intro ht
    have hq' := (hs.taken ht).2
    replace hq : (s.requests h).handler.unnotified := hq
    rw [hq'] at hq
    cases hq

theorem Owing.step (hs : s.Owing) (hstep : s.step svc a = some s') :
    s'.Owing := by
  cases a with
  | submit isSse key body =>
    obtain rfl := Option.some.inj hstep
    exact hs.submit isSse key body
  | request h act =>
    obtain ⟨⟨m, q⟩, hrun, rfl⟩ := Option.map_eq_some_iff.mp hstep
    exact hs.request (Request.move_of_step hrun)
  | connect r =>
    simp only [State.step] at hstep
    split at hstep
    · cases hstep
      refine ⟨hs.absent, hs.entry, hs.notifier, ?_, hs.fresh⟩
      intro k h ht
      by_cases hk : k = s.connected
      · rw [hk, accept_conns_self] at ht
        exact ht.elim
      · rw [accept_conns_ne s r hk] at ht
        exact hs.taken ht
    · cases hstep
  | conn k act =>
    obtain ⟨⟨m, c⟩, hrun, rfl⟩ := Option.map_eq_some_iff.mp hstep
    obtain ⟨touched, hmove⟩ := Conn.move_of_step hrun
    exact hs.conn hmove

theorem owing_of_run (hs : Run svc ok s) : s.Owing := by
  apply Transition.Reachable.invariant owing_start ?_ hs
  intro s a s' hs _ hstep
  exact hs.step hstep

theorem Owing.nothing_left (hs : s.Owing) {h : ℕ} {outcome : Outcome}
    (hq : (s.requests h).handler = .done outcome) :
    (∀ i task, s.manager.table i = some task → task.createAt ≠ h) ∧
      ∀ i, s.manager.notifiers i ≠ some h := by
  constructor
  · rintro i task htask rfl
    have howes := (hs.entry htask).2
    rw [hq] at howes
    rcases howes with howes | howes <;> cases howes
  · intro i hn
    have howes := (hs.notifier hn).2.1
    rw [hq] at howes
    rcases howes with howes | howes <;> cases howes

end State

end Mosec
