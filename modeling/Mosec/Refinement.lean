import Mosec.ServedRefinement

namespace Mosec.State

open Function (update update_self update_of_ne)

variable {svc : Service} {s : State} {h n : ℕ} {m' : TaskManager} {q' : Request} {clones : Bool}
  {act : RequestAction}

theorem life_setRequest_self :
    (s.setRequest h m' q').life h =
      { self := h
        request := q'
        entry := if m'.owner q'.id = some h then m'.table q'.id else none
        notifier := m'.notifiers q'.id == some h
        sender := m'.streamSenders q'.id == some h
        carried := if m'.owner q'.id = some h then (s.setRequest h m' q').carried q'.id else none
        oneshot := m'.oneshots h
        stream := m'.streams h
        history := m'.history h } := by
  simp only [life, setRequest_requests_self]
  rfl

theorem setRequest_carried {i : UInt32}
    (hq : ∀ r, i ∈ m'.queues r ↔ i ∈ s.manager.queues r) :
    (s.setRequest h m' q').carried i = s.carried i := by
  apply carried_congr
  intro a
  cases a with
  | queue r =>
    have hr := hq r
    simp only [shows]
    change (if i ∈ m'.queues r then _ else _) = _
    simp only [hr]
  | conn k => rfl

theorem dropSender_apply (m : TaskManager) (i : UInt32) (h : ℕ) :
    m.dropSender i h = if m.notifiers i == some h then { m.oneshots h with senderGone := true }
      else m.oneshots h := by
  unfold TaskManager.dropSender
  cases hn : m.notifiers i with
  | none => rfl
  | some n =>
    by_cases hnh : n = h
    · subst hnh
      simp
    · simp [hnh, update_of_ne (Ne.symm hnh)]

theorem request_untouched (hs : s.Coherent)
    (hm : Request.Move svc s.manager h (s.requests h) clones act m' q')
    (hne : (s.requests h).handler ≠ .takeId) (hnh : n ≠ h) :
    (m'.oneshots n = s.manager.oneshots n ∧ m'.streams n = s.manager.streams n ∧
      m'.history n = s.manager.history n) ∧
    ∀ i, s.manager.owner i = some n → m'.table i = s.manager.table i ∧
      m'.notifiers i = s.manager.notifiers i ∧ m'.streamSenders i = s.manager.streamSenders i ∧
      ∀ r, i ∈ m'.queues r ↔ i ∈ s.manager.queues r := by
  have hactive : (s.requests h).handler.active →
      ∀ i, s.manager.owner i = some n → i ≠ (s.requests h).id := by
    rintro hact i hown rfl
    rw [hs.active hact] at hown
    exact hnh (Option.some.inj hown).symm
  have hdrop : (s.requests h).handler.active →
      s.manager.dropSender (s.requests h).id n = s.manager.oneshots n := by
    intro hact
    rw [dropSender_apply, if_neg]
    rw [beq_iff_eq]
    intro hn
    exact hactive hact _ (hs.notifier hn) rfl
  cases hm
  case takeId hq => exact absurd hq hne
  case insertNotifier hq =>
    have hact : (s.requests h).handler.active := by simp [hq, Handler.active]
    refine ⟨⟨hdrop hact, rfl, rfl⟩, fun i hown => ⟨rfl, ?_, rfl, fun r => Iff.rfl⟩⟩
    rw [TaskManager.insertNotifier_notifiers, update_of_ne (hactive hact i hown)]
  case insertTask hq =>
    have hact : (s.requests h).handler.active := by simp [hq, Handler.active]
    refine ⟨⟨rfl, rfl, rfl⟩, fun i hown => ⟨?_, rfl, rfl, fun r => Iff.rfl⟩⟩
    rw [TaskManager.insertTask_table, update_of_ne (hactive hact i hown)]
  case panic =>
    exact ⟨⟨update_of_ne hnh _ _, rfl, rfl⟩, fun i _ => ⟨rfl, rfl, rfl, fun r => Iff.rfl⟩⟩
  case accept route r hq _ _ _ =>
    have hact : (s.requests h).handler.active := by simp [hq, Handler.active]
    refine ⟨⟨rfl, rfl, rfl⟩, fun i hown => ⟨rfl, rfl, rfl, fun r' => ?_⟩⟩
    by_cases hr : r' = r
    · have hid := hactive hact i hown
      subst hr
      simp [hid]
    · simp [hr]
  case insertStream hq =>
    have hact : (s.requests h).handler.active := by simp [hq, Handler.active]
    refine ⟨⟨rfl, rfl, rfl⟩, fun i hown => ⟨rfl, rfl, ?_, fun r => Iff.rfl⟩⟩
    rw [TaskManager.insertStream_streamSenders, update_of_ne (hactive hact i hown)]
  case count =>
    exact ⟨⟨rfl, rfl, update_of_ne hnh _ _⟩, fun i _ => ⟨rfl, rfl, rfl, fun r => Iff.rfl⟩⟩
  case takeTask hq _ =>
    have hact : (s.requests h).handler.active := by simp [hq, Handler.active]
    refine ⟨⟨rfl, rfl, rfl⟩, fun i hown => ⟨?_, rfl, rfl, fun r => Iff.rfl⟩⟩
    rw [TaskManager.removeTask_table, update_of_ne (hactive hact i hown)]
  case deleteNotifier hq =>
    have hact : (s.requests h).handler.active := by simp [hq, Handler.active]
    refine ⟨⟨hdrop hact, rfl, rfl⟩, fun i hown => ⟨rfl, ?_, rfl, fun r => Iff.rfl⟩⟩
    rw [TaskManager.deleteNotifier_notifiers, update_of_ne (hactive hact i hown)]
  case deleteTask hq =>
    have hact : (s.requests h).handler.active := by simp [hq, Handler.active]
    refine ⟨⟨rfl, rfl, rfl⟩, fun i hown => ⟨?_, rfl, rfl, fun r => Iff.rfl⟩⟩
    rw [TaskManager.removeTask_table, update_of_ne (hactive hact i hown)]
  case deleteStream hq =>
    have hact : (s.requests h).handler.active := by simp [hq, Handler.active]
    refine ⟨⟨rfl, rfl, rfl⟩, fun i hown => ⟨rfl, rfl, ?_, fun r => Iff.rfl⟩⟩
    rw [TaskManager.removeStream_streamSenders, update_of_ne (hactive hact i hown)]
  case uncount =>
    exact ⟨⟨rfl, rfl, update_of_ne hnh _ _⟩, fun i _ => ⟨rfl, rfl, rfl, fun r => Iff.rfl⟩⟩
  case elapse =>
    exact ⟨⟨update_of_ne hnh _ _, rfl, rfl⟩, fun i _ => ⟨rfl, rfl, rfl, fun r => Iff.rfl⟩⟩
  case disconnect =>
    exact ⟨⟨update_of_ne hnh _ _, rfl, rfl⟩, fun i _ => ⟨rfl, rfl, rfl, fun r => Iff.rfl⟩⟩
  case receiveEvent =>
    exact ⟨⟨rfl, update_of_ne hnh _ _, rfl⟩, fun i _ => ⟨rfl, rfl, rfl, fun r => Iff.rfl⟩⟩
  case endStream =>
    exact ⟨⟨rfl, update_of_ne hnh _ _, rfl⟩, fun i _ => ⟨rfl, rfl, rfl, fun r => Iff.rfl⟩⟩
  case leave =>
    exact ⟨⟨rfl, update_of_ne hnh _ _, rfl⟩, fun i _ => ⟨rfl, rfl, rfl, fun r => Iff.rfl⟩⟩
  all_goals exact ⟨⟨rfl, rfl, rfl⟩, fun i _ => ⟨rfl, rfl, rfl, fun r => Iff.rfl⟩⟩

theorem life_setRequest_ne (hs : s.Coherent) (hs' : (s.setRequest h m' q').Coherent)
    (hm : Request.Move svc s.manager h (s.requests h) clones act m' q')
    (hne : (s.requests h).handler ≠ .takeId) (hnh : n ≠ h) :
    (s.setRequest h m' q').life n = s.life n := by
  obtain ⟨hch, hmaps⟩ := request_untouched hs hm hne hnh
  have howner : (s.setRequest h m' q').manager.owner = s.manager.owner := hm.owner hne
  have hreq : (s.setRequest h m' q').requests n = s.requests n :=
    s.setRequest_requests_ne m' q' hnh
  simp only [life, howner, hreq]
  by_cases hown : s.manager.owner (s.requests n).id = some n
  · obtain ⟨htable, hnot, hsen, hq⟩ := hmaps _ hown
    have htable' : (s.setRequest h m' q').manager.table (s.requests n).id = _ := htable
    have hnot' : (s.setRequest h m' q').manager.notifiers (s.requests n).id = _ := hnot
    have hsen' : (s.setRequest h m' q').manager.streamSenders (s.requests n).id = _ := hsen
    simp only [htable', hnot', hsen', setRequest_carried hq]
    congr 1
    · exact hch.1
    · exact hch.2.1
    · exact hch.2.2
  · have hnot : s.manager.notifiers (s.requests n).id ≠ some n := fun hn => hown (hs.notifier hn)
    have hnot' : (s.setRequest h m' q').manager.notifiers (s.requests n).id ≠ some n := fun hn =>
      hown (howner ▸ hs'.notifier hn)
    have hsen : s.manager.streamSenders (s.requests n).id ≠ some n := fun hn => hown (hs.sender hn)
    have hsen' : (s.setRequest h m' q').manager.streamSenders (s.requests n).id ≠ some n :=
      fun hn => hown (howner ▸ hs'.sender hn)
    simp only [if_neg hown, beq_false_of_ne hnot, beq_false_of_ne hnot', beq_false_of_ne hsen,
      beq_false_of_ne hsen']
    congr 1
    · exact hch.1
    · exact hch.2.1
    · exact hch.2.2

theorem life_takeId_ne (hfresh : ¬ s.InUse s.manager.currentId) {q : Request}
    (hnh : n ≠ h) : (s.setRequest h (s.manager.takeId h) q).life n = s.life n := by
  simp only [InUse, not_or, not_exists, Option.not_isSome_iff_eq_none] at hfresh
  obtain ⟨htable, hnot, hsen, hheld, -⟩ := hfresh
  have hreq : (s.setRequest h (s.manager.takeId h) q).requests n = s.requests n :=
    s.setRequest_requests_ne _ q hnh
  have hcarried : ∀ i, (s.setRequest h (s.manager.takeId h) q).carried i = s.carried i := fun i =>
    setRequest_carried fun r => Iff.rfl
  simp only [life, hreq, hcarried]
  by_cases hcur : (s.requests n).id = s.manager.currentId
  · have howner : (s.setRequest h (s.manager.takeId h) q).manager.owner (s.requests n).id =
        some h := by
      rw [hcur]
      exact update_self _ _ _
    have hne : ¬ some h = some n := fun heq => hnh (Option.some.inj heq).symm
    have hnone : s.manager.table (s.requests n).id = none := by rw [hcur, htable]
    have hgone : s.carried (s.requests n).id = none := by rw [hcur, carried_none hheld]
    simp only [howner, hne, if_false, hnone, hgone, ite_self]
    rfl
  · have howner : (s.setRequest h (s.manager.takeId h) q).manager.owner (s.requests n).id =
        s.manager.owner (s.requests n).id := update_of_ne hcur _ _
    simp only [howner]
    rfl

section Own

variable (hs : s.Coherent)

include hs in
theorem step_takeId (hq : (s.requests h).handler = .takeId)
    (hfresh : ¬ s.InUse s.manager.currentId) :
    Life.Own svc .act (s.life h) ((s.setRequest h (s.manager.takeId h)
      { s.requests h with id := s.manager.currentId, handler := .insertNotifier }).life h) := by
  simp only [InUse, not_or, not_exists, Option.not_isSome_iff_eq_none] at hfresh
  obtain ⟨htable, hnot, hsen, hheld, -⟩ := hfresh
  have hown : s.manager.owner (s.requests h).id ≠ some h := by
    intro hown
    have hgiven := (hs.owned hown).2
    simp [hq, Handler.given] at hgiven
  have hnot₀ : (s.manager.notifiers (s.requests h).id == some h) = false :=
    beq_false_of_ne fun hn => hown (hs.notifier hn)
  have hsen₀ : (s.manager.streamSenders (s.requests h).id == some h) = false :=
    beq_false_of_ne fun hn => hown (hs.sender hn)
  have hcarried : (s.setRequest h (s.manager.takeId h) { s.requests h with
      id := s.manager.currentId, handler := .insertNotifier }).carried s.manager.currentId =
        none := by
    rw [setRequest_carried (by intro r; rfl), carried_none hheld]
  have hstep : Life.Own svc _ (s.life h) _ := .takeId s.manager.currentId hq
  rw [life_setRequest_self]
  simp only [hcarried]
  simp only [TaskManager.takeId, htable, hnot, hsen, ite_self]
  simpa [life, hown, hnot₀, hsen₀] using hstep

include hs in
theorem pushing_of_clones (hconns : s.Unaccepted) (hclones : s.clones h = false) {p : Place}
    {outbox : Outbox} (hcar : (s.life h).carried = some (p, outbox)) : outbox.pushing = none := by
  have hown := owner_of_carried hcar
  rcases shown_of_carried hcar with ⟨r, heq⟩ | ⟨k, hview⟩
  · obtain ⟨-, rfl⟩ := Prod.mk.inj heq
    rfl
  · have hk : k < s.connected := by
      by_contra hge
      rw [hconns k (by omega)] at hview
      simp [Conn.view, Conn.place, Conn.absent, Point.place, Point.itemOf] at hview
    obtain ⟨place, -, hpair⟩ := Option.map_eq_some_iff.mp hview
    obtain ⟨rfl, rfl⟩ := Prod.mk.inj hpair
    by_contra hpushing
    have hnamed := hs.named k
    have hclone : (s.conns k).pushesTo h := by
      cases hpoint : (s.conns k).point with
      | events pushing todo jobs next =>
        simp only [Conn.Named, hpoint] at hnamed
        simp only [hpoint, Point.outbox, Option.map_eq_none_iff] at hpushing
        obtain ⟨q, hq⟩ := Option.ne_none_iff_exists'.mp hpushing
        obtain ⟨rfl, hid⟩ := Option.filter_eq_some_iff.mp hq
        have howner := (hnamed.1 q rfl).1
        rw [of_decide_eq_true hid, hown] at howner
        simp [Conn.pushesTo, hpoint, Option.some.inj howner]
      | _ => simp [hpoint, Point.outbox, Outbox.empty] at hpushing
    rw [clones, List.any_eq_false] at hclones
    exact hclones k (List.mem_range.mpr hk) hclone

include hs in
theorem own_refines (hs' : (s.setRequest h m' q').Coherent)
    (hm : Request.Move svc s.manager h (s.requests h) clones act m' q')
    (hne : (s.requests h).handler ≠ .takeId) (hconns : s.Unaccepted)
    (hclones : clones = s.clones h) :
    ∃ lab, Caused svc s (.request h act) h lab ∧
      Life.Own svc lab (s.life h) ((s.setRequest h m' q').life h) := by
  have hown : (s.requests h).handler.active → s.manager.owner (s.requests h).id = some h :=
    fun hact => hs.active hact
  have hcarried : ∀ {m' : TaskManager} {q' : Request} (i : UInt32),
      m'.queues = s.manager.queues → (s.setRequest h m' q').carried i = s.carried i :=
    fun i hq => setRequest_carried fun r => by rw [hq]
  rw [life_setRequest_self]
  cases hm
  case takeId hq => exact absurd hq hne
  case insertNotifier hq =>
    have hown := hown (by simp [hq, Handler.active])
    refine ⟨.act, trivial, ?_⟩
    rw [hcarried _ (by rfl)]
    have hstep : Life.Own svc _ (s.life h) _ := .insertNotifier hq
    simpa [life, hown, Life.withoutNotifier, Life.goto, TaskManager.insertNotifier,
      dropSender_apply] using hstep
  case insertTask hq =>
    have hown := hown (by simp [hq, Handler.active])
    refine ⟨.act, trivial, ?_⟩
    rw [hcarried _ (by rfl)]
    have hstep : Life.Own svc _ (s.life h) _ := .insertTask hq
    simpa [life, hown, Life.goto, TaskManager.insertTask] using hstep
  case panic hq hroute =>
    have hown := hown (by simp [hq, Handler.active])
    refine ⟨.act, trivial, ?_⟩
    rw [hcarried _ (by rfl)]
    have hstep : Life.Own svc _ (s.life h) _ := .panic hq hroute
    simpa [life, hown, Life.goto, Life.closed, Request.close, TaskManager.setOneshot] using hstep
  case accept route r hq hroute hr hroom =>
    have hact : (s.requests h).handler.active := by simp [hq, Handler.active]
    have hown := hown hact
    have hent : (s.requests h).handler.entering := by simp [hq, Handler.entering]
    have hgone : s.carried (s.requests h).id = none := carried_none (hs.unheld hent)
    have hmem : (s.requests h).id ∈ (s.manager.push r (s.requests h).id).queues r := by simp
    refine ⟨.act, trivial, ?_⟩
    rw [carried_queue hs'.exclusive hmem]
    have hstep : Life.Own svc _ (s.life h) _ := .accept hq hroute hr
      (by simp [life, hgone])
    simpa [life, hown, Life.goto, Life.carry, TaskManager.push] using hstep
  case reject hq =>
    refine ⟨.act, trivial, ?_⟩
    rw [hcarried _ (by rfl)]
    exact (Life.Own.reject hq : Life.Own svc _ (s.life h) _)
  case insertStream hq =>
    have hown := hown (by simp [hq, Handler.active])
    refine ⟨.act, trivial, ?_⟩
    rw [hcarried _ (by rfl)]
    have hstep : Life.Own svc _ (s.life h) _ := .insertStream hq
    simpa [life, hown, Life.goto, TaskManager.insertStream] using hstep
  case count hq =>
    refine ⟨.act, trivial, ?_⟩
    rw [hcarried _ (by rfl)]
    have hstep : Life.Own svc _ (s.life h) _ := .count hq
    by_cases hown : s.manager.owner (s.requests h).id = some h <;>
      simpa [life, hown, Life.goto, Life.charge, TaskManager.count] using hstep
  case spawn hq =>
    refine ⟨.act, trivial, ?_⟩
    rw [hcarried _ (by rfl)]
    exact (Life.Own.spawn hq : Life.Own svc _ (s.life h) _)
  case takeTask task hq htask =>
    have hown := hown (by simp [hq, Handler.active])
    refine ⟨.act, trivial, ?_⟩
    rw [hcarried _ (by rfl)]
    have hstep : Life.Own svc _ (s.life h) _ := .takeTask hq
      (by rw [life_entry hown, htask])
    simpa [life, hown, Life.goto, TaskManager.removeTask] using hstep
  case missTask hq htask =>
    have hown := hown (by simp [hq, Handler.active])
    refine ⟨.act, trivial, ?_⟩
    rw [hcarried _ (by rfl)]
    exact (Life.Own.missTask hq (by rw [life_entry hown, htask]) : Life.Own svc _ (s.life h) _)
  case deleteNotifier exit hq =>
    have hown := hown (by simp [hq, Handler.active])
    refine ⟨.act, trivial, ?_⟩
    rw [hcarried _ (by rfl)]
    have hstep : Life.Own svc _ (s.life h) _ := .deleteNotifier hq
    simpa [life, hown, Life.withoutNotifier, Life.goto, TaskManager.deleteNotifier,
      dropSender_apply] using hstep
  case deleteTask exit hq =>
    have hown := hown (by simp [hq, Handler.active])
    refine ⟨.act, trivial, ?_⟩
    rw [hcarried _ (by rfl)]
    have hstep : Life.Own svc _ (s.life h) _ := .deleteTask hq
    simpa [life, hown, Life.goto, TaskManager.removeTask] using hstep
  case deleteStream hq =>
    have hown := hown (by simp [hq, Handler.active])
    refine ⟨.act, trivial, ?_⟩
    rw [hcarried _ (by rfl)]
    have hstep : Life.Own svc _ (s.life h) _ := .deleteStream hq
    simpa [life, hown, Life.goto, TaskManager.removeStream] using hstep
  case uncount outcome hq =>
    refine ⟨.act, trivial, ?_⟩
    rw [hcarried _ (by rfl)]
    have hstep : Life.Own svc _ (s.life h) _ := .uncount hq
    by_cases hown : s.manager.owner (s.requests h).id = some h <;>
      simpa [life, hown, Life.goto, Life.charge, TaskManager.count] using hstep
  case resume hq hdone =>
    refine ⟨.act, trivial, ?_⟩
    rw [hcarried _ (by rfl)]
    exact (Life.Own.resume hq hdone : Life.Own svc _ (s.life h) _)
  case elapse hq =>
    have hown := hown (by simp [hq, Handler.active])
    refine ⟨.elapse, rfl, ?_⟩
    rw [hcarried _ (by rfl)]
    have hstep : Life.Own svc _ (s.life h) _ := .elapse hq
    simpa [life, hown, Life.goto, Life.closed, Request.close, TaskManager.setOneshot] using hstep
  case disconnect hq hsse =>
    have hown := hown (by simp [hq, Handler.active])
    refine ⟨.disconnect, rfl, ?_⟩
    rw [hcarried _ (by rfl)]
    have hstep : Life.Own svc _ (s.life h) _ := .disconnect hq hsse
    simpa [life, hown, Life.goto, Life.closed, Request.close, TaskManager.setOneshot] using hstep
  case receiveEvent event buffer hresp hbuffer =>
    refine ⟨.act, trivial, ?_⟩
    rw [hcarried _ (by rfl)]
    have hstep : Life.Own svc _ (s.life h) _ := .receiveEvent hresp hbuffer
    by_cases hown : s.manager.owner (s.requests h).id = some h <;>
      simpa [life, hown, TaskManager.setStream] using hstep
  case endStream hresp hbuffer hsen hnone =>
    refine ⟨.act, trivial, ?_⟩
    rw [hcarried _ (by rfl)]
    have hpushing : ∀ p outbox, (s.life h).carried = some (p, outbox) →
        outbox.pushing = none := by
      intro p outbox hcar
      exact pushing_of_clones hs hconns (hclones.symm.trans hnone) hcar
    have hstep : Life.Own svc _ (s.life h) _ := .endStream hresp hbuffer
      (beq_false_of_ne hsen) hpushing
    by_cases hown : s.manager.owner (s.requests h).id = some h <;>
      simpa [life, hown, TaskManager.setStream] using hstep
  case leave hresp =>
    refine ⟨.leave, rfl, ?_⟩
    rw [hcarried _ (by rfl)]
    have hstep : Life.Own svc _ (s.life h) _ := .leave hresp
    by_cases hown : s.manager.owner (s.requests h).id = some h <;>
      simpa [life, hown, TaskManager.setStream] using hstep

end Own

theorem life_submit (hs : s.Coherent) (isSse : Bool) (key : String) (body : Bytes) :
    Life.Own svc (.submit key body) (s.life s.submitted)
      ((s.submit isSse key body).life s.submitted) := by
  have habsent := hs.absent (h := s.submitted) le_rfl
  have hown : s.manager.owner 0 ≠ some s.submitted := by
    intro hown
    have hgiven := (hs.owned hown).2
    simp [habsent, Request.absent, Handler.given] at hgiven
  have hnot : (s.manager.notifiers 0 == some s.submitted) = false :=
    beq_false_of_ne fun hn => hown (hs.notifier hn)
  have hsen : (s.manager.streamSenders 0 == some s.submitted) = false :=
    beq_false_of_ne fun hn => hown (hs.sender hn)
  have hlife : s.life s.submitted = ⟨s.submitted, .absent, none, false, false, none,
      s.manager.oneshots s.submitted, s.manager.streams s.submitted,
      s.manager.history s.submitted⟩ := by
    simp [life, habsent, Request.absent, hown, hnot, hsen]
  have hafter : ∀ {m : TaskManager} {q : Request},
      Request.submit s.manager s.submitted isSse key body = (m, q) → q.id = 0 →
      m.owner = s.manager.owner → m.notifiers = s.manager.notifiers →
      m.streamSenders = s.manager.streamSenders →
      (s.submit isSse key body).life s.submitted = ⟨s.submitted, q, none, false, false, none,
        m.oneshots s.submitted, m.streams s.submitted, m.history s.submitted⟩ := by
    intro m q hq hid howner hnotifiers hsenders
    have hstate : s.submit isSse key body =
        { s.setRequest s.submitted m q with submitted := s.submitted + 1 } := by
      rw [State.submit, hq]
    have hreq : (s.submit isSse key body).requests s.submitted = q := by
      rw [hstate]
      exact setRequest_requests_self s s.submitted m q
    have hm : (s.submit isSse key body).manager = m := by
      rw [hstate]
      rfl
    simp [life, hreq, hm, hid, howner, hnotifiers, hsenders, hown, hnot, hsen]
  rw [hlife]
  unfold Request.submit at hafter
  by_cases hbody : body = []
  · subst hbody
    rw [hafter (if_pos rfl) (by rfl) (by rfl) (by rfl) (by rfl)]
    exact .refuse isSse key rfl
  · cases isSse with
    | true =>
      rw [hafter (m := s.manager) (q := ⟨true, key, body, 0, .takeId⟩)
        (by rw [if_neg hbody, if_pos rfl]) rfl rfl rfl rfl]
      have hstep : Life.Own svc _ ⟨s.submitted, .absent, none, false, false, none,
          s.manager.oneshots s.submitted, s.manager.streams s.submitted,
          s.manager.history s.submitted⟩ _ := .submit true key rfl hbody
      simpa [Life.charge] using hstep
    | false =>
      rw [hafter (m := s.manager.count s.submitted 1) (q := ⟨false, key, body, 0, .takeId⟩)
        (by rw [if_neg hbody, if_neg (by simp)]) rfl rfl rfl rfl]
      have hstep : Life.Own svc _ ⟨s.submitted, .absent, none, false, false, none,
          s.manager.oneshots s.submitted, s.manager.streams s.submitted,
          s.manager.history s.submitted⟩ _ := .submit false key rfl hbody
      simpa [Life.charge, TaskManager.count] using hstep

theorem life_submit_ne (isSse : Bool) (key : String) (body : Bytes) (hn : n ≠ s.submitted) :
    (s.submit isSse key body).life n = s.life n := by
  have hreq : (s.submit isSse key body).requests n = s.requests n :=
    update_of_ne hn _ _
  have hmanager : (s.submit isSse key body).manager = s.manager ∨
      (s.submit isSse key body).manager = s.manager.count s.submitted 1 :=
    submit_manager s.manager s.submitted isSse key body
  have hcarried : ∀ i, (s.submit isSse key body).carried i = s.carried i := by
    intro i
    apply carried_congr
    intro a
    cases a with
    | queue r =>
      simp only [shows]
      have hqueues : (s.submit isSse key body).manager.queues = s.manager.queues := by
        rcases hmanager with hm | hm
        · rw [hm]
        · rw [hm]
          rfl
      rw [hqueues]
    | conn k => rfl
  simp only [life, hreq, hcarried]
  rcases hmanager with hm | hm
  · rw [hm]
  · have hhistory : (s.manager.count s.submitted 1).history n = s.manager.history n :=
      update_of_ne hn _ _
    rw [hm, hhistory]
    rfl

theorem life_accept (r : ℕ) (hconn : s.conns s.connected = .absent) :
    (s.accept r).life h = s.life h := by
  have hcarried : ∀ i, (s.accept r).carried i = s.carried i := by
    intro i
    apply carried_congr
    intro a
    cases a with
    | queue r => rfl
    | conn k =>
      by_cases hk : k = s.connected
      · rw [hk, shows, shows, accept_conns_self, hconn]
        rfl
      · rw [shows, shows, s.accept_conns_ne r hk]
  simp only [life, hcarried]
  rfl

/-- Every action of the system is, for each submission, a step of its life or nothing. -/
theorem refines (hs : s.Coherent) (hconns : s.Unaccepted) {a : Action} {s' : State}
    (hfresh : s.FreshId a) (hstep : s.step svc a = some s') (h : ℕ) :
    s'.life h = s.life h ∨ ∃ lab, Caused svc s a h lab ∧
      Life.Step svc lab (s.life h) (s'.life h) := by
  have hs' := hs.step hconns hfresh hstep
  cases a with
  | submit isSse key body =>
    obtain rfl := Option.some.inj hstep
    by_cases hh : h = s.submitted
    · subst hh
      exact Or.inr ⟨.submit key body, ⟨rfl, isSse, rfl⟩, Or.inl (life_submit hs isSse key body)⟩
    · exact Or.inl (life_submit_ne isSse key body hh)
  | request n act =>
    obtain ⟨⟨m, q⟩, hmove, rfl⟩ := Option.map_eq_some_iff.mp hstep
    have hm := Request.move_of_step hmove
    by_cases hq : (s.requests n).handler = .takeId
    · have hnotInUse := fun hact => hfresh n (congrArg (Action.request n) hact) hq
      cases hm
      case takeId =>
        by_cases hh : h = n
        · subst hh
          exact Or.inr ⟨.act, trivial, Or.inl (step_takeId hs hq (hnotInUse rfl))⟩
        · exact Or.inl (life_takeId_ne (hnotInUse rfl) hh)
      all_goals simp_all [Request.hasResponse]
    · by_cases hh : h = n
      · subst hh
        obtain ⟨lab, hlab, hown⟩ := own_refines hs hs' hm hq hconns rfl
        exact Or.inr ⟨lab, hlab, Or.inl hown⟩
      · exact Or.inl (life_setRequest_ne hs hs' hm hq hh)
  | connect r =>
    simp only [step] at hstep
    split at hstep
    · obtain rfl := Option.some.inj hstep
      exact Or.inl (life_accept r (hconns _ le_rfl))
    · cases hstep
  | conn k act =>
    obtain ⟨⟨m, c⟩, hmove, rfl⟩ := Option.map_eq_some_iff.mp hstep
    by_cases hhears : Conn.Hears s.manager (s.conns k) act h
    · rcases hears_refines hs hs' hmove hhears with heq | hheard
      · exact Or.inl heq
      · exact Or.inr ⟨.hear, ⟨k, act, rfl, hhears⟩, Or.inr (Or.inr ⟨rfl, hheard⟩)⟩
    · rcases conn_refines hs hs' hmove h hhears with heq | ⟨lab, hlab, hserved⟩
      · exact Or.inl heq
      · exact Or.inr ⟨lab, hlab, Or.inr (Or.inl hserved)⟩

end Mosec.State
