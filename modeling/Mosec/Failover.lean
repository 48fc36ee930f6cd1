import Mosec.Progress
import Mosec.ShmAccounting

namespace Mosec

namespace Conn

def failed (c : Conn) : Bool := c.point.next = .closed

theorem live_of_not_failed {c : Conn} (h : c.failed = false) : c.live := by
  rw [live, Bool.and_eq_true, bne_iff_ne, bne_iff_ne]
  constructor <;> intro hp <;> simp [failed, hp, Point.next] at h

variable {svc : Service} {m m' : TaskManager} {c c' : Conn} {act : ConnAction}
  {touched : List UInt32}

theorem Move.not_failed (hm : Move svc m c act touched m' c') (h : c'.failed = false) :
    c.failed = false := by
  simp only [failed, decide_eq_false_iff_not] at h ⊢
  cases hm
  case recv hp _ _ => simp [hp, Point.next]
  case timeUp hp => simp [hp, Point.next]
  case fetch _ hp _ => simp [hp, Point.next]
  case writeOk hp _ => simp [hp, Point.next]
  case writeErr => exact absurd rfl h
  case readEvents hp _ => simp [hp, Point.next]
  case readReply hp _ _ _ => simp [hp, Point.next]
  case readCut hp _ _ => simp [hp, Point.next]
  case readErr => exact absurd rfl h
  case updateNormal hp => simp [hp, Point.next]
  case updateAbnormal hp _ => simp [hp, Point.next]
  case workDone next hp =>
    cases next with
    | closed => exact absurd rfl h
    | read => simp [hp, Point.next]
    | collect => simp [hp, Point.next]
  case sendPanic => exact absurd rfl h
  case signalPanic => exact absurd rfl h
  all_goals
    rw [‹c.point = _›]
    exact h

end Conn

namespace State

variable {svc : Service} {ok : State → Action → Prop} {s s' : State} {a : Action}

/-- The last runtime that got the task of an id is the one of the connection that has it back,
where that has not failed. -/
def Tracked (s : State) : Prop :=
  ∀ k i h, (s.conns k).failed = false → i ∈ (s.conns k).served → s.manager.owner i = some h →
    (s.manager.history h).handed.getLast? = some (s.conns k).runtime

theorem Tracked.of_eq (hs : s.Tracked) (hconns : s'.conns = s.conns)
    (howner : ∀ k i h, i ∈ (s.conns k).served → s'.manager.owner i = some h →
      s.manager.owner i = some h)
    (hhanded : ∀ h, (s'.manager.history h).handed = (s.manager.history h).handed) :
    s'.Tracked := by
  intro k i h hopen hi hown
  rw [hconns] at hopen hi ⊢
  rw [hhanded]
  exact hs k i h hopen hi (howner k i h hi hown)

theorem Tracked.request (hs : s.Tracked) (hfresh : s.FreshId a) {n : ℕ} {act : RequestAction}
    (ha : a = .request n act) {m' : TaskManager} {q' : Request} {clones : Bool}
    (hm : Request.Move svc s.manager n (s.requests n) clones act m' q') :
    (s.setRequest n m' q').Tracked := by
  have hhanded : ∀ h, (m'.history h).handed = (s.manager.history h).handed := by
    intro h
    cases hm
    case count => exact s.manager.count_handed ..
    case uncount => exact s.manager.count_handed ..
    all_goals rfl
  apply hs.of_eq (by rfl) _ hhanded
  intro k i h hi hown
  replace hown : m'.owner i = some h := hown
  cases hm
  case takeId hq =>
    have hne : i ≠ s.manager.currentId := by
      rintro rfl
      apply hfresh n ha hq
      exact Or.inr (Or.inr (Or.inr (Or.inl ⟨.conn k, Conn.served_subset hi⟩)))
    replace hown : Function.update s.manager.owner s.manager.currentId (some n) i = some h := hown
    rwa [Function.update_of_ne hne] at hown
  all_goals exact hown

theorem Tracked.conn (hs : s.Tracked) (hcoherent : s.Coherent) {k : ℕ} {act : ConnAction}
    {touched : List UInt32} {m' : TaskManager} {c' : Conn}
    (hm : (s.conns k).Move svc s.manager act touched m' c') : (s.setConn k m' c').Tracked := by
  intro j i h hopen hi hown
  replace hown : s.manager.owner i = some h := hm.owner ▸ hown
  change (m'.history h).handed.getLast? = _
  by_cases hj : j = k
  · subst hj
    rw [setConn_conns_self] at hopen hi ⊢
    have hact : act ≠ .writeErr := by
      rintro rfl
      cases hm
      cases hopen
    rw [hm.runtime]
    rcases hm.served hact hi with hi | ⟨items, hp, hi, rfl⟩
    · rcases hm.handed h with heq | ⟨-, -, -, -, -, hlast⟩
      · rw [heq]
        exact hs j i h (hm.not_failed hopen) hi hown
      · exact hlast
    · exact Conn.record_handed hi hown
  · rw [setConn_conns_ne s m' c' hj] at hopen hi ⊢
    rcases hm.handed h with heq | ⟨items, i', hp, hi', hown', -⟩
    · rw [heq]
      exact hs j i h hopen hi hown
    · exfalso
      have heq : i' = i := (hcoherent.owned hown').1.symm.trans (hcoherent.owned hown).1
      subst heq
      have hk : i' ∈ (s.conns k).ids := by
        rw [Conn.ids, hp]
        exact List.mem_append_left _ hi'
      have hholder := hcoherent.exclusive.unique (a := .conn j) (b := .conn k)
        (Conn.served_subset hi) hk
      exact hj (Holder.conn.inj hholder)

theorem Tracked.step (hs : s.Tracked) (hcoherent : s.Coherent) (hfresh : s.FreshId a)
    (hstep : s.step svc a = some s') : s'.Tracked := by
  cases a with
  | submit isSse key body =>
    obtain rfl := Option.some.inj hstep
    have hmanager : (s.submit isSse key body).manager = s.manager ∨
        (s.submit isSse key body).manager = s.manager.count s.submitted 1 :=
      submit_manager s.manager s.submitted isSse key body
    apply hs.of_eq (by rfl)
    · intro k i h hi hown
      rcases hmanager with hm | hm <;> rw [hm] at hown <;> exact hown
    · intro h
      rcases hmanager with hm | hm <;> rw [hm]
      exact s.manager.count_handed ..
  | request n act =>
    obtain ⟨⟨m, q⟩, hmove, rfl⟩ := Option.map_eq_some_iff.mp hstep
    exact hs.request hfresh rfl (Request.move_of_step hmove)
  | connect r =>
    simp only [State.step] at hstep
    split at hstep
    · obtain rfl := Option.some.inj hstep
      intro k i h hopen hi hown
      by_cases hk : k = s.connected
      · rw [hk, accept_conns_self] at hi
        cases hi
      · rw [accept_conns_ne s r hk] at hopen hi ⊢
        exact hs k i h hopen hi hown
    · cases hstep
  | conn k act =>
    obtain ⟨⟨m, c⟩, hmove, rfl⟩ := Option.map_eq_some_iff.mp hstep
    obtain ⟨touched, hm⟩ := Conn.move_of_step hmove
    exact hs.conn hcoherent hm

theorem tracked_of_run (hs : FreshRun svc ok s) : s.Tracked := by
  induction hs with
  | init =>
    intro k i h hopen hi
    cases hi
  | step hrun hok hstep ih => exact ih.step (coherent_of_run hrun) hok.1 hstep

theorem feeds_of_unfailed (hs : FreshRun svc ok s) {k : ℕ} {id : UInt32} {r : ℕ} {jobs : List Job}
    {next : Next} (hp : (s.conns k).point = .sending id r jobs next) :
    r < svc.runtimes.length ∧ ((s.conns k).failed = false → svc.Feeds (s.conns k).runtime r) := by
  have hcoherent := coherent_of_run hs
  have hserved : id ∈ (s.conns k).served := by simp [Conn.served, hp, Point.answered, Point.ids]
  have hheld : id ∈ s.holds (.conn k) := Conn.served_subset hserved
  obtain ⟨h, hown⟩ := Option.isSome_iff_exists.mp (hcoherent.held hheld)
  obtain ⟨rfl, -⟩ := hcoherent.owned hown
  have hcarried : (s.life h).carried = some (.sending r, .empty) := by
    apply carried_of_view (k := k) hcoherent hown
    simp [Conn.view, Conn.place, hp, Point.place, Point.outbox]
  obtain ⟨route, hroute, hr, hhanded⟩ := (routed_of_run hs h).located hcarried
  refine ⟨svc.senders_lt hroute (List.mem_of_getElem? hr), fun hopen => ?_⟩
  replace hhanded : (s.manager.history h).handed = _ := hhanded
  have hlast := tracked_of_run hs k _ h hopen hserved hown
  rw [hhanded] at hlast
  generalize (s.life h).history.replies.length = n at hr hlast
  cases n with
  | zero => cases hlast
  | succ n =>
    refine ⟨_, route, n, hroute, ?_, hr⟩
    have hlt := Life.lt_of_getElem? hr
    rw [List.getLast?_take] at hlast
    simpa [show n < route.length by omega] using hlast

def Manned (svc : Service) (s : State) : Prop :=
  ∀ r < svc.runtimes.length, ∃ k < s.connected, (s.conns k).failed = false ∧
    (s.conns k).runtime = r

theorem waiting_of_parked (hs : FreshRun svc ok s)
    (hparked : ∀ k, (s.conns k).live → s.Parked svc k) (hmanned : s.Manned svc)
    (hacyclic : ∀ r, ¬ Relation.TransGen svc.Feeds r r) :
    (∀ r < svc.runtimes.length, s.manager.queues r = []) ∧
      ∀ k, (s.conns k).live → (s.conns k).point = .collect [] := by
  have hqueues : ∀ r < svc.runtimes.length, s.manager.queues r = [] := by
    refine fun r hr => queues_empty hacyclic ?_ hr
    intro a ha hqueue
    obtain ⟨k, hk, hopen, rfl⟩ := hmanned a ha
    rcases hparked k (Conn.live_of_not_failed hopen) with
      ⟨-, hempty⟩ | ⟨id, r, jobs, next, hp, hfull⟩
    · exact absurd hempty hqueue
    · obtain ⟨hr, hfeeds⟩ := feeds_of_unfailed hs hp
      exact ⟨r, hr, ne_nil_of_full hfull, hfeeds hopen⟩
  refine ⟨hqueues, fun k hlive => ?_⟩
  rcases hparked k hlive with ⟨hp, -⟩ | ⟨id, r, jobs, next, hp, hfull⟩
  · exact hp
  · exact absurd (hqueues r (feeds_of_unfailed hs hp).1) (ne_nil_of_full hfull)

end State

end Mosec
