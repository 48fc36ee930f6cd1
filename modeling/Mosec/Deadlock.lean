import Mathlib.Data.Fintype.Card
import Mathlib.Data.Set.Finite.Basic
import Mathlib.Logic.Relation
import Mathlib.Order.WellFounded
import Mosec.Responses

namespace Mosec

theorem exists_cycle {α : Type*} {S : Set α} (hfin : S.Finite) (hne : S.Nonempty)
    {R : α → α → Prop} (h : ∀ a ∈ S, ∃ b ∈ S, R a b) :
    ∃ a ∈ S, Relation.TransGen (fun a b => a ∈ S ∧ b ∈ S ∧ R a b) a a := by
  by_contra hacyclic
  have hfinite : Finite S := hfin.to_subtype
  have htrans : IsTrans S (Relation.TransGen fun b a => R a b) :=
    ⟨fun _ _ _ => Relation.TransGen.trans⟩
  have hirrefl : Std.Irrefl (Relation.TransGen fun b a : S => R a b) := by
    constructor
    intro a ha
    apply hacyclic
    refine ⟨a, a.2, ?_⟩
    have hswap := Relation.transGen_swap.mp ha
    exact hswap.lift Subtype.val fun b c hbc => ⟨b.2, c.2, hbc⟩
  obtain ⟨a, -, hmin⟩ := (Finite.wellFounded_of_trans_of_irrefl
    (Relation.TransGen fun b a : S => R a b)).has_min Set.univ ⟨⟨_, hne.some_mem⟩, trivial⟩
  obtain ⟨b, hb, hab⟩ := h a a.2
  exact hmin ⟨b, hb⟩ trivial (.single hab)

def Point.answered : Point → List UInt32
  | .collect _ => []
  | .fetch _ => []
  | .write _ => []
  | point => point.ids

open Function (update update_self update_of_ne)

theorem TaskManager.count_handed (m : TaskManager) (h n : ℕ) (z : ℤ) :
    ((m.count h z).history n).handed = (m.history n).handed := by
  change (update m.history h _ n).handed = _
  by_cases hn : n = h
  · rw [hn, update_self]
  · rw [update_of_ne hn]

namespace Conn

open TaskManager

def live (c : Conn) : Bool := c.point != .closed && c.point != .panicked

def served (c : Conn) : List UInt32 := c.point.answered ++ c.outstanding.map Item.id

theorem served_subset {c : Conn} {i : UInt32} (hi : i ∈ c.served) : i ∈ c.ids := by
  rcases List.mem_append.mp hi with hi | hi
  · apply List.mem_append_left
    cases hp : c.point <;> rw [hp] at hi <;> first | exact hi | cases hi
  · exact List.mem_append_right _ hi

theorem foldl_handed {f : History → Item → History} (items : List Item) (history : History)
    (hf : ∀ history item, (f history item).handed = history.handed) :
    (items.foldl f history).handed = history.handed := by
  induction items generalizing history with
  | nil => rfl
  | cons item items ih => rw [List.foldl_cons, ih, hf]

theorem foldl_handOver {items : List Item} (r : ℕ) (history : History) (hne : items ≠ []) :
    (items.foldl (handOver r) history).handed.getLast? = some r := by
  obtain ⟨init, item, rfl⟩ := (List.eq_nil_or_concat' items).resolve_left hne
  rw [List.foldl_append, List.foldl_cons, List.foldl_nil, handOver, List.getLast?_concat]

variable {svc : Service} {m m' : TaskManager} {c c' : Conn} {act : ConnAction}
  {touched : List UInt32}

theorem record_handed {items : List Item} {i : UInt32} {h : ℕ} (hi : i ∈ items.map Item.id)
    (howner : m.owner i = some h) :
    ((m.record items (handOver c.runtime)).history h).handed.getLast? = some c.runtime := by
  apply foldl_handOver
  obtain ⟨item, hitem, rfl⟩ := List.mem_map.mp hi
  exact List.ne_nil_of_mem (List.mem_filter.mpr ⟨hitem, by simpa using howner⟩)

namespace Move

theorem served (hm : Move svc m c act touched m' c') (hact : act ≠ .writeErr) {i : UInt32}
    (hi : i ∈ c'.served) : i ∈ c.served ∨ ∃ items, c.point = .write items ∧
      i ∈ items.map Item.id ∧ m' = m.record items (handOver c.runtime) := by
  cases hm
  case writeErr => exact absurd rfl hact
  case writeOk items hp hb =>
    simp only [Conn.served, Point.answered, Point.ids, List.nil_append, List.map_append,
      List.mem_append] at hi
    rcases hi with hi | hi
    · exact Or.inl (List.mem_append_right _ hi)
    · exact Or.inr ⟨items, hp, hi, rfl⟩
  case recv hp hq hpoint =>
    left
    apply List.mem_append_right
    rcases hpoint with rfl | rfl <;> simpa [Conn.served, Point.answered] using hi
  case fetch hpoint hp hitems =>
    left
    apply List.mem_append_right
    rcases hpoint with ⟨-, rfl⟩ | rfl <;> simpa [Conn.served, Point.answered] using hi
  case readReply streamed code items hp hcode hnames hnodup =>
    left
    apply List.mem_append_right
    simp only [Conn.served, Point.answered, Point.ids, unanswered_ids] at hi
    rcases List.mem_append.mp hi with hi | hi
    · exact names_subset hnames hi
    · exact (List.mem_filter.mp hi).1
  case readCut code items hp hnames hnodup =>
    left
    apply List.mem_append_right
    simp only [Conn.served, Point.answered, Point.ids, List.map_nil, List.append_nil] at hi
    exact names_subset hnames hi
  case updateNormal items hp =>
    left
    simpa only [Conn.served, Point.answered, Point.ids, hp, sendJobs_ids] using hi
  case updateAbnormal code items hp hcode =>
    left
    simp only [Conn.served, Point.answered, Point.ids, notifyJobs_ids, hp] at hi ⊢
    rcases List.mem_append.mp hi with hi | hi
    · exact List.mem_append_left _ ((abnormalTasks_sublist m items).subset hi)
    · exact List.mem_append_right _ hi
  case workDone next hp =>
    left
    apply List.mem_append_right
    cases next <;> simpa [Conn.served, Point.answered, Point.ids, proceed] using hi
  case sendPanic => simp [Conn.served, Point.answered, Point.ids, panic] at hi
  case signalPanic => simp [Conn.served, Point.answered, Point.ids, panic] at hi
  case readErr => simp [Conn.served, Point.answered, Point.ids] at hi
  -- what is left of the frame is part of what was there before
  all_goals
    left
    have hp := ‹c.point = _›
    simp only [Conn.served, Point.answered, Point.ids, hp, List.map_cons, List.map_nil,
      List.cons_append, List.nil_append, List.mem_cons, Job.id] at hi ⊢
    first
      | exact hi
      | exact Or.inr hi

theorem handed (hm : Move svc m c act touched m' c') (h : ℕ) :
    (m'.history h).handed = (m.history h).handed ∨ ∃ items i, c.point = .write items ∧
      i ∈ items.map Item.id ∧ m.owner i = some h ∧
      (m'.history h).handed.getLast? = some c.runtime := by
  cases hm
  case writeOk items hp hb =>
    by_cases hnone : items.filter (fun item => m.owner item.id = some h) = []
    · left
      change ((items.filter _).foldl (handOver c.runtime) (m.history h)).handed = _
      rw [hnone]
      rfl
    · right
      obtain ⟨item, hitem⟩ := List.exists_mem_of_ne_nil _ hnone
      obtain ⟨hmem, howner⟩ := List.mem_filter.mp hitem
      exact ⟨items, item.id, hp, List.mem_map_of_mem hmem, of_decide_eq_true howner,
        foldl_handOver _ _ hnone⟩
  case readEvents => exact Or.inl (foldl_handed _ _ fun _ _ => rfl)
  case readLate => exact Or.inl (foldl_handed _ _ fun _ _ => rfl)
  case readReply => exact Or.inl (foldl_handed _ _ fun _ _ => rfl)
  case readCut => exact Or.inl (foldl_handed _ _ fun _ _ => rfl)
  case uncount => exact Or.inl (count_handed ..)
  all_goals exact Or.inl rfl

end Move

end Conn

namespace State

def Answered : Action → Prop
  | .conn _ .writeErr => False
  | .conn _ (.readErr _ _) => False
  | .conn _ (.readReply code _) => code = .Normal
  | _ => True

def Traced (s : State) : Prop :=
  ∀ k i h, i ∈ (s.conns k).served → s.manager.owner i = some h →
    (s.manager.history h).handed.getLast? = some (s.conns k).runtime

variable {svc : Service} {s s' : State} {a : Action}

theorem Traced.of_eq (hs : s.Traced) (hconns : s'.conns = s.conns)
    (howner : ∀ k i h, i ∈ (s.conns k).served → s'.manager.owner i = some h →
      s.manager.owner i = some h)
    (hhanded : ∀ h, (s'.manager.history h).handed = (s.manager.history h).handed) :
    s'.Traced := by
  intro k i h hi hown
  rw [hconns] at hi ⊢
  rw [hhanded]
  exact hs k i h hi (howner k i h hi hown)

theorem Traced.request (hs : s.Traced) (hfresh : s.FreshId a) {n : ℕ} {act : RequestAction}
    (ha : a = .request n act) {m' : TaskManager} {q' : Request} {clones : Bool}
    (hm : Request.Move svc s.manager n (s.requests n) clones act m' q') :
    (s.setRequest n m' q').Traced := by
  have hhanded : ∀ h, (m'.history h).handed = (s.manager.history h).handed := by
    intro h
    cases hm
    case count => exact s.manager.count_handed ..
    case uncount => exact s.manager.count_handed ..
    all_goals rfl
  apply hs.of_eq (by rfl) _ hhanded
  intro k i h hi hown
  replace hown : m'.owner i = some h := hown
  cases hm
  case takeId hq =>
    have hne : i ≠ s.manager.currentId := by
      rintro rfl
      apply hfresh n ha hq
      exact Or.inr (Or.inr (Or.inr (Or.inl ⟨.conn k, Conn.served_subset hi⟩)))
    replace hown : update s.manager.owner s.manager.currentId (some n) i = some h := hown
    rwa [update_of_ne hne] at hown
  all_goals exact hown

theorem Traced.conn (hs : s.Traced) (hcoherent : s.Coherent) {k : ℕ} {act : ConnAction}
    (hact : act ≠ .writeErr) {touched : List UInt32} {m' : TaskManager} {c' : Conn}
    (hm : (s.conns k).Move svc s.manager act touched m' c') : (s.setConn k m' c').Traced := by
  intro j i h hi hown
  replace hown : s.manager.owner i = some h := hm.owner ▸ hown
  change (m'.history h).handed.getLast? = _
  by_cases hj : j = k
  · subst hj
    rw [setConn_conns_self] at hi ⊢
    rw [hm.runtime]
    rcases hm.served hact hi with hi | ⟨items, hp, hi, rfl⟩
    · rcases hm.handed h with heq | ⟨-, -, -, -, -, hlast⟩
      · rw [heq]
        exact hs j i h hi hown
      · exact hlast
    · exact Conn.record_handed hi hown
  · rw [setConn_conns_ne s m' c' hj] at hi ⊢
    rcases hm.handed h with heq | ⟨items, i', hp, hi', hown', -⟩
    · rw [heq]
      exact hs j i h hi hown
    · exfalso
      have heq : i' = i := (hcoherent.owned hown').1.symm.trans (hcoherent.owned hown).1
      subst heq
      have hk : i' ∈ (s.conns k).ids := by
        rw [Conn.ids, hp]
        exact List.mem_append_left _ hi'
      have hholder := hcoherent.exclusive.unique (a := .conn j) (b := .conn k)
        (Conn.served_subset hi) hk
      exact hj (Holder.conn.inj hholder)

theorem Traced.step (hs : s.Traced) (hcoherent : s.Coherent) (hfresh : s.FreshId a)
    (hok : Answered a) (hstep : s.step svc a = some s') : s'.Traced := by
  cases a with
  | submit isSse key body =>
    obtain rfl := Option.some.inj hstep
    have hmanager : (s.submit isSse key body).manager = s.manager ∨
        (s.submit isSse key body).manager = s.manager.count s.submitted 1 :=
      submit_manager s.manager s.submitted isSse key body
    apply hs.of_eq (by rfl)
    · intro k i h hi hown
      rcases hmanager with hm | hm <;> rw [hm] at hown <;> exact hown
    · intro h
      rcases hmanager with hm | hm <;> rw [hm]
      exact s.manager.count_handed ..
  | request n act =>
    obtain ⟨⟨m, q⟩, hmove, rfl⟩ := Option.map_eq_some_iff.mp hstep
    exact hs.request hfresh rfl (Request.move_of_step hmove)
  | connect r =>
    simp only [State.step] at hstep
    split at hstep
    · obtain rfl := Option.some.inj hstep
      intro k i h hi hown
      by_cases hk : k = s.connected
      · rw [hk, accept_conns_self] at hi
        cases hi
      · rw [accept_conns_ne s r hk] at hi ⊢
        exact hs k i h hi hown
    · cases hstep
  | conn k act =>
    obtain ⟨⟨m, c⟩, hmove, rfl⟩ := Option.map_eq_some_iff.mp hstep
    obtain ⟨touched, hm⟩ := Conn.move_of_step hmove
    refine hs.conn hcoherent ?_ hm
    rintro rfl
    exact hok

theorem traced_of_run (hs : FreshRun svc (fun _ a => Answered a) s) : s.Traced := by
  induction hs with
  | init =>
    intro k i h hi
    cases hi
  | step hrun hok hstep ih => exact ih.step (coherent_of_run hrun) hok.1 hok.2 hstep

theorem feeds_of_sending (hs : FreshRun svc (fun _ a => Answered a) s) {k : ℕ} {id : UInt32}
    {r : ℕ} {jobs : List Job} {next : Next} (hp : (s.conns k).point = .sending id r jobs next) :
    svc.Feeds (s.conns k).runtime r := by
  have hcoherent := coherent_of_run hs
  have hserved : id ∈ (s.conns k).served := by simp [Conn.served, hp, Point.answered, Point.ids]
  have hheld : id ∈ s.holds (.conn k) := Conn.served_subset hserved
  obtain ⟨h, hown⟩ := Option.isSome_iff_exists.mp (hcoherent.held hheld)
  obtain ⟨rfl, -⟩ := hcoherent.owned hown
  have hcarried : (s.life h).carried = some (.sending r, .empty) := by
    apply carried_of_view (k := k) hcoherent hown
    simp [Conn.view, Conn.place, hp, Point.place, Point.outbox]
  obtain ⟨route, hroute, hr, hhanded⟩ := (routed_of_run hs h).located hcarried
  replace hhanded : (s.manager.history h).handed = _ := hhanded
  have hlast := traced_of_run hs k _ h hserved hown
  rw [hhanded] at hlast
  generalize (s.life h).history.replies.length = n at hr hlast
  cases n with
  | zero => cases hlast
  | succ n =>
    refine ⟨_, route, n, hroute, ?_, hr⟩
    have hlt := Life.lt_of_getElem? hr
    rw [List.getLast?_take] at hlast
    simpa [show n < route.length by omega] using hlast

def Staffed (svc : Service) (s : State) : Prop :=
  ∀ r < svc.runtimes.length, ∃ k < s.connected, (s.conns k).live ∧ (s.conns k).runtime = r

/-- Every connection of the runtimes of `S` is suspended in `send_task` on a full queue, and only
connections of `S` take ids out of that queue. -/
structure Deadlocked (svc : Service) (s : State) (S : Set ℕ) : Prop where
  nonempty : S.Nonempty
  runtimes : ∀ r ∈ S, r < svc.runtimes.length
  suspended : ∀ k < s.connected, (s.conns k).live → (s.conns k).runtime ∈ S →
    ∃ id r jobs next, (s.conns k).point = .sending id r jobs next ∧
      svc.capacity ≤ (s.manager.queues r).length ∧
      ∀ j < s.connected, (s.conns j).live → (s.conns j).runtime = r → (s.conns j).runtime ∈ S

/-- The queues can only deadlock where the routes lead in a circle. -/
theorem deadlock_cycle (hs : FreshRun svc (fun _ a => Answered a) s) (hstaffed : s.Staffed svc)
    {S : Set ℕ} (hdead : s.Deadlocked svc S) :
    ∃ r ∈ S, Relation.TransGen (fun a b => a ∈ S ∧ b ∈ S ∧ svc.Feeds a b) r r := by
  have hfin : S.Finite := (Set.finite_lt_nat svc.runtimes.length).subset hdead.runtimes
  apply exists_cycle hfin hdead.nonempty
  intro a ha
  obtain ⟨k, hk, hlive, rfl⟩ := hstaffed a (hdead.runtimes a ha)
  obtain ⟨id, r, jobs, next, hp, -, honly⟩ := hdead.suspended k hk hlive ha
  have hfeeds := feeds_of_sending hs hp
  obtain ⟨key, route, n, hroute, -, hr⟩ := hfeeds
  obtain ⟨j, hj, hjlive, rfl⟩ := hstaffed r (svc.senders_lt hroute (List.mem_of_getElem? hr))
  exact ⟨_, honly j hj hjlive rfl, feeds_of_sending hs hp⟩

def answers : Action → Bool
  | .conn _ .writeErr => false
  | .conn _ (.readErr _ _) => false
  | .conn _ (.readReply code _) => code == .Normal
  | _ => true

theorem answered_of_answers (h : answers a) : Answered a := by
  cases a with
  | conn k act =>
    cases act with
    | readReply code items => exact eq_of_beq h
    | writeErr => cases h
    | readErr => cases h
    | _ => trivial
  | _ => trivial

def twice : Service :=
  Config.initFromConfig ⟨1, [⟨"echo", 1⟩], [⟨"/", ["echo", "echo"]⟩]⟩
    ⟨by decide, by decide, by decide⟩

def twiceRun : List Action :=
  [.connect 0, .submit false "/" [1]] ++ List.replicate 4 (.request 0 .run) ++
    [.conn 0 .recv, .conn 0 .run, .conn 0 .writeOk, .submit false "/" [1]] ++
    List.replicate 4 (.request 1 .run) ++
    [.conn 0 (.readReply .Normal [⟨0, 0, [2]⟩]), .conn 0 .run, .conn 0 .run]

theorem twiceRun_view : ∃ s, FreshRun twice (fun _ a => Answered a) s ∧ s.connected = 1 ∧
    s.conns 0 = ⟨0, [], false, .sending 0 0 [] .collect⟩ ∧ s.manager.queues 0 = [1] := by
  have hview : ((Transition.run (step twice) start twiceRun).map fun s =>
      (s.submitted, s.connected, s.conns 0, s.manager.queues 0)) =
      some (2, 1, ⟨0, [], false, .sending 0 0 [] .collect⟩, [1]) := by
    decide +kernel
  have hchecked : Transition.checked (step twice) (fun _ a => answers a) start twiceRun := by
    decide +kernel
  obtain ⟨s, -, hrun, hfields⟩ :=
    freshRun_of_checked (fun _ _ => answered_of_answers) hchecked hview (by decide)
  obtain ⟨hconnected, hfields⟩ := Prod.mk.inj hfields
  obtain ⟨hconn, hqueue⟩ := Prod.mk.inj hfields
  exact ⟨s, hrun, hconnected, hconn, hqueue⟩

theorem deadlocked_of_view (hconnected : s.connected = 1)
    (hconn : s.conns 0 = ⟨0, [], false, .sending 0 0 [] .collect⟩)
    (hqueue : s.manager.queues 0 = [1]) : s.Staffed twice ∧ s.Deadlocked twice {0} := by
  refine ⟨?_, ⟨⟨0, rfl⟩, ?_, ?_⟩⟩
  · intro r hr
    obtain rfl : r = 0 := Nat.lt_one_iff.mp hr
    exact ⟨0, by simp [hconnected], by simp [hconn, Conn.live], by simp [hconn]⟩
  · rintro r rfl
    exact Nat.one_pos
  · intro k hk hlive hmem
    obtain rfl : k = 0 := by omega
    refine ⟨0, 0, [], .collect, by rw [hconn], ?_, ?_⟩
    · rw [hqueue]
      exact le_rfl
    · rintro j - - hj
      exact hj

theorem queue_deadlocks : ∃ s, FreshRun twice (fun _ a => Answered a) s ∧ s.Staffed twice ∧
    ∃ S, s.Deadlocked twice S := by
  obtain ⟨s, hrun, hconnected, hconn, hqueue⟩ := twiceRun_view
  obtain ⟨hstaffed, hdead⟩ := deadlocked_of_view hconnected hconn hqueue
  exact ⟨s, hrun, hstaffed, _, hdead⟩

theorem deadlock_cycle_twice : ∃ s : State, s.Deadlocked twice {0} ∧ ∃ r ∈ ({0} : Set ℕ),
    Relation.TransGen (fun a b => a ∈ ({0} : Set ℕ) ∧ b ∈ ({0} : Set ℕ) ∧ twice.Feeds a b) r r := by
  obtain ⟨s, hrun, hconnected, hconn, hqueue⟩ := twiceRun_view
  obtain ⟨hstaffed, hdead⟩ := deadlocked_of_view hconnected hconn hqueue
  exact ⟨s, hdead, deadlock_cycle hrun hstaffed hdead⟩

end State

end Mosec
