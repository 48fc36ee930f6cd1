import Mosec.Responses

namespace Mosec

def Point.batch : Point → List UInt32
  | .collect ids => ids
  | .fetch ids => ids
  | .write items => items.map Item.id
  | _ => []

namespace State

/-- The id is in the queue of the runtime, or in an unsent batch of one of its connections. -/
def Awaits (s : State) (i : UInt32) (r : ℕ) : Prop :=
  i ∈ s.manager.queues r ∨ ∃ k, (s.conns k).runtime = r ∧ i ∈ (s.conns k).point.batch

variable {svc : Service} {ok : State → Action → Prop} {s : State}

theorem place_of_batch {c : Conn} {i : UInt32} (hi : i ∈ c.point.batch) :
    c.view i = some (.batched c.runtime, .empty) ∨
      ∃ item, c.view i = some (.framed c.runtime item, .empty) := by
  cases hp : c.point with
  | collect ids =>
    rw [hp] at hi
    left
    simp only [Conn.view, Conn.place, hp, Point.place, if_pos (show i ∈ ids from hi)]
    rfl
  | fetch ids =>
    rw [hp] at hi
    left
    simp only [Conn.view, Conn.place, hp, Point.place, if_pos (show i ∈ ids from hi)]
    rfl
  | write items =>
    rw [hp] at hi
    obtain ⟨item, hitem⟩ := Option.isSome_iff_exists.mp (Point.itemOf_isSome.mpr hi)
    right
    refine ⟨item, ?_⟩
    simp only [Conn.view, Conn.place, hp, Point.place, hitem]
    rfl
  | _ =>
    rw [hp] at hi
    cases hi

theorem carried_of_awaits (hs : s.Coherent) {i : UInt32} {r : ℕ} (hi : s.Awaits i r) :
    ∃ p, s.carried i = some (p, .empty) ∧
      (p = .queued r ∨ p = .batched r ∨ ∃ item, p = .framed r item) := by
  rcases hi with hi | ⟨k, rfl, hi⟩
  · exact ⟨_, carried_queue hs.exclusive hi, Or.inl rfl⟩
  · have hview := place_of_batch hi
    have hmem : i ∈ (s.conns k).ids := by
      rw [← Conn.view_isSome]
      rcases hview with hview | ⟨item, hview⟩ <;> rw [hview] <;> rfl
    rw [carried_conn hs.exclusive hmem]
    rcases hview with hview | ⟨item, hview⟩
    · exact ⟨_, hview, Or.inr (Or.inl rfl)⟩
    · exact ⟨_, hview, Or.inr (Or.inr ⟨item, rfl⟩)⟩

theorem awaits_due (hs : FreshRun svc ok s) {i : UInt32} {task : Task} {r : ℕ}
    (htask : s.manager.table i = some task) (hi : s.Awaits i r) :
    ∃ route, svc.senders task.route = some route ∧ route[task.stage]? = some r := by
  have hcoherent := coherent_of_run hs
  have howner := hcoherent.entry htask
  obtain ⟨rfl, -⟩ := hcoherent.owned howner
  have hentry : (s.life task.createAt).entry = some task := by rw [life_entry howner, htask]
  obtain ⟨p, hcarried, hp⟩ := carried_of_awaits hcoherent hi
  rw [← life_carried howner] at hcarried
  obtain ⟨route, hroute, hlocated⟩ := (routed_of_run hs task.createAt).located hcarried
  obtain ⟨hstage, hkey, -⟩ := Task.after_fields (s.requests task.createAt).body
    (s.requests task.createAt).key task.createAt (s.manager.history task.createAt).replies
  have hafter : task = (s.life task.createAt).taskAfter (s.life task.createAt).history.replies := by
    apply (filed_of_run hs task.createAt).task hentry
    intro code data outbox hanswered
    rw [hcarried] at hanswered
    rcases hp with rfl | rfl | ⟨item, rfl⟩ <;> cases hanswered
  have hdue : route[(s.manager.history task.createAt).replies.length]? = some r := by
    rcases hp with rfl | rfl | ⟨item, rfl⟩
    · exact hlocated.1
    · exact hlocated.1
    · exact hlocated.1.1
  refine ⟨route, ?_, ?_⟩
  · rw [hafter]
    exact (congrArg svc.senders hkey).trans hroute
  · rw [hafter]
    exact (congrArg (route[·]?) hstage).trans hdue

theorem stage_routing (hs : Run svc ok s) (hlt : s.submitted < 2 ^ 32) :
    Custody.Exclusive s.holds ∧
    (∀ i task r, s.manager.table i = some task → s.Awaits i r →
      ∃ route, svc.senders task.route = some route ∧ task.stage < route.length ∧
        route[task.stage]? = some r) ∧
    ∀ h, (s.manager.history h).handed = [] ∨
      ∃ route, svc.senders (s.requests h).key = some route ∧
        (s.manager.history h).handed <+: route := by
  have hrun := (freshRun_of_submitted hs hlt).1
  refine ⟨(coherent_of_run hrun).exclusive, ?_, ?_⟩
  · intro i task r htask hi
    obtain ⟨route, hroute, hr⟩ := awaits_due hrun htask hi
    exact ⟨route, hroute, Life.lt_of_getElem? hr, hr⟩
  · intro h
    by_cases hnil : (s.manager.history h).handed = []
    · exact Or.inl hnil
    · exact Or.inr ((routed_of_run hrun h).handed hnil)

theorem stage_routing_echo : ∃ s, Transition.run (step echo) start ((echoRun [2]).take 8) = some s ∧
    (s.conns 0).point = .write [⟨0, 3, [1]⟩] ∧ ∃ task, s.manager.table 0 = some task ∧
      ∃ route, echo.senders task.route = some route ∧ route[task.stage]? = some 0 := by
  have hview : ((Transition.run (step echo) start ((echoRun [2]).take 8)).map fun s =>
      (s.submitted, s.conns 0, s.manager.table 0)) =
      some (1, ⟨0, [], false, .write [⟨0, 3, [1]⟩]⟩, some ⟨.InternalError, [1], 0, "/", 0⟩) := by
    decide +kernel
  obtain ⟨s, hs, hfields⟩ := Option.map_eq_some_iff.mp hview
  obtain ⟨hsubmitted, hfields⟩ := Prod.mk.inj hfields
  obtain ⟨hconn, htask⟩ := Prod.mk.inj hfields
  have hlt : s.submitted < 2 ^ 32 := by
    rw [hsubmitted]
    decide
  have hawaits : s.Awaits 0 0 := by
    refine Or.inr ⟨0, ?_, ?_⟩ <;> rw [hconn]
    simp [Point.batch]
  obtain ⟨route, hroute, -, hr⟩ :=
    (stage_routing (Transition.reachable_of_run hs) hlt).2.1 0 _ 0 htask hawaits
  exact ⟨s, hs, by rw [hconn], _, htask, route, hroute, hr⟩

end State

end Mosec
