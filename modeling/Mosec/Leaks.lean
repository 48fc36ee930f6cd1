import Mosec.Responses
import Mosec.Keeping

namespace Mosec.State

variable {svc : Service} {ok : State → Action → Prop} {s : State} {a : Action}

/-- The completion of the request is still to come from a connection: its id is held and its
notifier not taken, or a connection has taken the notifier and not looked at it. -/
def Tended (s : State) (h : ℕ) : Prop :=
  (s.manager.notifiers (s.requests h).id = some h ∧ ∃ b, (s.requests h).id ∈ s.holds b) ∨
    ∃ k jobs next, (s.conns k).point = .check (s.requests h).id h jobs next

/-- Routes are known, a client goes away only while the completion of its request is to come, and
then no failing connection takes the id along. -/
structure Tidy (svc : Service) (s : State) (a : Action) : Prop where
  known : ∀ isSse key body, a = .submit isSse key body → (svc.senders key).isSome
  tended : ∀ h, a = .request h .disconnect → s.Tended h
  kept : ∀ i ∈ s.loses svc a, ∀ h, s.manager.owner i = some h →
    (s.requests h).handler ≠ .dropped

def Quiescent (svc : Service) (s : State) : Prop :=
  (∀ h < s.submitted, (s.requests h).handler.idle) ∧
    (∀ r < svc.runtimes.length, s.manager.queues r = []) ∧
    ∀ k < s.connected, (s.conns k).ids = []

instance (svc : Service) (s : State) : Decidable (s.Quiescent svc) :=
  inferInstanceAs (Decidable (_ ∧ _ ∧ _))

theorem life_tidy (hs : FreshRun svc ok s) (ha : s.Tidy svc a) {h : ℕ} {lab : Label} {ℓ' : Life}
    (hlab : s.Caused svc a h lab) (hstep : Life.Step svc lab (s.life h) ℓ') :
    (s.life h).Tidy svc lab := by
  have hcoherent := coherent_of_run hs
  cases lab with
  | submit key body =>
    obtain ⟨-, isSse, hact⟩ := hlab
    exact ha.known isSse key body hact
  | disconnect =>
    rcases ha.tended h hlab with ⟨hnotifier, b, hb⟩ | ⟨k, jobs, next, hp⟩
    · have hown := hcoherent.notifier hnotifier
      obtain ⟨p, outbox, hcarried⟩ := carried_of_held hcoherent hown hb
      exact ⟨p, outbox, hcarried, Or.inl (by simp [life, hnotifier])⟩
    · have hnamed := hcoherent.named k
      simp only [Conn.Named, hp] at hnamed
      refine ⟨.check, .empty, ?_, Or.inr rfl⟩
      apply carried_of_view (k := k) hcoherent hnamed
      simp [Conn.view, Conn.place, hp, Point.place, Point.outbox]
  | lose =>
    rcases hstep with hstep | hstep | ⟨hhear, -⟩
    · cases hstep
    · obtain ⟨p, outbox, hp⟩ := hstep.carried
      exact ha.kept _ hlab h (owner_of_carried hp)
    · cases hhear
  | _ => trivial

theorem kept_of_run (hs : FreshRun svc (Tidy svc) s) (h : ℕ) : (s.life h).Kept svc :=
  life_invariant (fun ℓ => ℓ.Kept svc) Life.Kept.new
    (fun hrun hok hlab hlife hinv => hinv.step (notified_of_run hrun _) (filed_of_run hrun _) hlife
      (life_tidy hrun hok hlab hlife)) hs h

theorem runtime_of_queued (hs : FreshRun svc ok s) {i : UInt32} {r : ℕ}
    (hi : i ∈ s.manager.queues r) : r < svc.runtimes.length := by
  have hcoherent := coherent_of_run hs
  obtain ⟨h, hh⟩ := Option.isSome_iff_exists.mp (hcoherent.held (a := .queue r) hi)
  obtain ⟨rfl, -⟩ := hcoherent.owned hh
  have hcarried : (s.life h).carried = some (.queued r, .empty) :=
    (life_carried hh).trans (carried_queue hcoherent.exclusive hi)
  obtain ⟨route, hroute, hr, -⟩ := (routed_of_run hs h).located hcarried
  exact svc.senders_lt hroute (List.mem_of_getElem? hr)

theorem uncarried_of_empty (hs : FreshRun svc ok s)
    (hqueues : ∀ r < svc.runtimes.length, s.manager.queues r = [])
    (hconns : ∀ k < s.connected, (s.conns k).ids = []) (h : ℕ) : (s.life h).carried = none := by
  by_contra hcarried
  obtain ⟨⟨p, outbox⟩, hp⟩ := Option.ne_none_iff_exists'.mp hcarried
  have hown := owner_of_carried hp
  rw [life_carried hown] at hp
  obtain ⟨b, hb⟩ := Custody.exists_of_locate hp
  have hheld : (s.requests h).id ∈ s.holds b := by
    rw [← s.shows_holds b, hb]
    rfl
  cases b with
  | queue r =>
    rw [holds, hqueues r (runtime_of_queued hs hheld)] at hheld
    cases hheld
  | conn k =>
    by_cases hk : k < s.connected
    · rw [holds, hconns k hk] at hheld
      cases hheld
    · rw [holds, unaccepted_of_run hs k (by omega)] at hheld
      cases hheld

theorem uncarried_of_quiescent (hs : FreshRun svc ok s) (hq : s.Quiescent svc) (h : ℕ) :
    (s.life h).carried = none :=
  uncarried_of_empty hs hq.2.1 hq.2.2 h

theorem idle_of_quiescent (hs : FreshRun svc ok s) (hq : s.Quiescent svc) (h : ℕ) :
    (s.requests h).handler.idle := by
  by_cases hh : h < s.submitted
  · exact hq.1 h hh
  · rw [(coherent_of_run hs).absent (by omega)]
    rfl

theorem quiescent_leaves_nothing (hs : FreshRun svc (Tidy svc) s) (hq : s.Quiescent svc)
    (i : UInt32) : s.manager.table i = none ∧ s.manager.notifiers i = none ∧
      s.manager.streamSenders i = none := by
  have hcoherent := coherent_of_run hs
  have hnothing : ∀ h, (s.life h).entry = none ∧ (s.life h).notifier = false ∧
      (s.life h).sender = false := fun h =>
    (kept_of_run hs h).nothing_left (idle_of_quiescent hs hq h) (uncarried_of_quiescent hs hq h)
  refine ⟨?_, ?_, ?_⟩
  · by_contra hentry
    obtain ⟨task, htask⟩ := Option.ne_none_iff_exists'.mp hentry
    have hown := hcoherent.entry htask
    obtain ⟨rfl, -⟩ := hcoherent.owned hown
    rw [← life_entry hown, (hnothing _).1] at htask
    cases htask
  · by_contra hnotifier
    obtain ⟨h, hh⟩ := Option.ne_none_iff_exists'.mp hnotifier
    obtain ⟨rfl, -⟩ := hcoherent.owned (hcoherent.notifier hh)
    have hfalse := (hnothing h).2.1
    simp [life, hh] at hfalse
  · by_contra hsender
    obtain ⟨h, hh⟩ := Option.ne_none_iff_exists'.mp hsender
    obtain ⟨rfl, -⟩ := hcoherent.owned (hcoherent.sender hh)
    have hfalse := (hnothing h).2.2
    simp [life, hh] at hfalse

def tidies (svc : Service) (s : State) : Action → Bool
  | .submit _ key _ => (svc.senders key).isSome
  | .request h .disconnect => s.manager.notifiers (s.requests h).id == some h &&
    (s.manager.queues 0).contains (s.requests h).id
  | a => (s.loses svc a).isEmpty

theorem tidy_of_tidies (h : s.tidies svc a) : s.Tidy svc a where
  known := by
    rintro isSse key body rfl
    exact h
  tended := by
    rintro n rfl
    simp only [tidies, Bool.and_eq_true, beq_iff_eq, List.contains_iff_mem] at h
    exact Or.inl ⟨h.1, .queue 0, h.2⟩
  kept := by
    intro i hi
    have hloses : s.loses svc a = [] := by
      cases a with
      | submit => rfl
      | connect => rfl
      | request n act => rfl
      | conn k act => exact List.isEmpty_iff.mp h
    rw [hloses] at hi
    cases hi

def abandonedRun : List Action :=
  [.connect 0, .submit false "/" [1]] ++ List.replicate 4 (.request 0 .run) ++
    [.request 0 .disconnect, .conn 0 .recv, .conn 0 .run, .conn 0 .writeOk,
      .conn 0 (.readReply .Normal [⟨0, 0, [2]⟩])] ++ List.replicate 7 (.conn 0 .run)

theorem quiescent_leaves_nothing_abandoned :
    ∃ s, Transition.run (step echo) start abandonedRun = some s ∧
      (s.requests 0).handler = .dropped ∧ s.manager.table 0 = none := by
  have hview : ((Transition.run (step echo) start abandonedRun).map fun s =>
      (s.submitted, (s.requests 0).handler, decide (s.Quiescent echo))) =
      some (1, .dropped, true) := by
    decide +kernel
  have hchecked : Transition.checked (step echo) (tidies echo) start abandonedRun := by
    decide +kernel
  obtain ⟨s, hs, hrun, hfields⟩ :=
    freshRun_of_checked (fun _ _ => tidy_of_tidies) hchecked hview (by decide)
  obtain ⟨hhandler, hquiescent⟩ := Prod.mk.inj hfields
  have hnothing := quiescent_leaves_nothing hrun (of_decide_eq_true hquiescent) 0
  exact ⟨s, hs, hhandler, hnothing.1⟩

theorem completed_request_leaks : ∃ s, Run echo (fun _ _ => True) s ∧ s.Quiescent echo ∧
    s.manager.table 0 = some ⟨.Normal, [2], 1, "/", 0⟩ := by
  have hview : ((Transition.run (step echo) start
      ((echoRun [2]).take 16 ++ [.request 0 .disconnect])).map fun s =>
        (decide (s.Quiescent echo), s.manager.table 0)) =
      some (true, some ⟨.Normal, [2], 1, "/", 0⟩) := by
    decide +kernel
  obtain ⟨s, hs, hfields⟩ := Option.map_eq_some_iff.mp hview
  obtain ⟨hquiescent, htable⟩ := Prod.mk.inj hfields
  exact ⟨s, Transition.reachable_of_run hs, of_decide_eq_true hquiescent, htable⟩

end Mosec.State
