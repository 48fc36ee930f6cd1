import Mosec.Fulfilment

namespace Mosec.State

variable {V : Type} {svc : Service} {stages : ℕ → Stage V} {ok : State → Action → Prop}
  {s s' : State} {a : Action}

def Delivered : Action → Prop
  | .conn _ (.readErr _ _) => False
  | .conn _ (.readReply code _) => code = .Normal
  | _ => True

/-- Requests name routes of the configuration, every worker answers a batch it has got as its stage
computes, and nobody gives up waiting. A connection may fail to write a batch. -/
structure Faultless (svc : Service) (stages : ℕ → Stage V) (s : State) (a : Action) : Prop where
  routed : ∀ isSse key body, a = .submit isSse key body → (svc.senders key).isSome
  exchanged : s.Exchanged svc stages a
  delivered : Delivered a
  patient : ∀ h, a ≠ .request h .elapse ∧ a ≠ .request h .disconnect

theorem not_panicked (hs : FreshRun svc ok s) (hunclosed : ∀ h, (s.life h).Unclosed) {k : ℕ}
    {m : TaskManager} {c : Conn} (hrun : (s.conns k).run svc s.manager = some (m, c)) :
    c.point ≠ .panicked := by
  have hcoherent := coherent_of_run hs
  obtain ⟨touched, hm⟩ := Conn.move_of_run hrun
  intro hpanicked
  cases hm
  case fetch hpoint hp hitems => rcases hpoint with ⟨-, rfl⟩ | rfl <;> cases hpanicked
  case workDone next hp => cases next <;> cases hpanicked
  case sendPanic id jobs next task hp htask hroute =>
    have hview : (s.conns k).view id = some (.toSend, .empty) := by
      simp [Conn.view, Conn.place, hp, Point.place, Point.outbox, Job.id, Job.place]
    have hown := hcoherent.entry htask
    obtain ⟨hid, -⟩ := hcoherent.owned hown
    rw [← hid] at hown hview htask
    have hcarried := carried_of_view hcoherent hown hview
    obtain ⟨route, hroute', -⟩ := (routed_of_run hs task.createAt).located hcarried
    have htask' := (filed_of_run hs task.createAt).task ((life_entry hown).trans htask)
      (by simp [hcarried])
    have hkey := (Task.after_fields (s.life task.createAt).request.body
      (s.life task.createAt).request.key task.createAt (s.life task.createAt).history.replies).2.1
    rw [htask', Life.taskAfter] at hroute
    rw [← hkey] at hroute'
    cases hroute'.symm.trans hroute
  case signalPanic id h jobs next hp hclosed =>
    have hnamed := hcoherent.named k
    simp only [Conn.Named, hp] at hnamed
    obtain ⟨hid, -⟩ := hcoherent.owned hnamed
    rw [← hid] at hnamed hp
    have hview : (s.conns k).view (s.requests h).id = some (.signal, .empty) := by
      simp [Conn.view, Conn.place, hp, Point.place, Point.outbox]
    have hcarried := carried_of_view hcoherent hnamed hview
    have hopen := hunclosed h (by simp [hcarried])
    rw [show (s.manager.oneshots h).closed = false from hopen] at hclosed
    cases hclosed
  all_goals cases hpanicked

theorem settled_of_run (hs : FreshRun svc (Faultless svc stages) s) (k : ℕ) :
    (s.conns k).Settled := by
  induction hs generalizing k with
  | init => exact ⟨by simp [Conn.absent, start, Point.next], fun _ => rfl⟩
  | @step s s' a hrun hok hstep ih =>
    cases a with
    | submit isSse key body =>
      obtain rfl := Option.some.inj hstep
      exact ih k
    | request n act =>
      obtain ⟨⟨m, q⟩, -, rfl⟩ := Option.map_eq_some_iff.mp hstep
      exact ih k
    | connect r =>
      simp only [State.step] at hstep
      split at hstep
      · obtain rfl := Option.some.inj hstep
        by_cases hk : k = s.connected
        · rw [hk, accept_conns_self]
          exact ⟨by simp [Conn.accept, Point.next], fun _ => rfl⟩
        · rw [accept_conns_ne s r hk]
          exact ih k
      · cases hstep
    | conn j act =>
      obtain ⟨⟨m, c⟩, hmove, rfl⟩ := Option.map_eq_some_iff.mp hstep
      obtain ⟨touched, hm⟩ := Conn.move_of_step hmove
      by_cases hk : k = j
      · subst hk
        rw [setConn_conns_self]
        refine (ih k).move hm ?_
        rintro code items rfl
        exact (FrameExchange.items_eq hok.2.exchanged).1
      · rw [setConn_conns_ne s m c hk]
        exact ih k

theorem loses_eq_nil (hs : FreshRun svc (Faultless svc stages) s)
    (hunclosed : ∀ h, (s.life h).Unclosed) (ha : Delivered a) (hstep : s.step svc a = some s') :
    s.loses svc a = [] := by
  cases a with
  | conn k act =>
    cases act with
    | run =>
      simp only [loses]
      split
      · next m c hrun => exact if_neg (not_panicked hs hunclosed hrun)
      · rfl
    | writeErr =>
      obtain ⟨⟨m, c⟩, hmove, -⟩ := Option.map_eq_some_iff.mp hstep
      obtain ⟨touched, hm⟩ := Conn.move_of_step hmove
      cases hm with
      | writeErr hp =>
        rw [loses, (settled_of_run hs k).answered (by simp [hp, Point.next])]
        rfl
    | readErr => exact ha.elim
    | _ => rfl
  | _ => rfl

theorem spared_of_faultless (ha : s.Faultless svc stages a) (hlost : s.loses svc a = []) (h : ℕ) :
    s.Spared svc stages h a where
  routed isSse key body hact _ := ha.routed isSse key body hact
  served := by
    rintro k act rfl -
    cases act with
    | readReply code items =>
      obtain rfl : code = .Normal := ha.delivered
      refine ⟨rfl, fun sent hsent _ => ?_⟩
      rw [(FrameExchange.items_eq ha.exchanged).2 rfl]
      exact List.mem_map_of_mem hsent
    | readErr => exact ha.delivered.elim
    | _ => trivial
  kept _ := by
    rw [hlost]
    exact List.not_mem_nil
  patient := ha.patient h

theorem spared_of_run (hs : FreshRun svc (Faultless svc stages) s) (h : ℕ) :
    FreshRun svc (Spared svc stages h) s := by
  induction hs generalizing h with
  | init => exact .init
  | @step s s' a hrun hok hstep ih =>
    have hlost := loses_eq_nil hrun (fun h => unclosed_of_run (ih h)) hok.2.delivered hstep
    exact (ih h).step ⟨hok.1, spared_of_faultless hok.2 hlost h⟩ hstep

/-- The service is totally correct: a run in which at most writes fail is no longer than what there
was to do, and where it can go on no further, every request has got what its route computes. -/
theorem service_fulfils (hs : Run svc (Faultless svc stages) s) (hlt : s.submitted < 2 ^ 32)
    (hstages : Stage.Compatible svc stages) (hacyclic : ∀ r, ¬ Relation.TransGen svc.Feeds r r)
    {as : List Action} {t : State}
    (has : Transition.Follows (step svc) (fun s a => internal a ∧ s.Faultless svc stages a) s as)
    (hrun : Transition.run (step svc) s as = some t) :
    as.length ≤ s.workload svc ∧ (t.Resting svc → t.Manned svc →
      ∀ h < t.submitted, t.Resolved svc stages h) := by
  have hdescent : ∀ s a s', Run svc (Faultless svc stages) s ∧ s.submitted < 2 ^ 32 →
      internal a ∧ s.Faultless svc stages a → s.step svc a = some s' →
      (Run svc (Faultless svc stages) s' ∧ s'.submitted < 2 ^ 32) ∧
        s'.workload svc < s.workload svc := by
    rintro s a s' ⟨hrun, hlt⟩ ⟨hinternal, hfaultless⟩ hstep
    have hfresh := (freshRun_of_submitted hrun hlt).1
    refine ⟨⟨hrun.step hfaultless hstep, ?_⟩, workload_lt_of_step hfresh hinternal hstep⟩
    rwa [submitted_of_internal hinternal hstep]
  obtain ⟨⟨ht, hlt'⟩, hlength⟩ :=
    Transition.length_le_of_descent hdescent ⟨hs, hlt⟩ has hrun
  have hfresh := (freshRun_of_submitted ht hlt').1
  exact ⟨by omega, fun hrest hmanned h hh =>
    resolved_of_resting (spared_of_run hfresh h) hrest hmanned hacyclic hstages hh⟩

theorem delivered_of_exchanges (h : s.exchanges svc stages a) : Delivered a := by
  unfold exchanges at h
  split at h
  case h_1 k code items => exact (of_decide_eq_true h).1
  case h_2 => cases h
  case h_3 hreply herr =>
    unfold Delivered
    split
    · exact (herr _ _ _ rfl).elim
    · exact (hreply _ _ _ rfl).elim
    · trivial

def faultless (svc : Service) (stages : ℕ → Stage V) (s : State) (a : Action) : Bool :=
  s.exchanges svc stages a && match a with
    | .submit _ key _ => (svc.senders key).isSome
    | .request _ .elapse => false
    | .request _ .disconnect => false
    | _ => true

theorem faultless_of_test (h : s.faultless svc stages a) : s.Faultless svc stages a := by
  simp only [faultless, Bool.and_eq_true] at h
  obtain ⟨hexchanges, hrest⟩ := h
  refine ⟨?_, exchanged_of_exchanges hexchanges, delivered_of_exchanges hexchanges, ?_⟩
  · rintro isSse key body rfl
    exact hrest
  · refine fun h => ⟨?_, ?_⟩ <;> rintro rfl <;> cases hrest

def failoverRun : List Action := List.flatten [
  [.connect 0, .connect 0, .connect 1, .submit false "/" [1]],
  List.replicate 4 (.request 0 .run),
  [.conn 0 .recv, .conn 0 .run, .conn 0 .writeErr],
  List.replicate 3 (.conn 0 .run),
  [.conn 1 .recv, .conn 1 .run, .conn 1 .writeOk, .conn 1 (.readReply .Normal [⟨0, 1, [7, 1, 0]⟩])],
  List.replicate 4 (.conn 1 .run),
  [.conn 2 .recv, .conn 2 .timeUp, .conn 2 .run, .conn 2 .writeOk,
    .conn 2 (.readReply .Normal [⟨0, 2, [1, 0, 1, 0]⟩])],
  List.replicate 6 (.conn 2 .run),
  [.request 0 .resume, .request 0 .run, .request 0 .run]]

theorem service_fulfils_failover : ∃ s, Run relay (Faultless relay relayStages) s ∧
    s.Resting relay ∧ (s.requests 0).handler.overloaded = false ∧
      ∀ h < s.submitted, s.Resolved relay relayStages h := by
  have hview : ((Transition.run (step relay) start failoverRun).map fun s =>
      ([s.submitted, s.connected], [s.conns 0, s.conns 1, s.conns 2], s.requests 0,
        s.manager.queues 0 ++ s.manager.queues 1)) =
      some ([1, 3], [⟨0, [], false, .closed⟩, ⟨0, [], false, .collect []⟩,
        ⟨1, [], false, .collect []⟩],
        ⟨false, "/", [1], 0, .done (.task ⟨.Normal, [1, 0, 1, 0], 2, "/", 0⟩)⟩, []) := by
    decide +kernel
  have hchecked : Transition.checked (step relay) (faultless relay relayStages) start
      failoverRun := by
    decide +kernel
  obtain ⟨s, -, hrun, hfields⟩ :=
    Transition.Reachable.of_checked (fun _ _ => faultless_of_test) hchecked hview
  simp only [Prod.mk.injEq, List.cons.injEq, and_true, List.append_eq_nil_iff] at hfields
  obtain ⟨⟨hsubmitted, hconnected⟩, ⟨hzero, hone, htwo⟩, hrequest, hqueue, hqueue'⟩ := hfields
  have hlt : s.submitted < 2 ^ 32 := by
    rw [hsubmitted]
    decide
  have hrest : s.Resting relay := by
    apply resting_of_view (freshRun_of_submitted hrun hlt).1
    · intro h hh
      obtain rfl : h = 0 := by omega
      rw [hrequest]
      exact ⟨rfl, rfl⟩
    · intro k hk
      obtain rfl | rfl | rfl : k = 0 ∨ k = 1 ∨ k = 2 := by omega
      · exact Or.inl (by rw [hzero])
      · exact Or.inr (by rw [hone]; exact ⟨rfl, hqueue⟩)
      · exact Or.inr (by rw [htwo]; exact ⟨rfl, hqueue'⟩)
  have hmanned : s.Manned relay := by
    intro r hr
    replace hr : r < 2 := hr
    obtain rfl | rfl : r = 0 ∨ r = 1 := by omega
    · exact ⟨1, by omega, by rw [hone]; rfl, by rw [hone]⟩
    · exact ⟨2, by omega, by rw [htwo]; rfl, by rw [htwo]⟩
  have hdone : Transition.Follows (step relay)
      (fun s a => internal a ∧ s.Faultless relay relayStages a) s [] := trivial
  have hfulfils := service_fulfils hrun hlt relayStages_compatible relay_acyclic hdone rfl
  exact ⟨s, hrun, hrest, by rw [hrequest]; rfl, hfulfils.2 hrest hmanned⟩

end Mosec.State
