import Mosec.Shutdown

namespace Mosec

open Function (update update_self update_of_ne)
open Transition (Reachable)

namespace Front

variable {svc : Service} {limit : ℕ} {f f' : Front} {a : FrontAction}

abbrev Run (svc : Service) (limit : ℕ) (f : Front) : Prop :=
  Reachable (step svc limit) (fun _ _ => True) start f

inductive Move (svc : Service) (limit : ℕ) (f : Front) : FrontAction → Front → Prop
  | arrive (isSse : Bool) (key : String) : (∀ b, f.closing ≠ .complete b) →
      Move svc limit f (.arrive isSse key)
        { f.setVisit f.arrived (if f.isShutdown then .unavailable else .reading isSse key) with
          arrived := f.arrived + 1 }
  | submit {v : ℕ} {isSse : Bool} {key : String} (data : Bytes) :
      f.visits v = .reading isSse key →
      Move svc limit f (.body v data)
        { f.setVisit v (.submitted f.state.submitted) with
          state := f.state.submit isSse key data }
  | tooLarge {v : ℕ} {isSse : Bool} {key : String} (data : Bytes) :
      f.visits v = .reading isSse key → limit < data.length →
      Move svc limit f (.body v data) (f.setVisit v .tooLarge)
  | drop {v : ℕ} {isSse : Bool} {key : String} : f.visits v = .reading isSse key →
      Move svc limit f (.drop v) (f.setVisit v .gone)
  | service {act : Action} {s : State} : (∀ isSse key body, act ≠ .submit isSse key body) →
      f.state.step svc act = some s → Move svc limit f (.service act) { f with state := s }
  | terminate : f.closing = .serving →
      Move svc limit f .terminate { f with isShutdown := true, closing := .waiting }
  | ignore : f.closing ≠ .serving → Move svc limit f .terminate f
  | retry : f.closing = .waiting → f.state.manager.len ≠ 0 → Move svc limit f .tick f
  | complete : f.closing = .waiting → f.state.manager.len = 0 →
      Move svc limit f .tick { f with closing := .complete false }
  | timeout : f.closing = .waiting →
      Move svc limit f .timeout { f with closing := .complete true }

theorem move_of_step (h : f.step svc limit a = some f') : Move svc limit f a f' := by
  cases a with
  | arrive isSse key =>
    simp only [step, Front.arrive] at h
    split at h
    · cases h
    · next hclosing =>
      cases h
      exact .arrive isSse key hclosing
  | body v data =>
    simp only [step, body] at h
    split at h
    case h_1 isSse key hv =>
      split at h
      · cases h
        exact .submit data hv
      · cases h
        exact .tooLarge data hv (by omega)
    case h_2 => cases h
  | drop v =>
    simp only [step, Front.drop] at h
    split at h
    case h_1 isSse key hv =>
      cases h
      exact .drop hv
    case h_2 => cases h
  | service act =>
    cases act with
    | submit isSse key body => cases h
    | _ =>
      obtain ⟨s, hs, rfl⟩ := Option.map_eq_some_iff.mp h
      exact .service (by simp) hs
  | terminate =>
    simp only [step] at h
    split at h
    · cases h
      exact .terminate ‹_›
    · cases h
      exact .ignore ‹_›
  | tick =>
    simp only [step, tick] at h
    split at h
    · cases h
      split
      · exact .complete ‹_› ‹_›
      · exact .retry ‹_› ‹_›
    · cases h
  | timeout =>
    simp only [step] at h
    split at h
    · cases h
      exact .timeout ‹_›
    · cases h

theorem state_run (hf : Run svc limit f) : State.Run svc (fun _ _ => True) f.state := by
  induction hf with
  | init => exact .init
  | step _ _ hstep ih =>
    cases move_of_step hstep with
    | @submit v isSse key data hv => exact ih.step (a := .submit isSse key data) trivial rfl
    | service hact hs => exact ih.step trivial hs
    | _ => exact ih

theorem table_of_len {s : State} (hs : State.FreshRun svc (fun _ _ => True) s)
    (hlen : s.manager.len = 0) (i : UInt32) : s.manager.table i = none := by
  by_contra htable
  obtain ⟨task, htask⟩ := Option.ne_none_iff_exists'.mp htable
  have hown := (State.coherent_of_run hs).entry htask
  have hrun : State.Run svc (fun _ _ => True) s := hs.mono fun _ _ _ => trivial
  have hlt := (State.numbered_of_run hrun).below i (by rw [hown]; rfl)
  rw [TaskManager.len, List.length_eq_zero_iff, List.filter_eq_nil_iff] at hlen
  apply hlen i.toNat
  · exact List.mem_range.mpr (lt_min hlt i.toNat_lt_size)
  · rw [UInt32.ofNat_toNat, htask]
    rfl

theorem shutdown_waits (hf : Run svc limit f) (hlt : f.state.submitted < 2 ^ 32)
    (hstep : f.step svc limit a = some f') (hbefore : f.closing = .waiting)
    (hcomplete : f'.closing = .complete false) (h : ℕ) :
    (f'.state.requests h).handler.filed = false := by
  have hrun := (State.freshRun_of_submitted (state_run hf) hlt).1
  cases move_of_step hstep with
  | complete hwaiting hlen =>
    by_contra hfiled
    have hentry := (State.filed_of_run hrun h).filed (eq_true_of_ne_false hfiled)
    simp only [State.life, table_of_len hrun hlen, ite_self] at hentry
    cases hentry
  | _ => simp [setVisit, hbefore] at hcomplete

end Front

namespace Life

variable {svc : Service} {lab : Label} {ℓ ℓ' : Life}

def Unopened (ℓ : Life) : Prop := ℓ.request.handler = .absent → ℓ.stream.buffer = []

theorem Unopened.step (h : ℓ.Unopened) (hn : ℓ.Notified) (hs : Step svc lab ℓ ℓ')
    (hlab : lab = .hear → ℓ.request.handler ≠ .absent) : ℓ'.Unopened := by
  intro habsent
  rcases hs with hs | hs | ⟨hhear, hs⟩
  · have hleads := hs.leads
    rw [habsent] at hleads
    generalize hq : ℓ.request.handler = handler at hleads
    cases hleads
    have hbuffer := h hq
    cases hs
    case receiveEvent => simp_all
    all_goals exact hbuffer
  · obtain ⟨p, outbox, hp⟩ := hs.carried
    rw [hs.frame.2.1] at habsent
    rw [(hn.arriving (by rw [habsent]; rfl)).1] at hp
    cases hp
  · obtain ⟨events, buffer, rfl⟩ := hs.frame
    exact absurd habsent (hlab hhear)

end Life

namespace State

variable {svc : Service} {ok : State → Action → Prop} {s : State}

theorem submitted_of_hears (hs : FreshRun svc ok s) {k h : ℕ} {act : ConnAction}
    (hhears : Conn.Hears s.manager (s.conns k) act h) : (s.requests h).handler ≠ .absent := by
  intro habsent
  unfold Conn.Hears at hhears
  split at hhears
  · obtain ⟨-, item, -, hown⟩ := hhears
    have hgiven := ((coherent_of_run hs).owned hown).2
    rw [habsent] at hgiven
    cases hgiven
  · next p todo hp =>
    subst hhears
    obtain ⟨⟨-, hq⟩, -⟩ := belated_of_run hs k p todo hp
    change (s.requests p.request).handler.registered ∨ (s.requests p.request).handler.finished at hq
    rw [habsent] at hq
    rcases hq with hq | hq <;> cases hq
  · exact hhears

theorem stream_unsubmitted (hs : FreshRun svc ok s) {h : ℕ} (hh : s.submitted ≤ h) :
    (s.manager.streams h).workload ≤ 1 := by
  have hunopened : (s.life h).Unopened :=
    life_invariant Life.Unopened (fun _ _ => rfl)
      (fun hrun _ hlab hlife hinv => hinv.step (notified_of_run hrun _) hlife (by
        rintro rfl
        obtain ⟨k, act, -, hhears⟩ := hlab
        exact submitted_of_hears hrun hhears)) hs h
  have hbuffer : (s.manager.streams h).buffer = [] :=
    hunopened (by rw [life, (coherent_of_run hs).absent hh]; rfl)
  simp only [Stream.workload, hbuffer, List.length_nil]
  split <;> omega

def submission (svc : Service) (e : ℕ) (key : String) : ℕ :=
  31 + e + 12 * ((svc.senders key).getD []).length

theorem workload_submit (hs : FreshRun svc ok s) (isSse : Bool) (key : String) (body : Bytes) :
    (s.submit isSse key body).workload svc ≤
      s.workload svc + submission svc (12 * s.failures) key := by
  set e := 12 * s.failures with he
  have hstream := stream_unsubmitted hs (le_refl s.submitted)
  have hmanager : (s.submit isSse key body).manager = s.manager ∨
      (s.submit isSse key body).manager = s.manager.count s.submitted 1 :=
    submit_manager s.manager s.submitted isSse key body
  have hmanaged : ∀ n, managed svc e n (s.submit isSse key body).manager =
      managed svc e n s.manager := by
    intro n
    rcases hmanager with hm | hm <;> rw [hm]
    exact managed_of_eq rfl rfl rfl
  have htable : (s.submit isSse key body).manager.table = s.manager.table := by
    rcases hmanager with hm | hm <;> rw [hm]
    rfl
  have hnew : managed svc e (s.submitted + 1) s.manager ≤
      managed svc e s.submitted s.manager + 1 := by
    simp only [managed, Finset.sum_range_succ]
    omega
  have hrequest : ((Request.submit s.manager s.submitted isSse key body).2).workload svc e ≤
      30 + e + 12 * ((svc.senders key).getD []).length := by
    simp only [Request.submit]
    split
    · simp [Request.workload]
    · split <;> simp [Request.workload]
  change managed svc e (s.submitted + 1) (s.submit isSse key body).manager +
    ∑ h ∈ Finset.range (s.submitted + 1), (update s.requests s.submitted
      (Request.submit s.manager s.submitted isSse key body).2 h).workload svc e +
    ∑ k ∈ Finset.range s.connected,
      (s.conns k).workload svc (s.submit isSse key body).manager.table e ≤ _
  rw [Transition.sum_range_succ_update, hmanaged, htable]
  simp only [workload, submission, ← he]
  omega

end State

namespace Visit

def workload (svc : Service) (e : ℕ) : Visit → ℕ
  | .reading _ key => State.submission svc e key + 1
  | _ => 0

def readers : Visit → ℕ
  | .reading _ _ => 1
  | _ => 0

theorem workload_mono {svc : Service} {e e' : ℕ} (he : e' ≤ e) (visit : Visit) :
    visit.workload svc e' ≤ visit.workload svc e := by
  cases visit <;> simp only [workload, State.submission] <;> omega

end Visit

namespace Front

variable {svc : Service} {limit : ℕ} {f f' : Front} {a : FrontAction}

def workload (svc : Service) (f : Front) : ℕ :=
  f.state.workload svc +
    ∑ v ∈ Finset.range f.arrived, (f.visits v).workload svc (12 * f.state.failures)

def readers (f : Front) : ℕ := ∑ v ∈ Finset.range f.arrived, (f.visits v).readers

def internal : FrontAction → Bool
  | .body _ _ => true
  | .drop _ => true
  | .service act => State.internal act
  | _ => false

/-- Everything but a new connection of a worker, one more stream event, and a client that leaves
its stream; requests may arrive. -/
def Steady : FrontAction → Prop
  | .service act => State.internal act
  | _ => True

structure Flagged (svc : Service) (limit : ℕ) (f : Front) : Prop where
  run : Run svc limit f
  flag : f.isShutdown = true
  small : f.state.submitted + f.readers < 2 ^ 32

theorem absent_of_run (hf : Run svc limit f) {v : ℕ} (hv : f.arrived ≤ v) :
    f.visits v = .absent := by
  induction hf with
  | init => rfl
  | @step f f' a _ _ hstep ih =>
    have hother : ∀ {w isSse key} (visit : Visit), f.arrived ≤ v → f.visits w = .reading isSse key →
        update f.visits w visit v = .absent := by
      intro w isSse key visit hv hread
      rw [update_of_ne]
      · exact ih hv
      · rintro rfl
        rw [ih hv] at hread
        cases hread
    cases move_of_step hstep with
    | arrive isSse key hopen =>
      replace hv : f.arrived + 1 ≤ v := hv
      change update f.visits f.arrived _ v = _
      rw [update_of_ne (by omega)]
      exact ih (by omega)
    | submit data hread => exact hother _ hv hread
    | tooLarge data hread hlong => exact hother _ hv hread
    | drop hread => exact hother _ hv hread
    | _ => exact ih hv

theorem reading_lt (hf : Run svc limit f) {v : ℕ} {isSse : Bool} {key : String}
    (hv : f.visits v = .reading isSse key) : v < f.arrived := by
  by_contra hle
  rw [absent_of_run hf (by omega)] at hv
  cases hv

theorem flag_step (hflag : f.isShutdown = true) (hstep : f.step svc limit a = some f') :
    f'.isShutdown = true := by
  cases move_of_step hstep <;> first | exact hflag | rfl

theorem readers_setVisit (hf : Run svc limit f) {v : ℕ} {isSse : Bool} {key : String}
    (hv : f.visits v = .reading isSse key) (visit : Visit) (hvisit : visit.readers = 0) :
    ∑ w ∈ Finset.range f.arrived, (update f.visits v visit w).readers + 1 = f.readers := by
  have hsum := Transition.sum_update_eq (Finset.mem_range.mpr (reading_lt hf hv)) Visit.readers
    f.visits visit
  rw [hv, hvisit] at hsum
  exact hsum

theorem readers_step (hf : Run svc limit f) (hflag : f.isShutdown = true)
    (hstep : f.step svc limit a = some f') :
    f'.state.submitted + f'.readers ≤ f.state.submitted + f.readers := by
  cases move_of_step hstep with
  | arrive isSse key hopen =>
    have hsum := Transition.sum_range_succ_update f.arrived Visit.readers f.visits .unavailable
    simp only [Front.readers, setVisit, hflag, if_true]
    rw [hsum]
    exact le_rfl
  | submit data hread =>
    have hsum := readers_setVisit hf hread (.submitted f.state.submitted) rfl
    change f.state.submitted + 1 + _ ≤ _
    simp only [Front.readers, setVisit] at hsum ⊢
    omega
  | tooLarge data hread hlong =>
    have hsum := readers_setVisit hf hread .tooLarge rfl
    exact Nat.add_le_add_left (Nat.le_of_succ_le hsum.le) _
  | drop hread =>
    have hsum := readers_setVisit hf hread .gone rfl
    exact Nat.add_le_add_left (Nat.le_of_succ_le hsum.le) _
  | @service act s hact hs =>
    have hsame : s.submitted = f.state.submitted := by
      cases act with
      | submit isSse key body => exact absurd rfl (hact isSse key body)
      | connect r =>
        simp only [State.step] at hs
        split at hs
        · cases hs
          rfl
        · cases hs
      | request n act =>
        obtain ⟨⟨m, q⟩, -, rfl⟩ := Option.map_eq_some_iff.mp hs
        rfl
      | conn k act =>
        obtain ⟨⟨m, c⟩, -, rfl⟩ := Option.map_eq_some_iff.mp hs
        rfl
    exact (congrArg (· + f.readers) hsame).le
  | _ => exact le_rfl

theorem Flagged.step (hf : Flagged svc limit f) (hstep : f.step svc limit a = some f') :
    Flagged svc limit f' where
  run := hf.run.step trivial hstep
  flag := flag_step hf.flag hstep
  small := (readers_step hf.run hf.flag hstep).trans_lt hf.small

theorem failures_internal {act : Action} (hact : State.internal act) {s : State}
    (hs : f.state.step svc act = some s) : s.failures ≤ f.state.failures := by
  cases act with
  | submit isSse key body => cases hact
  | connect r => cases hact
  | request n act =>
    obtain ⟨⟨m, q⟩, -, rfl⟩ := Option.map_eq_some_iff.mp hs
    exact le_rfl
  | conn k act =>
    obtain ⟨⟨m, c⟩, hmove, rfl⟩ := Option.map_eq_some_iff.mp hs
    obtain ⟨touched, hm⟩ := Conn.move_of_step hmove
    by_cases hk : k ∈ Finset.range f.state.connected
    · have hsum := Transition.sum_update_eq hk Conn.failures f.state.conns c
      have hless := hm.failures_le
      simp only [State.failures, State.setConn]
      omega
    · have hsum := Transition.sum_update_of_notMem hk Conn.failures f.state.conns c
      exact hsum.le

theorem workload_setVisit (hf : Run svc limit f) {v : ℕ} {isSse : Bool} {key : String}
    (hv : f.visits v = .reading isSse key) (visit : Visit) (e : ℕ)
    (hvisit : visit.workload svc e = 0) :
    ∑ w ∈ Finset.range f.arrived, (update f.visits v visit w).workload svc e +
        (State.submission svc e key + 1) =
      ∑ w ∈ Finset.range f.arrived, (f.visits w).workload svc e := by
  have hsum := Transition.sum_update_eq (Finset.mem_range.mpr (reading_lt hf hv))
    (Visit.workload svc e) f.visits visit
  rw [hv, hvisit] at hsum
  exact hsum

theorem Flagged.descent (hf : Flagged svc limit f) (ha : Steady a)
    (hstep : f.step svc limit a = some f') :
    f'.workload svc + (if internal a then 1 else 0) ≤ f.workload svc := by
  have hlt : f.state.submitted < 2 ^ 32 := by
    have hsmall := hf.small
    omega
  have hrun := (State.freshRun_of_submitted (state_run hf.run) hlt).1
  cases move_of_step hstep with
  | arrive isSse key hopen =>
    have hsum := Transition.sum_range_succ_update f.arrived
      (Visit.workload svc (12 * f.state.failures)) f.visits .unavailable
    have hnew : Visit.unavailable.workload svc (12 * f.state.failures) = 0 := rfl
    simp only [workload, setVisit, hf.flag, if_true, hsum, internal, Bool.false_eq_true, if_false]
    omega
  | @submit v isSse key data hread =>
    have hsum := workload_setVisit hf.run hread (.submitted f.state.submitted)
      (12 * f.state.failures) rfl
    have hstate := State.workload_submit hrun isSse key data
    have hfailures : (f.state.submit isSse key data).failures = f.state.failures := rfl
    simp only [workload, setVisit, internal, if_true, hfailures]
    omega
  | tooLarge data hread hlong =>
    have hsum := workload_setVisit hf.run hread .tooLarge (12 * f.state.failures) rfl
    simp only [workload, setVisit, internal, if_true]
    omega
  | drop hread =>
    have hsum := workload_setVisit hf.run hread .gone (12 * f.state.failures) rfl
    simp only [workload, setVisit, internal, if_true]
    omega
  | @service act s hact hs =>
    have hstate := State.workload_lt_of_step hrun ha hs
    have hfailures : 12 * s.failures ≤ 12 * f.state.failures :=
      Nat.mul_le_mul_left 12 (failures_internal ha hs)
    have hvisits : ∑ v ∈ Finset.range f.arrived, (f.visits v).workload svc (12 * s.failures) ≤
        ∑ v ∈ Finset.range f.arrived, (f.visits v).workload svc (12 * f.state.failures) :=
      Finset.sum_le_sum fun v _ => (f.visits v).workload_mono hfailures
    replace ha : State.internal act = true := ha
    simp only [workload, internal, ha, if_true]
    omega
  | _ => simp [internal, workload]

structure Since (svc : Service) (limit : ℕ) (f g : Front) : Prop where
  run : Run svc limit g
  flag : g.isShutdown = true
  arrived : f.arrived ≤ g.arrived
  refused : ∀ v, f.arrived ≤ v → v < g.arrived → g.visits v = .unavailable
  readers : g.state.submitted + g.readers ≤ f.state.submitted + f.readers

theorem Since.step {g g' : Front} (h : Since svc limit f g) (hstep : g.step svc limit a = some g') :
    Since svc limit f g' where
  run := h.run.step trivial hstep
  flag := flag_step h.flag hstep
  arrived := by
    cases move_of_step hstep <;> first | exact h.arrived | exact h.arrived.trans (Nat.le_succ _)
  readers := (readers_step h.run h.flag hstep).trans h.readers
  refused := by
    intro v hv hlt
    have hother : ∀ {w isSse key} (visit : Visit), v < g.arrived →
        g.visits w = .reading isSse key → update g.visits w visit v = .unavailable := by
      intro w isSse key visit hlt hread
      rw [update_of_ne]
      · exact h.refused v hv hlt
      · rintro rfl
        rw [h.refused v hv hlt] at hread
        cases hread
    cases move_of_step hstep with
    | arrive isSse key hopen =>
      replace hlt : v < g.arrived + 1 := hlt
      change update g.visits g.arrived _ v = _
      by_cases hlast : v = g.arrived
      · rw [hlast, update_self, if_pos h.flag]
      · rw [update_of_ne hlast]
        exact h.refused v hv (by omega)
    | submit data hread => exact hother _ hlt hread
    | tooLarge data hread hlong => exact hother _ hlt hread
    | drop hread => exact hother _ hlt hread
    | _ => exact h.refused v hv hlt

/-- From the signal on, nothing that arrives gets in, and what was in comes to an end after a
number of steps that no traffic adds to. -/
theorem shutdown_drains (hf : Run svc limit f) (hflag : f.isShutdown = true)
    {as : List FrontAction} {g : Front}
    (hrun : Transition.run (step svc limit) f as = some g) :
    (∀ v, f.arrived ≤ v → v < g.arrived → g.visits v = .unavailable) ∧
      g.state.submitted ≤ f.state.submitted + f.readers ∧
      (f.state.submitted + f.readers < 2 ^ 32 → (∀ a ∈ as, Steady a) →
        as.countP internal ≤ f.workload svc) := by
  have hsince : Since svc limit f g := by
    have hreach : Reachable (step svc limit) (fun _ _ => True) f g :=
      .run .init (Transition.follows_true f as) hrun
    refine hreach.invariant ⟨hf, hflag, le_rfl, ?_, le_rfl⟩ fun _ _ _ h _ hstep => h.step hstep
    intro v hv hlt
    omega
  refine ⟨hsince.refused, (Nat.le_add_right _ _).trans hsince.readers, ?_⟩
  intro hlt has
  have hflagged : Flagged svc limit f := ⟨hf, hflag, hlt⟩
  have hcount := Transition.countP_le_of_descent (p := internal) (μ := workload svc)
    (fun _ _ _ h ha hstep => ⟨h.step hstep, h.descent ha hstep⟩) hflagged
    (Transition.follows_of_all (fun a ha _ => has a ha) f) hrun
  exact (Nat.le_add_right _ _).trans hcount.2

theorem shutdown_drains_late : ∃ f g,
    Transition.run (step echo 8) start [.arrive false "/", .terminate] = some f ∧
      Transition.run (step echo 8) f [.arrive false "/", .body 0 [1]] = some g ∧
      g.visits 1 = .unavailable ∧ g.state.submitted ≤ 1 ∧
        List.countP internal [.arrive false "/", .body 0 [1]] ≤ f.workload echo := by
  have hview : ((Transition.run (step echo 8) start [.arrive false "/", .terminate]).bind fun f =>
      (Transition.run (step echo 8) f [.arrive false "/", .body 0 [1]]).map fun g =>
        (f.isShutdown, f.state.submitted, f.arrived, f.visits 0, g.arrived)) =
      some (true, 0, 1, .reading false "/", 2) := by
    decide +kernel
  obtain ⟨f, hf, hrest⟩ := Option.bind_eq_some_iff.mp hview
  obtain ⟨g, hg, hfields⟩ := Option.map_eq_some_iff.mp hrest
  simp only [Prod.mk.injEq] at hfields
  obtain ⟨hflag, hsubmitted, harrived, hvisit, harrived'⟩ := hfields
  have hreaders : f.readers = 1 := by
    rw [readers, harrived, Finset.sum_range_one, hvisit]
    rfl
  obtain ⟨hrefused, hle, hcount⟩ := shutdown_drains (Transition.reachable_of_run hf) hflag hg
  rw [hsubmitted, hreaders] at hle hcount
  exact ⟨f, g, hf, hg, hrefused 1 (by omega) (by omega), hle,
    hcount (by decide) (by simp [Steady])⟩

def expiringRun : List FrontAction :=
  [.arrive false "/", .body 0 [1], .terminate] ++ List.replicate 4 (.service (.request 0 .run)) ++
    [.service (.request 0 .elapse)] ++ List.replicate 2 (.service (.request 0 .run))

theorem shutdown_waits_expired : ∃ f f', Transition.run (step echo 8) start expiringRun = some f ∧
    f.step echo 8 .tick = some f' ∧ f'.closing = .complete false ∧
      (f'.state.requests 0).handler.filed = false := by
  have hview : ((Transition.run (step echo 8) start expiringRun).bind fun f =>
      (f.step echo 8 .tick).map fun f' => (f.state.submitted, f.closing, f'.closing)) =
      some (1, .waiting, .complete false) := by
    decide +kernel
  obtain ⟨f, hf, hrest⟩ := Option.bind_eq_some_iff.mp hview
  obtain ⟨f', hf', hfields⟩ := Option.map_eq_some_iff.mp hrest
  simp only [Prod.mk.injEq] at hfields
  obtain ⟨hsubmitted, hwaiting, hcomplete⟩ := hfields
  exact ⟨f, f', hf, hf', hcomplete, shutdown_waits (Transition.reachable_of_run hf)
    (by rw [hsubmitted]; decide) hf' hwaiting hcomplete 0⟩

end Front

end Mosec
