import Mosec.Responses

namespace Mosec

open Function (update update_self update_of_ne)

theorem TaskManager.dropSender_closed (m : TaskManager) (i : UInt32) (n : ℕ) :
    (m.dropSender i n).closed = (m.oneshots n).closed := by
  rw [State.dropSender_apply]
  split <;> rfl

theorem Conn.Move.closed {svc : Service} {m m' : TaskManager} {c c' : Conn} {act : ConnAction}
    {touched : List UInt32} (hm : Move svc m c act touched m' c') (n : ℕ) :
    (m'.oneshots n).closed = (m.oneshots n).closed := by
  cases hm
  case signal id h jobs next hp hopen =>
    change (update m.oneshots h { m.oneshots h with sent := true } n).closed = _
    by_cases hn : n = h
    · rw [hn, update_self]
    · rw [update_of_ne hn]
  all_goals rfl

theorem Conn.Move.checked {svc : Service} {m m' : TaskManager} {c c' : Conn} {act : ConnAction}
    {touched : List UInt32} (hm : Move svc m c act touched m' c') {id : UInt32} {n : ℕ}
    {jobs : List Job} {next : Next} (hp' : c'.point = .signal id n jobs next) :
    (m.oneshots n).closed = false := by
  cases hm
  case checkOpen hp hopen =>
    cases hp'
    exact hopen
  case recv hp hq hpoint =>
    rcases hpoint with rfl | rfl <;> cases hp'
  case fetch hpoint hp hitems =>
    rcases hpoint with ⟨-, rfl⟩ | rfl <;> cases hp'
  case workDone next hp => cases next <;> cases hp'
  all_goals cases hp'

theorem Request.Move.closed {svc : Service} {m m' : TaskManager} {h : ℕ} {q q' : Request}
    {clones : Bool} {act : RequestAction} (hm : Move svc m h q clones act m' q') (n : ℕ) :
    (m'.oneshots n).closed = (m.oneshots n).closed ∨
      n = h ∧ (act = .elapse ∨ act = .disconnect ∨
        act = .run ∧ q.handler = .trySend ∧ svc.senders q.key = none) := by
  have hclose : (((close m h).oneshots n).closed = (m.oneshots n).closed) ∨ n = h := by
    by_cases hn : n = h
    · exact Or.inr hn
    · left
      change (update m.oneshots h _ n).closed = _
      rw [update_of_ne hn]
  cases hm
  case insertNotifier => exact Or.inl (m.dropSender_closed q.id n)
  case deleteNotifier => exact Or.inl (m.dropSender_closed q.id n)
  case panic hq hkey => exact hclose.imp_right fun hn => ⟨hn, by simp [hq, hkey]⟩
  case elapse => exact hclose.imp_right fun hn => ⟨hn, by simp⟩
  case disconnect => exact hclose.imp_right fun hn => ⟨hn, by simp⟩
  all_goals exact Or.inl rfl

namespace State

/-- The action drops the receiver of the notifier of `h`: the timeout fires, the client goes away,
or the handler panics over an unknown route. -/
def Closes (svc : Service) (s : State) (a : Action) (h : ℕ) : Prop :=
  a = .request h .elapse ∨ a = .request h .disconnect ∨
    a = .request h .run ∧ (s.requests h).handler = .trySend ∧
      svc.senders (s.requests h).key = none

def Unraced (svc : Service) (s : State) (a : Action) : Prop :=
  ∀ k id h jobs next, (s.conns k).point = .signal id h jobs next → ¬ s.Closes svc a h

def Unwraps (s : State) : Prop :=
  ∀ k id h jobs next, (s.conns k).point = .signal id h jobs next →
    (s.manager.oneshots h).closed = false

variable {svc : Service} {s s' : State} {a : Action}

theorem Unwraps.step (hs : s.Unwraps) (hok : s.Unraced svc a) (hstep : s.step svc a = some s') :
    s'.Unwraps := by
  cases a with
  | submit isSse key body =>
    obtain rfl := Option.some.inj hstep
    intro k id h jobs next hp
    have honeshots : (s.submit isSse key body).manager.oneshots = s.manager.oneshots := by
      have hmanager : (s.submit isSse key body).manager =
          (Request.submit s.manager s.submitted isSse key body).1 := rfl
      rw [hmanager]
      rcases submit_manager s.manager s.submitted isSse key body with hm | hm <;> rw [hm]
      rfl
    rw [honeshots]
    exact hs k id h jobs next hp
  | request n act =>
    obtain ⟨⟨m, q⟩, hmove, rfl⟩ := Option.map_eq_some_iff.mp hstep
    intro k id h jobs next hp
    have hopen := hs k id h jobs next hp
    rcases (Request.move_of_step hmove).closed h with hclosed | ⟨rfl, hact⟩
    · exact hclosed.trans hopen
    · exfalso
      apply hok k id h jobs next hp
      rcases hact with rfl | rfl | ⟨rfl, hq, hkey⟩
      · exact Or.inl rfl
      · exact Or.inr (Or.inl rfl)
      · exact Or.inr (Or.inr ⟨rfl, hq, hkey⟩)
  | connect r =>
    simp only [State.step] at hstep
    split at hstep
    · obtain rfl := Option.some.inj hstep
      intro k id h jobs next hp
      by_cases hk : k = s.connected
      · rw [hk, accept_conns_self] at hp
        cases hp
      · rw [accept_conns_ne s r hk] at hp
        exact hs k id h jobs next hp
    · cases hstep
  | conn j act =>
    obtain ⟨⟨m, c⟩, hmove, rfl⟩ := Option.map_eq_some_iff.mp hstep
    obtain ⟨ids, hm⟩ := Conn.move_of_step hmove
    intro k id h jobs next hp
    refine (hm.closed h).trans ?_
    by_cases hk : k = j
    · rw [hk, setConn_conns_self] at hp
      exact hm.checked hp
    · rw [setConn_conns_ne s m c hk] at hp
      exact hs k id h jobs next hp

/-- As long as no receiver goes away between the check and the sending, the `unwrap` of
`notify_task_done` meets none that is gone. -/
theorem completion_never_panics (hs : Run svc (Unraced svc) s) : s.Unwraps := by
  refine hs.invariant ?_ fun s a s' hinv hok hstep => hinv.step hok hstep
  intro k id h jobs next hp
  cases hp

theorem not_unwraps_of_raced (hraced : ¬ s.Unraced svc a) (hstep : s.step svc a = some s') :
    ¬ s'.Unwraps := by
  simp only [Unraced, not_forall, not_not] at hraced
  obtain ⟨k, id, n, jobs, next, hp, hcloses⟩ := hraced
  have hclosed : (s'.conns k).point = (s.conns k).point ∧
      (s'.manager.oneshots n).closed = true := by
    rcases hcloses with rfl | rfl | ⟨rfl, hq, hkey⟩
    · obtain ⟨⟨m, q⟩, hmove, rfl⟩ := Option.map_eq_some_iff.mp hstep
      cases Request.move_of_step hmove
      simp [setRequest, Request.close, TaskManager.setOneshot]
    · obtain ⟨⟨m, q⟩, hmove, rfl⟩ := Option.map_eq_some_iff.mp hstep
      cases Request.move_of_step hmove
      simp [setRequest, Request.close, TaskManager.setOneshot]
    · simp only [State.step, Request.step, Request.run, hq, hkey, Option.bind_none,
        Option.map_some] at hstep
      cases hstep
      simp [setRequest, Request.close, TaskManager.setOneshot]
  intro hunwraps
  have hopen := hunwraps k id n jobs next (hclosed.1.trans hp)
  rw [hclosed.2] at hopen
  cases hopen

def settles (svc : Service) (s : State) : Action → Bool
  | .request _ .elapse => false
  | .request _ .disconnect => false
  | .request h .run => (svc.senders (s.requests h).key).isSome || (s.requests h).handler != .trySend
  | _ => true

theorem unraced_of_settles (h : s.settles svc a) : s.Unraced svc a := by
  rintro k id n jobs next - (rfl | rfl | ⟨rfl, hq, hkey⟩)
  · cases h
  · cases h
  · simp [settles, hq, hkey] at h

theorem completion_never_panics_echo :
    ∃ s, Transition.run (step echo) start ((echoRun [2]).take 14) = some s ∧
      (s.conns 0).point = .signal 0 0 [] .collect ∧ (s.manager.oneshots 0).closed = false := by
  have hview : ((Transition.run (step echo) start ((echoRun [2]).take 14)).map fun s =>
      (s.conns 0).point) = some (.signal 0 0 [] .collect) := by
    decide +kernel
  have hchecked : Transition.checked (step echo) (settles echo) start ((echoRun [2]).take 14) := by
    decide +kernel
  obtain ⟨s, hs, hrun, hpoint⟩ :=
    Transition.Reachable.of_checked (fun _ _ => unraced_of_settles) hchecked hview
  exact ⟨s, hs, hpoint, completion_never_panics hrun 0 _ _ _ _ hpoint⟩

theorem completion_panics : ∃ s s', Run echo (fun _ _ => True) s ∧ ¬ s.Unwraps ∧
    s.step echo (.conn 0 .run) = some s' ∧ (s'.conns 0).point = .panicked := by
  have hview : ((Transition.run (step echo) start
      ((echoRun [2]).take 14 ++ [.request 0 .elapse])).map fun s =>
        ((s.conns 0).point, (s.manager.oneshots 0).closed,
          (s.step echo (.conn 0 .run)).map fun s' => (s'.conns 0).point)) =
      some (.signal 0 0 [] .collect, true, some .panicked) := by
    decide +kernel
  obtain ⟨s, hs, hfields⟩ := Option.map_eq_some_iff.mp hview
  obtain ⟨hpoint, hfields⟩ := Prod.mk.inj hfields
  obtain ⟨hclosed, hstep⟩ := Prod.mk.inj hfields
  obtain ⟨s', hs', hpanicked⟩ := Option.map_eq_some_iff.mp hstep
  refine ⟨s, s', Transition.reachable_of_run hs, ?_, hs', hpanicked⟩
  intro hunwraps
  have hopen := hunwraps 0 _ _ _ _ hpoint
  rw [hclosed] at hopen
  cases hopen

end State

end Mosec
