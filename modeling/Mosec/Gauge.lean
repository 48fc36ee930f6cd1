import Mathlib.Algebra.BigOperators.Group.Finset.Piecewise
import Mathlib.Algebra.Order.BigOperators.Group.Finset
import Mosec.Accounting
import Mosec.Leaks

namespace Mosec

open Function (update update_self update_of_ne)

namespace TaskManager

structure Charged (m m' : TaskManager) (h : ℕ) (d : ℤ) : Prop where
  gauge : m'.remainingTask = m.remainingTask + d
  balance : ∀ n, (m'.history n).balance = (m.history n).balance + if n = h then d else 0

theorem Charged.unchanged {m m' : TaskManager} (h : ℕ) (hgauge : m'.remainingTask = m.remainingTask)
    (hbalance : ∀ n, (m'.history n).balance = (m.history n).balance) : Charged m m' h 0 where
  gauge := by omega
  balance n := by simp [hbalance]

theorem charged_count (m : TaskManager) (h : ℕ) (d : ℤ) : Charged m (m.count h d) h d where
  gauge := rfl
  balance n := by
    by_cases hn : n = h
    · simp [count, hn]
    · simp [count, hn]

theorem record_balance (m : TaskManager) (items : List Item) {f : History → Item → History}
    (hf : ∀ history item, (f history item).balance = history.balance) (n : ℕ) :
    ((m.record items f).history n).balance = (m.history n).balance := by
  have hfold : ∀ (l : List Item) (history : History),
      (l.foldl f history).balance = history.balance := by
    intro l
    induction l with
    | nil => exact fun _ => rfl
    | cons item l ih => exact fun history => (ih _).trans (hf history item)
  exact hfold _ _

end TaskManager

open TaskManager (Charged)

theorem Request.Move.charged {svc : Service} {m m' : TaskManager} {h : ℕ} {q q' : Request}
    {clones : Bool} {act : RequestAction} (hm : Move svc m h q clones act m' q') :
    ∃ d, Charged m m' h d := by
  cases hm
  case count => exact ⟨1, m.charged_count h 1⟩
  case uncount => exact ⟨-1, m.charged_count h (-1)⟩
  all_goals exact ⟨0, .unchanged h rfl fun _ => rfl⟩

theorem Request.Move.present {svc : Service} {m m' : TaskManager} {h : ℕ} {q q' : Request}
    {clones : Bool} {act : RequestAction} (hm : Move svc m h q clones act m' q') :
    q.handler ≠ .absent := by
  intro hq
  cases hm
  case receiveEvent hresp hbuffer => simp [hasResponse, hq] at hresp
  case endStream hresp _ _ _ => simp [hasResponse, hq] at hresp
  case leave hresp => simp [hasResponse, hq] at hresp
  all_goals simp_all only [reduceCtorEq]

theorem Conn.Move.charged {svc : Service} {m m' : TaskManager} {c c' : Conn} {act : ConnAction}
    {touched : List UInt32} (hm : Move svc m c act touched m' c')
    (hheld : ∀ i ∈ c.ids, (m.owner i).isSome) : ∃ h d, Charged m m' h d ∧
      (d = 0 ∨ ∃ i, m.owner i = some h) := by
  cases hm
  case uncount id h jobs next hp howner => exact ⟨h, -1, m.charged_count h (-1), Or.inr ⟨id, howner⟩⟩
  case uncountUnowned id jobs next hp howner =>
    have hsome := hheld id (by simp [Conn.ids, hp, Point.ids])
    rw [howner] at hsome
    cases hsome
  case writeOk => exact ⟨0, 0, .unchanged 0 rfl (m.record_balance _ fun _ _ => rfl), Or.inl rfl⟩
  case readEvents => exact ⟨0, 0, .unchanged 0 rfl (m.record_balance _ fun _ _ => rfl), Or.inl rfl⟩
  case readLate => exact ⟨0, 0, .unchanged 0 rfl (m.record_balance _ fun _ _ => rfl), Or.inl rfl⟩
  case readReply => exact ⟨0, 0, .unchanged 0 rfl (m.record_balance _ fun _ _ => rfl), Or.inl rfl⟩
  case readCut => exact ⟨0, 0, .unchanged 0 rfl (m.record_balance _ fun _ _ => rfl), Or.inl rfl⟩
  all_goals exact ⟨0, 0, .unchanged 0 rfl fun _ => rfl, Or.inl rfl⟩

namespace State

variable {svc : Service} {ok : State → Action → Prop} {s s' : State} {a : Action}

structure Metered (s : State) : Prop where
  gauge : s.manager.remainingTask = ∑ h ∈ Finset.range s.submitted, (s.manager.history h).balance
  blank : ∀ h, s.submitted ≤ h → (s.manager.history h).balance = 0

theorem Metered.charged (hs : s.Metered) {h : ℕ} {d : ℤ} (hm : Charged s.manager s'.manager h d)
    (hh : d = 0 ∨ h < s.submitted) (hsubmitted : s'.submitted = s.submitted) : s'.Metered where
  gauge := by
    have hsum : ∑ n ∈ Finset.range s.submitted, (if n = h then d else 0) = d := by
      rw [Finset.sum_ite_eq']
      rcases hh with rfl | hh
      · simp
      · rw [if_pos (Finset.mem_range.mpr hh)]
    rw [hsubmitted]
    simp only [hm.balance, Finset.sum_add_distrib]
    rw [hsum, hm.gauge, hs.gauge]
  blank := by
    intro n hn
    rw [hsubmitted] at hn
    rw [hm.balance, hs.blank n hn]
    rcases hh with rfl | hh
    · simp
    · rw [if_neg (by omega), add_zero]

theorem Metered.submit (hs : s.Metered) {d : ℤ} (hm : Charged s.manager s'.manager s.submitted d)
    (hsubmitted : s'.submitted = s.submitted + 1) : s'.Metered where
  gauge := by
    have hsum : ∑ n ∈ Finset.range (s.submitted + 1), (if n = s.submitted then d else 0) = d := by
      rw [Finset.sum_ite_eq', if_pos (Finset.mem_range.mpr (Nat.lt_succ_self _))]
    rw [hsubmitted]
    simp only [hm.balance, Finset.sum_add_distrib]
    rw [hsum, hm.gauge, hs.gauge, Finset.sum_range_succ, hs.blank _ le_rfl, add_zero]
  blank := by
    intro n hn
    rw [hsubmitted] at hn
    rw [hm.balance, hs.blank n (by omega), if_neg (by omega), add_zero]

theorem Metered.step (hs : s.Metered) (hcoherent : s.Coherent) (hstep : s.step svc a = some s') :
    s'.Metered := by
  have hmade : ∀ h, (s.requests h).handler ≠ .absent → h < s.submitted := by
    intro h hq
    by_contra hge
    rw [hcoherent.absent (by omega)] at hq
    exact hq rfl
  cases a with
  | submit isSse key body =>
    obtain rfl := Option.some.inj hstep
    have hmanager : (s.submit isSse key body).manager =
        (Request.submit s.manager s.submitted isSse key body).1 := rfl
    rcases submit_manager s.manager s.submitted isSse key body with hm | hm
    · refine hs.submit (d := 0) ?_ rfl
      rw [hmanager, hm]
      exact .unchanged _ rfl fun _ => rfl
    · refine hs.submit (d := 1) ?_ rfl
      rw [hmanager, hm]
      exact s.manager.charged_count _ _
  | request n act =>
    obtain ⟨⟨m, q⟩, hmove, rfl⟩ := Option.map_eq_some_iff.mp hstep
    have hm := Request.move_of_step hmove
    obtain ⟨d, hd⟩ := hm.charged
    exact hs.charged hd (Or.inr (hmade n hm.present)) rfl
  | connect r =>
    simp only [State.step] at hstep
    split at hstep
    · obtain rfl := Option.some.inj hstep
      exact hs.charged (.unchanged 0 rfl fun _ => rfl) (Or.inl rfl) rfl
    · cases hstep
  | conn k act =>
    obtain ⟨⟨m, c⟩, hmove, rfl⟩ := Option.map_eq_some_iff.mp hstep
    obtain ⟨ids, hm⟩ := Conn.move_of_step hmove
    obtain ⟨h, d, hd, hh⟩ := hm.charged fun i hi => hcoherent.held (a := .conn k) hi
    refine hs.charged hd (hh.imp_right ?_) rfl
    rintro ⟨i, hi⟩
    apply hmade
    intro hq
    have hgiven := (hcoherent.owned hi).2
    rw [hq] at hgiven
    cases hgiven

theorem metered_of_run (hs : FreshRun svc ok s) : s.Metered := by
  refine hs.invariant_of (fun _ => coherent_of_run) ⟨rfl, fun _ _ => rfl⟩ ?_
  intro s a s' hcoherent _ hinv _ hstep
  exact hinv.step hcoherent hstep

structure Accountable (svc : Service) (s : State) (a : Action) : Prop extends s.Tidy svc a where
  left : ∀ k id h jobs next, a = .conn k .run → (s.conns k).point = .check id h jobs next →
    (s.manager.oneshots h).closed = true → (s.requests h).handler = .dropped

theorem life_accountable (hs : FreshRun svc ok s) (ha : s.Accountable svc a) {h : ℕ} {lab : Label}
    {ℓ' : Life} (hlab : s.Caused svc a h lab) (hstep : Life.Step svc lab (s.life h) ℓ') :
    (s.life h).Accountable svc lab := by
  refine ⟨life_tidy hs ha.toTidy hlab hstep, ?_⟩
  rintro rfl hclosed
  obtain ⟨k, jobs, next, hact, hp⟩ := hlab
  exact ha.left k _ h jobs next hact hp hclosed

theorem FreshRun.tidy (hs : FreshRun svc (Accountable svc) s) : FreshRun svc (Tidy svc) s :=
  hs.mono fun _ _ h => ⟨h.1, h.2.toTidy⟩

theorem balanced_of_run (hs : FreshRun svc (Accountable svc) s) (h : ℕ) : (s.life h).Balanced :=
  life_invariant Life.Balanced Life.Balanced.new
    (fun hrun hok hlab hlife hinv => hinv.step (notified_of_run hrun _)
      (kept_of_run (FreshRun.tidy hrun) _) hlife (life_accountable hrun hok hlab hlife)) hs h

theorem gauge_balances (hs : FreshRun svc (Accountable svc) s) : 0 ≤ s.manager.remainingTask ∧
    (s.Quiescent svc → s.manager.remainingTask = 0) := by
  have hbalanced := balanced_of_run hs
  rw [(metered_of_run hs).gauge]
  refine ⟨Finset.sum_nonneg fun h _ => (hbalanced h).balance_nonneg, ?_⟩
  intro hq
  apply Finset.sum_eq_zero
  intro h _
  exact (hbalanced h).balance_idle (idle_of_quiescent hs hq h) (uncarried_of_quiescent hs hq h)

def accounts (svc : Service) (s : State) : Action → Bool
  | .request _ .elapse => false
  | .conn k .run => s.tidies svc (.conn k .run) &&
    match (s.conns k).point with
    | .check _ h _ _ => (s.requests h).handler == .dropped || !(s.manager.oneshots h).closed
    | _ => true
  | a => s.tidies svc a

theorem accountable_of_accounts (h : s.accounts svc a) : s.Accountable svc a where
  toTidy := by
    apply tidy_of_tidies
    cases a with
    | request n act =>
      cases act with
      | elapse => cases h
      | _ => exact h
    | conn k act =>
      cases act with
      | run => exact (Bool.and_eq_true_iff.mp h).1
      | _ => exact h
    | _ => exact h
  left := by
    rintro k id n jobs next rfl hp hclosed
    have hleft := (Bool.and_eq_true_iff.mp h).2
    simpa [hp, hclosed] using hleft

theorem gauge_balances_abandoned :
    ∃ s, Transition.run (step echo) start abandonedRun = some s ∧
      (s.requests 0).handler = .dropped ∧ s.manager.remainingTask = 0 := by
  have hview : ((Transition.run (step echo) start abandonedRun).map fun s =>
      (s.submitted, (s.requests 0).handler, decide (s.Quiescent echo))) =
      some (1, .dropped, true) := by
    decide +kernel
  have hchecked : Transition.checked (step echo) (accounts echo) start abandonedRun := by
    decide +kernel
  obtain ⟨s, hs, hrun, hfields⟩ :=
    freshRun_of_checked (fun _ _ => accountable_of_accounts) hchecked hview (by decide)
  obtain ⟨hhandler, hquiescent⟩ := Prod.mk.inj hfields
  have hgauge := gauge_balances hrun
  exact ⟨s, hs, hhandler, hgauge.2 (of_decide_eq_true hquiescent)⟩

/-- The timeout fires while a connection has the notifier in hand, and both take the request off
the gauge. -/
theorem gauge_goes_negative : ∃ s, Run echo (fun _ _ => True) s ∧ s.Quiescent echo ∧
    s.manager.remainingTask = -1 := by
  have hview : ((Transition.run (step echo) start
      ((echoRun [2]).take 13 ++ [.request 0 .elapse] ++ List.replicate 4 (.conn 0 .run) ++
        List.replicate 3 (.request 0 .run))).map fun s =>
        (decide (s.Quiescent echo), s.manager.remainingTask)) = some (true, -1) := by
    decide +kernel
  obtain ⟨s, hs, hfields⟩ := Option.map_eq_some_iff.mp hview
  obtain ⟨hquiescent, hgauge⟩ := Prod.mk.inj hfields
  exact ⟨s, Transition.reachable_of_run hs, of_decide_eq_true hquiescent, hgauge⟩

end State

end Mosec
