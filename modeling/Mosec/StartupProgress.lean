import Mosec.Startup

namespace Mosec

open Function (update update_self update_of_ne)
open Transition (Reachable)

namespace LaunchAction

def own : LaunchAction → Bool
  | .bind _ => true
  | .accept _ => true
  | .arrive _ => true
  | .release _ => true
  | .mainArrive => true
  | .mainRelease => true
  | .listen => true
  | _ => false

def fault : LaunchAction → Bool
  | .acceptError _ => true
  | .listenError => true
  | _ => false

theorem not_fault_of_own {a : LaunchAction} (h : a.own = true) : a.fault = false := by
  cases a <;> first | rfl | cases h

end LaunchAction

def Acceptor.stepsLeft (acceptor : Acceptor) : ℕ :=
  match acceptor.point with
  | .binding => 3
  | .accepting => if acceptor.accepted = [] then 2 else 0
  | .arriving => 2
  | .waiting _ => 1
  | .stopped => 0

def ServiceAt.stepsLeft : ServiceAt → ℕ
  | .arriving => 3
  | .waiting _ => 2
  | .opened => 1
  | .serving => 0
  | .failed => 0

namespace Launch

variable {names : List String} {files : String → Bool} {s s' : Launch} {a : LaunchAction}

def stepsLeftAt (s : Launch) (r : ℕ) : ℕ := (s.acceptors r).stepsLeft + (s.backlog r).length

def stepsLeft (n : ℕ) (s : Launch) : ℕ :=
  ∑ r ∈ Finset.range n, s.stepsLeftAt r + s.main.stepsLeft

structure Sane (names : List String) (s : Launch) : Prop where
  running : ∀ r, (s.acceptors r).point ≠ .stopped
  healthy : s.main ≠ .failed
  free : ∀ r name, (s.acceptors r).point = .binding → names[r]? = some name → s.files name = false

theorem Sane.setAcceptor (h : Sane names s) {r : ℕ} {acceptor : Acceptor}
    (hacceptors : s'.acceptors = update s.acceptors r acceptor) (hmain : s'.main ≠ .failed)
    (hfiles : s'.files = s.files) (hrunning : acceptor.point ≠ .stopped)
    (hbound : acceptor.point ≠ .binding) : Sane names s' := by
  refine ⟨fun r' => ?_, hmain, fun r' name hpoint hname => ?_⟩
  · rw [hacceptors]
    by_cases heq : r' = r
    · rwa [heq, update_self]
    · rw [update_of_ne heq]
      exact h.running r'
  · rw [hacceptors] at hpoint
    rw [hfiles]
    by_cases heq : r' = r
    · rw [heq, update_self] at hpoint
      exact absurd hpoint hbound
    · rw [update_of_ne heq] at hpoint
      exact h.free r' name hpoint hname

theorem Sane.bind (h : Sane names s) (hnodup : names.Nodup) {r : ℕ} {name : String}
    (hname : names[r]? = some name) :
    Sane names { s.setAcceptor r { s.acceptors r with point := .accepting } with
      files := update s.files name true } := by
  refine ⟨fun r' => ?_, h.healthy, fun r' name' hpoint hname' => ?_⟩
  · by_cases heq : r' = r
    · simp [Launch.setAcceptor, heq]
    · simpa only [Launch.setAcceptor, update_of_ne heq] using h.running r'
  · by_cases heq : r' = r
    · simp [Launch.setAcceptor, heq] at hpoint
    · simp only [Launch.setAcceptor, update_of_ne heq] at hpoint
      have hne : name' ≠ name := by
        rintro rfl
        obtain ⟨hlt, hget⟩ := List.getElem?_eq_some_iff.mp hname
        obtain ⟨hlt', hget'⟩ := List.getElem?_eq_some_iff.mp hname'
        exact heq ((hnodup.getElem_inj_iff).mp (hget'.trans hget.symm))
      exact (update_of_ne hne _ _).trans (h.free r' name' hpoint hname')

theorem Sane.move (h : Sane names s) (hnodup : names.Nodup) (hm : Move names s a s')
    (ha : a.fault = false) : Sane names s' := by
  cases hm
  case bind r name hr hname hfile => exact h.bind hnodup hname
  case taken r name hr hname hfile =>
    rw [h.free r name hr hname] at hfile
    cases hfile
  case first r p backlog hr hbacklog haccepted =>
    exact h.setAcceptor rfl h.healthy rfl (by simp) (by simp)
  case accept r p backlog hr hbacklog haccepted =>
    exact h.setAcceptor rfl h.healthy rfl (by simp) (by simp)
  case acceptError r hr => cases ha
  case arrive r hr =>
    refine h.setAcceptor rfl h.healthy rfl ?_ ?_ <;> dsimp only <;> split <;> simp
  case release r generation hr hopen =>
    exact h.setAcceptor rfl h.healthy rfl (by simp) (by simp)
  case mainArrive hmain =>
    refine ⟨h.running, ?_, h.free⟩
    dsimp only
    split <;> simp
  case mainRelease generation hmain hopen => exact ⟨h.running, by simp, h.free⟩
  case listen hmain => exact ⟨h.running, by simp, h.free⟩
  case listenError hmain => cases ha
  all_goals exact ⟨h.running, h.healthy, h.free⟩

def Ready (n : ℕ) (s : Launch) : Prop :=
  ∀ r < n, (s.acceptors r).accepted ≠ [] ∨ s.backlog r ≠ []

theorem Ready.move {n : ℕ} (h : Ready n s) (hm : Move names s a s') (ha : a.own = true) :
    Ready n s' := by
  intro r' hr'
  have hready := h r' hr'
  cases hm
  case first r p backlog hr hbacklog haccepted =>
    by_cases heq : r' = r
    · simp [setAcceptor, heq]
    · simpa only [setAcceptor, update_of_ne heq] using hready
  case accept r p backlog hr hbacklog haccepted =>
    by_cases heq : r' = r
    · simp [setAcceptor, heq]
    · simpa only [setAcceptor, update_of_ne heq] using hready
  case mainArrive => exact hready
  case mainRelease => exact hready
  case listen => exact hready
  case start => cases ha
  case warmup => cases ha
  case look => cases ha
  case connect => cases ha
  case exit => cases ha
  case acceptError => cases ha
  case listenError => cases ha
  all_goals
    refine hready.imp_left fun hne heq => hne ?_
    exact (accepted_setPoint s _ _ r').symm.trans heq

theorem stepsLeft_lt {n r : ℕ} (hr : r < n) (hmain : s'.main = s.main)
    (hother : ∀ r', r' ≠ r → s'.stepsLeftAt r' = s.stepsLeftAt r')
    (hlt : s'.stepsLeftAt r < s.stepsLeftAt r) : s'.stepsLeft n < s.stepsLeft n := by
  have hmem := Finset.mem_range.mpr hr
  have hnew := Finset.add_sum_erase (Finset.range n) s'.stepsLeftAt hmem
  have hold := Finset.add_sum_erase (Finset.range n) s.stepsLeftAt hmem
  have hrest : ∑ r' ∈ (Finset.range n).erase r, s'.stepsLeftAt r' =
      ∑ r' ∈ (Finset.range n).erase r, s.stepsLeftAt r' :=
    Finset.sum_congr rfl fun r' hr' => hother r' (Finset.ne_of_mem_erase hr')
  simp only [stepsLeft, hmain]
  omega

theorem stepsLeftAt_setAcceptor {r r' : ℕ} (hr : r' ≠ r) (acceptor : Acceptor) :
    (s.setAcceptor r acceptor).stepsLeftAt r' = s.stepsLeftAt r' := by
  simp only [stepsLeftAt, setAcceptor, update_of_ne hr]

theorem stepsLeft_lt_accept {r p : ℕ} {backlog : List ℕ} {acceptor : Acceptor}
    (hr : r < names.length) (hbacklog : s.backlog r = p :: backlog)
    (hle : acceptor.stepsLeft ≤ (s.acceptors r).stepsLeft) :
    stepsLeft names.length { s.setAcceptor r acceptor with
      backlog := update s.backlog r backlog } < s.stepsLeft names.length := by
  refine stepsLeft_lt hr rfl (fun r' hne => ?_) ?_
  · simp only [stepsLeftAt, setAcceptor, update_of_ne hne]
  · simp only [stepsLeftAt, setAcceptor, update_self, hbacklog, List.length_cons]
    omega

theorem Move.stepsLeft_lt (hm : Move names s a s') (ha : a.own = true) (hgated : Gated names s) :
    s'.stepsLeft names.length < s.stepsLeft names.length := by
  cases hm
  case bind r name hr hname hfile =>
    refine Launch.stepsLeft_lt (List.getElem?_eq_some_iff.mp hname).1 rfl
      (fun r' hne => stepsLeftAt_setAcceptor hne _) ?_
    simp [stepsLeftAt, setAcceptor, Acceptor.stepsLeft, hr, hgated.unbound r hr]
  case taken r name hr hname hfile =>
    refine Launch.stepsLeft_lt (List.getElem?_eq_some_iff.mp hname).1 rfl
      (fun r' hne => stepsLeftAt_setAcceptor hne _) ?_
    simp [stepsLeftAt, setAcceptor, Acceptor.stepsLeft, hr]
  case first r p backlog hr hbacklog haccepted =>
    refine stepsLeft_lt_accept (hgated.lt_of_bound (r := r) (by simp [hr])) hbacklog ?_
    simp [Acceptor.stepsLeft, hr, haccepted]
  case accept r p backlog hr hbacklog haccepted =>
    refine stepsLeft_lt_accept (hgated.lt_of_bound (r := r) (by simp [hr])) hbacklog ?_
    simp [Acceptor.stepsLeft, hr, haccepted]
  case arrive r hr =>
    have hne := List.ne_nil_of_length_eq_add_one (hgated.arrives r hr)
    refine Launch.stepsLeft_lt (hgated.lt_of_bound (r := r) (by simp [hr])) rfl
      (fun r' hne => stepsLeftAt_setAcceptor hne _) ?_
    by_cases hgen : s.barrier.arrive.generation = s.barrier.generation <;>
      simp [stepsLeftAt, setAcceptor, Acceptor.stepsLeft, hr, hgen, hne]
  case release r generation hr hopen =>
    have hne := List.ne_nil_of_length_eq_add_one (hgated.waits r generation hr).2
    refine Launch.stepsLeft_lt (hgated.lt_of_bound (r := r) (by simp [hr])) rfl
      (fun r' hne => stepsLeftAt_setAcceptor hne _) ?_
    simp [stepsLeftAt, setAcceptor, Acceptor.stepsLeft, hr, hne]
  case mainArrive hmain =>
    change _ + ServiceAt.stepsLeft (if _ then _ else _) < _ + ServiceAt.stepsLeft s.main
    rw [hmain]
    split <;> simp [ServiceAt.stepsLeft, stepsLeftAt]
  case mainRelease generation hmain hopen =>
    change _ + ServiceAt.stepsLeft .opened < _ + ServiceAt.stepsLeft s.main
    rw [hmain]
    simp [ServiceAt.stepsLeft, stepsLeftAt]
  case listen hmain =>
    change _ + ServiceAt.stepsLeft .serving < _ + ServiceAt.stepsLeft s.main
    rw [hmain]
    simp [ServiceAt.stepsLeft, stepsLeftAt]
  case start => cases ha
  case warmup => cases ha
  case look => cases ha
  case connect => cases ha
  case exit => cases ha
  case acceptError => cases ha
  case listenError => cases ha

theorem acceptor_of_still (hsane : Sane names s) (hready : Ready names.length s)
    (hstill : ∀ a : LaunchAction, a.own = true → s.step names a = none) {r : ℕ}
    (hr : r < names.length) :
    ((s.acceptors r).point = .accepting ∧ s.backlog r = [] ∧ (s.acceptors r).accepted ≠ []) ∨
      ∃ generation, (s.acceptors r).point = .waiting generation ∧
        s.barrier.generation ≤ generation := by
  cases hpoint : (s.acceptors r).point with
  | binding =>
    have hbind := hstill (.bind r) rfl
    simp only [step, List.getElem?_eq_getElem hr, Launch.bind, hpoint, Option.bind_eq_bind,
      Option.bind_some] at hbind
    split at hbind <;> cases hbind
  | accepting =>
    cases hbacklog : s.backlog r with
    | nil => exact .inl ⟨rfl, rfl, (hready r hr).resolve_right fun hne => hne hbacklog⟩
    | cons p backlog =>
      have haccept := hstill (.accept r) rfl
      simp only [step, Launch.accept, hpoint, hbacklog] at haccept
      cases haccept
  | arriving =>
    have harrive := hstill (.arrive r) rfl
    simp only [step, Launch.arrive, hpoint] at harrive
    cases harrive
  | waiting generation =>
    have hrelease := hstill (.release r) rfl
    simp only [step, Launch.release, hpoint] at hrelease
    split at hrelease
    · cases hrelease
    · exact .inr ⟨generation, rfl, by omega⟩
  | stopped => exact absurd hpoint (hsane.running r)

theorem opened_of_still (hgated : Gated names s) (hsane : Sane names s)
    (hready : Ready names.length s)
    (hstill : ∀ a : LaunchAction, a.own = true → s.step names a = none) :
    0 < s.barrier.generation := by
  by_contra hclosed
  have hgen : s.barrier.generation = 0 := by omega
  have hcame : ∀ i ∈ Finset.range (names.length + 1), came names.length s i = 1 := by
    intro i hi
    by_cases hlt : i < names.length
    · obtain ⟨hpoint, -, hne⟩ | ⟨generation, hpoint, -⟩ :=
        acceptor_of_still hsane hready hstill hlt
      · exact absurd (hgated.closed hgen i (.inl hpoint)) hne
      · have hne := List.ne_nil_of_length_eq_add_one (hgated.waits i generation hpoint).2
        simp [came, hlt, Acceptor.came, hpoint, hne]
    · have hne : s.main ≠ .arriving := by
        intro hmain
        have harrive := hstill .mainArrive rfl
        simp only [step, hmain] at harrive
        cases harrive
      simp only [came, if_neg hlt]
      cases hmain : s.main <;> first | rfl | exact absurd hmain hne
  have hopen := (hgated.balanced.opens (by rw [Finset.card_range, hgated.size]) hcame).1
  omega

theorem serving_of_still (hgated : Gated names s) (hsane : Sane names s)
    (hready : Ready names.length s)
    (hstill : ∀ a : LaunchAction, a.own = true → s.step names a = none) :
    s.main = .serving ∧
      ∀ r < names.length, (s.acceptors r).point = .accepting ∧ s.backlog r = [] := by
  have hopen := opened_of_still hgated hsane hready hstill
  constructor
  · cases hmain : s.main with
    | arriving =>
      have harrive := hstill .mainArrive rfl
      simp only [step, hmain] at harrive
      cases harrive
    | waiting generation =>
      have hrelease := hstill .mainRelease rfl
      rw [hgated.mainWaits generation hmain] at hmain
      simp only [step, hmain, if_pos hopen] at hrelease
      cases hrelease
    | opened =>
      have hlisten := hstill .listen rfl
      simp only [step, hmain] at hlisten
      cases hlisten
    | serving => rfl
    | failed => exact absurd hmain hsane.healthy
  · intro r hr
    obtain ⟨hpoint, hbacklog, -⟩ | ⟨generation, hpoint, hle⟩ :=
      acceptor_of_still hsane hready hstill hr
    · exact ⟨hpoint, hbacklog⟩
    · have hzero := (hgated.waits r generation hpoint).1
      omega

theorem sane_new (hfree : ∀ name ∈ names, files name = false) : Sane names (new names files) := by
  refine ⟨fun _ => by simp [new], by simp [new], fun r name _ hname => ?_⟩
  exact hfree name (List.mem_of_getElem? hname)

/-- Once each stage has a connection to take, the steps of the Rust process are bounded, and where
they end the service is up and every stage has taken all its connections. -/
theorem startup_completes (hnodup : names.Nodup) (hfree : ∀ name ∈ names, files name = false)
    (hs : Reachable (step names) (fun _ a => a.fault = false) (new names files) s)
    (hready : ∀ r < names.length, (s.acceptors r).accepted ≠ [] ∨ s.backlog r ≠ []) :
    (∀ as t, (∀ a ∈ as, a.own = true) → Transition.run (step names) s as = some t →
      as.length ≤ s.stepsLeft names.length ∧
      ((∀ a : LaunchAction, a.own = true → t.step names a = none) → t.main = .serving ∧
        ∀ r < names.length, (t.acceptors r).point = .accepting ∧ t.backlog r = [])) ∧
    ∃ as t, (∀ a ∈ as, a.own = true) ∧ Transition.run (step names) s as = some t ∧
      t.main = .serving := by
  have hstart : Gated names s ∧ Sane names s ∧ Ready names.length s := by
    refine ⟨gated_of_run hs, ?_, hready⟩
    exact hs.invariant (sane_new hfree) fun _ _ _ h ha hstep =>
      h.move hnodup (move_of_step hstep) ha
  have hdescent : ∀ (s : Launch) (a : LaunchAction) (s' : Launch),
      (Gated names s ∧ Sane names s ∧ Ready names.length s) → a.own = true →
      step names s a = some s' → (Gated names s' ∧ Sane names s' ∧ Ready names.length s') ∧
        s'.stepsLeft names.length < s.stepsLeft names.length := by
    intro s a s' ⟨hgated, hsane, hready⟩ ha hstep
    have hm := move_of_step hstep
    exact ⟨⟨hgated.move hm, hsane.move hnodup hm (LaunchAction.not_fault_of_own ha),
      hready.move hm ha⟩, hm.stepsLeft_lt ha hgated⟩
  constructor
  · intro as t has hrun
    obtain ⟨⟨hgated, hsane, hready⟩, hlength⟩ := Transition.length_le_of_descent hdescent hstart
      (Transition.follows_of_all (fun a ha _ => has a ha) s) hrun
    exact ⟨by omega, serving_of_still hgated hsane hready⟩
  · obtain ⟨as, t, has, hrun, ⟨hgated, hsane, hready⟩, hstill⟩ :=
      Transition.exists_settled hdescent hstart
    exact ⟨as, t, Transition.all_of_follows has hrun, hrun,
      (serving_of_still hgated hsane hready hstill).1⟩

theorem startup_completes_connecting : ∃ s as t,
    Transition.run (step oneStage) (new oneStage fun _ => false) connecting = some s ∧
      Transition.run (step oneStage) s as = some t ∧ t.main = .serving := by
  have hchecked : Transition.checked (step oneStage) (fun _ a => a.fault = false)
      (new oneStage fun _ => false) connecting = true := by
    decide
  have hview : (Transition.run (step oneStage) (new oneStage fun _ => false) connecting).map
      (fun s => s.backlog 0) = some [0] := by
    decide
  obtain ⟨s, hrun, hs, hbacklog⟩ := Reachable.of_checked
    (fun _ _ h => of_decide_eq_true h) hchecked hview
  have hready : ∀ r < oneStage.length, (s.acceptors r).accepted ≠ [] ∨ s.backlog r ≠ [] := by
    intro r hr
    obtain rfl : r = 0 := Nat.lt_one_iff.mp hr
    exact .inr (by rw [hbacklog]; simp)
  obtain ⟨-, as, t, -, ht, hserving⟩ := startup_completes (by simp [oneStage]) (fun _ _ => rfl) hs
    hready
  exact ⟨s, as, t, hrun, ht, hserving⟩

end Launch

end Mosec
