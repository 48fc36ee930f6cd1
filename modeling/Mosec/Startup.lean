import Mosec.Launch

namespace Mosec

open Function (update update_self update_of_ne)
open Transition (Reachable)

def Acceptor.came (acceptor : Acceptor) : ℕ :=
  if acceptor.accepted ≠ [] ∧ acceptor.point ≠ .arriving then 1 else 0

def ServiceAt.came : ServiceAt → ℕ
  | .arriving => 0
  | _ => 1

namespace Launch

variable {names : List String} {files : String → Bool} {s s' : Launch} {a : LaunchAction}
  {ok : Launch → LaunchAction → Prop}

/-- The parties of the barrier are the stages, and the main task as the last one. -/
def came (n : ℕ) (s : Launch) (i : ℕ) : ℕ := if i < n then (s.acceptors i).came else s.main.came

inductive Move (names : List String) (s : Launch) : LaunchAction → Launch → Prop
  | start {r : ℕ} : r < names.length →
      Move names s (.start r)
        { s.setProcess s.started ⟨r, false, .warming⟩ with started := s.started + 1 }
  | warmup {p : ℕ} : (s.processes p).point = .warming →
      Move names s (.warmup p)
        (s.setProcess p { s.processes p with warmed := true, point := .seeking 0 })
  | look {p retry : ℕ} {point : CoordinatorAt} : (s.processes p).point = .seeking retry →
      (point = .opening ∨ point = .seeking (retry + 1)) →
      Move names s (.look p) (s.setProcess p { s.processes p with point := point })
  | connect {p : ℕ} : (s.processes p).point = .opening →
      s.listening (s.processes p).stage = true →
      Move names s (.connect p) { s.setProcess p { s.processes p with point := .connected } with
        backlog := update s.backlog (s.processes p).stage
          (s.backlog (s.processes p).stage ++ [p]) }
  | exit {p : ℕ} : Move names s (.exit p) (s.setProcess p { s.processes p with point := .exited })
  | bind {r : ℕ} {name : String} : (s.acceptors r).point = .binding → names[r]? = some name →
      s.files name = false →
      Move names s (.bind r) { s.setAcceptor r { s.acceptors r with point := .accepting } with
        files := update s.files name true }
  | taken {r : ℕ} {name : String} : (s.acceptors r).point = .binding → names[r]? = some name →
      s.files name = true →
      Move names s (.bind r) (s.setAcceptor r { s.acceptors r with point := .stopped })
  | first {r p : ℕ} {backlog : List ℕ} : (s.acceptors r).point = .accepting →
      s.backlog r = p :: backlog → (s.acceptors r).accepted = [] →
      Move names s (.accept r) { s.setAcceptor r ⟨.arriving, [p]⟩ with
        backlog := update s.backlog r backlog }
  | accept {r p : ℕ} {backlog : List ℕ} : (s.acceptors r).point = .accepting →
      s.backlog r = p :: backlog → (s.acceptors r).accepted ≠ [] →
      Move names s (.accept r)
        { s.setAcceptor r ⟨.accepting, (s.acceptors r).accepted ++ [p]⟩ with
          backlog := update s.backlog r backlog }
  | acceptError {r : ℕ} : (s.acceptors r).point = .accepting →
      Move names s (.acceptError r) (s.setAcceptor r { s.acceptors r with point := .stopped })
  | arrive {r : ℕ} : (s.acceptors r).point = .arriving →
      Move names s (.arrive r) { s.setAcceptor r { s.acceptors r with point :=
          if s.barrier.arrive.generation = s.barrier.generation then .waiting s.barrier.generation
          else .accepting } with
        barrier := s.barrier.arrive }
  | release {r generation : ℕ} : (s.acceptors r).point = .waiting generation →
      generation < s.barrier.generation →
      Move names s (.release r) (s.setAcceptor r { s.acceptors r with point := .accepting })
  | mainArrive : s.main = .arriving →
      Move names s .mainArrive { s with
        barrier := s.barrier.arrive
        main := if s.barrier.arrive.generation = s.barrier.generation then
          .waiting s.barrier.generation else .opened }
  | mainRelease {generation : ℕ} : s.main = .waiting generation →
      generation < s.barrier.generation → Move names s .mainRelease { s with main := .opened }
  | listen : s.main = .opened → Move names s .listen { s with main := .serving }
  | listenError : s.main = .opened → Move names s .listenError { s with main := .failed }

theorem move_of_step (h : s.step names a = some s') : Move names s a s' := by
  cases a with
  | start r =>
    simp only [step] at h
    split at h <;> cases h
    exact .start ‹_›
  | warmup p =>
    simp only [step] at h
    split at h <;> cases h
    exact .warmup ‹_›
  | look p =>
    obtain ⟨name, -, h⟩ := Option.bind_eq_some_iff.mp h
    simp only [look] at h
    split at h
    · split at h <;> cases h
      · refine .look ‹_› ?_
        split <;> simp
      · exact .look ‹_› (.inl rfl)
    · cases h
  | connect p =>
    simp only [step, Launch.connect] at h
    split at h
    · split at h <;> cases h
      exact .connect ‹_› ‹_›
    · cases h
  | exit p =>
    cases h
    exact .exit
  | bind r =>
    obtain ⟨name, hname, h⟩ := Option.bind_eq_some_iff.mp h
    simp only [Launch.bind] at h
    split at h
    · split at h <;> cases h
      · exact .taken ‹_› hname ‹_›
      · exact .bind ‹_› hname (by simpa using ‹¬s.files name = true›)
    · cases h
  | accept r =>
    simp only [step, Launch.accept] at h
    split at h
    · cases h
      by_cases haccepted : (s.acceptors r).accepted = []
      · simp only [haccepted, List.length_nil, List.nil_append, if_true]
        exact .first ‹_› ‹_› haccepted
      · have hlength := List.length_pos_iff.mpr haccepted
        rw [if_neg (by omega)]
        exact .accept ‹_› ‹_› haccepted
    · cases h
  | acceptError r =>
    simp only [step] at h
    split at h <;> cases h
    exact .acceptError ‹_›
  | arrive r =>
    simp only [step, Launch.arrive] at h
    split at h <;> cases h
    exact .arrive ‹_›
  | release r =>
    simp only [step, Launch.release] at h
    split at h
    · split at h <;> cases h
      exact .release ‹_› ‹_›
    · cases h
  | mainArrive =>
    simp only [step] at h
    split at h <;> cases h
    exact .mainArrive ‹_›
  | mainRelease =>
    simp only [step] at h
    split at h
    · split at h <;> cases h
      exact .mainRelease ‹_› ‹_›
    · cases h
  | listen =>
    simp only [step] at h
    split at h <;> cases h
    exact .listen ‹_›
  | listenError =>
    simp only [step] at h
    split at h <;> cases h
    exact .listenError ‹_›

structure Known (s : Launch) (r p : ℕ) : Prop where
  started : p < s.started
  stage : (s.processes p).stage = r
  warmed : (s.processes p).warmed = true

theorem Known.setPoint {r p : ℕ} (h : s.Known r p) (q : ℕ) (point : CoordinatorAt) :
    (s.setProcess q { s.processes q with point := point }).Known r p := by
  obtain ⟨hstarted, hstage, hwarmed⟩ := h
  by_cases hq : p = q
  · subst hq
    exact ⟨hstarted, by simpa only [setProcess, update_self] using hstage,
      by simpa only [setProcess, update_self] using hwarmed⟩
  · exact ⟨hstarted, by simpa only [setProcess, update_of_ne hq] using hstage,
      by simpa only [setProcess, update_of_ne hq] using hwarmed⟩

theorem Known.of_same {r p : ℕ} (h : s.Known r p) (hprocesses : s'.processes = s.processes)
    (hstarted : s'.started = s.started) : s'.Known r p :=
  ⟨hstarted ▸ h.started, hprocesses ▸ h.stage, hprocesses ▸ h.warmed⟩

theorem Known.move {r p : ℕ} (h : s.Known r p) (hm : Move names s a s') : s'.Known r p := by
  cases hm
  case start r' hr =>
    obtain ⟨hstarted, hstage, hwarmed⟩ := h
    have hne : p ≠ s.started := hstarted.ne
    exact ⟨Nat.lt_succ_of_lt hstarted, by simpa only [setProcess, update_of_ne hne] using hstage,
      by simpa only [setProcess, update_of_ne hne] using hwarmed⟩
  case warmup q hq =>
    obtain ⟨hstarted, hstage, hwarmed⟩ := h
    by_cases hpq : p = q
    · subst hpq
      exact ⟨hstarted, by simpa only [setProcess, update_self] using hstage,
        by simp only [setProcess, update_self]⟩
    · exact ⟨hstarted, by simpa only [setProcess, update_of_ne hpq] using hstage,
        by simpa only [setProcess, update_of_ne hpq] using hwarmed⟩
  case look q retry point hq hpoint => exact h.setPoint q point
  case connect q hq hlistening =>
    exact (h.setPoint q .connected).of_same rfl rfl
  case exit q => exact h.setPoint q .exited
  all_goals exact h.of_same rfl rfl

structure Warm (s : Launch) : Prop where
  absent : ∀ p, s.started ≤ p → (s.processes p).point = .exited
  warmed : ∀ p, (s.processes p).point ≠ .warming → (s.processes p).point ≠ .exited →
    (s.processes p).warmed = true
  pending : ∀ r, ∀ p ∈ s.backlog r, s.Known r p
  accepted : ∀ r, ∀ p ∈ (s.acceptors r).accepted, s.Known r p

theorem Warm.setProcess (h : Warm s) {p : ℕ} {process : CoordinatorProcess}
    (hp : process.point = .exited ∨ (s.processes p).point ≠ .exited ∧ process.warmed = true)
    (hstage : process.stage = (s.processes p).stage)
    (hmono : (s.processes p).warmed = true → process.warmed = true) :
    Warm (s.setProcess p process) := by
  have hknown : ∀ {r q}, s.Known r q → (s.setProcess p process).Known r q := by
    rintro r q ⟨hq, hr, hw⟩
    by_cases heq : q = p
    · subst heq
      exact ⟨hq, by simpa only [Launch.setProcess, update_self, hstage] using hr,
        by simpa only [Launch.setProcess, update_self] using hmono hw⟩
    · exact ⟨hq, by simpa only [Launch.setProcess, update_of_ne heq] using hr,
        by simpa only [Launch.setProcess, update_of_ne heq] using hw⟩
  refine ⟨?_, ?_, fun r q hq => hknown (h.pending r q hq), fun r q hq => hknown (h.accepted r q hq)⟩
  · intro q hq
    by_cases heq : q = p
    · subst heq
      obtain hexited | ⟨hlive, -⟩ := hp
      · simpa only [Launch.setProcess, update_self] using hexited
      · exact absurd (h.absent q hq) hlive
    · simpa only [Launch.setProcess, update_of_ne heq] using h.absent q hq
  · intro q hwarming hexited
    by_cases heq : q = p
    · simp only [Launch.setProcess, heq, update_self] at hexited ⊢
      exact (hp.resolve_left hexited).2
    · simp only [Launch.setProcess, update_of_ne heq] at hwarming hexited ⊢
      exact h.warmed q hwarming hexited

theorem Warm.of_same (h : Warm s) (hm : Move names s a s') (hprocesses : s'.processes = s.processes)
    (hstarted : s'.started = s.started)
    (hpending : ∀ r, ∀ p ∈ s'.backlog r, p ∈ s.backlog r)
    (haccepted : ∀ r, ∀ p ∈ (s'.acceptors r).accepted,
      p ∈ (s.acceptors r).accepted ∨ p ∈ s.backlog r) : Warm s' := by
  refine ⟨?_, ?_, fun r p hp => (h.pending r p (hpending r p hp)).move hm, fun r p hp => ?_⟩
  · rw [hprocesses, hstarted]
    exact h.absent
  · rw [hprocesses]
    exact h.warmed
  · obtain hp | hp := haccepted r p hp
    · exact (h.accepted r p hp).move hm
    · exact (h.pending r p hp).move hm

theorem accepted_setPoint (s : Launch) (r : ℕ) (point : AcceptorAt) (r' : ℕ) :
    ((s.setAcceptor r { s.acceptors r with point := point }).acceptors r').accepted =
      (s.acceptors r').accepted := by
  by_cases hr : r' = r
  · simp only [setAcceptor, hr, update_self]
  · simp only [setAcceptor, update_of_ne hr]

theorem Warm.accept (h : Warm s) (hm : Move names s a s') {r p : ℕ} {backlog accepted : List ℕ}
    {point : AcceptorAt} (hbacklog : s.backlog r = p :: backlog)
    (haccepted : accepted = (s.acceptors r).accepted ++ [p])
    (hs' : s' = { s.setAcceptor r ⟨point, accepted⟩ with
      backlog := update s.backlog r backlog }) : Warm s' := by
  subst hs' haccepted
  apply h.of_same hm rfl rfl
  · intro r' q hq
    by_cases hr : r' = r
    · simp only [hr, update_self] at hq
      rw [hr, hbacklog]
      exact List.mem_cons_of_mem p hq
    · simpa only [update_of_ne hr] using hq
  · intro r' q hq
    by_cases hr : r' = r
    · simp only [setAcceptor, hr, update_self, List.mem_append, List.mem_singleton] at hq
      rw [hr, hbacklog]
      exact hq.imp_right fun hq => List.mem_cons.mpr (.inl hq)
    · exact .inl (by simpa only [setAcceptor, update_of_ne hr] using hq)

theorem Warm.connect (h : Warm s) {p : ℕ} (hp : (s.processes p).point = .opening) :
    Warm { s.setProcess p { s.processes p with point := .connected } with
      backlog := update s.backlog (s.processes p).stage
        (s.backlog (s.processes p).stage ++ [p]) } := by
  have hwarmed := h.warmed p (by simp [hp]) (by simp [hp])
  have hset : Warm (s.setProcess p { s.processes p with point := .connected }) :=
    h.setProcess (.inr ⟨by simp [hp], hwarmed⟩) rfl id
  have hstarted : p < s.started := by
    by_contra hle
    rw [h.absent p (by omega)] at hp
    cases hp
  refine ⟨hset.absent, hset.warmed, ?_, fun r q hq => (hset.accepted r q hq).of_same rfl rfl⟩
  intro r q hq
  have hcases : q ∈ s.backlog r ∨ q = p ∧ (s.processes p).stage = r := by
    by_cases hr : r = (s.processes p).stage
    · simp only [hr, update_self, List.mem_append, List.mem_singleton] at hq ⊢
      exact hq.imp_right fun hq => ⟨hq, trivial⟩
    · exact .inl (by simpa only [update_of_ne hr] using hq)
  obtain hq | ⟨rfl, hr⟩ := hcases
  · exact (hset.pending r q hq).of_same rfl rfl
  · have hknown : s.Known r q := ⟨hstarted, hr, hwarmed⟩
    exact (hknown.setPoint q .connected).of_same rfl rfl

theorem Warm.start (h : Warm s) (r : ℕ) :
    Warm { s.setProcess s.started ⟨r, false, .warming⟩ with started := s.started + 1 } := by
  have hold : ∀ {q}, q ≠ s.started →
      (s.setProcess s.started ⟨r, false, .warming⟩).processes q = s.processes q :=
    fun hq => update_of_ne hq _ _
  have hknown : ∀ {r' q}, s.Known r' q → Known { s.setProcess s.started ⟨r, false, .warming⟩ with
      started := s.started + 1 } r' q := by
    rintro r' q ⟨hq, hr', hw⟩
    have heq := hold hq.ne
    exact ⟨Nat.lt_succ_of_lt hq, by rw [← hr', ← heq], by rw [← hw, ← heq]⟩
  refine ⟨?_, ?_, fun r' q hq => hknown (h.pending r' q hq),
    fun r' q hq => hknown (h.accepted r' q hq)⟩
  · intro q hq
    have hle : s.started + 1 ≤ q := hq
    dsimp only
    rw [hold (by omega)]
    exact h.absent q (by omega)
  · intro q hwarming hexited
    dsimp only at hwarming hexited ⊢
    by_cases heq : q = s.started
    · have hnew : (s.setProcess s.started ⟨r, false, .warming⟩).processes s.started =
          ⟨r, false, .warming⟩ := update_self _ _ _
      rw [heq, hnew] at hwarming
      exact absurd rfl hwarming
    · rw [hold heq] at hwarming hexited ⊢
      exact h.warmed q hwarming hexited

theorem Warm.move (h : Warm s) (hm : Move names s a s') : Warm s' := by
  have hm' := hm
  cases hm
  case start r hr => exact h.start r
  case warmup p hp => exact h.setProcess (.inr ⟨by simp [hp], rfl⟩) rfl fun _ => rfl
  case look p retry point hp hpoint =>
    exact h.setProcess (.inr ⟨by simp [hp], h.warmed p (by simp [hp]) (by simp [hp])⟩) rfl id
  case connect p hp hlistening => exact h.connect hp
  case exit p => exact h.setProcess (.inl rfl) rfl id
  case first r p backlog hr hbacklog haccepted =>
    exact h.accept hm' hbacklog (by rw [haccepted]; rfl) rfl
  case accept r p backlog hr hbacklog haccepted => exact h.accept hm' hbacklog rfl rfl
  case mainArrive => exact h.of_same hm' rfl rfl (fun _ _ => id) fun _ _ => .inl
  case mainRelease => exact h.of_same hm' rfl rfl (fun _ _ => id) fun _ _ => .inl
  case listen => exact h.of_same hm' rfl rfl (fun _ _ => id) fun _ _ => .inl
  case listenError => exact h.of_same hm' rfl rfl (fun _ _ => id) fun _ _ => .inl
  all_goals
    refine h.of_same hm' rfl rfl (fun _ _ => id) fun r' q hq => .inl ?_
    exact (accepted_setPoint s _ _ r') ▸ hq

/-- Where each party is while the barrier is closed, and once it is open. -/
structure Gated (names : List String) (s : Launch) : Prop where
  size : s.barrier.size = names.length + 1
  balanced : s.barrier.Balanced (Finset.range (names.length + 1)) (came names.length s)
  outside : ∀ r, names.length ≤ r → s.acceptors r = ⟨.binding, []⟩
  waits : ∀ r generation, (s.acceptors r).point = .waiting generation →
    generation = 0 ∧ (s.acceptors r).accepted.length = 1
  arrives : ∀ r, (s.acceptors r).point = .arriving → (s.acceptors r).accepted.length = 1
  unbound : ∀ r, (s.acceptors r).point = .binding → (s.acceptors r).accepted = []
  closed : s.barrier.generation = 0 → ∀ r,
    (s.acceptors r).point = .accepting ∨ (s.acceptors r).point = .stopped →
      (s.acceptors r).accepted = []
  mainWaits : ∀ generation, s.main = .waiting generation → generation = 0
  opened : s.main = .opened ∨ s.main = .serving ∨ s.main = .failed → 0 < s.barrier.generation

theorem came_le_one (n : ℕ) (s : Launch) (i : ℕ) : came n s i ≤ 1 := by
  unfold came Acceptor.came ServiceAt.came
  split
  · split <;> omega
  · split <;> omega

theorem Gated.all_came (h : Gated names s) (hopen : 0 < s.barrier.generation) :
    s.barrier.generation = 1 ∧ ∀ i ≤ names.length, came names.length s i = 1 := by
  obtain ⟨hgen, hall⟩ := h.balanced.all_came (by rw [Finset.card_range, h.size])
    (fun i _ => came_le_one _ s i) hopen
  exact ⟨hgen, fun i hi => hall i (Finset.mem_range.mpr (by omega))⟩

theorem Gated.generation_of_missing (h : Gated names s) {i : ℕ} (hi : i ≤ names.length)
    (hmissing : came names.length s i = 0) : s.barrier.generation = 0 := by
  by_contra hopen
  have hcame := (h.all_came (by omega)).2 i hi
  omega

theorem Gated.of_frame (h : Gated names s) (hbarrier : s'.barrier = s.barrier)
    (hmain : s'.main = s.main) {r : ℕ} {acceptor : Acceptor} (hr : r < names.length)
    (hacceptors : s'.acceptors = update s.acceptors r acceptor)
    (hcame : acceptor.came = (s.acceptors r).came)
    (hwaits : ∀ generation, acceptor.point ≠ .waiting generation)
    (harrives : acceptor.point = .arriving → acceptor.accepted.length = 1)
    (hunbound : acceptor.point = .binding → acceptor.accepted = [])
    (hclosed : s.barrier.generation = 0 → acceptor.point = .accepting ∨ acceptor.point = .stopped →
      acceptor.accepted = []) : Gated names s' := by
  have hself : s'.acceptors r = acceptor := by rw [hacceptors, update_self]
  have hother : ∀ r', r' ≠ r → s'.acceptors r' = s.acceptors r' := by
    intro r' hr'
    rw [hacceptors, update_of_ne hr']
  refine ⟨by rw [hbarrier, h.size], ?_, ?_, ?_, ?_, ?_, ?_, by rw [hmain]; exact h.mainWaits,
    by rw [hmain, hbarrier]; exact h.opened⟩
  · rw [hbarrier]
    apply h.balanced.congr
    intro i _
    unfold came
    rw [hmain]
    by_cases hi : i = r
    · rw [hi, hself, hcame]
    · rw [hother i hi]
  · intro r' hr'
    rw [hother r' (by omega)]
    exact h.outside r' hr'
  · intro r' generation hpoint
    by_cases heq : r' = r
    · rw [heq, hself] at hpoint
      exact absurd hpoint (hwaits generation)
    · rw [hother r' heq] at hpoint ⊢
      exact h.waits r' generation hpoint
  · intro r' hpoint
    by_cases heq : r' = r
    · rw [heq, hself] at hpoint ⊢
      exact harrives hpoint
    · rw [hother r' heq] at hpoint ⊢
      exact h.arrives r' hpoint
  · intro r' hpoint
    by_cases heq : r' = r
    · rw [heq, hself] at hpoint ⊢
      exact hunbound hpoint
    · rw [hother r' heq] at hpoint ⊢
      exact h.unbound r' hpoint
  · intro hgen r' hpoint
    rw [hbarrier] at hgen
    by_cases heq : r' = r
    · rw [heq, hself] at hpoint ⊢
      exact hclosed hgen hpoint
    · rw [hother r' heq] at hpoint ⊢
      exact h.closed hgen r' hpoint

theorem Gated.of_same (h : Gated names s) (hbarrier : s'.barrier = s.barrier)
    (hacceptors : s'.acceptors = s.acceptors) (hcame : s'.main.came = s.main.came)
    (hwaits : ∀ generation, s'.main = .waiting generation → s.main = .waiting generation)
    (hopened : s'.main = .opened ∨ s'.main = .serving ∨ s'.main = .failed →
      0 < s.barrier.generation) : Gated names s' := by
  refine ⟨by rw [hbarrier, h.size], ?_, by rw [hacceptors]; exact h.outside,
    by rw [hacceptors]; exact h.waits, by rw [hacceptors]; exact h.arrives,
    by rw [hacceptors]; exact h.unbound, by rw [hbarrier, hacceptors]; exact h.closed,
    fun generation hmain => h.mainWaits generation (hwaits generation hmain),
    by rw [hbarrier]; exact hopened⟩
  rw [hbarrier]
  apply h.balanced.congr
  intro i _
  unfold came
  rw [hacceptors, hcame]

theorem Gated.lt_of_bound (h : Gated names s) {r : ℕ} (hr : (s.acceptors r).point ≠ .binding) :
    r < names.length := by
  by_contra hle
  rw [h.outside r (by omega)] at hr
  exact hr rfl

theorem Gated.arrive (h : Gated names s) {r : ℕ} (hr : (s.acceptors r).point = .arriving) :
    Gated names { s.setAcceptor r { s.acceptors r with point :=
        if s.barrier.arrive.generation = s.barrier.generation then .waiting s.barrier.generation
        else .accepting } with
      barrier := s.barrier.arrive } := by
  have hlt := h.lt_of_bound (r := r) (by simp [hr])
  have hlength := h.arrives r hr
  have hne : (s.acceptors r).accepted ≠ [] := List.ne_nil_of_length_eq_add_one hlength
  have hmissing : came names.length s r = 0 := by simp [came, hlt, Acceptor.came, hr]
  have hgen := h.generation_of_missing hlt.le hmissing
  have hstep := s.barrier.arrive_generation
  have hother : ∀ r', r' ≠ r → ∀ acceptor, update s.acceptors r acceptor r' = s.acceptors r' :=
    fun r' hr' acceptor => update_of_ne hr' _ _
  refine ⟨by simp [h.size], ?_, ?_, ?_, ?_, ?_, ?_, h.mainWaits, ?_⟩
  · apply h.balanced.arrive (i := r) (Finset.mem_range.mpr (by omega))
    · rw [hmissing]
      simp only [came, hlt, if_true, setAcceptor, update_self, Acceptor.came]
      rw [if_pos]
      refine ⟨hne, ?_⟩
      split <;> simp
    · intro i _ hi
      simp only [came, setAcceptor, hother i hi]
  · intro r' hr'
    simp only [setAcceptor, hother r' (by omega)]
    exact h.outside r' hr'
  · intro r' generation hpoint
    by_cases heq : r' = r
    · simp only [setAcceptor, heq, update_self] at hpoint ⊢
      split at hpoint <;> cases hpoint
      exact ⟨hgen, hlength⟩
    · simp only [setAcceptor, hother r' heq] at hpoint ⊢
      exact h.waits r' generation hpoint
  · intro r' hpoint
    by_cases heq : r' = r
    · simp only [setAcceptor, heq, update_self] at hpoint
      split at hpoint <;> cases hpoint
    · simp only [setAcceptor, hother r' heq] at hpoint ⊢
      exact h.arrives r' hpoint
  · intro r' hpoint
    by_cases heq : r' = r
    · simp only [setAcceptor, heq, update_self] at hpoint
      split at hpoint <;> cases hpoint
    · simp only [setAcceptor, hother r' heq] at hpoint ⊢
      exact h.unbound r' hpoint
  · intro hclosed r' hpoint
    dsimp only at hclosed
    by_cases heq : r' = r
    · simp only [setAcceptor, heq, update_self, hclosed, hgen, if_true] at hpoint
      simp at hpoint
    · simp only [setAcceptor, hother r' heq] at hpoint ⊢
      exact h.closed hgen r' hpoint
  · intro hmain
    have hopen := h.opened hmain
    omega

theorem Gated.mainArrive (h : Gated names s) (hmain : s.main = .arriving) :
    Gated names { s with
      barrier := s.barrier.arrive
      main := if s.barrier.arrive.generation = s.barrier.generation then
        .waiting s.barrier.generation else .opened } := by
  have hmissing : came names.length s names.length = 0 := by simp [came, hmain, ServiceAt.came]
  have hgen := h.generation_of_missing le_rfl hmissing
  have hstep := s.barrier.arrive_generation
  refine ⟨by simp [h.size], ?_, h.outside, h.waits, h.arrives, h.unbound, ?_, ?_, ?_⟩
  · apply h.balanced.arrive (i := names.length) (Finset.self_mem_range_succ _)
    · rw [hmissing]
      simp only [came, Nat.lt_irrefl, if_false, Nat.zero_add]
      split <;> rfl
    · intro i hi hne
      have hlt : i < names.length := by
        have hle := Finset.mem_range.mp hi
        omega
      simp only [came, if_pos hlt]
  · intro _ r hpoint
    exact h.closed hgen r hpoint
  · intro generation hwaiting
    dsimp only at hwaiting
    split at hwaiting <;> cases hwaiting
    exact hgen
  · intro hopened
    dsimp only at hopened ⊢
    split at hopened
    · simp at hopened
    · omega

theorem Gated.release (h : Gated names s) {r generation : ℕ}
    (hr : (s.acceptors r).point = .waiting generation) (hopen : generation < s.barrier.generation) :
    Gated names (s.setAcceptor r { s.acceptors r with point := .accepting }) := by
  refine h.of_frame rfl rfl (h.lt_of_bound (r := r) (by simp [hr])) rfl ?_ (by simp) (by simp)
    (by simp) (by omega)
  simp [Acceptor.came, hr]

theorem Gated.move (h : Gated names s) (hm : Move names s a s') : Gated names s' := by
  cases hm
  case bind r name hr hname hfile =>
    have hempty := h.unbound r hr
    refine h.of_frame rfl rfl (List.getElem?_eq_some_iff.mp hname).1 rfl ?_ (by simp) (by simp)
      (by simp) fun _ _ => hempty
    simp [Acceptor.came, hempty]
  case taken r name hr hname hfile =>
    have hempty := h.unbound r hr
    refine h.of_frame rfl rfl (List.getElem?_eq_some_iff.mp hname).1 rfl ?_ (by simp) (by simp)
      (by simp) fun _ _ => hempty
    simp [Acceptor.came, hempty]
  case first r p backlog hr hbacklog haccepted =>
    refine h.of_frame rfl rfl (h.lt_of_bound (r := r) (by simp [hr])) rfl ?_ (by simp) (by simp)
      (by simp) (by simp)
    simp [Acceptor.came, haccepted]
  case accept r p backlog hr hbacklog haccepted =>
    refine h.of_frame rfl rfl (h.lt_of_bound (r := r) (by simp [hr])) rfl ?_ (by simp) (by simp)
      (by simp) ?_
    · simp [Acceptor.came, haccepted, hr]
    · intro hgen
      exact absurd (h.closed hgen r (.inl hr)) haccepted
  case acceptError r hr =>
    refine h.of_frame rfl rfl (h.lt_of_bound (r := r) (by simp [hr])) rfl ?_ (by simp) (by simp)
      (by simp) fun hgen _ => h.closed hgen r (.inl hr)
    simp [Acceptor.came, hr]
  case arrive r hr => exact h.arrive hr
  case release r generation hr hopen => exact h.release hr hopen
  case mainArrive hmain => exact h.mainArrive hmain
  case mainRelease generation hmain hopen =>
    refine h.of_same rfl rfl (by simp [hmain, ServiceAt.came]) (by simp) fun _ => ?_
    omega
  case listen hmain =>
    refine h.of_same rfl rfl (by simp [hmain, ServiceAt.came]) (by simp) fun _ => ?_
    exact h.opened (.inl hmain)
  case listenError hmain =>
    refine h.of_same rfl rfl (by simp [hmain, ServiceAt.came]) (by simp) fun _ => ?_
    exact h.opened (.inl hmain)
  all_goals exact h.of_same rfl rfl rfl (fun _ => id) h.opened

theorem gated_new : Gated names (new names files) := by
  refine ⟨rfl, ?_, fun _ _ => rfl, ?_, ?_, fun _ _ => rfl, ?_, ?_, ?_⟩
  · apply Barrier.balanced_new (Nat.succ_pos _)
    intro i _
    unfold came
    split <;> rfl
  · intro r generation hpoint
    cases hpoint
  · intro r hpoint
    cases hpoint
  · intro _ r _
    rfl
  · intro generation hmain
    cases hmain
  · simp [new]

theorem warm_new : Warm (new names files) := by
  refine ⟨fun _ _ => rfl, fun p _ hp => absurd rfl hp, ?_, ?_⟩
  · intro r p hp
    cases hp
  · intro r p hp
    cases hp

theorem gated_of_run (hs : Reachable (step names) ok (new names files) s) : Gated names s :=
  hs.invariant gated_new fun _ _ _ h _ hstep => h.move (move_of_step hstep)

theorem warm_of_run (hs : Reachable (step names) ok (new names files) s) : Warm s :=
  hs.invariant warm_new fun _ _ _ h _ hstep => h.move (move_of_step hstep)

theorem service_up_after_warmup
    (hs : Reachable (step names) (fun _ _ => True) (new names files) s) :
    s.barrier.generation ≤ 1 ∧
    (s.barrier.generation = 0 → ∀ r, (s.acceptors r).accepted.length ≤ 1) ∧
    (s.main = .serving → ∀ r < names.length, ∃ p ∈ (s.acceptors r).accepted,
      p < s.started ∧ (s.processes p).stage = r ∧ (s.processes p).warmed = true) := by
  have hgated := gated_of_run hs
  refine ⟨?_, fun hgen r => ?_, fun hserving r hr => ?_⟩
  · by_contra hlt
    have hone := (hgated.all_came (by omega)).1
    omega
  · cases hpoint : (s.acceptors r).point with
    | binding => simp [hgated.unbound r hpoint]
    | accepting => simp [hgated.closed hgen r (.inl hpoint)]
    | arriving => exact (hgated.arrives r hpoint).le
    | waiting generation => exact (hgated.waits r generation hpoint).2.le
    | stopped => simp [hgated.closed hgen r (.inr hpoint)]
  · have hcame := (hgated.all_came (hgated.opened (.inr (.inl hserving)))).2 r hr.le
    have hne : (s.acceptors r).accepted ≠ [] := by
      intro hempty
      simp [came, hr, Acceptor.came, hempty] at hcame
    obtain ⟨p, hp⟩ := List.exists_mem_of_ne_nil _ hne
    obtain ⟨hstarted, hstage, hwarmed⟩ := (warm_of_run hs).accepted r p hp
    exact ⟨p, hp, hstarted, hstage, hwarmed⟩

def connecting : List LaunchAction :=
  [.start 0, .warmup 0, .look 0, .bind 0, .look 0, .connect 0]

def oneStage : List String := ["Inference_1"]

theorem service_up_after_warmup_connecting : ∃ s,
    Transition.run (step oneStage) (new oneStage fun _ => false)
      (connecting ++ [.mainArrive, .accept 0, .arrive 0, .mainRelease, .listen]) = some s ∧
      ∃ p ∈ (s.acceptors 0).accepted, (s.processes p).warmed = true := by
  have hview : (Transition.run (step oneStage) (new oneStage fun _ => false)
      (connecting ++ [.mainArrive, .accept 0, .arrive 0, .mainRelease, .listen])).map main =
      some .serving := by
    decide
  obtain ⟨s, hs, hserving⟩ := Option.map_eq_some_iff.mp hview
  obtain ⟨-, -, hup⟩ := service_up_after_warmup (Transition.reachable_of_run hs)
  obtain ⟨p, hp, -, -, hwarmed⟩ := hup hserving 0 (show 0 < 1 by decide)
  exact ⟨s, hs, p, hp, hwarmed⟩

end Launch

end Mosec
