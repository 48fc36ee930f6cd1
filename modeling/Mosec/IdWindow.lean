import Mosec.EventDelivery

namespace Mosec

open Function (update update_self update_of_ne)
open Transition (Reachable)

namespace Handler

def calling : Handler → Bool
  | .uncount .stream => true
  | handler => handler.active

theorem calling_of_active {handler : Handler} (h : handler.active) : handler.calling := by
  cases handler <;> first | rfl | cases h

end Handler

structure Logged where
  state : State
  log : List UInt32

namespace State

variable {svc : Service} {ok : State → Action → Prop} {s s' : State} {a : Action}

def Present (s : State) (i : UInt32) : Prop :=
  (s.manager.table i).isSome ∨ (s.manager.notifiers i).isSome ∨
    (s.manager.streamSenders i).isSome ∨ (∃ a, i ∈ s.holds a) ∨
    ∃ h, (s.requests h).id = i ∧ (s.requests h).handler.calling

theorem InUse.present {i : UInt32} (h : s.InUse i) : s.Present i := by
  rcases h with h | h | h | h | ⟨n, hid, hact⟩
  · exact Or.inl h
  · exact Or.inr (Or.inl h)
  · exact Or.inr (Or.inr (Or.inl h))
  · exact Or.inr (Or.inr (Or.inr (Or.inl h)))
  · exact Or.inr (Or.inr (Or.inr (Or.inr ⟨n, hid, Handler.calling_of_active hact⟩)))

theorem owner_of_step (h : s.step svc a = some s') {i : UInt32}
    (hi : s.allocates a → i ≠ s.manager.currentId) :
    s'.manager.owner i = s.manager.owner i := by
  cases a with
  | submit isSse key body =>
    obtain rfl := Option.some.inj h
    change (Request.submit s.manager s.submitted isSse key body).1.owner i = _
    rcases submit_manager s.manager s.submitted isSse key body with hm | hm
    · rw [hm]
    · rw [hm]
      rfl
  | request n act =>
    obtain ⟨⟨m, q⟩, hstep, rfl⟩ := Option.map_eq_some_iff.mp h
    have hm := Request.move_of_step hstep
    cases hm
    case takeId hq => exact update_of_ne (hi (decide_eq_true hq)) _ _
    all_goals rfl
  | connect r =>
    simp only [step] at h
    split at h
    · cases h
      rfl
    · cases h
  | conn k act =>
    obtain ⟨⟨m, c⟩, hstep, rfl⟩ := Option.map_eq_some_iff.mp h
    obtain ⟨ids, hm⟩ := Conn.move_of_step hstep
    exact congrFun hm.owner i

theorem freshId_of_allocates (h : s.allocates a → ¬ s.Present s.manager.currentId) :
    s.FreshId a := by
  rintro n rfl hq huse
  exact h (decide_eq_true hq) huse.present

/-- What a step may do with ids: it hands out one that nothing refers to, it inserts under free
keys, and an id that something refers to stays with its submission. -/
structure KeepsIds (s s' : State) (a : Action) : Prop where
  fresh : s.allocates a → ¬ s.Present s.manager.currentId
  notifier : ∀ h, a = .request h .run → (s.requests h).handler = .insertNotifier →
    s.manager.notifiers (s.requests h).id = none
  entry : ∀ h, a = .request h .run → (s.requests h).handler = .insertTask →
    s.manager.table (s.requests h).id = none
  sender : ∀ h, a = .request h .run → (s.requests h).handler = .insertStream →
    s.manager.streamSenders (s.requests h).id = none
  queued : ∀ h, a = .request h .run → (s.requests h).handler = .trySend →
    s.manager.owner (s.requests h).id = some h
  owner : ∀ i, s.Present i → s'.manager.owner i = s.manager.owner i

theorem keepsIds (hs : FreshRun svc ok s)
    (hfresh : s.allocates a → ¬ s.Present s.manager.currentId) (h : s.step svc a = some s') :
    s.KeepsIds s' a where
  fresh := hfresh
  notifier := by
    rintro n rfl hq
    have hcoherent := coherent_of_run hs
    have hown := hcoherent.active (h := n) (by rw [hq]; rfl)
    have hnone : (s.life n).notifier = false :=
      (notified_of_run hs n).unnotified (by rw [life, hq]; rfl)
    by_contra hsome
    obtain ⟨n', hn'⟩ := Option.ne_none_iff_exists'.mp hsome
    have hsame := hcoherent.notifier hn'
    rw [hown] at hsame
    rw [life, hn', ← hsame] at hnone
    simp at hnone
  entry := by
    rintro n rfl hq
    have hown := (coherent_of_run hs).active (h := n) (by rw [hq]; rfl)
    have hnone : (s.life n).entry = none := (filed_of_run hs n).unfiled (by rw [life, hq]; rfl)
    rwa [life, if_pos hown] at hnone
  sender := by
    rintro n rfl hq
    have hcoherent := coherent_of_run hs
    have hown := hcoherent.active (h := n) (by rw [hq]; rfl)
    have hnone : (s.life n).sender = false := unregistered_of_run hs n (by rw [life, hq]; rfl)
    by_contra hsome
    obtain ⟨n', hn'⟩ := Option.ne_none_iff_exists'.mp hsome
    have hsame := hcoherent.sender hn'
    rw [hown] at hsame
    rw [life, hn', ← hsame] at hnone
    simp at hnone
  queued := by
    rintro n rfl hq
    exact (coherent_of_run hs).active (by rw [hq]; rfl)
  owner := by
    intro i hi
    apply owner_of_step h
    rintro hall rfl
    exact hfresh hall hi

end State

namespace Logged

open State (FreshRun Run)

variable {svc : Service} {x y z : Logged} {a : Action}

def start : Logged := ⟨State.start, []⟩

def step (svc : Service) (x : Logged) (a : Action) : Option Logged :=
  (x.state.step svc a).map fun s =>
    ⟨s, if x.state.allocates a then x.state.manager.currentId :: x.log else x.log⟩

def Recent (x : Logged) (i : UInt32) : Prop := i ∈ x.log.take (2 ^ 32 - 1)

def Windowed (x : Logged) (a : Action) : Prop :=
  x.state.allocates a → ∀ i, x.state.Present i → x.Recent i

abbrev WindowedRun (svc : Service) (x : Logged) : Prop := Reachable (step svc) Windowed start x

def Counted (x : Logged) : Prop :=
  x.log = ((List.range x.state.manager.allocated).map UInt32.ofNat).reverse

theorem Counted.step (hx : x.Counted) (hnumbered : x.state.Numbered)
    (h : x.step svc a = some y) : y.Counted := by
  obtain ⟨s, hs, rfl⟩ := Option.map_eq_some_iff.mp h
  change (if x.state.allocates a then x.state.manager.currentId :: x.log else x.log) =
    ((List.range s.manager.allocated).map UInt32.ofNat).reverse
  rw [State.allocated_of_step hs]
  split
  · rw [List.range_succ, List.map_append, List.reverse_append, ← hx, hnumbered.currentId]
    rfl
  · exact hx

theorem Recent.ne_currentId (hx : x.Counted) (hnumbered : x.state.Numbered) {i : UInt32}
    (h : x.Recent i) : i ≠ x.state.manager.currentId := by
  rw [Recent, hx] at h
  obtain ⟨k, hk, rfl⟩ := List.mem_take_iff_getElem.mp h
  simp only [List.length_reverse, List.length_map, List.length_range] at hk
  rw [hnumbered.currentId]
  intro heq
  have hnat := congrArg UInt32.toNat heq
  simp only [List.getElem_reverse, List.getElem_map, List.getElem_range, List.length_map,
    List.length_range, UInt32.toNat_ofNat'] at hnat
  omega

structure Sound (svc : Service) (x : Logged) : Prop where
  run : FreshRun svc (fun _ _ => True) x.state
  counted : x.Counted

theorem Sound.numbered (hx : x.Sound svc) : x.state.Numbered :=
  State.numbered_of_run hx.run

theorem Sound.fresh (hx : x.Sound svc) (ha : x.Windowed a) (hall : x.state.allocates a) :
    ¬ x.state.Present x.state.manager.currentId := by
  intro hpresent
  exact (ha hall _ hpresent).ne_currentId hx.counted hx.numbered rfl

theorem Sound.step (hx : x.Sound svc) (ha : x.Windowed a) (h : x.step svc a = some y) :
    y.Sound svc := by
  have hcounted := hx.counted.step hx.numbered h
  obtain ⟨s, hs, rfl⟩ := Option.map_eq_some_iff.mp h
  exact ⟨hx.run.step ⟨State.freshId_of_allocates (hx.fresh ha), trivial⟩ hs, hcounted⟩

theorem sound_of_run (hx : WindowedRun svc x) : x.Sound svc := by
  apply Reachable.invariant ⟨.init, rfl⟩ ?_ hx
  intro x a y hx ha h
  exact hx.step ha h

theorem Sound.owner_of_run (hx : x.Sound svc) {as : List Action} {i : UInt32}
    (has : Transition.Follows (Logged.step svc) (fun x a => x.Windowed a ∧ x.state.Present i) x as)
    (hrun : Transition.run (Logged.step svc) x as = some y) :
    y.Sound svc ∧ y.state.manager.owner i = x.state.manager.owner i := by
  induction as generalizing x with
  | nil =>
    cases hrun
    exact ⟨hx, rfl⟩
  | cons a as ih =>
    obtain ⟨⟨ha, hpresent⟩, hrest⟩ := has
    obtain ⟨x', hx', hrun⟩ := Option.bind_eq_some_iff.mp hrun
    obtain ⟨hy, howner⟩ := ih (hx.step ha hx') (hrest x' hx') hrun
    refine ⟨hy, howner.trans ?_⟩
    obtain ⟨s, hs, rfl⟩ := Option.map_eq_some_iff.mp hx'
    exact (State.keepsIds hx.run (hx.fresh ha) hs).owner i hpresent

/-- In a run of any length whose ids come back to no id still referred to, no insertion meets an
entry, and what is filed under an id belongs to the submission it stands for. -/
theorem ids_stay_unique (hx : WindowedRun svc x) :
    (∀ a y, x.Windowed a → x.step svc a = some y → x.state.KeepsIds y.state a) ∧
    ∀ as y i h,
      Transition.Follows (step svc) (fun x a => x.Windowed a ∧ x.state.Present i) x as →
      Transition.run (step svc) x as = some y → x.state.manager.owner i = some h →
        (∀ task, y.state.manager.table i = some task → task.createAt = h) ∧
        (∀ n, y.state.manager.notifiers i = some n → n = h) ∧
        ∀ n, y.state.manager.streamSenders i = some n → n = h := by
  have hsound := sound_of_run hx
  constructor
  · intro a y ha h
    obtain ⟨s, hs, rfl⟩ := Option.map_eq_some_iff.mp h
    exact State.keepsIds hsound.run (hsound.fresh ha) hs
  · intro as y i h has hrun howner
    obtain ⟨hy, hsame⟩ := hsound.owner_of_run has hrun
    have hcoherent := State.coherent_of_run hy.run
    have hkept : ∀ n, y.state.manager.owner i = some n → n = h := by
      intro n hn
      rw [hsame, howner] at hn
      exact (Option.some.inj hn).symm
    refine ⟨?_, ?_, ?_⟩
    · intro task htask
      exact hkept _ (hcoherent.entry htask)
    · intro n hn
      exact hkept n (hcoherent.notifier hn)
    · intro n hn
      exact hkept n (hcoherent.sender hn)

def submitted : Logged := ⟨State.start.submit true "/" [1], []⟩

theorem submitted_absent (i : UInt32) : ¬ submitted.state.Present i := by
  rintro (h | h | h | ⟨a, h⟩ | ⟨n, -, h⟩)
  · cases h
  · cases h
  · cases h
  · cases a <;> cases h
  · by_cases hn : n = 0
    · subst hn
      cases h
    · have hother : submitted.state.requests n = .absent := update_of_ne hn ..
      rw [hother] at h
      cases h

theorem submitted_run : WindowedRun echo submitted := by
  have hwindowed : start.Windowed (.submit true "/" [1]) := by
    intro hall
    cases hall
  exact Reachable.init.step hwindowed rfl

theorem ids_stay_unique_queued : ∃ x, WindowedRun echo x ∧ x.log = [0] ∧
    x.state.manager.queues 0 = [0] ∧
    (∀ a y, x.Windowed a → x.step echo a = some y → x.state.KeepsIds y.state a) ∧
    ∀ as y i h,
      Transition.Follows (step echo) (fun x a => x.Windowed a ∧ x.state.Present i) x as →
      Transition.run (step echo) x as = some y → x.state.manager.owner i = some h →
        (∀ task, y.state.manager.table i = some task → task.createAt = h) ∧
        (∀ n, y.state.manager.notifiers i = some n → n = h) ∧
        ∀ n, y.state.manager.streamSenders i = some n → n = h := by
  have hview : (Transition.run (step echo) submitted (List.replicate 4 (.request 0 .run))).map
      (fun x => (x.log, x.state.manager.queues 0)) = some ([0], [0]) := by decide +kernel
  have hfollows : Transition.Follows (step echo) Windowed submitted
      (List.replicate 4 (.request 0 .run)) := by
    refine ⟨fun _ i hi => absurd hi (submitted_absent i), ?_⟩
    intro x hx
    obtain rfl := Option.some.inj hx
    have htest : ∀ (x : Logged) a, !x.state.allocates a → x.Windowed a := by
      intro x a htest hall
      rw [hall] at htest
      cases htest
    exact Transition.follows_of_checked htest (by decide +kernel)
  obtain ⟨x, hrun, hfields⟩ := Option.map_eq_some_iff.mp hview
  obtain ⟨hlog, hqueue⟩ := Prod.mk.inj hfields
  have hx : WindowedRun echo x := submitted_run.run hfollows hrun
  exact ⟨x, hx, hlog, hqueue, ids_stay_unique hx⟩

end Logged

end Mosec
