import Mosec.ForwardInterruption

namespace Mosec

namespace SieveCache

open DoublyLinked (Path)

variable {K V : Type} [DecidableEq K] {c : SieveCache K V} {order : List ℕ}

def Entry (c : SieveCache K V) (k : K) (v : V) : Prop :=
  ∃ order a, Path c.next order ∧ c.head = order.head? ∧ a ∈ order ∧
    c.map.lookup k = some a ∧ c.key a = some k ∧ c.value a = some v

theorem Links.entry (h : Links c order) {a : ℕ} {k : K} {v : V} (ha : a ∈ order)
    (hk : c.key a = some k) (hv : c.value a = some v) : Entry c k v :=
  ⟨order, a, h.linked.path, h.head, ha, h.lookup.mpr ⟨ha, hk⟩, hk, hv⟩

theorem Links.found (h : Links c order) {a : ℕ} {k : K} (hlookup : c.map.lookup k = some a) :
    ∃ v, c.value a = some v ∧ Entry c k v := by
  obtain ⟨ha, hk⟩ := h.lookup.mp hlookup
  obtain ⟨v, hv⟩ := Option.isSome_iff_exists.mp (h.value ha)
  exact ⟨v, hv, h.entry ha hk hv⟩

def handedOut : CacheOp K V → CacheResult K V → Option (K × V)
  | .get k, .value v => v.map (k, ·)
  | .remove k, .value v => v.map (k, ·)
  | _, .evicted p => p
  | _, _ => none

theorem Consistent.get (h : Consistent c) (k : K) : Consistent (c.get k).1 ∧
    (∀ v, (c.get k).2 = some v → Entry c k v) ∧
      (c.contains k = true → ∃ v, (c.get k).2 = some v) := by
  obtain ⟨order, h⟩ := h
  rw [SieveCache.get, contains]
  cases hlookup : c.map.lookup k with
  | none =>
    refine ⟨⟨order, h⟩, ?_, ?_⟩
    · rintro v ⟨⟩
    · rintro ⟨⟩
  | some a =>
    obtain ⟨v, hv, hentry⟩ := h.found hlookup
    refine ⟨⟨order, h.setVisited a true⟩, ?_, fun _ => ⟨v, hv⟩⟩
    intro v' hv'
    cases hv.symm.trans hv'
    exact hentry

theorem Consistent.remove (h : Consistent c) (k : K) : Consistent (c.remove k).1 ∧
    ∀ v, (c.remove k).2 = some v → Entry c k v := by
  obtain ⟨order, h⟩ := h
  rw [SieveCache.remove]
  cases hlookup : c.map.lookup k with
  | none => exact ⟨⟨order, h⟩, fun _ heq => by cases heq⟩
  | some a =>
    obtain ⟨ha, hk⟩ := h.lookup.mp hlookup
    obtain ⟨v, hv, hentry⟩ := h.found hlookup
    obtain ⟨newer, older, rfl⟩ := List.append_of_mem ha
    dsimp only
    rw [unlink_map]
    refine ⟨⟨_, h.drop hk⟩, ?_⟩
    intro v' hv'
    have hvalue : (c.unlink a).value = c.value := (unlink_frame c a).2.2.2.1
    change (c.unlink a).value a = some v' at hv'
    rw [hvalue, hv] at hv'
    cases hv'
    exact hentry

theorem Consistent.evictCore (h : Consistent c) : ∃ c' p, c.evictCore = some (c', p) ∧
    Consistent c' ∧ ∀ e, p = some e → Entry c e.1 e.2 := by
  obtain ⟨order, h⟩ := h
  by_cases hne : order = []
  · have hempty : c.len = 0 := by rw [h.size, hne, List.length_nil]
    refine ⟨c, none, ?_, ⟨order, h⟩, fun _ heq => by cases heq⟩
    rw [SieveCache.evictCore, if_pos hempty]
  · obtain ⟨newer, a, older, k, v, c', rfl, hk, hv, hevict, hlinks, -⟩ := h.evictCore_removes hne
    refine ⟨c', some (k, v), hevict, ⟨_, hlinks⟩, ?_⟩
    rintro _ ⟨⟩
    exact h.entry (by simp) hk hv

theorem Consistent.evict (h : Consistent c) : ∃ c' p, c.evict = some (c', p) ∧
    Consistent c' ∧ ∀ e, p = some e → Entry c e.1 e.2 := by
  rw [SieveCache.evict]
  by_cases hempty : c.len = 0
  · rw [if_pos hempty]
    exact ⟨c, none, rfl, h, fun _ heq => by cases heq⟩
  · rw [if_neg hempty]
    exact h.evictCore

theorem Consistent.put (h : Consistent c) (k : K) (v : V) : ∃ c' p, c.put k v = some (c', p) ∧
    Consistent c' ∧ ∀ e, p = some e → Entry c e.1 e.2 := by
  obtain ⟨order, h⟩ := h
  rw [SieveCache.put]
  cases hlookup : c.map.lookup k with
  | some a =>
    exact ⟨_, none, rfl, ⟨order, (h.setValue a v).setVisited a true⟩, fun _ heq => by cases heq⟩
  | none =>
    have hk : k ∉ c.map := AList.lookup_eq_none.mp hlookup
    by_cases hfull : c.maxSize ≤ c.len
    · rw [if_pos hfull]
      have hne : order ≠ [] := by
        rintro rfl
        have hpos := c.maxSize_pos
        rw [h.size, List.length_nil] at hfull
        omega
      obtain ⟨newer, a, older, k', v', c', rfl, hk', hv', hevict, hlinks, hmap, hmax⟩ :=
        h.evictCore_removes hne
      refine ⟨_, some (k', v'), by rw [hevict]; rfl, ⟨_, hlinks.setNew v ?_ ?_⟩, ?_⟩
      · rw [hmap, AList.mem_erase]
        exact fun hmem => hk hmem.2
      · have hbound := h.bound
        simp only [List.length_append, List.length_cons] at hbound ⊢
        omega
      · rintro _ ⟨⟩
        exact h.entry (by simp) hk' hv'
    · rw [if_neg hfull]
      have hlt : order.length < c.maxSize := by
        rw [← h.size]
        omega
      exact ⟨_, none, rfl, ⟨_, h.setNew v hk hlt⟩, fun _ heq => by cases heq⟩

def Genuine (c : SieveCache K V) : List (CacheOp K V) → Prop
  | [] => True
  | op :: ops => ∃ c' result, c.call op = some (c', result) ∧
      (∀ e, handedOut op result = some e → Entry c e.1 e.2) ∧ Genuine c' ops

theorem Consistent.call (h : Consistent c) (op : CacheOp K V) : ∃ c' result,
    c.call op = some (c', result) ∧ Consistent c' ∧
      ∀ e, handedOut op result = some e → Entry c e.1 e.2 := by
  cases op with
  | get k =>
    obtain ⟨hc, hentry, -⟩ := h.get k
    refine ⟨_, _, rfl, hc, ?_⟩
    rintro e he
    obtain ⟨v, hv, rfl⟩ := Option.map_eq_some_iff.mp he
    exact hentry v hv
  | put k v =>
    obtain ⟨c', p, hput, hc, hentry⟩ := h.put k v
    exact ⟨c', .evicted p, congrArg (Option.map _) hput, hc, hentry⟩
  | remove k =>
    obtain ⟨hc, hentry⟩ := h.remove k
    refine ⟨_, _, rfl, hc, ?_⟩
    rintro e he
    obtain ⟨v, hv, rfl⟩ := Option.map_eq_some_iff.mp he
    exact hentry v hv
  | evict =>
    obtain ⟨c', p, hevict, hc, hentry⟩ := h.evict
    exact ⟨c', .evicted p, congrArg (Option.map _) hevict, hc, hentry⟩

theorem Consistent.genuine (h : Consistent c) (ops : List (CacheOp K V)) : Genuine c ops := by
  induction ops generalizing c with
  | nil => trivial
  | cons op ops ih =>
    obtain ⟨c', result, hcall, hc, hentry⟩ := h.call op
    exact ⟨c', result, hcall, hentry, ih hc⟩

theorem scan_endless (htail : c.tail = none) (n : ℕ) : scan n c none = none := by
  induction n generalizing c with
  | zero => rfl
  | succ n ih =>
    rw [scan, htail]
    exact ih rfl

theorem consistent_new (n : ℕ) (hn : 1 ≤ n) : Consistent (new n hn : SieveCache K V) :=
  ⟨[], (rep_new n hn).links⟩

end SieveCache

namespace MultiModelWorker

open Program (Triple finalState)
open Program.Interruptible (Ends)
open SieveCache (Consistent Genuine consistent_new scan scan_endless)

variable {σ Id Model Item Result Err : Type} [DecidableEq Id]

section Untimed

variable (hooks : Hooks σ Id Model Item Result Err)

def Unstuck (e : ModelError Id Err) (w : MultiModelWorker σ Id Model) : Prop :=
  e ≠ .stuck ∧ Whole w

theorem hook_whole {α : Type} (x : EStateM Err σ α) :
    Triple Whole (hook x : Method σ Id Model Err α) (fun _ => Whole) Unstuck :=
  triple_hook (fun _ h => h) (fun _ _ h => h) fun _ _ h => ⟨nofun, h⟩

theorem note_whole (event : CacheEvent Id Model) :
    Triple Whole (note event : Method σ Id Model Err Unit) (fun _ => Whole) Unstuck :=
  Triple.update _ fun _ h => h

theorem makeRoom_whole : Triple Whole (makeRoom hooks) (fun _ => Whole) Unstuck := by
  apply Triple.get_bind
  rintro w hw
  apply Triple.ite
  · intro _
    obtain ⟨cache, evicted, hevict, hcache, -⟩ := Consistent.evict hw
    apply Triple.bind fun p _ => p = (cache, evicted)
    · exact triple_returned fun _ _ => ⟨_, hevict, rfl⟩
    rintro p
    apply Triple.bind fun _ => Whole
    · apply Triple.update
      rintro _ rfl
      exact hcache
    rintro -
    cases p.2 with
    | none => exact Triple.pure _ fun _ h => h
    | some e => exact Triple.bind _ (note_whole _) fun _ => hook_whole _
  · intro _
    exact Triple.pure _ fun _ h => h ▸ hw

theorem loadInto_whole (modelId : Id) :
    Triple Whole (loadInto hooks modelId) (fun _ => Whole) Unstuck := by
  apply Triple.get_bind
  rintro w hw
  apply Triple.bind fun _ => Whole
  · apply Triple.update
    rintro _ rfl
    exact hw
  rintro -
  apply Triple.bind _ (hook_whole _)
  intro model
  apply Triple.bind _ (note_whole _)
  rintro -
  apply Triple.get_bind
  rintro w' hw'
  obtain ⟨cache, evicted, hput, hcache, -⟩ := Consistent.put hw' modelId model
  apply Triple.bind fun p _ => p = (cache, evicted)
  · exact triple_returned fun _ _ => ⟨_, hput, rfl⟩
  rintro p
  apply Triple.bind fun _ => Whole
  · apply Triple.update
    rintro _ rfl
    exact hcache
  rintro -
  apply Triple.bind _ (note_whole _)
  rintro -
  exact Triple.pure _ fun _ h => h

theorem ensureModel_whole (modelId : Id) :
    Triple Whole (ensureModel hooks modelId) (fun _ => Whole) Unstuck := by
  apply Triple.get_bind
  rintro w hw
  apply Triple.ite
  · intro hhit
    obtain ⟨hcache, -, hfound⟩ := Consistent.get hw modelId
    apply Triple.bind fun _ => Whole
    · apply Triple.update
      rintro _ rfl
      exact hcache
    · rintro -
      obtain ⟨model, hmodel⟩ := hfound hhit
      exact triple_returned fun _ h => ⟨model, hmodel, h⟩
  · intro _
    apply Triple.bind fun _ => Whole
    · exact (hook_whole _).weaken (fun _ h => h ▸ hw) (fun _ _ h => h) fun _ _ h => h
    intro available
    apply Triple.ite
    · intro _
      exact Triple.bind _ (makeRoom_whole hooks) fun _ => loadInto_whole hooks modelId
    · intro _
      exact Triple.throw _ fun _ h => ⟨nofun, h⟩

theorem forwardGroup_whole (results : List (Option Result)) (group : Id × List (ℕ × Item)) :
    Triple Whole (forwardGroup hooks results group) (fun _ => Whole) Unstuck := by
  apply Triple.bind _ (ensureModel_whole hooks group.1)
  intro model
  apply Triple.bind _ (note_whole _)
  rintro -
  apply Triple.bind _ (hook_whole _)
  intro subResults
  apply Triple.ite
  · intro _
    exact Triple.pure _ fun _ h => h
  · intro _
    exact Triple.throw _ fun _ h => ⟨nofun, h⟩

theorem forward_whole (items : List Item) :
    Triple Whole (forward hooks items) (fun _ => Whole) Unstuck := by
  apply Triple.bind fun _ => Whole
  · apply Triple.foldlM fun _ _ => Whole
    intro done p groups _
    apply Triple.bind _ (hook_whole _)
    intro modelId
    exact Triple.pure _ fun _ h => h
  intro groups
  apply Triple.get_bind
  rintro w hw
  have hloop : ∀ (l : List (Id × List (ℕ × Item))) (results : List (Option Result)),
      Triple Whole (l.foldlM (forwardGroup hooks) results) (fun _ => Whole) Unstuck := by
    intro l results
    apply Triple.foldlM fun _ _ => Whole
    intro done group results _
    exact forwardGroup_whole hooks results group
  exact (hloop _ _).weaken (fun _ h => h ▸ hw) (fun _ _ h => h) fun _ _ h => h

end Untimed

structure TimedCall (σ Item : Type) where
  items : List Item
  strike : CachePoint
  alarm : Option ℕ
  /-- What an interrupted hook makes of the user's state. -/
  leaves : σ → σ

variable (hooks : Hooks σ Id Model Item Result Err)

/-- The worker after a call of `forward` under `set_mosec_timeout`. `coordinate` catches what the
signal raises, and keeps the worker. -/
def afterTimed (w : MultiModelWorker σ Id Model) (call : TimedCall σ Item) :
    MultiModelWorker σ Id Model :=
  match forwardSteps call.strike hooks call.items (w, call.alarm) with
  | .ok _ t => t.1
  | .error (.raised _) t => t.1
  | .error .timeout t => { t.1 with user := call.leaves t.1.user }

def afterTimedCalls (w : MultiModelWorker σ Id Model) (calls : List (TimedCall σ Item)) :
    MultiModelWorker σ Id Model :=
  calls.foldl (afterTimed hooks) w

def Struck (w : MultiModelWorker σ Id Model) (call : TimedCall σ Item) : Prop :=
  ∃ t, forwardSteps call.strike hooks call.items (w, call.alarm) = .error .timeout t

variable {hooks} {w : MultiModelWorker σ Id Model}

theorem afterTimed_whole_iff (h : Whole w) (call : TimedCall σ Item) :
    Whole (afterTimed hooks w call) ↔ (Struck hooks w call → call.strike.torn = false) := by
  rw [afterTimed, Struck]
  have hfollows := forwardSteps_follows call.strike hooks call.items w
  have hwhole := forward_whole hooks call.items w h
  unfold Program.Interruptible.FollowsAt at hfollows
  have hends : ∃ r w', Ends (forwardSteps call.strike hooks call.items) w r w' ∧ Whole w' := by
    cases hrun : forward hooks call.items w with
    | ok a w' =>
      rw [hrun] at hfollows hwhole
      exact ⟨.ok a, w', hfollows, hwhole⟩
    | error e w' =>
      rw [hrun] at hfollows hwhole
      exact ⟨.error e, w', hfollows hwhole.1, hwhole.2⟩
  obtain ⟨r, w', hends, hw'⟩ := hends
  rcases hends.struck call.alarm with ⟨t, ht⟩ | ⟨alarm', ht⟩
  · have hleft := forwardSteps_upon call.strike hooks call.items (w, call.alarm) h
    rw [ht] at hleft ⊢
    exact (hleft rfl).trans (by simp)
  · rw [ht]
    cases r with
    | ok a => exact iff_of_true hw' (by rintro ⟨t, ⟨⟩⟩)
    | error e => exact iff_of_true hw' (by rintro ⟨t, ⟨⟩⟩)

/-- The cache is as it should be: every later call of `forward` returns or raises, and whatever is
asked of the cache, it hands out entries only. -/
structure Sound (hooks : Hooks σ Id Model Item Result Err) (w : MultiModelWorker σ Id Model) :
    Prop where
  consistent : Consistent w.modelCache
  ends : ∀ items w', forward hooks items w ≠ .error .stuck w'
  genuine : ∀ ops, Genuine w.modelCache ops

theorem Whole.sound (h : Whole w) : Sound hooks w where
  consistent := h
  ends := by
    intro items w' hrun
    have hwhole := forward_whole hooks items w h
    rw [hrun] at hwhole
    exact hwhole.1 rfl
  genuine := h.genuine

theorem timeouts_keep_cache_iff (user : σ) (n : ℕ) (hn : 1 ≤ n)
    (calls : List (TimedCall σ Item)) :
    (∀ earlier, earlier <+: calls →
      Sound hooks (afterTimedCalls hooks (new user n hn) earlier)) ↔
    ∀ earlier call, earlier ++ [call] <+: calls →
      Struck hooks (afterTimedCalls hooks (new user n hn) earlier) call →
        call.strike.torn = false := by
  have hafter : ∀ (earlier : List (TimedCall σ Item)) (call : TimedCall σ Item),
      afterTimedCalls hooks (new user n hn : MultiModelWorker σ Id Model) (earlier ++ [call]) =
        afterTimed hooks (afterTimedCalls hooks (new user n hn) earlier) call := by
    intro earlier call
    rw [afterTimedCalls, List.foldl_append]
    rfl
  constructor
  · intro hsound earlier call hprefix
    have hbefore := hsound earlier ((List.prefix_append _ _).trans hprefix)
    have hstep := hsound _ hprefix
    rw [hafter] at hstep
    exact (afterTimed_whole_iff hbefore.consistent call).mp hstep.consistent
  · intro hspared earlier hprefix
    apply Whole.sound
    induction earlier using List.reverseRecOn with
    | nil => exact consistent_new n hn
    | append_singleton earlier call ih =>
      have hbefore := ih ((List.prefix_append _ _).trans hprefix)
      rw [hafter]
      exact (afterTimed_whole_iff hbefore call).mpr (hspared earlier call hprefix)

theorem timeouts_keep_cache_iff_stored :
    Sound echoHooks (afterTimedCalls echoHooks (new () 1 (by decide))
      [⟨[1], .stored, some 0, id⟩, ⟨[2], .handMoved, some 0, id⟩]) := by
  apply (timeouts_keep_cache_iff () 1 (by decide) _).mpr _ _ (List.prefix_refl _)
  intro earlier call hprefix _
  have hcall := hprefix.subset (List.mem_append_right earlier (List.mem_singleton_self call))
  rcases List.mem_cons.mp hcall with rfl | hcall
  · rfl
  · rw [List.mem_singleton.mp hcall]
    rfl

def interruptedEviction : MultiModelWorker Unit ℕ ℕ :=
  afterTimedCalls echoHooks (new () 1 Nat.one_pos)
    [⟨[1], .outside, none, id⟩, ⟨[2], .unlinkedPrev, some 0, id⟩]

theorem timeout_corrupts_cache : ¬ Consistent interruptedEviction.modelCache ∧
    (∃ w, forward echoHooks [2] interruptedEviction = .error .stuck w) ∧
    interruptedEviction.modelCache.len = 1 ∧ interruptedEviction.modelCache.hand = none ∧
    ∀ n, scan n interruptedEviction.modelCache interruptedEviction.modelCache.tail = none := by
  have hhead : interruptedEviction.modelCache.head = none := by decide +kernel
  have htail : interruptedEviction.modelCache.tail = none := by decide +kernel
  have hlen : interruptedEviction.modelCache.len = 1 := by decide +kernel
  refine ⟨?_, ?_, hlen, by decide +kernel, ?_⟩
  · rintro ⟨order, hlinks⟩
    have hnil := List.head?_eq_none_iff.mp (hlinks.head.symm.trans hhead)
    have hsize := hlinks.size
    rw [hlen, hnil] at hsize
    cases hsize
  · have hstuck : (match forward echoHooks [2] interruptedEviction with
        | .error .stuck _ => true
        | _ => false) = true := by decide +kernel
    cases hrun : forward echoHooks [2] interruptedEviction with
    | ok _ _ =>
      rw [hrun] at hstuck
      cases hstuck
    | error e w =>
      rw [hrun] at hstuck
      cases e with
      | stuck => exact ⟨w, rfl⟩
      | _ => cases hstuck
  · rw [htail]
    exact scan_endless htail

end MultiModelWorker

end Mosec
