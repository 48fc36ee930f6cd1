import Mosec.WorkerEnv

namespace Mosec

open Function (update)

def override (value : String → Option String) (vars : List (String × String)) :
    String → Option String :=
  vars.foldl (fun value kv => update value kv.1 (some kv.2)) value

theorem override_of_notMem {vars : List (String × String)} {key : String}
    (h : key ∉ vars.map Prod.fst) (value : String → Option String) :
    override value vars key = value key := by
  induction vars generalizing value with
  | nil => rfl
  | cons kv vars ih =>
    rw [List.map_cons, List.mem_cons, not_or] at h
    exact (ih h.2 _).trans (Function.update_of_ne h.1 _ _)

theorem override_of_mem {vars : List (String × String)} {key : String}
    (h : key ∈ vars.map Prod.fst) (value value' : String → Option String) :
    override value vars key = override value' vars key := by
  induction vars generalizing value value' with
  | nil => exact absurd h List.not_mem_nil
  | cons kv vars ih =>
    by_cases hin : key ∈ vars.map Prod.fst
    · exact ih hin _ _
    · have hkey : key = kv.1 := (List.mem_cons.mp h).resolve_right hin
      have hl := override_of_notMem hin (update value kv.1 (some kv.2))
      have hr := override_of_notMem hin (update value' kv.1 (some kv.2))
      rw [hkey, Function.update_self] at hl hr
      subst hkey
      exact hl.trans hr.symm

theorem override_saved (keys : List String) (f : String → String) (value : String → Option String)
    (key : String) :
    override value (keys.map fun k => (k, f k)) key =
      if key ∈ keys then some (f key) else value key := by
  induction keys generalizing value with
  | nil => rfl
  | cons k keys ih =>
    have hk := ih (update value k (some (f k)))
    change override (update value k (some (f k))) _ key = _
    rw [hk]
    by_cases hin : key ∈ keys
    · rw [if_pos hin, if_pos (List.mem_cons_of_mem _ hin)]
    · rw [if_neg hin]
      by_cases heq : key = k
      · rw [heq, Function.update_self, if_pos List.mem_cons_self]
      · rw [Function.update_of_ne heq, if_neg]
        rw [List.mem_cons, not_or]
        exact ⟨heq, hin⟩

def accepted (vars : List (String × String)) : List (String × String) :=
  vars.takeWhile fun kv => LegalName kv.1 ∧ LegalValue kv.2

theorem accepted_cons_of_pos {kv : String × String} (h : LegalName kv.1 ∧ LegalValue kv.2)
    (vars : List (String × String)) : accepted (kv :: vars) = kv :: accepted vars := by
  simp [accepted, h]

theorem accepted_cons_of_neg {kv : String × String} (h : ¬(LegalName kv.1 ∧ LegalValue kv.2))
    (vars : List (String × String)) : accepted (kv :: vars) = [] := by
  unfold accepted
  exact List.takeWhile_cons_of_neg fun hd => h (of_decide_eq_true hd)

/-- The names `env_var_context` saves, the one whose assignment raises included. -/
def saved : List (String × String) → List String
  | [] => []
  | (key, value) :: vars => if LegalName key ∧ LegalValue value then key :: saved vars else [key]

def touched (vars : List (String × String)) : List String := (saved vars).takeWhile (LegalName ·)

theorem Environ.set_value {e e' : Environ} {key v : String} (h : e.set key v = some e') :
    e'.value = update e.value key (some v) := by
  unfold Environ.set at h
  split at h
  · cases h
    rfl
  · cases h

theorem Environ.set_isSome (e : Environ) (key v : String) :
    (e.set key v).isSome ↔ LegalName key ∧ LegalValue v := by
  unfold Environ.set
  split
  · exact iff_of_true rfl ‹_›
  · exact iff_of_false Bool.noConfusion ‹_›

theorem accepted_of_set_none {e : Environ} {kv : String × String} (h : e.set kv.1 kv.2 = none)
    (vars : List (String × String)) : accepted (kv :: vars) = [] := by
  apply accepted_cons_of_neg
  rw [← e.set_isSome, h]
  exact Bool.noConfusion

theorem accepted_of_set_some {e e' : Environ} {kv : String × String}
    (h : e.set kv.1 kv.2 = some e') (vars : List (String × String)) :
    accepted (kv :: vars) = kv :: accepted vars := by
  apply accepted_cons_of_pos
  rw [← e.set_isSome, h]
  rfl

theorem Environ.getenv_legal (e : Environ) (key : String) : LegalValue (e.getenv key) := by
  unfold Environ.getenv
  cases h : e.value key with
  | none => decide
  | some v => exact (e.legal h).2

theorem saved_subset (vars : List (String × String)) : saved vars ⊆ vars.map Prod.fst := by
  induction vars with
  | nil => exact fun _ h => h
  | cons kv vars ih =>
    unfold saved
    split
    · exact List.cons_subset_cons _ ih
    · exact List.cons_subset_cons _ (List.nil_subset _)

theorem mem_touched_of_mem_accepted {vars : List (String × String)} {key : String}
    (h : key ∈ (accepted vars).map Prod.fst) : key ∈ touched vars := by
  induction vars with
  | nil => exact h
  | cons kv vars ih =>
    by_cases hlegal : LegalName kv.1 ∧ LegalValue kv.2
    · have htouched : touched (kv :: vars) = kv.1 :: touched vars := by
        simp [touched, saved, hlegal.1, hlegal.2]
      rw [accepted_cons_of_pos hlegal, List.map_cons, List.mem_cons] at h
      rw [htouched]
      cases h with
      | inl h => exact h ▸ List.mem_cons_self
      | inr h => exact List.mem_cons_of_mem _ (ih h)
    · rw [accepted_cons_of_neg hlegal] at h
      cases h

theorem accepted_saved (e : Environ) (keys : List String) :
    accepted (keys.map fun k => (k, e.getenv k)) =
      (keys.takeWhile (LegalName ·)).map fun k => (k, e.getenv k) := by
  unfold accepted
  rw [List.takeWhile_map]
  congr 2
  funext k
  have hv := e.getenv_legal k
  simp [hv]

theorem restore_value (e : Environ) (default : List (String × String)) :
    (restore e default).1.value = override e.value (accepted default) := by
  induction default generalizing e with
  | nil => rfl
  | cons kv default ih =>
    unfold restore
    cases h : e.set kv.1 kv.2 with
    | none =>
      rw [accepted_of_set_none h]
      rfl
    | some e' =>
      rw [accepted_of_set_some h]
      refine (ih e').trans ?_
      rw [Environ.set_value h]
      rfl

theorem assign_environ (default : List (String × String)) (e : Environ)
    (vars : List (String × String)) :
    (assign default e vars).environ.value = override e.value (accepted vars) := by
  induction vars generalizing default e with
  | nil => rfl
  | cons kv vars ih =>
    unfold assign
    cases h : e.set kv.1 kv.2 with
    | none =>
      rw [accepted_of_set_none h]
      rfl
    | some e' =>
      rw [accepted_of_set_some h]
      have hrest := ih (default ++ [(kv.1, e.getenv kv.1)]) e'
      rw [Environ.set_value h] at hrest
      exact hrest

theorem assign_yields {default : List (String × String)} {e : Environ}
    {vars : List (String × String)} (h : (assign default e vars).yields = true) :
    accepted vars = vars := by
  induction vars generalizing default e with
  | nil => rfl
  | cons kv vars ih =>
    unfold assign at h
    cases hs : e.set kv.1 kv.2 with
    | none =>
      rw [hs] at h
      cases h
    | some e' =>
      rw [hs] at h
      rw [accepted_of_set_some hs, ih h]

theorem assign_default {vars : List (String × String)} (hnodup : (vars.map Prod.fst).Nodup)
    (default : List (String × String)) (e : Environ) :
    (assign default e vars).default =
      default ++ (saved vars).map fun k => (k, e.getenv k) := by
  induction vars generalizing default e with
  | nil => exact (List.append_nil _).symm
  | cons kv vars ih =>
    rw [List.map_cons, List.nodup_cons] at hnodup
    have hset := e.set_isSome kv.1 kv.2
    unfold assign saved
    cases h : e.set kv.1 kv.2 with
    | none =>
      rw [h] at hset
      rw [if_neg fun hl => Bool.noConfusion (hset.mpr hl)]
      rfl
    | some e' =>
      rw [h] at hset
      rw [if_pos (hset.mp rfl)]
      have hrest := ih hnodup.2 (default ++ [(kv.1, e.getenv kv.1)]) e'
      have hsame : ∀ k ∈ saved vars, e'.getenv k = e.getenv k := by
        intro k hk
        have hne : k ≠ kv.1 := fun heq => hnodup.1 (heq ▸ saved_subset vars hk)
        unfold Environ.getenv
        rw [Environ.set_value h, Function.update_of_ne hne]
      have hmap : (saved vars).map (fun k => (k, e'.getenv k)) =
          (saved vars).map fun k => (k, e.getenv k) := by
        apply List.map_congr_left
        intro k hk
        rw [hsame k hk]
      rw [hmap] at hrest
      simpa only [List.append_assoc, List.map_cons, List.singleton_append] using hrest

def leave (e : Environ) (vars : List (String × String)) : Environ :=
  (restore (assign [] e vars).environ (assign [] e vars).default).1

theorem leave_value {vars : List (String × String)} (hnodup : (vars.map Prod.fst).Nodup)
    (e : Environ) (key : String) :
    (leave e vars).value key =
      if key ∈ touched vars then some (e.getenv key) else e.value key := by
  unfold leave
  rw [restore_value, assign_default hnodup, List.nil_append, accepted_saved, override_saved,
    assign_environ]
  by_cases hkey : key ∈ touched vars
  · rw [if_pos hkey]
    exact if_pos hkey
  · rw [if_neg hkey]
    refine (if_neg hkey).trans (override_of_notMem ?_ _)
    exact fun h => hkey (mem_touched_of_mem_accepted h)

theorem leave_eq_iff {vars : List (String × String)} (hnodup : (vars.map Prod.fst).Nodup)
    (e : Environ) : leave e vars = e ↔ ∀ key ∈ touched vars, (e.value key).isSome := by
  constructor
  · intro h key hkey
    have hv := leave_value hnodup e key
    rw [h, if_pos hkey] at hv
    rw [hv]
    rfl
  · intro h
    apply Environ.ext_value
    funext key
    rw [leave_value hnodup]
    split
    case isTrue hkey =>
      obtain ⟨v, hv⟩ := Option.isSome_iff_exists.mp (h key hkey)
      rw [Environ.getenv, hv]
      rfl
    case isFalse => rfl

theorem PyRuntime.vars_nodup (runtime : PyRuntime) (workerId : ℕ) :
    ((runtime.vars workerId).vars.map Prod.fst).Nodup := (runtime.vars workerId).nodup

/-- The environment `e` left by the contexts of `starts`: a name that was absent is now empty. -/
def polluted (e : Environ) (starts : List Start) (key : String) : Option String :=
  if e.value key = none ∧ ∃ b ∈ starts, key ∈ touched b.vars then some "" else e.value key

theorem polluted_nil (e : Environ) : polluted e [] = e.value := by
  funext key
  apply if_neg
  rintro ⟨-, b, hb, -⟩
  cases hb

theorem leave_polluted {e e0 : Environ} {starts : List Start} (h : e.value = polluted e0 starts)
    (a : Start) : (leave e a.vars).value = polluted e0 (starts ++ [a]) := by
  funext key
  have hnodup : (a.vars.map Prod.fst).Nodup := a.runtime.vars_nodup a.workerId
  rw [leave_value hnodup, Environ.getenv, h]
  unfold polluted
  simp only [List.mem_append, List.mem_singleton, or_and_right, exists_or, exists_eq_left]
  by_cases hkey : key ∈ touched a.vars
  · cases hv : e0.value key with
    | none => by_cases hb : ∃ b ∈ starts, key ∈ touched b.vars <;> simp [hkey, hb]
    | some v => simp [hkey]
  · simp [hkey]

structure Traced (e : Environ) (s : Parent) : Prop where
  environ : s.environ.value = polluted e s.starts
  spawned : ∀ before a after, s.starts = before ++ a :: after → ∀ e', a.spawned = some e' →
    e'.value = override (polluted e before) a.vars

theorem Traced.new (e : Environ) : Traced e (Parent.new e) where
  environ := (polluted_nil e).symm
  spawned := by
    intro before a after h
    exact absurd (congrArg List.length h) (by simp [Parent.new])

theorem Traced.startWithin {e : Environ} {s : Parent} (h : Traced e s) (runtime : PyRuntime)
    (workerId : ℕ) (starts : Bool) : Traced e (s.startWithin runtime workerId starts).1 where
  environ := leave_polluted h.environ ⟨runtime, workerId, _⟩
  spawned := by
    intro before a after hsplit e' hspawned
    have hstarts : (s.startWithin runtime workerId starts).1.starts =
        s.starts ++ [⟨runtime, workerId, _⟩] := rfl
    rw [hstarts] at hsplit
    cases List.eq_nil_or_concat' after with
    | inl hnil =>
      rw [hnil] at hsplit
      have hlast := List.append_inj' hsplit rfl
      have ha := (List.cons.inj hlast.2).1
      rw [← hlast.1, ← h.environ]
      rw [← ha] at hspawned ⊢
      simp only [Option.ite_none_right_eq_some, Bool.and_eq_true, Option.some.injEq] at hspawned
      have hyields := assign_yields hspawned.1.1
      rw [← hspawned.2, assign_environ, hyields]
      rfl
    | inr hconcat =>
      obtain ⟨after', x, hafter⟩ := hconcat
      rw [hafter, ← List.cons_append, ← List.append_assoc] at hsplit
      exact h.spawned before a after' (List.append_inj' hsplit rfl).1 e' hspawned

theorem Traced.startProcess {e : Environ} {s : Parent} (h : Traced e s) (runtime : PyRuntime)
    (r workerId : ℕ) (starts : Bool) : Traced e (s.startProcess runtime r workerId starts).1 := by
  have hwithin := h.startWithin runtime workerId starts
  unfold Parent.startProcess
  generalize s.startWithin runtime workerId starts = p at hwithin
  cases p with
  | mk s' done =>
    cases done with
    | false => exact hwithin
    | true => exact ⟨hwithin.environ, hwithin.spawned⟩

theorem Traced.startAll {e : Environ} {s : Parent} (h : Traced e s) (runtime : PyRuntime) (r : ℕ)
    (starts : ℕ → Bool) (ids : List ℕ) : Traced e (Parent.startAll runtime r starts ids s).1 := by
  induction ids generalizing s with
  | nil => exact h
  | cons workerId ids ih =>
    have hone := h.startProcess runtime r workerId (starts workerId)
    unfold Parent.startAll
    generalize s.startProcess runtime r workerId (starts workerId) = p at hone
    cases p with
    | mk s' done =>
      cases done with
      | false => exact hone
      | true => exact ih hone

theorem Traced.check {e : Environ} {s : Parent} (h : Traced e s) (runtime : PyRuntime) (r : ℕ)
    (starts : ℕ → Bool) (init : Bool) : Traced e (s.check runtime r starts init).1 := by
  unfold Parent.check
  dsimp only
  split
  · exact h
  · split
    · exact h
    · exact h.startAll runtime r starts _

theorem Traced.checkAndStart {e : Environ} {s : Parent} (h : Traced e s)
    (starts : ℕ → ℕ → Bool) (init : Bool) (runtimes : List PyRuntime) (r : ℕ) :
    Traced e (Parent.checkAndStart starts init runtimes r s) := by
  induction runtimes generalizing r s with
  | nil => exact h
  | cons runtime runtimes ih =>
    have hone := h.check runtime r (starts r) init
    unfold Parent.checkAndStart
    generalize s.check runtime r (starts r) init = p at hone
    cases p with
    | mk s' ok =>
      cases ok with
      | false => exact hone
      | true => exact ih hone (r + 1)

theorem Traced.step {e : Environ} {s : Parent} (h : Traced e s) (runtimes : List PyRuntime)
    (action : ParentAction) : Traced e (Parent.step runtimes s action) := by
  cases action with
  | exit r workerId => exact ⟨h.environ, h.spawned⟩
  | checkAndStart starts init => exact h.checkAndStart starts init runtimes 0
  | startWorker r starts =>
    unfold Parent.step
    dsimp only
    cases runtimes[r]? with
    | none => exact h
    | some runtime => exact h.startWithin runtime 0 starts

theorem Traced.run {e : Environ} {s : Parent} (h : Traced e s) (runtimes : List PyRuntime)
    (actions : List ParentAction) : Traced e (Parent.run runtimes s actions) := by
  induction actions generalizing s with
  | nil => exact h
  | cons action actions ih => exact ih (h.step runtimes action)

theorem override_eq_iff {value value' : String → Option String} {vars : List (String × String)} :
    override value vars = override value' vars ↔
      ∀ key, key ∉ vars.map Prod.fst → value key = value' key := by
  constructor
  · intro h key hkey
    have hat := congrFun h key
    rwa [override_of_notMem hkey, override_of_notMem hkey] at hat
  · intro h
    funext key
    by_cases hkey : key ∈ vars.map Prod.fst
    · exact override_of_mem hkey _ _
    · rw [override_of_notMem hkey, override_of_notMem hkey, h key hkey]

theorem polluted_eq_iff {e : Environ} {starts : List Start} {key : String} :
    polluted e starts key = e.value key ↔
      ∀ b ∈ starts, key ∈ touched b.vars → e.value key ≠ none := by
  unfold polluted
  split
  case isTrue h =>
    obtain ⟨hnone, b, hb, hkey⟩ := h
    rw [hnone]
    apply iff_of_false
    · exact Option.some_ne_none ""
    · exact fun hall => hall b hb hkey rfl
  case isFalse h =>
    apply iff_of_true rfl
    intro b hb hkey hnone
    exact h ⟨hnone, b, hb, hkey⟩

def Unpolluted (e : Environ) (before : List Start) (a : Start) : Prop :=
  ∀ b ∈ before, ∀ key ∈ touched b.vars, e.value key = none → key ∈ a.vars.map Prod.fst

theorem spawned_isolated_iff (runtimes : List PyRuntime) (e : Environ)
    (actions : List ParentAction) :
    ((∀ a ∈ (Parent.run runtimes (Parent.new e) actions).starts, ∀ e', a.spawned = some e' →
        e'.value = override e.value a.vars) ↔
      ∀ before a after,
        (Parent.run runtimes (Parent.new e) actions).starts = before ++ a :: after →
          a.spawned.isSome → Unpolluted e before a) ∧
      ∀ runtime : PyRuntime, ∀ workerId, ∀ e' : Environ,
        leave e' (runtime.vars workerId).vars = e' ↔
          ∀ key ∈ touched (runtime.vars workerId).vars, (e'.value key).isSome := by
  have htraced := (Traced.new e).run runtimes actions
  refine ⟨?_, fun runtime workerId e' => leave_eq_iff (runtime.vars_nodup workerId) e'⟩
  constructor
  · intro h before a after hsplit hsome b hb key hkey hnone
    obtain ⟨e', he'⟩ := Option.isSome_iff_exists.mp hsome
    have hreal := htraced.spawned before a after hsplit e' he'
    have hmem : a ∈ (Parent.run runtimes (Parent.new e) actions).starts := by
      rw [hsplit]
      exact List.mem_append_right _ List.mem_cons_self
    have heq := override_eq_iff.mp (hreal.symm.trans (h a hmem e' he'))
    by_contra hkeys
    exact polluted_eq_iff.mp (heq key hkeys) b hb hkey hnone
  · intro h a ha e' he'
    obtain ⟨before, after, hsplit⟩ := List.append_of_mem ha
    have hclean := h before a after hsplit (Option.isSome_iff_exists.mpr ⟨e', he'⟩)
    rw [htraced.spawned before a after hsplit e' he']
    apply override_eq_iff.mpr
    intro key hkeys
    apply polluted_eq_iff.mpr
    intro b hb hkey hnone
    exact hkeys (hclean b hb key hkey hnone)

def pinnedThenFree : List PyRuntime :=
  [⟨1, some [⟨[("CUDA_VISIBLE_DEVICES", "0")], by decide⟩], by decide, by simp⟩,
    ⟨1, none, by decide, by simp⟩]

theorem spawned_isolated_fails : ∃ a ∈ (Parent.run pinnedThenFree (Parent.new .empty)
    [.checkAndStart (fun _ _ => true) true]).starts, ∃ e', a.spawned = some e' ∧
      a.runtime.env = none ∧ Environ.empty.value "CUDA_VISIBLE_DEVICES" = none ∧
      e'.value "CUDA_VISIBLE_DEVICES" = some "" ∧
      e'.value ≠ override Environ.empty.value a.vars := by
  have hsecond : ((Parent.run pinnedThenFree (Parent.new .empty)
      [.checkAndStart (fun _ _ => true) true]).starts[1]?.map fun a =>
        (a.spawned.map fun e' => e'.value "CUDA_VISIBLE_DEVICES", a.vars, a.runtime.env.isNone)) =
      some (some (some ""), [], true) := by decide +kernel
  obtain ⟨a, ha, hreads⟩ := Option.map_eq_some_iff.mp hsecond
  rw [Prod.mk.injEq, Prod.mk.injEq] at hreads
  obtain ⟨e', he', hvalue⟩ := Option.map_eq_some_iff.mp hreads.1
  refine ⟨a, List.mem_of_getElem? ha, e', he', Option.isNone_iff_eq_none.mp hreads.2.2, rfl,
    hvalue, ?_⟩
  intro h
  rw [h, hreads.2.1] at hvalue
  cases hvalue

end Mosec
