import Mathlib.Data.List.Nodup
import Mathlib.Logic.Function.Basic

namespace Mosec

open Function (update)

def LegalName (key : String) : Prop := key ≠ "" ∧ '=' ∉ key.toList ∧ Char.ofNat 0 ∉ key.toList

def LegalValue (value : String) : Prop := Char.ofNat 0 ∉ value.toList

instance (key : String) : Decidable (LegalName key) :=
  inferInstanceAs (Decidable (key ≠ "" ∧ '=' ∉ key.toList ∧ Char.ofNat 0 ∉ key.toList))

instance (value : String) : Decidable (LegalValue value) :=
  inferInstanceAs (Decidable (Char.ofNat 0 ∉ value.toList))

structure Environ where
  value : String → Option String
  legal : ∀ {key v}, value key = some v → LegalName key ∧ LegalValue v

namespace Environ

theorem ext_value {e e' : Environ} (h : e.value = e'.value) : e = e' := by
  cases e
  cases e'
  congr

def empty : Environ := ⟨fun _ => none, fun h => by cases h⟩

def getenv (e : Environ) (key : String) : String := (e.value key).getD ""

def set (e : Environ) (key v : String) : Option Environ :=
  if h : LegalName key ∧ LegalValue v then
    some
      { value := update e.value key (some v)
        legal := by
          intro key' v' heq
          by_cases hkey : key' = key
          · rw [hkey, Function.update_self] at heq
            cases heq
            rwa [hkey]
          · rw [Function.update_of_ne hkey] at heq
            exact e.legal heq }
  else none

end Environ

structure EnvVars where
  vars : List (String × String)
  nodup : (vars.map Prod.fst).Nodup

def EnvVars.none : EnvVars := ⟨[], List.nodup_nil⟩

/-- The state of `env_var_context` at its `yield`, or where an assignment before it raised. -/
structure Entered where
  default : List (String × String)
  environ : Environ
  yields : Bool

def assign (default : List (String × String)) (e : Environ) : List (String × String) → Entered
  | [] => ⟨default, e, true⟩
  | (key, value) :: vars =>
    match e.set key value with
    | none => ⟨default ++ [(key, e.getenv key)], e, false⟩
    | some e' => assign (default ++ [(key, e.getenv key)]) e' vars

/-- The `finally` of `env_var_context`, and whether it came to its end. -/
def restore (e : Environ) : List (String × String) → Environ × Bool
  | [] => (e, true)
  | (key, value) :: default =>
    match e.set key value with
    | none => (e, false)
    | some e' => restore e' default

structure PyRuntime where
  num : ℕ
  env : Option (List EnvVars)
  num_pos : 1 ≤ num
  env_length : ∀ envs, env = some envs → envs.length = num

def PyRuntime.vars (runtime : PyRuntime) (index : ℕ) : EnvVars :=
  match runtime.env with
  | none => .none
  | some envs => envs[index]?.getD .none

structure Start where
  runtime : PyRuntime
  workerId : ℕ
  spawned : Option Environ

def Start.vars (a : Start) : List (String × String) := (a.runtime.vars a.workerId).vars

/-- The parent process: `pool` tells which workers are alive, and `starts` is a history. -/
structure Parent where
  environ : Environ
  pool : ℕ → ℕ → Bool
  starts : List Start

namespace Parent

def new (e : Environ) : Parent := ⟨e, fun _ _ => false, []⟩

/-- `with env_var_context(env, index): process.start()`, where `starts` says that the start does
not raise. -/
def startWithin (s : Parent) (runtime : PyRuntime) (workerId : ℕ) (starts : Bool) :
    Parent × Bool :=
  let entered := assign [] s.environ (runtime.vars workerId).vars
  let spawned := if entered.yields && starts then some entered.environ else none
  let left := restore entered.environ entered.default
  ({ s with environ := left.1, starts := s.starts ++ [⟨runtime, workerId, spawned⟩] },
    spawned.isSome && left.2)

def startProcess (s : Parent) (runtime : PyRuntime) (r workerId : ℕ) (starts : Bool) :
    Parent × Bool :=
  let (s, done) := s.startWithin runtime workerId starts
  if done then ({ s with pool := update s.pool r (update (s.pool r) workerId true) }, true)
  else (s, false)

def startAll (runtime : PyRuntime) (r : ℕ) (starts : ℕ → Bool) :
    List ℕ → Parent → Parent × Bool
  | [], s => (s, true)
  | workerId :: ids, s =>
    match s.startProcess runtime r workerId (starts workerId) with
    | (s, true) => startAll runtime r starts ids s
    | (s, false) => (s, false)

def check (s : Parent) (runtime : PyRuntime) (r : ℕ) (starts : ℕ → Bool) (init : Bool) :
    Parent × Bool :=
  let ids := List.range runtime.num
  if ids.all (s.pool r) then (s, true)
  else if !init && !ids.any (s.pool r) then (s, false)
  else startAll runtime r starts (ids.filter fun workerId => !s.pool r workerId) s

def checkAndStart (starts : ℕ → ℕ → Bool) (init : Bool) :
    List PyRuntime → ℕ → Parent → Parent
  | [], _, s => s
  | runtime :: runtimes, r, s =>
    match s.check runtime r (starts r) init with
    | (s, true) => checkAndStart starts init runtimes (r + 1) s
    | (s, false) => s

def startWorker (s : Parent) (runtime : PyRuntime) (starts : Bool) : Parent :=
  (s.startWithin runtime 0 starts).1

end Parent

inductive ParentAction where
  | exit (r workerId : ℕ)
  | checkAndStart (starts : ℕ → ℕ → Bool) (init : Bool)
  | startWorker (r : ℕ) (starts : Bool)

def Parent.step (runtimes : List PyRuntime) (s : Parent) : ParentAction → Parent
  | .exit r workerId => { s with pool := update s.pool r (update (s.pool r) workerId false) }
  | .checkAndStart starts init => checkAndStart starts init runtimes 0 s
  | .startWorker r starts =>
    match runtimes[r]? with
    | none => s
    | some runtime => s.startWorker runtime starts

def Parent.run (runtimes : List PyRuntime) (s : Parent) (actions : List ParentAction) : Parent :=
  actions.foldl (Parent.step runtimes) s

end Mosec
