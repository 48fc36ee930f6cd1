import Mosec.Potential
import Mosec.WorkerEnv

namespace Mosec

open Function (update)

/-- What `Server.run` is given: the runtimes, the number of daemons that were registered before it,
and, in ticks of `monotonic()`, the service timeout and the 0.1 s of its two loops. -/
structure Deployment where
  runtimes : List PyRuntime
  daemons : ℕ
  timeout : ℕ
  interval : ℕ
  interval_pos : 0 < interval

structure Child where
  runtime : ℕ
  workerId : ℕ
  exited : Bool
  deriving DecidableEq, Repr

/-- The process of the Rust server: `polled` says that its `returncode` is set, and the signals are
those it was sent. -/
structure Popen where
  exited : Bool
  polled : Bool
  terminated : Bool
  killed : Bool
  deriving DecidableEq, Repr

namespace Popen

def new : Popen := ⟨false, false, false, false⟩

def poll (p : Popen) : Popen := { p with polled := p.polled || p.exited }

def terminate (p : Popen) : Popen :=
  if p.poll.polled then p.poll else { p.poll with terminated := true }

def kill (p : Popen) : Popen := if p.poll.polled then p.poll else { p.poll with killed := true }

end Popen

inductive Station where
  | launch
  | spawn
  | guard
  | check (r : ℕ)
  | scan (r : ℕ) (seen : List (Option ℕ))
  | start (r : ℕ) (ids : List ℕ)
  | failed (r : ℕ)
  | daemons (i : ℕ)
  | sleep (wake : ℕ)
  | halt
  | terminate
  | grace (deadline : ℕ)
  | poll (deadline : ℕ)
  | nap (deadline wake : ℕ)
  | reap (deadline : ℕ)
  | release
  | cleanup
  | finished
  deriving DecidableEq, Repr

structure Supervisor where
  station : Station
  init : Bool
  serverShutdown : Bool
  pool : ℕ → ℕ → Option ℕ
  children : ℕ → Child
  born : ℕ
  daemonExited : ℕ → Bool
  process : Option Popen
  shutdownNotify : Bool
  shutdown : Bool
  cleaned : Bool
  now : ℕ

/-- `main` and `raises` are the next statement of the main process, the others what happens
around it. -/
inductive SupervisorAction where
  | main
  | raises
  | childExit (p : ℕ)
  | serviceExit
  | daemonExit (i : ℕ)
  | signal
  | tick
  deriving DecidableEq, Repr

namespace Supervisor

def new : Supervisor where
  station := .launch
  init := true
  serverShutdown := false
  pool := fun _ _ => none
  children := fun _ => ⟨0, 0, false⟩
  born := 0
  daemonExited := fun _ => false
  process := none
  shutdownNotify := false
  shutdown := false
  cleaned := false
  now := 0

def look (s : Supervisor) (r workerId : ℕ) : Option ℕ :=
  (s.pool r workerId).filter fun p => !(s.children p).exited

def assess (init : Bool) (r num : ℕ) (pool : ℕ → Option ℕ) : Station :=
  let ids := List.range num
  if ids.all fun workerId => (pool workerId).isSome then .check (r + 1)
  else if !init && !ids.any fun workerId => (pool workerId).isSome then .failed r
  else .start r (ids.filter fun workerId => (pool workerId).isNone)

def startProcess (s : Supervisor) (r workerId : ℕ) : Supervisor :=
  { s with
    children := update s.children s.born ⟨r, workerId, false⟩
    born := s.born + 1
    pool := update s.pool r (update (s.pool r) workerId (some s.born)) }

def check (d : Deployment) (s : Supervisor) (r : ℕ) (seen : List (Option ℕ)) :
    Option Supervisor := do
  let runtime ← d.runtimes[r]?
  if seen.length < runtime.num then
    return { s with station := .scan r (seen ++ [s.look r seen.length]) }
  else
    let pool := fun workerId => seen[workerId]?.join
    return { s with
      pool := update s.pool r pool
      station := assess s.init r runtime.num pool }

def checkDaemon (d : Deployment) (s : Supervisor) (i : ℕ) : Supervisor :=
  if i < d.daemons then
    { s with
      serverShutdown := s.serverShutdown || s.daemonExited i
      station := .daemons (i + 1) }
  else
    { s with
      serverShutdown := s.serverShutdown || s.process.any Popen.exited
      process := s.process.map Popen.poll
      station := .sleep (s.now + d.interval) }

def main (d : Deployment) (s : Supervisor) : Option Supervisor :=
  match s.station with
  | .launch => some { s with station := if s.serverShutdown then .guard else .spawn }
  | .spawn => some { s with process := some .new, station := .guard }
  | .guard => some { s with station := if s.serverShutdown then .halt else .check 0 }
  | .check r =>
    if r < d.runtimes.length then some { s with station := .scan r [] }
    else some { s with init := false, station := .daemons 0 }
  | .scan r seen => s.check d r seen
  | .start r [] => some { s with station := .check (r + 1) }
  | .start r (workerId :: ids) => some { s.startProcess r workerId with station := .start r ids }
  | .failed _ => some { s with serverShutdown := true, init := false, station := .daemons 0 }
  | .daemons i => some (s.checkDaemon d i)
  | .sleep wake => if wake ≤ s.now then some { s with station := .guard } else none
  | .halt => some { s with shutdownNotify := true, station := .terminate }
  | .terminate =>
    match s.process with
    | none => some { s with station := .release }
    | some p => some
      { s with process := some p.terminate, station := .grace (s.now + d.timeout) }
  | .grace deadline =>
    some { s with station := if s.now < deadline then .poll deadline else .reap deadline }
  | .poll deadline =>
    some { s with
      process := s.process.map Popen.poll
      station :=
        if s.process.any Popen.exited then .reap deadline
        else .nap deadline (s.now + d.interval) }
  | .nap deadline wake => if wake ≤ s.now then some { s with station := .grace deadline } else none
  | .reap deadline =>
    some { s with
      process := if deadline < s.now then s.process.map Popen.kill else s.process
      station := .release }
  | .release => some { s with shutdown := true, station := .cleanup }
  | .cleanup => some { s with cleaned := true, station := .finished }
  | .finished => none

/-- An exception of `_start_rs_runtime` or of a `start`, which ends in `_halt`. -/
def raises (s : Supervisor) : Option Supervisor :=
  match s.station with
  | .spawn => some { s with station := .halt }
  | .start _ (_ :: _) => some { s with station := .halt }
  | _ => none

def step (d : Deployment) (s : Supervisor) : SupervisorAction → Option Supervisor
  | .main => s.main d
  | .raises => s.raises
  | .childExit p =>
    if p < s.born then
      some { s with children := update s.children p { s.children p with exited := true } }
    else none
  | .serviceExit => s.process.map fun p => { s with process := some { p with exited := true } }
  | .daemonExit i => some { s with daemonExited := update s.daemonExited i true }
  | .signal => some { s with serverShutdown := true }
  | .tick => some { s with now := s.now + 1 }

end Supervisor

end Mosec
