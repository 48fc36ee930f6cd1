import Mosec.Barrier

namespace Mosec

open Function (update)

inductive AcceptorAt where
  | binding
  | accepting
  | arriving
  | waiting (generation : ℕ)
  | stopped
  deriving DecidableEq, Repr

structure Acceptor where
  point : AcceptorAt
  accepted : List ℕ
  deriving DecidableEq, Repr

inductive ServiceAt where
  | arriving
  | waiting (generation : ℕ)
  | opened
  | serving
  | failed
  deriving DecidableEq, Repr

/-- A `Coordinator`: in its constructor and `warmup`, in round `retry` of `init_protocol`, or before
the `open` of `run`. -/
inductive CoordinatorAt where
  | warming
  | seeking (retry : ℕ)
  | opening
  | connected
  | exited
  deriving DecidableEq, Repr

structure CoordinatorProcess where
  stage : ℕ
  warmed : Bool
  point : CoordinatorAt
  deriving DecidableEq, Repr

def connMaxRetry : ℕ := 10

structure Launch where
  files : String → Bool
  acceptors : ℕ → Acceptor
  backlog : ℕ → List ℕ
  barrier : Barrier
  main : ServiceAt
  processes : ℕ → CoordinatorProcess
  started : ℕ

inductive LaunchAction where
  | start (r : ℕ)
  | warmup (p : ℕ)
  | look (p : ℕ)
  | connect (p : ℕ)
  | exit (p : ℕ)
  | bind (r : ℕ)
  | accept (r : ℕ)
  | acceptError (r : ℕ)
  | arrive (r : ℕ)
  | release (r : ℕ)
  | mainArrive
  | mainRelease
  | listen
  | listenError
  deriving DecidableEq, Repr

namespace Launch

/-- `init_from_config`, with the files that are in the directory already. -/
def new (names : List String) (files : String → Bool) : Launch where
  files := files
  acceptors := fun _ => ⟨.binding, []⟩
  backlog := fun _ => []
  barrier := .new (names.length + 1)
  main := .arriving
  processes := fun _ => ⟨0, false, .exited⟩
  started := 0

def setProcess (s : Launch) (p : ℕ) (process : CoordinatorProcess) : Launch :=
  { s with processes := update s.processes p process }

def setAcceptor (s : Launch) (r : ℕ) (acceptor : Acceptor) : Launch :=
  { s with acceptors := update s.acceptors r acceptor }

def listening (s : Launch) (r : ℕ) : Bool :=
  match (s.acceptors r).point with
  | .binding => false
  | .stopped => false
  | _ => true

/-- One round of `init_protocol`; the last one goes on without the file. -/
def look (name : String) (s : Launch) (p : ℕ) : Option Launch :=
  let process := s.processes p
  match process.point with
  | .seeking retry =>
    if retry < connMaxRetry then
      some (s.setProcess p
        { process with point := if s.files name then .opening else .seeking (retry + 1) })
    else some (s.setProcess p { process with point := .opening })
  | _ => none

def connect (s : Launch) (p : ℕ) : Option Launch :=
  let process := s.processes p
  match process.point with
  | .opening =>
    if s.listening process.stage then
      some { s.setProcess p { process with point := .connected } with
        backlog := update s.backlog process.stage (s.backlog process.stage ++ [p]) }
    else none
  | _ => none

def bind (name : String) (s : Launch) (r : ℕ) : Option Launch :=
  let acceptor := s.acceptors r
  match acceptor.point with
  | .binding =>
    if s.files name then some (s.setAcceptor r { acceptor with point := .stopped })
    else some { s.setAcceptor r { acceptor with point := .accepting } with
      files := update s.files name true }
  | _ => none

def accept (s : Launch) (r : ℕ) : Option Launch :=
  let acceptor := s.acceptors r
  match acceptor.point, s.backlog r with
  | .accepting, p :: backlog =>
    some { s.setAcceptor r
      { accepted := acceptor.accepted ++ [p]
        point := if acceptor.accepted.length + 1 = 1 then .arriving else .accepting } with
      backlog := update s.backlog r backlog }
  | _, _ => none

def arrive (s : Launch) (r : ℕ) : Option Launch :=
  let acceptor := s.acceptors r
  match acceptor.point with
  | .arriving =>
    some { s.setAcceptor r { acceptor with point :=
        if s.barrier.arrive.generation = s.barrier.generation then .waiting s.barrier.generation
        else .accepting } with
      barrier := s.barrier.arrive }
  | _ => none

def release (s : Launch) (r : ℕ) : Option Launch :=
  let acceptor := s.acceptors r
  match acceptor.point with
  | .waiting generation =>
    if generation < s.barrier.generation then
      some (s.setAcceptor r { acceptor with point := .accepting })
    else none
  | _ => none

def step (names : List String) (s : Launch) : LaunchAction → Option Launch
  | .start r =>
    if r < names.length then
      some { s.setProcess s.started ⟨r, false, .warming⟩ with started := s.started + 1 }
    else none
  | .warmup p =>
    match (s.processes p).point with
    | .warming => some (s.setProcess p { s.processes p with warmed := true, point := .seeking 0 })
    | _ => none
  | .look p => do s.look (← names[(s.processes p).stage]?) p
  | .connect p => s.connect p
  | .exit p => some (s.setProcess p { s.processes p with point := .exited })
  | .bind r => do s.bind (← names[r]?) r
  | .accept r => s.accept r
  | .acceptError r =>
    match (s.acceptors r).point with
    | .accepting => some (s.setAcceptor r { s.acceptors r with point := .stopped })
    | _ => none
  | .arrive r => s.arrive r
  | .release r => s.release r
  | .mainArrive =>
    match s.main with
    | .arriving =>
      some { s with
        barrier := s.barrier.arrive
        main := if s.barrier.arrive.generation = s.barrier.generation then
          .waiting s.barrier.generation else .opened }
    | _ => none
  | .mainRelease =>
    match s.main with
    | .waiting generation =>
      if generation < s.barrier.generation then some { s with main := .opened } else none
    | _ => none
  | .listen =>
    match s.main with
    | .opened => some { s with main := .serving }
    | _ => none
  | .listenError =>
    match s.main with
    | .opened => some { s with main := .failed }
    | _ => none

end Launch

end Mosec
