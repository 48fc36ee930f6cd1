import Mosec.Replies

namespace Mosec.Coordinator

open Protocol (PyItem)

inductive SocketState where
  | fresh
  | connected
  | closed
  deriving DecidableEq, Repr

def SocketState.connect (accepts : Bool) : SocketState → Option SocketState
  | .fresh => if accepts then some .connected else none
  | .connected | .closed => none

structure Connection (α β : Type) where
  accepts : Bool
  incoming : List (Incoming α β)

inductive RunExit where
  | shutdown
  | openFailed (accepts : Bool)
  | escaped
  deriving DecidableEq

structure Run where
  opens : List SocketState
  sessions : List Session
  exit : RunExit

variable {α β : Type} (maxBatchSize : ℕ)

/-- `run`, up to the shutdown. `coordinate` closes the socket when it ends. -/
def run (socket : SocketState) : List (Connection α β) → Run
  | [] => ⟨[], [], .shutdown⟩
  | connection :: connections =>
    match socket.connect connection.accepts with
    | none => ⟨[socket], [], .openFailed connection.accepts⟩
    | some _ =>
      let session := coordinate maxBatchSize connection.incoming
      match session.exit with
      | .shutdown => ⟨[socket], [session], .shutdown⟩
      | .escaped => ⟨[socket], [session], .escaped⟩
      | .broken =>
        let run := run .closed connections
        ⟨socket :: run.opens, session :: run.sessions, run.exit⟩

variable {maxBatchSize}

end Mosec.Coordinator
