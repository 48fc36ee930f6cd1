import Mosec.Transition
import Mosec.Handlers
import Mosec.Connection

namespace Mosec

structure State where
  manager : TaskManager
  requests : ℕ → Request
  submitted : ℕ
  conns : ℕ → Conn
  connected : ℕ

inductive RequestAction where
  | run
  | resume
  | elapse
  | disconnect
  | receiveEvent
  | leave
  deriving DecidableEq, Repr

inductive ConnAction where
  | run
  | recv
  | timeUp
  | writeOk
  | writeErr
  | readEvents (items : List Item)
  | readReply (code : TaskCode) (items : List Item)
  | readErr (code : TaskCode) (items : List Item)
  deriving DecidableEq, Repr

inductive Action where
  | submit (isSse : Bool) (key : String) (body : Bytes)
  | request (h : ℕ) (act : RequestAction)
  | connect (r : ℕ)
  | conn (k : ℕ) (act : ConnAction)
  deriving DecidableEq, Repr

def Conn.pushesTo (c : Conn) (h : ℕ) : Bool :=
  match c.point with
  | .events (some p) _ _ _ => p.request = h
  | .late (some p) _ => p.request = h
  | _ => false

def Conn.step (svc : Service) (m : TaskManager) (c : Conn) : ConnAction → Option (TaskManager × Conn)
  | .run => c.run svc m
  | .recv => c.recv svc m
  | .timeUp => c.timeUp m
  | .writeOk => c.writeOk m
  | .writeErr => c.writeErr m
  | .readEvents items => c.readEvents m items
  | .readReply code items => c.readReply m code items
  | .readErr code items => c.readErr m code items

def Request.step (svc : Service) (m : TaskManager) (h : ℕ) (q : Request) (clones : Bool) :
    RequestAction → Option (TaskManager × Request)
  | .run => q.run svc m h
  | .resume => q.resume m h
  | .elapse => q.elapse m h
  | .disconnect => q.disconnect m h
  | .receiveEvent => q.receiveEvent m h clones
  | .leave => q.leave m h

namespace State

open Function (update)

def start : State := ⟨TaskManager.new, fun _ => Request.absent, 0, fun _ => Conn.absent, 0⟩

def clones (s : State) (h : ℕ) : Bool :=
  (List.range s.connected).any fun k => (s.conns k).pushesTo h

def setRequest (s : State) (h : ℕ) (m : TaskManager) (q : Request) : State :=
  { s with manager := m, requests := update s.requests h q }

def setConn (s : State) (k : ℕ) (m : TaskManager) (c : Conn) : State :=
  { s with manager := m, conns := update s.conns k c }

def submit (s : State) (isSse : Bool) (key : String) (body : Bytes) : State :=
  { s.setRequest s.submitted (Request.submit s.manager s.submitted isSse key body).1
      (Request.submit s.manager s.submitted isSse key body).2 with
    submitted := s.submitted + 1 }

def accept (s : State) (r : ℕ) : State :=
  { s with
    conns := update s.conns s.connected (Conn.accept r)
    connected := s.connected + 1 }

def step (svc : Service) (s : State) : Action → Option State
  | .submit isSse key body => some (s.submit isSse key body)
  | .request h act =>
    ((s.requests h).step svc s.manager h (s.clones h) act).map fun (m, q) => s.setRequest h m q
  | .connect r =>
    if r < svc.runtimes.length then some (s.accept r) else none
  | .conn k act =>
    ((s.conns k).step svc s.manager act).map fun (m, c) => s.setConn k m c

end State

end Mosec
