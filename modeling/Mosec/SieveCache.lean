import Mathlib.Data.List.AList
import Mathlib.Logic.Function.Basic
import Mosec.DoublyLinked

namespace Mosec

/-- A node is an address, and the fields of the nodes are maps from addresses. -/
structure SieveCache (K V : Type) where
  maxSize : ℕ
  maxSize_pos : 1 ≤ maxSize
  map : AList fun _ : K => ℕ
  head : Option ℕ
  tail : Option ℕ
  hand : Option ℕ
  key : ℕ → Option K
  value : ℕ → Option V
  visited : ℕ → Bool
  prev : ℕ → Option ℕ
  next : ℕ → Option ℕ
  fresh : ℕ

namespace SieveCache

open Function (update)

variable {K V : Type}

def new (maxSize : ℕ) (h : 1 ≤ maxSize) : SieveCache K V where
  maxSize := maxSize
  maxSize_pos := h
  map := ∅
  head := none
  tail := none
  hand := none
  key := fun _ => none
  value := fun _ => none
  visited := fun _ => false
  prev := fun _ => none
  next := fun _ => none
  fresh := 0

variable (c : SieveCache K V)

def setValue (a : ℕ) (v : V) : SieveCache K V := { c with value := update c.value a (some v) }
def setVisited (a : ℕ) (b : Bool) : SieveCache K V := { c with visited := update c.visited a b }
def setPrev (a : ℕ) (p : Option ℕ) : SieveCache K V := { c with prev := update c.prev a p }
def setNext (a : ℕ) (p : Option ℕ) : SieveCache K V := { c with next := update c.next a p }

def newNode (k : K) (v : V) : SieveCache K V :=
  { c with
    key := update c.key c.fresh (some k)
    value := update c.value c.fresh (some v)
    visited := update c.visited c.fresh false
    prev := update c.prev c.fresh none
    next := update c.next c.fresh none
    fresh := c.fresh + 1 }

def setNextOf : Option ℕ → Option ℕ → SieveCache K V
  | some a, p => c.setNext a p
  | none, p => { c with head := p }

def setPrevOf : Option ℕ → Option ℕ → SieveCache K V
  | some a, p => c.setPrev a p
  | none, p => { c with tail := p }

def pushHead (node : ℕ) : SieveCache K V :=
  let c := c.setPrev node none
  let c := c.setNext node c.head
  let c := if c.head ≠ none then c.setPrevOf c.head (some node) else c
  let c := { c with head := some node }
  if c.tail = none then { c with tail := some node } else c

def unlink (node : ℕ) : SieveCache K V :=
  let c := c.setNextOf (c.prev node) (c.next node)
  let c := c.setPrevOf (c.next node) (c.prev node)
  let c := if c.hand = some node then { c with hand := c.prev node } else c
  (c.setPrev node none).setNext node none

def len : ℕ := c.map.entries.length

def cells (f : ℕ → Option α) : Option (List α) :=
  (DoublyLinked.walk c.next c.fresh c.head).bind fun nodes => nodes.mapM f

def keys : Option (List K) := c.cells c.key

def items : Option (List (K × V)) :=
  c.cells fun a => (c.key a).bind fun k => (c.value a).map fun v => (k, v)

variable [DecidableEq K]

def contains (k : K) : Bool := (c.map.lookup k).isSome

def get (k : K) : SieveCache K V × Option V :=
  match c.map.lookup k with
  | none => (c, none)
  | some node => (c.setVisited node true, c.value node)

def del (k : K) : Option (SieveCache K V) :=
  if k ∈ c.map then some { c with map := c.map.erase k } else none

def takeOut (victim : ℕ) : Option (SieveCache K V × Option (K × V)) := do
  let c := { c with hand := c.prev victim }
  let c := c.unlink victim
  let k ← c.key victim
  let v ← c.value victim
  let c ← c.del k
  return (c, some (k, v))

/-- The loops of `_evict`, with their local `victim` and a bound on the number of rounds. -/
def scan : ℕ → SieveCache K V → Option ℕ → Option (SieveCache K V × Option (K × V))
  | 0, _, _ => none
  | n + 1, c, none => scan n { c with hand := c.tail } c.tail
  | n + 1, c, some victim =>
    if c.visited victim then scan n (c.setVisited victim false) (c.prev victim)
    else c.takeOut victim

/-- `_evict`, with a bound on its rounds that `scan_of_le` shows not to matter. -/
def evictCore : Option (SieveCache K V × Option (K × V)) :=
  if c.len = 0 then some (c, none)
  else
    let c := if c.hand = none then { c with hand := c.tail } else c
    scan (c.len + 2) c c.hand

def put (k : K) (v : V) : Option (SieveCache K V × Option (K × V)) :=
  match c.map.lookup k with
  | some node => some ((c.setValue node v).setVisited node true, none)
  | none => do
    let (c, evicted) ← if c.maxSize ≤ c.len then c.evictCore else some (c, none)
    let node := c.fresh
    let c := c.newNode k v
    let c := c.pushHead node
    return ({ c with map := c.map.insert k node }, evicted)

def remove (k : K) : SieveCache K V × Option V :=
  match c.map.lookup k with
  | none => (c, none)
  | some node =>
    let c := { c with map := c.map.erase k }
    let c := c.unlink node
    (c, c.value node)

def evict : Option (SieveCache K V × Option (K × V)) :=
  if c.len = 0 then some (c, none) else c.evictCore

end SieveCache

inductive CacheOp (K V : Type) where
  | get (k : K)
  | put (k : K) (v : V)
  | remove (k : K)
  | evict
  deriving DecidableEq, Repr

inductive CacheResult (K V : Type) where
  | value (v : Option V)
  | evicted (p : Option (K × V))
  deriving DecidableEq, Repr

namespace SieveCache

variable {K V : Type} [DecidableEq K]

def call (c : SieveCache K V) : CacheOp K V → Option (SieveCache K V × CacheResult K V)
  | .get k => some ((c.get k).1, .value (c.get k).2)
  | .put k v => (c.put k v).map fun (c, p) => (c, .evicted p)
  | .remove k => some ((c.remove k).1, .value (c.remove k).2)
  | .evict => c.evict.map fun (c, p) => (c, .evicted p)

def calls (c : SieveCache K V) :
    List (CacheOp K V) → Option (SieveCache K V × List (CacheResult K V))
  | [] => some (c, [])
  | op :: ops => do
    let (c, result) ← c.call op
    let (c, results) ← c.calls ops
    return (c, result :: results)

end SieveCache

end Mosec
