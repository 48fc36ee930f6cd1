import Mathlib.Data.List.Find
import Mathlib.Data.List.TakeWhile

namespace Mosec

structure Entry (K V : Type) where
  key : K
  value : V
  visited : Bool
  deriving DecidableEq, Repr

namespace Entry

variable {K V : Type} [DecidableEq K] (cleared : List K) (e : Entry K V)

def clear : Entry K V := if e.key ∈ cleared then { e with visited := false } else e

@[simp] theorem clear_key : (e.clear cleared).key = e.key := by
  unfold clear
  split <;> rfl

@[simp] theorem clear_value : (e.clear cleared).value = e.value := by
  unfold clear
  split <;> rfl

theorem clear_visited :
    (e.clear cleared).visited = if e.key ∈ cleared then false else e.visited := by
  unfold clear
  split <;> rfl

end Entry

/-- The SIEVE policy: the entries newest first, and the key of the entry the hand is on. -/
structure Sieve (K V : Type) where
  entries : List (Entry K V)
  hand : Option K
  deriving DecidableEq, Repr

namespace Sieve

section Pick

variable {α β : Type*} (visited : α → Bool)

/-- The first unvisited element on the way, or the first one where all are visited. -/
def pick (path : List α) : Option α := (path.find? fun a => !visited a).or path.head?

def passed (path : List α) : List α := path.takeWhile visited

/-- The cyclic order from the `n`th element towards the front, and on from the end. -/
def around (n : ℕ) (l : List α) : List α := (l.take n).reverse ++ (l.drop n).reverse

theorem around_map (f : α → β) (n : ℕ) (l : List α) :
    around n (l.map f) = (around n l).map f := by
  simp [around, List.map_take, List.map_drop]

theorem mem_around {n : ℕ} {l : List α} {a : α} : a ∈ around n l ↔ a ∈ l := by
  rw [around, List.mem_append, List.mem_reverse, List.mem_reverse, ← List.mem_append,
    List.take_append_drop]

theorem pick_map (f : β → α) (path : List β) :
    pick visited (path.map f) = (pick (visited ∘ f) path).map f := by
  rw [pick, pick, List.find?_map, List.head?_map]
  cases hfind : path.find? ((fun a => !visited a) ∘ f) with
  | none =>
    have hfind' : (path.find? fun a => !(visited ∘ f) a) = none := hfind
    rw [hfind']
    rfl
  | some a =>
    have hfind' : (path.find? fun a => !(visited ∘ f) a) = some a := hfind
    rw [hfind']
    rfl

theorem passed_map (f : β → α) (path : List β) :
    passed visited (path.map f) = (passed (visited ∘ f) path).map f := by
  rw [passed, passed, List.takeWhile_map]

theorem pick_congr (visited' : α → Bool) {path : List α}
    (h : ∀ a ∈ path, visited a = visited' a) :
    pick visited path = pick visited' path ∧ passed visited path = passed visited' path := by
  have hfind : (path.find? fun b => !visited b) = path.find? fun b => !visited' b :=
    List.find?_congr fun a ha => by rw [h a ha]
  refine ⟨by rw [pick, pick, hfind], ?_⟩
  rw [passed, passed]
  clear hfind
  induction path with
  | nil => rfl
  | cons a path ih =>
    rw [List.takeWhile_cons, List.takeWhile_cons, h a (by simp),
      ih fun b hb => h b (List.mem_cons_of_mem _ hb)]

theorem pick_mem {path : List α} {a : α} (h : pick visited path = some a) : a ∈ path := by
  rcases Option.or_eq_some_iff.mp h with hfind | ⟨-, hhead⟩
  · exact List.mem_of_find?_eq_some hfind
  · exact List.mem_of_head? hhead

theorem pick_visited {path : List α} {a : α} (h : pick visited path = some a)
    (ha : visited a = true) : ∀ b ∈ path, visited b = true := by
  rcases Option.or_eq_some_iff.mp h with hfind | ⟨hnone, -⟩
  · have hunvisited := List.find?_some hfind
    simp [ha] at hunvisited
  · simpa using hnone

theorem pick_found (pre post : List α) {a : α} (hpre : ∀ b ∈ pre, visited b = true)
    (ha : visited a = false) : pick visited (pre ++ a :: post) = some a ∧
      passed visited (pre ++ a :: post) = pre := by
  constructor
  · have hnone : (pre.find? fun b => !visited b) = none := by simpa using hpre
    rw [pick, List.find?_append, hnone]
    simp [ha]
  · rw [passed, List.takeWhile_append_of_pos hpre, List.takeWhile_cons]
    simp [ha]

theorem pick_all {path : List α} (h : ∀ b ∈ path, visited b = true) :
    pick visited path = path.head? ∧ passed visited path = path := by
  constructor
  · have hnone : (path.find? fun b => !visited b) = none := by simpa using h
    rw [pick, hnone]
    rfl
  · exact List.takeWhile_eq_self_iff.mpr h

variable {visited} in
theorem exists_unvisited {path : List α} (h : ¬ ∀ b ∈ path, visited b = true) :
    ∃ pre a post, path = pre ++ a :: post ∧ (∀ b ∈ pre, visited b = true) ∧ visited a = false := by
  induction path with
  | nil => exact absurd (by simp) h
  | cons a path ih =>
    cases ha : visited a with
    | false => exact ⟨[], a, path, rfl, by simp, ha⟩
    | true =>
      have hrest : ¬ ∀ b ∈ path, visited b = true := by
        intro hall
        exact h (List.forall_mem_cons.mpr ⟨ha, hall⟩)
      obtain ⟨pre, b, post, rfl, hpre, hb⟩ := ih hrest
      exact ⟨a :: pre, b, post, rfl, List.forall_mem_cons.mpr ⟨ha, hpre⟩, hb⟩

theorem pick_append {path : List α} (h : ¬ ∀ b ∈ path, visited b = true) (rest : List α) :
    pick visited (path ++ rest) = pick visited path ∧
      passed visited (path ++ rest) = passed visited path := by
  obtain ⟨pre, a, post, rfl, hpre, ha⟩ := exists_unvisited h
  have hlong := pick_found visited pre (post ++ rest) hpre ha
  have hshort := pick_found visited pre post hpre ha
  rw [List.append_assoc, List.cons_append]
  exact ⟨hlong.1.trans hshort.1.symm, hlong.2.trans hshort.2.symm⟩

theorem pick_wrap (visited' : α → Bool) {path rest : List α} (hne : path ≠ [])
    (hall : ∀ b ∈ path, visited b = true) (hcleared : ∀ b ∈ path, visited' b = false)
    (hsame : ∀ b ∈ rest, visited' b = visited b) :
    pick visited' (rest ++ path) = pick visited (path ++ rest) ∧
      path ++ passed visited' (rest ++ path) = passed visited (path ++ rest) ∧
      (passed visited' (rest ++ path)).length ≤ rest.length := by
  by_cases hrest : ∀ b ∈ rest, visited b = true
  · obtain ⟨a, path', rfl⟩ := List.exists_cons_of_ne_nil hne
    have hvisited : ∀ b ∈ a :: path' ++ rest, visited b = true := by
      intro b hb
      exact (List.mem_append.mp hb).elim (hall b) (hrest b)
    have hfound := pick_found visited' rest path'
      (fun b hb => (hsame b hb).trans (hrest b hb)) (hcleared a (by simp))
    obtain ⟨hpick, hpassed⟩ := pick_all visited hvisited
    rw [hfound.1, hfound.2, hpick, hpassed]
    exact ⟨rfl, rfl, le_rfl⟩
  · obtain ⟨pre, a, post, rfl, hpre, ha⟩ := exists_unvisited hrest
    have hlong := pick_found visited (path ++ pre) post
      (fun b hb => (List.mem_append.mp hb).elim (hall b) (hpre b)) ha
    have hfound := pick_found visited' pre (post ++ path)
      (fun b hb => (hsame b (by simp [hb])).trans (hpre b hb)) ((hsame a (by simp)).trans ha)
    rw [List.append_assoc, List.cons_append, hfound.1, hfound.2, ← List.append_assoc, hlong.1,
      hlong.2]
    exact ⟨rfl, rfl, by simp⟩

end Pick

variable {K V : Type} (s : Sieve K V)

def empty : Sieve K V := ⟨[], none⟩

def keys : List K := s.entries.map Entry.key

def items : List (K × V) := s.entries.map fun e => (e.key, e.value)

variable [DecidableEq K]

def reach : ℕ :=
  match s.hand with
  | none => s.entries.length
  | some k => s.entries.findIdx (fun e => e.key = k) + 1

def sweep : List (Entry K V) := around s.reach s.entries

def victim : Option (Entry K V) := pick Entry.visited s.sweep

def newerOf (k : K) : Option K := (s.entries.takeWhile fun e => e.key ≠ k).getLast?.map Entry.key

def without (k : K) : List (Entry K V) := s.entries.filter fun e => e.key ≠ k

def lookup (k : K) : Option V := (s.entries.find? fun e => e.key = k).map Entry.value

def cleared : List K := (passed Entry.visited s.sweep).map Entry.key

def evict : Sieve K V × Option (K × V) :=
  match s.victim with
  | none => (s, none)
  | some victim =>
    ({ entries := (s.without victim.key).map (Entry.clear s.cleared)
       hand := s.newerOf victim.key }, some (victim.key, victim.value))

def get (k : K) : Sieve K V × Option V :=
  ({ s with entries := s.entries.map fun e => if e.key = k then { e with visited := true } else e },
    s.lookup k)

def put (maxSize : ℕ) (k : K) (v : V) : Sieve K V × Option (K × V) :=
  if k ∈ s.keys then
    ({ s with entries := s.entries.map fun e =>
        if e.key = k then { e with value := v, visited := true } else e }, none)
  else
    let (s, evicted) := if maxSize ≤ s.entries.length then s.evict else (s, none)
    ({ s with entries := ⟨k, v, false⟩ :: s.entries }, evicted)

def remove (k : K) : Sieve K V × Option V :=
  ({ entries := s.without k, hand := if s.hand = some k then s.newerOf k else s.hand }, s.lookup k)

end Sieve

end Mosec
