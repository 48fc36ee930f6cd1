import Mathlib.Data.List.Range
import Mosec.SieveCache

namespace Mosec.SieveCache

open Function (update update_self update_of_ne)
open DoublyLinked (Linked)

variable {K V : Type} [DecidableEq K] {c : SieveCache K V} {order newer older : List ℕ} {a : ℕ}

/-- The linked nodes are `order`, newest first, and the map and the hand know no others. -/
structure Links (c : SieveCache K V) (order : List ℕ) : Prop where
  linked : Linked c.prev c.next order
  head : c.head = order.head?
  tail : c.tail = order.getLast?
  lookup : ∀ {k a}, c.map.lookup k = some a ↔ a ∈ order ∧ c.key a = some k
  size : c.len = order.length
  hand : ∀ {a}, c.hand = some a → a ∈ order
  fresh : ∀ {a}, a ∈ order → a < c.fresh
  key : ∀ {a}, a ∈ order → (c.key a).isSome
  value : ∀ {a}, a ∈ order → (c.value a).isSome
  bound : order.length ≤ c.maxSize

structure Rep (c : SieveCache K V) (order : List ℕ) : Prop where
  linked : Linked c.prev c.next order
  head : c.head = order.head?
  tail : c.tail = order.getLast?
  lookup : ∀ {k a}, c.map.lookup k = some a ↔ a ∈ order ∧ c.key a = some k
  size : c.len = order.length
  hand : ∀ {a}, c.hand = some a → a ∈ order
  fresh : ∀ {a}, a ∈ order → a < c.fresh
  key : ∀ {a}, a ∈ order → (c.key a).isSome
  value : ∀ {a}, a ∈ order → (c.value a).isSome
  loose : ∀ {a}, a ∉ order → c.prev a = none ∧ c.next a = none
  bound : order.length ≤ c.maxSize

theorem rep_new (n : ℕ) (h : 1 ≤ n) : Rep (new n h : SieveCache K V) [] where
  linked := .nil
  head := rfl
  tail := rfl
  lookup := by simp [new]
  size := rfl
  hand := by simp [new]
  fresh := by simp
  key := by simp
  value := by simp
  loose := by simp [new]
  bound := Nat.zero_le _

theorem Rep.links (h : Rep c order) : Links c order :=
  { h with }

theorem Links.rep (h : Links c order)
    (hloose : ∀ {a}, a ∉ order → c.prev a = none ∧ c.next a = none) : Rep c order :=
  { h with loose := hloose }

namespace Links

theorem key_injective (h : Links c order) {b : ℕ} (ha : a ∈ order) (hb : b ∈ order)
    (hkey : c.key a = c.key b) : a = b := by
  obtain ⟨k, hk⟩ := Option.isSome_iff_exists.mp (h.key ha)
  have hla := h.lookup.mpr ⟨ha, hk⟩
  have hlb := h.lookup.mpr ⟨hb, hkey ▸ hk⟩
  rw [hla] at hlb
  exact Option.some.inj hlb

theorem length_le_fresh (h : Links c order) : order.length ≤ c.fresh := by
  have hsub : order ⊆ List.range c.fresh := fun a ha => List.mem_range.mpr (h.fresh ha)
  simpa using (List.subperm_of_subset h.linked.nodup hsub).length_le

theorem setVisited (h : Links c order) (a : ℕ) (b : Bool) : Links (c.setVisited a b) order :=
  { h with }

theorem setValue (h : Links c order) (a : ℕ) (v : V) : Links (c.setValue a v) order :=
  { h with
    value := by
      intro b hb
      by_cases hba : b = a
      · simp [SieveCache.setValue, hba]
      · simpa [SieveCache.setValue, hba] using h.value hb }

theorem setHand (h : Links c order) {p : Option ℕ} (hp : ∀ {a}, p = some a → a ∈ order) :
    Links { c with hand := p } order :=
  { h with hand := hp }

end Links

namespace Rep

theorem setVisited (h : Rep c order) (a : ℕ) (b : Bool) : Rep (c.setVisited a b) order :=
  (h.links.setVisited a b).rep h.loose

theorem setValue (h : Rep c order) (a : ℕ) (v : V) : Rep (c.setValue a v) order :=
  (h.links.setValue a v).rep h.loose

theorem setHand (h : Rep c order) {p : Option ℕ} (hp : ∀ {a}, p = some a → a ∈ order) :
    Rep { c with hand := p } order :=
  (h.links.setHand hp).rep h.loose

end Rep

section Unlink

variable (c a)
omit [DecidableEq K]

@[simp] theorem setNextOf_fields (p q : Option ℕ) : (c.setNextOf p q).map = c.map ∧
    (c.setNextOf p q).key = c.key ∧ (c.setNextOf p q).value = c.value ∧
    (c.setNextOf p q).visited = c.visited ∧ (c.setNextOf p q).fresh = c.fresh ∧
    (c.setNextOf p q).maxSize = c.maxSize ∧ (c.setNextOf p q).prev = c.prev ∧
    (c.setNextOf p q).tail = c.tail ∧ (c.setNextOf p q).hand = c.hand := by
  cases p <;> simp [setNextOf, setNext]

@[simp] theorem setPrevOf_fields (p q : Option ℕ) : (c.setPrevOf p q).map = c.map ∧
    (c.setPrevOf p q).key = c.key ∧ (c.setPrevOf p q).value = c.value ∧
    (c.setPrevOf p q).visited = c.visited ∧ (c.setPrevOf p q).fresh = c.fresh ∧
    (c.setPrevOf p q).maxSize = c.maxSize ∧ (c.setPrevOf p q).next = c.next ∧
    (c.setPrevOf p q).head = c.head ∧ (c.setPrevOf p q).hand = c.hand := by
  cases p <;> simp [setPrevOf, setPrev]

@[simp] theorem setNextOf_next (p q : Option ℕ) (b : ℕ) :
    (c.setNextOf p q).next b = if p = some b then q else c.next b := by
  cases p with
  | none => rfl
  | some a =>
    by_cases hb : b = a
    · simp [setNextOf, setNext, hb]
    · simp [setNextOf, setNext, hb, Ne.symm hb]

@[simp] theorem setPrevOf_prev (p q : Option ℕ) (b : ℕ) :
    (c.setPrevOf p q).prev b = if p = some b then q else c.prev b := by
  cases p with
  | none => rfl
  | some a =>
    by_cases hb : b = a
    · simp [setPrevOf, setPrev, hb]
    · simp [setPrevOf, setPrev, hb, Ne.symm hb]

@[simp] theorem setNextOf_head (p q : Option ℕ) :
    (c.setNextOf p q).head = if p = none then q else c.head := by
  cases p <;> simp [setNextOf, setNext]

@[simp] theorem setPrevOf_tail (p q : Option ℕ) :
    (c.setPrevOf p q).tail = if p = none then q else c.tail := by
  cases p <;> simp [setPrevOf, setPrev]

theorem unlink_frame : (c.unlink a).maxSize = c.maxSize ∧ (c.unlink a).map = c.map ∧
    (c.unlink a).key = c.key ∧ (c.unlink a).value = c.value ∧
    (c.unlink a).visited = c.visited ∧ (c.unlink a).fresh = c.fresh := by
  unfold unlink
  simp only [setNext, setPrev]
  split <;> simp

theorem unlink_next (b : ℕ) : (c.unlink a).next b =
    if b = a then none else if c.prev a = some b then c.next a else c.next b := by
  unfold unlink
  simp only [setNext, setPrev]
  by_cases hb : b = a
  · simp [hb]
  · split <;> simp [hb]

theorem unlink_head : (c.unlink a).head = if c.prev a = none then c.next a else c.head := by
  unfold unlink
  simp only [setNext, setPrev]
  split <;> simp

variable {c a} (hprev : c.prev a ≠ some a) (hnext : c.next a ≠ some a)
include hprev

theorem unlink_prev (b : ℕ) : (c.unlink a).prev b =
    if b = a then none else if c.next a = some b then c.prev a else c.prev b := by
  unfold unlink
  simp only [setNext, setPrev]
  by_cases hb : b = a
  · simp [hb]
  · split <;> simp [hb, hprev]

theorem unlink_tail : (c.unlink a).tail = if c.next a = none then c.prev a else c.tail := by
  unfold unlink
  simp only [setNext, setPrev]
  split <;> simp [hprev]

include hnext in
theorem unlink_hand : (c.unlink a).hand = if c.hand = some a then c.prev a else c.hand := by
  unfold unlink
  simp only [setNext, setPrev, setNextOf_fields, setPrevOf_fields]
  split <;> simp [hprev, hnext]

end Unlink

section PushHead

variable (c a)
omit [DecidableEq K]

theorem pushHead_frame : (c.pushHead a).maxSize = c.maxSize ∧ (c.pushHead a).map = c.map ∧
    (c.pushHead a).key = c.key ∧ (c.pushHead a).value = c.value ∧
    (c.pushHead a).visited = c.visited ∧ (c.pushHead a).fresh = c.fresh ∧
    (c.pushHead a).hand = c.hand ∧ (c.pushHead a).head = some a := by
  unfold pushHead
  simp only [setNext, setPrev]
  by_cases hhead : c.head = none <;> simp only [hhead, ne_eq, not_true, not_false_eq_true, if_true,
    if_false] <;> split <;> simp

theorem pushHead_tail : (c.pushHead a).tail = if c.tail = none then some a else c.tail := by
  unfold pushHead
  simp only [setNext, setPrev]
  by_cases hhead : c.head = none <;> by_cases htail : c.tail = none <;> simp [hhead, htail]

theorem pushHead_next (b : ℕ) : (c.pushHead a).next b = if b = a then c.head else c.next b := by
  unfold pushHead
  simp only [setNext, setPrev]
  by_cases hhead : c.head = none <;> by_cases htail : c.tail = none <;> by_cases hb : b = a <;>
    simp [hhead, htail, hb]

theorem pushHead_prev (h : c.head ≠ some a) (b : ℕ) : (c.pushHead a).prev b =
    if b = a then none else if c.head = some b then some a else c.prev b := by
  unfold pushHead
  simp only [setNext, setPrev]
  by_cases hhead : c.head = none <;> by_cases htail : c.tail = none <;> by_cases hb : b = a <;>
    simp [hhead, htail, hb, h]

end PushHead

theorem length_erase {map : AList fun _ : K => ℕ} {k : K} (h : k ∈ map) :
    (map.erase k).entries.length + 1 = map.entries.length := by
  obtain ⟨node, l₁, l₂, -, hl, herase⟩ := List.exists_of_kerase (AList.mem_keys.mp h)
  change (List.kerase k map.entries).length + 1 = _
  rw [herase, hl]
  simp only [List.length_append, List.length_cons]
  omega

theorem length_insert {map : AList fun _ : K => ℕ} {k : K} (h : k ∉ map) (a : ℕ) :
    (map.insert k a).entries.length = map.entries.length + 1 := by
  rw [AList.entries_insert_of_notMem h]
  rfl

def drop (c : SieveCache K V) (a : ℕ) (k : K) : SieveCache K V :=
  { c.unlink a with map := c.map.erase k }

omit [DecidableEq K] in
theorem unlink_map (m : AList fun _ : K => ℕ) :
    ({ c with map := m } : SieveCache K V).unlink a = { c.unlink a with map := m } := by
  have hnext : ∀ p q, ({ c with map := m } : SieveCache K V).setNextOf p q =
      { c.setNextOf p q with map := m } := by
    intro p q
    cases p <;> rfl
  have hprev : ∀ (c : SieveCache K V) p q, ({ c with map := m } : SieveCache K V).setPrevOf p q =
      { c.setPrevOf p q with map := m } := by
    intro c p q
    cases p <;> rfl
  unfold unlink
  simp only [hnext, hprev]
  split <;> rfl

def setNew (c : SieveCache K V) (k : K) (v : V) : SieveCache K V :=
  let c' := (c.newNode k v).pushHead c.fresh
  { c' with map := c'.map.insert k c.fresh }

namespace Links

theorem neighbours (h : Links c (newer ++ a :: older)) :
    c.prev a = newer.getLast? ∧ c.next a = older.head? ∧ c.prev a ≠ some a ∧
      c.next a ≠ some a := by
  have hprev : c.prev a = newer.getLast? := h.linked.prev rfl
  have hnext : c.next a = older.head? := h.linked.next rfl
  obtain ⟨hnewer, holder⟩ := Linked.ne_of_split h.linked.nodup rfl
  refine ⟨hprev, hnext, ?_, ?_⟩
  · rw [hprev]
    exact fun heq => hnewer (List.mem_of_getLast? heq)
  · rw [hnext]
    exact fun heq => holder (List.mem_of_head? heq)

theorem drop_lookup (h : Links c (newer ++ a :: older)) {k : K} (hk : c.key a = some k) {k' : K}
    {b : ℕ} : (c.drop a k).map.lookup k' = some b ↔
      b ∈ newer ++ older ∧ (c.drop a k).key b = some k' := by
  have hkey : (c.drop a k).key = c.key := (unlink_frame c a).2.2.1
  change (c.map.erase k).lookup k' = some b ↔ _
  rw [hkey]
  obtain ⟨hnewer, holder⟩ := Linked.ne_of_split h.linked.nodup rfl
  have ha : c.map.lookup k = some a := h.lookup.mpr ⟨by simp, hk⟩
  by_cases hkk : k' = k
  · rw [hkk, AList.lookup_erase]
    simp only [reduceCtorEq, false_iff, not_and]
    intro hb hkb
    have hb' : b ∈ newer ++ a :: older := by
      simp only [List.mem_append, List.mem_cons] at hb ⊢
      tauto
    obtain rfl := h.key_injective hb' (by simp) (hkb.trans hk.symm)
    exact (List.mem_append.mp hb).elim hnewer holder
  · rw [AList.lookup_erase_ne hkk, h.lookup]
    simp only [List.mem_append, List.mem_cons]
    refine and_congr_left fun hkb => ?_
    have hne : b ≠ a := by
      rintro rfl
      exact hkk (Option.some.inj (hkb.symm.trans hk))
    simp [hne]

theorem drop (h : Links c (newer ++ a :: older)) {k : K} (hk : c.key a = some k) :
    Links (c.drop a k) (newer ++ older) := by
  obtain ⟨hprev, hnext, hprev_ne, hnext_ne⟩ := h.neighbours
  obtain ⟨hnewer, holder⟩ := Linked.ne_of_split h.linked.nodup rfl
  obtain ⟨hmax, -, hkey, hvalue, -, hfresh⟩ := unlink_frame c a
  have hmem : ∀ {b}, b ∈ newer ++ older → b ∈ newer ++ a :: older ∧ b ≠ a := by
    intro b hb
    have hb' : b ∈ newer ++ a :: older := by
      simp only [List.mem_append, List.mem_cons] at hb ⊢
      tauto
    refine ⟨hb', ?_⟩
    rintro rfl
    exact (List.mem_append.mp hb).elim hnewer holder
  have hin : k ∈ c.map := AList.lookup_isSome.mp (by rw [h.lookup.mpr ⟨by simp, hk⟩]; rfl)
  have hsize := length_erase hin
  constructor
  case linked =>
    apply h.linked.unlink
    · intro b hb
      change (c.unlink a).next b = _
      rw [unlink_next, if_neg (hmem hb).2, hprev, hnext]
    · intro b hb
      change (c.unlink a).prev b = _
      rw [unlink_prev hprev_ne, if_neg (hmem hb).2, hprev, hnext]
  case head =>
    change (c.unlink a).head = _
    rw [unlink_head, hprev, hnext, h.head]
    cases newer <;> simp
  case tail =>
    change (c.unlink a).tail = _
    rw [unlink_tail hprev_ne, hprev, hnext, h.tail]
    cases older <;> simp
  case lookup => exact h.drop_lookup hk
  case size =>
    have hlen := h.size
    change (c.map.erase k).entries.length = _
    change c.map.entries.length = _ at hlen
    simp only [List.length_append, List.length_cons] at hlen ⊢
    omega
  case hand =>
    intro b hb
    change (c.unlink a).hand = _ at hb
    rw [unlink_hand hprev_ne hnext_ne] at hb
    split at hb
    · rw [hprev] at hb
      exact List.mem_append_left _ (List.mem_of_getLast? hb)
    · have hmem' := h.hand hb
      have hne : b ≠ a := by
        rintro rfl
        contradiction
      simpa [hne] using hmem'
  case fresh =>
    intro b hb
    change b < (c.unlink a).fresh
    rw [hfresh]
    exact h.fresh (hmem hb).1
  case key =>
    intro b hb
    change ((c.unlink a).key b).isSome
    rw [hkey]
    exact h.key (hmem hb).1
  case value =>
    intro b hb
    change ((c.unlink a).value b).isSome
    rw [hvalue]
    exact h.value (hmem hb).1
  case bound =>
    have hbound := h.bound
    change _ ≤ (c.unlink a).maxSize
    rw [hmax]
    simp only [List.length_append, List.length_cons] at hbound ⊢
    omega

theorem setNew (h : Links c order) {k : K} (v : V) (hk : k ∉ c.map)
    (hlt : order.length < c.maxSize) : Links (c.setNew k v) (c.fresh :: order) := by
  have hnew : c.fresh ∉ order := fun hmem => (h.fresh hmem).false
  have hhead : (c.newNode k v).head ≠ some c.fresh := by
    change c.head ≠ _
    rw [h.head]
    exact fun heq => hnew (List.mem_of_head? heq)
  obtain ⟨hmax, hmap, hkey, hvalue, -, hfresh, hhand, hfront⟩ :=
    pushHead_frame (c.newNode k v) c.fresh
  replace hmap : ((c.newNode k v).pushHead c.fresh).map = c.map := hmap
  have hold : ∀ {b}, b ∈ order → b ≠ c.fresh := by
    rintro b hb rfl
    exact hnew hb
  constructor
  case linked =>
    apply h.linked.pushFront hnew
    · intro b hb
      change ((c.newNode k v).pushHead c.fresh).next b = _
      rw [pushHead_next, if_neg (hold hb)]
      exact update_of_ne (hold hb) ..
    · intro b hb
      change ((c.newNode k v).pushHead c.fresh).prev b = _
      rw [pushHead_prev _ _ hhead, if_neg (hold hb), ← h.head]
      change (if c.head = some b then some c.fresh else update c.prev c.fresh none b) = _
      rw [update_of_ne (hold hb)]
    · constructor
      · change ((c.newNode k v).pushHead c.fresh).next c.fresh = _
        rw [pushHead_next, if_pos rfl]
        exact h.head
      · change ((c.newNode k v).pushHead c.fresh).prev c.fresh = _
        rw [pushHead_prev _ _ hhead, if_pos rfl]
  case head => exact hfront
  case tail =>
    change ((c.newNode k v).pushHead c.fresh).tail = _
    rw [pushHead_tail]
    change (if c.tail = none then _ else c.tail) = _
    rw [h.tail]
    cases order <;> simp
  case lookup =>
    intro k' b
    change (((c.newNode k v).pushHead c.fresh).map.insert k c.fresh).lookup k' = some b ↔
      _ ∧ ((c.newNode k v).pushHead c.fresh).key b = some k'
    rw [hkey, hmap]
    change (c.map.insert k c.fresh).lookup k' = some b ↔
      _ ∧ update c.key c.fresh (some k) b = some k'
    by_cases hkk : k' = k
    · rw [hkk, AList.lookup_insert]
      by_cases hb : b = c.fresh
      · simp [hb]
      · have hmiss : ¬ (b ∈ order ∧ c.key b = some k) := by
          rw [← h.lookup, AList.lookup_eq_none.mpr hk]
          simp
        simpa [hb, Ne.symm hb] using hmiss
    · rw [AList.lookup_insert_ne hkk, h.lookup]
      by_cases hb : b = c.fresh
      · simp [hb, hnew, Ne.symm hkk]
      · simp [hb]
  case size =>
    have hlen := h.size
    change (((c.newNode k v).pushHead c.fresh).map.insert k c.fresh).entries.length = _
    rw [hmap, length_insert hk]
    exact congrArg (· + 1) hlen
  case hand =>
    intro b hb
    change ((c.newNode k v).pushHead c.fresh).hand = _ at hb
    rw [hhand] at hb
    exact List.mem_cons_of_mem _ (h.hand hb)
  case fresh =>
    intro b hb
    change b < ((c.newNode k v).pushHead c.fresh).fresh
    rw [hfresh]
    change b < c.fresh + 1
    rcases List.mem_cons.mp hb with rfl | hb
    · exact Nat.lt_succ_self _
    · exact (h.fresh hb).trans (Nat.lt_succ_self _)
  case key =>
    intro b hb
    change (((c.newNode k v).pushHead c.fresh).key b).isSome
    rw [hkey]
    change (update c.key c.fresh (some k) b).isSome
    by_cases hbf : b = c.fresh
    · simp [hbf]
    · rw [update_of_ne hbf]
      exact h.key (by simpa [hbf] using hb)
  case value =>
    intro b hb
    change (((c.newNode k v).pushHead c.fresh).value b).isSome
    rw [hvalue]
    change (update c.value c.fresh (some v) b).isSome
    by_cases hbf : b = c.fresh
    · simp [hbf]
    · rw [update_of_ne hbf]
      exact h.value (by simpa [hbf] using hb)
  case bound =>
    change order.length + 1 ≤ ((c.newNode k v).pushHead c.fresh).maxSize
    rw [hmax]
    exact hlt

end Links

namespace Rep

theorem drop (h : Rep c (newer ++ a :: older)) {k : K} (hk : c.key a = some k) :
    Rep (c.drop a k) (newer ++ older) := by
  obtain ⟨hprev, hnext, hprev_ne, -⟩ := h.links.neighbours
  apply (h.links.drop hk).rep
  intro b hb
  change (c.unlink a).prev b = none ∧ (c.unlink a).next b = none
  rw [unlink_next, unlink_prev hprev_ne]
  by_cases hba : b = a
  · simp [hba]
  · have hb' : b ∉ newer ++ a :: older := by simpa [hba] using hb
    rw [if_neg hba, if_neg hba, hprev, hnext, if_neg, if_neg]
    · exact h.loose hb'
    · exact fun heq => hb (List.mem_append_left _ (List.mem_of_getLast? heq))
    · exact fun heq => hb (List.mem_append_right _ (List.mem_of_head? heq))

theorem setNew (h : Rep c order) {k : K} (v : V) (hk : k ∉ c.map)
    (hlt : order.length < c.maxSize) : Rep (c.setNew k v) (c.fresh :: order) := by
  have hnew : c.fresh ∉ order := fun hmem => (h.fresh hmem).false
  have hhead : (c.newNode k v).head ≠ some c.fresh := by
    change c.head ≠ _
    rw [h.head]
    exact fun heq => hnew (List.mem_of_head? heq)
  apply (h.links.setNew v hk hlt).rep
  intro b hb
  rw [List.mem_cons, not_or] at hb
  obtain ⟨hbf, hb⟩ := hb
  change ((c.newNode k v).pushHead c.fresh).prev b = none ∧
    ((c.newNode k v).pushHead c.fresh).next b = none
  rw [pushHead_next, pushHead_prev _ _ hhead, if_neg hbf, if_neg hbf]
  change (if c.head = some b then _ else update c.prev c.fresh none b) = none ∧
    update c.next c.fresh none b = none
  rw [update_of_ne hbf, update_of_ne hbf, h.head, if_neg]
  · exact h.loose hb
  · exact fun heq => hb (List.mem_of_head? heq)

end Rep

end Mosec.SieveCache
