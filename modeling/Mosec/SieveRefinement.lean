import Mosec.SieveEviction

namespace Mosec

namespace Sieve

variable {K V : Type} [DecidableEq K]

def call (maxSize : ℕ) (s : Sieve K V) : CacheOp K V → Sieve K V × CacheResult K V
  | .get k => ((s.get k).1, .value (s.get k).2)
  | .put k v => ((s.put maxSize k v).1, .evicted (s.put maxSize k v).2)
  | .remove k => ((s.remove k).1, .value (s.remove k).2)
  | .evict => (s.evict.1, .evicted s.evict.2)

def calls (maxSize : ℕ) (s : Sieve K V) : List (CacheOp K V) → Sieve K V × List (CacheResult K V)
  | [] => (s, [])
  | op :: ops =>
    let (s, result) := s.call maxSize op
    let (s, results) := s.calls maxSize ops
    (s, result :: results)

variable {newer older : List (Entry K V)} {e : Entry K V}

omit [DecidableEq K] in
theorem split_at_key (h : ((newer ++ e :: older).map Entry.key).Nodup) :
    (∀ e' ∈ newer, e'.key ≠ e.key) ∧ ∀ e' ∈ older, e'.key ≠ e.key := by
  rw [List.map_append, List.map_cons, List.nodup_append, List.nodup_cons] at h
  obtain ⟨-, ⟨holder, -⟩, hne⟩ := h
  constructor
  · intro e' he'
    exact hne _ (List.mem_map_of_mem he') _ (by simp)
  · intro e' he' heq
    exact holder (heq ▸ List.mem_map_of_mem he')

theorem without_split {hand : Option K} (h : ((newer ++ e :: older).map Entry.key).Nodup) :
    (⟨newer ++ e :: older, hand⟩ : Sieve K V).without e.key = newer ++ older := by
  obtain ⟨hnewer, holder⟩ := split_at_key h
  rw [without, List.filter_append, List.filter_cons, List.filter_eq_self.mpr, if_neg,
    List.filter_eq_self.mpr]
  · simpa using holder
  · simp
  · simpa using hnewer

theorem newerOf_split {hand : Option K} (h : ((newer ++ e :: older).map Entry.key).Nodup) :
    (⟨newer ++ e :: older, hand⟩ : Sieve K V).newerOf e.key = newer.getLast?.map Entry.key := by
  obtain ⟨hnewer, -⟩ := split_at_key h
  rw [newerOf, List.takeWhile_append_of_pos (by simpa using hnewer), List.takeWhile_cons]
  simp

theorem lookup_split {hand : Option K} (h : ((newer ++ e :: older).map Entry.key).Nodup) :
    (⟨newer ++ e :: older, hand⟩ : Sieve K V).lookup e.key = some e.value := by
  obtain ⟨hnewer, -⟩ := split_at_key h
  have hnone : newer.find? (fun e' => e'.key = e.key) = none := by simpa using hnewer
  rw [lookup, List.find?_append, hnone]
  simp

theorem reach_split (h : ((newer ++ e :: older).map Entry.key).Nodup) :
    (⟨newer ++ e :: older, some e.key⟩ : Sieve K V).reach = newer.length + 1 := by
  obtain ⟨hnewer, -⟩ := split_at_key h
  have hidx : newer.findIdx (fun e' => e'.key = e.key) = newer.length := by
    rw [List.findIdx_eq_length]
    simpa using hnewer
  change (newer ++ e :: older).findIdx (fun e' => e'.key = e.key) + 1 = _
  rw [List.findIdx_append, hidx]
  simp [List.findIdx_cons]

theorem without_map {s : Sieve K V} {f : Entry K V → Entry K V} (hf : ∀ e, (f e).key = e.key)
    (k : K) : ({ s with entries := s.entries.map f } : Sieve K V).without k =
      (s.without k).map f := by
  rw [without, without, List.filter_map]
  congr 2
  funext e
  simp [hf]

theorem newerOf_map {s : Sieve K V} {f : Entry K V → Entry K V} (hf : ∀ e, (f e).key = e.key)
    (k : K) : ({ s with entries := s.entries.map f } : Sieve K V).newerOf k = s.newerOf k := by
  have hkeep : ((fun e => decide (e.key ≠ k)) ∘ f) = fun e : Entry K V => decide (e.key ≠ k) := by
    funext e
    simp [hf]
  rw [newerOf, newerOf, List.takeWhile_map, List.getLast?_map, Option.map_map, hkeep]
  congr 1
  funext e
  exact hf e

theorem get_items (s : Sieve K V) (k : K) : (s.get k).1.items = s.items := by
  rw [get, items, items, List.map_map]
  apply List.map_congr_left
  intro e _
  simp only [Function.comp_apply]
  split <;> rfl

theorem exists_victim {s : Sieve K V} (h : s.entries ≠ []) : ∃ e ∈ s.entries, s.victim = some e := by
  obtain ⟨e, he⟩ := List.exists_mem_of_ne_nil _ h
  have hsweep : s.sweep ≠ [] := List.ne_nil_of_mem (mem_around.mpr he)
  obtain ⟨first, rest, hfirst⟩ := List.exists_cons_of_ne_nil hsweep
  have hsome : s.victim.isSome := by simp [victim, pick, hfirst]
  obtain ⟨e', he'⟩ := Option.isSome_iff_exists.mp hsome
  exact ⟨e', mem_around.mp (pick_mem _ he'), he'⟩

theorem evict_items {s : Sieve K V} (hkeys : s.keys.Nodup) (h : s.entries ≠ []) :
    ∃ k v, s.evict.2 = some (k, v) ∧ s.items.Perm ((k, v) :: s.evict.1.items) := by
  obtain ⟨e, he, hvictim⟩ := exists_victim h
  obtain ⟨newer, older, hsplit⟩ := List.append_of_mem he
  have hevict : s.evict = ({ entries := (s.without e.key).map (Entry.clear s.cleared)
                             hand := s.newerOf e.key }, some (e.key, e.value)) := by
    rw [evict, hvictim]
  have hwithout : s.without e.key = newer ++ older := by
    obtain ⟨entries, hand⟩ := s
    obtain rfl : entries = _ := hsplit
    exact without_split hkeys
  refine ⟨e.key, e.value, by rw [hevict], ?_⟩
  rw [hevict, hwithout, items, items, hsplit, List.map_map]
  have hclear : ((fun e : Entry K V => (e.key, e.value)) ∘ Entry.clear s.cleared) =
      fun e => (e.key, e.value) := by
    funext e
    simp
  rw [hclear, List.map_append, List.map_append, List.map_cons]
  exact List.perm_middle

theorem put_new {s : Sieve K V} {maxSize : ℕ} {k : K} (v : V) (hk : k ∉ s.keys)
    (h : s.entries.length < maxSize) :
    s.put maxSize k v = ({ s with entries := ⟨k, v, false⟩ :: s.entries }, none) := by
  rw [put, if_neg hk, if_neg (by omega)]

theorem key_mem_of_evict {s : Sieve K V} (h : e ∈ s.evict.1.entries) :
    e.key ∈ s.keys := by
  rw [evict] at h
  split at h
  · exact List.mem_map_of_mem h
  · obtain ⟨e', he', rfl⟩ := List.mem_map.mp h
    rw [Entry.clear_key]
    exact List.mem_map_of_mem (List.mem_of_mem_filter he')

theorem mem_keys_of_put {s : Sieve K V} {maxSize : ℕ} {k k' : K} {v : V}
    (h : k' ∈ (s.put maxSize k v).1.keys) : k' = k ∨ k' ∈ s.keys := by
  rw [put] at h
  split at h
  · obtain ⟨e, he, rfl⟩ := List.mem_map.mp h
    obtain ⟨e', he', rfl⟩ := List.mem_map.mp he
    have hkey :
        (if e'.key = k then { e' with value := v, visited := true } else e').key = e'.key := by
      split <;> rfl
    rw [hkey]
    exact Or.inr (List.mem_map_of_mem he')
  · rw [keys, List.map_cons, List.mem_cons] at h
    apply h.imp_right
    intro hmem
    split at hmem
    · obtain ⟨e, he, rfl⟩ := List.mem_map.mp hmem
      exact key_mem_of_evict he
    · exact hmem

theorem lookup_eq_items (s : Sieve K V) (k : K) :
    s.lookup k = (s.items.find? fun p => p.1 = k).map Prod.snd := by
  rw [lookup, items, List.find?_map, Option.map_map]
  rfl

theorem lookup_get (s : Sieve K V) (k k' : K) : (s.get k).1.lookup k' = s.lookup k' := by
  rw [lookup_eq_items, lookup_eq_items, get_items]

theorem lookup_isSome {s : Sieve K V} {k : K} : (s.lookup k).isSome ↔ k ∈ s.keys := by
  rw [lookup, Option.isSome_map, List.find?_isSome, keys, List.mem_map]
  simp only [decide_eq_true_eq]

end Sieve

namespace SieveCache

open DoublyLinked (Linked)
open Sieve (around pick passed)

variable {K V : Type} [DecidableEq K] {c c' : SieveCache K V} {s : Sieve K V}
  {ps newer older : List (ℕ × Entry K V)} {p : ℕ × Entry K V}

/-- The nodes of the cache, with their addresses, are the entries of the abstract state. -/
structure Shows (c : SieveCache K V) (s : Sieve K V) (ps : List (ℕ × Entry K V)) : Prop where
  rep : Rep c (ps.map Prod.fst)
  entries : s.entries = ps.map Prod.snd
  hand : s.hand = c.hand.bind c.key
  key : ∀ {p}, p ∈ ps → c.key p.1 = some p.2.key
  value : ∀ {p}, p ∈ ps → c.value p.1 = some p.2.value
  visited : ∀ {p}, p ∈ ps → c.visited p.1 = p.2.visited

theorem shows_new (n : ℕ) (h : 1 ≤ n) : Shows (new n h : SieveCache K V) ⟨[], none⟩ [] where
  rep := rep_new n h
  entries := rfl
  hand := rfl
  key := by simp
  value := by simp
  visited := by simp

namespace Shows

theorem eq_of_key (h : Shows c s ps) {q : ℕ × Entry K V} (hp : p ∈ ps) (hq : q ∈ ps)
    (hkey : p.2.key = q.2.key) : p = q := by
  have haddr : p.1 = q.1 := by
    apply h.rep.links.key_injective (List.mem_map_of_mem hp) (List.mem_map_of_mem hq)
    rw [h.key hp, h.key hq, hkey]
  exact List.inj_on_of_nodup_map h.rep.linked.nodup hp hq haddr

theorem nodup_keys (h : Shows c s ps) : (s.entries.map Entry.key).Nodup := by
  rw [h.entries, List.map_map]
  apply List.Nodup.map_on
  · intro p hp q hq hkey
    exact h.eq_of_key hp hq hkey
  · exact List.Nodup.of_map Prod.fst h.rep.linked.nodup

theorem lookup (h : Shows c s ps) (hp : p ∈ ps) : c.map.lookup p.2.key = some p.1 :=
  h.rep.lookup.mpr ⟨List.mem_map_of_mem hp, h.key hp⟩

theorem exists_of_lookup (h : Shows c s ps) {k : K} {a : ℕ} (hk : c.map.lookup k = some a) :
    ∃ p ∈ ps, p.1 = a ∧ p.2.key = k := by
  obtain ⟨ha, hkey⟩ := h.rep.lookup.mp hk
  obtain ⟨p, hp, rfl⟩ := List.mem_map.mp ha
  rw [h.key hp] at hkey
  exact ⟨p, hp, rfl, Option.some.inj hkey⟩

theorem not_mem_of_lookup (h : Shows c s ps) {k : K} (hk : c.map.lookup k = none) :
    ∀ e ∈ s.entries, e.key ≠ k := by
  rw [h.entries]
  rintro e he rfl
  obtain ⟨p, hp, rfl⟩ := List.mem_map.mp he
  rw [h.lookup hp] at hk
  cases hk

theorem update (h : Shows c s ps) {f : Entry K V → Entry K V} (hf : ∀ e, (f e).key = e.key)
    (hrep : Rep c' (ps.map Prod.fst)) (hhand : c'.hand = c.hand) (hkey : c'.key = c.key)
    (hvalue : ∀ {p}, p ∈ ps → c'.value p.1 = some (f p.2).value)
    (hvisited : ∀ {p}, p ∈ ps → c'.visited p.1 = (f p.2).visited) :
    Shows c' { s with entries := s.entries.map f } (ps.map fun p => (p.1, f p.2)) where
  rep := by
    rw [List.map_map]
    exact hrep
  entries := by
    rw [h.entries, List.map_map, List.map_map]
    rfl
  hand := by
    rw [hhand, hkey]
    exact h.hand
  key := by
    intro p hp
    obtain ⟨q, hq, rfl⟩ := List.mem_map.mp hp
    rw [hkey, h.key hq, hf]
  value := by
    intro p hp
    obtain ⟨q, hq, rfl⟩ := List.mem_map.mp hp
    exact hvalue hq
  visited := by
    intro p hp
    obtain ⟨q, hq, rfl⟩ := List.mem_map.mp hp
    exact hvisited hq

theorem apart (h : Shows c s ps) {p q : ℕ × Entry K V} (hq : q ∈ ps) (hp : p ∈ ps) (hpq : q ≠ p) :
    q.1 ≠ p.1 ∧ q.2.key ≠ p.2.key :=
  ⟨fun haddr => hpq (List.inj_on_of_nodup_map h.rep.linked.nodup hq hp haddr),
    fun hkey => hpq (h.eq_of_key hq hp hkey)⟩

theorem updateAt (h : Shows c s ps) (hp : p ∈ ps) {f : Entry K V → Entry K V}
    (hf : ∀ e, (f e).key = e.key) (hrep : Rep c' (ps.map Prod.fst)) (hhand : c'.hand = c.hand)
    (hkey : c'.key = c.key) (hvalue : c'.value = Function.update c.value p.1 (some (f p.2).value))
    (hvisited : c'.visited = Function.update c.visited p.1 (f p.2).visited) :
    ∃ ps', Shows c' { s with entries := s.entries.map fun e => if e.key = p.2.key then f e else e }
      ps' := by
  have hf' : ∀ e : Entry K V, (if e.key = p.2.key then f e else e).key = e.key := by
    intro e
    split
    · exact hf e
    · rfl
  refine ⟨_, h.update hf' hrep hhand hkey (fun {q} hq => ?_) fun {q} hq => ?_⟩
  · rw [hvalue]
    by_cases hpq : q = p
    · simp [hpq]
    · obtain ⟨haddr, hkey⟩ := h.apart hq hp hpq
      rw [Function.update_of_ne haddr, if_neg hkey]
      exact h.value hq
  · rw [hvisited]
    by_cases hpq : q = p
    · simp [hpq]
    · obtain ⟨haddr, hkey⟩ := h.apart hq hp hpq
      rw [Function.update_of_ne haddr, if_neg hkey]
      exact h.visited hq

theorem get (h : Shows c s ps) (k : K) :
    (c.get k).2 = (s.get k).2 ∧ ∃ ps', Shows (c.get k).1 (s.get k).1 ps' := by
  rw [SieveCache.get]
  cases hk : c.map.lookup k with
  | none =>
    have hmiss := h.not_mem_of_lookup hk
    have hsame : (s.get k).1 = s := by
      change ({ s with entries := _ } : Sieve K V) = s
      have hmap : s.entries.map (fun e => if e.key = k then { e with visited := true } else e) =
          s.entries := by
        rw [List.map_congr_left fun e he => if_neg (hmiss e he), List.map_id']
      rw [hmap]
    refine ⟨?_, ps, by rw [hsame]; exact h⟩
    have hnone : s.entries.find? (fun e => e.key = k) = none := by simpa using hmiss
    simp [Sieve.get, Sieve.lookup, hnone]
  | some a =>
    obtain ⟨p, hp, rfl, rfl⟩ := h.exists_of_lookup hk
    constructor
    · obtain ⟨newer, older, hsplit⟩ := List.append_of_mem hp
      have hnodup := h.nodup_keys
      obtain ⟨entries, hand⟩ := s
      obtain rfl : entries = _ := h.entries
      rw [hsplit, List.map_append, List.map_cons] at hnodup ⊢
      change c.value p.1 = Sieve.lookup _ _
      rw [Sieve.lookup_split hnodup, h.value hp]
    · exact h.updateAt hp (f := fun e => { e with visited := true }) (fun _ => rfl)
        (h.rep.setVisited _ _) rfl rfl
        (by rw [← h.value hp, Function.update_eq_self]; rfl) rfl

theorem put_update (h : Shows c s ps) {k : K} {a : ℕ} (hk : c.map.lookup k = some a) (v : V)
    (maxSize : ℕ) : (s.put maxSize k v).2 = none ∧
      ∃ ps', Shows ((c.setValue a v).setVisited a true) (s.put maxSize k v).1 ps' := by
  obtain ⟨p, hp, rfl, rfl⟩ := h.exists_of_lookup hk
  have hin : p.2.key ∈ s.keys := by
    rw [Sieve.keys, h.entries]
    exact List.mem_map_of_mem (List.mem_map_of_mem hp)
  rw [Sieve.put, if_pos hin]
  refine ⟨rfl, ?_⟩
  exact h.updateAt hp (f := fun e => { e with value := v, visited := true }) (fun _ => rfl)
    ((h.rep.setValue _ _).setVisited _ _) rfl rfl rfl rfl

theorem neighbours (h : Shows c s (newer ++ p :: older)) :
    c.prev p.1 = (newer.map Prod.fst).getLast? ∧ c.next p.1 = (older.map Prod.fst).head? ∧
      c.prev p.1 ≠ some p.1 ∧ c.next p.1 ≠ some p.1 := by
  have hrep := h.rep
  rw [List.map_append, List.map_cons] at hrep
  exact hrep.links.neighbours

theorem drop (h : Shows c s (newer ++ p :: older)) (hand' : Option K)
    (hhand : hand' = (c.drop p.1 p.2.key).hand.bind c.key) :
    Shows (c.drop p.1 p.2.key) ⟨s.without p.2.key, hand'⟩ (newer ++ older) where
  rep := by
    have hrep := h.rep
    rw [List.map_append, List.map_cons] at hrep
    rw [List.map_append]
    exact hrep.drop (h.key (by simp))
  entries := by
    have hnodup := h.nodup_keys
    obtain ⟨entries, hand⟩ := s
    obtain rfl : entries = _ := h.entries
    rw [List.map_append, List.map_cons] at hnodup ⊢
    rw [Sieve.without_split hnodup, List.map_append]
  hand := by
    have hkey : (c.drop p.1 p.2.key).key = c.key := (unlink_frame c p.1).2.2.1
    rw [hkey]
    exact hhand
  key := by
    intro q hq
    have hkey : (c.drop p.1 p.2.key).key = c.key := (unlink_frame c p.1).2.2.1
    rw [hkey]
    exact h.key (by simp only [List.mem_append, List.mem_cons] at hq ⊢; tauto)
  value := by
    intro q hq
    have hvalue : (c.drop p.1 p.2.key).value = c.value := (unlink_frame c p.1).2.2.2.1
    rw [hvalue]
    exact h.value (by simp only [List.mem_append, List.mem_cons] at hq ⊢; tauto)
  visited := by
    intro q hq
    have hvisited : (c.drop p.1 p.2.key).visited = c.visited := (unlink_frame c p.1).2.2.2.2.1
    rw [hvisited]
    exact h.visited (by simp only [List.mem_append, List.mem_cons] at hq ⊢; tauto)

theorem newerOf (h : Shows c s (newer ++ p :: older)) :
    s.newerOf p.2.key = (newer.map Prod.fst).getLast?.bind c.key := by
  have hnodup := h.nodup_keys
  have hlast : (newer.map Prod.fst).getLast?.bind c.key =
      (newer.map Prod.snd).getLast?.map Entry.key := by
    rw [List.getLast?_map, List.getLast?_map]
    cases hq : newer.getLast? with
    | none => rfl
    | some q => exact h.key (List.mem_append_left _ (List.mem_of_getLast? hq))
  obtain ⟨entries, hand⟩ := s
  obtain rfl : entries = _ := h.entries
  rw [List.map_append, List.map_cons] at hnodup ⊢
  rw [Sieve.newerOf_split hnodup, hlast]

theorem hand_iff (h : Shows c s ps) (hp : p ∈ ps) : s.hand = some p.2.key ↔ c.hand = some p.1 := by
  rw [h.hand]
  constructor
  · intro heq
    obtain ⟨a, ha, hkey⟩ := Option.bind_eq_some_iff.mp heq
    rw [ha]
    exact congrArg some (h.rep.links.key_injective (h.rep.hand ha) (List.mem_map_of_mem hp)
      (hkey.trans (h.key hp).symm))
  · intro heq
    rw [heq]
    exact h.key hp

theorem remove (h : Shows c s ps) (k : K) :
    (c.remove k).2 = (s.remove k).2 ∧ ∃ ps', Shows (c.remove k).1 (s.remove k).1 ps' := by
  rw [SieveCache.remove]
  cases hk : c.map.lookup k with
  | none =>
    have hmiss := h.not_mem_of_lookup hk
    have hwithout : s.without k = s.entries := by
      rw [Sieve.without, List.filter_eq_self]
      simpa using hmiss
    have hhand : s.hand ≠ some k := by
      rw [h.hand]
      intro heq
      obtain ⟨a, ha, hkey⟩ := Option.bind_eq_some_iff.mp heq
      rw [h.rep.lookup.mpr ⟨h.rep.hand ha, hkey⟩] at hk
      cases hk
    have hsame : (s.remove k).1 = s := by
      rw [Sieve.remove, hwithout, if_neg hhand]
    refine ⟨?_, ps, by rw [hsame]; exact h⟩
    have hnone : s.entries.find? (fun e => e.key = k) = none := by simpa using hmiss
    simp [Sieve.remove, Sieve.lookup, hnone]
  | some a =>
    obtain ⟨p, hp, rfl, rfl⟩ := h.exists_of_lookup hk
    obtain ⟨newer, older, rfl⟩ := List.append_of_mem hp
    have hnodup := h.nodup_keys
    obtain ⟨hprev, -, hprev_ne, hnext_ne⟩ := h.neighbours
    simp only [unlink_map]
    constructor
    · change (c.unlink p.1).value p.1 = s.lookup p.2.key
      rw [(unlink_frame c p.1).2.2.2.1, h.value hp]
      obtain ⟨entries, hand⟩ := s
      obtain rfl : entries = _ := h.entries
      rw [List.map_append, List.map_cons] at hnodup ⊢
      rw [Sieve.lookup_split hnodup]
    · refine ⟨_, h.drop (if s.hand = some p.2.key then s.newerOf p.2.key else s.hand) ?_⟩
      change _ = (c.unlink p.1).hand.bind c.key
      rw [unlink_hand hprev_ne hnext_ne]
      by_cases hhand : c.hand = some p.1
      · rw [if_pos ((h.hand_iff hp).mpr hhand), if_pos hhand, hprev]
        exact h.newerOf
      · rw [if_neg fun heq => hhand ((h.hand_iff hp).mp heq), if_neg hhand]
        exact h.hand

theorem setNew (h : Shows c s ps) {k : K} (v : V) (hk : c.map.lookup k = none)
    (hlt : ps.length < c.maxSize) :
    Shows (c.setNew k v) { s with entries := ⟨k, v, false⟩ :: s.entries }
      ((c.fresh, ⟨k, v, false⟩) :: ps) := by
  obtain ⟨-, -, hkey, hvalue, hvisited, -, hhand, -⟩ := pushHead_frame (c.newNode k v) c.fresh
  have hne : ∀ {a}, a ∈ ps.map Prod.fst → a ≠ c.fresh := fun ha => (h.rep.fresh ha).ne
  constructor
  case rep => exact h.rep.setNew v (AList.lookup_eq_none.mp hk) (by simpa using hlt)
  case entries => rw [h.entries, List.map_cons]
  case hand =>
    change s.hand = ((c.newNode k v).pushHead c.fresh).hand.bind
      ((c.newNode k v).pushHead c.fresh).key
    rw [hhand, hkey, h.hand]
    change c.hand.bind c.key = c.hand.bind (Function.update c.key c.fresh (some k))
    cases hc : c.hand with
    | none => rfl
    | some a =>
      have ha := hne (h.rep.hand hc)
      rw [Option.bind_some, Option.bind_some, Function.update_of_ne ha]
  case key =>
    intro p hp
    change ((c.newNode k v).pushHead c.fresh).key p.1 = _
    rw [hkey]
    change Function.update c.key c.fresh (some k) p.1 = _
    rcases List.mem_cons.mp hp with rfl | hp
    · simp
    · rw [Function.update_of_ne (hne (List.mem_map_of_mem hp)), h.key hp]
  case value =>
    intro p hp
    change ((c.newNode k v).pushHead c.fresh).value p.1 = _
    rw [hvalue]
    change Function.update c.value c.fresh (some v) p.1 = _
    rcases List.mem_cons.mp hp with rfl | hp
    · simp
    · rw [Function.update_of_ne (hne (List.mem_map_of_mem hp)), h.value hp]
  case visited =>
    intro p hp
    change ((c.newNode k v).pushHead c.fresh).visited p.1 = _
    rw [hvisited]
    change Function.update c.visited c.fresh false p.1 = _
    rcases List.mem_cons.mp hp with rfl | hp
    · simp
    · rw [Function.update_of_ne (hne (List.mem_map_of_mem hp)), h.visited hp]

theorem reach (h : Shows c s ps) (hne : ps ≠ []) : ((ps.map Prod.fst).take s.reach) ≠ [] ∧
    c.hand.or c.tail = ((ps.map Prod.fst).take s.reach).getLast? := by
  cases hc : c.hand with
  | none =>
    have hhand : s.hand = none := by
      rw [h.hand, hc]
      rfl
    have hreach : s.reach = ps.length := by
      rw [Sieve.reach, hhand, h.entries, List.length_map]
    rw [hreach, List.take_of_length_le (by simp), Option.none_or]
    exact ⟨by simpa using hne, h.rep.tail⟩
  | some a =>
    obtain ⟨p, hp, rfl⟩ := List.mem_map.mp (h.rep.hand hc)
    have hhand := (h.hand_iff hp).mpr hc
    obtain ⟨newer, older, rfl⟩ := List.append_of_mem hp
    have hnodup := h.nodup_keys
    have hreach : s.reach = newer.length + 1 := by
      obtain ⟨entries, hand⟩ := s
      obtain rfl : hand = _ := hhand
      obtain rfl : entries = _ := h.entries
      rw [List.map_append, List.map_cons] at hnodup ⊢
      rw [Sieve.reach_split hnodup, List.length_map]
    have htake : ((newer ++ p :: older).map Prod.fst).take (newer.length + 1) =
        newer.map Prod.fst ++ [p.1] := by
      rw [← List.map_take, List.take_length_add_append]
      simp
    rw [hreach, htake]
    exact ⟨by simp, by simp⟩

theorem setHand (h : Shows c s ps) {hand : Option ℕ}
    (hhand : ∀ {a}, hand = some a → a ∈ ps.map Prod.fst) :
    Shows { c with hand := hand } { s with hand := hand.bind c.key } ps :=
  ⟨h.rep.setHand hhand, h.entries, rfl, h.key, h.value, h.visited⟩

theorem mem_around (h : Shows c s ps) : ∀ p ∈ around s.reach ps, c.visited p.1 = p.2.visited :=
  fun _ hp => h.visited (Sieve.mem_around.mp hp)

theorem sweep (h : Shows c s ps) {a : ℕ}
    (hpick : pick c.visited (around s.reach (ps.map Prod.fst)) = some a) :
    ∃ p ∈ ps, p.1 = a ∧ s.victim = some p.2 ∧
      passed c.visited (around s.reach (ps.map Prod.fst)) =
        (passed (fun p => p.2.visited) (around s.reach ps)).map Prod.fst ∧
      s.cleared = (passed (fun p => p.2.visited) (around s.reach ps)).map fun p => p.2.key := by
  obtain ⟨hcongr, hcongr'⟩ := Sieve.pick_congr (c.visited ∘ Prod.fst)
    (fun p : ℕ × Entry K V => p.2.visited) h.mem_around
  rw [Sieve.around_map, Sieve.pick_map, hcongr] at hpick
  obtain ⟨p, hp, rfl⟩ := Option.map_eq_some_iff.mp hpick
  refine ⟨p, Sieve.mem_around.mp (Sieve.pick_mem _ hp), rfl, ?_, ?_, ?_⟩
  · rw [Sieve.victim, Sieve.sweep, h.entries, Sieve.around_map, Sieve.pick_map]
    exact congrArg (Option.map Prod.snd) hp
  · rw [Sieve.around_map, Sieve.passed_map, hcongr']
  · rw [Sieve.cleared, Sieve.sweep, h.entries, Sieve.around_map, Sieve.passed_map, List.map_map]
    rfl

theorem clear (h : Shows c s ps) {path : List (ℕ × Entry K V)} (hpath : ∀ p ∈ path, p ∈ ps)
    {cleared : List K} (hcleared : cleared = path.map fun p => p.2.key) :
    Shows (c.clear (path.map Prod.fst)) { s with entries := s.entries.map (Entry.clear cleared) }
      (ps.map fun p => (p.1, p.2.clear cleared)) := by
  apply h.update (Entry.clear_key cleared) (h.rep.clear _) rfl rfl
  · intro q hq
    rw [Entry.clear_value]
    exact h.value hq
  · intro q hq
    have hiff : q.1 ∈ path.map Prod.fst ↔ q.2.key ∈ cleared := by
      rw [hcleared, List.mem_map, List.mem_map]
      constructor
      · rintro ⟨p, hp, haddr⟩
        have hpq := List.inj_on_of_nodup_map h.rep.linked.nodup (hpath p hp) hq haddr
        exact ⟨p, hp, by rw [hpq]⟩
      · rintro ⟨p, hp, hkey⟩
        have hpq := h.eq_of_key (hpath p hp) hq hkey
        exact ⟨p, hp, by rw [hpq]⟩
    change (if q.1 ∈ path.map Prod.fst then false else c.visited q.1) = _
    rw [Entry.clear_visited, h.visited hq]
    simp only [hiff]

theorem takeOut (h : Shows c s ps) (hsplit : ps = newer ++ p :: older) : ∃ c',
    c.takeOut p.1 = some (c', some (p.2.key, p.2.value)) ∧
      Shows c' ⟨s.without p.2.key, s.newerOf p.2.key⟩ (newer ++ older) ∧
      c'.maxSize = c.maxSize := by
  subst hsplit
  have hrep := h.rep
  rw [List.map_append, List.map_cons] at hrep
  have hlast := h.setHand fun {a} (ha : (newer.map Prod.fst).getLast? = some a) => by
    rw [List.map_append]
    exact List.mem_append_left _ (List.mem_of_getLast? ha)
  refine ⟨_, hrep.links.takeOut (h.key (by simp)) (h.value (by simp)), hlast.drop _ ?_, ?_⟩
  · obtain ⟨-, -, hprev_ne, hnext_ne⟩ := hlast.neighbours
    have hnewer : (newer.map Prod.fst).getLast? ≠ some p.1 :=
      fun heq => (Linked.ne_of_split hrep.linked.nodup rfl).1 (List.mem_of_getLast? heq)
    change s.newerOf p.2.key = (unlink _ p.1).hand.bind c.key
    rw [h.newerOf, unlink_hand hprev_ne hnext_ne, if_neg hnewer]
  · exact (unlink_frame _ p.1).1

theorem evictCore (h : Shows c s ps) (hne : ps ≠ []) : ∃ c' ps', c.evictCore = some (c', s.evict.2) ∧
    Shows c' s.evict.1 ps' ∧ ps'.length + 1 = ps.length ∧ c'.maxSize = c.maxSize := by
  obtain ⟨htake, hstart⟩ := h.reach hne
  obtain ⟨a, hpick, hcore⟩ := h.rep.links.evictCore_eq htake hstart
  obtain ⟨p, hp, rfl, hvictim, hpassed, hcleared⟩ := h.sweep hpick
  have hpath : ∀ q ∈ passed (fun p => p.2.visited) (around s.reach ps), q ∈ ps :=
    fun q hq => Sieve.mem_around.mp (List.takeWhile_subset _ hq)
  have hclear := h.clear hpath hcleared
  obtain ⟨newer, older, hsplit⟩ := List.append_of_mem hp
  have hsplit' : (ps.map fun p => (p.1, p.2.clear s.cleared)) =
      (newer.map fun p => (p.1, p.2.clear s.cleared)) ++ (p.1, p.2.clear s.cleared) ::
        older.map fun p => (p.1, p.2.clear s.cleared) := by
    rw [hsplit, List.map_append, List.map_cons]
  rw [← hpassed] at hclear
  obtain ⟨c', htaken, hshows, hmax⟩ := hclear.takeOut hsplit'
  have hevict : s.evict = ({ entries := (s.without p.2.key).map (Entry.clear s.cleared)
                             hand := s.newerOf p.2.key }, some (p.2.key, p.2.value)) := by
    rw [Sieve.evict, hvictim]
  rw [Entry.clear_key, Entry.clear_value] at htaken
  rw [Entry.clear_key, Sieve.newerOf_map (Entry.clear_key s.cleared),
    Sieve.without_map (Entry.clear_key s.cleared)] at hshows
  rw [hevict]
  refine ⟨c', _, hcore.trans htaken, hshows, ?_, hmax⟩
  rw [hsplit]
  simp only [List.length_append, List.length_map, List.length_cons]
  omega

theorem length (h : Shows c s ps) : c.len = s.entries.length ∧ s.entries.length = ps.length := by
  rw [h.entries, h.rep.size]
  simp

theorem evict (h : Shows c s ps) :
    ∃ c' ps', c.evict = some (c', s.evict.2) ∧ Shows c' s.evict.1 ps' ∧ c'.maxSize = c.maxSize := by
  rw [SieveCache.evict]
  by_cases hne : ps = []
  · subst hne
    have hnil : s.entries = [] := h.entries
    have hevict : s.evict = (s, none) := by
      simp [Sieve.evict, Sieve.victim, Sieve.sweep, hnil, around, pick]
    rw [hevict, if_pos (by simpa using h.rep.size)]
    exact ⟨c, [], rfl, h, rfl⟩
  · obtain ⟨c', ps', hcore, hshows, -, hmax⟩ := h.evictCore hne
    have hlen : c.len ≠ 0 := by
      rw [h.length.1, h.length.2]
      simpa using hne
    rw [if_neg hlen]
    exact ⟨c', ps', hcore, hshows, hmax⟩

theorem put (h : Shows c s ps) (k : K) (v : V) : ∃ c' ps',
    c.put k v = some (c', (s.put c.maxSize k v).2) ∧ Shows c' (s.put c.maxSize k v).1 ps' ∧
      c'.maxSize = c.maxSize := by
  rw [SieveCache.put]
  cases hk : c.map.lookup k with
  | some a =>
    obtain ⟨hnone, ps', hshows⟩ := h.put_update hk v c.maxSize
    rw [hnone]
    exact ⟨_, ps', rfl, hshows, rfl⟩
  | none =>
    have hmiss : k ∉ s.keys := by
      intro hmem
      obtain ⟨e, he, hkey⟩ := List.mem_map.mp hmem
      exact h.not_mem_of_lookup hk e he hkey
    rw [Sieve.put, if_neg hmiss, ← h.length.1]
    by_cases hfull : c.maxSize ≤ c.len
    · have hne : ps ≠ [] := by
        rintro rfl
        have hlen := h.length
        have hpos := c.maxSize_pos
        rw [List.length_nil] at hlen
        omega
      obtain ⟨c', ps', hcore, hshows, hlen, hmax⟩ := h.evictCore hne
      have hbound := h.rep.bound
      rw [List.length_map] at hbound
      have hk' : c'.map.lookup k = none := by
        rw [Option.eq_none_iff_forall_ne_some]
        intro a ha
        obtain ⟨q, hq, -, rfl⟩ := hshows.exists_of_lookup ha
        have hmem : q.2 ∈ s.evict.1.entries := by
          rw [hshows.entries]
          exact List.mem_map_of_mem hq
        exact hmiss (Sieve.key_mem_of_evict hmem)
      simp only [if_pos hfull, hcore, Option.bind_eq_bind, Option.bind_some]
      refine ⟨_, _, rfl, hshows.setNew v hk' (by omega), ?_⟩
      exact (pushHead_frame (c'.newNode k v) c'.fresh).1.trans hmax
    · simp only [if_neg hfull, Option.bind_eq_bind, Option.bind_some]
      refine ⟨_, _, rfl, h.setNew v hk ?_, ?_⟩
      · rw [← h.length.2, ← h.length.1]
        omega
      · exact (pushHead_frame (c.newNode k v) c.fresh).1

theorem cells {α : Type} (h : Shows c s ps) {f : ℕ → Option α} {g : Entry K V → α}
    (hf : ∀ {p}, p ∈ ps → f p.1 = some (g p.2)) : c.cells f = some (s.entries.map g) := by
  have hfresh : c.fresh = (ps.map Prod.fst).length + (c.fresh - (ps.map Prod.fst).length) :=
    (Nat.add_sub_of_le h.rep.links.length_le_fresh).symm
  rw [SieveCache.cells, h.rep.head, hfresh, DoublyLinked.walk_path h.rep.linked.path,
    Option.bind_some, h.entries]
  clear h hfresh
  induction ps with
  | nil => rfl
  | cons p ps ih =>
    rw [List.map_cons, List.mapM_cons, hf (by simp), ih fun hq => hf (List.mem_cons_of_mem _ hq)]
    rfl

theorem keys (h : Shows c s ps) : c.keys = some s.keys := h.cells fun hp => h.key hp

theorem items (h : Shows c s ps) : c.items = some s.items :=
  h.cells fun hp => by rw [h.key hp, Option.bind_some, h.value hp, Option.map_some]

theorem contains (h : Shows c s ps) (k : K) : c.contains k = decide (k ∈ s.keys) := by
  rw [SieveCache.contains, Sieve.keys, h.entries]
  cases hk : c.map.lookup k with
  | none =>
    have hmiss := h.not_mem_of_lookup hk
    rw [h.entries] at hmiss
    symm
    rw [Option.isSome_none, decide_eq_false_iff_not]
    intro hmem
    obtain ⟨e, he, hkey⟩ := List.mem_map.mp hmem
    exact hmiss e he hkey
  | some a =>
    obtain ⟨p, hp, rfl, rfl⟩ := h.exists_of_lookup hk
    have hin : p.2.key ∈ (ps.map Prod.snd).map Entry.key :=
      List.mem_map_of_mem (List.mem_map_of_mem hp)
    simp only [Option.isSome_some, hin, decide_true]

theorem call (h : Shows c s ps) (op : CacheOp K V) : ∃ c' ps',
    c.call op = some (c', (s.call c.maxSize op).2) ∧ Shows c' (s.call c.maxSize op).1 ps' ∧
      c'.maxSize = c.maxSize := by
  cases op with
  | get k =>
    obtain ⟨hvalue, ps', hshows⟩ := h.get k
    refine ⟨_, ps', by rw [SieveCache.call, hvalue]; rfl, hshows, ?_⟩
    rw [SieveCache.get]
    split <;> rfl
  | put k v =>
    obtain ⟨c', ps', hput, hshows, hmax⟩ := h.put k v
    exact ⟨c', ps', by rw [SieveCache.call, hput]; rfl, hshows, hmax⟩
  | remove k =>
    obtain ⟨hvalue, ps', hshows⟩ := h.remove k
    refine ⟨_, ps', by rw [SieveCache.call, hvalue]; rfl, hshows, ?_⟩
    rw [SieveCache.remove]
    split
    · rfl
    · exact (unlink_frame _ _).1
  | evict =>
    obtain ⟨c', ps', hevict, hshows, hmax⟩ := h.evict
    exact ⟨c', ps', by rw [SieveCache.call, hevict]; rfl, hshows, hmax⟩

theorem calls (h : Shows c s ps) (ops : List (CacheOp K V)) : ∃ c' ps',
    c.calls ops = some (c', (s.calls c.maxSize ops).2) ∧ Shows c' (s.calls c.maxSize ops).1 ps' := by
  induction ops generalizing c s ps with
  | nil => exact ⟨c, ps, rfl, h⟩
  | cons op ops ih =>
    obtain ⟨c₁, ps₁, hcall, hshows₁, hmax⟩ := h.call op
    obtain ⟨c₂, ps₂, hcalls, hshows₂⟩ := ih hshows₁
    rw [hmax] at hcalls hshows₂
    refine ⟨c₂, ps₂, ?_, hshows₂⟩
    simp only [SieveCache.calls, hcall, hcalls, Option.bind_eq_bind, Option.bind_some]
    rfl

end Shows

def Holds (c : SieveCache K V) (s : Sieve K V) : Prop := ∃ ps, Shows c s ps

namespace Holds

theorem new (n : ℕ) (h : 1 ≤ n) : Holds (new n h : SieveCache K V) Sieve.empty := ⟨[], shows_new n h⟩

theorem nodup (h : Holds c s) : s.keys.Nodup :=
  h.elim fun _ hshows => hshows.nodup_keys

theorem len (h : Holds c s) : c.len = s.entries.length := h.elim fun _ hshows => hshows.length.1

theorem bound (h : Holds c s) : s.entries.length ≤ c.maxSize := by
  obtain ⟨ps, hshows⟩ := h
  rw [hshows.length.2]
  simpa using hshows.rep.bound

theorem contains (h : Holds c s) (k : K) : c.contains k = decide (k ∈ s.keys) :=
  h.elim fun _ hshows => hshows.contains k

theorem items (h : Holds c s) : c.items = some s.items := h.elim fun _ hshows => hshows.items

theorem get (h : Holds c s) (k : K) : (c.get k).2 = s.lookup k ∧ Holds (c.get k).1 (s.get k).1 ∧
    (c.get k).1.maxSize = c.maxSize := by
  obtain ⟨ps, hshows⟩ := h
  obtain ⟨hvalue, hshows'⟩ := hshows.get k
  refine ⟨hvalue, hshows', ?_⟩
  rw [SieveCache.get]
  split <;> rfl

theorem evict (h : Holds c s) :
    ∃ c', c.evict = some (c', s.evict.2) ∧ Holds c' s.evict.1 ∧ c'.maxSize = c.maxSize := by
  obtain ⟨ps, hshows⟩ := h
  obtain ⟨c', ps', hevict, hshows', hmax⟩ := hshows.evict
  exact ⟨c', hevict, ⟨ps', hshows'⟩, hmax⟩

theorem put (h : Holds c s) (k : K) (v : V) : ∃ c', c.put k v = some (c', (s.put c.maxSize k v).2) ∧
    Holds c' (s.put c.maxSize k v).1 ∧ c'.maxSize = c.maxSize := by
  obtain ⟨ps, hshows⟩ := h
  obtain ⟨c', ps', hput, hshows', hmax⟩ := hshows.put k v
  exact ⟨c', hput, ⟨ps', hshows'⟩, hmax⟩

end Holds

theorem calls_refine (maxSize : ℕ) (hmax : 1 ≤ maxSize) (ops : List (CacheOp K V)) :
    ∃ c, (new maxSize hmax : SieveCache K V).calls ops =
        some (c, (Sieve.empty.calls maxSize ops).2) ∧
      c.len = (Sieve.empty.calls maxSize ops).1.entries.length ∧
      (∀ k, c.contains k = decide (k ∈ (Sieve.empty.calls maxSize ops).1.keys)) ∧
      c.keys = some (Sieve.empty.calls maxSize ops).1.keys ∧
      c.items = some (Sieve.empty.calls maxSize ops).1.items ∧
      ∀ e, (Sieve.empty.calls maxSize ops).1.victim = some e → e.visited = true →
        ∀ e' ∈ (Sieve.empty.calls maxSize ops).1.entries, e'.visited = true := by
  obtain ⟨c, ps, hcalls, hshows⟩ := (shows_new maxSize hmax).calls ops
  refine ⟨c, hcalls, hshows.length.1, hshows.contains, hshows.keys, hshows.items, ?_⟩
  intro e hvictim he e' he'
  exact Sieve.pick_visited _ hvictim he e' (Sieve.mem_around.mpr he')

theorem calls_refine_evicts : ∃ c, (new 2 (by decide) : SieveCache ℕ ℕ).calls
      [.put 1 10, .put 2 20, .get 1, .put 3 30] =
        some (c, [.evicted none, .evicted none, .value (some 10), .evicted (some (2, 20))]) ∧
    c.keys = some [3, 1] := by
  obtain ⟨c, hcalls, -, -, hkeys, -⟩ :=
    calls_refine 2 (by decide) [.put 1 10, .put 2 20, .get 1, .put 3 30]
  have hresults : (Sieve.empty.calls 2 [.put 1 10, .put 2 20, .get 1, .put 3 30] :
      Sieve ℕ ℕ × List (CacheResult ℕ ℕ)) = (⟨[⟨3, 30, false⟩, ⟨1, 10, false⟩], none⟩,
        [.evicted none, .evicted none, .value (some 10), .evicted (some (2, 20))]) := by
    decide
  rw [hresults] at hcalls hkeys
  exact ⟨c, hcalls, hkeys⟩

end SieveCache

end Mosec
