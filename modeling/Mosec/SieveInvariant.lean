import Mosec.SieveRefinement

namespace Mosec.SieveCache

open DoublyLinked (walk)

variable {K V : Type} [DecidableEq K] {c : SieveCache K V}

structure WellFormed (c : SieveCache K V) (order : List ℕ) : Prop where
  walk : walk c.next order.length c.head = some order
  once : order.Nodup
  stored : ∀ a, a ∈ order ↔ ∃ k, c.map.lookup k = some a
  tail : c.tail = order.getLast?
  inverse : ∀ a ∈ order, ∀ b ∈ order, c.next a = some b ↔ c.prev b = some a
  first : ∀ a, c.head = some a → c.prev a = none
  key : ∀ k a, c.map.lookup k = some a → a ∈ order ∧ c.key a = some k
  head_none : c.head = none ↔ c.len = 0
  tail_none : c.tail = none ↔ c.len = 0
  hand : ∀ a, c.hand = some a → a ∈ order
  out : ∀ a, a ∉ order → c.prev a = none ∧ c.next a = none
  bound : c.len ≤ c.maxSize

theorem Rep.wellFormed {order : List ℕ} (h : Rep c order) : WellFormed c order where
  walk := by
    rw [h.head]
    exact DoublyLinked.walk_path h.linked.path 0
  once := h.linked.nodup
  stored := by
    intro a
    constructor
    · intro ha
      obtain ⟨k, hk⟩ := Option.isSome_iff_exists.mp (h.key ha)
      exact ⟨k, h.lookup.mpr ⟨ha, hk⟩⟩
    · rintro ⟨k, hk⟩
      exact (h.lookup.mp hk).1
  tail := h.tail
  inverse := fun a ha b hb => h.linked.next_iff_prev ha hb
  first := by
    intro a ha
    rw [h.head] at ha
    obtain ⟨older, rfl⟩ := List.head?_eq_some_iff.mp ha
    have hfront : a :: older = [] ++ a :: older := rfl
    exact h.linked.prev hfront
  key := fun k a hk => h.lookup.mp hk
  head_none := by
    rw [h.head, h.size, List.head?_eq_none_iff, List.length_eq_zero_iff]
  tail_none := by
    rw [h.tail, h.size, List.getLast?_eq_none_iff, List.length_eq_zero_iff]
  hand := fun a ha => h.hand ha
  out := fun a ha => h.loose ha
  bound := by
    rw [h.size]
    exact h.bound

theorem calls_wellFormed (maxSize : ℕ) (hmax : 1 ≤ maxSize) (ops : List (CacheOp K V)) :
    ∃ c results order, (new maxSize hmax : SieveCache K V).calls ops = some (c, results) ∧
      WellFormed c order := by
  obtain ⟨c, ps, hcalls, hshows⟩ := (shows_new maxSize hmax).calls ops
  exact ⟨c, _, _, hcalls, hshows.rep.wellFormed⟩

theorem calls_wellFormed_removed : ∃ c results order, (new 2 (by decide) : SieveCache ℕ ℕ).calls
      [.put 1 10, .put 2 20, .evict, .remove 2] = some (c, results) ∧ WellFormed c order :=
  calls_wellFormed 2 (by decide) [.put 1 10, .put 2 20, .evict, .remove 2]

end Mosec.SieveCache
