import Mathlib.Data.List.Nodup

namespace DoublyLinked

variable {α : Type*} {prev next prev' next' : α → Option α} {l newer older : List α} {a b : α}

/-- `next` leads from the front of `l` to its end, and `prev` back. -/
structure Linked (prev next : α → Option α) (l : List α) : Prop where
  nodup : l.Nodup
  next : ∀ {newer a older}, l = newer ++ a :: older → next a = older.head?
  prev : ∀ {newer a older}, l = newer ++ a :: older → prev a = newer.getLast?

namespace Linked

theorem nil : Linked prev next [] where
  nodup := List.nodup_nil
  next h := by simp at h
  prev h := by simp at h

theorem congr (h : Linked prev next l) (hprev : ∀ a ∈ l, prev' a = prev a)
    (hnext : ∀ a ∈ l, next' a = next a) : Linked prev' next' l where
  nodup := h.nodup
  next := by
    intro newer a older hl
    rw [hnext a (by simp [hl]), h.next hl]
  prev := by
    intro newer a older hl
    rw [hprev a (by simp [hl]), h.prev hl]

theorem ne_of_split (h : l.Nodup) (hl : l = newer ++ a :: older) : a ∉ newer ∧ a ∉ older := by
  rw [hl, List.nodup_append] at h
  obtain ⟨-, ha, hne⟩ := h
  refine ⟨fun hmem => ?_, (List.nodup_cons.mp ha).1⟩
  exact hne a hmem a (by simp) rfl

theorem pushFront [DecidableEq α] (h : Linked prev next l) (ha : a ∉ l)
    (hnext : ∀ b ∈ l, next' b = next b)
    (hprev : ∀ b ∈ l, prev' b = if l.head? = some b then some a else prev b)
    (hfront : next' a = l.head? ∧ prev' a = none) : Linked prev' next' (a :: l) where
  nodup := List.nodup_cons.mpr ⟨ha, h.nodup⟩
  next := by
    intro newer b older hl
    cases newer with
    | nil =>
      obtain ⟨rfl, rfl⟩ := List.cons.inj hl
      exact hfront.1
    | cons c newer =>
      rw [List.cons_append, List.cons.injEq] at hl
      obtain ⟨rfl, hl⟩ := hl
      rw [hnext b (by simp [hl]), h.next hl]
  prev := by
    intro newer b older hl
    cases newer with
    | nil =>
      obtain ⟨rfl, rfl⟩ := List.cons.inj hl
      exact hfront.2
    | cons c newer =>
      rw [List.cons_append, List.cons.injEq] at hl
      obtain ⟨rfl, hl⟩ := hl
      rw [hprev b (by simp [hl])]
      cases newer with
      | nil => simp [hl]
      | cons d newer =>
        have hb := (ne_of_split h.nodup hl).1
        have hne : l.head? ≠ some b := by
          rw [hl]
          rintro heq
          obtain rfl := Option.some.inj heq
          exact hb (by simp)
        rw [if_neg hne, h.prev hl, List.getLast?_cons_cons]

theorem next_iff_prev (h : Linked prev next l) (ha : a ∈ l) (hb : b ∈ l) :
    next a = some b ↔ prev b = some a := by
  constructor
  · intro hnext
    obtain ⟨newer, older, hl⟩ := List.append_of_mem ha
    rw [h.next hl] at hnext
    obtain ⟨older, rfl⟩ := List.head?_eq_some_iff.mp hnext
    have hsplit : l = (newer ++ [a]) ++ b :: older := by simpa using hl
    rw [h.prev hsplit, List.getLast?_concat]
  · intro hprev
    obtain ⟨newer, older, hl⟩ := List.append_of_mem hb
    rw [h.prev hl] at hprev
    obtain ⟨newer, rfl⟩ := List.getLast?_eq_some_iff.mp hprev
    have hsplit : l = newer ++ a :: b :: older := by simpa using hl
    rw [h.next hsplit, List.head?_cons]

theorem unlink [DecidableEq α] (h : Linked prev next (newer ++ a :: older))
    (hnext : ∀ b ∈ newer ++ older, next' b =
      if newer.getLast? = some b then older.head? else next b)
    (hprev : ∀ b ∈ newer ++ older, prev' b =
      if older.head? = some b then newer.getLast? else prev b) :
    Linked prev' next' (newer ++ older) where
  nodup := h.nodup.sublist (by simp)
  next := by
    intro newer' b older' hl
    rw [hnext b (by simp [hl])]
    rcases List.append_eq_append_iff.mp hl with ⟨mid, rfl, rfl⟩ | ⟨mid, rfl, hmid⟩
    · have hsplit : newer ++ a :: (mid ++ b :: older') = (newer ++ a :: mid) ++ b :: older' := by simp
      have hb := (ne_of_split h.nodup hsplit).1
      rw [if_neg, h.next hsplit]
      intro heq
      exact hb (List.mem_append_left _ (List.mem_of_getLast? heq))
    · cases mid with
      | nil =>
        simp only [List.nil_append] at hmid
        subst hmid
        have hsplit : newer' ++ [] ++ a :: b :: older' = (newer' ++ [a]) ++ b :: older' := by simp
        have hb := (ne_of_split h.nodup hsplit).1
        rw [if_neg, h.next hsplit]
        intro heq
        exact hb (List.mem_append_left _ (by simpa using List.mem_of_getLast? heq))
      | cons c mid =>
        obtain ⟨rfl, rfl⟩ := List.cons.inj hmid
        have hsplit : newer' ++ b :: mid ++ a :: older = newer' ++ b :: (mid ++ a :: older) := by simp
        cases mid with
        | nil => simp
        | cons c mid =>
          have hb := (ne_of_split h.nodup hsplit).2
          rw [if_neg, h.next hsplit]
          · rfl
          · intro heq
            rw [List.getLast?_append_of_ne_nil _ (by simp), List.getLast?_cons_cons] at heq
            exact hb (List.mem_append_left _ (List.mem_of_getLast? heq))
  prev := by
    intro newer' b older' hl
    rw [hprev b (by simp [hl])]
    rcases List.append_eq_append_iff.mp hl with ⟨mid, rfl, rfl⟩ | ⟨mid, rfl, hmid⟩
    · have hsplit : newer ++ a :: (mid ++ b :: older') = (newer ++ a :: mid) ++ b :: older' := by simp
      cases mid with
      | nil => simp
      | cons c mid =>
        have hb := (ne_of_split h.nodup hsplit).1
        rw [if_neg, h.prev hsplit]
        · rw [List.getLast?_append_of_ne_nil _ (by simp), List.getLast?_append_of_ne_nil _ (by simp),
            List.getLast?_cons_cons]
        · rintro heq
          obtain rfl := Option.some.inj heq
          exact hb (by simp)
    · cases mid with
      | nil =>
        simp only [List.nil_append] at hmid
        subst hmid
        simp
      | cons c mid =>
        obtain ⟨rfl, rfl⟩ := List.cons.inj hmid
        have hsplit : newer' ++ b :: mid ++ a :: older = newer' ++ b :: (mid ++ a :: older) := by simp
        have hb := (ne_of_split h.nodup hsplit).2
        rw [if_neg, h.prev hsplit]
        intro heq
        exact hb (List.mem_append_right _ (by simp [List.mem_of_head? heq]))

end Linked

def walk (next : α → Option α) : ℕ → Option α → Option (List α)
  | _, none => some []
  | 0, some _ => none
  | n + 1, some a => (walk next n (next a)).map (a :: ·)

def Path (next : α → Option α) (l : List α) : Prop :=
  ∀ {newer a older}, l = newer ++ a :: older → next a = older.head?

theorem Path.tail {l : List α} (h : Path next (a :: l)) : next a = l.head? ∧ Path next l := by
  have hfront : a :: l = [] ++ a :: l := rfl
  refine ⟨h hfront, ?_⟩
  intro newer b older hl
  have hcons : a :: l = (a :: newer) ++ b :: older := by
    rw [hl]
    rfl
  exact h hcons

theorem walk_path {l : List α} (h : Path next l) (n : ℕ) :
    walk next (l.length + n) l.head? = some l := by
  induction l with
  | nil => cases n <;> rfl
  | cons a l ih =>
    obtain ⟨hnext, htail⟩ := h.tail
    rw [List.length_cons, Nat.add_right_comm, List.head?_cons, walk, hnext, ih htail]
    rfl

theorem Path.eq_of_head {l l' : List α} (h : Path next l) (h' : Path next l')
    (hhead : l.head? = l'.head?) : l = l' := by
  induction l generalizing l' with
  | nil => exact (List.head?_eq_none_iff.mp hhead.symm).symm
  | cons a l ih =>
    obtain ⟨rest, rfl⟩ := List.head?_eq_some_iff.mp hhead.symm
    obtain ⟨hnext, htail⟩ := h.tail
    obtain ⟨hnext', htail'⟩ := h'.tail
    rw [ih htail htail' (hnext.symm.trans hnext')]

theorem Path.cons {l : List α} (h : Path next l) (hnext : next a = l.head?) :
    Path next (a :: l) := by
  intro newer b older hl
  cases newer with
  | nil =>
    obtain ⟨rfl, rfl⟩ := List.cons.inj hl
    exact hnext
  | cons c newer => exact h (List.cons.inj hl).2

theorem Path.congr {next' : α → Option α} {l : List α} (h : Path next l)
    (hnext : ∀ a ∈ l, next' a = next a) : Path next' l := by
  intro newer a older hl
  rw [hnext a (by rw [hl]; simp)]
  exact h hl

theorem Linked.path (h : Linked prev next l) : Path next l := h.next

theorem Linked.path_prev (newer older : List α) (h : Linked prev next (newer ++ older)) :
    Path prev newer.reverse := by
  intro newer' a older' hl
  have hsplit : newer ++ older = older'.reverse ++ a :: (newer'.reverse ++ older) := by
    rw [← List.reverse_reverse newer, hl]
    simp
  rw [h.prev hsplit, List.getLast?_reverse]

end DoublyLinked
