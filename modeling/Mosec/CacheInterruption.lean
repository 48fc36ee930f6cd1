import Mosec.CacheStatements
import Mosec.SieveEviction

namespace Mosec.SieveCache

open DoublyLinked (Path Linked)
open Program (Interruptible)
open Program.Interruptible (lift current assign assignWhen boundary Upon Ends)

variable {K V α : Type} [DecidableEq K] {c : SieveCache K V} {order newer older l : List ℕ}
  {a : ℕ} {k : K} {v : V} {strike : CachePoint}

def Consistent (c : SieveCache K V) : Prop := ∃ order, Links c order

structure Cut (c : SieveCache K V) (l : List ℕ) (k : K) (a : ℕ) : Prop where
  path : Path c.next l
  head : c.head = l.head?
  mapped : c.map.lookup k = some a
  out : a ∉ l

structure Grown (c : SieveCache K V) (l : List ℕ) (a : ℕ) : Prop where
  path : Path c.next l
  head : c.head = l.head?
  inside : a ∈ l
  unmapped : ∀ k, c.map.lookup k ≠ some a

theorem Links.eq_of_path (h : Links c order) (hpath : Path c.next l) (hhead : c.head = l.head?) :
    order = l :=
  Path.eq_of_head h.linked.path hpath (h.head.symm.trans hhead)

theorem Cut.not_consistent (h : Cut c l k a) : ¬ Consistent c := by
  rintro ⟨order, hlinks⟩
  obtain rfl := hlinks.eq_of_path h.path h.head
  exact h.out (hlinks.lookup.mp h.mapped).1

theorem Grown.not_consistent (h : Grown c l a) : ¬ Consistent c := by
  rintro ⟨order, hlinks⟩
  obtain rfl := hlinks.eq_of_path h.path h.head
  obtain ⟨k, hk⟩ := Option.isSome_iff_exists.mp (hlinks.key h.inside)
  exact h.unmapped k (hlinks.lookup.mpr ⟨h.inside, hk⟩)

theorem not_consistent_of_back (hhead : c.head = some a) (hprev : c.prev a ≠ none) :
    ¬ Consistent c := by
  rintro ⟨order, hlinks⟩
  obtain ⟨older, rfl⟩ := List.head?_eq_some_iff.mp (hlinks.head.symm.trans hhead)
  have hfront : a :: older = [] ++ a :: older := rfl
  exact hprev (hlinks.linked.prev hfront)

/-- What an interruption leaves: a consistent cache exactly outside the torn places. -/
def Left (strike : CachePoint) (c : SieveCache K V) : Prop := Consistent c ↔ strike.torn = false

theorem left_of_consistent {p : CachePoint} (hp : p.torn = false) (h : Consistent c)
    (hs : p = strike) : Left strike c := by
  subst hs
  exact iff_of_true h hp

theorem left_of_not {p : CachePoint} (hp : p.torn = true) (h : ¬ Consistent c) (hs : p = strike) :
    Left strike c := by
  subst hs
  exact iff_of_false h (by rw [hp]; exact Bool.noConfusion)

omit [DecidableEq K] in
theorem found_some_bind {β : Type} (b : α) (f : α → Statements K V β) :
    (lift (found (some b)) >>= f) = f b := rfl

section Unlink

theorem Cut.setNextOf (h : Links c (newer ++ a :: older)) (hk : c.key a = some k) :
    Cut (c.setNextOf (c.prev a) (c.next a)) (newer ++ older) k a := by
  obtain ⟨hprev, hnext, -, -⟩ := h.neighbours
  obtain ⟨hnewer, holder⟩ := Linked.ne_of_split h.linked.nodup rfl
  have hlinked : Linked (fun b => if older.head? = some b then newer.getLast? else c.prev b)
      (c.setNextOf (c.prev a) (c.next a)).next (newer ++ older) := by
    apply h.linked.unlink
    · intro b _
      rw [setNextOf_next, hprev, hnext]
    · intro b _
      rfl
  constructor
  · exact hlinked.path
  · rw [setNextOf_head, hprev, hnext, h.head]
    cases newer <;> simp
  · rw [(setNextOf_fields c _ _).1]
    exact h.lookup.mpr ⟨by simp, hk⟩
  · rw [List.mem_append]
    exact fun hmem => hmem.elim hnewer holder

theorem Cut.setPrevOf (h : Cut c l k a) (p q : Option ℕ) : Cut (c.setPrevOf p q) l k a := by
  obtain ⟨hmap, -, -, -, -, -, hnext, hhead, -⟩ := setPrevOf_fields c p q
  exact ⟨hnext ▸ h.path, hhead.trans h.head, hmap ▸ h.mapped, h.out⟩

theorem Cut.setHand (h : Cut c l k a) (p : Option ℕ) : Cut { c with hand := p } l k a :=
  ⟨h.path, h.head, h.mapped, h.out⟩

theorem Cut.setPrev (h : Cut c l k a) (b : ℕ) (p : Option ℕ) : Cut (c.setPrev b p) l k a :=
  ⟨h.path, h.head, h.mapped, h.out⟩

theorem Cut.setNext (h : Cut c l k a) (p : Option ℕ) : Cut (c.setNext a p) l k a := by
  refine ⟨Path.congr h.path fun b hb => ?_, h.head, h.mapped, h.out⟩
  have hne : b ≠ a := by
    rintro rfl
    exact h.out hb
  exact Function.update_of_ne hne ..

theorem unlinkSteps_upon (h : Links c (newer ++ a :: older)) (hk : c.key a = some k) :
    Upon (fun s => s = c) (unlinkSteps strike a) (fun _ s => s = c.unlink a) (Left strike) := by
  have hcut₁ := Cut.setNextOf h hk
  apply Upon.bind _ (Upon.assign_eq (left_of_not rfl hcut₁.not_consistent))
  rintro -
  have hcut₂ := hcut₁.setPrevOf ((c.setNextOf (c.prev a) (c.next a)).next a)
    ((c.setNextOf (c.prev a) (c.next a)).prev a)
  apply Upon.bind _ (Upon.assign_eq (left_of_not rfl hcut₂.not_consistent))
  rintro -
  generalize hc₂ : (c.setNextOf (c.prev a) (c.next a)).setPrevOf
    ((c.setNextOf (c.prev a) (c.next a)).next a)
    ((c.setNextOf (c.prev a) (c.next a)).prev a) = c₂ at hcut₂
  have hcut₃ : Cut (if c₂.hand = some a then { c₂ with hand := c₂.prev a } else c₂)
      (newer ++ older) k a := by
    split
    · exact hcut₂.setHand _
    · exact hcut₂
  have hunlink : c.unlink a =
      ((if c₂.hand = some a then { c₂ with hand := c₂.prev a } else c₂).setPrev a none).setNext a
        none := by
    rw [← hc₂]
    rfl
  rw [hunlink]
  apply Upon.bind _ (Upon.assignWhen_eq fun _ => left_of_not rfl (hcut₂.setHand _).not_consistent)
  rintro -
  have hcut₄ := hcut₃.setPrev a none
  apply Upon.bind _ (Upon.assign_eq (left_of_not rfl hcut₄.not_consistent))
  rintro -
  exact Upon.assign_eq (left_of_not rfl (hcut₄.setNext none).not_consistent)

theorem takeOutSteps_upon (h : Links c (newer ++ a :: older)) :
    Upon (fun s => s = c) (takeOutSteps strike a)
      (fun _ s => ∃ k, s = ({ c with hand := newer.getLast? } : SieveCache K V).drop a k ∧
        Links s (newer ++ older)) (Left strike) := by
  obtain ⟨k, hk⟩ := Option.isSome_iff_exists.mp (h.key (a := a) (by simp))
  obtain ⟨v, hv⟩ := Option.isSome_iff_exists.mp (h.value (a := a) (by simp))
  have hmoved := h.setHand (p := newer.getLast?)
    (fun hb => List.mem_append_left _ (List.mem_of_getLast? hb))
  have hdrop := hmoved.drop hk
  apply Upon.bind fun _ s => s = ({ c with hand := newer.getLast? } : SieveCache K V)
  · rw [← h.neighbours.1]
    rw [← h.neighbours.1] at hmoved
    exact Upon.assign_eq (left_of_consistent rfl ⟨_, hmoved⟩)
  rintro -
  apply Upon.bind _ (unlinkSteps_upon hmoved hk)
  rintro -
  apply Upon.get_bind
  intro c' hc'
  obtain ⟨-, hmap, hkey, hvalue, -, -⟩ := unlink_frame { c with hand := newer.getLast? } a
  have hin : k ∈ c.map := AList.lookup_isSome.mp (by rw [h.lookup.mpr ⟨by simp, hk⟩]; rfl)
  have hk' : c'.key a = some k := by rw [hc', hkey, hk]
  have hv' : c'.value a = some v := by rw [hc', hvalue, hv]
  have hdel : c'.del k = some (({ c with hand := newer.getLast? } : SieveCache K V).drop a k) := by
    rw [SieveCache.del, if_pos (by rw [hc', hmap]; exact hin), hc', hmap]
    rfl
  rw [hk', hv', found_some_bind, found_some_bind, hdel, found_some_bind]
  apply Upon.bind _ (Upon.assign_eq (left_of_consistent rfl ⟨_, hdrop⟩))
  rintro -
  apply Upon.pure
  rintro _ rfl
  exact ⟨k, rfl, hdrop⟩

end Unlink

def Roomy (M : K → Prop) (c : SieveCache K V) : Prop :=
  (∃ order, Links c order ∧ order.length < c.maxSize) ∧ ∀ k ∈ c.map, M k

theorem scanSteps_upon {M : K → Prop} (n : ℕ) (victim : Option ℕ) :
    Upon (fun s => (∃ order, Links s order ∧ ∀ a, victim = some a → a ∈ order) ∧ ∀ k ∈ s.map, M k)
      (scanSteps strike n victim : Statements K V _) (fun _ => Roomy M) (Left strike) := by
  induction n generalizing victim with
  | zero => exact Upon.lift fun _ _ => trivial
  | succ n ih =>
    cases victim with
    | none =>
      apply Upon.bind fun _ s => (∃ order, Links s order ∧ s.hand = s.tail) ∧ ∀ k ∈ s.map, M k
      · apply Upon.assign
        · rintro s ⟨⟨order, h, -⟩, hM⟩
          exact ⟨⟨order, h.setHand fun hb => List.mem_of_getLast? (h.tail.symm.trans hb), rfl⟩, hM⟩
        · rintro s ⟨⟨order, h, -⟩, -⟩
          exact left_of_consistent rfl ⟨order, h⟩
      rintro -
      apply Upon.get_bind
      rintro s ⟨⟨order, h, hhand⟩, hM⟩
      apply (ih s.tail).weaken ?_ fun _ _ h => h
      rintro _ rfl
      exact ⟨⟨order, h, fun a ha => List.mem_of_getLast? (h.tail.symm.trans ha)⟩, hM⟩
    | some a =>
      apply Upon.get_bind
      rintro s ⟨⟨order, h, hvictim⟩, hM⟩
      obtain ⟨newer, older, rfl⟩ := List.append_of_mem (hvictim a rfl)
      apply Upon.ite
      · intro _
        have hcleared := h.setVisited a false
        apply Upon.bind _ (Upon.assign_eq (left_of_consistent rfl ⟨_, hcleared⟩))
        rintro -
        apply (ih (s.prev a)).weaken ?_ fun _ _ h => h
        rintro _ rfl
        refine ⟨⟨_, hcleared, fun b hb => ?_⟩, hM⟩
        rw [h.neighbours.1] at hb
        exact List.mem_append_left _ (List.mem_of_getLast? hb)
      · intro _
        apply (takeOutSteps_upon h).weaken (fun _ hs => hs)
        rintro - s' ⟨k, rfl, h'⟩
        refine ⟨⟨_, h', ?_⟩, fun k' hk' => hM k' ?_⟩
        · have hbound := h.bound
          have hmax := (unlink_frame { s with hand := newer.getLast? } a).1
          change _ < (unlink _ a).maxSize
          rw [hmax]
          change _ < s.maxSize
          rw [List.length_append, List.length_cons] at hbound
          rw [List.length_append]
          omega
        · change k' ∈ s.map.erase k at hk'
          exact (AList.mem_erase.mp hk').2

theorem evictCoreSteps_upon {M : K → Prop} :
    Upon (fun s => Consistent s ∧ ∀ k ∈ s.map, M k) (evictCoreSteps strike : Statements K V _)
      (fun _ => Roomy M) (Left strike) := by
  apply Upon.get_bind
  rintro c ⟨⟨order, h⟩, hM⟩
  apply Upon.ite
  · intro hempty
    have hroom : order.length < c.maxSize := by
      have hpos := c.maxSize_pos
      rw [h.size] at hempty
      omega
    apply Upon.pure
    rintro _ rfl
    exact ⟨⟨order, h, hroom⟩, hM⟩
  · intro _
    have hstart : Links (if c.hand = none then { c with hand := c.tail } else c) order := by
      split
      · exact h.setHand fun hb => List.mem_of_getLast? (h.tail.symm.trans hb)
      · exact h
    apply Upon.bind _ (Upon.assignWhen_eq fun hhand => left_of_consistent rfl ⟨order, ?_⟩)
    · rintro -
      apply Upon.get_bind
      rintro c' rfl
      apply (scanSteps_upon _ _).weaken ?_ fun _ _ h => h
      rintro _ rfl
      refine ⟨⟨order, hstart, fun a ha => hstart.hand ha⟩, ?_⟩
      split <;> exact hM
    · rwa [if_pos hhand] at hstart

theorem evictSteps_upon : Upon Consistent (evictSteps strike : Statements K V _)
    (fun _ => Consistent) (Left strike) := by
  apply Upon.get_bind
  rintro c hc
  apply Upon.ite
  · intro _
    exact Upon.pure _ fun _ h => h ▸ hc
  · intro _
    apply (evictCoreSteps_upon (M := fun _ => True)).weaken
      (fun _ h => h ▸ ⟨hc, fun _ _ => trivial⟩)
    rintro - s ⟨⟨order, h, -⟩, -⟩
    exact ⟨order, h⟩

section Push

theorem Links.outside (h : Links c order) {c' : SieveCache K V}
    (hprev : ∀ b ∈ order, c'.prev b = c.prev b) (hnext : ∀ b ∈ order, c'.next b = c.next b)
    (hkey : ∀ b ∈ order, c'.key b = c.key b) (hvalue : ∀ b ∈ order, c'.value b = c.value b)
    (hfields : c'.maxSize = c.maxSize ∧ c'.map = c.map ∧ c'.head = c.head ∧ c'.tail = c.tail ∧
      c'.hand = c.hand ∧ c.fresh ≤ c'.fresh) : Links c' order := by
  obtain ⟨hmax, hmap, hhead, htail, hhand, hfresh⟩ := hfields
  constructor
  · exact h.linked.congr hprev hnext
  · rw [hhead, h.head]
  · rw [htail, h.tail]
  · intro k b
    rw [hmap, h.lookup]
    exact and_congr_right fun hb => by rw [hkey b hb]
  · rw [SieveCache.len, hmap]
    exact h.size
  · intro b hb
    exact h.hand (hhand ▸ hb)
  · intro b hb
    exact (h.fresh hb).trans_le hfresh
  · intro b hb
    rw [hkey b hb]
    exact h.key hb
  · intro b hb
    rw [hvalue b hb]
    exact h.value hb
  · rw [hmax]
    exact h.bound

theorem Grown.of_push (h : Links c order) {c' : SieveCache K V} (hmap : c'.map = c.map)
    (hhead : c'.head = some c.fresh)
    (hnext : ∀ b, c'.next b = if b = c.fresh then c.head else c.next b) :
    Grown c' (c.fresh :: order) c.fresh := by
  have hnew : c.fresh ∉ order := fun hmem => (h.fresh hmem).false
  constructor
  · apply Path.cons
    · apply Path.congr h.linked.path
      intro b hb
      have hne : b ≠ c.fresh := by
        rintro rfl
        exact hnew hb
      rw [hnext, if_neg hne]
    · rw [hnext, if_pos rfl, h.head]
  · exact hhead
  · exact List.mem_cons_self ..
  · intro k hk
    rw [hmap] at hk
    exact hnew (h.lookup.mp hk).1

theorem Links.newNode (h : Links c order) (k : K) (v : V) : Links (c.newNode k v) order := by
  have hold : ∀ b ∈ order, b ≠ c.fresh := by
    rintro b hb rfl
    exact (h.fresh hb).false
  exact h.outside (fun b hb => Function.update_of_ne (hold b hb) ..)
    (fun b hb => Function.update_of_ne (hold b hb) ..)
    (fun b hb => Function.update_of_ne (hold b hb) ..)
    (fun b hb => Function.update_of_ne (hold b hb) ..)
    ⟨rfl, rfl, rfl, rfl, rfl, Nat.le_succ _⟩

theorem Links.setPrev (h : Links c order) (ha : a ∉ order) (p : Option ℕ) :
    Links (c.setPrev a p) order := by
  have hold : ∀ b ∈ order, b ≠ a := fun b hb heq => ha (heq ▸ hb)
  exact h.outside (fun b hb => Function.update_of_ne (hold b hb) ..) (fun _ _ => rfl)
    (fun _ _ => rfl) (fun _ _ => rfl) ⟨rfl, rfl, rfl, rfl, rfl, le_rfl⟩

theorem Links.setNext (h : Links c order) (ha : a ∉ order) (p : Option ℕ) :
    Links (c.setNext a p) order := by
  have hold : ∀ b ∈ order, b ≠ a := fun b hb heq => ha (heq ▸ hb)
  exact h.outside (fun _ _ => rfl) (fun b hb => Function.update_of_ne (hold b hb) ..)
    (fun _ _ => rfl) (fun _ _ => rfl) ⟨rfl, rfl, rfl, rfl, rfl, le_rfl⟩

theorem pushHeadSteps_upon (h : Links c order) :
    Upon (fun s => s = c.newNode k v) (pushHeadSteps strike c.fresh)
      (fun _ s => s = (c.newNode k v).pushHead c.fresh) (Left strike) := by
  have hnew : c.fresh ∉ order := fun hmem => (h.fresh hmem).false
  have hlinks₁ := (h.newNode k v).setPrev hnew none
  have hlinks₂ := hlinks₁.setNext hnew ((c.newNode k v).setPrev c.fresh none).head
  apply Upon.bind _ (Upon.assign_eq (left_of_consistent rfl ⟨order, hlinks₁⟩))
  rintro -
  apply Upon.bind _ (Upon.assign_eq (left_of_consistent rfl ⟨order, hlinks₂⟩))
  rintro -
  apply Upon.bind _ (Upon.assignWhen_eq fun hhead => left_of_not rfl ?_)
  · rintro -
    have hgrown : ∀ tail : Option ℕ, Grown
        ({ (if ((c.newNode k v).setPrev c.fresh none).head ≠ none then
              (((c.newNode k v).setPrev c.fresh none).setNext c.fresh c.head).setPrevOf c.head
                (some c.fresh)
            else ((c.newNode k v).setPrev c.fresh none).setNext c.fresh c.head) with
          head := some c.fresh, tail := tail } : SieveCache K V) (c.fresh :: order) c.fresh := by
      intro tail
      apply Grown.of_push h
      · split <;> simp [setNext, SieveCache.setPrev, SieveCache.newNode]
      · rfl
      · intro b
        by_cases hb : b = c.fresh <;> split <;>
          simp [hb, setNext, SieveCache.setPrev, SieveCache.newNode]
    apply Upon.bind _ (Upon.assign_eq (left_of_not rfl (hgrown _).not_consistent))
    rintro -
    exact Upon.assignWhen_eq fun _ => left_of_not rfl (hgrown _).not_consistent
  · obtain ⟨b, hb⟩ := Option.ne_none_iff_exists'.mp hhead
    apply not_consistent_of_back (a := b)
    · rw [(setPrevOf_fields _ _ _).2.2.2.2.2.2.2.1]
      exact hb
    · rw [setPrevOf_prev, if_pos hb]
      exact Option.some_ne_none _

end Push

theorem putSteps_upon (k : K) (v : V) : Upon Consistent (putSteps strike k v : Statements K V _)
    (fun _ => Consistent) (Left strike) := by
  apply Upon.get_bind
  rintro c ⟨order, h⟩
  cases hlookup : c.map.lookup k with
  | some node =>
    have hvalue := h.setValue node v
    apply Upon.bind _ (Upon.assign_eq (left_of_consistent rfl ⟨order, hvalue⟩))
    rintro -
    have hvisited := hvalue.setVisited node true
    apply Upon.bind _ (Upon.assign_eq (left_of_consistent rfl ⟨order, hvisited⟩))
    rintro -
    exact Upon.pure _ fun _ hs => hs ▸ ⟨order, hvisited⟩
  | none =>
    have hmiss : k ∉ c.map := AList.lookup_eq_none.mp hlookup
    apply Upon.bind fun _ => Roomy fun k' => k' ≠ k
    · have hold : ∀ k' ∈ c.map, k' ≠ k := by
        rintro k' hk' rfl
        exact hmiss hk'
      apply Upon.ite
      · intro _
        exact evictCoreSteps_upon.weaken (fun _ hs => hs ▸ ⟨⟨order, h⟩, hold⟩) fun _ _ hs => hs
      · intro hroom
        rw [h.size] at hroom
        exact Upon.pure _ fun _ hs => hs ▸ ⟨⟨order, h, by omega⟩, hold⟩
    intro evicted
    apply Upon.get_bind
    rintro c' ⟨⟨order', h', hlt⟩, hkeys⟩
    have hmiss' : k ∉ c'.map := fun hmem => hkeys k hmem rfl
    apply Upon.bind _ (Upon.assign_eq (left_of_consistent rfl ⟨order', h'.newNode k v⟩))
    rintro -
    apply Upon.bind _ (pushHeadSteps_upon h')
    rintro -
    have hstored := h'.setNew v hmiss' hlt
    apply Upon.bind _ (Upon.assign_eq (left_of_consistent rfl ⟨_, hstored⟩))
    rintro -
    exact Upon.pure _ fun _ hs => hs ▸ ⟨_, hstored⟩

theorem getSteps_upon (k : K) : Upon Consistent (getSteps strike k : Statements K V _)
    (fun _ => Consistent) (Left strike) := by
  apply Upon.get_bind
  rintro c ⟨order, h⟩
  cases hlookup : c.map.lookup k with
  | none => exact Upon.pure _ fun _ hs => hs ▸ ⟨order, h⟩
  | some node =>
    have hvisited := h.setVisited node true
    apply Upon.bind _ (Upon.assign_eq (left_of_consistent rfl ⟨order, hvisited⟩))
    rintro -
    apply Upon.get_bind
    rintro _ rfl
    exact Upon.pure _ fun _ hs => hs ▸ ⟨order, hvisited⟩

section Ends

omit [DecidableEq K] in
theorem unlinkSteps_ends (c : SieveCache K V) (a : ℕ) :
    Ends (unlinkSteps strike a) c (.ok ()) (c.unlink a) :=
  (Ends.assign ..).bind <| (Ends.assign ..).bind <| (Ends.assignWhen ..).bind <|
    (Ends.assign ..).bind (.assign ..)

omit [DecidableEq K] in
theorem pushHeadSteps_ends (c : SieveCache K V) (a : ℕ) :
    Ends (pushHeadSteps strike a) c (.ok ()) (c.pushHead a) :=
  (Ends.assign ..).bind <| (Ends.assign ..).bind <| (Ends.assignWhen ..).bind <|
    (Ends.assign ..).bind (.assignWhen ..)

theorem takeOutSteps_ends {c' : SieveCache K V} {r : Option (K × V)}
    (h : c.takeOut a = some (c', r)) : Ends (takeOutSteps strike a) c (.ok r) c' := by
  apply (Ends.assign ..).bind
  apply (unlinkSteps_ends ..).bind
  apply (Ends.current _).bind
  obtain ⟨k, hk, h⟩ := Option.bind_eq_some_iff.mp h
  obtain ⟨v, hv, h⟩ := Option.bind_eq_some_iff.mp h
  obtain ⟨c'', hdel, h⟩ := Option.bind_eq_some_iff.mp h
  cases h
  rw [hk, hv, found_some_bind, found_some_bind, hdel, found_some_bind]
  exact (Ends.assign ..).bind (.pure ..)

theorem scanSteps_ends {n : ℕ} {victim : Option ℕ} {c' : SieveCache K V} {r : Option (K × V)}
    (h : scan n c victim = some (c', r)) : Ends (scanSteps strike n victim) c (.ok r) c' := by
  induction n generalizing c victim with
  | zero => cases h
  | succ n ih =>
    cases victim with
    | none => exact (Ends.assign ..).bind ((Ends.current _).bind (ih h))
    | some a =>
      apply (Ends.current _).bind
      rw [scan] at h
      split_ifs at h ⊢
      · exact (Ends.assign ..).bind (ih h)
      · exact takeOutSteps_ends h

theorem evictCoreSteps_ends {c' : SieveCache K V} {r : Option (K × V)}
    (h : c.evictCore = some (c', r)) : Ends (evictCoreSteps strike) c (.ok r) c' := by
  apply (Ends.current _).bind
  rw [evictCore] at h
  by_cases hempty : c.len = 0
  · rw [if_pos hempty] at h ⊢
    cases h
    exact .pure _ _
  · rw [if_neg hempty] at h ⊢
    apply (Ends.assignWhen ..).bind
    apply (Ends.current _).bind
    apply scanSteps_ends
    split_ifs at h ⊢ <;> exact h

theorem evictSteps_ends {c' : SieveCache K V} {r : Option (K × V)} (h : c.evict = some (c', r)) :
    Ends (evictSteps strike) c (.ok r) c' := by
  apply (Ends.current _).bind
  rw [evict] at h
  by_cases hempty : c.len = 0
  · rw [if_pos hempty] at h ⊢
    cases h
    exact .pure _ _
  · rw [if_neg hempty] at h ⊢
    exact evictCoreSteps_ends h

theorem putSteps_ends {c' : SieveCache K V} {r : Option (K × V)} (h : c.put k v = some (c', r)) :
    Ends (putSteps strike k v) c (.ok r) c' := by
  apply (Ends.current _).bind
  rw [put] at h
  cases hlookup : c.map.lookup k with
  | some node =>
    rw [hlookup] at h
    cases h
    exact (Ends.assign ..).bind ((Ends.assign ..).bind (.pure ..))
  | none =>
    rw [hlookup] at h
    obtain ⟨c'', evicted, hroom, hrest⟩ : ∃ c'' evicted,
        Ends (if c.maxSize ≤ c.len then evictCoreSteps strike else pure none) c (.ok evicted) c'' ∧
        some (c''.setNew k v, evicted) = some (c', r) := by
      by_cases hfull : c.maxSize ≤ c.len
      · simp only [if_pos hfull] at h ⊢
        obtain ⟨⟨c'', evicted⟩, hevicted, h⟩ := Option.bind_eq_some_iff.mp h
        exact ⟨c'', evicted, evictCoreSteps_ends hevicted, h⟩
      · simp only [if_neg hfull] at h ⊢
        exact ⟨c, none, .pure _ _, h⟩
    cases hrest
    apply hroom.bind
    apply (Ends.current _).bind
    apply (Ends.assign ..).bind
    exact (pushHeadSteps_ends ..).bind ((Ends.assign ..).bind (.pure ..))

theorem getSteps_ends (c : SieveCache K V) (k : K) :
    Ends (getSteps strike k) c (.ok (c.get k).2) (c.get k).1 := by
  apply (Ends.current _).bind
  rw [get]
  cases hlookup : c.map.lookup k with
  | none => exact .pure _ _
  | some node => exact (Ends.assign ..).bind ((Ends.current _).bind (.pure ..))

end Ends

end Mosec.SieveCache
