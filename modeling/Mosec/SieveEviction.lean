import Mosec.Sieve
import Mosec.SieveRep

namespace Mosec.SieveCache

open Function (update update_self update_of_ne)
open DoublyLinked (Path)
open Sieve (around pick passed pick_found pick_all)

variable {K V : Type} [DecidableEq K] {c : SieveCache K V}
  {order newer older path pre post : List ℕ} {a : ℕ}

theorem scan_of_le {n m : ℕ} (h : n ≤ m) {victim : Option ℕ}
    {r : SieveCache K V × Option (K × V)} (hscan : scan n c victim = some r) :
    scan m c victim = some r := by
  induction n generalizing m c victim with
  | zero => cases hscan
  | succ n ih =>
    obtain ⟨m, rfl⟩ := Nat.exists_eq_add_one.mpr (show 0 < m by omega)
    have hle : n ≤ m := by omega
    cases victim with
    | none => exact ih hle hscan
    | some node =>
      rw [scan] at hscan ⊢
      by_cases hvisited : c.visited node
      · rw [if_pos hvisited] at hscan ⊢
        exact ih hle hscan
      · rw [if_neg hvisited] at hscan ⊢
        exact hscan

/-- What the loops of `_evict` did: the nodes they looked at, in order, the times they went back
to the tail, and what they return. -/
structure Scan (K V : Type) where
  inspected : List ℕ
  wraps : ℕ
  outcome : SieveCache K V × Option (K × V)

def Scan.after (path : List ℕ) (wraps : ℕ) (s : Scan K V) : Scan K V :=
  ⟨path ++ s.inspected, wraps + s.wraps, s.outcome⟩

def scanned : ℕ → SieveCache K V → Option ℕ → Option (Scan K V)
  | 0, _, _ => none
  | n + 1, c, none => (scanned n { c with hand := c.tail } c.tail).map (Scan.after [] 1)
  | n + 1, c, some victim =>
    if c.visited victim then
      (scanned n (c.setVisited victim false) (c.prev victim)).map (Scan.after [victim] 0)
    else (c.takeOut victim).map (Scan.mk [victim] 0)

theorem scan_eq_scanned (n : ℕ) (c : SieveCache K V) (victim : Option ℕ) :
    scan n c victim = (scanned n c victim).map Scan.outcome := by
  induction n generalizing c victim with
  | zero => rfl
  | succ n ih =>
    cases victim with
    | none =>
      rw [scan, scanned, ih, Option.map_map]
      rfl
    | some victim =>
      rw [scan, scanned]
      split
      · rw [ih, Option.map_map]
        rfl
      · rw [Option.map_map]
        exact Option.map_id'.symm

omit [DecidableEq K] in
theorem Scan.after_nil (s : Scan K V) : s.after [] 0 = s := by
  rw [Scan.after, List.nil_append, Nat.zero_add]

omit [DecidableEq K] in
theorem Scan.after_after (r : Option (Scan K V)) (n m : ℕ) :
    (r.map (Scan.after pre n)).map (Scan.after path m) =
      r.map (Scan.after (path ++ pre) (m + n)) := by
  rw [Option.map_map]
  congr 1
  funext s
  simp only [Function.comp_apply, Scan.after, List.append_assoc, Nat.add_assoc]

def clear (c : SieveCache K V) (path : List ℕ) : SieveCache K V :=
  { c with visited := fun a => if a ∈ path then false else c.visited a }

omit [DecidableEq K] in
theorem clear_nil : c.clear [] = c := by simp [clear]

omit [DecidableEq K] in
theorem clear_cons : c.clear (a :: path) = (c.setVisited a false).clear path := by
  have hvisited : (fun b => if b ∈ a :: path then false else c.visited b) =
      fun b => if b ∈ path then false else update c.visited a false b := by
    funext b
    by_cases hba : b = a <;> by_cases hb : b ∈ path <;> simp [hba, hb]
  rw [clear, hvisited]
  rfl

omit [DecidableEq K] in
theorem clear_append : c.clear (path ++ pre) = (c.clear path).clear pre := by
  have hvisited : (fun b => if b ∈ path ++ pre then false else c.visited b) =
      fun b => if b ∈ pre then false else if b ∈ path then false else c.visited b := by
    funext b
    by_cases hpath : b ∈ path <;> by_cases hb : b ∈ pre <;> simp [hpath, hb]
  rw [clear, hvisited]
  rfl

theorem Links.clear (h : Links c order) (path : List ℕ) : Links (c.clear path) order :=
  { h with }

theorem Rep.clear (h : Rep c order) (path : List ℕ) : Rep (c.clear path) order :=
  (h.links.clear path).rep h.loose

theorem scanned_pass (hpath : Path c.prev path) (hnodup : path.Nodup)
    (hvisited : ∀ b ∈ path, c.visited b = true) (n : ℕ) :
    scanned (path.length + n) c path.head? =
      (scanned n (c.clear path) none).map (Scan.after path 0) := by
  induction path generalizing c with
  | nil =>
    rw [clear_nil, List.length_nil, Nat.zero_add, List.head?_nil, funext Scan.after_nil]
    exact Option.map_id'.symm
  | cons a path ih =>
    obtain ⟨hprev, htail⟩ := hpath.tail
    obtain ⟨ha, hnodup⟩ := List.nodup_cons.mp hnodup
    have hpath : ∀ b ∈ path, (c.setVisited a false).visited b = true := by
      intro b hb
      have hba : b ≠ a := by
        rintro rfl
        exact ha hb
      have hb' := hvisited b (List.mem_cons_of_mem _ hb)
      rwa [← update_of_ne hba false c.visited] at hb'
    rw [List.length_cons, Nat.add_right_comm, List.head?_cons, scanned,
      if_pos (hvisited a (by simp)), hprev, clear_cons]
    have hrest := ih (c := c.setVisited a false) htail hnodup hpath
    exact (congrArg _ hrest).trans (Scan.after_after _ 0 0)

theorem scanned_found (hpath : Path c.prev (pre ++ a :: post)) (hnodup : (pre ++ a :: post).Nodup)
    (hpre : ∀ b ∈ pre, c.visited b = true) (ha : c.visited a = false) (n : ℕ) :
    scanned (pre.length + (n + 1)) c (pre ++ a :: post).head? =
      ((c.clear pre).takeOut a).map (Scan.mk (pre ++ [a]) 0) := by
  induction pre generalizing c with
  | nil =>
    rw [clear_nil, List.length_nil, Nat.zero_add, List.nil_append, List.head?_cons, scanned, ha]
    rfl
  | cons b pre ih =>
    obtain ⟨hprev, htail⟩ := Path.tail hpath
    obtain ⟨hb, hnodup⟩ := List.nodup_cons.mp hnodup
    have hpre' : ∀ d ∈ pre, (c.setVisited b false).visited d = true := by
      intro d hd
      have hdb : d ≠ b := by
        rintro rfl
        exact hb (List.mem_append_left _ hd)
      have hd' := hpre d (List.mem_cons_of_mem _ hd)
      rwa [← update_of_ne hdb false c.visited] at hd'
    have ha' : (c.setVisited b false).visited a = false := by
      have hab : a ≠ b := by
        rintro rfl
        exact hb (List.mem_append_right _ (by simp))
      rwa [← update_of_ne hab false c.visited] at ha
    rw [List.length_cons, Nat.add_right_comm, List.cons_append, List.head?_cons, scanned,
      if_pos (hpre b (by simp)), hprev, clear_cons]
    have hrest := ih (c := c.setVisited b false) htail hnodup hpre' ha'
    exact (congrArg _ hrest).trans (Option.map_map ..)

theorem scanned_within (hpath : Path c.prev path) (hnodup : path.Nodup)
    (hne : ¬ ∀ b ∈ path, c.visited b = true) {n : ℕ} (hn : (passed c.visited path).length < n) :
    ∃ a, pick c.visited path = some a ∧ scanned n c path.head? =
      ((c.clear (passed c.visited path)).takeOut a).map
        (Scan.mk (passed c.visited path ++ [a]) 0) := by
  obtain ⟨pre, a, post, rfl, hpre, ha⟩ := Sieve.exists_unvisited hne
  obtain ⟨hpick, hpassed⟩ := pick_found c.visited pre post hpre ha
  rw [hpassed] at hn ⊢
  have hfuel : n = pre.length + (n - pre.length - 1 + 1) := by omega
  refine ⟨a, hpick, ?_⟩
  rw [hfuel]
  exact scanned_found hpath hnodup hpre ha _

theorem Links.scanned_eq (h : Links c order) {n : ℕ} (hn : order.take n ≠ []) :
    ∃ a wraps, pick c.visited (around n order) = some a ∧ wraps ≤ 1 ∧
      scanned (order.length + 2) c (order.take n).reverse.head? =
        ((c.clear (passed c.visited (around n order))).takeOut a).map
          (Scan.mk (passed c.visited (around n order) ++ [a]) wraps) := by
  have hsplit := List.take_append_drop n order
  have hlength : (order.take n).length + (order.drop n).length = order.length := by
    rw [← List.length_append, hsplit]
  have hback : (order.drop n).reverse ++ (order.take n).reverse = order.reverse := by
    rw [← List.reverse_append, hsplit]
  have hfirst : Path c.prev (order.take n).reverse :=
    DoublyLinked.Linked.path_prev _ (order.drop n) (hsplit.symm ▸ h.linked)
  have hsecond : Path c.prev ((order.drop n).reverse ++ (order.take n).reverse) := by
    rw [hback]
    exact DoublyLinked.Linked.path_prev _ [] (by simpa using h.linked)
  have hnodup : ((order.drop n).reverse ++ (order.take n).reverse).Nodup := by
    rw [hback]
    exact List.nodup_reverse.mpr h.linked.nodup
  obtain ⟨-, hnodup', hdisjoint⟩ := List.nodup_append.mp hnodup
  rw [around]
  by_cases hall : ∀ b ∈ (order.take n).reverse, c.visited b = true
  · have hne : (order.take n).reverse ≠ [] := List.reverse_ne_nil_iff.mpr hn
    have hunvisited : ¬ ∀ b ∈ (order.drop n).reverse ++ (order.take n).reverse,
        (c.clear (order.take n).reverse).visited b = true := by
      obtain ⟨b, hb⟩ := List.exists_mem_of_ne_nil _ hne
      intro hvisited
      have hb' := hvisited b (List.mem_append_right _ hb)
      simp only [SieveCache.clear, if_pos hb, Bool.false_eq_true] at hb'
    obtain ⟨hpick, hpassed, hlen⟩ := Sieve.pick_wrap c.visited
      (c.clear (order.take n).reverse).visited hne hall (fun b hb => if_pos hb)
      fun b (hb : b ∈ (order.drop n).reverse) => if_neg fun hb' => hdisjoint b hb b hb' rfl
    rw [List.length_reverse] at hlen
    obtain ⟨a, ha, hscan⟩ := scanned_within
      (c := { c.clear (order.take n).reverse with hand := c.tail }) hsecond hnodup hunvisited
      (Nat.lt_succ_of_le hlen)
    have htail : c.tail = ((order.drop n).reverse ++ (order.take n).reverse).head? := by
      rw [hback, List.head?_reverse]
      exact h.tail
    have hfuel : order.length + 2 = (order.take n).reverse.length +
        ((order.drop n).length + 1 + 1) := by
      rw [List.length_reverse]
      omega
    refine ⟨a, 1, hpick.symm.trans ha, le_rfl, ?_⟩
    rw [← htail] at hscan
    rw [hfuel, scanned_pass hfirst hnodup' hall, scanned, Scan.after_after, ← hpassed,
      clear_append]
    refine (congrArg _ hscan).trans ?_
    rw [Option.map_map, List.append_assoc, List.append_nil]
    rfl
  · have hlen : (passed c.visited (order.take n).reverse).length < order.length + 2 := by
      have hle := (List.takeWhile_sublist c.visited (l := (order.take n).reverse)).length_le
      rw [List.length_reverse] at hle
      rw [passed]
      omega
    obtain ⟨a, hpick, hscan⟩ := scanned_within hfirst hnodup' hall hlen
    obtain ⟨hpick', hpassed'⟩ := Sieve.pick_append c.visited hall (order.drop n).reverse
    refine ⟨a, 0, hpick'.trans hpick, Nat.zero_le 1, ?_⟩
    rw [hpassed']
    exact hscan

def evictScan (c : SieveCache K V) : Option (Scan K V) :=
  let c := if c.hand = none then { c with hand := c.tail } else c
  scanned (c.len + 2) c c.hand

theorem evictCore_eq_scan (h : c.len ≠ 0) : c.evictCore = c.evictScan.map Scan.outcome := by
  rw [evictCore, if_neg h]
  exact scan_eq_scanned _ _ _

theorem Links.evictScan_eq (h : Links c order) {n : ℕ} (hn : order.take n ≠ [])
    (hhand : c.hand.or c.tail = (order.take n).getLast?) :
    ∃ a wraps, pick c.visited (around n order) = some a ∧ wraps ≤ 1 ∧
      c.evictScan = ((c.clear (passed c.visited (around n order))).takeOut a).map
        (Scan.mk (passed c.visited (around n order) ++ [a]) wraps) := by
  rw [evictScan]
  cases hc : c.hand with
  | some node =>
    obtain ⟨a, wraps, hpick, hwraps, hscan⟩ := h.scanned_eq hn
    rw [List.head?_reverse, ← hhand, hc] at hscan
    refine ⟨a, wraps, hpick, hwraps, ?_⟩
    simp only [hc, reduceCtorEq, if_false]
    rw [h.size]
    exact hscan
  | none =>
    rw [hc] at hhand
    have htail : ∀ {b}, c.tail = some b → b ∈ order := by
      intro b hb
      rw [h.tail] at hb
      exact List.mem_of_getLast? hb
    obtain ⟨a, wraps, hpick, hwraps, hscan⟩ := (h.setHand htail).scanned_eq hn
    rw [List.head?_reverse, ← hhand] at hscan
    refine ⟨a, wraps, hpick, hwraps, ?_⟩
    simp only [if_true]
    change scanned (c.len + 2) _ c.tail = _
    rw [h.size]
    exact hscan

theorem Links.len_ne_zero (h : Links c order) (hne : order ≠ []) : c.len ≠ 0 := by
  rw [h.size]
  exact fun hnil => hne (List.length_eq_zero_iff.mp hnil)

theorem Links.evictCore_eq (h : Links c order) {n : ℕ} (hn : order.take n ≠ [])
    (hhand : c.hand.or c.tail = (order.take n).getLast?) :
    ∃ a, pick c.visited (around n order) = some a ∧
      c.evictCore = (c.clear (passed c.visited (around n order))).takeOut a := by
  have hne : order ≠ [] := by
    rintro rfl
    exact hn List.take_nil
  obtain ⟨a, wraps, hpick, -, hscan⟩ := h.evictScan_eq hn hhand
  refine ⟨a, hpick, ?_⟩
  rw [evictCore_eq_scan (h.len_ne_zero hne), hscan, Option.map_map]
  exact Option.map_id'

theorem Links.takeOut (h : Links c (newer ++ a :: older)) {k : K} {v : V} (hk : c.key a = some k)
    (hv : c.value a = some v) : c.takeOut a =
      some (({ c with hand := newer.getLast? } : SieveCache K V).drop a k, some (k, v)) := by
  obtain ⟨-, hmap, hkey, hvalue, -, -⟩ := unlink_frame { c with hand := newer.getLast? } a
  have hk' := (congrFun hkey a).trans hk
  have hv' := (congrFun hvalue a).trans hv
  have hin : k ∈ c.map := AList.lookup_isSome.mp (by rw [h.lookup.mpr ⟨by simp, hk⟩]; rfl)
  rw [SieveCache.takeOut, h.neighbours.1]
  simp only [hk', hv', Option.bind_eq_bind, Option.bind_some, del, if_pos hin, hmap]
  rfl

theorem Links.exists_reach (h : Links c order) (hne : order ≠ []) :
    ∃ n, order.take n ≠ [] ∧ c.hand.or c.tail = (order.take n).getLast? := by
  cases hc : c.hand with
  | none =>
    refine ⟨order.length, ?_, ?_⟩
    · rwa [List.take_length]
    · rw [List.take_length]
      exact h.tail
  | some node =>
    obtain ⟨newer, older, rfl⟩ := List.append_of_mem (h.hand hc)
    have htake : (newer ++ node :: older).take (newer.length + 1) = newer ++ [node] := by
      rw [List.append_cons]
      exact List.take_left' (by simp)
    refine ⟨newer.length + 1, ?_, ?_⟩
    · rw [htake]
      simp
    · rw [htake, List.getLast?_concat]
      rfl

theorem length_passed_around (visited : ℕ → Bool) (n : ℕ) (order : List ℕ) :
    (passed visited (around n order)).length ≤ order.length := by
  have hle := (List.takeWhile_sublist visited (l := around n order)).length_le
  have hlength : (around n order).length = order.length := by
    rw [around, ← List.reverse_append, List.length_reverse, List.length_append, Nat.add_comm,
      ← List.length_append, List.take_append_drop]
  rw [passed]
  omega

theorem Links.takeOut_clear (h : Links c order) (ha : a ∈ order) (path : List ℕ) :
    ∃ newer older k v c', order = newer ++ a :: older ∧ c.key a = some k ∧ c.value a = some v ∧
      (c.clear path).takeOut a = some (c', some (k, v)) ∧ Links c' (newer ++ older) ∧
      c'.map = c.map.erase k ∧ c'.maxSize = c.maxSize := by
  obtain ⟨k, hk⟩ := Option.isSome_iff_exists.mp (h.key ha)
  obtain ⟨v, hv⟩ := Option.isSome_iff_exists.mp (h.value ha)
  obtain ⟨newer, older, rfl⟩ := List.append_of_mem ha
  have hclear := h.clear path
  have hmoved := hclear.setHand (p := newer.getLast?)
    (fun hb => List.mem_append_left _ (List.mem_of_getLast? hb))
  have hmax := (unlink_frame ({ c.clear path with hand := newer.getLast? } : SieveCache K V) a).1
  exact ⟨newer, older, k, v, _, rfl, hk, hv, hclear.takeOut hk hv, hmoved.drop hk, rfl, hmax⟩

theorem Links.evictCore_removes (h : Links c order) (hne : order ≠ []) :
    ∃ newer a older k v c', order = newer ++ a :: older ∧ c.key a = some k ∧ c.value a = some v ∧
      c.evictCore = some (c', some (k, v)) ∧ Links c' (newer ++ older) ∧
      c'.map = c.map.erase k ∧ c'.maxSize = c.maxSize := by
  obtain ⟨n, htake, hstart⟩ := h.exists_reach hne
  obtain ⟨a, hpick, hcore⟩ := h.evictCore_eq htake hstart
  obtain ⟨newer, older, k, v, c', horder, hk, hv, htaken, hlinks, hframe⟩ :=
    h.takeOut_clear (Sieve.mem_around.mp (Sieve.pick_mem _ hpick)) _
  exact ⟨newer, a, older, k, v, c', horder, hk, hv, hcore.trans htaken, hlinks, hframe⟩

/-- The scan looks at no more nodes than there are and one, all of them linked, goes back to the
tail once at most, and takes one entry out of the list and the map. -/
theorem evictScan_removes_one (h : Links c order) (hne : order ≠ []) :
    ∃ s newer a older k v, c.evictScan = some s ∧ c.evictCore = some s.outcome ∧
      (∀ b ∈ s.inspected, b ∈ order) ∧ s.inspected.length ≤ c.len + 1 ∧
      s.wraps ≤ 1 ∧ order = newer ++ a :: older ∧ s.inspected.getLast? = some a ∧
      s.outcome.2 = some (k, v) ∧ c.key a = some k ∧ c.value a = some v ∧
      Links s.outcome.1 (newer ++ older) ∧ s.outcome.1.map = c.map.erase k ∧
      s.outcome.1.len + 1 = c.len := by
  obtain ⟨n, htake, hstart⟩ := h.exists_reach hne
  obtain ⟨a, wraps, hpick, hwraps, hscan⟩ := h.evictScan_eq htake hstart
  have ha : a ∈ order := Sieve.mem_around.mp (Sieve.pick_mem _ hpick)
  have hpassed := length_passed_around c.visited n order
  have hmem : ∀ b ∈ passed c.visited (around n order) ++ [a], b ∈ order := by
    intro b hb
    rcases List.mem_append.mp hb with hb | hb
    · exact Sieve.mem_around.mp ((List.takeWhile_sublist _).subset hb)
    · exact List.mem_singleton.mp hb ▸ ha
  obtain ⟨newer, older, k, v, c', horder, hk, hv, htaken, hlinks, hmap, -⟩ := h.takeOut_clear ha
    (passed c.visited (around n order))
  rw [htaken] at hscan
  refine ⟨_, newer, a, older, k, v, hscan, ?_, hmem, ?_, hwraps, horder, List.getLast?_concat ..,
    rfl, hk, hv, hlinks, hmap, ?_⟩
  · rw [evictCore_eq_scan (h.len_ne_zero hne), hscan]
    rfl
  · rw [List.length_append, List.length_singleton, h.size]
    exact Nat.succ_le_succ hpassed
  · change c'.len + 1 = c.len
    rw [hlinks.size, h.size, horder]
    simp only [List.length_append, List.length_cons, Nat.add_assoc]

theorem evictScan_removes_one_wrapped :
    let c := ((new 1 (by decide) : SieveCache ℕ ℕ).setNew 3 30).setVisited 0 true
    ∃ s, c.evictScan = some s ∧ s.inspected.length ≤ c.len + 1 ∧ s.wraps ≤ 1 ∧
      s.outcome.1.len + 1 = c.len := by
  intro c
  have hempty := rep_new (K := ℕ) (V := ℕ) 1 (by decide)
  have hlinks : Links c [0] := ((hempty.setNew 30 (by decide) (by decide)).setVisited 0 true).links
  obtain ⟨s, -, -, -, -, -, hs, -, -, hlength, hwraps, -, -, -, -, -, -, -, hlen⟩ :=
    evictScan_removes_one hlinks (by decide)
  exact ⟨s, hs, hlength, hwraps, hlen⟩

end Mosec.SieveCache
