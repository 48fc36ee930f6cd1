import Mosec.ModelAccounting

namespace Mosec.MultiModelWorker

open Program (Triple finalState)

variable {σ Id Model Item Result Err : Type} [DecidableEq Id]
  {hooks : Hooks σ Id Model Item Result Err} {idOf : Item → Id} {load : Id → Model}
  {f : Id → Model → Item → Result} {items : List Item} {n : ℕ} {groups : List (Id × List (ℕ × Item))}

/-- `load_model` is a function of the id, and for the items of the batch no hook raises, every model
is there, and `forward_model` acts on each item by itself. -/
structure Itemwise (hooks : Hooks σ Id Model Item Result Err) (idOf : Item → Id) (load : Id → Model)
    (f : Id → Model → Item → Result) (items : List Item) : Prop where
  load_eq : ∀ {id user model user'}, hooks.loadModel id user = .ok model user' → model = load id
  getModelId : ∀ item ∈ items, ∀ user, ∃ user', hooks.getModelId item user = .ok (idOf item) user'
  hasModel : ∀ item ∈ items, ∀ user, ∃ user', hooks.hasModel (idOf item) user = .ok true user'
  loadModel : ∀ item ∈ items, ∀ user, ∃ model user',
    hooks.loadModel (idOf item) user = .ok model user'
  unloadModel : ∀ id model user, ∃ user', hooks.unloadModel id model user = .ok () user'
  forwardModel : ∀ item ∈ items, ∀ xs user, ∃ user',
    hooks.forwardModel (idOf item) (load (idOf item)) xs user =
      .ok (xs.map (f (idOf item) (load (idOf item)))) user'

def itemResult (idOf : Item → Id) (load : Id → Model) (f : Id → Model → Item → Result)
    (item : Item) : Result :=
  f (idOf item) (load (idOf item)) item

omit [DecidableEq Id] in
theorem Itemwise.covers (h : Itemwise hooks idOf load f items) {item : Item} (hitem : item ∈ items) :
    Covers hooks (fun id model => model = load id) (fun _ => False) (idOf item) where
  hasModel := by
    intro user err user' hrun
    obtain ⟨user'', hok⟩ := h.hasModel item hitem user
    rw [hok] at hrun
    cases hrun
  available := by
    intro user user' hrun
    obtain ⟨user'', hok⟩ := h.hasModel item hitem user
    rw [hok] at hrun
    cases hrun
  loadModel := by
    intro user err user' hrun
    obtain ⟨model, user'', hok⟩ := h.loadModel item hitem user
    rw [hok] at hrun
    cases hrun
  loads := h.load_eq
  unloadModel := by
    intro id model user err user' hrun
    obtain ⟨user'', hok⟩ := h.unloadModel id model user
    rw [hok] at hrun
    cases hrun

def Placed (items : List Item) (p : ℕ × Item) : Prop := items[p.1]? = some p.2

structure Grouped (idOf : Item → Id) (done : List (ℕ × Item))
    (groups : List (Id × List (ℕ × Item))) : Prop where
  sound : ∀ group ∈ groups, ∀ p ∈ group.2, p ∈ done ∧ idOf p.2 = group.1
  inhabited : ∀ group ∈ groups, group.2 ≠ []
  complete : ∀ p ∈ done, ∃ group ∈ groups, p ∈ group.2

theorem mem_addTo {modelId : Id} {p : ℕ × Item} {group : Id × List (ℕ × Item)}
    (h : group ∈ addTo modelId p groups) : group ∈ groups ∨
      group = (modelId, [p]) ∨ ∃ xs, (modelId, xs) ∈ groups ∧ group = (modelId, xs ++ [p]) := by
  induction groups with
  | nil => exact Or.inr (Or.inl (List.mem_singleton.mp h))
  | cons first groups ih =>
    rw [addTo] at h
    split at h
    · next heq =>
      rcases List.mem_cons.mp h with rfl | h
      · refine Or.inr (Or.inr ⟨first.2, ?_, by rw [heq]⟩)
        rw [← heq]
        exact List.mem_cons_self ..
      · exact Or.inl (List.mem_cons_of_mem _ h)
    · rcases List.mem_cons.mp h with rfl | h
      · exact Or.inl (List.mem_cons_self ..)
      · rcases ih h with hmem | hnew | ⟨xs, hxs, hgroup⟩
        · exact Or.inl (List.mem_cons_of_mem _ hmem)
        · exact Or.inr (Or.inl hnew)
        · exact Or.inr (Or.inr ⟨xs, List.mem_cons_of_mem _ hxs, hgroup⟩)

theorem addTo_covers {modelId : Id} {p q : ℕ × Item}
    (h : q = p ∨ ∃ group ∈ groups, q ∈ group.2) : ∃ group ∈ addTo modelId p groups, q ∈ group.2 := by
  induction groups with
  | nil =>
    obtain rfl : q = p := h.resolve_right (by simp)
    exact ⟨(modelId, [q]), List.mem_cons_self .., List.mem_cons_self ..⟩
  | cons first groups ih =>
    rw [addTo]
    split
    · rcases h with rfl | ⟨group, hgroup, hq⟩
      · exact ⟨_, List.mem_cons_self .., by simp⟩
      · rcases List.mem_cons.mp hgroup with rfl | hgroup
        · exact ⟨_, List.mem_cons_self .., List.mem_append_left _ hq⟩
        · exact ⟨group, List.mem_cons_of_mem _ hgroup, hq⟩
    · rcases h with rfl | ⟨group, hgroup, hq⟩
      · obtain ⟨group, hgroup, hq⟩ := ih (Or.inl rfl)
        exact ⟨group, List.mem_cons_of_mem _ hgroup, hq⟩
      · rcases List.mem_cons.mp hgroup with rfl | hgroup
        · exact ⟨_, List.mem_cons_self .., hq⟩
        · obtain ⟨group', hgroup', hq'⟩ := ih (Or.inr ⟨group, hgroup, hq⟩)
          exact ⟨group', List.mem_cons_of_mem _ hgroup', hq'⟩

theorem Grouped.addTo {done : List (ℕ × Item)} (h : Grouped idOf done groups) (p : ℕ × Item) :
    Grouped idOf (done ++ [p]) (addTo (idOf p.2) p groups) where
  sound := by
    intro group hgroup q hq
    rcases mem_addTo hgroup with hold | rfl | ⟨xs, hxs, rfl⟩
    · obtain ⟨hdone, hid⟩ := h.sound group hold q hq
      exact ⟨List.mem_append_left _ hdone, hid⟩
    · obtain rfl := List.mem_singleton.mp hq
      exact ⟨by simp, rfl⟩
    · rcases List.mem_append.mp hq with hq | hq
      · obtain ⟨hdone, hid⟩ := h.sound _ hxs q hq
        exact ⟨List.mem_append_left _ hdone, hid⟩
      · obtain rfl := List.mem_singleton.mp hq
        exact ⟨by simp, rfl⟩
  inhabited := by
    intro group hgroup
    rcases mem_addTo hgroup with hold | rfl | ⟨xs, hxs, rfl⟩
    · exact h.inhabited group hold
    · simp
    · simp
  complete := by
    intro q hq
    apply addTo_covers
    rcases List.mem_append.mp hq with hq | hq
    · exact Or.inr (h.complete q hq)
    · exact Or.inl (List.mem_singleton.mp hq)

structure Filled (F : Item → Result) (items : List Item) (done : List (ℕ × Item))
    (results : List (Option Result)) : Prop where
  length : results.length = items.length
  result : ∀ p ∈ done, results[p.1]? = some (some (F p.2))

theorem Filled.scatter {F : Item → Result} {done : List (ℕ × Item)}
    {results : List (Option Result)} (h : Filled F items done results)
    (hdone : ∀ p ∈ done, Placed items p) {pairs : List (ℕ × Item)}
    (hpairs : ∀ p ∈ pairs, Placed items p) :
    Filled F items (done ++ pairs) (scatter results pairs (pairs.map (F ∘ Prod.snd))) := by
  induction pairs generalizing done results with
  | nil =>
    rw [List.append_nil]
    exact h
  | cons p pairs ih =>
    have hp := hpairs p (List.mem_cons_self ..)
    have hlt : p.1 < results.length := by
      rw [h.length]
      exact (List.getElem?_eq_some_iff.mp hp).1
    have hset : Filled F items (done ++ [p]) (results.set p.1 (some (F p.2))) := by
      constructor
      · rw [List.length_set]
        exact h.length
      · intro q hq
        rw [List.getElem?_set]
        by_cases hpq : p.1 = q.1
        · have hq' : Placed items q := by
            rcases List.mem_append.mp hq with hq | hq
            · exact hdone q hq
            · obtain rfl := List.mem_singleton.mp hq
              exact hp
          have hsame : p.2 = q.2 := by
            rw [Placed, hpq] at hp
            exact Option.some.inj (hp.symm.trans hq')
          rw [if_pos hpq, if_pos (hpq ▸ hlt), hsame]
        · rw [if_neg hpq]
          rcases List.mem_append.mp hq with hq | hq
          · exact h.result q hq
          · obtain rfl := List.mem_singleton.mp hq
            exact absurd rfl hpq
    have hnext := ih hset (fun q hq => by
      rcases List.mem_append.mp hq with hq | hq
      · exact hdone q hq
      · obtain rfl := List.mem_singleton.mp hq
        exact hp) fun q hq => hpairs q (List.mem_cons_of_mem _ hq)
    rw [List.append_assoc, List.singleton_append] at hnext
    exact hnext

theorem Filled.eq_map {F : Item → Result} {done : List (ℕ × Item)} {results : List (Option Result)}
    (h : Filled F items done results) (hdone : ∀ p, Placed items p → p ∈ done) :
    results = items.map fun item => some (F item) := by
  apply List.ext_getElem?
  intro i
  rw [List.getElem?_map]
  cases hi : items[i]? with
  | none =>
    rw [List.getElem?_eq_none_iff] at hi
    rw [List.getElem?_eq_none (by rw [h.length]; exact hi)]
    rfl
  | some item => exact h.result (i, item) (hdone (i, item) hi)

def pairsOf (groups : List (Id × List (ℕ × Item))) : List (ℕ × Item) := groups.flatMap Prod.snd

theorem mem_zipIdx_pairs {p : ℕ × Item} :
    p ∈ items.zipIdx.map (fun q => (q.2, q.1)) ↔ Placed items p := by
  obtain ⟨i, item⟩ := p
  rw [List.mem_map]
  constructor
  · rintro ⟨⟨item', i'⟩, hmem, heq⟩
    cases heq
    exact List.mk_mem_zipIdx_iff_getElem?.mp hmem
  · intro h
    exact ⟨(item, i), List.mk_mem_zipIdx_iff_getElem?.mpr h, rfl⟩

section Transparent

variable (h : Itemwise hooks idOf load f items)
include h

theorem groupItems_groups {good : Id → Model → Prop} :
    Triple (Accounted good n) (groupItems hooks items)
      (fun groups w => Accounted good n w ∧
        Grouped idOf (items.zipIdx.map fun q => (q.2, q.1)) groups) (fun _ _ => False) := by
  apply Triple.weaken (Triple.foldlM (fun done groups w => Accounted good n w ∧
    Grouped idOf done groups) (items.zipIdx.map fun q => (q.2, q.1)) ?_ [])
    (fun w hw => ⟨hw, ?_⟩) (fun _ _ hw => hw) fun _ _ hw => hw
  · intro done p groups hp
    have hitem : p.2 ∈ items := List.mem_of_getElem? (mem_zipIdx_pairs.mp hp)
    apply Triple.bind fun modelId w => modelId = idOf p.2 ∧ Accounted good n w ∧
      Grouped idOf done groups
    · apply triple_hook
      · exact fun user hw => ⟨accounted_user hw.1 user, hw.2⟩
      · intro user modelId user' w hrun hw
        obtain ⟨user'', hok⟩ := h.getModelId p.2 hitem user
        rw [hok] at hrun
        cases hrun
        exact ⟨rfl, hw⟩
      · intro user e user' w hrun hw
        obtain ⟨user'', hok⟩ := h.getModelId p.2 hitem user
        rw [hok] at hrun
        cases hrun
    · intro modelId
      apply Triple.pure
      rintro w ⟨rfl, hw, hgrouped⟩
      exact ⟨hw, hgrouped.addTo p⟩
  · exact ⟨by simp, by simp, by simp⟩

theorem forwardGroup_results (hn : 1 ≤ n) {done : List (Id × List (ℕ × Item))}
    {group : Id × List (ℕ × Item)} {results : List (Option Result)}
    (hdone : ∀ p ∈ pairsOf done, Placed items p)
    (hpairs : ∀ p ∈ group.2, Placed items p ∧ idOf p.2 = group.1) (hne : group.2 ≠ [])
    (hfilled : Filled (itemResult idOf load f) items (pairsOf done) results) :
    Triple (Accounted (fun id model => model = load id) n) (forwardGroup hooks results group)
      (fun results' w => Accounted (fun id model => model = load id) n w ∧
        Filled (itemResult idOf load f) items (pairsOf (done ++ [group])) results')
      (fun _ _ => False) := by
  obtain ⟨first, hfirst⟩ := List.exists_mem_of_ne_nil _ hne
  obtain ⟨hplaced, hid⟩ := hpairs first hfirst
  have hitem : first.2 ∈ items := List.mem_of_getElem? hplaced
  have hcovers := h.covers hitem
  rw [hid] at hcovers
  have hmap : (group.2.map Prod.snd).map (f group.1 (load group.1)) =
      group.2.map (itemResult idOf load f ∘ Prod.snd) := by
    rw [List.map_map]
    apply List.map_congr_left
    intro p hp
    rw [Function.comp_apply, Function.comp_apply, itemResult, (hpairs p hp).2]
  apply Triple.bind fun model w =>
    Accounted (fun id model => model = load id) n w ∧ model = load group.1
  · exact (ensureModel_accounts hn hcovers).weaken (fun _ hw => hw) (fun _ _ hw => hw)
      fun _ _ hw => hw.2
  intro model
  apply Triple.assume
  rintro rfl
  apply Triple.bind fun _ => Accounted (fun id model => model = load id) n
  · exact Triple.update _ fun _ hw => accounted_forwarding hw _ _ _
  rintro -
  apply Triple.bind fun subResults w => Accounted (fun id model => model = load id) n w ∧
    subResults = group.2.map (itemResult idOf load f ∘ Prod.snd)
  · apply triple_hook
    · exact fun user hw => accounted_user hw user
    · intro user subResults user' w hrun hw
      obtain ⟨user'', hok⟩ := h.forwardModel first.2 hitem (group.2.map Prod.snd) user
      rw [hid, hmap] at hok
      rw [hok] at hrun
      cases hrun
      exact ⟨hw, rfl⟩
    · intro user e user' w hrun hw
      obtain ⟨user'', hok⟩ := h.forwardModel first.2 hitem (group.2.map Prod.snd) user
      rw [hid] at hok
      rw [hok] at hrun
      cases hrun
  intro subResults
  apply Triple.assume
  rintro rfl
  apply Triple.ite
  · intro _
    apply Triple.pure
    intro w hw
    refine ⟨hw, ?_⟩
    have hpairs' : pairsOf (done ++ [group]) = pairsOf done ++ group.2 := by
      simp [pairsOf]
    rw [hpairs']
    exact hfilled.scatter hdone fun p hp => (hpairs p hp).1
  · intro hlen
    exact absurd (by rw [List.length_map]) hlen

theorem forward_results (hn : 1 ≤ n) :
    Triple (Accounted (fun id model => model = load id) n) (forward hooks items)
      (fun results _ => results = items.map fun item => some (itemResult idOf load f item))
      (fun _ _ => False) := by
  apply Triple.bind _ (groupItems_groups h)
  intro groups
  apply Triple.assume
  intro hgrouped
  apply Triple.get_bind
  intro w hw
  -- the groups are the same, whatever the order of hits and misses
  change Triple _ ((groups.filter (fun group => w.modelCache.contains group.1) ++
    groups.filter fun group => !w.modelCache.contains group.1).foldlM (forwardGroup hooks)
      (List.replicate items.length none)) _ _
  have hmem : ∀ group, group ∈ groups.filter (fun group => w.modelCache.contains group.1) ++
      groups.filter (fun group => !w.modelCache.contains group.1) ↔ group ∈ groups := by
    intro group
    rw [List.mem_append, List.mem_filter, List.mem_filter]
    cases w.modelCache.contains group.1 <;> simp
  generalize groups.filter (fun group => w.modelCache.contains group.1) ++
    groups.filter (fun group => !w.modelCache.contains group.1) = ordered at hmem
  have hplaced : ∀ group ∈ ordered, ∀ p ∈ group.2, Placed items p ∧ idOf p.2 = group.1 := by
    intro group hgroup p hp
    obtain ⟨hin, hid⟩ := hgrouped.sound group ((hmem group).mp hgroup) p hp
    exact ⟨mem_zipIdx_pairs.mp hin, hid⟩
  have hloop : Triple (fun w => Accounted (fun id model => model = load id) n w ∧
        Filled (itemResult idOf load f) items (pairsOf ([] : List (Id × List (ℕ × Item))))
          (List.replicate items.length none) ∧ ∀ group ∈ ([] : List (Id × List (ℕ × Item))), group ∈ ordered)
      (ordered.foldlM (forwardGroup hooks) (List.replicate items.length none))
      (fun results w => Accounted (fun id model => model = load id) n w ∧
        Filled (itemResult idOf load f) items (pairsOf ordered) results ∧
          ∀ group ∈ ordered, group ∈ ordered)
      (fun _ _ => False) := by
    apply Triple.foldlM (fun done results w => Accounted (fun id model => model = load id) n w ∧
      Filled (itemResult idOf load f) items (pairsOf done) results ∧
        ∀ group ∈ done, group ∈ ordered)
    intro done group results hgroup
    apply Triple.assume
    rintro ⟨hfilled, hdone⟩
    have hpairs : ∀ p ∈ pairsOf done, Placed items p := by
      intro p hp
      obtain ⟨group', hgroup', hp'⟩ := List.mem_flatMap.mp hp
      exact (hplaced group' (hdone group' hgroup') p hp').1
    have hstep := forwardGroup_results h hn hpairs (hplaced group hgroup)
      (hgrouped.inhabited group ((hmem group).mp hgroup)) hfilled
    refine hstep.weaken (fun _ hw => hw) (fun _ _ hw => ⟨hw.1, hw.2, ?_⟩) fun _ _ hw => hw
    intro group' hgroup'
    rcases List.mem_append.mp hgroup' with hgroup' | hgroup'
    · exact hdone group' hgroup'
    · rw [List.mem_singleton.mp hgroup']
      exact hgroup
  refine hloop.weaken ?_ ?_ fun _ _ hw => hw
  · rintro _ rfl
    exact ⟨hw, ⟨List.length_replicate, by simp [pairsOf]⟩, by simp⟩
  · rintro results w' ⟨-, hfilled, -⟩
    apply hfilled.eq_map
    intro p hp
    obtain ⟨group, hgroup, hp'⟩ := hgrouped.complete p (mem_zipIdx_pairs.mpr hp)
    exact List.mem_flatMap.mpr ⟨group, (hmem group).mpr hgroup, hp'⟩

end Transparent

omit [DecidableEq Id] in
theorem Itemwise.single (h : Itemwise hooks idOf load f items) {item : Item} (hitem : item ∈ items) :
    Itemwise hooks idOf load f [item] := by
  have hmem : ∀ item' ∈ [item], item' ∈ items := by
    intro item' hitem'
    rw [List.mem_singleton.mp hitem']
    exact hitem
  exact ⟨h.load_eq, fun _ hi => h.getModelId _ (hmem _ hi), fun _ hi => h.hasModel _ (hmem _ hi),
    fun _ hi => h.loadModel _ (hmem _ hi), h.unloadModel, fun _ hi => h.forwardModel _ (hmem _ hi)⟩

theorem Itemwise.forward_returns (h : Itemwise hooks idOf load f items) (user : σ) (hn : 1 ≤ n)
    (batches : List (List Item)) :
    ∃ w, forward hooks items (afterCalls hooks (new user n hn) batches) =
      .ok (items.map fun item => some (f (idOf item) (load (idOf item)) item)) w := by
  have haccounted : Accounted (fun id model => model = load id) n
      (afterCalls hooks (new user n hn) batches) := accounted_afterCalls h.load_eq user hn batches
  have hresults := forward_results h hn _ haccounted
  cases hrun : forward hooks items (afterCalls hooks (new user n hn) batches) with
  | ok results w =>
    rw [hrun] at hresults
    exact ⟨w, congrArg (EStateM.Result.ok · w) hresults⟩
  | error e w =>
    rw [hrun] at hresults
    exact hresults.elim

theorem itemwise_echo (items : List ℕ) :
    Itemwise echoHooks id (10 * ·) (fun _ model item => item + model) items :=
  ⟨fun hrun => by cases hrun; rfl, fun _ _ user => ⟨user, rfl⟩, fun _ _ user => ⟨user, rfl⟩,
    fun _ _ user => ⟨_, user, rfl⟩, fun _ _ user => ⟨user, rfl⟩, fun _ _ _ user => ⟨user, rfl⟩⟩

theorem forward_transparent (h : Itemwise hooks idOf load f items) (user : σ) (hn : 1 ≤ n)
    (batches : List (List Item)) :
    (∃ w, forward hooks items (afterCalls hooks (new user n hn) batches) =
      .ok (items.map fun item => some (f (idOf item) (load (idOf item)) item)) w) ∧
    ∀ item ∈ items, ∃ w, forwardOne hooks item (afterCalls hooks (new user n hn) batches) =
      .ok (some (f (idOf item) (load (idOf item)) item)) w := by
  refine ⟨h.forward_returns user hn batches, ?_⟩
  intro item hitem
  obtain ⟨w, hrun⟩ := (h.single hitem).forward_returns user hn batches
  refine ⟨w, ?_⟩
  have hone : forwardOne hooks item (afterCalls hooks (new user n hn) batches) =
      EStateM.bind (forward hooks [item]) (fun results => pure results.head?.join)
        (afterCalls hooks (new user n hn) batches) := rfl
  rw [hone, EStateM.bind, hrun]
  rfl

theorem forward_transparent_echo : ∃ w, forward echoHooks [2, 1, 2]
    (afterCalls echoHooks (new () 1 (by decide)) [[1], [3, 1]]) = .ok [some 22, some 11, some 22] w :=
  (forward_transparent (itemwise_echo _) () (by decide) [[1], [3, 1]]).1

end Mosec.MultiModelWorker
