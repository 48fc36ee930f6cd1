import Mosec.ModelCaching

namespace Mosec

open Program (Triple Projects mapState finalState)

variable {σ Id Model Item Result Err : Type}

inductive HookCall (Id Model Item Result Err : Type) where
  | getModelId (item : Item) (outcome : Except Err Id)
  | hasModel (id : Id) (outcome : Except Err Bool)
  | loadModel (id : Id) (outcome : Except Err Model)
  | unloadModel (id : Id) (model : Model) (outcome : Except Err Unit)
  | forwardModel (id : Id) (model : Model) (items : List Item) (outcome : Except Err (List Result))

namespace HookCall

def isError {α : Type} : Except Err α → Bool
  | .ok _ => false
  | .error _ => true

def raises : HookCall Id Model Item Result Err → Bool
  | .getModelId _ outcome => isError outcome
  | .hasModel _ outcome => isError outcome
  | .loadModel _ outcome => isError outcome
  | .unloadModel _ _ outcome => isError outcome
  | .forwardModel _ _ _ outcome => isError outcome

def expected : HookCall Id Model Item Result Err → Prop
  | .hasModel _ (.ok available) => available = true
  | .forwardModel _ _ items (.ok results) => results.length = items.length
  | _ => True

def Fine (call : HookCall Id Model Item Result Err) : Prop := call.raises = false ∧ call.expected

def asked : HookCall Id Model Item Result Err → Option (Item × Id)
  | .getModelId item (.ok id) => some (item, id)
  | _ => none

def loadCall : HookCall Id Model Item Result Err → Option Id
  | .loadModel id _ => some id
  | _ => none

def loaded : HookCall Id Model Item Result Err → Option (Id × Model)
  | .loadModel id (.ok model) => some (id, model)
  | _ => none

def unloaded : HookCall Id Model Item Result Err → Option (Id × Model)
  | .unloadModel id model _ => some (id, model)
  | _ => none

def forwarded : HookCall Id Model Item Result Err → Option (Id × Model × List Item)
  | .forwardModel id model items _ => some (id, model, items)
  | _ => none

end HookCall

abbrev HookLog (Id Model Item Result Err : Type) := List (HookCall Id Model Item Result Err)

def logged {α : Type} (call : Except Err α → HookCall Id Model Item Result Err)
    (x : EStateM Err σ α) : EStateM Err (σ × HookLog Id Model Item Result Err) α := fun u =>
  match x u.1 with
  | .ok a user => .ok a (user, u.2 ++ [call (.ok a)])
  | .error e user => .error e (user, u.2 ++ [call (.error e)])

/-- The same hooks, with a log of their calls beside their state. -/
def Hooks.recording (hooks : Hooks σ Id Model Item Result Err) :
    Hooks (σ × HookLog Id Model Item Result Err) Id Model Item Result Err where
  getModelId item := logged (.getModelId item) (hooks.getModelId item)
  hasModel id := logged (.hasModel id) (hooks.hasModel id)
  loadModel id := logged (.loadModel id) (hooks.loadModel id)
  unloadModel id model := logged (.unloadModel id model) (hooks.unloadModel id model)
  forwardModel id model items :=
    logged (.forwardModel id model items) (hooks.forwardModel id model items)

namespace MultiModelWorker

def recorded (w : MultiModelWorker σ Id Model) :
    MultiModelWorker (σ × HookLog Id Model Item Result Err) Id Model :=
  ⟨(w.user, []), w.modelCache, w.events⟩

def erase (w : MultiModelWorker (σ × HookLog Id Model Item Result Err) Id Model) :
    MultiModelWorker σ Id Model :=
  ⟨w.user.1, w.modelCache, w.events⟩

section Erasure

theorem hook_erases {α : Type} (call : Except Err α → HookCall Id Model Item Result Err)
    (x : EStateM Err σ α) :
    Projects erase (hook (logged call x) : Method _ Id Model Err α) (hook x) := by
  intro w
  unfold hook logged
  change _ = match x w.user.1 with
    | .ok a user => EStateM.Result.ok a { w.erase with user := user }
    | .error err user => EStateM.Result.error (ModelError.raised err) { w.erase with user := user }
  cases x w.user.1 <;> rfl

theorem note_erases (event : CacheEvent Id Model) :
    Projects erase (note event : Method (σ × HookLog Id Model Item Result Err) Id Model Err Unit)
      (note event) :=
  .update fun _ => rfl

theorem setCache_erases (cache : SieveCache Id Model) :
    Projects erase
      (setCache cache : Method (σ × HookLog Id Model Item Result Err) Id Model Err Unit)
      (setCache cache) :=
  .update fun _ => rfl

theorem returned_erases {α : Type} (a? : Option α) :
    Projects erase (returned a? : Method (σ × HookLog Id Model Item Result Err) Id Model Err α)
      (returned a?) := by
  cases a? with
  | none => exact .throw _
  | some a => exact .pure a

variable [DecidableEq Id] (hooks : Hooks σ Id Model Item Result Err)

theorem makeRoom_erases : Projects erase (makeRoom hooks.recording) (makeRoom hooks) := by
  apply Projects.get_bind
  intro w
  apply Projects.ite
  · apply Projects.bind (returned_erases _)
    rintro ⟨cache, evicted⟩
    apply Projects.bind (setCache_erases cache)
    rintro -
    cases evicted with
    | none => exact .pure _
    | some p => exact .bind (note_erases _) fun _ => hook_erases _ _
  · exact .pure _

theorem loadInto_erases (modelId : Id) :
    Projects erase (loadInto hooks.recording modelId) (loadInto hooks modelId) := by
  apply Projects.get_bind
  intro w
  apply Projects.bind (note_erases _)
  rintro -
  apply Projects.bind (hook_erases _ _)
  intro model
  apply Projects.bind (note_erases _)
  rintro -
  apply Projects.get_bind
  intro w
  apply Projects.bind (returned_erases _)
  rintro ⟨cache, evicted⟩
  apply Projects.bind (setCache_erases cache)
  rintro -
  exact .bind (note_erases _) fun _ => .pure _

theorem ensureModel_erases (modelId : Id) :
    Projects erase (ensureModel hooks.recording modelId) (ensureModel hooks modelId) := by
  apply Projects.get_bind
  intro w
  apply Projects.ite
  · exact .bind (setCache_erases _) fun _ => returned_erases _
  · apply Projects.bind (hook_erases _ _)
    intro available
    apply Projects.ite
    · exact .bind (makeRoom_erases hooks) fun _ => loadInto_erases hooks modelId
    · exact .throw _

theorem forwardGroup_erases (results : List (Option Result)) (group : Id × List (ℕ × Item)) :
    Projects erase (forwardGroup hooks.recording results group)
      (forwardGroup hooks results group) := by
  apply Projects.bind (ensureModel_erases hooks _)
  intro model
  apply Projects.bind (note_erases _)
  rintro -
  apply Projects.bind (hook_erases _ _)
  intro subResults
  apply Projects.ite
  · exact .pure _
  · exact .throw _

theorem forward_erases (items : List Item) :
    Projects erase (forward hooks.recording items) (forward hooks items) := by
  apply Projects.bind
  · apply Projects.foldlM
    intro groups p
    exact .bind (hook_erases _ _) fun _ => .pure _
  · intro groups
    apply Projects.get_bind
    intro w
    exact .foldlM _ (forwardGroup_erases hooks) _

end Erasure

section Mirroring

variable {α : Type} {loads unloads : List (Id × Model)}
  {w : MultiModelWorker (σ × HookLog Id Model Item Result Err) Id Model}

/-- The log tells of the models the events tell of, and of `loads`, but not yet of `unloads`. -/
structure Mirrored (loads unloads : List (Id × Model))
    (w : MultiModelWorker (σ × HookLog Id Model Item Result Err) Id Model) : Prop where
  loads : w.user.2.filterMap HookCall.loaded = w.loaded ++ loads
  unloads : w.unloaded = w.user.2.filterMap HookCall.unloaded ++ unloads

theorem Mirrored.call (h : Mirrored [] unloads w) (user : σ)
    {call : HookCall Id Model Item Result Err} (hunloads : call.unloaded.toList = unloads) :
    Mirrored call.loaded.toList [] { w with user := (user, w.user.2 ++ [call]) } := by
  constructor
  · rw [filterMap_concat, h.loads, List.append_nil]
    rfl
  · rw [filterMap_concat, hunloads, List.append_nil]
    exact h.unloads

theorem mirrored_hook (kind : Except Err α → HookCall Id Model Item Result Err)
    (x : EStateM Err σ α) (hraise : ∀ e, (kind (.error e)).loaded = none)
    (hunloads : ∀ outcome, (kind outcome).unloaded.toList = unloads) :
    Triple (Mirrored [] unloads) (hook (logged kind x) : Method _ Id Model Err α)
      (fun a => Mirrored (kind (.ok a)).loaded.toList []) (fun _ => Mirrored [] []) := by
  intro w hw
  rw [hook, logged]
  cases x w.user.1 with
  | ok a user => exact hw.call user (hunloads _)
  | error e user =>
    have hcall := hw.call user (hunloads (.error e))
    rw [hraise] at hcall
    exact hcall

variable {err : ModelError Id Err →
  MultiModelWorker (σ × HookLog Id Model Item Result Err) Id Model → Prop}

theorem mirrored_note (event : CacheEvent Id Model) :
    Triple (Mirrored event.loadedModel.toList []) (note event :
      Method (σ × HookLog Id Model Item Result Err) Id Model Err Unit)
      (fun _ => Mirrored [] event.unloadedModel.toList) err := by
  apply Triple.update
  intro w hw
  constructor
  · rw [loaded_note, List.append_nil]
    exact hw.loads
  · have hunloaded : w.unloaded = w.user.2.filterMap HookCall.unloaded := by
      rw [hw.unloads, List.append_nil]
    rw [unloaded_note, hunloaded]

theorem mirrored_setCache (cache : SieveCache Id Model) :
    Triple (Mirrored loads unloads) (setCache cache :
      Method (σ × HookLog Id Model Item Result Err) Id Model Err Unit)
      (fun _ => Mirrored loads unloads) err :=
  Triple.update _ fun _ h => ⟨h.loads, h.unloads⟩

theorem mirrored_returned (a? : Option α) :
    Triple (Mirrored [] []) (returned a? :
      Method (σ × HookLog Id Model Item Result Err) Id Model Err α)
      (fun _ => Mirrored [] []) (fun _ => Mirrored [] []) := by
  cases a? with
  | none => exact Triple.throw _ fun _ h => h
  | some a => exact Triple.pure _ fun _ h => h

variable [DecidableEq Id] (hooks : Hooks σ Id Model Item Result Err)

theorem makeRoom_mirrors :
    Triple (Mirrored [] []) (makeRoom hooks.recording) (fun _ => Mirrored [] [])
      (fun _ => Mirrored [] []) := by
  apply Triple.get_bind
  intro w hw
  apply Triple.ite
  · intro _
    apply Triple.bind _ ((mirrored_returned _).weaken (fun _ h => h ▸ hw) (fun _ _ h => h)
      fun _ _ h => h)
    rintro ⟨cache, evicted⟩
    apply Triple.bind _ (mirrored_setCache cache)
    rintro -
    cases evicted with
    | none => exact Triple.pure _ fun _ h => h
    | some p =>
      apply Triple.bind _ (mirrored_note (.unloading p.1 p.2))
      rintro -
      exact mirrored_hook (.unloadModel p.1 p.2) _ (fun _ => rfl) fun _ => rfl
  · intro _
    exact Triple.pure _ fun _ h => h ▸ hw

theorem loadInto_mirrors (modelId : Id) :
    Triple (Mirrored [] []) (loadInto hooks.recording modelId) (fun _ => Mirrored [] [])
      (fun _ => Mirrored [] []) := by
  apply Triple.get_bind
  intro w hw
  apply Triple.bind _ ((mirrored_note (.loading modelId _)).weaken (fun _ h => h ▸ hw)
    (fun _ _ h => h) fun _ _ h => h)
  rintro -
  apply Triple.bind _ (mirrored_hook (.loadModel modelId) (hooks.loadModel modelId)
    (fun _ => rfl) fun _ => rfl)
  intro model
  apply Triple.bind _ (mirrored_note (.loaded modelId model))
  rintro -
  apply Triple.get_bind
  intro w' hw'
  apply Triple.bind _ ((mirrored_returned _).weaken (fun _ h => h ▸ hw') (fun _ _ h => h)
    fun _ _ h => h)
  rintro ⟨cache, evicted⟩
  apply Triple.bind _ (mirrored_setCache cache)
  rintro -
  exact (mirrored_note (.putting modelId evicted)).bind _ fun _ => Triple.pure _ fun _ h => h

theorem ensureModel_mirrors (modelId : Id) :
    Triple (Mirrored [] []) (ensureModel hooks.recording modelId) (fun _ => Mirrored [] [])
      (fun _ => Mirrored [] []) := by
  apply Triple.get_bind
  intro w hw
  apply Triple.ite
  · intro _
    exact ((mirrored_setCache _).bind _ fun _ => mirrored_returned _).weaken (fun _ h => h ▸ hw)
      (fun _ _ h => h) fun _ _ h => h
  · intro _
    apply Triple.bind _ ((mirrored_hook (.hasModel modelId) (hooks.hasModel modelId)
      (fun _ => rfl) fun _ => rfl).weaken (fun _ h => h ▸ hw) (fun _ _ h => h) fun _ _ h => h)
    intro available
    apply Triple.ite
    · intro _
      exact (makeRoom_mirrors hooks).bind _ fun _ => loadInto_mirrors hooks modelId
    · intro _
      exact Triple.throw _ fun _ h => h

theorem forwardGroup_mirrors (results : List (Option Result)) (group : Id × List (ℕ × Item)) :
    Triple (Mirrored [] []) (forwardGroup hooks.recording results group)
      (fun _ => Mirrored [] []) (fun _ => Mirrored [] []) := by
  apply Triple.bind _ (ensureModel_mirrors hooks _)
  intro model
  apply Triple.bind _ (mirrored_note (.forwarding group.1 model group.2.length))
  rintro -
  apply Triple.bind _ (mirrored_hook (.forwardModel group.1 model _)
    (hooks.forwardModel group.1 model _) (fun _ => rfl) fun _ => rfl)
  intro subResults
  apply Triple.ite
  · intro _
    exact Triple.pure _ fun _ h => h
  · intro _
    exact Triple.throw _ fun _ h => h

theorem forward_mirrors (items : List Item) :
    Triple (Mirrored [] []) (forward hooks.recording items) (fun _ => Mirrored [] [])
      (fun _ => Mirrored [] []) := by
  apply Triple.bind fun _ => Mirrored [] []
  · apply Triple.foldlM fun _ _ => Mirrored [] []
    intro done p groups _
    apply Triple.bind _ (mirrored_hook (.getModelId p.2) (hooks.getModelId p.2)
      (fun _ => rfl) fun _ => rfl)
    intro modelId
    exact Triple.pure _ fun _ h => h
  intro groups
  apply Triple.get_bind
  intro w hw
  have hloop : ∀ (l : List (Id × List (ℕ × Item))) (results : List (Option Result)),
      Triple (Mirrored [] []) (l.foldlM (forwardGroup hooks.recording) results)
        (fun _ => Mirrored [] []) fun _ => Mirrored [] [] := by
    intro l results
    apply Triple.foldlM fun _ _ => Mirrored [] []
    intro done group results _
    exact forwardGroup_mirrors hooks results group
  exact (hloop _ _).weaken (fun _ h => h ▸ hw) (fun _ _ h => h) fun _ _ h => h

theorem calls_logged (user : σ) (n : ℕ) (hn : 1 ≤ n) (batches : List (List Item)) :
    ∃ log : HookLog Id Model Item Result Err,
      (afterCalls hooks.recording (new (user, []) n hn) batches).user.2 = log ∧
      (afterCalls hooks (new user n hn) batches).loaded = log.filterMap HookCall.loaded ∧
      (afterCalls hooks (new user n hn) batches).unloaded = log.filterMap HookCall.unloaded := by
  have hrun : erase (afterCalls hooks.recording (new (user, []) n hn) batches) =
        afterCalls hooks (new user n hn) batches ∧
      Mirrored [] [] (afterCalls hooks.recording (new (user, []) n hn) batches) := by
    induction batches using List.reverseRecOn with
    | nil => exact ⟨rfl, rfl, rfl⟩
    | append_singleton batches items ih =>
      obtain ⟨herase, hmirrored⟩ := ih
      simp only [afterCalls, List.foldl_append, List.foldl_cons, List.foldl_nil]
      simp only [afterCalls] at herase hmirrored
      constructor
      · rw [← herase]
        exact (forward_erases hooks items).finalState _
      · exact (forward_mirrors hooks items).finalState hmirrored
  obtain ⟨herase, hmirrored⟩ := hrun
  refine ⟨_, rfl, ?_, ?_⟩
  · rw [← herase, hmirrored.loads, List.append_nil]
    rfl
  · rw [← herase, ← List.append_nil (List.filterMap _ _), ← hmirrored.unloads]
    rfl

end Mirroring

section Grouping

variable [DecidableEq Id] {groups : List (Id × List (ℕ × Item))} {id : Id} {p : ℕ × Item}

structure Collected (pairs : List (Item × Id)) (groups : List (Id × List (ℕ × Item))) : Prop where
  once : (groups.map Prod.fst).Nodup
  ids : ∀ id, id ∈ groups.map Prod.fst ↔ id ∈ pairs.map Prod.snd
  items : ∀ g ∈ groups, g.2.map Prod.snd = (pairs.filter fun p => p.2 = g.1).map Prod.fst

theorem addTo_new (h : id ∉ groups.map Prod.fst) : addTo id p groups = groups ++ [(id, [p])] := by
  induction groups with
  | nil => rfl
  | cons group groups ih =>
    rw [List.map_cons, List.mem_cons, not_or] at h
    rw [addTo, if_neg (Ne.symm h.1), ih h.2, List.cons_append]

theorem addTo_old (hnodup : (groups.map Prod.fst).Nodup) (h : id ∈ groups.map Prod.fst) :
    addTo id p groups = groups.map fun g => if g.1 = id then (g.1, g.2 ++ [p]) else g := by
  induction groups with
  | nil => cases h
  | cons group groups ih =>
    obtain ⟨hfresh, hnodup⟩ := List.nodup_cons.mp hnodup
    rw [addTo, List.map_cons]
    by_cases hid : group.1 = id
    · have hrest : groups.map (fun g => if g.1 = id then (g.1, g.2 ++ [p]) else g) = groups := by
        conv_rhs => rw [← List.map_id groups]
        apply List.map_congr_left
        intro g hg
        have hne : g.1 ≠ id := by
          rintro heq
          exact hfresh (List.mem_map.mpr ⟨g, hg, heq.trans hid.symm⟩)
        rw [if_neg hne, id_eq]
      rw [if_pos hid, if_pos hid, hrest]
    · have hmem : id ∈ groups.map Prod.fst := (List.mem_cons.mp h).resolve_left (Ne.symm hid)
      rw [if_neg hid, if_neg hid, ih hnodup hmem]

theorem Collected.addTo {pairs : List (Item × Id)} (h : Collected pairs groups) (id : Id)
    (p : ℕ × Item) : Collected (pairs ++ [(p.2, id)]) (addTo id p groups) := by
  by_cases hid : id ∈ groups.map Prod.fst
  · have hkeys : (MultiModelWorker.addTo id p groups).map Prod.fst = groups.map Prod.fst := by
      rw [addTo_old h.once hid, List.map_map]
      apply List.map_congr_left
      intro g _
      rw [Function.comp_apply]
      split <;> rfl
    constructor
    · rw [hkeys]
      exact h.once
    · intro id'
      rw [hkeys, h.ids, List.map_append, List.mem_append]
      constructor
      · exact Or.inl
      · rintro (hold | hnew)
        · exact hold
        · rw [List.mem_singleton.mp hnew]
          exact (h.ids id).mp hid
    · intro g hg
      rw [addTo_old h.once hid] at hg
      obtain ⟨g', hg', rfl⟩ := List.mem_map.mp hg
      have hitems := h.items g' hg'
      rw [List.filter_append, List.map_append]
      by_cases heq : g'.1 = id
      · rw [if_pos heq, List.map_append, hitems]
        simp [heq]
      · rw [if_neg heq, hitems]
        simp [Ne.symm heq]
  · rw [addTo_new hid]
    constructor
    · rw [List.map_append]
      apply h.once.append (List.nodup_singleton _)
      rw [List.disjoint_singleton]
      exact hid
    · intro id'
      rw [List.map_append, List.map_append, List.mem_append, List.mem_append, h.ids]
      rfl
    · intro g hg
      rw [List.filter_append, List.map_append]
      rcases List.mem_append.mp hg with hold | hnew
      · have hne : id ≠ g.1 := fun heq => hid (heq ▸ List.mem_map_of_mem hold)
        rw [h.items g hold]
        simp [hne]
      · obtain rfl := List.mem_singleton.mp hnew
        have hnone : pairs.filter (fun q => q.2 = id) = [] := by
          apply List.filter_eq_nil_iff.mpr
          intro q hq hqid
          exact hid ((h.ids id).mpr (List.mem_map.mpr ⟨q, hq, by simpa using hqid⟩))
        simp [hnone]

end Grouping

end MultiModelWorker

end Mosec
