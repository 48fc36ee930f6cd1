import Mosec.ModelCalls

namespace Mosec.MultiModelWorker

open Program (Triple mapState finalState)

variable {σ Id Model Item Result Err : Type} [DecidableEq Id]
  {hooks : Hooks σ Id Model Item Result Err}
  {asks : List (Item × Id)} {loads : List (Id × Model)} {forwards : List (Id × Model × List Item)}
  {log : HookLog Id Model Item Result Err} {call : HookCall Id Model Item Result Err} {id : Id}

structure Tally (asks : List (Item × Id)) (loads : List (Id × Model))
    (forwards : List (Id × Model × List Item)) (log : HookLog Id Model Item Result Err) :
    Prop where
  fine : ∀ call ∈ log, call.Fine
  asked : log.filterMap HookCall.asked = asks
  loaded : log.filterMap HookCall.loaded = loads
  forwarded : log.filterMap HookCall.forwarded = forwards

omit [DecidableEq Id] in
theorem Tally.concat (h : Tally asks loads forwards log) (hcall : call.Fine) :
    Tally (asks ++ call.asked.toList) (loads ++ call.loaded.toList)
      (forwards ++ call.forwarded.toList) (log ++ [call]) := by
  constructor
  · intro other hother
    rcases List.mem_append.mp hother with hold | hnew
    · exact h.fine other hold
    · exact List.mem_singleton.mp hnew ▸ hcall
  · rw [filterMap_concat, h.asked]
  · rw [filterMap_concat, h.loaded]
  · rw [filterMap_concat, h.forwarded]

def Logged (P : Sieve Id Model → HookLog Id Model Item Result Err → Prop)
    (w : MultiModelWorker (σ × HookLog Id Model Item Result Err) Id Model) : Prop :=
  ∃ s, w.modelCache.Holds s ∧ P s w.user.2

def Faulty (w : MultiModelWorker (σ × HookLog Id Model Item Result Err) Id Model) : Prop :=
  ∃ call ∈ w.user.2, ¬ call.Fine

variable {P : Sieve Id Model → HookLog Id Model Item Result Err → Prop}

theorem triple_logged {α : Type}
    {Q : α → Sieve Id Model → HookLog Id Model Item Result Err → Prop}
    {kind : Except Err α → HookCall Id Model Item Result Err} {x : EStateM Err σ α}
    (hkind : ∀ e, ¬ (kind (.error e)).Fine)
    (h : ∀ a s log, P s log → Q a s (log ++ [kind (.ok a)])) :
    Triple (Logged P) (hook (logged kind x) : Method _ Id Model Err α) (fun a => Logged (Q a))
      (fun _ => Faulty) := by
  rintro w ⟨s, hs, hP⟩
  rw [hook, logged]
  cases x w.user.1 with
  | ok a user => exact ⟨s, hs, h a s _ hP⟩
  | error e user => exact ⟨kind (.error e), by simp, hkind e⟩

omit [DecidableEq Id] in
theorem not_fine_of_raises {α : Type} {kind : Except Err α → HookCall Id Model Item Result Err}
    (h : ∀ e, (kind (.error e)).raises = true) (e : Err) : ¬ (kind (.error e)).Fine :=
  fun hfine => Bool.false_ne_true (hfine.1.symm.trans (h e))

theorem triple_note (event : CacheEvent Id Model) :
    Triple (Logged P) (note event :
      Method (σ × HookLog Id Model Item Result Err) Id Model Err Unit) (fun _ => Logged P)
      (fun _ => Faulty) :=
  Triple.update _ fun _ h => h

theorem makeRoom_logs {K : Id → Prop} :
    Triple (Logged fun s log => (∀ k ∈ s.keys, K k) ∧ Tally asks loads forwards log)
      (makeRoom hooks.recording)
      (fun _ => Logged fun s log => (∀ k ∈ s.keys, K k) ∧ Tally asks loads forwards log)
      (fun _ => Faulty) := by
  apply Triple.get_bind
  rintro w ⟨s, hs, hkeys, htally⟩
  apply Triple.ite
  · intro _
    obtain ⟨cache, hevict, hholds, -⟩ := hs.evict
    have hkeys' : ∀ k ∈ s.evict.1.keys, K k := by
      intro k hk
      obtain ⟨e, he, rfl⟩ := List.mem_map.mp hk
      exact hkeys _ (Sieve.key_mem_of_evict he)
    apply Triple.bind fun p w' => w' = w ∧ p = (cache, s.evict.2)
    · exact triple_returned fun w' hw' => ⟨_, hw' ▸ hevict, hw', rfl⟩
    rintro ⟨cache', evicted⟩
    apply Triple.bind fun _ => Logged fun s log =>
      (∀ k ∈ s.keys, K k) ∧ Tally asks loads forwards log
    · apply Triple.update
      rintro _ ⟨rfl, hp⟩
      cases hp
      exact ⟨_, hholds, hkeys', htally⟩
    rintro -
    cases evicted with
    | none => exact Triple.pure _ fun _ h => h
    | some p =>
      apply Triple.bind _ (triple_note _)
      rintro -
      apply triple_logged
      · exact not_fine_of_raises fun _ => rfl
      · rintro a s log ⟨hk, ht⟩
        have hfine : HookCall.Fine (.unloadModel p.1 p.2 (.ok a) :
            HookCall Id Model Item Result Err) := ⟨rfl, trivial⟩
        refine ⟨hk, ?_⟩
        simpa [HookCall.asked, HookCall.loaded, HookCall.forwarded] using ht.concat hfine
  · intro _
    apply Triple.pure
    rintro _ rfl
    exact ⟨s, hs, hkeys, htally⟩

theorem loadInto_logs {K : Id → Prop} (id : Id) :
    Triple (Logged fun s log => (∀ k ∈ s.keys, K k) ∧ Tally asks loads forwards log)
      (loadInto hooks.recording id)
      (fun model => Logged fun s log =>
        (∀ k ∈ s.keys, k = id ∨ K k) ∧ Tally asks (loads ++ [(id, model)]) forwards log)
      (fun _ => Faulty) := by
  apply Triple.get_bind
  rintro w hw
  apply Triple.bind fun _ => Logged fun s log =>
    (∀ k ∈ s.keys, K k) ∧ Tally asks loads forwards log
  · exact (triple_note _).weaken (fun _ h => h ▸ hw) (fun _ _ h => h) fun _ _ h => h
  rintro -
  apply Triple.bind fun model => Logged fun s log =>
    (∀ k ∈ s.keys, K k) ∧ Tally asks (loads ++ [(id, model)]) forwards log
  · apply triple_logged
    · exact not_fine_of_raises fun _ => rfl
    · rintro model s log ⟨hk, ht⟩
      have hfine : HookCall.Fine (.loadModel id (.ok model) :
          HookCall Id Model Item Result Err) := ⟨rfl, trivial⟩
      refine ⟨hk, ?_⟩
      simpa [HookCall.asked, HookCall.loaded, HookCall.forwarded] using ht.concat hfine
  intro model
  apply Triple.bind _ (triple_note _)
  rintro -
  apply Triple.get_bind
  rintro w' ⟨s, hs, hkeys, htally⟩
  obtain ⟨cache, hput, hholds, -⟩ := hs.put id model
  have hkeys' : ∀ k ∈ (s.put w'.modelCache.maxSize id model).1.keys, k = id ∨ K k := by
    intro k hk
    exact (Sieve.mem_keys_of_put hk).imp_right (hkeys k)
  apply Triple.bind fun p w'' => w'' = w' ∧ p = (cache, (s.put w'.modelCache.maxSize id model).2)
  · exact triple_returned fun w'' hw'' => ⟨_, hw'' ▸ hput, hw'', rfl⟩
  rintro ⟨cache', evicted⟩
  apply Triple.bind fun _ => Logged fun s log =>
    (∀ k ∈ s.keys, k = id ∨ K k) ∧ Tally asks (loads ++ [(id, model)]) forwards log
  · apply Triple.update
    rintro _ ⟨rfl, hp⟩
    cases hp
    exact ⟨_, hholds, hkeys', htally⟩
  rintro -
  apply Triple.bind _ (triple_note _)
  rintro -
  exact Triple.pure _ fun _ h => h

theorem ensureModel_warm {entry : Id → Option Model} (hid : (entry id).isSome) :
    Triple (Logged fun s log => (∀ k, s.lookup k = entry k) ∧ Tally asks loads forwards log)
      (ensureModel hooks.recording id)
      (fun model => Logged fun s log => ((∀ k, s.lookup k = entry k) ∧ entry id = some model) ∧
        Tally asks loads forwards log)
      (fun _ => Faulty) := by
  obtain ⟨model, hmodel⟩ := Option.isSome_iff_exists.mp hid
  apply Triple.get_bind
  rintro w ⟨s, hs, hlookup, htally⟩
  have hin : w.modelCache.contains id = true := by
    rw [hs.contains, decide_eq_true_eq, ← Sieve.lookup_isSome, hlookup]
    exact hid
  obtain ⟨hvalue, hholds, -⟩ := hs.get id
  apply Triple.ite
  · intro _
    apply Triple.bind fun _ => Logged fun s log =>
      (∀ k, s.lookup k = entry k) ∧ Tally asks loads forwards log
    · apply Triple.update
      rintro _ rfl
      refine ⟨_, hholds, fun k => ?_, htally⟩
      rw [Sieve.lookup_get]
      exact hlookup k
    · rintro -
      apply triple_returned
      rintro w' ⟨s', hs', hlookup', htally'⟩
      exact ⟨model, hvalue.trans ((hlookup id).trans hmodel), s', hs', ⟨hlookup', hmodel⟩,
        htally'⟩
  · intro hmiss
    exact absurd hin hmiss

theorem ensureModel_cold {K : Id → Prop} (hid : ¬ K id) :
    Triple (Logged fun s log => (∀ k ∈ s.keys, K k) ∧ Tally asks loads forwards log)
      (ensureModel hooks.recording id)
      (fun model => Logged fun s log =>
        (∀ k ∈ s.keys, k = id ∨ K k) ∧ Tally asks (loads ++ [(id, model)]) forwards log)
      (fun _ => Faulty) := by
  apply Triple.get_bind
  rintro w ⟨s, hs, hkeys, htally⟩
  have hout : ¬ w.modelCache.contains id = true := by
    rw [hs.contains, decide_eq_true_eq]
    exact fun hmem => hid (hkeys id hmem)
  apply Triple.ite
  · intro hhit
    exact absurd hhit hout
  · intro _
    apply Triple.bind fun available => Logged fun s log => ∃ log', log = log' ++
      [.hasModel id (.ok available)] ∧ (∀ k ∈ s.keys, K k) ∧ Tally asks loads forwards log'
    · exact (triple_logged (not_fine_of_raises fun _ => rfl)
        fun _ _ log h => ⟨log, rfl, h⟩).weaken (fun _ h => h ▸ ⟨s, hs, hkeys, htally⟩)
        (fun _ _ h => h) fun _ _ h => h
    intro available
    apply Triple.ite
    · rintro rfl
      apply Triple.bind _ (makeRoom_logs.weaken ?_ (fun _ _ h => h) fun _ _ h => h)
      · rintro -
        exact loadInto_logs id
      · rintro w' ⟨s', hs', log', hlog, hk, ht⟩
        have hfine : HookCall.Fine (.hasModel id (.ok true) :
            HookCall Id Model Item Result Err) := ⟨rfl, rfl⟩
        refine ⟨s', hs', hk, ?_⟩
        rw [hlog]
        simpa [HookCall.asked, HookCall.loaded, HookCall.forwarded] using ht.concat hfine
    · intro hfalse
      apply Triple.throw
      rintro w' ⟨s', -, log', hlog, -⟩
      refine ⟨.hasModel id (.ok available), by rw [hlog]; simp, fun hfine => hfalse hfine.2⟩

theorem forwardGroup_logs
    {pre : MultiModelWorker (σ × HookLog Id Model Item Result Err) Id Model → Prop}
    {R : Model → Sieve Id Model → Prop} {loadsOf : Model → List (Id × Model)}
    {group : Id × List (ℕ × Item)} (results : List (Option Result))
    (h : Triple pre (ensureModel hooks.recording group.1)
      (fun model => Logged fun s log => R model s ∧ Tally asks (loadsOf model) forwards log)
      (fun _ => Faulty)) :
    Triple pre (forwardGroup hooks.recording results group)
      (fun _ => Logged fun s log => ∃ model, R model s ∧
        Tally asks (loadsOf model) (forwards ++ [(group.1, model, group.2.map Prod.snd)]) log)
      (fun _ => Faulty) := by
  apply Triple.bind _ h
  intro model
  apply Triple.bind _ (triple_note _)
  rintro -
  apply Triple.bind fun subResults => Logged fun s log => ∃ log', log = log' ++
    [.forwardModel group.1 model (group.2.map Prod.snd) (.ok subResults)] ∧ R model s ∧
      Tally asks (loadsOf model) forwards log'
  · exact triple_logged (not_fine_of_raises fun _ => rfl) fun _ _ log h => ⟨log, rfl, h⟩
  intro subResults
  apply Triple.ite
  · intro hlen
    apply Triple.pure
    rintro w ⟨s, hs, log', hlog, hR, ht⟩
    have hfine : HookCall.Fine (.forwardModel group.1 model (group.2.map Prod.snd)
        (.ok subResults) : HookCall Id Model Item Result Err) :=
      ⟨rfl, hlen.trans (List.length_map _).symm⟩
    refine ⟨s, hs, model, hR, ?_⟩
    rw [hlog]
    simpa [HookCall.asked, HookCall.loaded, HookCall.forwarded] using ht.concat hfine
  · intro hlen
    apply Triple.throw
    rintro w ⟨s, -, log', hlog, -⟩
    refine ⟨.forwardModel group.1 model (group.2.map Prod.snd) (.ok subResults), ?_, ?_⟩
    · rw [hlog]
      simp
    · exact fun hfine => hlen (hfine.2.trans (List.length_map _))

def Gathered (s : Sieve Id Model) (done : List (ℕ × Item))
    (groups : List (Id × List (ℕ × Item))) :
    MultiModelWorker (σ × HookLog Id Model Item Result Err) Id Model → Prop :=
  Logged fun s' log => s' = s ∧ ∃ ids, ids.length = (done.map Prod.snd).length ∧
    Tally ((done.map Prod.snd).zip ids) [] [] log ∧ Collected ((done.map Prod.snd).zip ids) groups

theorem gathered_step (s : Sieve Id Model) (done : List (ℕ × Item)) (p : ℕ × Item)
    (groups : List (Id × List (ℕ × Item))) :
    Triple (Gathered s done groups)
      (do
        let modelId ← hook (hooks.recording.getModelId p.2)
        return addTo modelId p groups)
      (fun groups' => Gathered s (done ++ [p]) groups') (fun _ => Faulty) := by
  apply Triple.bind fun modelId => Gathered s (done ++ [p]) (addTo modelId p groups)
  · apply triple_logged
    · exact not_fine_of_raises fun _ => rfl
    · rintro modelId s' log ⟨rfl, ids, hlen, ht, hc⟩
      have hfine : HookCall.Fine (.getModelId p.2 (.ok modelId) :
          HookCall Id Model Item Result Err) := ⟨rfl, trivial⟩
      have hzip : ((done ++ [p]).map Prod.snd).zip (ids ++ [modelId]) =
          (done.map Prod.snd).zip ids ++ [(p.2, modelId)] := by
        rw [List.map_append, List.zip_append hlen.symm]
        rfl
      refine ⟨rfl, ids ++ [modelId], by simp [hlen], ?_, ?_⟩
      · rw [hzip]
        exact ht.concat hfine
      · rw [hzip]
        exact hc.addTo modelId p
  · intro modelId
    exact Triple.pure _ fun _ h => h

theorem groupItems_logs (s : Sieve Id Model) (items : List Item) :
    Triple (Logged fun s' log => s' = s ∧ log = []) (groupItems hooks.recording items)
      (fun groups => Logged fun s' log => s' = s ∧ ∃ ids, ids.length = items.length ∧
        Tally (items.zip ids) [] [] log ∧ Collected (items.zip ids) groups)
      (fun _ => Faulty) := by
  have hitems : (items.zipIdx.map fun p => (p.2, p.1)).map Prod.snd = items := by
    rw [List.map_map]
    exact List.zipIdx_map_fst 0 items
  apply Triple.weaken (Triple.foldlM (Gathered s) (items.zipIdx.map fun p => (p.2, p.1))
    (fun done p groups _ => gathered_step s done p groups) []) ?_ ?_ fun _ _ h => h
  · rintro w ⟨s', hs, rfl, hlog⟩
    refine ⟨_, hs, rfl, [], rfl, ?_, ⟨List.nodup_nil, by simp, by simp⟩⟩
    rw [hlog]
    exact ⟨by simp, rfl, rfl, rfl⟩
  · rintro groups w hw
    rw [Gathered, hitems] at hw
    exact hw

structure Served (entry : SieveCache Id Model) (items : List Item) (ids : List Id)
    (log : HookLog Id Model Item Result Err) : Prop where
  asked : log.filterMap HookCall.asked = items.zip ids
  loads_once : (log.filterMap HookCall.loadCall).Nodup
  loads : ∀ id, id ∈ log.filterMap HookCall.loadCall ↔ id ∈ ids ∧ entry.contains id = false
  forwards_once : ((log.filterMap HookCall.forwarded).map Prod.fst).Nodup
  forwards : ∀ id, id ∈ (log.filterMap HookCall.forwarded).map Prod.fst ↔ id ∈ ids
  items : ∀ call ∈ log.filterMap HookCall.forwarded,
    call.2.2 = ((items.zip ids).filter fun p => p.2 = call.1).map Prod.fst
  warm : ∀ call ∈ log.filterMap HookCall.forwarded, entry.contains call.1 = true →
    (entry.get call.1).2 = some call.2.1
  cold : ∀ call ∈ log.filterMap HookCall.forwarded, entry.contains call.1 = false →
    (call.1, call.2.1) ∈ log.filterMap HookCall.loaded

omit [DecidableEq Id] in
theorem Tally.loadCalls (h : Tally asks loads forwards log) :
    log.filterMap HookCall.loadCall = loads.map Prod.fst := by
  rw [← h.loaded, List.map_filterMap]
  apply List.filterMap_congr
  intro call hcall
  have hquiet := (h.fine call hcall).1
  cases call with
  | loadModel id outcome =>
    cases outcome with
    | ok model => rfl
    | error e => cases hquiet
  | _ => rfl

def Answers (done : List (Id × List (ℕ × Item))) (forwards : List (Id × Model × List Item)) :
    Prop :=
  forwards.map (fun call => (call.1, call.2.2)) = done.map fun g => (g.1, g.2.map Prod.snd)

omit [DecidableEq Id] in
theorem Answers.concat {done : List (Id × List (ℕ × Item))} (h : Answers done forwards)
    (group : Id × List (ℕ × Item)) (model : Model) :
    Answers (done ++ [group]) (forwards ++ [(group.1, model, group.2.map Prod.snd)]) := by
  rw [Answers, List.map_append, List.map_append, h]
  rfl

def Warm (s : Sieve Id Model) (asks : List (Item × Id)) (done : List (Id × List (ℕ × Item))) :
    MultiModelWorker (σ × HookLog Id Model Item Result Err) Id Model → Prop :=
  Logged fun s' log => (∀ k, s'.lookup k = s.lookup k) ∧ ∃ forwards, Tally asks [] forwards log ∧
    Answers done forwards ∧ ∀ call ∈ forwards, s.lookup call.1 = some call.2.1

def Cold (s : Sieve Id Model) (asks : List (Item × Id))
    (hits done : List (Id × List (ℕ × Item))) :
    MultiModelWorker (σ × HookLog Id Model Item Result Err) Id Model → Prop :=
  Logged fun s' log => (∀ k ∈ s'.keys, k ∈ s.keys ∨ k ∈ done.map Prod.fst) ∧
    ∃ loads forwards, Tally asks loads forwards log ∧ loads.map Prod.fst = done.map Prod.fst ∧
      Answers (hits ++ done) forwards ∧
      ∀ call ∈ forwards, s.lookup call.1 = some call.2.1 ∨ (call.1, call.2.1) ∈ loads

theorem forwardGroup_warm {s : Sieve Id Model} {done : List (Id × List (ℕ × Item))}
    {group : Id × List (ℕ × Item)} (hgroup : group.1 ∈ s.keys) (results : List (Option Result)) :
    Triple (Warm s asks done) (forwardGroup hooks.recording results group)
      (fun _ => Warm s asks (done ++ [group])) (fun _ => Faulty) := by
  rintro w ⟨s', hs, hlookup, forwards, ht, hanswers, hwarm⟩
  have hcached : (s.lookup group.1).isSome := Sieve.lookup_isSome.mpr hgroup
  refine (forwardGroup_logs results (ensureModel_warm hcached)).weaken (fun _ h => h) ?_
    (fun _ _ h => h) w ⟨s', hs, hlookup, ht⟩
  rintro _ w' ⟨s'', hs', model, ⟨hlookup', hmodel⟩, ht'⟩
  refine ⟨s'', hs', hlookup', _, ht', hanswers.concat group model, ?_⟩
  intro call hcall
  rcases List.mem_append.mp hcall with hold | hnew
  · exact hwarm call hold
  · exact List.mem_singleton.mp hnew ▸ hmodel

theorem forwardGroup_cold {s : Sieve Id Model} {hits done : List (Id × List (ℕ × Item))}
    {group : Id × List (ℕ × Item)} (hgroup : group.1 ∉ s.keys)
    (hfresh : group.1 ∉ done.map Prod.fst) (results : List (Option Result)) :
    Triple (Cold s asks hits done) (forwardGroup hooks.recording results group)
      (fun _ => Cold s asks hits (done ++ [group])) (fun _ => Faulty) := by
  rintro w ⟨s', hs, hkeys, loads, forwards, ht, hloads, hanswers, hserved⟩
  have hmissing : ¬ (group.1 ∈ s.keys ∨ group.1 ∈ done.map Prod.fst) :=
    not_or.mpr ⟨hgroup, hfresh⟩
  refine (forwardGroup_logs results (ensureModel_cold
    (K := fun k => k ∈ s.keys ∨ k ∈ done.map Prod.fst) hmissing)).weaken (fun _ h => h) ?_
    (fun _ _ h => h) w ⟨s', hs, hkeys, ht⟩
  rintro _ w' ⟨s'', hs', model, hkeys', ht'⟩
  refine ⟨s'', hs', ?_, _, _, ht', ?_, ?_, ?_⟩
  · intro k hk
    rw [List.map_append, List.mem_append]
    rcases hkeys' k hk with rfl | hold | hdone
    · exact Or.inr (Or.inr (by simp))
    · exact Or.inl hold
    · exact Or.inr (Or.inl hdone)
  · rw [List.map_append, List.map_append, hloads]
    rfl
  · rw [← List.append_assoc]
    exact hanswers.concat group model
  · intro call hcall
    rcases List.mem_append.mp hcall with hold | hnew
    · exact (hserved call hold).imp_right (List.mem_append_left _)
    · obtain rfl := List.mem_singleton.mp hnew
      exact Or.inr (by simp)

theorem served_of_cold {s : Sieve Id Model} {entry : SieveCache Id Model} (hentry : entry.Holds s)
    {items : List Item} {ids : List Id} (hlen : ids.length = items.length)
    {groups : List (Id × List (ℕ × Item))} (hgroups : Collected (items.zip ids) groups)
    {w : MultiModelWorker (σ × HookLog Id Model Item Result Err) Id Model}
    (h : Cold s (items.zip ids) (groups.filter fun g => entry.contains g.1)
      (groups.filter fun g => !entry.contains g.1) w) :
    Served entry items ids w.user.2 ∧ ∀ call ∈ w.user.2, call.Fine := by
  obtain ⟨s', -, -, loads, forwards, ht, hloads, hanswers, hserved⟩ := h
  have hids : (items.zip ids).map Prod.snd = ids := List.map_snd_zip hlen.le
  have hperm := List.filter_append_perm (fun g => entry.contains g.1) groups
  have hfirst : forwards.map Prod.fst = ((groups.filter fun g => entry.contains g.1) ++
      groups.filter fun g => !entry.contains g.1).map Prod.fst := by
    have hmapped := congrArg (List.map Prod.fst) hanswers
    rw [List.map_map, List.map_map] at hmapped
    exact hmapped
  have hmiss : ∀ id, id ∈ loads.map Prod.fst ↔ id ∈ ids ∧ entry.contains id = false := by
    intro id
    rw [hloads, ← hids, ← hgroups.ids]
    constructor
    · intro hid
      obtain ⟨g, hg, rfl⟩ := List.mem_map.mp hid
      obtain ⟨hmem, hout⟩ := List.mem_filter.mp hg
      exact ⟨List.mem_map_of_mem hmem, by simpa using hout⟩
    · rintro ⟨hid, hout⟩
      obtain ⟨g, hg, rfl⟩ := List.mem_map.mp hid
      exact List.mem_map_of_mem (List.mem_filter.mpr ⟨hg, by simpa using hout⟩)
  have hlookup : ∀ id, entry.contains id = false → s.lookup id = none := by
    intro id hout
    rw [hentry.contains, decide_eq_false_iff_not, ← Sieve.lookup_isSome] at hout
    simpa using hout
  refine ⟨⟨ht.asked, ?_, ?_, ?_, ?_, ?_, ?_, ?_⟩, ht.fine⟩
  case refine_1 =>
    rw [ht.loadCalls, hloads]
    exact hgroups.once.sublist (List.filter_sublist.map Prod.fst)
  case refine_2 =>
    rw [ht.loadCalls]
    exact hmiss
  case refine_3 =>
    rw [ht.forwarded, hfirst]
    exact (hperm.map Prod.fst).nodup_iff.mpr hgroups.once
  case refine_4 =>
    intro id
    rw [ht.forwarded, hfirst, (hperm.map Prod.fst).mem_iff, hgroups.ids, hids]
  case refine_5 =>
    intro call hcall
    rw [ht.forwarded] at hcall
    have hmapped : (call.1, call.2.2) ∈ forwards.map (fun call => (call.1, call.2.2)) :=
      List.mem_map_of_mem (f := fun call => (call.1, call.2.2)) hcall
    rw [hanswers] at hmapped
    obtain ⟨g, hg, hcallg⟩ := List.mem_map.mp hmapped
    have hitems := hgroups.items g (hperm.mem_iff.mp hg)
    injection hcallg with hid hxs
    rw [← hxs, hitems, hid]
  case refine_6 =>
    intro call hcall hin
    rw [ht.forwarded] at hcall
    obtain ⟨hvalue, -, -⟩ := hentry.get call.1
    rw [hvalue]
    apply (hserved call hcall).resolve_right
    intro hload
    have hout := ((hmiss call.1).mp (List.mem_map_of_mem hload)).2
    exact Bool.false_ne_true (hout.symm.trans hin)
  case refine_7 =>
    intro call hcall hout
    rw [ht.forwarded] at hcall
    rw [ht.loaded]
    apply (hserved call hcall).resolve_left
    rw [hlookup call.1 hout]
    exact fun heq => by cases heq

theorem cold_of_warm {s : Sieve Id Model} {hits : List (Id × List (ℕ × Item))}
    {w : MultiModelWorker (σ × HookLog Id Model Item Result Err) Id Model}
    (h : Warm s asks hits w) : Cold s asks hits [] w := by
  obtain ⟨s', hs, hlookup, forwards, ht, hanswers, hwarm⟩ := h
  refine ⟨s', hs, fun k hk => Or.inl ?_, [], forwards, ht, rfl, ?_, fun call hcall => ?_⟩
  · rw [← Sieve.lookup_isSome, ← hlookup, Sieve.lookup_isSome]
    exact hk
  · rwa [List.append_nil]
  · exact Or.inl (hwarm call hcall)

theorem forwardGroups_warm {s : Sieve Id Model} {hits : List (Id × List (ℕ × Item))}
    (hhits : ∀ group ∈ hits, group.1 ∈ s.keys) (results : List (Option Result)) :
    Triple (Warm s asks []) (hits.foldlM (forwardGroup hooks.recording) results)
      (fun _ => Warm s asks hits) (fun _ => Faulty) :=
  Triple.foldlM (fun done _ => Warm s asks done) hits
    (fun _ group results hgroup => forwardGroup_warm (hhits group hgroup) results) results

theorem forwardGroups_cold {s : Sieve Id Model} {hits misses : List (Id × List (ℕ × Item))}
    (hmisses : ∀ group ∈ misses, group.1 ∉ s.keys) (honce : (misses.map Prod.fst).Nodup)
    (results : List (Option Result)) :
    Triple (Cold s asks hits []) (misses.foldlM (forwardGroup hooks.recording) results)
      (fun _ => Cold s asks hits misses) (fun _ => Faulty) := by
  apply Triple.foldlM_split (fun done _ => Cold s asks hits done) misses
  intro done group rest results hsplit
  have hgroup := hmisses group (by rw [hsplit]; simp)
  rw [hsplit, List.map_append, List.map_cons] at honce
  have hdisjoint := List.disjoint_of_nodup_append honce
  exact forwardGroup_cold hgroup (fun hmem => hdisjoint hmem (List.mem_cons_self ..)) results

theorem forward_logs {s : Sieve Id Model} {entry : SieveCache Id Model} (hentry : entry.Holds s)
    (items : List Item) :
    Triple (fun w => w.modelCache = entry ∧ w.user.2 = []) (forward hooks.recording items)
      (fun _ w => ∃ ids, ids.length = items.length ∧ Served entry items ids w.user.2 ∧
        ∀ call ∈ w.user.2, call.Fine)
      (fun _ => Faulty) := by
  apply Triple.bind _ ((groupItems_logs s items).weaken ?_ (fun _ _ h => h) fun _ _ h => h)
  · intro groups
    apply Triple.get_bind
    rintro w ⟨s', hs, rfl, ids, hlen, ht, hc⟩
    have hsame : ∀ id, w.modelCache.contains id = entry.contains id := by
      intro id
      rw [hs.contains, hentry.contains]
    change Triple _ ((groups.filter (fun g => w.modelCache.contains g.1) ++
      groups.filter fun g => !w.modelCache.contains g.1).foldlM (forwardGroup hooks.recording)
        (List.replicate items.length none)) _ _
    simp only [hsame, List.foldlM_append]
    have hhits : ∀ group ∈ groups.filter fun g => entry.contains g.1, group.1 ∈ s'.keys := by
      intro group hgroup
      have hin := (List.mem_filter.mp hgroup).2
      rwa [hentry.contains, decide_eq_true_eq] at hin
    have hmisses : ∀ group ∈ groups.filter fun g => !entry.contains g.1, group.1 ∉ s'.keys := by
      intro group hgroup
      have hout := (List.mem_filter.mp hgroup).2
      rw [hentry.contains] at hout
      simpa using hout
    have honce : ((groups.filter fun g => !entry.contains g.1).map Prod.fst).Nodup :=
      hc.once.sublist (List.filter_sublist.map Prod.fst)
    apply Triple.bind _ ((forwardGroups_warm hhits _).weaken ?_ (fun _ _ h => h) fun _ _ h => h)
    · intro results
      exact (forwardGroups_cold hmisses honce results).weaken (fun _ h => cold_of_warm h)
        (fun _ w' h => ⟨ids, hlen, served_of_cold hentry hlen hc h⟩) fun _ _ h => h
    · rintro _ rfl
      exact ⟨s', hs, fun _ => rfl, [], ht, rfl, by simp⟩
  · rintro w ⟨hcache, hlog⟩
    exact ⟨s, hcache ▸ hentry, rfl, hlog⟩

/-- From every reachable cache, `forward` fails only where a hook raises, a model is not available
or results are missing, and else its calls serve the batch. -/
theorem forward_serves (hooks : Hooks σ Id Model Item Result Err) (user : σ) (n : ℕ) (hn : 1 ≤ n)
    (batches : List (List Item)) (items : List Item) :
    let w := afterCalls hooks (new user n hn) batches
    let w' := finalState (forward hooks.recording items) w.recorded
    mapState erase (forward hooks.recording items w.recorded) = forward hooks items w ∧
      ((∀ call ∈ w'.user.2, call.Fine) ↔
        ∃ results v, forward hooks items w = .ok results v) ∧
      ((∀ call ∈ w'.user.2, call.Fine) →
        ∃ ids, ids.length = items.length ∧ Served w.modelCache items ids w'.user.2) := by
  intro w w'
  have haccounted : Accounted (fun _ _ => True) n w :=
    accounted_afterCalls (fun _ => trivial) user hn batches
  obtain ⟨s, hs⟩ := haccounted
  have herases : mapState erase (forward hooks.recording items w.recorded) =
      forward hooks items w := forward_erases hooks items w.recorded
  have hlogs := @forward_logs _ _ _ _ _ _ _ hooks _ _ hs.holds items w.recorded ⟨rfl, rfl⟩
  refine ⟨herases, ?_⟩
  simp only [w', finalState]
  rw [← herases]
  cases hrun : forward hooks.recording items w.recorded with
  | ok results v =>
    rw [hrun] at hlogs
    obtain ⟨ids, hlen, hserved, hfine⟩ := hlogs
    exact ⟨⟨fun _ => ⟨results, v.erase, rfl⟩, fun _ => hfine⟩, fun _ =>
      ⟨ids, hlen, hserved⟩⟩
  | error e v =>
    rw [hrun] at hlogs
    obtain ⟨call, hcall, hfault⟩ := hlogs
    refine ⟨⟨fun hfine => absurd (hfine call hcall) hfault, ?_⟩, fun hfine =>
      absurd (hfine call hcall) hfault⟩
    rintro ⟨_, _, heq⟩
    cases heq

theorem forward_serves_echo :
    let w := afterCalls echoHooks (new () 1 (by decide)) [[1], [2]]
    let w' := finalState (forward echoHooks.recording [1, 2, 1]) w.recorded
    ∃ ids, ids.length = [1, 2, 1].length ∧ Served w.modelCache [1, 2, 1] ids w'.user.2 := by
  have h := forward_serves echoHooks () 1 (by decide) [[1], [2]] [1, 2, 1]
  obtain ⟨v, hreturns⟩ :=
    (itemwise_echo [1, 2, 1]).forward_returns () (by decide : 1 ≤ 1) [[1], [2]]
  exact h.2.2 (h.2.1.mpr ⟨_, v, hreturns⟩)

theorem forward_skips_loads :
    let absent : Hooks Unit ℕ ℕ ℕ ℕ Unit := { echoHooks with hasModel := fun _ => pure false }
    let short : Hooks Unit ℕ ℕ ℕ ℕ Unit :=
      { echoHooks with forwardModel := fun _ _ _ => pure [] }
    let log := fun (hooks : Hooks Unit ℕ ℕ ℕ ℕ Unit) items =>
      (finalState (forward hooks.recording items) (recorded (new () 1 (by decide)))).user.2
    (∀ call ∈ log absent [1], call.raises = false) ∧
      1 ∉ (log absent [1]).filterMap HookCall.loadCall ∧
      (∀ call ∈ log short [1, 2], call.raises = false) ∧
      2 ∉ (log short [1, 2]).filterMap HookCall.loadCall := by
  intro absent short log
  have habsent : log absent [1] = [.getModelId 1 (.ok 1), .hasModel 1 (.ok false)] := rfl
  have hshort : log short [1, 2] = [.getModelId 1 (.ok 1), .getModelId 2 (.ok 2),
    .hasModel 1 (.ok true), .loadModel 1 (.ok 10), .forwardModel 1 10 [1] (.ok [])] := rfl
  rw [habsent, hshort]
  refine ⟨?_, by decide, ?_, by decide⟩ <;> simp [HookCall.raises, HookCall.isError]

end Mosec.MultiModelWorker
