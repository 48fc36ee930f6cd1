import Mosec.MultiModel
import Mosec.SieveRefinement

namespace Mosec

open Program (Triple finalState)
open scoped List

variable {σ Id Model Item Result Err : Type}

def CacheEvent.loadedModel : CacheEvent Id Model → Option (Id × Model)
  | .loaded id model => some (id, model)
  | _ => none

def CacheEvent.unloadedModel : CacheEvent Id Model → Option (Id × Model)
  | .unloading id model => some (id, model)
  | _ => none

namespace MultiModelWorker

def loaded (w : MultiModelWorker σ Id Model) : List (Id × Model) :=
  w.events.filterMap CacheEvent.loadedModel

def unloaded (w : MultiModelWorker σ Id Model) : List (Id × Model) :=
  w.events.filterMap CacheEvent.unloadedModel

theorem filterMap_concat {α β : Type} (g : α → Option β) (l : List α) (a : α) :
    (l ++ [a]).filterMap g = l.filterMap g ++ (g a).toList := by
  rw [List.filterMap_append]
  cases hg : g a <;> simp [hg]

theorem loaded_note (w : MultiModelWorker σ Id Model) (event : CacheEvent Id Model) :
    loaded { w with events := w.events ++ [event] } = w.loaded ++ event.loadedModel.toList :=
  filterMap_concat _ _ _

theorem unloaded_note (w : MultiModelWorker σ Id Model) (event : CacheEvent Id Model) :
    unloaded { w with events := w.events ++ [event] } =
      w.unloaded ++ event.unloadedModel.toList :=
  filterMap_concat _ _ _

section Methods

variable {α : Type} {pre : MultiModelWorker σ Id Model → Prop}
  {post : α → MultiModelWorker σ Id Model → Prop}
  {err : ModelError Id Err → MultiModelWorker σ Id Model → Prop}

theorem triple_hook {x : EStateM Err σ α} (hpre : ∀ {w} user, pre w → pre { w with user := user })
    (hpost : ∀ {user a user'} w, x user = .ok a user' → pre w → post a w)
    (herr : ∀ {user e user'} w, x user = .error e user' → pre w → err (.raised e) w) :
    Triple pre (hook x : Method σ Id Model Err α) post err := by
  intro w hw
  rw [hook]
  cases hrun : x w.user with
  | ok a user => exact hpost _ hrun (hpre user hw)
  | error e user => exact herr _ hrun (hpre user hw)

theorem triple_returned {a? : Option α} (h : ∀ w, pre w → ∃ a, a? = some a ∧ post a w) :
    Triple pre (returned a? : Method σ Id Model Err α) post err := by
  intro w hw
  obtain ⟨a, rfl, hpost⟩ := h w hw
  exact hpost

end Methods

variable [DecidableEq Id]

/-- The cache is in the state `s`, what was loaded is there, was unloaded, or is `extra`, and the
loaded models are `good` for their ids. -/
structure Ledger (good : Id → Model → Prop) (n : ℕ) (extra : List (Id × Model))
    (s : Sieve Id Model) (w : MultiModelWorker σ Id Model) : Prop where
  holds : w.modelCache.Holds s
  maxSize : w.modelCache.maxSize = n
  balanced : w.loaded ~ extra ++ s.items ++ w.unloaded
  loads : ∀ p ∈ w.loaded, good p.1 p.2
  room : ∀ {id r}, .loading id r ∈ w.events → r < n
  quiet : ∀ {id evicted}, .putting id evicted ∈ w.events → evicted = none

def Accounted (good : Id → Model → Prop) (n : ℕ) (w : MultiModelWorker σ Id Model) : Prop :=
  ∃ s, Ledger good n [] s w

def Spare (good : Id → Model → Prop) (n : ℕ) (modelId : Id) (w : MultiModelWorker σ Id Model) :
    Prop :=
  ∃ s, Ledger good n [] s w ∧ modelId ∉ s.keys ∧ s.entries.length < n

/-- `fault` covers what `_ensure_model` can raise for `modelId`, and `good` what it can load. -/
structure Covers (hooks : Hooks σ Id Model Item Result Err) (good : Id → Model → Prop)
    (fault : ModelError Id Err → Prop) (modelId : Id) : Prop where
  hasModel : ∀ {user err user'}, hooks.hasModel modelId user = .error err user' →
    fault (.raised err)
  available : ∀ {user user'}, hooks.hasModel modelId user = .ok false user' →
    fault (.unavailable modelId)
  loadModel : ∀ {user err user'}, hooks.loadModel modelId user = .error err user' →
    fault (.raised err)
  loads : ∀ {user model user'}, hooks.loadModel modelId user = .ok model user' →
    good modelId model
  unloadModel : ∀ {id model user err user'}, hooks.unloadModel id model user = .error err user' →
    fault (.raised err)

variable {good : Id → Model → Prop} {fault : ModelError Id Err → Prop} {n : ℕ}
  {extra extra' : List (Id × Model)} {s s' : Sieve Id Model} {w : MultiModelWorker σ Id Model}
  {hooks : Hooks σ Id Model Item Result Err} {modelId : Id}

namespace Ledger

theorem user (h : Ledger good n extra s w) (user : σ) :
    Ledger good n extra s { w with user := user } :=
  { h with }

theorem cache (h : Ledger good n extra s w) {cache : SieveCache Id Model} (hcache : cache.Holds s')
    (hmax : cache.maxSize = w.modelCache.maxSize) (hitems : extra ++ s.items ~ extra' ++ s'.items) :
    Ledger good n extra' s' { w with modelCache := cache } where
  holds := hcache
  maxSize := hmax.trans h.maxSize
  balanced := h.balanced.trans (hitems.append_right _)
  loads := h.loads
  room := h.room
  quiet := h.quiet

theorem note (h : Ledger good n extra s w) {event : CacheEvent Id Model}
    (hroom : ∀ {id r}, event = .loading id r → r < n)
    (hquiet : ∀ {id evicted}, event = .putting id evicted → evicted = none)
    (hloads : ∀ {id model}, event = .loaded id model → good id model)
    (hextra : event.loadedModel.toList ++ extra ~ event.unloadedModel.toList ++ extra') :
    Ledger good n extra' s { w with events := w.events ++ [event] } := by
  constructor
  case holds => exact h.holds
  case maxSize => exact h.maxSize
  case balanced =>
    rw [loaded_note, unloaded_note]
    calc w.loaded ++ event.loadedModel.toList ~ event.loadedModel.toList ++ w.loaded :=
        List.perm_append_comm
      _ ~ event.loadedModel.toList ++ (extra ++ s.items ++ w.unloaded) :=
        h.balanced.append_left _
      _ = event.loadedModel.toList ++ extra ++ (s.items ++ w.unloaded) := by simp
      _ ~ event.unloadedModel.toList ++ extra' ++ (s.items ++ w.unloaded) := hextra.append_right _
      _ = event.unloadedModel.toList ++ (extra' ++ s.items ++ w.unloaded) := by simp
      _ ~ extra' ++ s.items ++ w.unloaded ++ event.unloadedModel.toList := List.perm_append_comm
      _ = extra' ++ s.items ++ (w.unloaded ++ event.unloadedModel.toList) := by simp
  case loads =>
    intro p hp
    rw [loaded_note] at hp
    rcases List.mem_append.mp hp with hp | hp
    · exact h.loads p hp
    · cases event with
      | loaded id model =>
        obtain rfl := List.mem_singleton.mp hp
        exact hloads rfl
      | _ => cases hp
  case room =>
    intro id r hmem
    rcases List.mem_append.mp hmem with hmem | hmem
    · exact h.room hmem
    · exact hroom (List.mem_singleton.mp hmem).symm
  case quiet =>
    intro id evicted hmem
    rcases List.mem_append.mp hmem with hmem | hmem
    · exact h.quiet hmem
    · exact hquiet (List.mem_singleton.mp hmem).symm

theorem good_of_lookup (h : Ledger good n [] s w) {id : Id} {model : Model}
    (hlookup : s.lookup id = some model) : good id model := by
  obtain ⟨e, he, rfl⟩ := Option.map_eq_some_iff.mp hlookup
  have hkey : e.key = id := by simpa using List.find?_some he
  have hmem : (e.key, e.value) ∈ s.items := List.mem_map_of_mem (List.mem_of_find?_eq_some he)
  rw [← hkey]
  exact h.loads _ (h.balanced.mem_iff.mpr (List.mem_append_left _ hmem))

end Ledger

theorem makeRoom_accounts (hn : 1 ≤ n) (hc : Covers hooks good fault modelId)
    (hid : modelId ∉ s.keys) :
    Triple (Ledger good n [] s) (makeRoom hooks) (fun _ => Spare good n modelId)
      (fun e w => Accounted good n w ∧ fault e) := by
  apply Triple.get_bind
  intro w hw
  apply Triple.ite
  · intro hfull
    rw [hw.holds.len, hw.maxSize] at hfull
    have hne : s.entries ≠ [] := by
      intro hnil
      rw [hnil] at hfull
      exact absurd hn (by simpa using hfull)
    obtain ⟨k, v, hevicted, hperm⟩ := Sieve.evict_items hw.holds.nodup hne
    obtain ⟨cache, hevict, hholds, hmax⟩ := hw.holds.evict
    have hlt : s.evict.1.entries.length < n := by
      have hlen := hperm.length_eq
      have hbound := hw.holds.bound
      rw [hw.maxSize] at hbound
      simp only [Sieve.items, List.length_map, List.length_cons] at hlen
      omega
    have hid' : modelId ∉ s.evict.1.keys := by
      intro hmem
      obtain ⟨e, he, rfl⟩ := List.mem_map.mp hmem
      exact hid (Sieve.key_mem_of_evict he)
    apply Triple.bind fun p w' => w' = w ∧ p = (cache, s.evict.2)
    · exact triple_returned fun w' hw' => ⟨_, hw' ▸ hevict, hw', rfl⟩
    rintro ⟨cache', evicted⟩
    apply Triple.bind fun _ w' => evicted = some (k, v) ∧ Ledger good n [(k, v)] s.evict.1 w'
    · apply Triple.update
      rintro _ ⟨rfl, hp⟩
      cases hp
      exact ⟨hevicted, hw.cache hholds hmax hperm⟩
    rintro -
    cases evicted with
    | none => exact fun w' hw' => absurd hw'.1 (by simp)
    | some p =>
      apply Triple.bind fun _ => Ledger good n [] s.evict.1
      · apply Triple.update
        rintro w' ⟨hp, hw'⟩
        obtain rfl := Option.some.inj hp
        exact hw'.note (by simp) (by simp) (by simp) (List.Perm.refl _)
      · rintro -
        exact triple_hook (fun user h => h.user user) (fun _ _ h => ⟨_, h, hid', hlt⟩)
          fun _ herr h => ⟨⟨_, h⟩, hc.unloadModel herr⟩
  · intro hroom
    rw [hw.holds.len, hw.maxSize] at hroom
    apply Triple.pure
    rintro _ rfl
    exact ⟨s, hw, hid, by omega⟩

theorem loadInto_accounts (hc : Covers hooks good fault modelId) :
    Triple (Spare good n modelId) (loadInto hooks modelId)
      (fun model w => Accounted good n w ∧ good modelId model)
      (fun e w => Accounted good n w ∧ fault e) := by
  apply Triple.get_bind
  rintro w ⟨s, hw, hid, hlt⟩
  apply Triple.bind fun _ => Ledger good n [] s
  · apply Triple.update
    rintro _ rfl
    refine hw.note ?_ (by simp) (by simp) (List.Perm.refl _)
    intro id r heq
    cases heq
    rw [hw.holds.len]
    exact hlt
  rintro -
  apply Triple.bind fun model w' => Ledger good n [] s w' ∧ good modelId model
  · exact triple_hook (fun user h => h.user user) (fun _ hload h => ⟨h, hc.loads hload⟩)
      fun _ herr h => ⟨⟨_, h⟩, hc.loadModel herr⟩
  intro model
  apply Triple.bind fun _ w' => Ledger good n [(modelId, model)] s w' ∧ good modelId model
  · apply Triple.update
    rintro w' ⟨hw', hgood⟩
    refine ⟨hw'.note (by simp) (by simp) ?_ (List.Perm.refl _), hgood⟩
    intro id model' heq
    cases heq
    exact hgood
  rintro -
  apply Triple.get_bind
  rintro w' ⟨hw', hgood⟩
  obtain ⟨cache, hput, hholds, hmax⟩ := hw'.holds.put modelId model
  rw [hw'.maxSize, Sieve.put_new model hid hlt] at hput hholds
  apply Triple.bind fun p w'' => w'' = w' ∧ p = (cache, none)
  · exact triple_returned fun w'' hw'' => ⟨_, hw'' ▸ hput, hw'', rfl⟩
  rintro ⟨cache', evicted⟩
  apply Triple.bind fun _ w'' => evicted = none ∧ Accounted good n w''
  · apply Triple.update
    rintro _ ⟨rfl, hp⟩
    cases hp
    exact ⟨rfl, _, hw'.cache hholds hmax (List.Perm.refl _)⟩
  rintro -
  apply Triple.bind fun _ => Accounted good n
  · apply Triple.update
    rintro w'' ⟨rfl, s'', hw''⟩
    refine ⟨s'', hw''.note (by simp) ?_ (by simp) (List.Perm.refl _)⟩
    intro id evicted heq
    cases heq
    rfl
  · rintro -
    exact Triple.pure _ fun _ h => ⟨h, hgood⟩

theorem ensureModel_accounts (hn : 1 ≤ n) (hc : Covers hooks good fault modelId) :
    Triple (Accounted good n) (ensureModel hooks modelId)
      (fun model w => Accounted good n w ∧ good modelId model)
      (fun e w => Accounted good n w ∧ fault e) := by
  apply Triple.get_bind
  rintro w ⟨s, hw⟩
  apply Triple.ite
  · intro hhit
    obtain ⟨hvalue, hholds, hmax⟩ := hw.holds.get modelId
    obtain ⟨model, hmodel⟩ : ∃ model, s.lookup modelId = some model := by
      rw [hw.holds.contains, decide_eq_true_eq, ← Sieve.lookup_isSome] at hhit
      exact Option.isSome_iff_exists.mp hhit
    apply Triple.bind fun _ => Accounted good n
    · apply Triple.update
      rintro _ rfl
      refine ⟨_, hw.cache hholds hmax ?_⟩
      rw [Sieve.get_items]
    · rintro -
      exact triple_returned fun _ h =>
        ⟨model, hvalue.trans hmodel, h, hw.good_of_lookup hmodel⟩
  · intro hmiss
    have hid : modelId ∉ s.keys := by
      rw [hw.holds.contains] at hmiss
      simpa using hmiss
    apply Triple.bind fun available w' =>
      Ledger good n [] s w' ∧ (available = false → fault (.unavailable modelId))
    · apply Triple.weaken (triple_hook (fun user h => h.user user)
        (fun _ hrun h => ⟨h, fun heq => hc.available (heq ▸ hrun)⟩)
        fun _ herr h => ⟨⟨s, h⟩, hc.hasModel herr⟩) (fun _ h => h ▸ hw) (fun _ _ h => h)
        fun _ _ h => h
    intro available
    apply Triple.ite
    · intro _
      apply Triple.bind _ ((makeRoom_accounts hn hc hid).weaken (fun _ h => h.1) (fun _ _ h => h)
        fun _ _ h => h)
      rintro -
      exact loadInto_accounts hc
    · intro hfalse
      exact Triple.throw _ fun _ h => ⟨⟨s, h.1⟩, h.2 (by simpa using hfalse)⟩

theorem accounted_user (h : Accounted good n w) (user : σ) :
    Accounted good n { w with user := user } :=
  h.imp fun _ hl => hl.user user

theorem accounted_forwarding (h : Accounted good n w) (id : Id) (model : Model) (count : ℕ) :
    Accounted good n { w with events := w.events ++ [.forwarding id model count] } :=
  h.imp fun _ hl => hl.note (by simp) (by simp) (by simp) (List.Perm.refl _)

section Accounting

variable (hgood : ∀ {id user model user'}, hooks.loadModel id user = .ok model user' → good id model)
include hgood

omit [DecidableEq Id] in
theorem covers_any (modelId : Id) : Covers hooks good (fun _ => True) modelId where
  hasModel _ := trivial
  available _ := trivial
  loadModel _ := trivial
  loads := hgood
  unloadModel _ := trivial

theorem forwardGroup_accounts (hn : 1 ≤ n) (results : List (Option Result))
    (group : Id × List (ℕ × Item)) : Triple (Accounted good n) (forwardGroup hooks results group)
      (fun _ => Accounted good n) (fun _ => Accounted good n) := by
  apply Triple.bind fun _ => Accounted good n
  · exact (ensureModel_accounts hn (covers_any hgood group.1)).weaken (fun _ h => h)
      (fun _ _ h => h.1) fun _ _ h => h.1
  intro model
  apply Triple.bind fun _ => Accounted good n
  · exact Triple.update _ fun _ h => accounted_forwarding h _ _ _
  rintro -
  apply Triple.bind fun _ => Accounted good n
  · exact triple_hook (fun user h => accounted_user h user) (fun _ _ h => h) fun _ _ h => h
  intro subResults
  apply Triple.ite
  · intro _
    exact Triple.pure _ fun _ h => h
  · intro _
    exact Triple.throw _ fun _ h => h

theorem forward_accounts (hn : 1 ≤ n) (items : List Item) :
    Triple (Accounted good n) (forward hooks items) (fun _ => Accounted good n)
      (fun _ => Accounted good n) := by
  apply Triple.bind fun _ => Accounted good n
  · apply Triple.foldlM fun _ _ => Accounted good n
    intro done p groups hp
    apply Triple.bind fun _ => Accounted good n
    · exact triple_hook (fun user h => accounted_user h user) (fun _ _ h => h) fun _ _ h => h
    · intro modelId
      exact Triple.pure _ fun _ h => h
  intro groups
  apply Triple.get_bind
  intro w hw
  have hloop : ∀ (l : List (Id × List (ℕ × Item))) (results : List (Option Result)),
      Triple (Accounted good n) (l.foldlM (forwardGroup hooks) results)
        (fun _ => Accounted good n) fun _ => Accounted good n := by
    intro l results
    apply Triple.foldlM fun _ _ => Accounted good n
    intro done group results _
    exact forwardGroup_accounts hgood hn results group
  exact (hloop _ _).weaken (fun _ h => h ▸ hw) (fun _ _ h => h) fun _ _ h => h

omit hgood in
theorem accounted_new (user : σ) (hn : 1 ≤ n) :
    Accounted good n (new user n hn : MultiModelWorker σ Id Model) :=
  ⟨Sieve.empty, .new n hn, rfl, List.Perm.refl _, by simp [new, loaded], by simp [new], by simp [new]⟩

theorem accounted_afterCalls (user : σ) (hn : 1 ≤ n) (batches : List (List Item)) :
    Accounted good n (afterCalls hooks (new user n hn) batches) := by
  induction batches using List.reverseRecOn with
  | nil => exact accounted_new user hn
  | append_singleton batches items ih =>
    have hforward : Triple (Accounted good n) (forward hooks items) (fun _ => Accounted good n)
        fun _ => Accounted good n := forward_accounts hgood hn items
    rw [afterCalls, List.foldl_append, List.foldl_cons, List.foldl_nil]
    exact hforward.finalState ih

end Accounting

theorem finalState_forwardOne (item : Item) :
    finalState (forwardOne hooks item) w = finalState (forward hooks [item]) w := by
  have hone : forwardOne hooks item w =
      EStateM.bind (forward hooks [item]) (fun results => pure results.head?.join) w := rfl
  rw [finalState, finalState, hone, EStateM.bind]
  cases forward hooks [item] w <;> rfl

theorem models_accounted (hooks : Hooks σ Id Model Item Result Err) (user : σ) (n : ℕ)
    (hn : 1 ≤ n) (batches : List (List Item)) :
    (∃ cached, (afterCalls hooks (new user n hn) batches).modelCache.items = some cached ∧
      (afterCalls hooks (new user n hn) batches).loaded ~
        cached ++ (afterCalls hooks (new user n hn) batches).unloaded) ∧
    (afterCalls hooks (new user n hn) batches).modelCache.len ≤ n ∧
    (∀ id resident, .loading id resident ∈ (afterCalls hooks (new user n hn) batches).events →
      resident < n) ∧
    (∀ id evicted, .putting id evicted ∈ (afterCalls hooks (new user n hn) batches).events →
      evicted = none) ∧
    ∀ (w : MultiModelWorker σ Id Model) results group user', w.modelCache.contains group.1 = false →
      hooks.hasModel group.1 w.user = .ok false user' →
        forwardGroup hooks results group w =
          .error (.unavailable group.1) { w with user := user' } := by
  have haccounted : Accounted (fun _ _ => True) n (afterCalls hooks (new user n hn) batches) :=
    accounted_afterCalls (fun _ => trivial) user hn batches
  obtain ⟨s, hs⟩ := haccounted
  refine ⟨⟨s.items, hs.holds.items, hs.balanced⟩, ?_, fun _ _ h => hs.room h,
    fun _ _ h => hs.quiet h, ?_⟩
  · have hbound := hs.holds.bound
    rw [hs.maxSize] at hbound
    rw [hs.holds.len]
    exact hbound
  · intro w results group user' hmiss hfalse
    have hensure : ensureModel hooks group.1 w =
        .error (.unavailable group.1) { w with user := user' } := by
      change (if w.modelCache.contains group.1 = true then _ else _ : Method σ Id Model Err Model) w
        = _
      rw [hmiss]
      change EStateM.bind (hook (hooks.hasModel group.1)) _ w = _
      rw [EStateM.bind, hook, hfalse]
      rfl
    change EStateM.bind (ensureModel hooks group.1) _ w = _
    rw [EStateM.bind, hensure]

def echoHooks : Hooks Unit ℕ ℕ ℕ ℕ Unit where
  getModelId item := pure item
  hasModel _ := pure true
  loadModel id := pure (10 * id)
  unloadModel _ _ := pure ()
  forwardModel _ model items := pure (items.map (· + model))

theorem models_accounted_echo :
    ∃ cached, (afterCalls echoHooks (new () 1 (by decide)) [[1], [2, 1]]).modelCache.items = some cached ∧
      (afterCalls echoHooks (new () 1 (by decide)) [[1], [2, 1]]).loaded ~
        cached ++ (afterCalls echoHooks (new () 1 (by decide)) [[1], [2, 1]]).unloaded :=
  (models_accounted echoHooks () 1 (by decide) [[1], [2, 1]]).1

end MultiModelWorker

end Mosec
