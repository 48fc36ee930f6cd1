import Mathlib.Data.List.Dedup
import Mosec.MultiModel
import Mosec.Tasks
import Mosec.Transition

namespace Mosec

open MultiModelWorker (addTo)
open Program (finalState)

structure RuntimeArgs where
  worker : String
  maxBatchSize : ℕ
  valid : Bool
  deriving DecidableEq, Repr

inductive RouteArg where
  | str (endpoint : String)
  | list (endpoints : List String)
  deriving DecidableEq, Repr

def RouteArg.endpoints : RouteArg → List String
  | .str endpoint => [endpoint]
  | .list endpoints => endpoints

inductive ServerError where
  | invalidRuntime
  | valueError (text : String)
  | runtimeError (text : String)
  deriving DecidableEq, Repr

/-- What `Server` registers. A `Runtime` object is named by its place among those made so far,
whose number is `_stage_id`. -/
structure Server where
  made : List RuntimeArgs
  router : List (String × List ℕ)
  runtimes : List ℕ
  deriving DecidableEq, Repr

structure SetOrder where
  iter : List ℕ → List ℕ
  perm : ∀ l, (iter l).Perm l.dedup

inductive ServerCall where
  | makeRuntime (args : RuntimeArgs)
  | appendWorker (args : RuntimeArgs) (route : RouteArg)
  | registerRuntime (routes : List (String × List ℕ))
  deriving DecidableEq, Repr

def mosecReservedEndpoints : List String :=
  ["/", "/metrics", "/openapi", "/openapi/metadata.json", "/openapi/swagger", "/openapi/swagger/"]

namespace Server

abbrev Method (α : Type) := EStateM ServerError Server α

def new : Server := ⟨[], [], []⟩

/-- `Runtime.__init__`, which counts the object before it validates its arguments. -/
def makeRuntime (args : RuntimeArgs) : Method ℕ := do
  let s ← get
  set { s with made := s.made ++ [args] }
  if args.valid then return s.made.length else throw .invalidRuntime

def append (r : ℕ) : Method PUnit := modify fun s => { s with runtimes := s.runtimes ++ [r] }

def registerEndpoint (r : ℕ) (endpoint : String) : Method PUnit :=
  if endpoint ∈ mosecReservedEndpoints then
    throw (.valueError ("'" ++ endpoint ++ "' is reserved, try another one"))
  else modify fun s => { s with router := addTo endpoint r s.router }

def registerRoute (r : ℕ) : RouteArg → Method PUnit
  | .str endpoint => registerEndpoint r endpoint
  | .list endpoints => forM endpoints (registerEndpoint r)

def appendWorker (args : RuntimeArgs) (route : RouteArg) : Method PUnit := do
  let r ← makeRuntime args
  registerRoute r route
  append r

def registerRuntime (order : SetOrder) (routes : List (String × List ℕ)) : Method PUnit := do
  let s ← get
  if s.runtimes.length > 0 then
    throw (.runtimeError "`register_runtime` can only be registered to an empty mosec server")
  forM routes fun p => forM p.2 fun r => registerRoute r (.str p.1)
  forM (order.iter (routes.flatMap Prod.snd)) append

def call (order : SetOrder) : ServerCall → Method PUnit
  | .makeRuntime args => do
    let _ ← makeRuntime args
    return ⟨⟩
  | .appendWorker args route => appendWorker args route
  | .registerRuntime routes => registerRuntime order routes

def Refers (s : Server) : ServerCall → Prop
  | .registerRuntime routes => ∀ p ∈ routes, ∀ r ∈ p.2, r < s.made.length
  | _ => True

instance (s : Server) (c : ServerCall) : Decidable (s.Refers c) :=
  match c with
  | .makeRuntime _ => isTrue trivial
  | .appendWorker _ _ => isTrue trivial
  | .registerRuntime routes =>
    inferInstanceAs (Decidable (∀ p ∈ routes, ∀ r ∈ p.2, r < s.made.length))

def step (order : SetOrder) (s : Server) (c : ServerCall) : Option Server :=
  if s.Refers c then some (finalState (call order c) s) else none

def fails {α : Type} (x : Method α) (s : Server) : Bool :=
  match x s with
  | .ok _ _ => false
  | .error _ _ => true

def raises (order : SetOrder) (s : Server) (c : ServerCall) : Bool := fails (call order c) s

def name (s : Server) (r : ℕ) : String :=
  ((s.made[r]?).map RuntimeArgs.worker).getD "" ++ "_" ++ toString (r + 1)

def config (s : Server) (capacity : ℕ) : Config where
  capacity := capacity
  runtimes := s.runtimes.map fun r =>
    ⟨s.name r, ((s.made[r]?).map RuntimeArgs.maxBatchSize).getD 0⟩
  routes := s.router.map fun p => ⟨p.1, p.2.map s.name⟩

def addMade (s : Server) (args : RuntimeArgs) : Server := { s with made := s.made ++ [args] }

def route (s : Server) (pairs : List (String × ℕ)) : Server :=
  { s with router := pairs.foldl (fun router p => addTo p.1 p.2 router) s.router }

def appendAll (s : Server) (rs : List ℕ) : Server := { s with runtimes := s.runtimes ++ rs }

section Calls

variable {order : SetOrder} {s : Server} {args : RuntimeArgs} {pairs : List (String × ℕ)}

theorem makeRuntime_valid (h : args.valid) :
    makeRuntime args s = .ok s.made.length (s.addMade args) := by
  change (if args.valid then (pure s.made.length : Method ℕ) else throw .invalidRuntime)
    (s.addMade args) = _
  rw [if_pos h]
  rfl

theorem makeRuntime_invalid (h : ¬ args.valid) :
    makeRuntime args s = .error .invalidRuntime (s.addMade args) := by
  change (if args.valid then (pure s.made.length : Method ℕ) else throw .invalidRuntime)
    (s.addMade args) = _
  rw [if_neg h]
  rfl

theorem registerEndpoint_ok {r : ℕ} {endpoint : String} (h : endpoint ∉ mosecReservedEndpoints) :
    registerEndpoint r endpoint s = .ok ⟨⟩ (s.route [(endpoint, r)]) := by
  rw [registerEndpoint, if_neg h]
  rfl

theorem registerEndpoint_error {r : ℕ} {endpoint : String}
    (h : endpoint ∈ mosecReservedEndpoints) :
    ∃ err, registerEndpoint r endpoint s = .error err s := by
  rw [registerEndpoint, if_pos h]
  exact ⟨_, rfl⟩

theorem bind_ok {α β : Type} {x : Method α} {f : α → Method β} {a : α} {s' : Server}
    (h : x s = .ok a s') : (x >>= f) s = f a s' := by
  change EStateM.bind x f s = _
  rw [EStateM.bind, h]

theorem bind_error {α β : Type} {x : Method α} {f : α → Method β} {err : ServerError} {s' : Server}
    (h : x s = .error err s') : (x >>= f) s = .error err s' := by
  change EStateM.bind x f s = _
  rw [EStateM.bind, h]

theorem route_cons (p : String × ℕ) : s.route (p :: pairs) = (s.route [p]).route pairs := rfl

theorem registerAll_ok (h : ∀ p ∈ pairs, p.1 ∉ mosecReservedEndpoints) :
    forM pairs (fun p => registerEndpoint p.2 p.1) s = .ok ⟨⟩ (s.route pairs) := by
  induction pairs generalizing s with
  | nil => rfl
  | cons p pairs ih =>
    rw [List.forM_cons, bind_ok (registerEndpoint_ok (h p (by simp)))]
    exact ih fun q hq => h q (List.mem_cons_of_mem p hq)

theorem registerAll_error {first : List (String × ℕ)} (rest : List (String × ℕ)) {p : String × ℕ}
    (hfirst : ∀ q ∈ first, q.1 ∉ mosecReservedEndpoints) (hp : p.1 ∈ mosecReservedEndpoints) :
    ∃ err, forM (first ++ p :: rest) (fun p => registerEndpoint p.2 p.1) s =
      .error err (s.route first) := by
  obtain ⟨err, herr⟩ := registerEndpoint_error (s := s.route first) (r := p.2) hp
  refine ⟨err, ?_⟩
  rw [List.forM_append, bind_ok (registerAll_ok hfirst), List.forM_cons, bind_error herr]

theorem appendAll_eq (rs : List ℕ) : forM rs append s = .ok ⟨⟩ (s.appendAll rs) := by
  induction rs generalizing s with
  | nil => simp [appendAll, pure, EStateM.pure]
  | cons r rs ih =>
    rw [List.forM_cons]
    have happend : append r s = .ok ⟨⟩ (s.appendAll [r]) := rfl
    rw [bind_ok happend, ih]
    simp [appendAll]

theorem registerRoute_eq (r : ℕ) (arg : RouteArg) : registerRoute r arg =
    forM (arg.endpoints.map (·, r)) fun p => registerEndpoint p.2 p.1 := by
  cases arg with
  | str endpoint =>
    rw [RouteArg.endpoints, List.map_singleton, List.forM_cons, List.forM_nil, bind_pure_unit]
    rfl
  | list endpoints =>
    rw [List.forM_map]
    rfl

def routePairs (routes : List (String × List ℕ)) : List (String × ℕ) :=
  routes.flatMap fun p => p.2.map (p.1, ·)

theorem registerRoutes_eq (routes : List (String × List ℕ)) :
    (forM routes fun p => forM p.2 fun r => registerRoute r (.str p.1)) =
      forM (routePairs routes) fun p => registerEndpoint p.2 p.1 := by
  induction routes with
  | nil => rfl
  | cons p routes ih =>
    rw [routePairs, List.flatMap_cons, List.forM_append, List.forM_map, List.forM_cons, ih]
    rfl

theorem registerRuntime_busy (order : SetOrder) (routes : List (String × List ℕ))
    (h : s.runtimes ≠ []) :
    ∃ err, registerRuntime order routes s = .error err s := by
  unfold registerRuntime
  have hget : (get : Method Server) s = .ok s s := rfl
  rw [bind_ok hget, if_pos (List.length_pos_iff.mpr h)]
  exact ⟨_, bind_error rfl⟩

theorem registerRuntime_empty (routes : List (String × List ℕ)) (h : s.runtimes = []) :
    registerRuntime order routes s =
      ((forM (routePairs routes) fun p => registerEndpoint p.2 p.1) >>= fun _ =>
        forM (order.iter (routes.flatMap Prod.snd)) append : Method PUnit) s := by
  unfold registerRuntime
  have hget : (get : Method Server) s = .ok s s := rfl
  rw [bind_ok hget, if_neg (by simp [h]), registerRoutes_eq]

end Calls

section Groups

variable {κ α : Type} [DecidableEq κ] {k : κ} {x : α} {groups : List (κ × List α)}

theorem exists_mem_addTo {y : α} : (∃ group ∈ addTo k x groups, y ∈ group.2) ↔
    (∃ group ∈ groups, y ∈ group.2) ∨ y = x := by
  induction groups with
  | nil => simp [addTo]
  | cons group groups ih =>
    rw [addTo]
    by_cases hk : group.1 = k
    · rw [if_pos hk]
      simp only [List.exists_mem_cons_iff, List.mem_append, List.mem_singleton]
      exact or_right_comm
    · rw [if_neg hk]
      simp only [List.exists_mem_cons_iff, ih, or_assoc]

theorem addTo_ne_nil (h : ∀ group ∈ groups, group.2 ≠ []) :
    ∀ group ∈ addTo k x groups, group.2 ≠ [] := by
  induction groups with
  | nil => simp [addTo]
  | cons group groups ih =>
    obtain ⟨hgroup, hgroups⟩ := List.forall_mem_cons.mp h
    rw [addTo]
    by_cases hk : group.1 = k
    · rw [if_pos hk]
      exact List.forall_mem_cons.mpr ⟨by simp, hgroups⟩
    · rw [if_neg hk]
      exact List.forall_mem_cons.mpr ⟨hgroup, ih hgroups⟩

theorem mem_keys_addTo {k' : κ} :
    k' ∈ (addTo k x groups).map Prod.fst ↔ k' ∈ groups.map Prod.fst ∨ k' = k := by
  induction groups with
  | nil => simp [addTo]
  | cons group groups ih =>
    rw [addTo]
    by_cases hk : group.1 = k
    · rw [if_pos hk]
      simp only [List.map_cons, List.mem_cons, hk]
      tauto
    · rw [if_neg hk]
      simp only [List.map_cons, List.mem_cons, ih, or_assoc]

theorem nodup_keys_addTo (h : (groups.map Prod.fst).Nodup) :
    ((addTo k x groups).map Prod.fst).Nodup := by
  induction groups with
  | nil => simp [addTo]
  | cons group groups ih =>
    rw [List.map_cons, List.nodup_cons] at h
    rw [addTo]
    by_cases hk : group.1 = k
    · rw [if_pos hk]
      exact List.nodup_cons.mpr h
    · rw [if_neg hk]
      refine List.nodup_cons.mpr ⟨?_, ih h.2⟩
      rw [mem_keys_addTo]
      exact not_or.mpr ⟨h.1, hk⟩

theorem size_addTo : ((addTo k x groups).map fun group => group.2.length).sum =
    (groups.map fun group => group.2.length).sum + 1 := by
  induction groups with
  | nil => rfl
  | cons group groups ih =>
    rw [addTo]
    by_cases hk : group.1 = k
    · rw [if_pos hk]
      simp only [List.map_cons, List.sum_cons, List.length_append, List.length_singleton]
      omega
    · rw [if_neg hk]
      simp only [List.map_cons, List.sum_cons, ih]
      omega

end Groups

def Routed (s : Server) (r : ℕ) : Prop := ∃ p ∈ s.router, r ∈ p.2

structure WellFormed (s : Server) : Prop where
  listed : ∀ r ∈ s.runtimes, r < s.made.length
  routed : ∀ r, s.Routed r → r < s.made.length
  nodup : s.runtimes.Nodup
  endpoints : (s.router.map Prod.fst).Nodup
  pipelines : ∀ p ∈ s.router, p.2 ≠ []

def Coupled (s : Server) : Prop := ∀ r, r ∈ s.runtimes ↔ s.Routed r

variable {order : SetOrder} {s : Server} {args : RuntimeArgs} {pairs : List (String × ℕ)}

theorem wellFormed_new : new.WellFormed where
  listed := by simp [new]
  routed := by simp [new, Routed]
  nodup := List.nodup_nil
  endpoints := List.nodup_nil
  pipelines := by simp [new]

theorem coupled_new : new.Coupled := by simp [Coupled, new, Routed]

theorem routed_route {r : ℕ} :
    (s.route pairs).Routed r ↔ s.Routed r ∨ r ∈ pairs.map Prod.snd := by
  induction pairs generalizing s with
  | nil => simp [route]
  | cons p pairs ih =>
    have hone : (s.route [p]).Routed r ↔ s.Routed r ∨ r = p.2 := exists_mem_addTo
    rw [route_cons, ih, hone, List.map_cons, List.mem_cons, or_assoc]

theorem size_route : ((s.route pairs).router.map fun p => p.2.length).sum =
    (s.router.map fun p => p.2.length).sum + pairs.length := by
  induction pairs generalizing s with
  | nil => rfl
  | cons p pairs ih =>
    have hone : ((s.route [p]).router.map fun p => p.2.length).sum =
        (s.router.map fun p => p.2.length).sum + 1 := size_addTo
    rw [route_cons, ih, hone, List.length_cons]
    omega

namespace WellFormed

theorem addMade (h : s.WellFormed) (args : RuntimeArgs) : (s.addMade args).WellFormed :=
  { h with
    listed := fun r hr => (h.listed r hr).trans (by simp [Server.addMade])
    routed := fun r hr => (h.routed r hr).trans (by simp [Server.addMade]) }

theorem route (h : s.WellFormed) (hpairs : ∀ r ∈ pairs.map Prod.snd, r < s.made.length) :
    (s.route pairs).WellFormed := by
  induction pairs generalizing s with
  | nil => exact h
  | cons p pairs ih =>
    rw [List.map_cons, List.forall_mem_cons] at hpairs
    refine ih (s := s.route [p]) ⟨h.listed, ?_, h.nodup, nodup_keys_addTo h.endpoints,
      addTo_ne_nil h.pipelines⟩ hpairs.2
    intro r hr
    rcases routed_route.mp hr with hr | hr
    · exact h.routed r hr
    · rw [List.map_singleton, List.mem_singleton] at hr
      rw [hr]
      exact hpairs.1

theorem appendAll (h : s.WellFormed) {rs : List ℕ} (hnodup : rs.Nodup)
    (hnew : ∀ r ∈ rs, r ∉ s.runtimes ∧ r < s.made.length) : (s.appendAll rs).WellFormed where
  listed r hr := (List.mem_append.mp hr).elim (h.listed r) fun hr => (hnew r hr).2
  routed := h.routed
  nodup := List.nodup_append.mpr ⟨h.nodup, hnodup, fun _ hr r' hr' heq =>
    (hnew r' hr').1 (heq ▸ hr)⟩
  endpoints := h.endpoints
  pipelines := h.pipelines

end WellFormed

end Server

end Mosec
