import Mosec.Owing
import Mosec.RouteTable

namespace Mosec

open Function (update)

/-- A segment of an endpoint: a capture takes any one segment, and a last one with an asterisk
takes what is left. -/
inductive Segment where
  | literal (text : List Char)
  | capture
  | rest
  deriving DecidableEq, Repr

def Segment.ofText (text : List Char) : Segment :=
  if text.head? = some '\x7b' ∧ text.getLast? = some '\x7d' then
    if text[1]? = some '*' then .rest else .capture
  else .literal text

def segments (path : String) : List (List Char) := path.toList.splitOn '/'

def matchSegments : List Segment → List (List Char) → Bool
  | [], [] => true
  | [.rest], text :: texts => text ≠ [] || texts ≠ []
  | .literal text' :: pattern, text :: texts => text' = text && matchSegments pattern texts
  | .capture :: pattern, text :: texts => text ≠ [] && matchSegments pattern texts
  | _, _ => false

def Matches (endpoint path : String) : Prop :=
  matchSegments ((segments endpoint).map Segment.ofText) (segments path)

instance (endpoint path : String) : Decidable (Matches endpoint path) :=
  inferInstanceAs (Decidable (_ = true))

def Static (endpoint : String) : Prop := '\x7b' ∉ endpoint.toList

instance (endpoint : String) : Decidable (Static endpoint) :=
  inferInstanceAs (Decidable (_ ∉ _))

/-- What axum's router documents: a request goes to an endpoint that it matches, and to an
endpoint without captures before any other. -/
structure Router (endpoints : List String) where
  dispatch : String → Option String
  sound : ∀ {path endpoint}, dispatch path = some endpoint →
    endpoint ∈ endpoints ∧ Matches endpoint path
  static_first : ∀ {path}, path ∈ endpoints → Static path → dispatch path = some path

theorem subset_of_mem_splitOn {α : Type} [DecidableEq α] {sep : α} {xs text : List α}
    (h : text ∈ xs.splitOn sep) : text ⊆ xs := by
  induction xs generalizing text with
  | nil =>
    rw [List.splitOn_nil, List.mem_singleton] at h
    rw [h]
    exact List.Subset.refl _
  | cons x xs ih =>
    rw [List.splitOn_cons_eq_if_modifyHead] at h
    split at h
    · rcases List.mem_cons.mp h with rfl | h
      · exact List.nil_subset _
      · exact List.subset_cons_of_subset x (ih h)
    · obtain ⟨first, rest, hsplit⟩ := List.exists_cons_of_ne_nil (List.splitOn_ne_nil sep xs)
      rw [hsplit] at h ih
      rcases List.mem_cons.mp h with rfl | h
      · exact List.cons_subset_cons x (ih List.mem_cons_self)
      · exact List.subset_cons_of_subset x (ih (List.mem_cons_of_mem _ h))

theorem matchSegments_literal (texts : List (List Char)) :
    matchSegments (texts.map Segment.literal) texts = true := by
  induction texts with
  | nil => rfl
  | cons text texts ih =>
    rw [List.map_cons, matchSegments, ih]
    simp

theorem Static.matches_self {path : String} (h : Static path) : Matches path path := by
  have hliteral : (segments path).map Segment.ofText = (segments path).map Segment.literal := by
    apply List.map_congr_left
    intro text htext
    rw [Segment.ofText, if_neg]
    rintro ⟨hhead, -⟩
    exact h (subset_of_mem_splitOn htext (List.mem_of_head? hhead))
  rw [Matches, hliteral]
  exact matchSegments_literal _

def Router.ofEndpoints (endpoints : List String) : Router endpoints where
  dispatch path := if path ∈ endpoints ∧ Static path then some path
    else endpoints.find? fun endpoint => Matches endpoint path
  sound := by
    intro path endpoint h
    split at h
    · obtain ⟨hmem, hstatic⟩ := ‹_ ∧ _›
      cases h
      exact ⟨hmem, hstatic.matches_self⟩
    · exact ⟨List.mem_of_find?_eq_some h, by simpa using List.find?_some h⟩
  static_first hmem hstatic := if_pos ⟨hmem, hstatic⟩

namespace Request.Move

variable {svc : Service} {m m' : TaskManager} {h : ℕ} {q q' : Request} {clones : Bool}
  {act : RequestAction}

theorem key (hm : Move svc m h q clones act m' q') : q'.key = q.key := by
  cases hm <;> rfl

theorem panicked (hm : Move svc m h q clones act m' q') (hq' : q'.handler = .panicked) :
    q.handler = .panicked ∨ svc.senders q.key = none := by
  cases hm
  case panic hq hkey => exact Or.inr hkey
  case receiveEvent => exact Or.inl hq'
  case endStream => exact Or.inl hq'
  case leave => exact Or.inl hq'
  case accept => cases hs : q.isSse <;> simp [hs] at hq'
  case resume => cases hs : q.isSse <;> simp [hs] at hq'
  case deleteTask exit hq => cases exit <;> cases hs : q.isSse <;> simp [afterDelete, hs] at hq'
  all_goals cases hq'

end Request.Move

namespace State

variable {svc : Service} {ok : State → Action → Prop} {s s' : State} {a : Action}

def PanicsUnknown (svc : Service) (s : State) : Prop :=
  ∀ h, (s.requests h).handler = .panicked → svc.senders (s.requests h).key = none

theorem PanicsUnknown.step (hs : s.PanicsUnknown svc) (hstep : s.step svc a = some s') :
    s'.PanicsUnknown svc := by
  intro n hq
  cases a with
  | submit isSse key body =>
    obtain rfl := Option.some.inj hstep
    by_cases hn : n = s.submitted
    · exfalso
      change (update s.requests s.submitted _ n).handler = .panicked at hq
      rw [hn, Function.update_self, Request.submit] at hq
      split at hq
      · cases hq
      · split at hq <;> cases hq
    · have hsame : (s.submit isSse key body).requests n = s.requests n :=
        Function.update_of_ne hn ..
      rw [hsame] at hq ⊢
      exact hs n hq
  | request h act =>
    obtain ⟨⟨m, q⟩, hrun, rfl⟩ := Option.map_eq_some_iff.mp hstep
    have hmove := Request.move_of_step hrun
    by_cases hn : n = h
    · rw [hn, setRequest_requests_self] at hq ⊢
      rw [hmove.key]
      exact (hmove.panicked hq).elim (hs h) id
    · rw [setRequest_requests_ne _ _ _ hn] at hq ⊢
      exact hs n hq
  | connect r =>
    simp only [State.step] at hstep
    split at hstep
    · cases hstep
      exact hs n hq
    · cases hstep
  | conn k act =>
    obtain ⟨⟨m, c⟩, hrun, rfl⟩ := Option.map_eq_some_iff.mp hstep
    exact hs n hq

theorem panicsUnknown_of_run (hs : Run svc ok s) : s.PanicsUnknown svc := by
  apply Transition.Reachable.invariant ?_ ?_ hs
  · intro h hq
    cases hq
  · intro s a s' hs _ hstep
    exact hs.step hstep

end State

namespace Config

variable {conf : Config}

theorem worker_of_channel {w : String} {i : ℕ} (h : conf.workerChannel w = some i) :
    (conf.runtimes[i]?).map Runtime.worker = some w := by
  have hname := List.find?_some h
  simpa using hname

theorem workers_of_channels {workers : List String}
    (hknown : ∀ w ∈ workers, w ∈ conf.runtimes.map Runtime.worker) :
    (workers.filterMap conf.workerChannel).filterMap
      (fun i => (conf.runtimes[i]?).map Runtime.worker) = workers := by
  induction workers with
  | nil => rfl
  | cons w workers ih =>
    obtain ⟨i, hi⟩ := Option.isSome_iff_exists.mp
      (workerChannel_isSome (hknown w List.mem_cons_self))
    have hrest := ih fun w hw => hknown w (List.mem_cons_of_mem _ hw)
    rw [List.filterMap_cons_some hi, List.filterMap_cons, worker_of_channel hi, hrest]

theorem workers_injective {workers workers' : List String}
    (hknown : ∀ w ∈ workers, w ∈ conf.runtimes.map Runtime.worker)
    (hknown' : ∀ w ∈ workers', w ∈ conf.runtimes.map Runtime.worker)
    (h : workers.filterMap conf.workerChannel = workers'.filterMap conf.workerChannel) :
    workers = workers' := by
  rw [← workers_of_channels hknown, h, workers_of_channels hknown']

theorem route_of_senders {key : String} {channels : List ℕ} (h : conf.senders key = some channels) :
    ∃ route ∈ conf.routes, route.endpoint = key ∧
      route.workers.filterMap conf.workerChannel = channels := by
  obtain ⟨route, hfind, hchannels⟩ := Option.map_eq_some_iff.mp h
  have hkey := List.find?_some hfind
  exact ⟨route, List.mem_reverse.mp (List.mem_of_find?_eq_some hfind), by simpa using hkey,
    hchannels⟩

end Config

/-- What a request of the path meets: the pipeline of the route it was dispatched to, no panic,
and nothing in the maps after its end. -/
structure Resolves (conf : Config) (svc : Service) (path : String) (route : Route) : Prop where
  pipeline : svc.senders path = some (route.workers.filterMap conf.workerChannel)
  answers : ∀ s, State.Run svc (fun _ _ => True) s → ∀ h, (s.requests h).key = path →
    (s.requests h).handler ≠ .panicked
  nothing_left : ∀ s, State.Run svc (fun _ _ => True) s → ∀ h outcome,
    (s.requests h).key = path → (s.requests h).handler = .done outcome →
      (∀ i task, s.manager.table i = some task → task.createAt ≠ h) ∧
        ∀ i, s.manager.notifiers i ≠ some h

theorem resolves_iff_pipeline {conf : Config} {svc : Service} {path : String} {route : Route} :
    Resolves conf svc path route ↔
      svc.senders path = some (route.workers.filterMap conf.workerChannel) := by
  constructor
  · exact Resolves.pipeline
  · intro hpipeline
    constructor
    case pipeline => exact hpipeline
    case answers =>
      intro s hs h hkey hq
      have hnone := State.panicsUnknown_of_run hs h hq
      rw [hkey, hpipeline] at hnone
      cases hnone
    case nothing_left =>
      intro s hs h outcome hkey hq
      exact (State.owing_of_run hs).nothing_left hq

theorem Config.senders_eq_iff {conf : Config} (hreg : conf.Registered)
    (hendpoints : (conf.routes.map Route.endpoint).Nodup) {path : String} {route : Route}
    (hroute : route ∈ conf.routes) :
    conf.senders path = some (route.workers.filterMap conf.workerChannel) ↔
      ∃ other ∈ conf.routes, other.endpoint = path ∧ other.workers = route.workers := by
  constructor
  · intro hsenders
    obtain ⟨other, hother, hpath, hchannels⟩ := Config.route_of_senders hsenders
    refine ⟨other, hother, hpath, ?_⟩
    exact Config.workers_injective (hreg.workers_known other hother)
      (hreg.workers_known route hroute) hchannels
  · rintro ⟨other, hother, rfl, hworkers⟩
    rw [Config.senders_eq hendpoints hother, hworkers]

namespace Server

variable {order : SetOrder} {s : Server} {calls : List ServerCall} {capacity : ℕ}

theorem endpoints_nodup (hrun : Transition.run (step order) new calls = some s) :
    ((s.config capacity).routes.map Route.endpoint).Nodup := by
  have hwell : s.WellFormed := by
    apply Transition.Reachable.invariant wellFormed_new ?_ (Transition.reachable_of_run hrun)
    intro s c s' hs _ hstep
    exact wellFormed_step hs hstep
  simpa [config, Function.comp_def] using hwell.endpoints

theorem dispatched_resolves_iff (hrun : Transition.run (step order) new calls = some s)
    (hreg : (s.config capacity).Registered)
    (router : Router ((s.config capacity).routes.map Route.endpoint)) {path : String}
    {route : Route} (hroute : route ∈ (s.config capacity).routes)
    (hdispatch : router.dispatch path = some route.endpoint) :
    Resolves (s.config capacity) ((s.config capacity).initFromConfig hreg) path route ↔
      path = route.endpoint ∨ ¬ Static path ∧
        ∃ other ∈ (s.config capacity).routes, other.endpoint = path ∧
          other.workers = route.workers := by
  have hsame : path = route.endpoint →
      ∃ other ∈ (s.config capacity).routes, other.endpoint = path ∧
        other.workers = route.workers := by
    intro hpath
    exact ⟨route, hroute, hpath.symm, rfl⟩
  rw [resolves_iff_pipeline]
  refine (Config.senders_eq_iff hreg (endpoints_nodup hrun) hroute).trans ?_
  constructor
  · rintro ⟨other, hother, hpath, hworkers⟩
    by_cases hstatic : Static path
    · have hmem : path ∈ (s.config capacity).routes.map Route.endpoint :=
        List.mem_map.mpr ⟨other, hother, hpath⟩
      have hfirst := router.static_first hmem hstatic
      rw [hfirst] at hdispatch
      exact Or.inl (Option.some.inj hdispatch)
    · exact Or.inr ⟨hstatic, other, hother, hpath, hworkers⟩
  · rintro (hpath | ⟨-, hother⟩)
    · exact hsame hpath
    · exact hother

def models : Server :=
  ⟨[⟨"Bert", 1, true⟩, ⟨"Other", 1, true⟩], [("/v1/bert", [0]), ("/v1/\x7bname\x7d", [1])], [0, 1]⟩

def modelCalls : List ServerCall :=
  [.appendWorker ⟨"Bert", 1, true⟩ (.str "/v1/bert"),
    .appendWorker ⟨"Other", 1, true⟩ (.str "/v1/\x7bname\x7d")]

theorem models_registered : (models.config 1024).Registered :=
  ⟨by decide, by decide, by decide⟩

theorem dispatched_resolves_iff_static :
    Resolves (models.config 1024) ((models.config 1024).initFromConfig models_registered)
        "/v1/bert" ⟨"/v1/bert", ["Bert_1"]⟩ ↔
      "/v1/bert" = "/v1/bert" ∨ ¬ Static "/v1/bert" ∧
        ∃ other ∈ (models.config 1024).routes, other.endpoint = "/v1/bert" ∧
          other.workers = ["Bert_1"] := by
  have hrun : Transition.run (step firstSeen) new modelCalls = some models := by decide +kernel
  exact dispatched_resolves_iff hrun models_registered (Router.ofEndpoints _) (by decide +kernel)
    (by decide +kernel)

theorem captured_path_panics :
    ∃ (s : Server) (hreg : (s.config 1024).Registered)
      (router : Router ((s.config 1024).routes.map Route.endpoint)) (path : String) (route : Route),
      Transition.run (step firstSeen) new modelCalls = some s ∧
      route ∈ (s.config 1024).routes ∧ router.dispatch path = some route.endpoint ∧
      ¬ Resolves (s.config 1024) ((s.config 1024).initFromConfig hreg) path route ∧
      ∃ t, State.Run ((s.config 1024).initFromConfig hreg) (fun _ _ => True) t ∧
        (t.requests 0).key = path ∧ (t.requests 0).handler = .panicked ∧
        (t.manager.table 0).map Task.createAt = some 0 ∧ t.manager.notifiers 0 = some 0 := by
  have hpanics : ∃ t, Transition.run
      (State.step ((models.config 1024).initFromConfig models_registered)) State.start
        [.submit false "/v1/gpt" [1], .request 0 .run, .request 0 .run, .request 0 .run,
          .request 0 .run] = some t ∧
      State.Run ((models.config 1024).initFromConfig models_registered) (fun _ _ => True) t ∧
      ((t.requests 0).key, (t.requests 0).handler, (t.manager.table 0).map Task.createAt,
        t.manager.notifiers 0) = ("/v1/gpt", .panicked, some 0, some 0) := by
    have htest : ∀ (s : State) (a : Action), (fun _ _ => true : State → Action → Bool) s a → True :=
      fun _ _ _ => trivial
    exact Transition.Reachable.of_checked htest (by decide +kernel) (by decide +kernel)
  obtain ⟨t, -, ht, hview⟩ := hpanics
  simp only [Prod.mk.injEq] at hview
  obtain ⟨hkey, hq, htable, hnotifier⟩ := hview
  refine ⟨models, models_registered, Router.ofEndpoints _, "/v1/gpt",
    ⟨"/v1/\x7bname\x7d", ["Other_2"]⟩, by decide +kernel, by decide +kernel, by decide +kernel, ?_,
    t, ht, hkey, hq, htable, hnotifier⟩
  intro hresolves
  exact hresolves.answers t ht 0 hkey hq

end Server

end Mosec
