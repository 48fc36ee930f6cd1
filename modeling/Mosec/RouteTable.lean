import Mosec.Registration

namespace Mosec

open Program (finalState)

namespace Config

structure Consistent (conf : Config) : Prop where
  names : (conf.runtimes.map Runtime.worker).Nodup
  workers_ne_nil : ∀ route ∈ conf.routes, route.workers ≠ []
  workers_known : ∀ route ∈ conf.routes, ∀ w ∈ route.workers,
    w ∈ conf.runtimes.map Runtime.worker
  routed : ∀ runtime ∈ conf.runtimes, ∃ route ∈ conf.routes, runtime.worker ∈ route.workers

/-- `init_from_config` finds the channel of every listed worker, and a sender of every channel
outlives it in `senders`. -/
structure KeepsChannels (conf : Config) : Prop where
  found : ∀ route ∈ conf.routes, ∀ w ∈ route.workers, (conf.workerChannel w).isSome
  kept : ∀ i < conf.runtimes.length, ∃ key channels, conf.senders key = some channels ∧ i ∈ channels

variable {conf : Config}

theorem workerChannel_eq (hnames : (conf.runtimes.map Runtime.worker).Nodup) {i : ℕ}
    (hi : i < conf.runtimes.length) :
    conf.workerChannel conf.runtimes[i].worker = some i := by
  have hmem : conf.runtimes[i].worker ∈ conf.runtimes.map Runtime.worker :=
    List.mem_map_of_mem (List.getElem_mem hi)
  obtain ⟨j, hj⟩ := Option.isSome_iff_exists.mp (workerChannel_isSome hmem)
  have hlt := workerChannel_lt hj
  have hname := List.find?_some hj
  simp only [List.getElem?_eq_getElem hlt, Option.map_some, decide_eq_true_eq,
    Option.some.injEq] at hname
  have hij : j = i := by
    have hlt' : j < (conf.runtimes.map Runtime.worker).length := by simpa using hlt
    have hi' : i < (conf.runtimes.map Runtime.worker).length := by simpa using hi
    have hget : (conf.runtimes.map Runtime.worker)[j] = (conf.runtimes.map Runtime.worker)[i] := by
      simpa using hname
    exact hnames.getElem_inj_iff.mp hget
  rw [hj, hij]

theorem senders_eq (hendpoints : (conf.routes.map Route.endpoint).Nodup) {route : Route}
    (h : route ∈ conf.routes) :
    conf.senders route.endpoint = some (route.workers.filterMap conf.workerChannel) := by
  have hsome : (conf.routes.reverse.find? fun r => r.endpoint = route.endpoint).isSome := by
    rw [List.find?_isSome]
    exact ⟨route, by simpa using h, by simp⟩
  obtain ⟨route', hfind⟩ := Option.isSome_iff_exists.mp hsome
  have hmem : route' ∈ conf.routes := by simpa using List.mem_of_find?_eq_some hfind
  have hend : route'.endpoint = route.endpoint := by simpa using List.find?_some hfind
  rw [senders, hfind, List.inj_on_of_nodup_map hendpoints hmem h hend]
  rfl

theorem Consistent.keepsChannels (h : conf.Consistent)
    (hendpoints : (conf.routes.map Route.endpoint).Nodup) : conf.KeepsChannels where
  found route hroute w hw := workerChannel_isSome (h.workers_known route hroute w hw)
  kept i hi := by
    obtain ⟨route, hroute, hw⟩ := h.routed conf.runtimes[i] (List.getElem_mem hi)
    exact ⟨route.endpoint, _, senders_eq hendpoints hroute,
      List.mem_filterMap.mpr ⟨_, hw, workerChannel_eq h.names hi⟩⟩

end Config

namespace Server

theorem digits_of_name {a b d e : List Char} (hd : '_' ∉ d) (he : '_' ∉ e)
    (h : a ++ '_' :: d = b ++ '_' :: e) : d = e := by
  have hlast (c l : List Char) (hl : '_' ∉ l) :
      (c ++ '_' :: l).reverse.takeWhile (· ≠ '_') = l.reverse := by
    have hpos : ∀ x ∈ l.reverse, (decide (x ≠ '_')) = true := by
      intro x hx
      have hne : x ≠ '_' := fun heq => hl (heq ▸ List.mem_reverse.mp hx)
      simpa using hne
    rw [List.reverse_append, List.reverse_cons, List.append_assoc,
      List.takeWhile_append_of_pos hpos]
    simp
  have hrev := congrArg (fun l => l.reverse.takeWhile (· ≠ '_')) h
  simp only [hlast a d hd, hlast b e he] at hrev
  exact List.reverse_injective hrev

theorem name_injective (s : Server) : Function.Injective s.name := by
  intro r r' h
  have hchars (r : ℕ) : (s.name r).toList =
      (((s.made[r]?).map RuntimeArgs.worker).getD "").toList ++ '_' :: Nat.toDigits 10 (r + 1) := by
    simp [name]
  have hlist := congrArg String.toList h
  rw [hchars, hchars] at hlist
  have hdigits := digits_of_name Nat.underscore_not_in_toDigits Nat.underscore_not_in_toDigits hlist
  have hnum := congrArg (fun l => Nat.ofDigitChars 10 l 0) hdigits
  simp only [Nat.ofDigitChars_ten_toDigits] at hnum
  omega

variable {order : SetOrder} {s : Server} {pairs : List (String × ℕ)} {capacity : ℕ}

theorem mem_workers_config {r : ℕ} :
    (∃ route ∈ (s.config capacity).routes, s.name r ∈ route.workers) ↔ s.Routed r := by
  simp only [config, List.mem_map, exists_exists_and_eq_and, Routed, s.name_injective.eq_iff,
    exists_eq_right]

theorem mem_names_config {r : ℕ} :
    s.name r ∈ (s.config capacity).runtimes.map Runtime.worker ↔ r ∈ s.runtimes := by
  have hnames : (s.config capacity).runtimes.map Runtime.worker = s.runtimes.map s.name := by
    simp [config, Function.comp_def]
  rw [hnames]
  exact List.mem_map_of_injective s.name_injective

theorem WellFormed.consistent_iff (h : s.WellFormed) :
    (s.config capacity).Consistent ↔ s.Coupled := by
  constructor
  · intro hc r
    constructor
    · intro hr
      exact mem_workers_config.mp (hc.routed _ (List.mem_map_of_mem hr))
    · intro hr
      have hlisted : ∃ route ∈ (s.config capacity).routes, s.name r ∈ route.workers :=
        mem_workers_config.mpr hr
      obtain ⟨route, hroute, hw⟩ := hlisted
      exact mem_names_config.mp (hc.workers_known route hroute _ hw)
  · intro hc
    refine ⟨?_, ?_, ?_, ?_⟩
    · simp only [config, List.map_map]
      exact h.nodup.map s.name_injective
    · intro route hroute
      obtain ⟨p, hp, rfl⟩ := List.mem_map.mp hroute
      simpa using h.pipelines p hp
    · intro route hroute w hw
      obtain ⟨p, hp, rfl⟩ := List.mem_map.mp hroute
      obtain ⟨r, hr, rfl⟩ := List.mem_map.mp hw
      exact mem_names_config.mpr ((hc r).mpr ⟨p, hp, hr⟩)
    · intro runtime hruntime
      obtain ⟨r, hr, rfl⟩ := List.mem_map.mp hruntime
      exact mem_workers_config.mpr ((hc r).mp hr)

theorem WellFormed.keepsChannels (h : s.WellFormed) (hc : s.Coupled) :
    (s.config capacity).KeepsChannels := by
  refine (h.consistent_iff.mpr hc).keepsChannels ?_
  simpa [config, Function.comp_def] using h.endpoints

def RefusedAtOnce (endpoints : List String) : Prop :=
  (∃ e ∈ endpoints, e ∈ mosecReservedEndpoints) → ∃ e ∈ endpoints.head?, e ∈ mosecReservedEndpoints

def Clean (s : Server) : ServerCall → Prop
  | .makeRuntime _ => True
  | .appendWorker args route =>
    args.valid → route.endpoints ≠ [] ∧ RefusedAtOnce route.endpoints
  | .registerRuntime routes =>
    s.runtimes = [] → RefusedAtOnce ((routePairs routes).map Prod.fst)

structure Kept (before after : Server) (raised : Prop) : Prop where
  unchanged : raised → after.router = before.router ∧ after.runtimes = before.runtimes
  consistent : ∀ capacity, (after.config capacity).Consistent
  channels : ∀ capacity, (after.config capacity).KeepsChannels

def Sound (order : SetOrder) (s : Server) (c : ServerCall) : Prop :=
  ∀ s', step order s c = some s' → Kept s s' (raises order s c)

theorem kept_iff {before after : Server} {raised : Prop} (h : after.WellFormed) :
    Kept before after raised ↔
      (raised → after.router = before.router ∧ after.runtimes = before.runtimes) ∧
        after.Coupled := by
  constructor
  · intro hk
    exact ⟨hk.unchanged, h.consistent_iff.mp (hk.consistent 1)⟩
  · rintro ⟨hsame, hc⟩
    exact ⟨hsame, fun _ => h.consistent_iff.mpr hc, fun _ => h.keepsChannels hc⟩

theorem route_router_eq_iff : (s.route pairs).router = s.router ↔ pairs = [] := by
  constructor
  · intro h
    have hsize : ((s.route pairs).router.map fun p => p.2.length).sum =
        (s.router.map fun p => p.2.length).sum + pairs.length := size_route
    rw [h] at hsize
    exact List.length_eq_zero_iff.mp (by omega)
  · rintro rfl
    rfl

def registering (pairs : List (String × ℕ)) (rs : List ℕ) : Method PUnit := do
  forM pairs fun p => registerEndpoint p.2 p.1
  forM rs append

theorem registering_ok (rs : List ℕ) (h : ∀ p ∈ pairs, p.1 ∉ mosecReservedEndpoints) :
    registering pairs rs s = .ok ⟨⟩ ((s.route pairs).appendAll rs) := by
  rw [registering, bind_ok (registerAll_ok h), appendAll_eq]

theorem registering_error (rs : List ℕ) (h : ∃ p ∈ pairs, p.1 ∈ mosecReservedEndpoints) :
    ∃ first, first <+: pairs ∧ (first = [] ↔ RefusedAtOnce (pairs.map Prod.fst)) ∧
      ∃ err, registering pairs rs s = .error err (s.route first) := by
  have hfind : (pairs.find? fun p => p.1 ∈ mosecReservedEndpoints).isSome := by
    simpa [List.find?_isSome] using h
  obtain ⟨p, hp⟩ := Option.isSome_iff_exists.mp hfind
  obtain ⟨hreserved, first, rest, rfl, hfirst⟩ := List.find?_eq_some_iff_append.mp hp
  have hfree : ∀ q ∈ first, q.1 ∉ mosecReservedEndpoints := by simpa using hfirst
  have hmem : p.1 ∈ mosecReservedEndpoints := by simpa using hreserved
  obtain ⟨err, herr⟩ := registerAll_error (s := s) rest hfree hmem
  refine ⟨first, List.prefix_append _ _, ?_, err, bind_error herr⟩
  cases first with
  | nil => simp [RefusedAtOnce, hmem]
  | cons q first =>
    have hq := hfree q List.mem_cons_self
    simp only [reduceCtorEq, RefusedAtOnce, false_iff]
    intro hat
    obtain ⟨e, he, hemem⟩ := hat ⟨p.1, by simp, hmem⟩
    simp only [List.cons_append, List.map_cons, List.head?_cons, Option.mem_some_iff] at he
    exact hq (he ▸ hemem)

structure Admits (s : Server) (pairs : List (String × ℕ)) (rs : List ℕ) : Prop where
  nodup : rs.Nodup
  fresh : ∀ r ∈ rs, r ∉ s.runtimes ∧ r < s.made.length
  listed : ∀ r ∈ pairs.map Prod.snd, r ∈ rs
  cover : pairs ≠ [] → ∀ r ∈ rs, r ∈ pairs.map Prod.snd

section Steps

variable {rs : List ℕ}

theorem wellFormed_registering (h : s.WellFormed) (hadmits : s.Admits pairs rs) :
    (finalState (registering pairs rs) s).WellFormed := by
  have hpairs : ∀ r ∈ pairs.map Prod.snd, r < s.made.length :=
    fun r hr => (hadmits.fresh r (hadmits.listed r hr)).2
  by_cases hfree : ∀ p ∈ pairs, p.1 ∉ mosecReservedEndpoints
  · rw [finalState, registering_ok rs hfree]
    exact (h.route hpairs).appendAll hadmits.nodup hadmits.fresh
  · simp only [not_forall, not_not, exists_prop] at hfree
    obtain ⟨first, hpre, -, err, herr⟩ := registering_error (s := s) rs hfree
    rw [finalState, herr]
    exact h.route fun r hr => hpairs r ((hpre.map Prod.snd).subset hr)

theorem kept_registering_iff (h : s.WellFormed) (hc : s.Coupled) (hadmits : s.Admits pairs rs) :
    Kept s (finalState (registering pairs rs) s) (fails (registering pairs rs) s) ↔
      (pairs = [] → rs = []) ∧ RefusedAtOnce (pairs.map Prod.fst) := by
  rw [kept_iff (wellFormed_registering h hadmits)]
  by_cases hfree : ∀ p ∈ pairs, p.1 ∉ mosecReservedEndpoints
  · have hrefused : RefusedAtOnce (pairs.map Prod.fst) := by
      rintro ⟨e, he, hemem⟩
      obtain ⟨p, hp, rfl⟩ := List.mem_map.mp he
      exact absurd hemem (hfree p hp)
    simp only [finalState, fails, registering_ok rs hfree, Bool.false_eq_true, false_implies,
      true_and, hrefused, and_true]
    constructor
    · rintro hcoupled rfl
      refine List.eq_nil_iff_forall_not_mem.mpr fun r hr => (hadmits.fresh r hr).1 ((hc r).mpr ?_)
      exact (hcoupled r).mp (List.mem_append_right _ hr)
    · intro hrs r
      have hrouted : ((s.route pairs).appendAll rs).Routed r ↔
          s.Routed r ∨ r ∈ pairs.map Prod.snd := routed_route
      have hiff : r ∈ rs ↔ r ∈ pairs.map Prod.snd := by
        refine ⟨fun hr => hadmits.cover (fun hnil => ?_) r hr, hadmits.listed r⟩
        rw [hrs hnil] at hr
        exact List.not_mem_nil hr
      rw [hrouted, ← hc r, ← hiff]
      exact List.mem_append
  · simp only [not_forall, not_not, exists_prop] at hfree
    obtain ⟨first, -, hfirst, err, herr⟩ := registering_error (s := s) rs hfree
    have hne : pairs ≠ [] := by
      rintro rfl
      simp at hfree
    simp only [finalState, fails, herr, forall_const, ← hfirst, hne, false_implies, true_and]
    constructor
    · rintro ⟨⟨hrouter, -⟩, -⟩
      exact route_router_eq_iff.mp hrouter
    · rintro rfl
      exact ⟨⟨rfl, rfl⟩, hc⟩

inductive Outcome (order : SetOrder) (s : Server) (c : ServerCall) : Prop
  | idle (base : Server) : base.router = s.router → base.runtimes = s.runtimes → base.WellFormed →
      finalState (call order c) s = base → s.Clean c → Outcome order s c
  | registers (base : Server) (pairs : List (String × ℕ)) (rs : List ℕ) :
      base.router = s.router → base.runtimes = s.runtimes → base.WellFormed →
      base.Admits pairs rs → call order c s = registering pairs rs base →
      (s.Clean c ↔ (pairs = [] → rs = []) ∧ RefusedAtOnce (pairs.map Prod.fst)) → Outcome order s c

theorem outcome_makeRuntime (h : s.WellFormed) (args : RuntimeArgs) :
    Outcome order s (.makeRuntime args) := by
  refine .idle (s.addMade args) rfl rfl (h.addMade args) ?_ trivial
  by_cases hvalid : args.valid
  · rw [finalState, call, bind_ok (makeRuntime_valid hvalid)]
    rfl
  · rw [finalState, call, bind_error (makeRuntime_invalid hvalid)]

theorem outcome_appendWorker (h : s.WellFormed) (args : RuntimeArgs) (route : RouteArg) :
    Outcome order s (.appendWorker args route) := by
  by_cases hvalid : args.valid
  · refine .registers (s.addMade args) (route.endpoints.map (·, s.made.length)) [s.made.length]
      rfl rfl (h.addMade args) ⟨List.nodup_singleton _, ?_, by simp, ?_⟩ ?_ ?_
    · intro r hr
      rw [List.mem_singleton] at hr
      subst hr
      exact ⟨fun hmem => (h.listed _ hmem).false, by simp [addMade]⟩
    · intro hne r hr
      obtain ⟨e, he⟩ := List.exists_mem_of_ne_nil _ (mt List.map_eq_nil_iff.mpr hne)
      rw [List.mem_singleton] at hr
      subst hr
      exact List.mem_map.mpr ⟨_, List.mem_map_of_mem he, rfl⟩
    · rw [call, appendWorker, bind_ok (makeRuntime_valid hvalid), registerRoute_eq, registering]
      rfl
    · simp only [Clean, hvalid, forall_const, List.map_eq_nil_iff, reduceCtorEq, List.map_map,
        Function.comp_def, List.map_id', imp_false, ne_eq]
  · refine .idle (s.addMade args) rfl rfl (h.addMade args) ?_ fun hv => absurd hv hvalid
    rw [finalState, call, appendWorker, bind_error (makeRuntime_invalid hvalid)]

theorem outcome_registerRuntime (h : s.WellFormed) {routes : List (String × List ℕ)}
    (hrefers : s.Refers (.registerRuntime routes)) :
    Outcome order s (.registerRuntime routes) := by
  by_cases hempty : s.runtimes = []
  · have hmem (r : ℕ) : r ∈ order.iter (routes.flatMap Prod.snd) ↔
        r ∈ (routePairs routes).map Prod.snd := by
      rw [(order.perm _).mem_iff, List.mem_dedup]
      simp [routePairs]
    have hlt : ∀ r ∈ (routePairs routes).map Prod.snd, r < s.made.length := by
      intro r hr
      rw [← hmem, (order.perm _).mem_iff, List.mem_dedup, List.mem_flatMap] at hr
      obtain ⟨p, hp, hr⟩ := hr
      exact hrefers p hp r hr
    refine .registers s (routePairs routes) (order.iter (routes.flatMap Prod.snd)) rfl rfl h
      ⟨?_, ?_, fun r hr => (hmem r).mpr hr, fun _ r hr => (hmem r).mp hr⟩
      (registerRuntime_empty routes hempty) ?_
    · exact (order.perm _).nodup_iff.mpr (List.nodup_dedup _)
    · intro r hr
      exact ⟨by simp [hempty], hlt r ((hmem r).mp hr)⟩
    · have hnil : routePairs routes = [] → order.iter (routes.flatMap Prod.snd) = [] := by
        intro hnil
        refine List.eq_nil_iff_forall_not_mem.mpr fun r hr => ?_
        simpa [hnil] using (hmem r).mp hr
      rw [and_iff_right hnil]
      exact forall_prop_of_true hempty
  · obtain ⟨err, herr⟩ := registerRuntime_busy order routes hempty
    refine .idle s rfl rfl h ?_ fun hnil => absurd hnil hempty
    rw [finalState, call, herr]

theorem outcome (h : s.WellFormed) {c : ServerCall} (hrefers : s.Refers c) :
    Outcome order s c := by
  cases c with
  | makeRuntime args => exact outcome_makeRuntime h args
  | appendWorker args route => exact outcome_appendWorker h args route
  | registerRuntime routes => exact outcome_registerRuntime h hrefers

theorem wellFormed_step (h : s.WellFormed) {c : ServerCall} {s' : Server}
    (hstep : step order s c = some s') : s'.WellFormed := by
  obtain ⟨hrefers, hs'⟩ := Option.ite_none_right_eq_some.mp hstep
  obtain rfl : finalState (call order c) s = s' := Option.some.inj hs'
  have houtcome : Outcome order s c := outcome h hrefers
  cases houtcome with
  | idle base _ _ hwell hfinal _ => rwa [hfinal]
  | registers base pairs rs _ _ hwell hadmits hcall _ =>
    rw [finalState, hcall]
    exact wellFormed_registering hwell hadmits

theorem kept_step_iff (h : s.WellFormed) (hc : s.Coupled) {c : ServerCall} {s' : Server}
    (hstep : step order s c = some s') : Kept s s' (raises order s c) ↔ s.Clean c := by
  obtain ⟨hrefers, hs'⟩ := Option.ite_none_right_eq_some.mp hstep
  obtain rfl : finalState (call order c) s = s' := Option.some.inj hs'
  have hcoupled {base : Server} (hrouter : base.router = s.router)
      (hruntimes : base.runtimes = s.runtimes) : base.Coupled := by
    intro r
    rw [hruntimes, Routed, hrouter]
    exact hc r
  have houtcome : Outcome order s c := outcome h hrefers
  cases houtcome with
  | idle base hrouter hruntimes hwell hfinal hclean =>
    rw [hfinal, kept_iff hwell]
    exact iff_of_true ⟨fun _ => ⟨hrouter, hruntimes⟩, hcoupled hrouter hruntimes⟩ hclean
  | registers base pairs rs hrouter hruntimes hwell hadmits hcall hclean =>
    have hkept := kept_registering_iff hwell (hcoupled hrouter hruntimes) hadmits
    have hwell' := wellFormed_registering hwell hadmits
    rw [kept_iff hwell', hrouter, hruntimes, fails] at hkept
    rw [hclean, ← hkept, kept_iff (by rwa [finalState, hcall]), raises, fails, finalState, hcall]
    rfl

theorem sound_iff_clean {calls : List ServerCall} (h : s.WellFormed) (hc : s.Coupled)
    (hrun : (Transition.run (step order) s calls).isSome) :
    Transition.Follows (step order) (Sound order) s calls ↔
      Transition.Follows (step order) Clean s calls := by
  induction calls generalizing s with
  | nil => rfl
  | cons c calls ih =>
    obtain ⟨last, hlast⟩ := Option.isSome_iff_exists.mp hrun
    obtain ⟨s', hs', hrun'⟩ := Option.bind_eq_some_iff.mp hlast
    have hiff : Sound order s c ↔ s.Clean c := by
      rw [← kept_step_iff h hc hs', Sound, hs']
      simp only [Option.some.injEq, forall_eq']
    have hwell := wellFormed_step h hs'
    simp only [Transition.Follows, hs', Option.some.injEq, forall_eq', hiff]
    refine and_congr_right fun hclean => ih hwell ?_ (by rw [hrun']; rfl)
    exact ((kept_iff hwell).mp ((kept_step_iff h hc hs').mpr hclean)).2

end Steps

/-- Whatever is called, caught and called again, the route table and the runtime list agree
exactly when every call refuses its endpoints before it registers one, and gets some. -/
theorem registrations_sound_iff (order : SetOrder) (calls : List ServerCall)
    (hrun : (Transition.run (step order) new calls).isSome) :
    Transition.Follows (step order) (Sound order) new calls ↔
      Transition.Follows (step order) Clean new calls :=
  sound_iff_clean wellFormed_new coupled_new hrun

def firstSeen : SetOrder := ⟨List.dedup, fun _ => .rfl⟩

instance (endpoints : List String) : Decidable (RefusedAtOnce endpoints) :=
  inferInstanceAs (Decidable (_ → _))

instance (s : Server) (c : ServerCall) : Decidable (s.Clean c) :=
  match c with
  | .makeRuntime _ => isTrue trivial
  | .appendWorker args _ => inferInstanceAs (Decidable (args.valid → _))
  | .registerRuntime _ => inferInstanceAs (Decidable (s.runtimes = [] → _))

theorem registrations_sound_iff_cleanRun :
    Transition.Follows (step firstSeen) (Sound firstSeen) new
      [.appendWorker ⟨"Pre", 1, true⟩ (.list ["/a", "/b", "/a"]),
        .appendWorker ⟨"Bad", 1, true⟩ (.str "/metrics"), .registerRuntime [("/c", [0])],
        .appendWorker ⟨"Post", 8, true⟩ (.list ["/a", "/b"])] :=
  (registrations_sound_iff firstSeen _ (by decide +kernel)).mpr
    (Transition.follows_of_checked (fun (s : Server) c => of_decide_eq_true (p := s.Clean c))
      (by decide +kernel))

theorem appendWorker_reserved_leaves_route :
    ∃ calls, (Transition.run (step firstSeen) new calls).isSome ∧
      ¬ Transition.Follows (step firstSeen) (Sound firstSeen) new calls ∧
      (Transition.run (step firstSeen) new calls).map
        (fun s => (s.config 1024).workerChannel "Echo_1") = some none ∧
      (Transition.run (step firstSeen) new calls).map (fun s => (s.config 1024).routes) =
        some [⟨"/inference", ["Echo_1", "Next_2"]⟩] := by
  refine ⟨[.appendWorker ⟨"Echo", 1, true⟩ (.list ["/inference", "/metrics"]),
    .appendWorker ⟨"Next", 1, true⟩ (.str "/inference")], by decide +kernel, ?_, by decide +kernel,
    by decide +kernel⟩
  rintro ⟨hsound, -⟩
  have hkept := hsound ⟨[⟨"Echo", 1, true⟩], [("/inference", [0])], []⟩ (by decide +kernel)
  have hrouter := (hkept.unchanged (by decide +kernel)).1
  exact absurd hrouter (by decide +kernel)

end Server

end Mosec
