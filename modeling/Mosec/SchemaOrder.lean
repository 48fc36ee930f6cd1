import Mosec.SchemaPriority

namespace Mosec

open Attempts

namespace Defspec

variable {D τ ν δ : Type} {spec : Defspec D τ ν δ}

structure Registered (spec : Defspec D τ ν δ) (ops : List (Operation τ))
    (out : OpenApiSpec D τ) : Prop where
  operations : out.operations = ops
  doc : spec.Represents out.openapi (ops.flatMap Operation.types)

theorem register_ok {ops : List (Operation τ)} {out : OpenApiSpec D τ}
    (hout : Registered spec ops out) {op : Operation τ} (hsup : ∀ t ∈ op.types, spec.Supported t)
    (huniq : Relator.RightUnique (spec.Binds ((ops ++ [op]).flatMap Operation.types))) :
    ∃ out', spec.register out op = .ok out' ∧ Registered spec (ops ++ [op]) out' := by
  have htypes : (ops ++ [op]).flatMap Operation.types =
      ops.flatMap Operation.types ++ op.types := by
    rw [List.flatMap_append, List.flatMap_singleton]
  rw [htypes] at huniq
  obtain ⟨doc, hreg⟩ := (hout.doc.registers_iff op).mpr ⟨hsup, huniq⟩
  refine ⟨⟨doc, out.operations ++ [op]⟩, ?_, ?_, ?_⟩
  · rw [register, hreg]
    rfl
  · rw [hout.operations]
  · rw [htypes]
    exact hout.doc.register hreg

theorem not_binds_reserved {n : ν} {d : δ} :
    ¬ spec.Binds ((reservedOperations spec.str).flatMap Operation.types) n d := by
  rintro ⟨t, ht, hd⟩
  have ht : t = spec.str := by simpa [reservedOperations, Operation.types] using ht
  rw [ht] at hd
  exact spec.str_defines n d hd

theorem registerReserved_ok (spec : Defspec D τ ν δ) : ∃ out, spec.registerReserved = .ok out ∧
    Registered spec (reservedOperations spec.str) out := by
  refine foldlM_ok [] ⟨rfl, represents_openAPI⟩ ?_
  intro before op after out hops hout
  rw [List.nil_append] at hout ⊢
  refine register_ok hout ?_ ?_
  · have hop : op ∈ reservedOperations spec.str := by rw [hops]; simp
    intro t ht
    obtain rfl | rfl : op = _ ∨ op = _ := by
      simpa only [reservedOperations, List.mem_cons, List.not_mem_nil, or_false] using hop
    · rw [List.mem_singleton.mp ht]
      exact spec.str_supported
    · rw [List.mem_singleton.mp ht]
      exact spec.str_supported
  · intro n d d' hd
    refine absurd (hd.mono fun t ht => ?_) not_binds_reserved
    rw [hops, List.append_cons before op after, List.flatMap_append]
    exact List.mem_append_left _ ht

def operationOf (st : Staging D τ) (route : String × List (AnnotatedRuntime τ)) :
    Option (Operation τ) := (ends route.2).bind fun e => routeOperation st route.1 e.1 e.2

theorem operationOf_spec {st : Staging D τ} {route : String × List (AnnotatedRuntime τ)}
    {op : Operation τ} (h : operationOf st route = some op) :
    op.path = route.1 ∧ op.method = "post" ∧
      ∀ b ∈ routeBoundaries route, st.boundaryTypes b.key = some (op.typeAt b.direction) := by
  obtain ⟨e, he, h⟩ := Option.bind_eq_some_iff.mp h
  obtain ⟨requestType, hreq, h⟩ := Option.bind_eq_some_iff.mp h
  obtain ⟨responseType, hresp, h⟩ := Option.bind_eq_some_iff.mp h
  cases h
  refine ⟨rfl, rfl, fun b hb => ?_⟩
  simp only [routeBoundaries, he, List.mem_cons, List.not_mem_nil, or_false] at hb
  obtain rfl | rfl := hb
  · exact hreq
  · exact hresp

section Registering

variable {kept : List (Boundary τ × Option τ)} {st : Staging D τ}
  {route : String × List (AnnotatedRuntime τ)}

theorem operationOf_isSome (hst : Staged spec kept st)
    (hkept : ∀ b ∈ routeBoundaries route, b ∈ kept.map Prod.fst)
    {e : AnnotatedRuntime τ × AnnotatedRuntime τ} (he : ends route.2 = some e) :
    ∃ op, routeOperation st route.1 e.1 e.2 = some op := by
  have hkey : ∀ b ∈ routeBoundaries route, ∃ t, st.boundaryTypes b.key = some t := by
    intro b hb
    obtain ⟨p, hp, rfl⟩ := List.mem_map.mp (hkept b hb)
    exact ⟨p.2, hst.types p hp⟩
  simp only [routeBoundaries, he, List.mem_cons, List.not_mem_nil, or_false, forall_eq_or_imp,
    forall_eq] at hkey
  obtain ⟨⟨requestType, hreq⟩, responseType, hresp⟩ := hkey
  exact ⟨_, Option.bind_eq_some_iff.mpr ⟨_, hreq, Option.bind_eq_some_iff.mpr ⟨_, hresp, rfl⟩⟩⟩

theorem operationOf_types (hst : Staged spec kept st)
    (hkept : ∀ b ∈ routeBoundaries route, b ∈ kept.map Prod.fst) {op : Operation τ}
    (h : operationOf st route = some op) : op.types ⊆ kept.filterMap Prod.snd := by
  have hat : ∀ b ∈ routeBoundaries route, ∀ t ∈ op.typeAt b.direction,
      t ∈ kept.filterMap Prod.snd := by
    intro b hb t ht
    obtain ⟨p, hp, rfl⟩ := List.mem_map.mp (hkept b hb)
    have htype := (hst.types p hp).symm.trans ((operationOf_spec h).2.2 _ hb)
    rw [← Option.some.inj htype] at ht
    exact List.mem_filterMap.mpr ⟨p, hp, ht⟩
  obtain ⟨e, he, -⟩ := Option.bind_eq_some_iff.mp h
  simp only [routeBoundaries, he, List.mem_cons, List.not_mem_nil, or_false, forall_eq_or_imp,
    forall_eq, Operation.typeAt] at hat
  intro t ht
  rw [Operation.types, List.mem_append, Option.mem_toList, Option.mem_toList] at ht
  cases ht with
  | inl ht => exact hat.1 t ht
  | inr ht => exact hat.2 t ht

variable {routes : RouteMap τ}

theorem operations_types (hst : Staged spec kept st)
    (hkept : ∀ b ∈ boundaries routes, b ∈ kept.map Prod.fst) :
    (routes.filterMap (operationOf st)).flatMap Operation.types ⊆ kept.filterMap Prod.snd := by
  intro t ht
  obtain ⟨op, hop, ht⟩ := List.mem_flatMap.mp ht
  obtain ⟨route, hroute, hop⟩ := List.mem_filterMap.mp hop
  refine operationOf_types hst (fun b hb => hkept b ?_) hop ht
  exact List.mem_flatMap.mpr ⟨route, hroute, hb⟩

theorem retained_rightUnique (hst : Staged spec kept st) {ts : List τ}
    (hts : ts ⊆ kept.filterMap Prod.snd) : Relator.RightUnique
      (spec.Binds ((reservedOperations spec.str).flatMap Operation.types ++ ts)) := by
  intro n d d' hd hd'
  rw [binds_append] at hd hd'
  exact hst.doc.rightUnique ((hd.resolve_left not_binds_reserved).mono hts)
    ((hd'.resolve_left not_binds_reserved).mono hts)

theorem registerRoutes_ok (hst : Staged spec kept st)
    (hkept : ∀ b ∈ boundaries routes, b ∈ kept.map Prod.fst) {base : OpenApiSpec D τ}
    (hbase : Registered spec (reservedOperations spec.str) base) :
    ∃ out, spec.registerRoutes routes st base = .ok out ∧
      Registered spec (reservedOperations spec.str ++ routes.filterMap (operationOf st)) out := by
  refine foldlM_ok (I := fun done out => Registered spec
    (reservedOperations spec.str ++ done.filterMap (operationOf st)) out) [] ?_ ?_
  · rwa [List.filterMap_nil, List.append_nil]
  · intro before route after out hroutes hout
    rw [List.nil_append] at hout ⊢
    have hmem : ∀ b ∈ routeBoundaries route, b ∈ kept.map Prod.fst := fun b hb =>
      hkept b (List.mem_flatMap.mpr ⟨route, by rw [hroutes]; simp, hb⟩)
    cases he : ends route.2 with
    | none =>
      refine ⟨out, ?_, ?_⟩
      · rw [registerRouteOf, he]
      · have hnone : operationOf st route = none := by rw [operationOf, he]; rfl
        rw [List.filterMap_append, List.filterMap_cons_none hnone, List.filterMap_nil,
          List.append_nil]
        exact hout
    | some e =>
      obtain ⟨op, hop⟩ := operationOf_isSome hst hmem he
      have hsome : operationOf st route = some op := by rw [operationOf, he]; exact hop
      have hsub : ((before ++ [route]).filterMap (operationOf st)).flatMap Operation.types ⊆
          kept.filterMap Prod.snd := by
        refine operations_types hst fun b hb => hkept b ?_
        rw [hroutes, List.append_cons, boundaries, List.flatMap_append]
        exact List.mem_append_left _ hb
      have huniq := retained_rightUnique hst hsub
      rw [List.filterMap_append, List.filterMap_cons_some hsome, List.filterMap_nil,
        ← List.append_assoc]
      rw [← List.flatMap_append, List.filterMap_append, List.filterMap_cons_some hsome,
        List.filterMap_nil, ← List.append_assoc] at huniq
      obtain ⟨out', hreg, hout'⟩ := register_ok hout
        (fun t ht => hst.supported t (operationOf_types hst hmem hsome ht)) huniq
      refine ⟨out', ?_, hout'⟩
      rw [registerRouteOf, he]
      simp only [hop]
      exact hreg

end Registering

section Generated

variable {routes : RouteMap τ}

theorem mem_kept (routes : RouteMap τ) {kept : List (Boundary τ × Option τ)}
    (hkept : kept.map Prod.fst = typedBoundaries routes ++ ordinaryBoundaries routes)
    {b : Boundary τ} (hb : b ∈ boundaries routes) : b ∈ kept.map Prod.fst := by
  rw [hkept]
  exact (staged_perm routes).mem_iff.mpr hb

theorem generateOpenapi_ok (hkeys : (routes.map Prod.fst).Nodup) {out : OpenApiSpec D τ}
    (h : spec.generateOpenapi routes = .ok out) : ∃ st kept,
      kept.map Prod.fst = typedBoundaries routes ++ ordinaryBoundaries routes ∧
      Staged spec kept st ∧
      Registered spec (reservedOperations spec.str ++ routes.filterMap (operationOf st)) out := by
  obtain ⟨base, hbase, h⟩ := bind_eq_ok.mp h
  obtain ⟨base', hbase', hreserved⟩ := registerReserved_ok spec
  obtain rfl := Except.ok.inj (hbase.symm.trans hbase')
  obtain ⟨st, hstage, h⟩ := bind_eq_ok.mp h
  cases hrun : spec.stage routes with
  | error e =>
    rw [hrun] at hstage
    cases hstage
  | ok st' =>
    rw [hrun] at hstage
    obtain rfl := Except.ok.inj hstage
    obtain ⟨kept, hkept, hst⟩ := stage_retains hkeys hrun
    obtain ⟨out', hregister, hout⟩ := registerRoutes_ok hst (fun b => mem_kept routes hkept)
      hreserved
    obtain rfl := Except.ok.inj (h.symm.trans hregister)
    exact ⟨st', kept, hkept, hst, hout⟩

theorem generateOpenapi_error_iff (hkeys : (routes.map Prod.fst).Nodup) (e : GenerateError) :
    spec.generateOpenapi routes = .error e ↔ ∃ s, spec.stage routes = .error s ∧ e = .schema s := by
  obtain ⟨base, hbase, hreserved⟩ := registerReserved_ok spec
  rw [generateOpenapi, hbase]
  cases hrun : spec.stage routes with
  | error s =>
    simp only [bind, Except.bind, Except.mapError, Except.error.injEq, exists_eq_left',
      eq_comm (a := e)]
  | ok st =>
    obtain ⟨kept, hkept, hst⟩ := stage_retains hkeys hrun
    obtain ⟨out, hregister, -⟩ := registerRoutes_ok hst (fun b => mem_kept routes hkept) hreserved
    simp only [bind, Except.bind, Except.mapError, hregister, reduceCtorEq, false_and, exists_false]

theorem generateOpenapi_ok_iff (hkeys : (routes.map Prod.fst).Nodup) :
    (∃ out, spec.generateOpenapi routes = .ok out) ↔ Sound spec (typedBoundaries routes) := by
  rw [← stage_ok_iff hkeys]
  constructor
  · rintro ⟨out, h⟩
    cases hrun : spec.stage routes with
    | error s =>
      rw [(generateOpenapi_error_iff hkeys _).mpr ⟨s, hrun, rfl⟩] at h
      cases h
    | ok st => exact ⟨st, rfl⟩
  · rintro ⟨st, hst⟩
    cases hrun : spec.generateOpenapi routes with
    | error e =>
      obtain ⟨s, hs, -⟩ := (generateOpenapi_error_iff hkeys e).mp hrun
      rw [hst] at hs
      cases hs
    | ok out => exact ⟨out, rfl⟩

theorem boundaries_perm {routes' : RouteMap τ} (h : routes.Perm routes') :
    (boundaries routes).Perm (boundaries routes') := h.flatMap_right _

theorem sound_perm {bs cs : List (Boundary τ)} (h : bs.Perm cs) :
    Sound spec bs ↔ Sound spec cs := by
  have htypes : (ownTypes bs).Perm (ownTypes cs) := h.filterMap _
  refine and_congr (forall_congr' fun b => by rw [h.mem_iff]) ⟨?_, ?_⟩
  · exact rightUnique_mono htypes.symm.subset
  · exact rightUnique_mono htypes.subset

end Generated

section Failures

variable (spec)

/-- What `register_route` refuses on its own. -/
def Invalid (b : Boundary τ) : Prop :=
  (∃ e, b.own = .error e) ∨ ∃ t, b.own = .ok (some t) ∧ (¬ spec.Supported t ∨ spec.Conflict t t)

def BoundariesConflict (b c : Boundary τ) : Prop :=
  ∃ t u, b.own = .ok (some t) ∧ c.own = .ok (some u) ∧ spec.Conflict t u

variable {spec}

theorem not_invalid_iff {b : Boundary τ} : ¬ spec.Invalid b ↔
    ∃ t, b.own = .ok t ∧ ∀ u ∈ t.toList, spec.Supported u ∧ ¬ spec.Conflict u u := by
  cases hown : b.own with
  | error e => simp [Invalid, hown]
  | ok t => cases t <;> simp [Invalid, hown, not_or]

theorem mem_ownTypes {bs : List (Boundary τ)} {t : τ} :
    t ∈ ownTypes bs ↔ ∃ b ∈ bs, b.own = .ok (some t) := by
  rw [ownTypes, List.mem_filterMap]
  refine exists_congr fun b => and_congr_right fun _ => ?_
  cases b.own <;> simp [Except.toOption]

theorem sound_iff {bs : List (Boundary τ)} : Sound spec bs ↔
    ¬ ((∃ b ∈ bs, spec.Invalid b) ∨
      ∃ b ∈ bs, ∃ c ∈ bs, b ≠ c ∧ spec.BoundariesConflict b c) := by
  constructor
  · rintro ⟨husable, huniq⟩ (⟨b, hb, hinvalid⟩ | ⟨b, hb, c, hc, -, t, u, ht, hu, hconf⟩)
    · obtain ⟨t, hown, hsup⟩ := husable b hb
      refine absurd hinvalid (not_invalid_iff.mpr ⟨t, hown, fun u hu => ⟨hsup u hu, ?_⟩⟩)
      rw [Option.mem_toList.mp hu] at hown
      exact rightUnique_iff.mp huniq u (mem_ownTypes.mpr ⟨b, hb, hown⟩) u
        (mem_ownTypes.mpr ⟨b, hb, hown⟩)
    · exact rightUnique_iff.mp huniq t (mem_ownTypes.mpr ⟨b, hb, ht⟩) u
        (mem_ownTypes.mpr ⟨c, hc, hu⟩) hconf
  · intro h
    rw [not_or, not_exists] at h
    have hvalid : ∀ b ∈ bs, ∃ t, b.own = .ok t ∧
        ∀ u ∈ t.toList, spec.Supported u ∧ ¬ spec.Conflict u u :=
      fun b hb => not_invalid_iff.mp fun hinvalid => h.1 b ⟨hb, hinvalid⟩
    constructor
    · intro b hb
      obtain ⟨t, hown, ht⟩ := hvalid b hb
      exact ⟨t, hown, fun u hu => (ht u hu).1⟩
    · refine rightUnique_iff.mpr fun t ht u hu hconf => ?_
      obtain ⟨b, hb, hbt⟩ := mem_ownTypes.mp ht
      obtain ⟨c, hc, hcu⟩ := mem_ownTypes.mp hu
      by_cases hbc : b = c
      · subst hbc
        obtain rfl : t = u := by simpa using hbt.symm.trans hcu
        obtain ⟨t', hown, ht'⟩ := hvalid b hb
        obtain rfl := Except.ok.inj (hbt.symm.trans hown)
        exact (ht' t (Option.mem_toList.mpr rfl)).2 hconf
      · exact h.2 ⟨b, hb, c, hc, hbc, t, u, hbt, hcu, hconf⟩

end Failures

section Documented

def typeAt (out : OpenApiSpec D τ) (k : String × Direction) : Option (Option τ) :=
  (out.operations.find? fun op => op.path == k.1 && op.method == "post").map
    fun op => op.typeAt k.2

theorem find?_of_unique {α : Type} {p : α → Bool} {xs : List α} {x : α} (hx : x ∈ xs)
    (hp : p x = true) (hunique : ∀ y ∈ xs, p y = true → y = x) : xs.find? p = some x := by
  cases hfind : xs.find? p with
  | none => exact absurd hp (List.find?_eq_none.mp hfind x hx)
  | some y => rw [hunique y (List.mem_of_find?_eq_some hfind) (List.find?_some hfind)]

variable {routes : RouteMap τ} {kept : List (Boundary τ × Option τ)} {st : Staging D τ}
  {out : OpenApiSpec D τ}

theorem typeAt_of_kept (hkeys : (routes.map Prod.fst).Nodup) (hst : Staged spec kept st)
    (hkept : ∀ b ∈ boundaries routes, b ∈ kept.map Prod.fst)
    (hout : Registered spec (reservedOperations spec.str ++ routes.filterMap (operationOf st)) out)
    {p : Boundary τ × Option τ} (hp : p ∈ kept) (hb : p.1 ∈ boundaries routes) :
    ∃ op ∈ out.operations, op.typeAt p.1.direction = p.2 ∧ typeAt out p.1.key = some p.2 := by
  obtain ⟨route, hroute, hmem⟩ := List.mem_flatMap.mp hb
  have hends : ∃ e, ends route.2 = some e := by
    cases he : ends route.2 with
    | none => simp [routeBoundaries, he] at hmem
    | some e => exact ⟨e, rfl⟩
  obtain ⟨e, he⟩ := hends
  obtain ⟨op, hop⟩ := operationOf_isSome hst
    (fun b hb => hkept b (List.mem_flatMap.mpr ⟨route, hroute, hb⟩)) he
  have hsome : operationOf st route = some op := by rw [operationOf, he]; exact hop
  obtain ⟨hpath, hmethod, htypes⟩ := operationOf_spec hsome
  have htype : op.typeAt p.1.direction = p.2 :=
    Option.some.inj ((htypes _ hmem).symm.trans (hst.types p hp))
  have hin : op ∈ out.operations := by
    rw [hout.operations]
    exact List.mem_append_right _ (List.mem_filterMap.mpr ⟨route, hroute, hsome⟩)
  have hfind : out.operations.find? (fun op => op.path == p.1.endpoint && op.method == "post") =
      some op := by
    refine find?_of_unique hin ?_ ?_
    · simp [hpath, hmethod, mem_routeBoundaries hmem]
    · intro op' hop' hsel
      rw [Bool.and_eq_true, beq_iff_eq, beq_iff_eq] at hsel
      rw [hout.operations, List.mem_append] at hop'
      cases hop' with
      | inl hreserved =>
        have hget : op'.method = "get" := by
          simp only [reservedOperations, List.mem_cons, List.not_mem_nil, or_false] at hreserved
          obtain rfl | rfl := hreserved <;> rfl
        exact absurd (hget.symm.trans hsel.2) (by decide)
      | inr hmapped =>
        obtain ⟨route', hroute', hop'⟩ := List.mem_filterMap.mp hmapped
        have hend : route'.1 = route.1 :=
          (operationOf_spec hop').1.symm.trans (hsel.1.trans (mem_routeBoundaries hmem))
        rw [List.inj_on_of_nodup_map hkeys hroute' hroute hend, hsome] at hop'
        exact (Option.some.inj hop').symm
  refine ⟨op, hin, htype, ?_⟩
  rw [typeAt, Boundary.key, hfind, Option.map_some, htype]

theorem schemas_of_operation {ops : List (Operation τ)} (hout : Registered spec ops out)
    {op : Operation τ} (hop : op ∈ out.operations) {direction : Direction} {u : τ}
    (hu : op.typeAt direction = some u) {n : ν} {d : δ} (hd : spec.Defines u n d) :
    spec.schemas out.openapi n = some d := by
  rw [hout.operations] at hop
  refine (hout.doc n d).mpr ⟨u, List.mem_flatMap.mpr ⟨op, hop, ?_⟩, hd⟩
  cases direction with
  | request => exact List.mem_append_left _ (Option.mem_toList.mpr hu)
  | response => exact List.mem_append_right _ (Option.mem_toList.mpr hu)

structure Prioritized (spec : Defspec D τ ν δ) (routes : RouteMap τ)
    (out : OpenApiSpec D τ) : Prop where
  typed : ∀ b ∈ typedBoundaries routes, ∃ t, b.own = .ok t ∧ typeAt out b.key = some t ∧
    ∀ u ∈ t, ∀ n d, spec.Defines u n d → spec.schemas out.openapi n = some d
  ordinary : ∀ b ∈ ordinaryBoundaries routes, ∀ c ∈ typedBoundaries routes,
    spec.BoundariesConflict b c → typeAt out b.key = some none
  conflictFree : ∀ b ∈ boundaries routes, ∀ c ∈ boundaries routes, ∀ t u,
    typeAt out b.key = some (some t) → typeAt out c.key = some (some u) → ¬ spec.Conflict t u

theorem prioritized_of_ok (hkeys : (routes.map Prod.fst).Nodup)
    (h : spec.generateOpenapi routes = .ok out) : Prioritized spec routes out := by
  obtain ⟨st, kept, hkept, hst, hout⟩ := generateOpenapi_ok hkeys h
  have hall : ∀ b ∈ boundaries routes, b ∈ kept.map Prod.fst := fun b => mem_kept routes hkept
  have hfree := rightUnique_iff.mp hst.doc.rightUnique
  have hretained : ∀ b ∈ boundaries routes, ∃ t, (b, t) ∈ kept ∧ typeAt out b.key = some t := by
    intro b hb
    obtain ⟨p, hp, rfl⟩ := List.mem_map.mp (hall b hb)
    obtain ⟨op, -, -, htype⟩ := typeAt_of_kept hkeys hst hall hout hp hb
    exact ⟨p.2, hp, htype⟩
  have hmem : ∀ b ∈ boundaries routes, ∀ t, typeAt out b.key = some (some t) →
      t ∈ kept.filterMap Prod.snd := by
    intro b hb t ht
    obtain ⟨t', hp, ht'⟩ := hretained b hb
    rw [ht, Option.some.injEq] at ht'
    exact List.mem_filterMap.mpr ⟨(b, t'), hp, ht'.symm⟩
  have htyped : ∀ b ∈ typedBoundaries routes, ∃ t, b.own = .ok t ∧ (b, t) ∈ kept ∧
      typeAt out b.key = some t := by
    intro b hb
    obtain ⟨t, hp, ht⟩ := hretained b (List.mem_of_mem_filter hb)
    exact ⟨t, hst.own_of_typed hp (typed_of_mem hb), hp, ht⟩
  constructor
  · intro b hb
    obtain ⟨t, hown, hp, ht⟩ := htyped b hb
    refine ⟨t, hown, ht, fun u hu n d hd => ?_⟩
    obtain ⟨op, hop, htype, -⟩ := typeAt_of_kept hkeys hst hall hout hp (List.mem_of_mem_filter hb)
    exact schemas_of_operation hout hop (htype.trans hu) hd
  · rintro b hb c hc ⟨t, u, ht, hu, hconf⟩
    obtain ⟨t', hp, ht'⟩ := hretained b (List.mem_of_mem_filter hb)
    obtain ⟨u', hown, -, hu'⟩ := htyped c hc
    obtain rfl := Except.ok.inj (hu.symm.trans hown)
    cases hst.own (b, t') hp with
    | inl hbown =>
      -- the type of the ordinary boundary, were it retained, would conflict with a retained one
      obtain rfl := Except.ok.inj (ht.symm.trans hbown)
      exact absurd hconf (hfree t (hmem b (List.mem_of_mem_filter hb) t ht') u
        (hmem c (List.mem_of_mem_filter hc) u hu'))
    | inr hnone => exact ht'.trans (congrArg some hnone.2)
  · intro b hb c hc t u ht hu
    exact hfree t (hmem b hb t ht) u (hmem c hc u hu)

end Documented

theorem generateOpenapi_order_independent (spec : Defspec D τ ν δ) {routes routes' : RouteMap τ}
    (hkeys : (routes.map Prod.fst).Nodup) (hperm : routes.Perm routes') :
    ((∃ out, spec.generateOpenapi routes = .ok out) ↔
      ∃ out, spec.generateOpenapi routes' = .ok out) ∧
    ((∃ e, spec.generateOpenapi routes = .error (.schema e)) ↔
      (∃ b ∈ typedBoundaries routes, spec.Invalid b) ∨
        ∃ b ∈ typedBoundaries routes, ∃ c ∈ typedBoundaries routes,
          b ≠ c ∧ spec.BoundariesConflict b c) ∧
    (∀ out out', spec.generateOpenapi routes = .ok out → spec.generateOpenapi routes' = .ok out' →
      Prioritized spec routes out ∧ Prioritized spec routes out') ∧
    ∃ base, spec.registerReserved = .ok base ∧ ∀ st, spec.stage routes = .ok st →
      ∃ out, spec.registerRoutes routes st base = .ok out := by
  have hkeys' : (routes'.map Prod.fst).Nodup := (hperm.map Prod.fst).nodup_iff.mp hkeys
  have hboundaries := boundaries_perm hperm
  have htyped : (typedBoundaries routes).Perm (typedBoundaries routes') := hboundaries.filter _
  have hordinary : (ordinaryBoundaries routes).Perm (ordinaryBoundaries routes') :=
    hboundaries.filter _
  refine ⟨?_, ?_, ?_, ?_⟩
  · rw [generateOpenapi_ok_iff hkeys, generateOpenapi_ok_iff hkeys', sound_perm htyped]
  · have hsound : (∃ e, spec.stage routes = .error e) ↔ ¬ ∃ st, spec.stage routes = .ok st := by
      cases spec.stage routes <;> simp
    rw [stage_ok_iff hkeys, sound_iff, not_not] at hsound
    rw [← hsound]
    refine exists_congr fun e => ?_
    rw [generateOpenapi_error_iff hkeys]
    simp
  · intro out out' hout hout'
    refine ⟨prioritized_of_ok hkeys hout, ?_⟩
    have hprio := prioritized_of_ok hkeys' hout'
    constructor
    · exact fun b hb => hprio.typed b (htyped.subset hb)
    · exact fun b hb c hc => hprio.ordinary b (hordinary.subset hb) c (htyped.subset hc)
    · exact fun b hb c hc => hprio.conflictFree b (hboundaries.subset hb) c (hboundaries.subset hc)
  · obtain ⟨base, hbase, hreserved⟩ := registerReserved_ok spec
    refine ⟨base, hbase, fun st hstage => ?_⟩
    obtain ⟨kept, hkept, hst⟩ := stage_retains hkeys hstage
    obtain ⟨out, hrun, -⟩ := registerRoutes_ok hst (fun b => mem_kept routes hkept) hreserved
    exact ⟨out, hrun⟩

section Collision

structure Model where
  supported : Bool
  definitions : List (String × String)

def Functional (table : List (String × String)) : Prop :=
  ∀ p ∈ table, ∀ q ∈ table, p.1 = q.1 → p.2 = q.2

instance (table : List (String × String)) : Decidable (Functional table) :=
  inferInstanceAs (Decidable (∀ p ∈ table, ∀ q ∈ table, p.1 = q.1 → p.2 = q.2))

abbrev Components := { table : List (String × String) // Functional table }

def Components.find (doc : Components) (n : String) : Option String :=
  (doc.1.find? fun p => p.1 == n).map Prod.snd

theorem Components.find_eq_some_iff (doc : Components) (n d : String) :
    doc.find n = some d ↔ (n, d) ∈ doc.1 := by
  rw [Components.find, Option.map_eq_some_iff]
  constructor
  · rintro ⟨p, hp, rfl⟩
    have hpn := List.find?_some hp
    rw [beq_iff_eq] at hpn
    rw [← hpn]
    exact List.mem_of_find?_eq_some hp
  · intro h
    cases hfind : doc.1.find? fun p => p.1 == n with
    | none => exact absurd (List.find?_eq_none.mp hfind _ h) (by simp)
    | some p =>
      have hpn := List.find?_some hfind
      rw [beq_iff_eq] at hpn
      exact ⟨p, rfl, doc.2 p (List.mem_of_find?_eq_some hfind) (n, d) h hpn⟩

def registerTables (doc : Components) (op : Operation Model) : Except SchemaError Components :=
  if op.types.all Model.supported then
    if h : Functional (doc.1 ++ op.types.flatMap Model.definitions) then .ok ⟨_, h⟩
    else .error .valueError
  else .error .typeError

theorem mem_components (doc : Components) (op : Operation Model) (n d : String) :
    (n, d) ∈ doc.1 ++ op.types.flatMap Model.definitions ↔
      doc.find n = some d ∨ ∃ t ∈ op.types, (n, d) ∈ t.definitions := by
  rw [List.mem_append, List.mem_flatMap, doc.find_eq_some_iff]

theorem functional_iff (doc : Components) (op : Operation Model) :
    Functional (doc.1 ++ op.types.flatMap Model.definitions) ↔
      Relator.RightUnique fun n d =>
        doc.find n = some d ∨ ∃ t ∈ op.types, (n, d) ∈ t.definitions := by
  simp only [← mem_components]
  constructor
  · exact fun h n d d' hd hd' => h (n, d) hd (n, d') hd' rfl
  · rintro h ⟨n, d⟩ hd ⟨n', d'⟩ hd' heq
    obtain rfl : n = n' := heq
    exact h hd hd'

def tables : Defspec Components Model String String where
  openAPI := ⟨[], fun _ hp => absurd hp List.not_mem_nil⟩
  registerRoute := registerTables
  schemas := Components.find
  Supported t := t.supported = true
  Defines t n d := (n, d) ∈ t.definitions
  str := ⟨true, []⟩
  schemas_openAPI _ := rfl
  registers_iff doc op := by
    rw [← functional_iff, ← List.all_eq_true, registerTables]
    split <;> rename_i hsup
    · split <;> rename_i huniq <;> simp [hsup, huniq]
    · simp [hsup]
  schemas_register doc op doc' h n d := by
    rw [← mem_components, Components.find_eq_some_iff]
    unfold registerTables at h
    split at h
    · split at h
      · cases h
        rfl
      · cases h
    · cases h
  str_supported := rfl
  str_defines _ _ := List.not_mem_nil

def collidingRoutes : RouteMap Model :=
  [("/typed", [⟨⟨true, "application/msgpack", "application/msgpack",
      fun _ => .ok (.type ⟨true, [("Req", "count: integer")]⟩),
      fun _ => .ok (.type ⟨true, []⟩)⟩, 1⟩]),
    ("/other", [⟨⟨false, "application/json", "application/json",
      fun _ => .ok (.type ⟨true, [("Req", "text: string")]⟩),
      fun _ => .ok (.type ⟨true, []⟩)⟩, 1⟩])]

theorem generateOpenapi_order_independent_colliding : ∃ out out',
    tables.generateOpenapi collidingRoutes = .ok out ∧
    tables.generateOpenapi collidingRoutes.reverse = .ok out' ∧
    Prioritized tables collidingRoutes out ∧ Prioritized tables collidingRoutes out' := by
  obtain ⟨hiff, -, hprio, -⟩ := generateOpenapi_order_independent tables
    (show (collidingRoutes.map Prod.fst).Nodup by decide) collidingRoutes.reverse_perm.symm
  obtain ⟨out, hout⟩ : ∃ out, tables.generateOpenapi collidingRoutes = .ok out := ⟨_, rfl⟩
  obtain ⟨out', hout'⟩ := hiff.mp ⟨out, hout⟩
  obtain ⟨h, h'⟩ := hprio out out' hout hout'
  exact ⟨out, out', hout, hout', h, h'⟩

end Collision

end Defspec

end Mosec
