import Mosec.OpenApi
import Mathlib.Data.List.Nodup

namespace Mosec

open Attempts

namespace Defspec

variable {D τ ν δ : Type} (spec : Defspec D τ ν δ)

def Binds (ts : List τ) (n : ν) (d : δ) : Prop := ∃ t ∈ ts, spec.Defines t n d

def Represents (doc : D) (ts : List τ) : Prop :=
  ∀ n d, spec.schemas doc n = some d ↔ spec.Binds ts n d

def Conflict (t u : τ) : Prop := ∃ n d d', spec.Defines t n d ∧ spec.Defines u n d' ∧ d ≠ d'

variable {spec}

theorem binds_append {ts us : List τ} {n : ν} {d : δ} :
    spec.Binds (ts ++ us) n d ↔ spec.Binds ts n d ∨ spec.Binds us n d := by
  simp only [Binds, List.mem_append, or_and_right, exists_or]

theorem Binds.mono {ts us : List τ} (hsub : ts ⊆ us) {n : ν} {d : δ} (h : spec.Binds ts n d) :
    spec.Binds us n d := by
  obtain ⟨t, ht, hd⟩ := h
  exact ⟨t, hsub ht, hd⟩

theorem rightUnique_mono {ts us : List τ} (hsub : ts ⊆ us)
    (h : Relator.RightUnique (spec.Binds us)) : Relator.RightUnique (spec.Binds ts) :=
  fun _ _ _ hd hd' => h (hd.mono hsub) (hd'.mono hsub)

theorem rightUnique_iff {ts : List τ} :
    Relator.RightUnique (spec.Binds ts) ↔ ∀ t ∈ ts, ∀ u ∈ ts, ¬ spec.Conflict t u := by
  constructor
  · rintro h t ht u hu ⟨n, d, d', hd, hd', hne⟩
    exact hne (h ⟨t, ht, hd⟩ ⟨u, hu, hd'⟩)
  · rintro h n d d' ⟨t, ht, hd⟩ ⟨u, hu, hd'⟩
    by_contra hne
    exact h t ht u hu ⟨n, d, d', hd, hd', hne⟩

theorem represents_openAPI : spec.Represents spec.openAPI [] := by
  intro n d
  simp [Binds, spec.schemas_openAPI]

theorem Represents.binds {doc : D} {ts : List τ} (h : spec.Represents doc ts) (op : Operation τ) :
    (fun n d => spec.schemas doc n = some d ∨ ∃ t ∈ op.types, spec.Defines t n d) =
      spec.Binds (ts ++ op.types) := by
  funext n d
  rw [h n d, binds_append]
  rfl

theorem Represents.rightUnique {doc : D} {ts : List τ} (h : spec.Represents doc ts) :
    Relator.RightUnique (spec.Binds ts) := by
  intro n d d' hd hd'
  rw [← h] at hd hd'
  exact Option.some.inj (hd.symm.trans hd')

theorem Represents.registers_iff {doc : D} {ts : List τ} (h : spec.Represents doc ts)
    (op : Operation τ) : (∃ doc', spec.registerRoute doc op = .ok doc') ↔
      (∀ t ∈ op.types, spec.Supported t) ∧ Relator.RightUnique (spec.Binds (ts ++ op.types)) := by
  rw [spec.registers_iff, h.binds]

theorem Represents.register {doc doc' : D} {ts : List τ} (h : spec.Represents doc ts)
    {op : Operation τ} (hreg : spec.registerRoute doc op = .ok doc') :
    spec.Represents doc' (ts ++ op.types) := by
  intro n d
  rw [spec.schemas_register doc op doc' hreg, ← h.binds op]

end Defspec

namespace Boundary

variable {D τ ν δ : Type}

def key (b : Boundary τ) : String × Direction := (b.endpoint, b.direction)

def own (b : Boundary τ) : Except SchemaError (Option τ) := b.extract.map schemaType

end Boundary

namespace Defspec

variable {D τ ν δ : Type} {spec : Defspec D τ ν δ}

theorem attempt_types (typ : BoundaryType τ) :
    ({ path := "/schema", method := "post", requestType := schemaType typ } : Operation τ).types =
      (schemaType typ).toList := List.append_nil _

section Try

variable {doc doc' : D} {ts : List τ} {extract : Except SchemaError (BoundaryType τ)}
  {strict : Bool} {t : Option τ}

theorem trySchemaType_of_fits (strict : Bool) (hdoc : spec.Represents doc ts)
    (hown : extract.map schemaType = .ok t) (hsup : ∀ u ∈ t.toList, spec.Supported u)
    (huniq : Relator.RightUnique (spec.Binds (ts ++ t.toList))) :
    ∃ doc', spec.trySchemaType doc extract strict = .ok (doc', t) := by
  cases extract with
  | error e => cases hown
  | ok typ =>
    have htyp : schemaType typ = t := Except.ok.inj hown
    subst htyp
    obtain ⟨doc', hreg⟩ := (hdoc.registers_iff
      { path := "/schema", method := "post", requestType := schemaType typ }).mpr (by
        rw [attempt_types]
        exact ⟨hsup, huniq⟩)
    refine ⟨doc', ?_⟩
    simp only [trySchemaType, bind, Except.bind, hreg, pure, Except.pure]

theorem trySchemaType_ok (hdoc : spec.Represents doc ts)
    (h : spec.trySchemaType doc extract strict = .ok (doc', t)) :
    spec.Represents doc' (ts ++ t.toList) ∧ (∀ u ∈ t.toList, spec.Supported u) ∧
      (extract.map schemaType = .ok t ∨ strict = false ∧ t = none) := by
  have hfail : ∀ e : SchemaError,
      (if strict then .error e else .ok (doc, none) : Except SchemaError (D × Option τ)) =
        .ok (doc', t) → strict = false ∧ doc' = doc ∧ t = none := by
    intro e he
    cases strict with
    | false => exact ⟨rfl, (Prod.mk.inj (Except.ok.inj he)).imp Eq.symm Eq.symm⟩
    | true => cases he
  cases extract with
  | error e =>
    obtain ⟨hstrict, rfl, rfl⟩ := hfail e h
    refine ⟨?_, ?_, .inr ⟨hstrict, rfl⟩⟩
    · rwa [Option.toList_none, List.append_nil]
    · simp
  | ok typ =>
    cases hreg : spec.registerRoute doc
        { path := "/schema", method := "post", requestType := schemaType typ } with
    | error e =>
      simp only [trySchemaType, bind, Except.bind, hreg] at h
      obtain ⟨hstrict, rfl, rfl⟩ := hfail e h
      refine ⟨?_, ?_, .inr ⟨hstrict, rfl⟩⟩
      · rwa [Option.toList_none, List.append_nil]
      · simp
    | ok doc₁ =>
      simp only [trySchemaType, bind, Except.bind, hreg, pure, Except.pure] at h
      obtain ⟨rfl, rfl⟩ := Prod.mk.inj (Except.ok.inj h)
      have hrep := hdoc.register hreg
      have hsup := ((hdoc.registers_iff _).mp ⟨_, hreg⟩).1
      rw [attempt_types] at hrep hsup
      exact ⟨hrep, hsup, .inl rfl⟩

theorem trySchemaType_lenient (spec : Defspec D τ ν δ) (doc : D)
    (extract : Except SchemaError (BoundaryType τ)) :
    ∃ staged, spec.trySchemaType doc extract false = .ok staged := by
  unfold trySchemaType
  dsimp only
  split
  · exact ⟨_, rfl⟩
  · exact ⟨_, rfl⟩

end Try

/-- The boundaries staged so far, with the types that were retained. -/
structure Staged (spec : Defspec D τ ν δ) (kept : List (Boundary τ × Option τ))
    (st : Staging D τ) : Prop where
  doc : spec.Represents st.schemaDoc (kept.filterMap Prod.snd)
  supported : ∀ t ∈ kept.filterMap Prod.snd, spec.Supported t
  types : ∀ p ∈ kept, st.boundaryTypes p.1.key = some p.2
  own : ∀ p ∈ kept, p.1.own = .ok p.2 ∨ p.1.typed = false ∧ p.2 = none

theorem filterMap_snd_append (kept : List (Boundary τ × Option τ)) (b : Boundary τ)
    (t : Option τ) : (kept ++ [(b, t)]).filterMap Prod.snd =
      kept.filterMap Prod.snd ++ t.toList := by
  rw [List.filterMap_append]
  cases t <;> rfl

theorem stageType_ok {kept : List (Boundary τ × Option τ)} {st st' : Staging D τ}
    {b : Boundary τ} (hst : Staged spec kept st) (hkey : ∀ p ∈ kept, p.1.key ≠ b.key)
    (h : spec.stageType b.typed st b = .ok st') :
    ∃ t, Staged spec (kept ++ [(b, t)]) st' := by
  obtain ⟨⟨doc, t⟩, htry, hst'⟩ := bind_eq_ok.mp h
  have hst' : st' = ⟨doc, Function.update st.boundaryTypes b.key (some t)⟩ :=
    (Except.ok.inj hst').symm
  subst hst'
  obtain ⟨hrep, hsup, hown⟩ := trySchemaType_ok hst.doc htry
  refine ⟨t, ?_, ?_, ?_, ?_⟩
  · rwa [filterMap_snd_append]
  · rw [filterMap_snd_append]
    intro u hu
    cases List.mem_append.mp hu with
    | inl hu => exact hst.supported u hu
    | inr hu => exact hsup u hu
  · intro p hp
    cases List.mem_append.mp hp with
    | inl hp => exact (Function.update_of_ne (hkey p hp) _ _).trans (hst.types p hp)
    | inr hp =>
      rw [List.mem_singleton.mp hp]
      exact Function.update_self b.key (some t) st.boundaryTypes
  · intro p hp
    cases List.mem_append.mp hp with
    | inl hp => exact hst.own p hp
    | inr hp =>
      rw [List.mem_singleton.mp hp]
      exact hown

theorem staged_openAPI : Staged spec [] ⟨spec.openAPI, fun _ => none⟩ where
  doc := represents_openAPI
  supported _ ht := absurd ht List.not_mem_nil
  types _ hp := absurd hp List.not_mem_nil
  own _ hp := absurd hp List.not_mem_nil

def Retains (spec : Defspec D τ ν δ) (bs : List (Boundary τ)) (st : Staging D τ) : Prop :=
  ∃ kept, kept.map Prod.fst = bs ∧ Staged spec kept st

theorem Retains.step {bs : List (Boundary τ)} {st st' : Staging D τ} {b : Boundary τ}
    (hst : Retains spec bs st) (hkey : b.key ∉ bs.map Boundary.key)
    (h : spec.stageType b.typed st b = .ok st') : Retains spec (bs ++ [b]) st' := by
  obtain ⟨kept, rfl, hst⟩ := hst
  obtain ⟨t, hst'⟩ := stageType_ok hst (fun p hp hpb =>
    hkey (List.mem_map.mpr ⟨p.1, List.mem_map_of_mem hp, hpb⟩)) h
  exact ⟨kept ++ [(b, t)], by rw [List.map_append]; rfl, hst'⟩

def boundaries (routes : RouteMap τ) : List (Boundary τ) := routes.flatMap routeBoundaries

theorem mem_routeBoundaries {route : String × List (AnnotatedRuntime τ)} {b : Boundary τ}
    (h : b ∈ routeBoundaries route) : b.endpoint = route.1 := by
  unfold routeBoundaries at h
  cases hends : ends route.2 with
  | none =>
    rw [hends] at h
    cases h
  | some e =>
    simp only [hends, List.mem_cons, List.not_mem_nil, or_false] at h
    obtain rfl | rfl := h <;> rfl

theorem nodup_routeBoundaries (route : String × List (AnnotatedRuntime τ)) :
    ((routeBoundaries route).map Boundary.key).Nodup := by
  unfold routeBoundaries
  cases ends route.2 with
  | none => exact List.nodup_nil
  | some e => simp [Boundary.key]

theorem nodup_boundaries {routes : RouteMap τ} (h : (routes.map Prod.fst).Nodup) :
    ((boundaries routes).map Boundary.key).Nodup := by
  rw [boundaries, List.map_flatMap, List.nodup_flatMap]
  refine ⟨fun route _ => nodup_routeBoundaries route, (List.pairwise_map.mp h).imp ?_⟩
  intro route route' hne k hk hk'
  obtain ⟨b, hb, rfl⟩ := List.mem_map.mp hk
  obtain ⟨b', hb', hkey⟩ := List.mem_map.mp hk'
  apply hne
  calc route.1 = b.endpoint := (mem_routeBoundaries hb).symm
    _ = b'.endpoint := (congrArg Prod.fst hkey).symm
    _ = route'.1 := mem_routeBoundaries hb'

def typedBoundaries (routes : RouteMap τ) : List (Boundary τ) :=
  (boundaries routes).filter fun b => b.typed

def ordinaryBoundaries (routes : RouteMap τ) : List (Boundary τ) :=
  (boundaries routes).filter fun b => !b.typed

theorem staged_perm (routes : RouteMap τ) :
    (typedBoundaries routes ++ ordinaryBoundaries routes).Perm (boundaries routes) :=
  List.filter_append_perm _ _

theorem stageRoutes_eq (routes : RouteMap τ) (st : Staging D τ) (strict : Bool) :
    spec.stageRoutes routes st strict = ((boundaries routes).filter fun b =>
      b.typed == strict).foldlM (spec.stageType strict) st := by
  rw [List.foldlM_filter, boundaries, foldlM_flatMap, stageRoutes]
  congr 1
  funext st route
  congr 1
  funext st b
  unfold stageBoundary
  cases hb : b.typed == strict <;> simp [bne, hb]

theorem stage_eq (routes : RouteMap τ) : spec.stage routes = (do
    let st ← (typedBoundaries routes).foldlM (spec.stageType true) ⟨spec.openAPI, fun _ => none⟩
    (ordinaryBoundaries routes).foldlM (spec.stageType false) st) := by
  have htyped : (boundaries routes).filter (fun b => b.typed == true) = typedBoundaries routes :=
    List.filter_congr fun b _ => by cases b.typed <;> rfl
  have hordinary : (boundaries routes).filter (fun b => b.typed == false) =
      ordinaryBoundaries routes := List.filter_congr fun b _ => by cases b.typed <;> rfl
  rw [stage, List.foldlM_cons, stageRoutes_eq, htyped]
  refine bind_congr fun st => ?_
  rw [List.foldlM_cons, stageRoutes_eq, hordinary]
  exact bind_pure _

def ownTypes (bs : List (Boundary τ)) : List τ := bs.filterMap fun b => b.own.toOption.join

def Usable (spec : Defspec D τ ν δ) (b : Boundary τ) : Prop :=
  ∃ t, b.own = .ok t ∧ ∀ u ∈ t.toList, spec.Supported u

def Sound (spec : Defspec D τ ν δ) (bs : List (Boundary τ)) : Prop :=
  (∀ b ∈ bs, Usable spec b) ∧ Relator.RightUnique (spec.Binds (ownTypes bs))

theorem ownTypes_append (bs cs : List (Boundary τ)) :
    ownTypes (bs ++ cs) = ownTypes bs ++ ownTypes cs := List.filterMap_append

theorem ownTypes_singleton {b : Boundary τ} {t : Option τ} (h : b.own = .ok t) :
    ownTypes [b] = t.toList := by
  rw [ownTypes, List.filterMap_cons, h]
  cases t <;> rfl

theorem Staged.own_of_typed {kept : List (Boundary τ × Option τ)} {st : Staging D τ}
    (hst : Staged spec kept st) {p : Boundary τ × Option τ} (hp : p ∈ kept)
    (htyped : p.1.typed = true) : p.1.own = .ok p.2 := by
  cases hst.own p hp with
  | inl h => exact h
  | inr h => exact absurd (htyped.symm.trans h.1) (by decide)

theorem kept_types {kept : List (Boundary τ × Option τ)} (h : ∀ p ∈ kept, p.1.own = .ok p.2) :
    kept.filterMap Prod.snd = ownTypes (kept.map Prod.fst) := by
  rw [ownTypes, List.filterMap_map]
  refine List.filterMap_congr fun p hp => ?_
  rw [Function.comp_apply, h p hp]
  rfl

theorem Staged.types_of_typed {kept : List (Boundary τ × Option τ)} {st : Staging D τ}
    (hst : Staged spec kept st) (htyped : ∀ b ∈ kept.map Prod.fst, b.typed = true) :
    kept.filterMap Prod.snd = ownTypes (kept.map Prod.fst) :=
  kept_types fun _ hp => hst.own_of_typed hp (htyped _ (List.mem_map_of_mem hp))

section Passes

variable {bs : List (Boundary τ)}

theorem key_notMem {before after : List (Boundary τ)} {b : Boundary τ}
    (hkeys : ((before ++ b :: after).map Boundary.key).Nodup) :
    b.key ∉ before.map Boundary.key := by
  rw [List.map_append, List.map_cons, List.nodup_middle, List.nodup_cons] at hkeys
  exact fun hmem => hkeys.1 (List.mem_append_left _ hmem)

theorem strict_retains (hkeys : (bs.map Boundary.key).Nodup)
    (htyped : ∀ b ∈ bs, b.typed = true) {st : Staging D τ}
    (h : bs.foldlM (spec.stageType true) ⟨spec.openAPI, fun _ => none⟩ = .ok st) :
    Retains spec bs st := by
  refine foldlM_of_ok (I := Retains spec) [] ⟨[], rfl, staged_openAPI⟩ ?_ h
  intro before b after st st' hbs hst hstep
  rw [hbs] at hkeys htyped
  rw [← htyped b (by simp)] at hstep
  exact hst.step (key_notMem hkeys) hstep

theorem strict_pass (hkeys : (bs.map Boundary.key).Nodup) (htyped : ∀ b ∈ bs, b.typed = true) :
    (∃ st, bs.foldlM (spec.stageType true) ⟨spec.openAPI, fun _ => none⟩ = .ok st) ↔
      Sound spec bs := by
  constructor
  · rintro ⟨st, h⟩
    have hrun : Retains spec bs st := strict_retains hkeys htyped h
    obtain ⟨kept, rfl, hst⟩ := hrun
    constructor
    · intro b hb
      obtain ⟨p, hp, rfl⟩ := List.mem_map.mp hb
      refine ⟨p.2, hst.own_of_typed hp (htyped _ hb), fun u hu => ?_⟩
      exact hst.supported u (List.mem_filterMap.mpr ⟨p, hp, Option.mem_toList.mp hu⟩)
    · rw [← hst.types_of_typed htyped]
      exact hst.doc.rightUnique
  · rintro ⟨husable, huniq⟩
    have hrun : ∃ st, bs.foldlM (spec.stageType true) ⟨spec.openAPI, fun _ => none⟩ = .ok st ∧
        Retains spec ([] ++ bs) st := by
      refine foldlM_ok [] ⟨[], rfl, staged_openAPI⟩ ?_
      intro before b after st hbs hst
      rw [List.nil_append] at hst ⊢
      have hb : b ∈ bs := by rw [hbs]; simp
      obtain ⟨t, hown, hsup⟩ := husable b hb
      obtain ⟨kept, hkept, hstaged⟩ := id hst
      have hbefore : kept.filterMap Prod.snd = ownTypes before := by
        rw [← hkept]
        refine hstaged.types_of_typed fun c hc => htyped c ?_
        rw [hkept] at hc
        rw [hbs]
        exact List.mem_append_left _ hc
      have hbs' : ownTypes bs = ownTypes before ++ t.toList ++ ownTypes after := by
        rw [hbs, List.append_cons, ownTypes_append, ownTypes_append, ownTypes_singleton hown]
      have hfit : Relator.RightUnique (spec.Binds (kept.filterMap Prod.snd ++ t.toList)) := by
        refine rightUnique_mono ?_ huniq
        rw [hbefore, hbs']
        exact List.subset_append_left _ _
      obtain ⟨doc, htry⟩ := trySchemaType_of_fits true hstaged.doc hown hsup hfit
      have hstep : spec.stageType true st b =
          .ok ⟨doc, Function.update st.boundaryTypes b.key (some t)⟩ :=
        bind_eq_ok.mpr ⟨_, htry, rfl⟩
      refine ⟨_, hstep, ?_⟩
      rw [← htyped b hb] at hstep
      rw [hbs] at hkeys
      exact hst.step (key_notMem hkeys) hstep
    obtain ⟨st, hrun, -⟩ := hrun
    exact ⟨st, hrun⟩

theorem lenient_pass {done : List (Boundary τ)} {st : Staging D τ} (hst : Retains spec done st)
    (hkeys : ((done ++ bs).map Boundary.key).Nodup) (htyped : ∀ b ∈ bs, b.typed = false) :
    ∃ st', bs.foldlM (spec.stageType false) st = .ok st' ∧ Retains spec (done ++ bs) st' := by
  refine foldlM_ok done hst ?_
  intro before b after st hbs hst
  obtain ⟨staged, htry⟩ := trySchemaType_lenient spec st.schemaDoc b.extract
  have hstep : spec.stageType false st b =
      .ok ⟨staged.1, Function.update st.boundaryTypes b.key (some staged.2)⟩ :=
    bind_eq_ok.mpr ⟨_, htry, rfl⟩
  refine ⟨_, hstep, ?_⟩
  rw [← htyped b (by rw [hbs]; simp)] at hstep
  rw [hbs, ← List.append_assoc] at hkeys
  exact hst.step (key_notMem hkeys) hstep

end Passes

section Stage

variable {routes : RouteMap τ}

theorem keys_typed (hkeys : (routes.map Prod.fst).Nodup) :
    ((typedBoundaries routes).map Boundary.key).Nodup :=
  (nodup_boundaries hkeys).sublist (List.filter_sublist.map Boundary.key)

theorem keys_staged (hkeys : (routes.map Prod.fst).Nodup) :
    ((typedBoundaries routes ++ ordinaryBoundaries routes).map Boundary.key).Nodup :=
  ((staged_perm routes).map Boundary.key).nodup_iff.mpr (nodup_boundaries hkeys)

theorem typed_of_mem {b : Boundary τ} (h : b ∈ typedBoundaries routes) : b.typed = true :=
  (List.mem_filter.mp h).2

theorem ordinary_of_mem {b : Boundary τ} (h : b ∈ ordinaryBoundaries routes) : b.typed = false :=
  (Bool.not_eq_true' b.typed).mp (List.mem_filter.mp h).2

theorem stage_retains (hkeys : (routes.map Prod.fst).Nodup) {st : Staging D τ}
    (h : spec.stage routes = .ok st) :
    Retains spec (typedBoundaries routes ++ ordinaryBoundaries routes) st := by
  rw [stage_eq] at h
  obtain ⟨st₁, htyped, hordinary⟩ := bind_eq_ok.mp h
  have hst₁ := strict_retains (keys_typed hkeys) (fun b hb => typed_of_mem hb) htyped
  obtain ⟨st', hrun, hst'⟩ := lenient_pass hst₁ (keys_staged hkeys) fun b hb => ordinary_of_mem hb
  rwa [Except.ok.inj (hordinary.symm.trans hrun)]

theorem stage_ok_iff (hkeys : (routes.map Prod.fst).Nodup) :
    (∃ st, spec.stage routes = .ok st) ↔ Sound spec (typedBoundaries routes) := by
  rw [← strict_pass (keys_typed hkeys) fun b hb => typed_of_mem hb, stage_eq]
  constructor
  · rintro ⟨st, h⟩
    obtain ⟨st₁, htyped, -⟩ := bind_eq_ok.mp h
    exact ⟨st₁, htyped⟩
  · rintro ⟨st₁, htyped⟩
    have hst₁ := strict_retains (keys_typed hkeys) (fun b hb => typed_of_mem hb) htyped
    obtain ⟨st, hrun, -⟩ := lenient_pass hst₁ (keys_staged hkeys) fun b hb => ordinary_of_mem hb
    exact ⟨st, bind_eq_ok.mpr ⟨st₁, htyped, hrun⟩⟩

end Stage

end Defspec

end Mosec
