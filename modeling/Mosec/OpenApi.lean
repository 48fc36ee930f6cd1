import Mosec.Attempts
import Mathlib.Logic.Relator
import Mathlib.Data.List.Perm.Basic

namespace Mosec

inductive SchemaError
  | typeError
  | valueError
  | nameError
  | syntaxError
  deriving DecidableEq, Repr

inductive Direction
  | request
  | response
  deriving DecidableEq, Repr

structure Operation (τ : Type) where
  path : String
  method : String
  requestType : Option τ := none
  requestContentType : Option String := none
  responseType : Option τ := none
  responseContentType : Option String := none
  deriving DecidableEq, Repr

def Operation.types {τ : Type} (op : Operation τ) : List τ :=
  op.requestType.toList ++ op.responseType.toList

def Operation.typeAt {τ : Type} (op : Operation τ) : Direction → Option τ
  | .request => op.requestType
  | .response => op.responseType

/-- The package defspec: a registration that it refuses leaves the document as it was. -/
structure Defspec (D τ ν δ : Type) where
  openAPI : D
  registerRoute : D → Operation τ → Except SchemaError D
  schemas : D → ν → Option δ
  Supported : τ → Prop
  Defines : τ → ν → δ → Prop
  str : τ
  schemas_openAPI : ∀ n, schemas openAPI n = none
  registers_iff : ∀ doc op, (∃ doc', registerRoute doc op = .ok doc') ↔
    (∀ t ∈ op.types, Supported t) ∧
      Relator.RightUnique fun n d => schemas doc n = some d ∨ ∃ t ∈ op.types, Defines t n d
  schemas_register : ∀ doc op doc', registerRoute doc op = .ok doc' → ∀ n d,
    schemas doc' n = some d ↔ schemas doc n = some d ∨ ∃ t ∈ op.types, Defines t n d
  str_supported : Supported str
  str_defines : ∀ n d, ¬ Defines str n d

inductive BoundaryType (τ : Type)
  | any
  | type (t : τ)
  deriving DecidableEq, Repr

def schemaType {τ : Type} : BoundaryType τ → Option τ
  | .any => none
  | .type t => some t

structure AnnotatedWorker (τ : Type) where
  typed : Bool
  reqMimeType : String
  respMimeType : String
  forwardInputType : Bool → Except SchemaError (BoundaryType τ)
  forwardReturnType : Bool → Except SchemaError (BoundaryType τ)

structure AnnotatedRuntime (τ : Type) where
  worker : AnnotatedWorker τ
  maxBatchSize : ℕ

structure Boundary (τ : Type) where
  endpoint : String
  direction : Direction
  typed : Bool
  extract : Except SchemaError (BoundaryType τ)

abbrev RouteMap (τ : Type) := List (String × List (AnnotatedRuntime τ))

def ends {α : Type} (workers : List α) : Option (α × α) :=
  match workers.head?, workers.getLast? with
  | some first, some last => some (first, last)
  | _, _ => none

def routeBoundaries {τ : Type} (route : String × List (AnnotatedRuntime τ)) : List (Boundary τ) :=
  match ends route.2 with
  | none => []
  | some (first, last) =>
    [⟨route.1, .request, first.worker.typed,
        first.worker.forwardInputType (decide (first.maxBatchSize > 1))⟩,
      ⟨route.1, .response, last.worker.typed,
        last.worker.forwardReturnType (decide (last.maxBatchSize > 1))⟩]

structure Staging (D τ : Type) where
  schemaDoc : D
  boundaryTypes : String × Direction → Option (Option τ)

structure OpenApiSpec (D τ : Type) where
  openapi : D
  operations : List (Operation τ)

inductive GenerateError
  | schema (e : SchemaError)
  | keyError
  deriving DecidableEq, Repr

def reservedOperations {τ : Type} (str : τ) : List (Operation τ) :=
  [{ path := "/", method := "get", responseType := some str,
      responseContentType := some "text/plain" },
    { path := "/metrics", method := "get", responseType := some str,
      responseContentType := some "text/plain; version=0.0.4" }]

namespace Defspec

variable {D τ ν δ : Type} (spec : Defspec D τ ν δ)

def trySchemaType (doc : D) (extract : Except SchemaError (BoundaryType τ)) (strict : Bool) :
    Except SchemaError (D × Option τ) :=
  let attempt : Except SchemaError (D × Option τ) := do
    let typ ← extract
    let doc' ← spec.registerRoute doc
      { path := "/schema", method := "post", requestType := schemaType typ }
    pure (doc', schemaType typ)
  match attempt with
  | .ok staged => .ok staged
  | .error e => if strict then .error e else .ok (doc, none)

def stageType (strict : Bool) (st : Staging D τ) (b : Boundary τ) :
    Except SchemaError (Staging D τ) := do
  let (doc, typ) ← spec.trySchemaType st.schemaDoc b.extract strict
  pure ⟨doc, Function.update st.boundaryTypes (b.endpoint, b.direction) (some typ)⟩

def stageBoundary (strict : Bool) (st : Staging D τ) (b : Boundary τ) :
    Except SchemaError (Staging D τ) :=
  if b.typed != strict then pure st else spec.stageType strict st b

def stageRoutes (routes : RouteMap τ) (st : Staging D τ) (strict : Bool) :
    Except SchemaError (Staging D τ) :=
  routes.foldlM (fun st route => (routeBoundaries route).foldlM (spec.stageBoundary strict) st) st

def stage (routes : RouteMap τ) : Except SchemaError (Staging D τ) :=
  [true, false].foldlM (spec.stageRoutes routes) ⟨spec.openAPI, fun _ => none⟩

def register (out : OpenApiSpec D τ) (op : Operation τ) :
    Except GenerateError (OpenApiSpec D τ) := do
  let doc ← (spec.registerRoute out.openapi op).mapError .schema
  pure ⟨doc, out.operations ++ [op]⟩

/-- The operation of a route; `none` is a missing key of `boundary_types`. -/
def routeOperation (st : Staging D τ) (endpoint : String) (first last : AnnotatedRuntime τ) :
    Option (Operation τ) := do
  let requestType ← st.boundaryTypes (endpoint, .request)
  let responseType ← st.boundaryTypes (endpoint, .response)
  some
    { path := endpoint
      method := "post"
      requestType := requestType
      requestContentType := some first.worker.reqMimeType
      responseType := responseType
      responseContentType := some last.worker.respMimeType }

def registerRouteOf (st : Staging D τ) (out : OpenApiSpec D τ)
    (route : String × List (AnnotatedRuntime τ)) : Except GenerateError (OpenApiSpec D τ) :=
  match ends route.2 with
  | none => .ok out
  | some (first, last) =>
    match routeOperation st route.1 first last with
    | none => .error .keyError
    | some op => spec.register out op

def registerRoutes (routes : RouteMap τ) (st : Staging D τ) (out : OpenApiSpec D τ) :
    Except GenerateError (OpenApiSpec D τ) :=
  routes.foldlM (spec.registerRouteOf st) out

def registerReserved : Except GenerateError (OpenApiSpec D τ) :=
  (reservedOperations spec.str).foldlM spec.register ⟨spec.openAPI, []⟩

def generateOpenapi (routes : RouteMap τ) : Except GenerateError (OpenApiSpec D τ) := do
  let out ← spec.registerReserved
  let st ← (spec.stage routes).mapError .schema
  spec.registerRoutes routes st out

end Defspec

end Mosec
