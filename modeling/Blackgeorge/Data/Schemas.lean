import Blackgeorge.Data.RoundTrip
import Blackgeorge.Data.State

/-! How a job's response schema is written into JSON and found again: a model, or a type
adapter over one, by the path of its class; any other adapter as its text, which names
no class. -/

namespace Blackgeorge.Data.Schemas

/-! ### Schemas as objects -/

/-- A class with the path it says it is found under. -/
structure ClassRef where
  module : String
  qualname : String
  isModel : Bool
  deriving DecidableEq

/-- A type that a `TypeAdapter` is over. -/
inductive TypeForm where
  | cls (c : ClassRef)
  | list (item : TypeForm)
  | optional (item : TypeForm)
  | union (items : List TypeForm)

/-- A response schema: a model class or a type adapter. -/
inductive SchemaObject where
  | model (c : ClassRef)
  | adapter (form : TypeForm)

mutual

/-- The classes a type is built from. -/
def TypeForm.classes : TypeForm → List ClassRef
  | .cls c => [c]
  | .list item => item.classes
  | .optional item => item.classes
  | .union items => allClasses items

def allClasses : List TypeForm → List ClassRef
  | [] => []
  | form :: forms => form.classes ++ allClasses forms

end

def SchemaObject.classes : SchemaObject → List ClassRef
  | .model c => [c]
  | .adapter form => form.classes

/-- A model, or an adapter over a model itself. -/
def SchemaObject.Direct : SchemaObject → Prop
  | .model _ => True
  | .adapter (.cls _) => True
  | .adapter _ => False

/-- What importing modules and reading attributes finds, and which of it are classes. -/
structure Interpreter (Obj : Type) where
  importModule : String → Option Obj
  getattr : Obj → String → Option Obj
  asClass : Obj → Option ClassRef

/-! ### The codec -/

section Codec

variable {Obj : Type} (env : Interpreter Obj)

def splitDots (path : String) : List String := (path.toList.splitOn '.').map String.ofList

/-- `_resolve_ref`. -/
def resolveRef (module qualname : String) : Option Obj := do
  let target ← env.importModule module
  (splitDots qualname).foldlM (fun target part => env.getattr target part) target

/-- `_parse_schema_string`: the path in the text of a class. -/
def parseSchemaString (text : String) : Option Obj :=
  let chars := text.toList
  let head := "<class '".toList
  let tail := "'>".toList
  if head.isPrefixOf chars && tail.isSuffixOf chars then
    let path := (chars.drop head.length).take (chars.length - head.length - tail.length)
    let qualname := (path.reverse.takeWhile (· ≠ '.')).reverse
    let module := path.take (path.length - qualname.length - 1)
    if module ≠ [] ∧ qualname ≠ [] ∧ '.' ∈ path then
      resolveRef env (String.ofList module) (String.ofList qualname)
    else none
  else none

/-- A class that is a subclass of `BaseModel`. -/
def modelClass (target : Option Obj) : Option ClassRef := do
  let c ← env.asClass (← target)
  if c.isModel then some c else none

def refOf (kind : String) (c : ClassRef) : Value :=
  .dict [("kind", .str kind), ("module", .str c.module), ("qualname", .str c.qualname)]

/-- `_schema_ref`. -/
def schemaRef : SchemaObject → Option Value
  | .model c => if c.isModel then some (refOf "model" c) else none
  | .adapter (.cls c) => if c.isModel then some (refOf "adapter_model" c) else none
  | .adapter _ => none

/-- `str(value)`; `display` is what pydantic shows of an adapter's type. -/
def schemaStr (display : TypeForm → String) : SchemaObject → String
  | .model c => "<class '" ++ c.module ++ "." ++ c.qualname ++ "'>"
  | .adapter form => "TypeAdapter(" ++ display form ++ ")"

/-- `_serialize_response_schema`. -/
def serializeResponseSchema (display : TypeForm → String) (schema : SchemaObject) : Value :=
  (schemaRef schema).getD (.str (schemaStr display schema))

/-- `_deserialize_response_schema` on what JSON gives back. -/
def deserializeResponseSchema (value : Value) : Option SchemaObject :=
  match value with
  | .dict fields =>
    match Dict.get fields "module", Dict.get fields "qualname" with
    | some (.str module), some (.str qualname) => do
      let c ← modelClass env (resolveRef env module qualname)
      match Dict.get fields "kind" with
      | some (.str "adapter_model") => some (.adapter (.cls c))
      | _ => some (.model c)
    | _, _ => none
  | .str text => (modelClass env (parseSchemaString env text)).map .model
  | _ => none

/-- The class is found again under its own path. -/
def Importable (c : ClassRef) : Prop := modelClass env (resolveRef env c.module c.qualname) = some c

/-- How a job's schema is recorded in a run: the class by its path, and whether it is
found again under it. -/
def describe (display : TypeForm → String) : SchemaObject → Schema
  | .model c =>
    .model (c.module ++ "." ++ c.qualname)
      (modelClass env (resolveRef env c.module c.qualname) = some c)
  | .adapter (.cls c) =>
    .adapterModel (c.module ++ "." ++ c.qualname)
      (modelClass env (resolveRef env c.module c.qualname) = some c)
  | .adapter form => .adapter (schemaStr display (.adapter form))

/-! ### What is found again -/

variable {env} {display : TypeForm → String}

theorem deserialize_model {c : ClassRef} (hmodel : c.isModel = true) (himport : Importable env c) :
    deserializeResponseSchema env (serializeResponseSchema display (.model c)) =
      some (.model c) := by
  have hresolve : modelClass env (resolveRef env c.module c.qualname) = some c := himport
  simp [serializeResponseSchema, schemaRef, hmodel, refOf, deserializeResponseSchema, Dict.get,
    List.lookup_cons, hresolve]

theorem deserialize_adapterModel {c : ClassRef} (hmodel : c.isModel = true)
    (himport : Importable env c) :
    deserializeResponseSchema env (serializeResponseSchema display (.adapter (.cls c))) =
      some (.adapter (.cls c)) := by
  have hresolve : modelClass env (resolveRef env c.module c.qualname) = some c := himport
  simp [serializeResponseSchema, schemaRef, hmodel, refOf, deserializeResponseSchema, Dict.get,
    List.lookup_cons, hresolve]

/-- The text of an adapter names no class. -/
theorem parseSchemaString_adapter (form : TypeForm) :
    parseSchemaString env (schemaStr display (.adapter form)) = none := by
  have hhead : "<class '".toList.isPrefixOf (schemaStr display (.adapter form)).toList = false := by
    simp [schemaStr, List.isPrefixOf]
  dsimp only [parseSchemaString]
  rw [hhead, Bool.false_and]
  exact if_neg Bool.false_ne_true

theorem deserialize_adapter {form : TypeForm} (hform : ∀ c, form ≠ .cls c) :
    deserializeResponseSchema env (serializeResponseSchema display (.adapter form)) = none := by
  have href : schemaRef (.adapter form) = none := by
    cases form with
    | cls c => exact absurd rfl (hform c)
    | _ => rfl
  simp [serializeResponseSchema, href, deserializeResponseSchema, parseSchemaString_adapter,
    modelClass]

/-- What a run records of a schema is found again as the schema itself is. -/
theorem persisted_describe (schema : SchemaObject)
    (himport : ∀ c ∈ schema.classes, c.isModel = true ∧ Importable env c) :
    (describe env display schema).persisted =
      (deserializeResponseSchema env (serializeResponseSchema display schema)).map
        (describe env display) := by
  cases schema with
  | model c =>
    obtain ⟨hmodel, hc⟩ := himport c (List.mem_singleton_self c)
    have hresolve : modelClass env (resolveRef env c.module c.qualname) = some c := hc
    rw [deserialize_model hmodel hc]
    simp [describe, hresolve, Schema.persisted]
  | adapter form =>
    by_cases hform : ∃ c, form = .cls c
    · obtain ⟨c, rfl⟩ := hform
      obtain ⟨hmodel, hc⟩ := himport c (List.mem_singleton_self c)
      have hresolve : modelClass env (resolveRef env c.module c.qualname) = some c := hc
      rw [deserialize_adapterModel hmodel hc]
      simp [describe, hresolve, Schema.persisted]
    · have hform' : ∀ c, form ≠ .cls c := fun c hc => hform ⟨c, hc⟩
      have hdescribe : describe env display (.adapter form) =
          .adapter (schemaStr display (.adapter form)) := by
        cases form with
        | cls c => exact absurd rfl (hform' c)
        | _ => rfl
      rw [deserialize_adapter hform', hdescribe]
      rfl

theorem job_persisted_schema {job job' : Job} (h : job.persisted = some job') :
    job'.responseSchema = job.responseSchema.bind Schema.persisted := by
  simp only [Job.persisted, Option.bind_eq_bind, Option.bind_eq_some_iff] at h
  obtain ⟨_, _, _, _, _, _, _, _, _, _, h⟩ := h
  obtain rfl := Option.some.inj h
  rfl

theorem core_persisted_job {s s' : StateCore} (h : s.persisted = some s') :
    s.job.persisted = some s'.job := by
  simp only [StateCore.persisted, Option.bind_eq_bind, Option.bind_eq_some_iff] at h
  obtain ⟨job, hjob, _, _, _, _, _, _, h⟩ := h
  obtain rfl := Option.some.inj h
  exact hjob

theorem state_persisted_core {s s' : RunState} (h : s.persisted = some s') :
    s.core.persisted = some s'.core := by
  cases s with
  | worker s =>
    simp only [RunState.persisted, WorkerState.persisted, Option.bind_eq_bind,
      Option.bind_eq_some_iff] at h
    obtain ⟨_, ⟨core, hcore, h₁⟩, h⟩ := h
    obtain rfl := Option.some.inj h₁
    obtain rfl := Option.some.inj h
    exact hcore
  | workforce s =>
    simp only [RunState.persisted, WorkforceState.persisted, Option.bind_eq_bind,
      Option.bind_eq_some_iff] at h
    obtain ⟨_, ⟨core, hcore, _, _, _, _, _, _, h₁⟩, h⟩ := h
    obtain rfl := Option.some.inj h₁
    obtain rfl := Option.some.inj h
    exact hcore
  | flow s =>
    simp only [RunState.persisted, FlowState.persisted, Option.bind_eq_bind,
      Option.bind_eq_some_iff] at h
    obtain ⟨_, ⟨core, hcore, _, _, _, _, _, _, _, _, h₁⟩, h⟩ := h
    obtain rfl := Option.some.inj h₁
    obtain rfl := Option.some.inj h
    exact hcore

theorem state_persisted_schema {s s' : RunState} (h : s.persisted = some s') :
    s'.core.job.responseSchema = s.core.job.responseSchema.bind Schema.persisted :=
  job_persisted_schema (core_persisted_job (state_persisted_core h))

/-- A restored state's job has a schema that takes the same values exactly if its schema
is a model or an adapter over one. -/
theorem schema_restored_iff (accepts : SchemaObject → Value → Prop) {schema : SchemaObject}
    (himport : ∀ c ∈ schema.classes, c.isModel = true ∧ Importable env c) {state state' : RunState}
    (hjob : state.core.job.responseSchema = some (describe env display schema))
    (hpersisted : state.persisted = some state') :
    (∃ restored,
      deserializeResponseSchema env (serializeResponseSchema display schema) = some restored ∧
        state'.core.job.responseSchema = some (describe env display restored) ∧
          ∀ v, accepts restored v ↔ accepts schema v) ↔ schema.Direct := by
  have hstate := state_persisted_schema hpersisted
  rw [hjob, Option.bind_some, persisted_describe schema himport] at hstate
  constructor
  · rintro ⟨restored, hrestored, _⟩
    cases schema with
    | model c => trivial
    | adapter form =>
      by_cases hform : ∃ c, form = .cls c
      · obtain ⟨c, rfl⟩ := hform
        trivial
      · rw [deserialize_adapter fun c hc => hform ⟨c, hc⟩] at hrestored
        cases hrestored
  · intro hdirect
    have hrestored : deserializeResponseSchema env (serializeResponseSchema display schema) =
        some schema := by
      cases schema with
      | model c =>
        obtain ⟨hmodel, hc⟩ := himport c (List.mem_singleton_self c)
        exact deserialize_model hmodel hc
      | adapter form =>
        cases form with
        | cls c =>
          obtain ⟨hmodel, hc⟩ := himport c (List.mem_singleton_self c)
          exact deserialize_adapterModel hmodel hc
        | _ => exact hdirect.elim
    rw [hrestored] at hstate
    exact ⟨schema, hrestored, hstate, fun v => Iff.rfl⟩

end Codec

/-! ### A model and a list of it -/

def item : ClassRef := ⟨"app", "Item", true⟩

/-- A module with one class. -/
def appModule : Interpreter (Option ClassRef) where
  importModule name := if name = "app" then some none else none
  getattr _ name := if name = "Item" then some (some item) else none
  asClass target := target

def listDisplay (form : TypeForm) : String :=
  match form with
  | .list (.cls c) => "list[" ++ c.qualname ++ "]"
  | _ => ""

def itemState (schema : SchemaObject) : RunState :=
  .worker
    { runId := "r"
      status := .paused
      runnerName := "w"
      job :=
        { id := "j"
          input := .str "go"
          responseSchema := some (describe appModule listDisplay schema) } }

theorem importable_item : Importable appModule item := by
  rw [Importable, modelClass, resolveRef]
  rfl

theorem schema_restored_adapter : ∃ restored,
    deserializeResponseSchema appModule (serializeResponseSchema listDisplay (.adapter (.cls item))) =
      some restored := by
  have hiff := @schema_restored_iff _ appModule listDisplay (fun _ _ => True) (.adapter (.cls item))
    (by
      intro c hc
      obtain rfl := List.mem_singleton.mp hc
      exact ⟨rfl, importable_item⟩)
    (itemState (.adapter (.cls item))) _ rfl rfl
  obtain ⟨restored, hrestored, _⟩ := hiff.mpr trivial
  exact ⟨restored, hrestored⟩

/-- A list of models: the restored state's job has no schema. -/
theorem schema_dropped : ∃ state',
    (itemState (.adapter (.list (.cls item)))).persisted = some state' ∧
      (∀ c ∈ (SchemaObject.adapter (.list (.cls item))).classes,
        c.isModel = true ∧ Importable appModule c) ∧
      deserializeResponseSchema appModule
        (serializeResponseSchema listDisplay (.adapter (.list (.cls item)))) = none ∧
      state'.core.job.responseSchema = none := by
  refine ⟨_, rfl, ?_, deserialize_adapter (by intro c hc; cases hc), rfl⟩
  intro c hc
  obtain rfl := List.mem_singleton.mp hc
  exact ⟨rfl, importable_item⟩

end Blackgeorge.Data.Schemas
