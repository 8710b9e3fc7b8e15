import Criteria.Registry

/-!
Model definitions as data: the models of a program with their tables and fields, and what they put
into a registry. Custom fields hold code and so cannot be defined here.
-/

namespace Criteria

inductive FieldDefinition where
  | plain (name : String) (column : ColumnField)
  | relation (name : String) (related : Relation)
deriving DecidableEq, Repr, Inhabited

namespace FieldDefinition

def name : FieldDefinition → String
  | .plain name _ | .relation name _ => name

def field {ι : Type} {E : ι → Type} : FieldDefinition → Field E
  | .plain _ column => .plain column
  | .relation _ related => .relation related

end FieldDefinition

structure ModelDefinition where
  name : String
  table : String
  primaryKey : String
  fields : List FieldDefinition
deriving DecidableEq, Repr, Inhabited

namespace ModelDefinition

/-- The primary key of a model whose definition names none. -/
def defaultPrimaryKey : String := "id"

def binding (model : ModelDefinition) : TableBinding :=
  ⟨model.table, model.primaryKey⟩

/-- Binds the model and then adds its fields in order. -/
def addTo {ι : Type} {E : ι → Type} (model : ModelDefinition) (registry : Registry E) :
    Registry E :=
  model.fields.foldl (fun registry field => registry.addField model.name field.name field.field)
    (registry.bind model.name model.binding)

end ModelDefinition

structure Schema where
  models : List ModelDefinition := []
deriving DecidableEq, Repr, Inhabited

namespace Schema

def model? (schema : Schema) (name : String) : Option ModelDefinition :=
  schema.models.find? fun model => model.name = name

def addTo {ι : Type} {E : ι → Type} (schema : Schema) (registry : Registry E) : Registry E :=
  schema.models.foldl (fun registry model => model.addTo registry) registry

def toRegistry {ι : Type} {E : ι → Type} (schema : Schema) : Registry E :=
  schema.addTo ∅

/-- The first name in a list that repeats one of `seen` or an earlier one. -/
def firstRepeat? (seen : List String) : List String → Option String
  | [] => none
  | name :: rest =>
    if seen.contains name then some name else firstRepeat? (name :: seen) rest

/-- The first model, in order of definition, that has the name of an earlier one. -/
def duplicate? (schema : Schema) : Option String :=
  firstRepeat? [] (schema.models.map (·.name))

end Schema

end Criteria
