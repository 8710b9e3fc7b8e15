import Criteria.Schema
import Criteria.Json.Reader

/-!
The JSON form of model definitions: how they are written, and how they are read and checked. The
writer leaves out what the reader puts back: absent columns and empty lists of operations.
-/

namespace Criteria

open Json (ReadError Reader Source)

/-- The entry of a list of permitted operations; an empty one is left out. -/
def permittedEntry (permitted : List Operation) : List (String × Json) :=
  if permitted.isEmpty then []
  else [("operators", .arr (permitted.map fun op => .str op.name))]

/-- The definition as an object, its kind first. -/
def FieldDefinition.toJson : FieldDefinition → Json
  | .plain name field =>
    .obj ([("kind", .str "plain"), ("name", .str name)]
      ++ (field.column.map fun column => ("column", .str column)).toList
      ++ permittedEntry field.permitted)
  | .relation name related =>
    .obj ([("kind", .str "relation"), ("name", .str name), ("match", .str related.matchColumn),
        ("table", .str related.table), ("key", .str related.key), ("value", .str related.value)]
      ++ permittedEntry related.permitted)

def ModelDefinition.toJson (model : ModelDefinition) : Json :=
  .obj [("name", .str model.name), ("table", .str model.table),
    ("primary_key", .str model.primaryKey), ("fields", .arr (model.fields.map (·.toJson)))]

def Schema.toJson (schema : Schema) : Json :=
  .obj [("models", .arr (schema.models.map (·.toJson)))]

/-- Reads an operation's name; also as the only key of an object, with an argument that `bare`
takes for none. -/
def Operation.read (bare : Source → Bool) : Reader Operation
  | .str (some name) => Source.required (Operation.ofName? name)
  | .obj [(some name, argument)] true =>
    if bare argument then Source.required (Operation.ofName? name) else .error .wrongShape
  | source => .error source.rejection

def Operation.ofJson (value : Json) : Except ReadError Operation :=
  Json.readValue (Operation.read fun | .null => true | _ => false) value

namespace FieldDefinition

/-- The two kinds of definable fields. -/
inductive Kind where
  | plain
  | relation
deriving DecidableEq, Repr

def Kind.read : Reader Kind := fun source => do
  match ← Source.string source with
  | "plain" => return .plain
  | "relation" => return .relation
  | _ => throw .wrongShape

inductive Part where
  | name (s : String)
  | column (s : Option String)
  | matchColumn (s : String)
  | table (s : String)
  | key (s : String)
  | value (s : String)
  | permitted (ops : List Operation)

def textPart (part : String → Part) : Reader Part := fun source =>
  part <$> Source.string source

/-- Reads the list of permitted operations. An operation may have `null` or the empty object as its
argument. -/
def permittedPart : Reader Part := fun source =>
  Part.permitted <$> Source.list
    (Operation.read fun | .null | .obj [] true => true | _ => false) source

def plainReaders : Source.Fields Part :=
  [("name", textPart .name),
    ("column", fun source => Part.column <$> Source.optional Source.string source),
    ("operators", permittedPart)]

def relationReaders : Source.Fields Part :=
  [("name", textPart .name), ("match", textPart .matchColumn), ("table", textPart .table),
    ("key", textPart .key), ("value", textPart .value), ("operators", permittedPart)]

def permittedOf (parts : List Part) : List Operation :=
  (parts.findSome? fun | .permitted ops => some ops | _ => none).getD []

def plainOf (parts : List Part) : Except ReadError FieldDefinition := do
  let name ← Source.required (parts.findSome? fun | .name s => some s | _ => none)
  let column := (parts.findSome? fun | .column s => some s | _ => none).join
  return .plain name { column, permitted := permittedOf parts }

def relationOf (parts : List Part) : Except ReadError FieldDefinition := do
  let name ← Source.required (parts.findSome? fun | .name s => some s | _ => none)
  let matchColumn ← Source.required (parts.findSome? fun | .matchColumn s => some s | _ => none)
  let table ← Source.required (parts.findSome? fun | .table s => some s | _ => none)
  let key ← Source.required (parts.findSome? fun | .key s => some s | _ => none)
  let value ← Source.required (parts.findSome? fun | .value s => some s | _ => none)
  return .relation name { matchColumn, table, key, value, permitted := permittedOf parts }

/-- The definition of a kind, from the rest of what was written. That has been read as a value by
then, so all that can be wrong with it is its shape. -/
def ofContent (kind : Kind) (content : Json) : Except ReadError FieldDefinition :=
  match kind with
  | .plain =>
    Json.readValue (fun source => do plainOf (← Source.record plainReaders source)) content
  | .relation =>
    Json.readValue (fun source => do relationOf (← Source.record relationReaders source)) content

/-- Reads the entries of a definition: its kind, which may stand anywhere, and the content of all
others. -/
def readEntries (closed : Bool) : Option Kind → List (Option String × Source) →
    Except ReadError (Kind × List (String × Json))
  | kind, [] => do
    Source.ensureClosed closed
    return (← Source.required kind, [])
  | _, (none, _) :: _ => .error .malformed
  | kind, (some key, value) :: rest =>
    if key = "kind" then
      if kind.isSome then .error .wrongShape
      else do readEntries closed (some (← Kind.read value)) rest
    else do
      let value ← value.content
      let (kind, entries) ← readEntries closed kind rest
      return (kind, (key, value) :: entries)

/-- Reads a definition. An array lists the kind before the parts. -/
def read : Reader FieldDefinition
  | .obj entries closed => do
    let (kind, entries) ← readEntries closed none entries
    ofContent kind (.obj entries)
  | .arr (kind :: items) closed => do
    let kind ← Kind.read kind
    let items ← Source.contentItems items
    Source.ensureClosed closed
    ofContent kind (.arr items)
  | .arr [] closed => do
    Source.ensureClosed closed
    throw .wrongShape
  | source => .error source.rejection

end FieldDefinition

namespace ModelDefinition

inductive Part where
  | name (s : String)
  | table (s : String)
  | primaryKey (s : String)
  | fields (definitions : List FieldDefinition)

def partReaders : Source.Fields Part :=
  [("name", fun source => Part.name <$> Source.string source),
    ("table", fun source => Part.table <$> Source.string source),
    ("primary_key", fun source => Part.primaryKey <$> Source.string source),
    ("fields", fun source => Part.fields <$> Source.list FieldDefinition.read source)]

def read : Reader ModelDefinition := fun source => do
  let parts ← Source.record partReaders source
  let name ← Source.required (parts.findSome? fun | .name s => some s | _ => none)
  let table ← Source.required (parts.findSome? fun | .table s => some s | _ => none)
  let primaryKey := (parts.findSome? fun | .primaryKey s => some s | _ => none).getD
    defaultPrimaryKey
  let fields := (parts.findSome? fun | .fields definitions => some definitions | _ => none).getD []
  return { name, table, primaryKey, fields }

end ModelDefinition

/-- Why definitions cannot be loaded. -/
inductive SchemaError where
  | unreadable
  /-- The text is malformed, or of the wrong shape. -/
  | parse (error : ReadError)
  | duplicateModel (name : String)
deriving DecidableEq, Repr

def SchemaError.message : SchemaError → String
  | .unreadable => "Failed to read config file"
  | .parse .wrongShape => "Invalid config: the JSON has the wrong shape"
  | .parse _ => "Invalid config: the text is not JSON"
  | .duplicateModel name => "Model " ++ Text.quoted name ++ " is defined more than once"

namespace Schema

/-- Reads definitions, whatever their names. -/
def read : Reader Schema := fun source => do
  let lists ← Source.record [("models", Source.list ModelDefinition.read)] source
  return ⟨lists.flatten⟩

/-- The definitions, if their names are distinct. -/
def validate (schema : Schema) : Except SchemaError Schema :=
  match schema.duplicate? with
  | none => .ok schema
  | some name => .error (.duplicateModel name)

def ofText (text : String) : Except SchemaError Schema := do
  let schema ← (Json.readText read text).mapError .parse
  schema.validate

/-- The definitions of a file, given its text if it could be read. -/
def ofFile (text? : Option String) : Except SchemaError Schema :=
  match text? with
  | some text => ofText text
  | none => .error .unreadable

end Schema

end Criteria
