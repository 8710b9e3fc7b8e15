import Criteria.CommandLine.Arguments
import Criteria.Schema.Format
import Criteria.Sql.Backend

/-!
What the commands print, given the text of their file of model definitions.
-/

namespace Criteria.CommandLine

inductive RunError where
  | schema (error : SchemaError)
  | unknownModel (model : String)
  /-- An argument is no JSON of the shape it should have. -/
  | invalidJson (argument : String)
  | compile (error : CompileError)
deriving BEq, Repr

def RunError.inspect : RunError → String
  | .schema .unreadable => "Config(Io)"
  | .schema (.parse _) => "Config(Parse)"
  | .schema (.duplicateModel name) =>
    Inspect.applied "Config" (Inspect.applied "DuplicateModel" (Text.quoted name))
  | .unknownModel model => Inspect.applied "UnknownModel" (Text.quoted model)
  | .invalidJson argument => Inspect.record "InvalidJson" [("arg", Text.quoted argument)]
  | .compile error => Inspect.applied "Compile" error.inspect

def readArgument {α : Type} (argument : String) (read : String → Except Json.ReadError α) :
    Option String → Except RunError (Option α)
  | none => .ok none
  | some text => (some <$> read text).mapError fun _ => .invalidJson argument

/-- The query that the options amount to. -/
def CompileOptions.toQuery (o : CompileOptions) : Except RunError Query := do
  let query ← readArgument "--query" Query.ofText o.query
  let filter ← readArgument "--filter" Json.parse o.filter
  let order ← readArgument "--order" Json.parse o.order
  let query := query.getD {}
  return { query with
    filter := filter <|> query.filter
    order := order <|> query.order
    limit := o.limit <|> query.limit
    offset := o.offset <|> query.offset }

/-- The definitions of a file, and the one of a model among them. -/
def loadModel (file? : Option String) (name : String) :
    Except RunError (Schema × ModelDefinition) := do
  let schema ← (Schema.ofFile file?).mapError .schema
  match schema.model? name with
  | some model => return (schema, model)
  | none => throw (.unknownModel name)

/-- The only backend is SQL. -/
abbrev Expressions : Option Empty → Type := Sql.ExpressionsWith Empty.elim

/-- The statement that `compile` prints. -/
def CompileOptions.statement (file? : Option String) (o : CompileOptions) :
    Except RunError Sql.Statement := do
  let query ← o.toQuery
  let (schema, model) ← loadModel file? o.model
  let registry : Registry Expressions := schema.toRegistry
  let compiled ← (query.compileFor registry none Sql.backend o.model).mapError .compile
  return (Sql.Select.ofCompiled model.binding compiled).render o.dialect

/-- Permitted operations as a list of names. -/
def operationNames (permitted : List Operation) : String :=
  if permitted.isEmpty then "all" else ",".intercalate (permitted.map Operation.name)

def describe {ι : Type} {E : ι → Type} : Field E → String
  | .plain column =>
    "column=" ++ column.column.getD "-" ++ " operators=" ++ operationNames column.permitted
  | .relation related =>
    related.matchColumn ++ " IN " ++ related.table ++ "." ++ related.key ++ " WHERE "
      ++ related.value ++ " operators=" ++ operationNames related.permitted
  | .custom handlers => "operators=" ++ operationNames handlers.operations

/-- A text filled up with spaces to a number of characters. -/
def padRight (width : Nat) (text : String) : String :=
  text.pushn ' ' (width - text.length)

/-- The table of a model's fields, ascending by name. -/
def fieldsTable {ι : Type} {E : ι → Type} (definition : ModelDefinition) (model : Model E) :
    List String :=
  ["Filterable fields of '" ++ definition.name ++ "' (table '" ++ definition.table ++ "'):",
    "-----------------------------"]
    ++ model.fields.entries.map fun (name, field) =>
      padRight 16 name ++ " " ++ padRight 10 field.kind ++ " " ++ describe field

/-- The lines that `fields` prints. -/
def FieldsOptions.lines (file? : Option String) (o : FieldsOptions) :
    Except RunError (List String) := do
  let (schema, definition) ← loadModel file? o.model
  if o.json then return [(Json.arr (definition.fields.map FieldDefinition.toJson)).pretty]
  else
    let registry : Registry Expressions := schema.toRegistry
    let scope ← (registry.scope o.model).mapError .compile
    return fieldsTable definition scope.model

/-- What a command prints, given the text of its file if that can be read. -/
def Command.run (file? : Option String) : Command → Except RunError String
  | .compile options => do return (← options.statement file?).toJson.pretty ++ "\n"
  | .fields options => do return String.join ((← options.lines file?).map (· ++ "\n"))

def versionText : String := "filterc 0.1.0\n"

def helpText : String :=
  "Compile JSON filter documents to SQL\n\n"
    ++ "Usage: filterc [-v] compile --config <FILE> --model <MODEL> [--query <JSON>]\n"
    ++ "               [--filter <JSON>] [--order <JSON>] [--limit <N>] [--offset <N>]\n"
    ++ "               [--dialect postgres|mysql]\n"
    ++ "       filterc [-v] fields --config <FILE> --model <MODEL> [--json]\n"

end Criteria.CommandLine
