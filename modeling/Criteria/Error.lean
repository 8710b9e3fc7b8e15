import Criteria.Inspect
import Criteria.Operator

/-!
Every way in which compiling a filter, an order or a whole query can fail. The first error ends the
compilation; nothing is skipped or replaced on the way.
-/

namespace Criteria

/-- What is wrong with the shape of a document. -/
inductive Malformation where
  /-- A filter that is neither an object nor an array. -/
  | notDocument (got : Json)
  /-- An operator over branches that got neither an object nor an array. -/
  | notBranches (op : Operator) (got : Json)
  /-- An operator over branches that got none. -/
  | noBranch (op : Operator)
  /-- An operator on a field's name that got something else than a string. -/
  | notFieldName (op : Operator) (got : Json)
  /-- An operation that got something else than a mapping of fields. -/
  | notFieldMap (op : Operator) (got : Json)
  /-- An operation on no field. -/
  | noField (op : Operator)
  /-- An order that is no array. -/
  | notOrderList (got : Json)
  /-- A fault put in words by whoever else checks documents. -/
  | stated (reason : String)
deriving BEq, Repr

def Malformation.reason : Malformation → String
  | .notDocument got => "expected an object or array, got " ++ got.text
  | .notBranches op got => op.key ++ " expects an array or object, got " ++ got.text
  | .noBranch op => op.key ++ " needs at least one branch"
  | .notFieldName op got => op.key ++ " expects a field name, got " ++ got.text
  | .notFieldMap op got => op.key ++ " expects a field mapping, got " ++ got.text
  | .noField op => op.key ++ " needs at least one field"
  | .notOrderList got =>
    "order expects an array of \x7bfield: direction\x7d entries, got " ++ got.text
  | .stated reason => reason

inductive CompileError where
  /-- A key starts with the sigil and is no operator. -/
  | unknownOperator (key : String)
  /-- A model is not registered, or it lacks the table that a field needs. -/
  | unknownModel (model : String)
  /-- A document names a field that the model does not have. -/
  | unknownField (field : String)
  /-- A field does not permit an operation, or a use that is named like one. -/
  | unsupported (field operation : String)
  /-- An order entry's direction is neither of the two words; it is kept as JSON text. -/
  | badDirection (field direction : String)
  | malformed (problem : Malformation)
  /-- A custom field's handler builds expressions of another backend. -/
  | foreignHandler (field : String)
deriving BEq, Repr

namespace CompileError

open Text (quoted)

/-- The name under which the error is reported. -/
def kind : CompileError → String
  | .unknownOperator _ => "UnsupportedOperator"
  | .unknownModel _ => "MissingModelMetadata"
  | .unknownField _ => "MissingFieldInfo"
  | .unsupported _ _ => "UnsupportedFieldOperator"
  | .badDirection _ _ => "InvalidOrderDirection"
  | .malformed _ => "MalformedDocument"
  | .foreignHandler _ => "BackendMismatch"

def message : CompileError → String
  | .unknownOperator key => "Operator " ++ quoted key ++ " is not supported"
  | .unknownModel model => "No filter metadata registered for model " ++ quoted model
  | .unknownField field => "Field " ++ quoted field ++ " is not filterable"
  | .unsupported field operation =>
    "Operator " ++ quoted operation ++ " is not supported by field " ++ quoted field
  | .badDirection field direction =>
    "Invalid order direction " ++ direction ++ " for field " ++ quoted field
  | .malformed problem => "Malformed filter document: " ++ problem.reason
  | .foreignHandler field =>
    "Custom compiler for field " ++ quoted field ++ " was registered for another backend"

/-- True of the errors that the document causes, and not the way models are registered. -/
def isDocumentFault : CompileError → Bool
  | .unknownOperator _ | .unknownField _ | .badDirection _ _ | .malformed _ => true
  | .unknownModel _ | .unsupported _ _ | .foreignHandler _ => false

def inspect (e : CompileError) : String :=
  match e with
  | .unknownOperator text | .unknownModel text | .unknownField text =>
    Inspect.applied e.kind (quoted text)
  | .malformed problem => Inspect.applied e.kind (quoted problem.reason)
  | .unsupported field operation =>
    Inspect.record e.kind [("field", quoted field), ("operator", quoted operation)]
  | .badDirection field direction =>
    Inspect.record e.kind [("field", quoted field), ("direction", quoted direction)]
  | .foreignHandler field => Inspect.record e.kind [("field", quoted field)]

end CompileError

end Criteria
