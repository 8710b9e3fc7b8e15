import Criteria.Backend
import Criteria.Inspect

/-!
The ways in which a field of a model can be filtered: a column of the model's own table, a column of
another table that the model is related to, or code that builds the condition.

Code is written for the expressions of one backend. A program with several backends gives each an
index `i : ι` and its expressions the type `E i`; a custom field then holds handlers for any of
them, and a backend recognises its own by the index.
-/

namespace Criteria

/-- A list of permitted operations permits everything when it is empty. -/
def permits (permitted : List Operation) (op : Operation) : Bool :=
  permitted.isEmpty || permitted.contains op

/-- A field stored in a column of the model's table. -/
structure ColumnField where
  /-- The column, where it differs from the field's name. -/
  column : Option String := none
  /-- The permitted operations; none permits all. -/
  permitted : List Operation := []
deriving DecidableEq, Repr, Inhabited

/-- A field whose values stand in another table. A row of the model has a value when its match
column is among the table's keys in the rows with that value. -/
structure Relation where
  /-- The column of the model's table that is matched. -/
  matchColumn : String
  table : String
  /-- The column of `table` that is matched against. -/
  key : String
  /-- The column of `table` that holds the values. -/
  value : String
  /-- The permitted operations; none permits all. -/
  permitted : List Operation := []
deriving DecidableEq, Repr, Inhabited

/-- Code that builds the condition of a custom field from the operand of the model's primary key,
the operation and its argument. -/
abbrev Handler (ε : Type) := ε → Operation → Argument ε → ε

/-- What a custom field has for one operation, seen by one backend. -/
inductive Offer (ε : Type) where
  | unsupported
  /-- The operation's handler builds expressions of another backend. -/
  | foreign
  | handler (build : Handler ε)

/-- A field with at most one handler for each operation. The order in which the handlers stand means
nothing. -/
structure CustomField {ι : Type} (E : ι → Type) where
  entries : List (Operation × ((i : ι) × Handler (E i)))
  /-- No operation has two handlers. -/
  distinct : (entries.map Prod.fst).Nodup

namespace CustomField

variable {ι : Type} {E : ι → Type}

def empty : CustomField E where
  entries := []
  distinct := .nil

/-- The handler of an operation, for the expressions of its own backend. -/
def handlers (field : CustomField E) (op : Operation) : Option ((i : ι) × Handler (E i)) :=
  field.entries.lookup op

/-- The field with a handler for an operation, in place of the one it had. -/
def on (field : CustomField E) (op : Operation) (i : ι) (build : Handler (E i)) :
    CustomField E where
  entries := (op, ⟨i, build⟩) :: field.entries.filter fun entry => entry.1 ≠ op
  distinct := by
    have hothers : op ∉ (field.entries.filter fun entry => entry.1 ≠ op).map Prod.fst := by simp
    exact List.nodup_cons.mpr ⟨hothers, field.distinct.sublist (List.filter_sublist.map _)⟩

def supports (field : CustomField E) (op : Operation) : Bool :=
  (field.handlers op).isSome

/-- The operations that have a handler, sorted by their names. -/
def operations (field : CustomField E) : List Operation :=
  (field.entries.map Prod.fst).mergeSort fun op other => op.name ≤ other.name

/-- What the field has for an operation, seen by the backend `i`. -/
def offer [DecidableEq ι] (field : CustomField E) (i : ι) (op : Operation) : Offer (E i) :=
  match field.handlers op with
  | none => .unsupported
  | some ⟨j, build⟩ => if same : j = i then .handler (same ▸ build) else .foreign

def inspect (field : CustomField E) : String :=
  Inspect.record "CustomField"
    [("operations", Inspect.list (field.operations.map Operation.inspect))]

end CustomField

/-- How a field can be filtered. -/
inductive Field {ι : Type} (E : ι → Type) where
  | plain (column : ColumnField)
  | relation (related : Relation)
  | custom (handlers : CustomField E)

namespace Field

variable {ι : Type} {E : ι → Type}

def kind : Field E → String
  | .plain _ => "plain"
  | .relation _ => "relation"
  | .custom _ => "custom"

end Field

end Criteria
