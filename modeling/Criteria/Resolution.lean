import Criteria.Registry
import Criteria.Error

/-!
From a field's name in a document to something an operation can be applied to. A model's fields
resolve through what is registered of it; columns given by a function resolve without a registry.
-/

namespace Criteria

/-- A field that has been found, ready to have an operation applied to it. -/
inductive ResolvedField (ε : Type) where
  /-- A column. Without a registered field every operation is permitted. -/
  | plain (field : String) (operand : ε) (registered : Option ColumnField)
  /-- A relation, with the operand of the model's match column. -/
  | relation (field : String) (anchor : ε) (related : Relation)
  /-- A field of handlers, with the operand of the model's primary key. -/
  | custom (field : String) (primary : ε) (offers : Operation → Offer ε)

namespace ResolvedField

variable {ε σ : Type}

def name : ResolvedField ε → String
  | .plain field _ _ | .relation field _ _ | .custom field _ _ => field

/-- The operand that the field stands on. -/
def operand : ResolvedField ε → ε
  | .plain _ operand _ | .relation _ operand _ | .custom _ operand _ => operand

/-- The condition that an operation states of the field. A relation states it of the related rows
and matches their keys; a custom field leaves it to its handler. -/
def apply (b : Backend ε σ) (op : Operation) (argument : Argument ε) :
    ResolvedField ε → Except CompileError ε
  | .plain field operand registered =>
    if registered.all fun column => permits column.permitted op then
      .ok (b.apply op operand argument)
    else .error (.unsupported field op.name)
  | .relation field anchor related =>
    if permits related.permitted op then
      let value := b.column (some related.table) related.value
      let rows := b.subquery related.table related.key (b.apply op value argument)
      .ok (b.among anchor rows)
    else .error (.unsupported field op.name)
  | .custom field primary offers =>
    match offers op with
    | .unsupported => .error (.unsupported field op.name)
    | .foreign => .error (.foreignHandler field)
    | .handler build => .ok (build primary op argument)

/-- The comparison of the field with a right-hand side. -/
def compare (b : Backend ε σ) (op : Operation) (rhs : ε) (field : ResolvedField ε) :
    Except CompileError ε :=
  field.apply b op (.operand rhs)

/-- The membership test of the field against raw values. -/
def member (b : Backend ε σ) (op : Operation) (values : Json) (field : ResolvedField ε) :
    Except CompileError ε :=
  field.apply b op (.raw values)

/-- The operand of a plain field by itself; the others have none. `purpose` is what it is wanted
for. -/
def alone (purpose : String) : ResolvedField ε → Except CompileError ε
  | .plain _ operand _ => .ok operand
  | .relation field _ _ | .custom field _ _ => .error (.unsupported field purpose)

end ResolvedField

abbrev Resolver (ε : Type) := String → Except CompileError (ResolvedField ε)

/-- Resolves through a function from names to columns. -/
def Resolver.ofColumns {ε : Type} (column? : String → Option ε) : Resolver ε := fun field =>
  match column? field with
  | some operand => .ok (.plain field operand none)
  | none => .error (.unknownField field)

/-- A model under its name, in which the fields of a document are looked up. -/
structure Scope {ι : Type} (E : ι → Type) where
  name : String
  model : Model E

namespace Scope

variable {ι : Type} {E : ι → Type} {σ : Type}

/-- The model's table, which relations and custom fields cannot do without. -/
def binding (scope : Scope E) : Except CompileError TableBinding :=
  match scope.model.binding with
  | some binding => .ok binding
  | none => .error (.unknownModel scope.name)

/-- Resolves the fields of the model for the backend `i`. A plain field's column is qualified by the
model's table if it is bound to one. -/
def resolve [DecidableEq ι] (scope : Scope E) (i : ι) (b : Backend (E i) σ) :
    Resolver (E i) := fun field =>
  match scope.model.fields.get? field with
  | none => .error (.unknownField field)
  | some (.plain column) =>
    let table := scope.model.binding.map (·.table)
    .ok (.plain field (b.column table (column.column.getD field)) (some column))
  | some (.relation related) => do
    let binding ← scope.binding
    return .relation field (b.column (some binding.table) related.matchColumn) related
  | some (.custom handlers) => do
    let binding ← scope.binding
    return .custom field (b.column (some binding.table) binding.primaryKey) (handlers.offer i)

end Scope

/-- The model of a name, as the registry knows it now. -/
def Registry.scope {ι : Type} {E : ι → Type} (registry : Registry E) (name : String) :
    Except CompileError (Scope E) :=
  match registry.model? name with
  | some model => .ok ⟨name, model⟩
  | none => .error (.unknownModel name)

end Criteria
