import Criteria.Sql.Backend

/-!
Whose columns an expression names. A qualifier leads to the innermost of the statements around that
reads from a table of its name; no statement gives its table another one. The columns of an
expression come in the order of the text, each with the statement that it leads to.
-/

namespace Criteria.Sql

/-- The statement that a qualifier leads to, by the number of statements around that one: the
outermost is 0. There is none if no table has the name. -/
def ownerIn (qualifier : String) : List String → Option Nat
  | [] => none
  | table :: outer => if table = qualifier then some outer.length else ownerIn qualifier outer

/-- The innermost statement of a table's name owns its columns, so a subquery that reads from the
same table hides the one around it. -/
theorem ownerIn_cons_self (table : String) (outer : List String) :
    ownerIn table (table :: outer) = some outer.length := if_pos rfl

/-- The outermost statement is in sight past tables of other names only. One of its own name on the
way captures the column. -/
theorem ownerIn_append_eq_zero {table : String} {inner : List String} :
    ownerIn table (inner ++ [table]) = some 0 ↔ table ∉ inner := by
  induction inner with
  | nil => simp [ownerIn]
  | cons first rest ih =>
      by_cases hfirst : first = table
      · simp [ownerIn, hfirst]
      · simp [ownerIn, hfirst, ih, Ne.symm hfirst]

/-- A column as an expression names it, and the statement that it leads to. -/
structure ColumnUse where
  qualifier : Option String
  name : String
  owner : Option Nat
deriving DecidableEq, Repr

/-- The tables in sight inside a statement. -/
def tablesInside (table : Option String) (tables : List String) : List String :=
  table.toList ++ tables

mutual

/-- The columns of an expression inside statements over the given tables, the innermost first. -/
def Expr.columnUses (tables : List String) : Expr → List ColumnUse
  | .column qualifier name => [⟨qualifier, name, qualifier.bind (ownerIn · tables)⟩]
  | .value _ | .wildcard => []
  | .compare left _ right => left.columnUses tables ++ right.columnUses tables
  | .group _ operands => columnUsesOfExprs tables operands
  | .not operand | .inList operand _ | .contains operand _ => operand.columnUses tables
  | .inSelect operand select => operand.columnUses tables ++ columnUsesOfSelect tables select
  | .subquery select => columnUsesOfSelect tables select
  | .call _ args => columnUsesOfExprs tables args

def columnUsesOfExprs (tables : List String) : List Expr → List ColumnUse
  | [] => []
  | expr :: rest => expr.columnUses tables ++ columnUsesOfExprs tables rest

def columnUsesOfClause (tables : List String) : Option Expr → List ColumnUse
  | none => []
  | some expr => expr.columnUses tables

def columnUsesOfSorts (tables : List String) : List (SortTerm Expr) → List ColumnUse
  | [] => []
  | ⟨expr, _⟩ :: rest => expr.columnUses tables ++ columnUsesOfSorts tables rest

/-- The columns of a statement inside others; its own table is in front of theirs. -/
def columnUsesOfSelect (tables : List String) : Clauses Expr → List ColumnUse
  | ⟨columns, table, filter, order, limit, offset⟩ =>
    columnUsesOfExprs (tablesInside table tables) columns
      ++ columnUsesOfClause (tablesInside table tables) filter
      ++ columnUsesOfSorts (tablesInside table tables) order
      ++ columnUsesOfClause (tablesInside table tables) limit
      ++ columnUsesOfClause (tablesInside table tables) offset

end

theorem columnUsesOfExprs_eq_flatMap (tables : List String) (exprs : List Expr) :
    columnUsesOfExprs tables exprs = exprs.flatMap (Expr.columnUses tables) := by
  induction exprs with
  | nil => rfl
  | cons expr rest ih => rw [columnUsesOfExprs, ih, List.flatMap_cons]

namespace Expr

theorem columnUses_column (tables : List String) (table name : String) :
    (column (some table) name).columnUses tables = [⟨some table, name, ownerIn table tables⟩] := rfl

theorem columnUses_group (tables : List String) (op : Connective) (operands : List Expr) :
    (group op operands).columnUses tables = operands.flatMap (columnUses tables) :=
  columnUsesOfExprs_eq_flatMap tables operands

/-- A test against a table's keys names the operand outside, and the key and the condition's columns
in front of the table. So a condition of the model's own columns comes to stand in another
statement. -/
theorem columnUses_amongKeys (tables : List String) (operand : Expr) (table key : String)
    (filter : Expr) :
    (operand.among (keysWhere table key filter)).columnUses tables =
      operand.columnUses tables ++ ⟨some table, key, some tables.length⟩ ::
        filter.columnUses (table :: tables) := by
  change operand.columnUses tables ++ ([_] ++ [] ++ filter.columnUses _ ++ [] ++ [] ++ []) = _
  simp [Clauses.ofTable, tablesInside, ownerIn_cons_self]

end Expr

end Criteria.Sql
