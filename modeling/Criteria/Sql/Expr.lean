import Criteria.Json.Basic
import Criteria.Operator

/-!
SQL conditions and the `SELECT` statements around them. A statement is a record over its
expressions, and an expression may hold statements, so the two nest to any depth.
-/

namespace Criteria.Sql

inductive Comparison where
  | eq
  | ne
  | lt
  | le
  | gt
  | ge
  | like
deriving DecidableEq, Repr, Inhabited

/-- What joins the conditions of a group. -/
inductive Connective where
  | and
  | or
deriving DecidableEq, Repr, Inhabited

/-- An item of `ORDER BY` over expressions of type `ε`. -/
structure SortTerm (ε : Type) where
  expr : ε
  direction : Direction
deriving BEq, Repr, Inhabited

/-- The clauses of a `SELECT` over expressions of type `ε`. Without columns it selects all. -/
structure Clauses (ε : Type) where
  columns : List ε := []
  table : Option String := none
  filter : Option ε := none
  order : List (SortTerm ε) := []
  limit : Option ε := none
  offset : Option ε := none
deriving BEq, Repr, Inhabited

/-- An expression. Values become bind parameters; a containment test binds its value behind its
target. -/
inductive Expr where
  | column (qualifier : Option String) (name : String)
  | value (value : Json)
  | compare (left : Expr) (op : Comparison) (right : Expr)
  | group (op : Connective) (operands : List Expr)
  | not (operand : Expr)
  | inList (operand : Expr) (values : List Json)
  | inSelect (operand : Expr) (select : Clauses Expr)
  | subquery (select : Clauses Expr)
  | contains (target : Expr) (value : Json)
  | call (name : String) (args : List Expr)
  | wildcard
deriving Repr, Inhabited

/-- The expressions of a statement, in the order they are written in. -/
def Clauses.exprs {ε : Type} (select : Clauses ε) : List ε :=
  select.columns ++ select.filter.toList ++ select.order.map (·.expr) ++ select.limit.toList
    ++ select.offset.toList

abbrev Select := Clauses Expr

abbrev OrderTerm := SortTerm Expr

namespace Expr

/-- Induction over an expression. A statement inside it counts by all its expressions. -/
@[elab_as_elim, induction_eliminator]
theorem induction {motive : Expr → Prop}
    (column : ∀ qualifier name, motive (.column qualifier name))
    (value : ∀ value, motive (.value value))
    (compare : ∀ left op right, motive left → motive right → motive (.compare left op right))
    (group : ∀ op operands, (∀ e ∈ operands, motive e) → motive (.group op operands))
    (not : ∀ operand, motive operand → motive (.not operand))
    (inList : ∀ operand values, motive operand → motive (.inList operand values))
    (inSelect : ∀ operand select, motive operand → (∀ e ∈ select.exprs, motive e) →
      motive (.inSelect operand select))
    (subquery : ∀ select, (∀ e ∈ select.exprs, motive e) → motive (.subquery select))
    (contains : ∀ target value, motive target → motive (.contains target value))
    (call : ∀ name args, (∀ e ∈ args, motive e) → motive (.call name args))
    (wildcard : motive .wildcard) (expr : Expr) : motive expr :=
  @Expr.rec motive (fun exprs => ∀ e ∈ exprs, motive e)
    (fun select => ∀ e ∈ select.exprs, motive e) (fun clause => ∀ e ∈ clause.toList, motive e)
    (fun order => ∀ e ∈ order.map (·.expr), motive e) (fun sort => motive sort.expr)
    column value compare group not inList inSelect subquery contains call wildcard
    nofun (fun _ _ first rest => List.forall_mem_cons.2 ⟨first, rest⟩)
    (fun _ _ _ _ _ _ columns filter order limit offset => by
      simp only [Clauses.exprs, List.forall_mem_append]
      exact ⟨⟨⟨⟨columns, filter⟩, order⟩, limit⟩, offset⟩)
    nofun (fun _ only => by simpa using only)
    nofun (fun _ _ first rest => List.forall_mem_cons.2 ⟨first, rest⟩)
    (fun _ _ expr => expr) expr

/-- The expressions directly inside an expression, in the order they are written in. -/
def children : Expr → List Expr
  | .column .. | .value _ | .wildcard => []
  | .compare left _ right => [left, right]
  | .group _ operands => operands
  | .not operand | .inList operand _ | .contains operand _ => [operand]
  | .inSelect operand select => operand :: select.exprs
  | .subquery select => select.exprs
  | .call _ args => args

/-- True of an expression and of every expression inside it. -/
inductive Everywhere (p : Expr → Prop) : Expr → Prop
  | intro {expr : Expr} (here : p expr) (inside : ∀ e ∈ expr.children, Everywhere p e) :
    Everywhere p expr

theorem Everywhere.here {p : Expr → Prop} {expr : Expr} (h : expr.Everywhere p) : p expr := by
  cases h with
  | intro here inside => exact here

theorem Everywhere.inside {p : Expr → Prop} {expr : Expr} (h : expr.Everywhere p) :
    ∀ e ∈ expr.children, e.Everywhere p := by
  cases h with
  | intro here inside => exact inside

theorem Everywhere.imp {p q : Expr → Prop} (hpq : ∀ e, p e → q e) {e : Expr}
    (h : e.Everywhere p) : e.Everywhere q := by
  induction h with
  | intro here inside ih => exact .intro (hpq _ here) ih

def and (operands : List Expr) : Expr :=
  .group .and operands

def or (operands : List Expr) : Expr :=
  .group .or operands

def rowCount : Expr :=
  .call "COUNT" [.wildcard]

/-- The test whether an operand is among a subquery's values. Against anything else than a subquery
it is an equality. -/
def among (operand : Expr) : Expr → Expr
  | .subquery select => .inSelect operand select
  | other => .compare operand .eq other

end Expr

end Criteria.Sql
