import Criteria.Sql.Backend

/-!
What a condition comes to in a database. A column is looked up by its qualifier, in the innermost
statement around it that reads from the table of that name. What is asked of values is left to an
interpretation; truth is two-valued, and a truth is a value too, as conditions stand as operands.
-/

namespace Criteria.Sql

/-- Values, with an answer to every comparison and to containment. -/
structure Interpretation (V : Type) where
  literal : Json → V
  eq : V → V → Bool
  ne : V → V → Bool
  lt : V → V → Bool
  le : V → V → Bool
  gt : V → V → Bool
  ge : V → V → Bool
  like : V → V → Bool
  contains : V → V → Bool
  /-- The value of a condition. -/
  ofBool : Bool → V
  /-- The truth of a value in the place of a condition. -/
  truth : V → Bool
  truth_ofBool : ∀ b, truth (ofBool b) = b

abbrev Row (V : Type) := String → V

abbrev Database (V : Type) := String → List (Row V)

/-- The tables that the statements around an expression read from, each with its current row, the
innermost first. -/
abbrev Scopes (V : Type) := List (String × Row V)

namespace Interpretation

variable {V : Type} (I : Interpretation V)

def test : Comparison → V → V → Bool
  | .eq => I.eq
  | .ne => I.ne
  | .lt => I.lt
  | .le => I.le
  | .gt => I.gt
  | .ge => I.ge
  | .like => I.like

/-- All of the values are true. -/
def conjunction (values : List V) : V :=
  I.ofBool (values.all I.truth)

/-- One of the values is true. -/
def disjunction (values : List V) : V :=
  I.ofBool (values.any I.truth)

/-- What a group of values comes to; without values `AND` is true and `OR` is false. -/
def group : Connective → List V → V
  | .and => I.conjunction
  | .or => I.disjunction

end Interpretation

section Evaluation

variable {V : Type} (I : Interpretation V) (db : Database V)

mutual

/-- The value of an expression. There is none without a qualifier, for a qualifier that no statement
around it reads from, and for function calls and subqueries outside of `IN`. -/
def Expr.eval (scopes : Scopes V) : Expr → Option V
  | .column (some table) name => (scopes.lookup table).map (· name)
  | .value value => some (I.literal value)
  | .compare left op right => do
    let left ← left.eval scopes
    let right ← right.eval scopes
    return I.ofBool (I.test op left right)
  | .group op operands => do
    let values ← evalExprs scopes operands
    return I.group op values
  | .not operand => do
    let value ← operand.eval scopes
    return I.ofBool (!I.truth value)
  | .inList operand values => do
    let value ← operand.eval scopes
    return I.ofBool (values.any fun other => I.eq value (I.literal other))
  | .inSelect operand select => do
    let value ← operand.eval scopes
    let found ← evalAmong scopes value select
    return I.ofBool found
  | .contains target part => do
    let value ← target.eval scopes
    return I.ofBool (I.contains value (I.literal part))
  | .column none _ | .subquery _ | .call .. | .wildcard => none

def evalExprs (scopes : Scopes V) : List Expr → Option (List V)
  | [] => some []
  | expr :: rest => do
    let value ← expr.eval scopes
    let values ← evalExprs scopes rest
    return value :: values

def evalClause (scopes : Scopes V) : Option Expr → Option Bool
  | none => some true
  | some condition => (condition.eval scopes).map I.truth

/-- Whether some row under the statement's condition has a value in its single column. There is no
answer for a statement with other clauses. -/
def evalAmong (scopes : Scopes V) (value : V) : Clauses Expr → Option Bool
  | ⟨columns, some table, filter, [], none, none⟩ => do
    let answers ← (db table).mapM fun row => do
      let kept ← evalClause ((table, row) :: scopes) filter
      match ← evalExprs ((table, row) :: scopes) columns with
      | [key] => some (kept && I.eq value key)
      | _ => none
    return answers.any id
  | _ => none

end

variable {I db} {scopes : Scopes V}

/-- Expressions have values exactly when each has one, so a list of them has as many values as
expressions, and one expression without a value leaves the list without. -/
theorem evalExprs_eq_some {exprs : List Expr} {values : List V} :
    evalExprs I db scopes exprs = some values ↔
      exprs.map (Expr.eval I db scopes) = values.map some := by
  induction exprs generalizing values with
  | nil => cases values <;> simp [evalExprs]
  | cons expr rest ih =>
      rw [evalExprs, List.map_cons]
      constructor
      · intro h
        obtain ⟨value, hvalue, h⟩ := Option.bind_eq_some_iff.mp h
        obtain ⟨others, hothers, heq⟩ := Option.bind_eq_some_iff.mp h
        cases heq
        rw [hvalue, ih.mp hothers, List.map_cons]
      · intro h
        obtain ⟨value, others, rfl, hvalue, hothers⟩ := List.map_eq_cons_iff.mp h.symm
        rw [← hvalue, ih.mpr hothers.symm]
        rfl

/-- A group has the value that the interpretation gives to the values of its operands, in order.
Nothing is left out when one of them already decides. -/
theorem eval_group {connective : Connective} {operands : List Expr} {values : List V}
    (h : operands.map (Expr.eval I db scopes) = values.map some) :
    (Expr.group connective operands).eval I db scopes = some (I.group connective values) := by
  rw [Expr.eval, evalExprs_eq_some.mpr h]
  rfl

/-- Being among a table's keys asks of its rows, one after the other and each in front of the rows
around it, whether the condition holds and the key is equal. -/
theorem eval_amongKeys {operand filter : Expr} {table key : String} {value : V}
    {holds : Row V → Bool} (hoperand : operand.eval I db scopes = some value)
    (hfilter : ∀ row, filter.eval I db ((table, row) :: scopes) = some (I.ofBool (holds row))) :
    (operand.among (.keysWhere table key filter)).eval I db scopes =
      some (I.ofBool ((db table).any fun row => holds row && I.eq value (row key))) := by
  have hrow (row : Row V) : (do
      let kept ← evalClause I db ((table, row) :: scopes) (some filter)
      match ← evalExprs I db ((table, row) :: scopes) [.column (some table) key] with
      | [key] => some (kept && I.eq value key)
      | _ => none) = some (holds row && I.eq value (row key)) := by
    simp [evalClause, hfilter, I.truth_ofBool, evalExprs, Expr.eval]
  have hamong : evalAmong I db scopes value ((Clauses.ofTable [.column (some table) key]
      table).filterBy (some filter)) =
        some ((db table).any fun row => holds row && I.eq value (row key)) := by
    rw [Clauses.filterBy, Clauses.ofTable, evalAmong]
    have hrows : (db table).mapM (fun row => some (holds row && I.eq value (row key))) =
        some ((db table).map fun row => holds row && I.eq value (row key)) := List.mapM_pure
    simp only [hrow, hrows]
    simp
  rw [Expr.keysWhere, Expr.among, Expr.eval, hoperand]
  simp only [Option.bind_eq_bind, Option.bind_some]
  rw [hamong]
  rfl

end Evaluation

end Criteria.Sql
