import Criteria.Backend
import Criteria.Sql.Select

/-!
The backend that compiles filters to SQL expressions.
-/

namespace Criteria.Sql

/-- The comparison of an operation; the membership tests have none. -/
def Comparison.ofOperation? : Operation → Option Comparison
  | .eq => some .eq
  | .neq => some .ne
  | .gt => some .gt
  | .gte => some .ge
  | .lt => some .lt
  | .lte => some .le
  | .like => some .like
  | .isIn | .has => none

namespace Expr

/-- A membership test. A value that is no array counts as a list of one; nothing is in the empty
list, for which SQL has no form of its own. Given any other operation it is that comparison with the
value. -/
def member (op : Operation) (left : Expr) (values : Json) : Expr :=
  match op, values with
  | .isIn, .arr [] => .or []
  | .isIn, .arr list => .inList left list
  | .isIn, scalar => .inList left [scalar]
  | .has, part => .contains left part
  | op, other => .compare left ((Comparison.ofOperation? op).getD .eq) (.value other)

/-- A comparison. A membership test against a value is one against the raw value, and against
anything else one against a subquery. -/
def comparison (op : Operation) (left right : Expr) : Expr :=
  match Comparison.ofOperation? op, right with
  | some op, right => .compare left op right
  | none, .value values => member op left values
  | none, right => left.among right

/-- The key column of a table's rows under a condition. -/
def keysWhere (table key : String) (filter : Expr) : Expr :=
  .subquery ((Clauses.ofTable [.column (some table) key] table).filterBy (some filter))

/-- The test of an operand against the keys of a table's rows, clause by clause. -/
theorem among_keysWhere (operand : Expr) (table key : String) (filter : Expr) :
    operand.among (keysWhere table key filter) =
      .inSelect operand ⟨[column (some table) key], some table, some filter, [], none, none⟩ := rfl

end Expr

def backend : Backend Expr OrderTerm where
  column := .column
  literal := .value
  compare := .comparison
  member := .member
  subquery := .keysWhere
  among := .among
  and := .and
  or := .or
  not := .not
  ascending expr := ⟨expr, .asc⟩
  descending expr := ⟨expr, .desc⟩

/-- The expressions of a program that has SQL besides backends of its own; SQL has the index
`none`. -/
abbrev ExpressionsWith {κ : Type} (others : κ → Type) : Option κ → Type
  | none => Expr
  | some k => others k

end Criteria.Sql
