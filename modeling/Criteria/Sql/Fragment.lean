import Criteria.Sql.Expr
import Criteria.Sql.Dialect

/-!
SQL as a list of fragments: fixed text, names that are quoted when written, and values that become
bind parameters. Expressions and statements turn into fragments without knowing how many parameters
come before them, so the fragments of a whole are those of its parts in order.
-/

namespace Criteria.Sql

inductive Fragment where
  | text (s : String)
  | name (s : String)
  | bind (value : Json)
deriving BEq, Repr, Inhabited

namespace Fragment

/-- Lists of fragments one after the other, with a text between them. -/
def separated (separator : String) : List (List Fragment) → List Fragment
  | [] => []
  | [only] => only
  | first :: rest => first ++ .text separator :: separated separator rest

/-- The fragments' texts, the first parameter coming after `bound` others. -/
def textsFrom (d : Dialect) : Nat → List Fragment → List String
  | _, [] => []
  | bound, .text s :: rest => s :: textsFrom d bound rest
  | bound, .name s :: rest => d.quoteName s :: textsFrom d bound rest
  | bound, .bind _ :: rest => d.placeholder bound :: textsFrom d (bound + 1) rest

/-- The text of fragments whose first parameter comes after `bound` others. -/
def textFrom (d : Dialect) (bound : Nat) (fragments : List Fragment) : String :=
  String.join (textsFrom d bound fragments)

def binds (fragments : List Fragment) : List Json :=
  fragments.filterMap fun
    | .bind value => some value
    | _ => none

theorem binds_append (first second : List Fragment) :
    binds (first ++ second) = binds first ++ binds second :=
  List.filterMap_append

theorem textsFrom_append (d : Dialect) (bound : Nat) (first second : List Fragment) :
    textsFrom d bound (first ++ second) =
      textsFrom d bound first ++ textsFrom d (bound + (binds first).length) second := by
  induction first generalizing bound with
  | nil => rfl
  | cons fragment rest ih =>
    cases fragment with
    | text s => simp [textsFrom, ih, binds]
    | name s => simp [textsFrom, ih, binds]
    | bind value => simp [textsFrom, ih, binds]; grind

/-- The parameters of what comes behind are counted on from those in front. -/
theorem textFrom_append (d : Dialect) (bound : Nat) (first second : List Fragment) :
    textFrom d bound (first ++ second) =
      textFrom d bound first ++ textFrom d (bound + (binds first).length) second := by
  simp [textFrom, textsFrom_append, String.join_append]

end Fragment

def Comparison.text : Comparison → String
  | .eq => "="
  | .ne => "<>"
  | .lt => "<"
  | .le => "<="
  | .gt => ">"
  | .ge => ">="
  | .like => "LIKE"

def Connective.text : Connective → String
  | .and => "AND"
  | .or => "OR"

/-- What a group without conditions comes to. -/
def Connective.unit : Connective → String
  | .and => "TRUE"
  | .or => "FALSE"

def directionText : Direction → String
  | .asc => "ASC"
  | .desc => "DESC"

namespace Expr

/-- True of the expressions that `NOT` takes without further parentheses: they have their own, or
are a single word. -/
def standsAlone : Expr → Bool
  | .compare .. | .group .. => true
  | _ => false

end Expr

open Fragment (separated)

/-- The fragments of the table that a statement reads from. -/
def fragmentsOfTable : Option String → List Fragment
  | none => []
  | some table => [.text " FROM ", .name table]

mutual

def Expr.fragments (d : Dialect) : Expr → List Fragment
  | .column none name => [.name name]
  | .column (some qualifier) name => [.name qualifier, .text ".", .name name]
  | .value value => [.bind value]
  | .compare left op right =>
    .text "(" :: left.fragments d ++ .text (" " ++ op.text ++ " ") :: right.fragments d
      ++ [.text ")"]
  | .group op [] => [.text op.unit]
  | .group op (first :: rest) =>
    .text "(" :: separated (" " ++ op.text ++ " ") (first.fragments d :: fragmentsOfExprs d rest)
      ++ [.text ")"]
  | .not operand =>
    if operand.standsAlone then .text "NOT " :: operand.fragments d
    else .text "NOT " :: .text "(" :: operand.fragments d ++ [.text ")"]
  | .inList operand values =>
    .text "(" :: operand.fragments d ++ .text " IN ("
      :: separated ", " (values.map fun value => [.bind value]) ++ [.text "))"]
  | .inSelect operand select =>
    .text "(" :: operand.fragments d ++ .text " IN (" :: fragmentsOfSelect d select
      ++ [.text "))"]
  | .subquery select => .text "(" :: fragmentsOfSelect d select ++ [.text ")"]
  | .contains target value =>
    .text d.containsOpening :: target.fragments d
      ++ [.text d.containsSeparator, .bind value, .text ")"]
  | .call name args =>
    .text name :: .text "(" :: separated ", " (fragmentsOfExprs d args) ++ [.text ")"]
  | .wildcard => [.text "*"]

def fragmentsOfExprs (d : Dialect) : List Expr → List (List Fragment)
  | [] => []
  | expr :: rest => expr.fragments d :: fragmentsOfExprs d rest

/-- The fragments of a clause that may be absent, behind its keyword. -/
def fragmentsOfClause (d : Dialect) (keyword : String) : Option Expr → List Fragment
  | none => []
  | some expr => .text keyword :: expr.fragments d

def fragmentsOfSort (d : Dialect) : SortTerm Expr → List Fragment
  | ⟨expr, direction⟩ => expr.fragments d ++ [.text (" " ++ directionText direction)]

def fragmentsOfSorts (d : Dialect) : List (SortTerm Expr) → List (List Fragment)
  | [] => []
  | sort :: rest => fragmentsOfSort d sort :: fragmentsOfSorts d rest

def fragmentsOfSelect (d : Dialect) : Clauses Expr → List Fragment
  | ⟨columns, table, filter, order, limit, offset⟩ =>
    .text "SELECT "
      :: (if columns.isEmpty then [.text "*"] else separated ", " (fragmentsOfExprs d columns))
      ++ fragmentsOfTable table
      ++ fragmentsOfClause d " WHERE " filter
      ++ (if order.isEmpty then []
        else .text " ORDER BY " :: separated ", " (fragmentsOfSorts d order))
      ++ fragmentsOfClause d " LIMIT " limit
      ++ fragmentsOfClause d " OFFSET " offset

end

def Clauses.fragments (d : Dialect) (select : Select) : List Fragment :=
  fragmentsOfSelect d select

def SortTerm.fragments (d : Dialect) (sort : OrderTerm) : List Fragment :=
  fragmentsOfSort d sort

end Criteria.Sql
