import Criteria.Query

/-!
A backend that builds a printable tree: conditions as calls of named functions. It shows the shape
that a document compiles to without any query language.
-/

namespace Criteria

/-- A node of the tree. A membership test keeps its raw value. -/
inductive Tree where
  | column (name : String)
  | literal (value : Json)
  | call (name : String) (args : List Tree)
  | member (op : Operation) (left : Tree) (values : Json)
  | select (table key : String) (filter : Tree)
deriving BEq, Repr, Inhabited

structure TreeSort where
  node : Tree
  direction : Direction
deriving BEq, Repr, Inhabited

namespace Tree

def backend : Backend Tree TreeSort where
  column
    | some table, name => .column (table ++ "." ++ name)
    | none, name => .column name
  literal := .literal
  compare op left right := .call op.name [left, right]
  member := .member
  subquery := .select
  among left rows := .call "in_sub" [left, rows]
  and := .call "and"
  or := .call "or"
  not operand := .call "not" [operand]
  ascending node := ⟨node, .asc⟩
  descending node := ⟨node, .desc⟩

mutual

def text : Tree → String
  | .column name => name
  | .literal value => value.text
  | .call name args => name ++ "(" ++ ", ".intercalate (texts args) ++ ")"
  | .member op left values => op.name ++ "(" ++ left.text ++ ", " ++ values.text ++ ")"
  | .select table key filter =>
    "select(" ++ table ++ "." ++ key ++ " | " ++ filter.text ++ ")"

def texts : List Tree → List String
  | [] => []
  | node :: rest => node.text :: texts rest

end

open Text (quoted)

mutual

def inspect : Tree → String
  | .column name => Inspect.applied "Col" (quoted name)
  | .literal value => Inspect.applied "Lit" value.inspect
  | .call name args => Inspect.tuple "Call" [quoted name, Inspect.list (inspectAll args)]
  | .member op left values => Inspect.tuple "Member" [op.inspect, left.inspect, values.inspect]
  | .select table key filter =>
    Inspect.record "Select"
      [("table", quoted table), ("key", quoted key), ("filter", filter.inspect)]

def inspectAll : List Tree → List String
  | [] => []
  | node :: rest => node.inspect :: inspectAll rest

end

end Tree

namespace TreeSort

def text (sort : TreeSort) : String :=
  (match sort.direction with | .asc => "asc(" | .desc => "desc(") ++ sort.node.text ++ ")"

def inspect (sort : TreeSort) : String :=
  Inspect.applied sort.direction.inspect sort.node.inspect

end TreeSort

end Criteria
