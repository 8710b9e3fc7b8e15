import Criteria.Inspect
import Criteria.Sql.Expr

/-!
The one-line notation of SQL expressions and statements.
-/

namespace Criteria.Sql

open Text (quoted)

def Comparison.inspect : Comparison → String
  | .eq => "Eq"
  | .ne => "NotEq"
  | .lt => "Lt"
  | .le => "LtEq"
  | .gt => "Gt"
  | .ge => "GtEq"
  | .like => "Like"

def Connective.inspect : Connective → String
  | .and => "And"
  | .or => "Or"

def inspectTable (table : String) : String :=
  Inspect.record "FromClause"
    [("table", Inspect.record "TableRef" [("name", quoted table)])]

mutual

def Expr.inspect : Expr → String
  | .column qualifier name =>
    Inspect.applied "Identifier" <| Inspect.record "Ident"
      [("qualifier", Inspect.option (qualifier.map quoted)), ("name", quoted name)]
  | .value value => Inspect.applied "Value" value.inspect
  | .compare left op right =>
    Inspect.applied "BinaryOp" <| Inspect.record "BinaryOp"
      [("left", left.inspect), ("op", op.inspect), ("right", right.inspect)]
  | .group op operands =>
    Inspect.applied "Logical" <| Inspect.record "Logical"
      [("op", op.inspect), ("operands", Inspect.list (inspectExprs operands))]
  | .not operand => Inspect.applied "Not" operand.inspect
  | .inList operand values =>
    Inspect.record "InList"
      [("expr", operand.inspect), ("list", Inspect.list (values.map Json.inspect))]
  | .inSelect operand select =>
    Inspect.record "InSubquery"
      [("expr", operand.inspect), ("subquery", inspectSelect select)]
  | .subquery select => Inspect.applied "Subquery" (inspectSelect select)
  | .contains target value =>
    Inspect.record "Contains" [("expr", target.inspect), ("value", value.inspect)]
  | .call name args =>
    Inspect.applied "FunctionCall" <| Inspect.record "FunctionCall"
      [("name", quoted name), ("args", Inspect.list (inspectExprs args))]
  | .wildcard => "Wildcard"

def inspectExprs : List Expr → List String
  | [] => []
  | expr :: rest => expr.inspect :: inspectExprs rest

def inspectClause : Option Expr → String
  | none => "None"
  | some expr => Inspect.applied "Some" expr.inspect

def inspectSort : SortTerm Expr → String
  | ⟨expr, direction⟩ =>
    Inspect.record "OrderByExpr" [("expr", expr.inspect), ("direction", direction.inspect)]

def inspectSorts : List (SortTerm Expr) → List String
  | [] => []
  | sort :: rest => inspectSort sort :: inspectSorts rest

def inspectSelect : Clauses Expr → String
  | ⟨columns, table, filter, order, limit, offset⟩ =>
    Inspect.record "Select"
      [("columns", Inspect.list (inspectExprs columns)),
        ("from", Inspect.option (table.map inspectTable)),
        ("where_clause", inspectClause filter),
        ("order_by", Inspect.list (inspectSorts order)),
        ("limit", inspectClause limit),
        ("offset", inspectClause offset)]

end

def SortTerm.inspect (sort : OrderTerm) : String :=
  inspectSort sort

end Criteria.Sql
