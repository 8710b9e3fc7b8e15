import Criteria.Sql.Statement
import Criteria.Query

/-!
`SELECT` statements built clause by clause, and the statement that a compiled query becomes.
-/

namespace Criteria.Sql

namespace Clauses

variable {ε : Type}

/-- The statement of columns from a table, with no other clause. -/
def ofTable (columns : List ε) (table : String) : Clauses ε :=
  { columns, table := some table }

/-- The statement under a condition, in place of the one it had; without one it is unfiltered. -/
def filterBy (select : Clauses ε) (condition : Option ε) : Clauses ε :=
  { select with filter := condition }

/-- The statement with further sorts behind those it has. -/
def orderBy (select : Clauses ε) (sorts : List (SortTerm ε)) : Clauses ε :=
  { select with order := select.order ++ sorts }

/-- The statement cut to a number of rows. -/
def limitTo (select : Clauses ε) (rows : ε) : Clauses ε :=
  { select with limit := some rows }

def skipping (select : Clauses ε) (rows : ε) : Clauses ε :=
  { select with offset := some rows }

end Clauses

/-- The statement of a compiled query over a model's table: all columns, or the count. A count has
no order and no paging. -/
def Select.ofCompiled (binding : TableBinding) (compiled : CompiledQuery Expr OrderTerm) : Select :=
  let columns := if compiled.isCount then [Expr.rowCount] else []
  let select := (Clauses.ofTable columns binding.table).filterBy compiled.filter
  if compiled.isCount then select
  else
    let rows (n : UInt64) := Expr.value (Json.ofWord n)
    let ordered := select.orderBy (compiled.order.getD [])
    let limited := match compiled.limit with
      | some n => ordered.limitTo (rows n)
      | none => ordered
    match compiled.offset with
    | some n => limited.skipping (rows n)
    | none => limited

theorem Select.ofCompiled_of_count {binding : TableBinding}
    {compiled : CompiledQuery Expr OrderTerm} (h : compiled.isCount) :
    ofCompiled binding compiled =
      ⟨[.rowCount], some binding.table, compiled.filter, [], none, none⟩ := by
  rw [ofCompiled, if_pos h, if_pos h]
  rfl

theorem Select.ofCompiled_of_rows {binding : TableBinding}
    {compiled : CompiledQuery Expr OrderTerm} (h : ¬ compiled.isCount) :
    ofCompiled binding compiled =
      ⟨[], some binding.table, compiled.filter, compiled.order.getD [],
        compiled.limit.map fun n => .value (Json.ofWord n),
        compiled.offset.map fun n => .value (Json.ofWord n)⟩ := by
  rw [ofCompiled, if_neg h, if_neg h]
  cases compiled.limit <;> cases compiled.offset <;> rfl

end Criteria.Sql
