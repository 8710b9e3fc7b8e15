import Criteria.Proofs.Query.Compilation
import Criteria.Proofs.Sql.Parameters
import Criteria.Sql.Backend

/-!
A statement is put together from its clauses, each rendered by itself: the condition is numbered
from the first parameter in either case, the order binds nothing, and paging counts on from the
condition.
-/

namespace Criteria

open Sql (Dialect Expr Fragment OrderTerm Select Statement)

theorem Sql.Fragment.textFrom_of_binds_eq_nil (d : Dialect) {fragments : List Fragment}
    (h : binds fragments = []) (bound other : Nat) :
    textFrom d bound fragments = textFrom d other fragments := by
  induction fragments generalizing bound other with
  | nil => rfl
  | cons fragment rest ih =>
      cases fragment with
      | text s => rw [textFrom_text, textFrom_text, ih (by simpa using h)]
      | name s => rw [textFrom_name, textFrom_name, ih (by simpa using h)]
      | bind value => simp at h

namespace Sql

/-- A clause that may be absent, behind its keyword. -/
def clauseText (keyword : String) (clause : Option String) : String :=
  (clause.map (keyword ++ ·)).getD ""

variable {d : Dialect}

theorem textFrom_condition (keyword : String) (filter : Option Expr) :
    Fragment.textFrom d 0 (fragmentsOfClause d keyword filter) =
      clauseText keyword (filter.map fun e => (e.render d).sql) := by
  cases filter with
  | none => rfl
  | some expr => simp [fragmentsOfClause, clauseText, Expr.render_eq, Statement.ofFragments_eq]

theorem binds_condition (keyword : String) (filter : Option Expr) :
    Fragment.binds (fragmentsOfClause d keyword filter) =
      (filter.map fun e => (e.render d).params).getD [] := by
  cases filter with
  | none => rfl
  | some expr => simp [fragmentsOfClause, Expr.render_eq, Statement.ofFragments_eq]

/-- A number of rows is written as one placeholder, counted on by the parameters in front of it. -/
theorem textFrom_rows (bound : Nat) (keyword : String) (rows : Option UInt64) :
    Fragment.textFrom d bound
        (fragmentsOfClause d keyword (rows.map fun n => .value (Json.ofWord n))) =
      clauseText keyword (rows.map fun _ => d.placeholder bound) := by
  cases rows with
  | none => rfl
  | some n => simp [fragmentsOfClause, Expr.fragments, clauseText]

theorem binds_rows (keyword : String) (rows : Option UInt64) :
    Fragment.binds (fragmentsOfClause d keyword (rows.map fun n => .value (Json.ofWord n))) =
      rows.toList.map Json.ofWord := by
  cases rows <;> rfl

/-- The fragments of an order that may be absent. -/
def fragmentsOfOrder (d : Dialect) (order : List OrderTerm) : List Fragment :=
  if order.isEmpty then []
  else .text " ORDER BY " :: Fragment.separated ", " (fragmentsOfSorts d order)

theorem binds_order {order : List OrderTerm} (h : literalsOfSorts order = []) :
    Fragment.binds (fragmentsOfOrder d order) = [] := by
  have hbinds := params_renderOrder d order
  rw [renderOrder_eq, Statement.params_ofFragments, h] at hbinds
  rw [fragmentsOfOrder]
  split
  · rfl
  · exact hbinds

/-- An order without parameters is written alike behind any number of them, so it can be rendered by
itself and put into the statement as it is. -/
theorem textFrom_order (bound : Nat) {order : Option (List OrderTerm)} (hfilled : order ≠ some [])
    (hquiet : literalsOfSorts (order.getD []) = []) :
    Fragment.textFrom d bound (fragmentsOfOrder d (order.getD [])) =
      clauseText " ORDER BY " (order.map fun sorts => (renderOrder d sorts).sql) := by
  rw [Fragment.textFrom_of_binds_eq_nil d (binds_order hquiet) bound 0]
  match order with
  | none => rfl
  | some (first :: rest) =>
      simp [fragmentsOfOrder, clauseText, renderOrder_eq, Statement.ofFragments_eq]

end Sql

/-- The statement of a query over a table, put together from its rendered filter and order. A count
has no order and no paging; otherwise paging is bound behind the filter. -/
def Query.assemble (query : Query) (d : Dialect) (table : String)
    (filter order : Option Statement) : Statement :=
  let bound := (filter.map (·.params)).getD []
  let rows (n : Option UInt64) := n.toList.map Json.ofWord
  if query.isCount then
    ⟨"SELECT COUNT(*) FROM " ++ d.quoteName table ++ Sql.clauseText " WHERE " (filter.map (·.sql)),
      bound⟩
  else
    ⟨"SELECT * FROM " ++ d.quoteName table
        ++ Sql.clauseText " WHERE " (filter.map (·.sql))
        ++ Sql.clauseText " ORDER BY " (order.map (·.sql))
        ++ Sql.clauseText " LIMIT " (query.limit.map fun _ => d.placeholder bound.length)
        ++ Sql.clauseText " OFFSET "
          (query.offset.map fun _ => d.placeholder (bound ++ rows query.limit).length),
      bound ++ rows query.limit ++ rows query.offset⟩

namespace Query

section Rendering

variable {query : Query} {binding : TableBinding} {compiled : CompiledQuery Expr OrderTerm}

theorem render_ofCompiled_count (hcount : query.isCount) (h : compiled.isCount) (d : Dialect) :
    (Select.ofCompiled binding compiled).render d =
      query.assemble d binding.table (compiled.filter.map (·.render d))
        (compiled.order.map (Sql.renderOrder d)) := by
  have hfragments : Sql.fragmentsOfSelect d (Select.ofCompiled binding compiled) =
      .text "SELECT " :: .text "COUNT" :: .text "(" :: .text "*" :: .text ")" :: .text " FROM " ::
        .name binding.table :: Sql.fragmentsOfClause d " WHERE " compiled.filter := by
    rw [Sql.Select.ofCompiled_of_count h]
    simp [Sql.fragmentsOfSelect, Sql.fragmentsOfExprs, Sql.fragmentsOfTable, Fragment.separated,
      Expr.rowCount, Expr.fragments, Sql.fragmentsOfClause]
  rw [Sql.Clauses.render_eq, Statement.ofFragments_eq, hfragments]
  simp only [assemble, hcount, if_true, Fragment.textFrom_text, Fragment.textFrom_name,
    Fragment.binds_text, Fragment.binds_name, Sql.textFrom_condition, Sql.binds_condition,
    Option.map_map, Function.comp_def, ← String.append_assoc]
  rfl

/-- The statement of a query for rows has its condition, its order and its two numbers of rows in
this order, each where it is given. -/
theorem render_ofCompiled_rows (hcount : ¬ query.isCount) (hlimit : compiled.limit = query.limit)
    (hoffset : compiled.offset = query.offset) (h : ¬ compiled.isCount)
    (hfilled : compiled.order ≠ some [])
    (hquiet : Sql.literalsOfSorts (compiled.order.getD []) = []) (d : Dialect) :
    (Select.ofCompiled binding compiled).render d =
      query.assemble d binding.table (compiled.filter.map (·.render d))
        (compiled.order.map (Sql.renderOrder d)) := by
  have hfragments : Sql.fragmentsOfSelect d (Select.ofCompiled binding compiled) =
      .text "SELECT " :: .text "*" :: .text " FROM " :: .name binding.table ::
        (Sql.fragmentsOfClause d " WHERE " compiled.filter
          ++ Sql.fragmentsOfOrder d (compiled.order.getD [])
          ++ Sql.fragmentsOfClause d " LIMIT " (query.limit.map fun n => .value (Json.ofWord n))
          ++ Sql.fragmentsOfClause d " OFFSET "
            (query.offset.map fun n => .value (Json.ofWord n))) := by
    rw [Sql.Select.ofCompiled_of_rows h, hlimit, hoffset]
    simp [Sql.fragmentsOfSelect, Sql.fragmentsOfTable, Sql.fragmentsOfOrder]
  rw [Sql.Clauses.render_eq, Statement.ofFragments_eq, hfragments]
  simp only [assemble, if_neg hcount, Fragment.textFrom_text, Fragment.textFrom_name,
    Fragment.textFrom_append, Fragment.binds_text, Fragment.binds_name, Fragment.binds_append,
    Sql.binds_order hquiet, Sql.binds_condition " WHERE ", Sql.textFrom_condition,
    Sql.textFrom_order _ hfilled hquiet, Sql.textFrom_rows, Sql.binds_rows, List.append_nil,
    Nat.zero_add, Option.map_map, Function.comp_def, ← String.append_assoc]
  rfl

end Rendering

section Compiled

variable {κ : Type} [DecidableEq κ] {others : κ → Type}
  {scope : Scope (Sql.ExpressionsWith others)} {query : Query}

/-- The sorts of an order are columns, so they bind nothing; and an order that is there is not
empty. -/
theorem literals_order {order : Option (List OrderTerm)}
    (h : Order.compile Sql.backend (scope.resolve none Sql.backend) query.order = .ok order) :
    order ≠ some [] ∧ Sql.literalsOfSorts (order.getD []) = [] := by
  cases order with
  | none => exact ⟨nofun, rfl⟩
  | some sorts =>
      obtain ⟨-, -, -, hne⟩ := Order.compile_eq_some.mp h
      refine ⟨by simpa using hne, ?_⟩
      rw [Option.getD_some, Sql.literalsOfSorts_eq_flatMap, List.flatMap_eq_nil_iff]
      intro sort hsort
      obtain ⟨name, column, direction, -, -, rfl⟩ :=
        Order.sort_of_compile (E := Sql.ExpressionsWith others) (i := none) h hsort
      cases direction <;> rfl

/-- The statement of a compiled query over any table is put together from its filter and its order
as they are rendered by themselves. -/
theorem render_ofCompiled {compiled : CompiledQuery Expr OrderTerm}
    (h : query.compile Sql.backend (scope.resolve none Sql.backend) = .ok compiled)
    (binding : TableBinding) (d : Dialect) :
    (Select.ofCompiled binding compiled).render d =
      query.assemble d binding.table (compiled.filter.map (·.render d))
        (compiled.order.map (Sql.renderOrder d)) := by
  obtain ⟨-, horder, hlimit, hoffset, hcount⟩ := compile_eq_ok.mp h
  by_cases isCount : query.isCount
  · exact render_ofCompiled_count isCount (hcount.trans isCount) d
  · obtain ⟨hfilled, hquiet⟩ := literals_order horder
    exact render_ofCompiled_rows isCount hlimit hoffset (by rwa [hcount]) hfilled hquiet d

/-- A query compiles to what its filter and its order compile to by themselves, and fails with the
filter's error or else with the order's, whatever it asks for. Its statement over any table is put
together from the two as they are rendered by themselves. -/
theorem render_compile (scope : Scope (Sql.ExpressionsWith others)) (binding : TableBinding)
    (query : Query) :
    let r := scope.resolve none Sql.backend
    (∀ error, query.compile Sql.backend r = .error error ↔
      Filter.compile Sql.backend r query.filter = .error error ∨
        (∃ filter, Filter.compile Sql.backend r query.filter = .ok filter) ∧
          Order.compile Sql.backend r query.order = .error error) ∧
    ∀ compiled : CompiledQuery Expr OrderTerm, query.compile Sql.backend r = .ok compiled →
      Filter.compile Sql.backend r query.filter = .ok compiled.filter ∧
      Order.compile Sql.backend r query.order = .ok compiled.order ∧
      ∀ d : Dialect, (Select.ofCompiled binding compiled).render d =
        query.assemble d binding.table (compiled.filter.map (·.render d))
          (compiled.order.map (Sql.renderOrder d)) := by
  intro r
  refine ⟨fun error => compile_eq_error, fun compiled hcompiled => ?_⟩
  obtain ⟨hfilter, horder, -⟩ := compile_eq_ok.mp hcompiled
  exact ⟨hfilter, horder, fun d => render_ofCompiled hcompiled binding d⟩

/-- A page of the users with a tag, the latest in front. -/
def pageQuery : Query where
  filter := some (.obj [("tag", .str "vip"), ("$not", .arr [.obj [("name", .str "bob")]])])
  order := some (.arr [.obj [("joined", .str "DESC")], .null, .obj [("name", .str "ASC")]])
  limit := some 10
  offset := some 20

/-- The parameters are those of the condition, the number of rows and the offset, in this order; the
sorts have none. -/
theorem render_compile_page :
    let scope : Scope (Sql.ExpressionsWith Empty.elim) := ⟨"user", .taggedUsers⟩
    let r := scope.resolve none Sql.backend
    ∃ compiled : CompiledQuery Expr OrderTerm,
      pageQuery.compile Sql.backend r = .ok compiled ∧
      Filter.compile Sql.backend r pageQuery.filter = .ok compiled.filter ∧
      Order.compile Sql.backend r pageQuery.order = .ok compiled.order ∧
      ∀ d : Dialect,
        (Select.ofCompiled ⟨"users", "id"⟩ compiled).render d =
          pageQuery.assemble d "users" (compiled.filter.map (·.render d))
            (compiled.order.map (Sql.renderOrder d)) ∧
        ((Select.ofCompiled ⟨"users", "id"⟩ compiled).render d).params =
          [.str "vip", .str "bob", .num (.int 10), .num (.int 20)] := by
  intro scope r
  obtain ⟨compiled, hcompiled⟩ : ∃ compiled : CompiledQuery Expr OrderTerm,
      pageQuery.compile Sql.backend r = .ok compiled := ⟨_, rfl⟩
  obtain ⟨hfilter, horder, hrender⟩ :=
    (render_compile scope ⟨"users", "id"⟩ pageQuery).2 compiled hcompiled
  refine ⟨compiled, hcompiled, hfilter, horder, fun d => ⟨hrender d, ?_⟩⟩
  rw [Sql.Clauses.params_render]
  cases hcompiled
  rfl

end Compiled

end Query

end Criteria
