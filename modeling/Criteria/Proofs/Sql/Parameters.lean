import Mathlib.Data.List.Basic
import Criteria.Proofs.Sql.Writing

/-!
The bind parameters of a statement are the literals of the tree it is written from, each once and in
the order of the text. The dialect has no part in it.
-/

namespace Criteria.Sql

open Fragment (separated binds)

mutual

def Expr.literals : Expr → List Json
  | .column .. | .wildcard => []
  | .value value => [value]
  | .compare left _ right => left.literals ++ right.literals
  | .group _ operands => literalsOfExprs operands
  | .not operand => operand.literals
  | .inList operand values => operand.literals ++ values
  | .inSelect operand select => operand.literals ++ literalsOfSelect select
  | .subquery select => literalsOfSelect select
  | .contains target value => target.literals ++ [value]
  | .call _ args => literalsOfExprs args

def literalsOfExprs : List Expr → List Json
  | [] => []
  | expr :: rest => expr.literals ++ literalsOfExprs rest

def literalsOfClause : Option Expr → List Json
  | none => []
  | some expr => expr.literals

def literalsOfSorts : List (SortTerm Expr) → List Json
  | [] => []
  | ⟨expr, _⟩ :: rest => expr.literals ++ literalsOfSorts rest

/-- The literals of a statement: columns, condition, order, number of rows, rows passed over. -/
def literalsOfSelect : Clauses Expr → List Json
  | ⟨columns, _, filter, order, limit, offset⟩ =>
    literalsOfExprs columns ++ literalsOfClause filter ++ literalsOfSorts order
      ++ literalsOfClause limit ++ literalsOfClause offset

end

def Clauses.literals (select : Select) : List Json :=
  literalsOfSelect select

/-- The literals of several expressions are those of each, one after the other in the order in which
they are written. -/
theorem literalsOfExprs_eq_flatMap (exprs : List Expr) :
    literalsOfExprs exprs = exprs.flatMap Expr.literals := by
  induction exprs with
  | nil => rfl
  | cons expr rest ih => rw [literalsOfExprs, ih, List.flatMap_cons]

theorem literalsOfSorts_eq_flatMap (sorts : List OrderTerm) :
    literalsOfSorts sorts = sorts.flatMap (·.expr.literals) := by
  induction sorts with
  | nil => rfl
  | cons sort rest ih => rw [literalsOfSorts, ih, List.flatMap_cons]

/-- Separators bind nothing, so the values that parts bind are those of each part in turn. -/
theorem Fragment.binds_separated (separator : String) (parts : List (List Fragment)) :
    binds (separated separator parts) = parts.flatMap binds :=
  filterMap_separated rfl parts

section Parts

variable {d : Dialect}

theorem binds_fragmentsOfExprs {exprs : List Expr}
    (h : ∀ e ∈ exprs, binds (e.fragments d) = e.literals) :
    (fragmentsOfExprs d exprs).flatMap binds = literalsOfExprs exprs := by
  rw [fragmentsOfExprs_eq_map, literalsOfExprs_eq_flatMap, List.flatMap_map]
  exact List.flatMap_congr h

/-- A keyword binds nothing, and an absent clause has neither a keyword nor values. -/
theorem binds_fragmentsOfClause {clause : Option Expr}
    (h : ∀ e ∈ clause.toList, binds (e.fragments d) = e.literals) (keyword : String) :
    binds (fragmentsOfClause d keyword clause) = literalsOfClause clause := by
  cases clause with
  | none => rfl
  | some expr => exact h expr (by simp)

/-- The direction of a sort binds nothing; what an order binds comes from its expressions alone. -/
theorem binds_fragmentsOfSorts {sorts : List OrderTerm}
    (h : ∀ sort ∈ sorts, binds (sort.expr.fragments d) = sort.expr.literals) :
    (fragmentsOfSorts d sorts).flatMap binds = literalsOfSorts sorts := by
  rw [fragmentsOfSorts_eq_map, literalsOfSorts_eq_flatMap, List.flatMap_map]
  refine List.flatMap_congr fun sort hsort => ?_
  have hexpr := h sort hsort
  obtain ⟨expr, direction⟩ := sort
  simpa [fragmentsOfSort] using hexpr

/-- A statement binds what its expressions do, clause after clause. The paging stands last in the
text, so its values are bound last. -/
theorem binds_fragmentsOfSelect {select : Select}
    (h : ∀ e ∈ select.exprs, binds (e.fragments d) = e.literals) :
    binds (fragmentsOfSelect d select) = literalsOfSelect select := by
  obtain ⟨columns, table, filter, order, limit, offset⟩ := select
  simp only [Clauses.exprs, List.forall_mem_append, List.forall_mem_map] at h
  obtain ⟨⟨⟨⟨hcolumns, hfilter⟩, horder⟩, hlimit⟩, hoffset⟩ := h
  have hlist : binds (if columns.isEmpty then [.text "*"]
      else separated ", " (fragmentsOfExprs d columns)) = literalsOfExprs columns := by
    cases columns with
    | nil => rfl
    | cons first rest => simp [Fragment.binds_separated, binds_fragmentsOfExprs hcolumns]
  have htable : binds (fragmentsOfTable table) = [] := by
    cases table <;> rfl
  have hsorts : binds (if order.isEmpty then []
      else .text " ORDER BY " :: separated ", " (fragmentsOfSorts d order)) =
        literalsOfSorts order := by
    cases order with
    | nil => rfl
    | cons first rest => simp [Fragment.binds_separated, binds_fragmentsOfSorts horder]
  simp only [fragmentsOfSelect, literalsOfSelect, Fragment.binds_append, Fragment.binds_text,
    List.cons_append, hlist, htable, hsorts, binds_fragmentsOfClause hfilter,
    binds_fragmentsOfClause hlimit, binds_fragmentsOfClause hoffset, List.append_nil]

end Parts

/-- By induction on the tree, the values that an expression binds are its literals. No dialect is in
the literals, so both bind the same values in the same order. -/
theorem Expr.binds_fragments (d : Dialect) (expr : Expr) :
    binds (expr.fragments d) = expr.literals := by
  induction expr with
  | column qualifier name => cases qualifier <;> rfl
  | value value => rfl
  | compare left op right hleft hright => simp [fragments, literals, hleft, hright]
  | group op operands ih =>
      cases operands with
      | nil => rfl
      | cons first rest =>
          have hlist := binds_fragmentsOfExprs ih
          simp only [fragmentsOfExprs] at hlist
          simp [fragments, literals, Fragment.binds_separated, hlist]
  | not operand ih =>
      by_cases halone : operand.standsAlone <;> simp [fragments, literals, halone, ih]
  | inList operand values ih =>
      simp [fragments, literals, ih, Fragment.binds_separated, List.flatMap_map]
  | inSelect operand select ih hselect =>
      simp [fragments, literals, ih, binds_fragmentsOfSelect hselect]
  | subquery select ih => simp [fragments, literals, binds_fragmentsOfSelect ih]
  | contains target value ih => simp [fragments, literals, ih]
  | call name args ih =>
      simp [fragments, literals, Fragment.binds_separated, binds_fragmentsOfExprs ih]
  | wildcard => rfl

/-- The parameters of a statement that is made from scratch are what its fragments bind. -/
theorem Statement.params_ofFragments (d : Dialect) (fragments : List Fragment) :
    (ofFragments d fragments).params = binds fragments := by
  rw [ofFragments_eq]

/-- A rendered expression has its literals for parameters, each once and unchanged, from left to
right. -/
theorem Expr.params_render (d : Dialect) (expr : Expr) :
    (expr.render d).params = expr.literals := by
  rw [render_eq, Statement.params_ofFragments, binds_fragments]

/-- The same of a rendered statement: the literals of its clauses in the order of the text. -/
theorem Clauses.params_render (d : Dialect) (select : Select) :
    (select.render d).params = select.literals := by
  rw [render_eq, Statement.params_ofFragments]
  exact binds_fragmentsOfSelect fun e _ => e.binds_fragments d

theorem params_renderOrder (d : Dialect) (sorts : List OrderTerm) :
    (renderOrder d sorts).params = literalsOfSorts sorts := by
  rw [renderOrder_eq, Statement.params_ofFragments, Fragment.binds_separated]
  exact binds_fragmentsOfSorts fun sort _ => sort.expr.binds_fragments d

end Criteria.Sql
