import Criteria.Proofs.Sql.Lexing

/-!
How fragments are put together. Names and values stand by themselves, and a fixed text joins what is
in front of it to what is behind. A property that passes over such joints holds of all that is
written, whatever the tree is; only the names of functions are written as they come, and have to be
looked at on their own.
-/

namespace Criteria.Sql

open Fragment (Clear separated)

/-- A function's name has the property. -/
def Expr.Calls (p : String → Prop) : Expr → Prop
  | .call name _ => p name
  | _ => True

/-- The operators of comparisons stand between spaces, so they neither open nor continue a name or a
placeholder. -/
theorem clear_comparison (d : Dialect) (op : Comparison) : Clear d (" " ++ op.text ++ " ") := by
  cases d <;> cases op <;> decide

theorem clear_connective (d : Dialect) (op : Connective) : Clear d (" " ++ op.text ++ " ") := by
  cases d <;> cases op <;> decide

/-- A property of fragments that single names and values have, and that passes over the fixed texts
between them. -/
structure Fragment.Joins (d : Dialect) (P : List Fragment → Prop) : Prop where
  nil : P []
  name : ∀ s, P [.name s]
  bind : ∀ value, P [.bind value]
  join : ∀ {front behind s}, P front → Clear d s → P behind → P (front ++ .text s :: behind)

namespace Fragment.Joins

variable {d : Dialect} {P : List Fragment → Prop} (hP : Joins d P)

include hP

/-- A clear text in front keeps the property, and so it does behind. -/
theorem text {s : String} (hs : Clear d s) {behind : List Fragment} (hbehind : P behind) :
    P (.text s :: behind) :=
  hP.join hP.nil hs hbehind

theorem close {front : List Fragment} (hfront : P front) {s : String} (hs : Clear d s) :
    P (front ++ [.text s]) :=
  hP.join hfront hs hP.nil

/-- Parts that have the property have it together, with a clear separator between them. -/
theorem separated {parts : List (List Fragment)} {separator : String}
    (hparts : ∀ part ∈ parts, P part) (hs : Clear d separator) :
    P (separated separator parts) := by
  induction parts with
  | nil => exact hP.nil
  | cons part rest ih =>
      have hpart := hparts part (by simp)
      cases rest with
      | nil => exact hpart
      | cons second rest =>
          exact hP.join hpart hs (ih fun part hpart => hparts part (by simp [hpart]))

omit hP in
theorem fragmentsOfExprs {exprs : List Expr} (h : ∀ e ∈ exprs, P (e.fragments d)) :
    ∀ part ∈ fragmentsOfExprs d exprs, P part := by
  simpa [fragmentsOfExprs_eq_map] using h

theorem fragmentsOfSorts {sorts : List OrderTerm} (h : ∀ sort ∈ sorts, P (sort.expr.fragments d)) :
    ∀ part ∈ fragmentsOfSorts d sorts, P part := by
  rw [fragmentsOfSorts_eq_map, List.forall_mem_map]
  rintro ⟨expr, direction⟩ hsort
  have hdirection : Clear d (" " ++ directionText direction) := by
    cases d <;> cases direction <;> decide
  exact hP.close (h _ hsort) hdirection

section Clauses

variable {front : List Fragment} (hfront : P front)

include hfront

theorem table (table : Option String) : P (front ++ fragmentsOfTable table) := by
  cases table with
  | none => simpa [fragmentsOfTable] using hfront
  | some table => exact hP.join hfront (by cases d <;> decide) (hP.name table)

/-- A clause is appended behind its keyword, or is absent and appends nothing; the property is kept
in both cases. -/
theorem clause {clause : Option Expr} (h : ∀ e ∈ clause.toList, P (e.fragments d))
    (keyword : String) (hkeyword : Clear d keyword) :
    P (front ++ fragmentsOfClause d keyword clause) := by
  cases clause with
  | none => simpa [fragmentsOfClause] using hfront
  | some expr => exact hP.join hfront hkeyword (h expr (by simp))

theorem order {sorts : List OrderTerm} (h : ∀ sort ∈ sorts, P (sort.expr.fragments d)) :
    P (front ++ (if sorts.isEmpty then []
      else .text " ORDER BY " :: Fragment.separated ", " (Sql.fragmentsOfSorts d sorts))) := by
  have hcomma : Clear d ", " := by cases d <;> decide
  split
  · rwa [List.append_nil]
  · exact hP.join hfront (by cases d <;> decide) (hP.separated (hP.fragmentsOfSorts h) hcomma)

end Clauses

/-- The property of every expression right in a statement carries over to the statement, clause by
clause. -/
theorem fragmentsOfSelect {select : Select} (h : ∀ e ∈ select.exprs, P (e.fragments d)) :
    P (fragmentsOfSelect d select) := by
  obtain ⟨columns, table, filter, order, limit, offset⟩ := select
  simp only [Clauses.exprs, List.forall_mem_append, List.forall_mem_map] at h
  obtain ⟨⟨⟨⟨hcolumns, hfilter⟩, horder⟩, hlimit⟩, hoffset⟩ := h
  have hlist : P (if columns.isEmpty then [.text "*"]
      else Fragment.separated ", " (Sql.fragmentsOfExprs d columns)) := by
    split
    · exact hP.text (by cases d <;> decide) hP.nil
    · exact hP.separated (fragmentsOfExprs hcolumns) (by cases d <;> decide)
  have hselect : Clear d "SELECT " := by cases d <;> decide
  have hfrom := hP.table (hP.text hselect hlist) table
  have hwhere := hP.clause hfrom hfilter " WHERE " (by cases d <;> decide)
  have hsorts := hP.order hwhere horder
  have hrows := hP.clause hsorts hlimit " LIMIT " (by cases d <;> decide)
  exact hP.clause hrows hoffset " OFFSET " (by cases d <;> decide)

/-- The property holds of a tree as soon as it passes over the names of its functions, which are the
only texts in it that the program does not choose. -/
theorem fragments {p : String → Prop}
    (hcall : ∀ {name behind}, p name → P behind → P (.text name :: .text "(" :: behind))
    {expr : Expr} (h : expr.Everywhere (Expr.Calls p)) : P (expr.fragments d) := by
  have hopen : Clear d "(" := by cases d <;> decide
  have hclose : Clear d ")" := by cases d <;> decide
  have hcloses : Clear d "))" := by cases d <;> decide
  have hin : Clear d " IN (" := by cases d <;> decide
  have hcomma : Clear d ", " := by cases d <;> decide
  induction expr with
  | column qualifier name =>
      cases qualifier with
      | none => exact hP.name name
      | some qualifier =>
          exact hP.join (hP.name qualifier) (by cases d <;> decide) (hP.name name)
  | value value => exact hP.bind value
  | compare left op right hleft hright =>
      have hleft := hleft (h.inside left (by simp [Expr.children]))
      have hright := hright (h.inside right (by simp [Expr.children]))
      exact hP.close (hP.join (hP.text hopen hleft) (clear_comparison d op) hright) hclose
  | group op operands ih =>
      have hparts := fragmentsOfExprs fun e he => ih e he (h.inside e he)
      cases operands with
      | nil => exact hP.text (by cases d <;> cases op <;> decide) hP.nil
      | cons first rest =>
          exact hP.close (hP.text hopen (hP.separated hparts (clear_connective d op))) hclose
  | not operand ih =>
      have hoperand := ih (h.inside operand (by simp [Expr.children]))
      have hnot : Clear d "NOT " := by cases d <;> decide
      rw [Expr.fragments]
      split
      · exact hP.text hnot hoperand
      · exact hP.close (hP.text hnot (hP.text hopen hoperand)) hclose
  | inList operand values ih =>
      have hoperand := ih (h.inside operand (by simp [Expr.children]))
      have hvalues : ∀ part ∈ values.map fun value => [Fragment.bind value], P part := by
        rw [List.forall_mem_map]
        exact fun value _ => hP.bind value
      exact hP.close (hP.join (hP.text hopen hoperand) hin (hP.separated hvalues hcomma)) hcloses
  | inSelect operand select ih hselect =>
      have hoperand := ih (h.inside operand (by simp [Expr.children]))
      have hrows := hP.fragmentsOfSelect fun e he =>
        hselect e he (h.inside e (by simp [Expr.children, he]))
      exact hP.close (hP.join (hP.text hopen hoperand) hin hrows) hcloses
  | subquery select ih =>
      have hrows := hP.fragmentsOfSelect fun e he => ih e he (h.inside e he)
      exact hP.close (hP.text hopen hrows) hclose
  | contains target value ih =>
      have htarget := ih (h.inside target (by simp [Expr.children]))
      have hopening : Clear d d.containsOpening := by cases d <;> decide
      have hseparator : Clear d d.containsSeparator := by cases d <;> decide
      exact hP.join (hP.text hopening htarget) hseparator (hP.close (hP.bind value) hclose)
  | call name args ih =>
      have hparts := fragmentsOfExprs fun e he => ih e he (h.inside e he)
      exact hP.close (hcall h.here (hP.separated hparts hcomma)) hclose
  | wildcard => exact hP.text (by cases d <;> decide) hP.nil

end Fragment.Joins

end Criteria.Sql
