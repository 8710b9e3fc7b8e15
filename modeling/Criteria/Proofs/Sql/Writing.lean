import Criteria.Sql.Statement

/-!
What writing does, seen as fragments: writing an expression, a sort or a `SELECT` behind a statement
appends its fragments, whatever text and parameters are there already. The target of a containment
test is no exception, although its text is put together beside the statement.
-/

namespace Criteria.Sql

open Fragment (separated textFrom binds)

@[simp]
theorem Fragment.textFrom_nil (d : Dialect) (bound : Nat) : textFrom d bound [] = "" := rfl

@[simp]
theorem Fragment.textFrom_text (d : Dialect) (bound : Nat) (s : String) (rest : List Fragment) :
    textFrom d bound (.text s :: rest) = s ++ textFrom d bound rest := by
  simp [textFrom, textsFrom]

@[simp]
theorem Fragment.textFrom_name (d : Dialect) (bound : Nat) (s : String) (rest : List Fragment) :
    textFrom d bound (.name s :: rest) = d.quoteName s ++ textFrom d bound rest := by
  simp [textFrom, textsFrom]

@[simp]
theorem Fragment.textFrom_bind (d : Dialect) (bound : Nat) (value : Json)
    (rest : List Fragment) :
    textFrom d bound (.bind value :: rest) =
      d.placeholder bound ++ textFrom d (bound + 1) rest := by
  simp [textFrom, textsFrom]

@[simp]
theorem Fragment.binds_nil : binds [] = [] := rfl

@[simp]
theorem Fragment.binds_text (s : String) (rest : List Fragment) :
    binds (.text s :: rest) = binds rest := rfl

@[simp]
theorem Fragment.binds_name (s : String) (rest : List Fragment) :
    binds (.name s :: rest) = binds rest := rfl

@[simp]
theorem Fragment.binds_bind (value : Json) (rest : List Fragment) :
    binds (.bind value :: rest) = value :: binds rest := rfl

attribute [simp] Fragment.binds_append

namespace Statement

/-- Pushing a text is writing it as a fragment. The three steps that a renderer takes are each the
writing of one fragment, so what is said of fragments holds of every renderer. -/
theorem push_text (d : Dialect) (s : Statement) (text : String) :
    s.push text = s.write d [.text text] := by
  simp [push, write, detach]

/-- A name is quoted by the dialect when its fragment is written, and not before: the fragment keeps
the bare name. -/
theorem push_quoteName (d : Dialect) (s : Statement) (name : String) :
    s.push (d.quoteName name) = s.write d [.name name] := by
  simp [push, write, detach]

/-- The placeholder of a bound value is numbered by what was bound in front of it, as the text of
its fragment is. -/
theorem bind_eq_write (d : Dialect) (s : Statement) (value : Json) :
    s.bind d value = s.write d [.bind value] := by
  simp [bind, reserve, push, write, detach]

@[simp]
theorem write_nil (d : Dialect) (s : Statement) : s.write d [] = s := by
  simp [write, detach, push]

/-- Values are bound one by one with commas between them. The empty list writes nothing, and an
empty list of values does not reach it from a compiled filter. -/
theorem bindAll_eq_write (d : Dialect) (s : Statement) (values : List Json) :
    s.bindAll d values =
      s.write d (separated ", " (values.map fun value => [.bind value])) := by
  induction values generalizing s with
  | nil => simp [bindAll, separated]
  | cons value rest ih =>
      cases rest with
      | nil => simp [bindAll, separated, bind_eq_write]
      | cons second rest =>
          rw [bindAll, ih, bind_eq_write, push_text d, write_write, write_write]
          · simp [separated]
          · simp

theorem pushTable_eq_write (d : Dialect) (s : Statement) (table : Option String) :
    s.pushTable d table = s.write d (fragmentsOfTable table) := by
  cases table with
  | none => simp [pushTable, fragmentsOfTable]
  | some table =>
      rw [pushTable, push_quoteName, push_text d, write_write]
      rfl

/-- A writer that appends fragments does so also beside a statement: it binds their values there,
and their text comes back instead of being written. -/
theorem aside_eq_detach (d : Dialect) (s : Statement) (writer : Statement → Statement)
    (fragments : List Fragment) (h : ∀ s, writer s = s.write d fragments) :
    s.aside writer = s.detach d fragments := by
  simp [aside, h, write, detach, push]

end Statement

/-- What is done to every fragment is done part by part, as long as it leaves the separators
alone. -/
theorem Fragment.map_separated {f : Fragment → Fragment} {separator : String}
    (hf : f (.text separator) = .text separator) (parts : List (List Fragment)) :
    (separated separator parts).map f = separated separator (parts.map (List.map f)) := by
  induction parts with
  | nil => rfl
  | cons part rest ih =>
      cases rest with
      | nil => rfl
      | cons second rest => simp_all [separated]

/-- What is read off the fragments is read off part by part, as long as the separators say
nothing. -/
theorem Fragment.filterMap_separated {β : Type} {g : Fragment → Option β} {separator : String}
    (hg : g (.text separator) = none) (parts : List (List Fragment)) :
    (separated separator parts).filterMap g = parts.flatMap (List.filterMap g) := by
  induction parts with
  | nil => rfl
  | cons part rest ih =>
      cases rest with
      | nil => simp [separated]
      | cons second rest => simp_all [separated]

theorem fragmentsOfExprs_eq_map (d : Dialect) (exprs : List Expr) :
    fragmentsOfExprs d exprs = exprs.map (Expr.fragments d) := by
  induction exprs with
  | nil => rfl
  | cons expr rest ih => rw [fragmentsOfExprs, ih, List.map_cons]

theorem fragmentsOfSorts_eq_map (d : Dialect) (sorts : List OrderTerm) :
    fragmentsOfSorts d sorts = sorts.map (fragmentsOfSort d) := by
  induction sorts with
  | nil => rfl
  | cons sort rest ih => rw [fragmentsOfSorts, ih, List.map_cons]

/-- An expression is written as its fragments, behind any statement. -/
def Expr.WrittenAs (d : Dialect) (expr : Expr) : Prop :=
  ∀ s : Statement, expr.write d s = s.write d (expr.fragments d)

section Parts

variable {d : Dialect}

/-- Expressions with a separator between them are written as the fragments of each, given that each
by itself is. -/
theorem writeExprs_eq {exprs : List Expr} (h : ∀ e ∈ exprs, e.WrittenAs d) (separator : String)
    (s : Statement) :
    writeExprs d separator s exprs =
      s.write d (separated separator (fragmentsOfExprs d exprs)) := by
  induction exprs generalizing s with
  | nil => simp [writeExprs, fragmentsOfExprs, separated]
  | cons expr rest ih =>
      have hexpr := h expr (by simp)
      cases rest with
      | nil => simp [writeExprs, fragmentsOfExprs, separated, hexpr s]
      | cons second rest =>
          rw [writeExprs, ih (fun e he => h e (by simp [he])), hexpr s, Statement.push_text d,
            Statement.write_write, Statement.write_write]
          · simp [fragmentsOfExprs, separated]
          · simp

/-- An absent clause writes nothing, its keyword included; a clause that is there writes the keyword
in front of its expression. -/
theorem writeClause_eq {clause : Option Expr} (h : ∀ e ∈ clause.toList, e.WrittenAs d)
    (keyword : String) (s : Statement) :
    writeClause d keyword s clause = s.write d (fragmentsOfClause d keyword clause) := by
  cases clause with
  | none => simp [writeClause, fragmentsOfClause]
  | some expr =>
      have hexpr := h expr (by simp)
      rw [writeClause, fragmentsOfClause, hexpr, Statement.push_text d, Statement.write_write]
      rfl

/-- The direction stands behind the expression in either case, also where it is the one that SQL
would assume. -/
theorem writeSort_eq {sort : OrderTerm} (h : sort.expr.WrittenAs d) (s : Statement) :
    writeSort d s sort = s.write d (fragmentsOfSort d sort) := by
  obtain ⟨expr, direction⟩ := sort
  rw [writeSort, fragmentsOfSort, h s, Statement.push_text d, Statement.write_write]

/-- Sorts are written in their order, with commas between them and each with its direction. -/
theorem writeSorts_eq {sorts : List OrderTerm} (h : ∀ sort ∈ sorts, sort.expr.WrittenAs d)
    (s : Statement) :
    writeSorts d s sorts = s.write d (separated ", " (fragmentsOfSorts d sorts)) := by
  induction sorts generalizing s with
  | nil => simp [writeSorts, fragmentsOfSorts, separated]
  | cons sort rest ih =>
      have hsort := writeSort_eq (h sort (by simp)) s
      cases rest with
      | nil => simp [writeSorts, fragmentsOfSorts, separated, hsort]
      | cons second rest =>
          rw [writeSorts, ih (fun e he => h e (by simp [he])), hsort, Statement.push_text d,
            Statement.write_write, Statement.write_write]
          · simp [fragmentsOfSorts, separated]
          · simp

/-- The clauses of a statement are written one after the other in the order of SQL. Only the
expressions right in them matter here, so that it serves for subqueries inside the induction on
trees. -/
theorem writeSelect_eq {select : Select} (h : ∀ e ∈ select.exprs, e.WrittenAs d)
    (s : Statement) :
    writeSelect d s select = s.write d (fragmentsOfSelect d select) := by
  obtain ⟨columns, table, filter, order, limit, offset⟩ := select
  simp only [Clauses.exprs, List.forall_mem_append, List.forall_mem_map] at h
  obtain ⟨⟨⟨⟨hcolumns, hfilter⟩, horder⟩, hlimit⟩, hoffset⟩ := h
  have hlist (s : Statement) :
      (if columns.isEmpty then s.push "*" else writeExprs d ", " s columns) =
        s.write d (if columns.isEmpty then [.text "*"]
          else separated ", " (fragmentsOfExprs d columns)) := by
    split
    · exact Statement.push_text d s "*"
    · exact writeExprs_eq hcolumns ", " s
  have hsorts (s : Statement) :
      (if order.isEmpty then s else writeSorts d (s.push " ORDER BY ") order) =
        s.write d (if order.isEmpty then []
          else .text " ORDER BY " :: separated ", " (fragmentsOfSorts d order)) := by
    split
    · exact (Statement.write_nil d s).symm
    · rw [writeSorts_eq horder, Statement.push_text d, Statement.write_write]
      rfl
  simp only [writeSelect, fragmentsOfSelect, Statement.push_text d s "SELECT ", hlist, hsorts,
    Statement.pushTable_eq_write, writeClause_eq hfilter, writeClause_eq hlimit,
    writeClause_eq hoffset, Statement.write_write]
  simp

end Parts

/-- By induction on the tree, whatever statement it is written behind: writing an expression appends
its fragments. A containment test is the one case that writes its target aside and puts the text in
afterwards. -/
theorem Expr.writtenAs (d : Dialect) (expr : Expr) : expr.WrittenAs d := by
  intro s
  induction expr generalizing s with
  | column qualifier name =>
      cases qualifier with
      | none => exact Statement.push_quoteName d s name
      | some qualifier =>
          simp [Expr.write, Expr.fragments, Statement.push_quoteName, Statement.push_text d _ ".",
            Statement.write_write]
  | value value => exact Statement.bind_eq_write d s value
  | compare left op right hleft hright =>
      simp [Expr.write, Expr.fragments, hleft, hright, Statement.push_text d,
        Statement.write_write]
  | group op operands ih =>
      cases operands with
      | nil => exact Statement.push_text d s op.unit
      | cons first rest =>
          simp [Expr.write, Expr.fragments, writeExprs_eq ih, fragmentsOfExprs,
            Statement.push_text d, Statement.write_write]
  | not operand ih =>
      by_cases halone : operand.standsAlone
      · simp [Expr.write, Expr.fragments, halone, ih, Statement.push_text d,
          Statement.write_write]
      · simp [Expr.write, Expr.fragments, halone, ih, Statement.push_text d,
          Statement.write_write]
  | inList operand values ih =>
      simp [Expr.write, Expr.fragments, ih, Statement.bindAll_eq_write, Statement.push_text d,
        Statement.write_write]
  | inSelect operand select ih hselect =>
      simp [Expr.write, Expr.fragments, ih, writeSelect_eq hselect, Statement.push_text d,
        Statement.write_write]
  | subquery select ih =>
      simp [Expr.write, Expr.fragments, writeSelect_eq ih, Statement.push_text d,
        Statement.write_write]
  | contains target value ih =>
      have hbeside := Statement.aside_eq_detach d s (fun s => target.write d s) _ ih
      simp [Expr.write, Expr.fragments, hbeside, Statement.detach, Statement.reserve,
        Statement.push, Statement.write, Dialect.containment, Fragment.textFrom_append,
        String.append_assoc]
  | call name args ih =>
      simp [Expr.write, Expr.fragments, writeExprs_eq ih, Statement.push_text d,
        Statement.write_write]
  | wildcard => exact Statement.push_text d s "*"

/-- From scratch the placeholders are numbered from the first, and nothing but the fragments is
there. -/
theorem Statement.ofFragments_eq (d : Dialect) (fragments : List Fragment) :
    ofFragments d fragments = ⟨textFrom d 0 fragments, binds fragments⟩ := by
  simp [ofFragments, write, detach, push, empty]

/-- What is rendered from scratch is made of the fragments of the tree, and everything that is said
of rendered text is proved of these. -/
theorem Expr.render_eq (d : Dialect) (expr : Expr) :
    expr.render d = .ofFragments d (expr.fragments d) :=
  expr.writtenAs d .empty

/-- The same of a statement. A subquery in it is made of fragments too, so its placeholders count
on. -/
theorem Clauses.render_eq (d : Dialect) (select : Select) :
    select.render d = .ofFragments d (fragmentsOfSelect d select) :=
  writeSelect_eq (fun e _ => e.writtenAs d) .empty

/-- A statement in parentheses says what the statement says, and binds the same, so statements are
told apart as subqueries are. -/
theorem Expr.render_subquery (d : Dialect) (select : Select) :
    (Expr.subquery select).render d =
      ⟨"(" ++ (select.render d).sql ++ ")", (select.render d).params⟩ := by
  rw [Expr.render_eq, Clauses.render_eq, Expr.fragments]
  simp [Statement.ofFragments_eq, Fragment.textFrom_append, Fragment.binds_append,
    String.append_assoc]

/-- The body of an order is made of the fragments of its sorts, without the keyword in front. -/
theorem renderOrder_eq (d : Dialect) (sorts : List OrderTerm) :
    renderOrder d sorts = .ofFragments d (separated ", " (fragmentsOfSorts d sorts)) :=
  writeSorts_eq (fun sort _ => sort.expr.writtenAs d) .empty

end Criteria.Sql
