import Mathlib.Data.List.Basic
import Criteria.Proofs.Sql.Writing

/-!
The names of columns and tables in a tree, in the order of the text, and their replacement by
others. The fragments that a tree is written in carry the same names, and follow every renaming.
-/

namespace Criteria.Sql

open Fragment (separated)

mutual

/-- The names that are written in quotes: the qualifier in front of the column. -/
def Expr.names : Expr → List String
  | .column qualifier name => qualifier.toList ++ [name]
  | .value _ | .wildcard => []
  | .compare left _ right => left.names ++ right.names
  | .group _ operands => namesOfExprs operands
  | .not operand | .inList operand _ | .contains operand _ => operand.names
  | .inSelect operand select => operand.names ++ namesOfSelect select
  | .subquery select => namesOfSelect select
  | .call _ args => namesOfExprs args

def namesOfExprs : List Expr → List String
  | [] => []
  | expr :: rest => expr.names ++ namesOfExprs rest

def namesOfClause : Option Expr → List String
  | none => []
  | some expr => expr.names

def namesOfSorts : List (SortTerm Expr) → List String
  | [] => []
  | ⟨expr, _⟩ :: rest => expr.names ++ namesOfSorts rest

/-- The names of a statement: columns, table, condition, order, number of rows, rows passed over. -/
def namesOfSelect : Clauses Expr → List String
  | ⟨columns, table, filter, order, limit, offset⟩ =>
    namesOfExprs columns ++ table.toList ++ namesOfClause filter ++ namesOfSorts order
      ++ namesOfClause limit ++ namesOfClause offset

end

def Clauses.names (select : Select) : List String :=
  namesOfSelect select

mutual

/-- The expression with other names for its columns and tables. Functions keep their names. -/
def Expr.rename (f : String → String) : Expr → Expr
  | .column qualifier name => .column (qualifier.map f) (f name)
  | .value value => .value value
  | .compare left op right => .compare (left.rename f) op (right.rename f)
  | .group op operands => .group op (renameExprs f operands)
  | .not operand => .not (operand.rename f)
  | .inList operand values => .inList (operand.rename f) values
  | .inSelect operand select => .inSelect (operand.rename f) (renameSelect f select)
  | .subquery select => .subquery (renameSelect f select)
  | .contains target value => .contains (target.rename f) value
  | .call name args => .call name (renameExprs f args)
  | .wildcard => .wildcard

def renameExprs (f : String → String) : List Expr → List Expr
  | [] => []
  | expr :: rest => expr.rename f :: renameExprs f rest

def renameClause (f : String → String) : Option Expr → Option Expr
  | none => none
  | some expr => some (expr.rename f)

def renameSorts (f : String → String) : List (SortTerm Expr) → List (SortTerm Expr)
  | [] => []
  | ⟨expr, direction⟩ :: rest => ⟨expr.rename f, direction⟩ :: renameSorts f rest

def renameSelect (f : String → String) : Clauses Expr → Clauses Expr
  | ⟨columns, table, filter, order, limit, offset⟩ =>
    ⟨renameExprs f columns, table.map f, renameClause f filter, renameSorts f order,
      renameClause f limit, renameClause f offset⟩

end

def Clauses.rename (f : String → String) (select : Select) : Select :=
  renameSelect f select

/-- The names of several expressions are those of each, one after the other in the order in which
they are written. -/
theorem namesOfExprs_eq_flatMap (exprs : List Expr) :
    namesOfExprs exprs = exprs.flatMap Expr.names := by
  induction exprs with
  | nil => rfl
  | cons expr rest ih => rw [namesOfExprs, ih, List.flatMap_cons]

theorem namesOfSorts_eq_flatMap (sorts : List OrderTerm) :
    namesOfSorts sorts = sorts.flatMap (·.expr.names) := by
  induction sorts with
  | nil => rfl
  | cons sort rest ih => rw [namesOfSorts, ih, List.flatMap_cons]

theorem renameExprs_eq_map (f : String → String) (exprs : List Expr) :
    renameExprs f exprs = exprs.map (Expr.rename f) := by
  induction exprs with
  | nil => rfl
  | cons expr rest ih => rw [renameExprs, ih, List.map_cons]

namespace Fragment

def name? : Fragment → Option String
  | .name s => some s
  | _ => none

def names (fragments : List Fragment) : List String :=
  fragments.filterMap name?

def rename (f : String → String) : Fragment → Fragment
  | .name s => .name (f s)
  | other => other

@[simp]
theorem names_nil : names [] = [] := rfl

@[simp]
theorem names_text (s : String) (rest : List Fragment) : names (.text s :: rest) = names rest := rfl

@[simp]
theorem names_name (s : String) (rest : List Fragment) :
    names (.name s :: rest) = s :: names rest := rfl

@[simp]
theorem names_bind (value : Json) (rest : List Fragment) :
    names (.bind value :: rest) = names rest := rfl

@[simp]
theorem names_append (first second : List Fragment) :
    names (first ++ second) = names first ++ names second :=
  List.filterMap_append

/-- Separators hold no names, so the names of parts are those of each part in turn. -/
theorem names_separated (separator : String) (parts : List (List Fragment)) :
    names (separated separator parts) = parts.flatMap names :=
  filterMap_separated rfl parts

@[simp]
theorem rename_text (f : String → String) (s : String) : rename f (.text s) = .text s := rfl

@[simp]
theorem rename_name (f : String → String) (s : String) : rename f (.name s) = .name (f s) := rfl

@[simp]
theorem rename_bind (f : String → String) (value : Json) : rename f (.bind value) = .bind value :=
  rfl

theorem map_rename_separated (f : String → String) (separator : String)
    (parts : List (List Fragment)) :
    (separated separator parts).map (rename f) =
      separated separator (parts.map (List.map (rename f))) :=
  map_separated rfl parts

theorem map_rename_id (fragments : List Fragment) : fragments.map (rename id) = fragments := by
  have hid : rename id = id := by
    funext fragment
    cases fragment <;> rfl
  rw [hid, List.map_id]

/-- Renaming changes each name in its own place and leaves their number and their order alone. -/
theorem names_map_rename (f : String → String) (fragments : List Fragment) :
    names (fragments.map (rename f)) = (names fragments).map f := by
  induction fragments with
  | nil => rfl
  | cons fragment rest ih => cases fragment <;> simp [ih]

end Fragment

section Parts

variable {d : Dialect}

theorem names_fragmentsOfExprs {exprs : List Expr}
    (h : ∀ e ∈ exprs, Fragment.names (e.fragments d) = e.names) :
    (fragmentsOfExprs d exprs).flatMap Fragment.names = namesOfExprs exprs := by
  rw [fragmentsOfExprs_eq_map, namesOfExprs_eq_flatMap, List.flatMap_map]
  exact List.flatMap_congr h

/-- A clause writes its keyword and then its expression, so its names are those of the
expression. -/
theorem names_fragmentsOfClause {clause : Option Expr}
    (h : ∀ e ∈ clause.toList, Fragment.names (e.fragments d) = e.names) (keyword : String) :
    Fragment.names (fragmentsOfClause d keyword clause) = namesOfClause clause := by
  cases clause with
  | none => rfl
  | some expr => exact h expr (by simp)

theorem names_fragmentsOfSorts {sorts : List OrderTerm}
    (h : ∀ sort ∈ sorts, Fragment.names (sort.expr.fragments d) = sort.expr.names) :
    (fragmentsOfSorts d sorts).flatMap Fragment.names = namesOfSorts sorts := by
  rw [fragmentsOfSorts_eq_map, namesOfSorts_eq_flatMap, List.flatMap_map]
  refine List.flatMap_congr fun sort hsort => ?_
  have hexpr := h sort hsort
  obtain ⟨expr, direction⟩ := sort
  simpa [fragmentsOfSort] using hexpr

/-- A statement shows the names of its clauses in the order of the text: those of its columns, of
its table, and then those of the other clauses. -/
theorem names_fragmentsOfSelect {select : Select}
    (h : ∀ e ∈ select.exprs, Fragment.names (e.fragments d) = e.names) :
    Fragment.names (fragmentsOfSelect d select) = select.names := by
  obtain ⟨columns, table, filter, order, limit, offset⟩ := select
  simp only [Clauses.exprs, List.forall_mem_append, List.forall_mem_map] at h
  obtain ⟨⟨⟨⟨hcolumns, hfilter⟩, horder⟩, hlimit⟩, hoffset⟩ := h
  have hlist : Fragment.names (if columns.isEmpty then [.text "*"]
      else separated ", " (fragmentsOfExprs d columns)) = namesOfExprs columns := by
    cases columns with
    | nil => rfl
    | cons first rest => simp [Fragment.names_separated, names_fragmentsOfExprs hcolumns]
  have htable : Fragment.names (fragmentsOfTable table) = table.toList := by
    cases table <;> rfl
  have hsorts : Fragment.names (if order.isEmpty then []
      else .text " ORDER BY " :: separated ", " (fragmentsOfSorts d order)) =
        namesOfSorts order := by
    cases order with
    | nil => rfl
    | cons first rest => simp [Fragment.names_separated, names_fragmentsOfSorts horder]
  simp only [fragmentsOfSelect, Clauses.names, namesOfSelect, Fragment.names_append,
    Fragment.names_text, List.cons_append, hlist, htable, hsorts, names_fragmentsOfClause hfilter,
    names_fragmentsOfClause hlimit, names_fragmentsOfClause hoffset]

end Parts

/-- By induction on the tree, the names in its fragments are the names of the tree, from left to
right. The names of functions are text and do not count. -/
theorem Expr.names_fragments (d : Dialect) (expr : Expr) :
    Fragment.names (expr.fragments d) = expr.names := by
  induction expr with
  | column qualifier name => cases qualifier <;> rfl
  | value value => rfl
  | compare left op right hleft hright => simp [fragments, names, hleft, hright]
  | group op operands ih =>
      cases operands with
      | nil => rfl
      | cons first rest =>
          have hlist := names_fragmentsOfExprs ih
          simp only [fragmentsOfExprs] at hlist
          simp [fragments, names, Fragment.names_separated, hlist]
  | not operand ih =>
      by_cases halone : operand.standsAlone <;> simp [fragments, names, halone, ih]
  | inList operand values ih =>
      simp [fragments, names, ih, Fragment.names_separated, List.flatMap_map]
  | inSelect operand select ih hselect =>
      simp [fragments, names, ih, names_fragmentsOfSelect hselect, Clauses.names]
  | subquery select ih => simp [fragments, names, names_fragmentsOfSelect ih, Clauses.names]
  | contains target value ih => simp [fragments, names, ih]
  | call name args ih =>
      simp [fragments, names, Fragment.names_separated, names_fragmentsOfExprs ih]
  | wildcard => rfl

section Parts

variable {d : Dialect} {f : String → String}

/-- The fragments of an expression follow the renaming. -/
abbrev Expr.Follows (d : Dialect) (f : String → String) (expr : Expr) : Prop :=
  (expr.rename f).fragments d = (expr.fragments d).map (Fragment.rename f)

theorem fragmentsOfExprs_rename {exprs : List Expr} (h : ∀ e ∈ exprs, e.Follows d f) :
    fragmentsOfExprs d (renameExprs f exprs) =
      (fragmentsOfExprs d exprs).map (List.map (Fragment.rename f)) := by
  rw [renameExprs_eq_map, fragmentsOfExprs_eq_map, fragmentsOfExprs_eq_map, List.map_map,
    List.map_map]
  exact List.map_congr_left h

theorem fragmentsOfClause_rename {clause : Option Expr} (h : ∀ e ∈ clause.toList, e.Follows d f)
    (keyword : String) :
    fragmentsOfClause d keyword (renameClause f clause) =
      (fragmentsOfClause d keyword clause).map (Fragment.rename f) := by
  cases clause with
  | none => rfl
  | some expr =>
      have hexpr := h expr (by simp)
      simp [fragmentsOfClause, renameClause, hexpr]

theorem fragmentsOfSorts_rename {sorts : List OrderTerm}
    (h : ∀ sort ∈ sorts, sort.expr.Follows d f) :
    fragmentsOfSorts d (renameSorts f sorts) =
      (fragmentsOfSorts d sorts).map (List.map (Fragment.rename f)) := by
  induction sorts with
  | nil => rfl
  | cons sort rest ih =>
      obtain ⟨expr, direction⟩ := sort
      have hexpr := h ⟨expr, direction⟩ (by simp)
      have hrest := ih fun sort hsort => h sort (by simp [hsort])
      simp [fragmentsOfSorts, fragmentsOfSort, renameSorts, hexpr, hrest]

/-- A renamed statement is written as the statement is with the names in its fragments changed,
given that its expressions are. -/
theorem fragmentsOfSelect_rename {select : Select} (h : ∀ e ∈ select.exprs, e.Follows d f) :
    fragmentsOfSelect d (select.rename f) =
      (fragmentsOfSelect d select).map (Fragment.rename f) := by
  obtain ⟨columns, table, filter, order, limit, offset⟩ := select
  simp only [Clauses.exprs, List.forall_mem_append, List.forall_mem_map] at h
  obtain ⟨⟨⟨⟨hcolumns, hfilter⟩, horder⟩, hlimit⟩, hoffset⟩ := h
  have hlist : (if (renameExprs f columns).isEmpty then [.text "*"]
      else separated ", " (fragmentsOfExprs d (renameExprs f columns))) =
        (if columns.isEmpty then [.text "*"]
          else separated ", " (fragmentsOfExprs d columns)).map (Fragment.rename f) := by
    rw [fragmentsOfExprs_rename hcolumns, ← Fragment.map_rename_separated]
    cases columns <;> rfl
  have htable : fragmentsOfTable (table.map f) =
      (fragmentsOfTable table).map (Fragment.rename f) := by
    cases table <;> rfl
  have hsorts : (if (renameSorts f order).isEmpty then []
      else .text " ORDER BY " :: separated ", " (fragmentsOfSorts d (renameSorts f order))) =
        (if order.isEmpty then []
          else .text " ORDER BY " :: separated ", " (fragmentsOfSorts d order)).map
            (Fragment.rename f) := by
    rw [fragmentsOfSorts_rename horder, ← Fragment.map_rename_separated]
    cases order <;> rfl
  simp only [fragmentsOfSelect, Clauses.rename, renameSelect, hlist, htable, hsorts,
    fragmentsOfClause_rename hfilter, fragmentsOfClause_rename hlimit,
    fragmentsOfClause_rename hoffset, List.map_append, List.map_cons, Fragment.rename_text]

end Parts

/-- Renaming an operand does not change whether it is put in parentheses under a negation. -/
theorem Expr.standsAlone_rename (f : String → String) (expr : Expr) :
    (expr.rename f).standsAlone = expr.standsAlone := by
  cases expr <;> rfl

/-- Renamed before it is written or after: the fragments are the same. So nothing outside the quoted
names of a text depends on what the names are. -/
theorem Expr.fragments_rename (d : Dialect) (f : String → String) (expr : Expr) :
    expr.Follows d f := by
  induction expr with
  | column qualifier name => cases qualifier <;> rfl
  | value value => rfl
  | compare left op right hleft hright =>
      simp [Follows, fragments, rename, hleft, hright]
  | group op operands ih =>
      cases operands with
      | nil => rfl
      | cons first rest =>
          have hlist := fragmentsOfExprs_rename ih
          simp only [renameExprs, fragmentsOfExprs, List.map_cons] at hlist
          simp [Follows, fragments, rename, renameExprs, Fragment.map_rename_separated, hlist]
  | not operand ih =>
      by_cases halone : operand.standsAlone <;>
        simp [Follows, fragments, rename, standsAlone_rename, halone, ih]
  | inList operand values ih =>
      simp [Follows, fragments, rename, ih, Fragment.map_rename_separated, Function.comp_def]
  | inSelect operand select ih hselect =>
      have hrows := fragmentsOfSelect_rename hselect
      simp only [Clauses.rename] at hrows
      simp [Follows, fragments, rename, ih, hrows]
  | subquery select ih =>
      have hrows := fragmentsOfSelect_rename ih
      simp only [Clauses.rename] at hrows
      simp [Follows, fragments, rename, hrows]
  | contains target value ih => simp [Follows, fragments, rename, ih]
  | call name args ih =>
      simp [Follows, fragments, rename, fragmentsOfExprs_rename ih,
        Fragment.map_rename_separated]
  | wildcard => rfl

end Criteria.Sql
