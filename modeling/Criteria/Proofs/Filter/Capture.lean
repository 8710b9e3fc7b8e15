import Criteria.Proofs.Filter.Reading
import Criteria.Proofs.Sql.Scoping

/-!
Where the columns of a document belong, and where the compiled filter looks for them. A document's
own columns are those of the model's row, however deep they stand, and a relation brings in the key
and the value of a related row. Subqueries give their tables no other names, so a column of the
model's row is captured by the relations around it that read from the model's table, and only by
these.
-/

namespace Criteria.Filter

open Sql (Expr ColumnUse)

/-- A column that a document brings into its filter. -/
structure Occurrence where
  table : String
  name : String
  /-- A column of the model's row: of a plain field, or matched by a relation. The others are a
  relation's key and value. -/
  ofModel : Bool
  /-- The tables of the relations around the column, the innermost first. A relation's key and value
  are inside it. -/
  around : List String
deriving DecidableEq, Repr

namespace Occurrence

/-- The statement that the column belongs to, by the number of statements around it: the model's own
is the outermost, and a relation's the innermost around its columns. -/
def home (o : Occurrence) : Nat :=
  if o.ofModel then 0 else o.around.length

/-- The column as it has to be named. -/
def atHome (o : Occurrence) : ColumnUse :=
  ⟨some o.table, o.name, some o.home⟩

/-- A column of the model's row behind a relation that reads from the model's own table. -/
def Captured (o : Occurrence) : Prop :=
  o.ofModel ∧ o.table ∈ o.around

instance : DecidablePred Captured := fun _ => inferInstanceAs (Decidable (_ ∧ _))

/-- The column as it is named: by its table. -/
def use (table : String) (o : Occurrence) : ColumnUse :=
  ⟨some o.table, o.name, Sql.ownerIn o.table (o.around ++ [table])⟩

theorem use_eq_atHome {table : String} {o : Occurrence} :
    o.use table = o.atHome ↔ (o.use table).owner = some o.home := by
  simp [use, atHome]

end Occurrence

section Model

variable {ι : Type} {E : ι → Type} (model : Model E) (table : String)

/-- The columns of an operation on an operand: nothing is in the empty list, so that the operand is
left out, and other raw values have no columns. -/
def askedOccurrences (op : Operation) (value : Json) (operand nested : List Occurrence) :
    List Occurrence :=
  match op, value with
  | .isIn, .arr [] => []
  | .isIn, _ | .has, _ => operand
  | _, .obj _ => operand ++ nested
  | _, _ => operand

/-- The columns of a document over a model of a table, given the tables of the relations around. A
relation compares its value, inside its own table, with a right-hand side that is in front of it no
more than elsewhere. -/
def occurrences : Reading (List String → List Occurrence) where
  reference name around :=
    match model.fields.get? name with
    | some (.plain column) => [⟨table, column.column.getD name, true, around⟩]
    | _ => []
  field op name value nested around :=
    match model.fields.get? name with
    | some (.plain column) =>
      askedOccurrences op value [⟨table, column.column.getD name, true, around⟩] (nested around)
    | some (.relation related) =>
      let inside := related.table :: around
      ⟨table, related.matchColumn, true, around⟩ :: ⟨related.table, related.key, false, inside⟩ ::
        askedOccurrences op value [⟨related.table, related.value, false, inside⟩] (nested inside)
    | _ => []
  fields parts around := parts.flatMap (· around)
  branches op _ parts around :=
    match op with
    | .not => (parts.head?.map (· around)).getD []
    | _ => parts.flatMap (· around)
  nothing _ := []

/-- A column that is the model's or inside of its own relation, behind nothing but relations of the
model inside of those around the document. -/
structure Occurrence.Placed (around : List String) (o : Occurrence) : Prop where
  ofModel : o.ofModel → o.table = table
  ofRelation : ¬ o.ofModel → ∃ outer, o.around = o.table :: outer
  inside : ∀ other ∈ o.around, other ∈ around ∨
    ∃ name related, model.fields.get? name = some (.relation related) ∧ related.table = other

variable {model table}

theorem Occurrence.Placed.own (name : String) (around : List String) :
    Placed model table around ⟨table, name, true, around⟩ :=
  ⟨fun _ => rfl, by simp, fun _ hother => .inl hother⟩

theorem Occurrence.Placed.ofRelated (other name : String) (around : List String) :
    Placed model table (other :: around) ⟨other, name, false, other :: around⟩ :=
  ⟨by simp, fun _ => ⟨around, rfl⟩, fun _ hother => .inl hother⟩

/-- Inside of a relation is inside of what is around it, as the relation is one of the model's. What
was true of the columns there stays true when the relation is left. -/
theorem Occurrence.Placed.outside {name : String} {related : Relation} {around : List String}
    {o : Occurrence} (found : model.fields.get? name = some (.relation related))
    (h : o.Placed model table (related.table :: around)) : o.Placed model table around where
  ofModel := h.ofModel
  ofRelation := h.ofRelation
  inside other hother := by
    rcases h.inside other hother with hmem | hrelated
    · rcases List.mem_cons.mp hmem with rfl | hmem
      · exact .inr ⟨name, related, found, rfl⟩
      · exact .inl hmem
    · exact .inr hrelated

/-- A column is at home unless it is captured: unless it is the model's and a relation around it
reads from the model's own table. -/
theorem Occurrence.Placed.owner_eq {around : List String} {o : Occurrence}
    (h : o.Placed model table around) :
    (o.use table).owner = some o.home ↔ ¬ o.Captured := by
  cases hmodel : o.ofModel with
  | true =>
      have htable := h.ofModel hmodel
      simp [use, home, Captured, hmodel, htable, Sql.ownerIn_append_eq_zero]
  | false =>
      obtain ⟨outer, haround⟩ := h.ofRelation (by simp [hmodel])
      simp [use, home, Captured, hmodel, haround, Sql.ownerIn_cons_self]

end Model

section Conditions

variable {tables : List String}

variable {r : Resolver Expr} {op : Operation} {value : Json} {use : Occurrence → ColumnUse}
  {operandColumns nested : List Occurrence}

theorem columnUses_operand
    (hnested : ∀ e, condition Sql.backend r .and value = .ok e →
      e.columnUses tables = nested.map use)
    {rhs : Expr} (h : operand Sql.backend r value = .ok rhs) :
    rhs.columnUses tables =
      match value with
      | .obj _ => nested.map use
      | _ => [] := by
  rcases operand_eq_ok.mp h with ⟨entries, rfl, hgroup⟩ | ⟨hscalar, rfl⟩
  · exact hnested rhs hgroup
  · cases value with
    | obj entries => exact absurd rfl (hscalar entries)
    | _ => rfl

/-- An operation applied to an operand names the columns of what it asks. -/
theorem columnUses_apply
    (hnested : ∀ e, condition Sql.backend r .and value = .ok e →
      e.columnUses tables = nested.map use)
    {arg : Argument Expr} (harg : argument Sql.backend r op value = .ok arg) {left : Expr}
    (hleft : left.columnUses tables = operandColumns.map use) :
    (Sql.backend.apply op left arg).columnUses tables =
      (askedOccurrences op value operandColumns nested).map use := by
  cases op
  case isIn =>
    cases harg
    cases value with
    | arr list =>
        cases list with
        | nil => rfl
        | cons first rest => exact hleft
    | _ => exact hleft
  case has =>
    cases harg
    exact hleft
  all_goals
    obtain ⟨rhs, hrhs, heq⟩ := bind_eq_ok.mp harg
    cases heq
    have hright := columnUses_operand hnested hrhs
    change left.columnUses tables ++ rhs.columnUses tables = _
    rw [hleft, hright]
    cases value <;> simp [askedOccurrences]

/-- The columns of what an operation asks are those of its operand and, if the value has been
compiled, those of the value. -/
theorem mem_askedOccurrences {arg : Argument Expr}
    (harg : argument Sql.backend r op value = .ok arg) {o : Occurrence}
    (h : o ∈ askedOccurrences op value operandColumns nested) :
    o ∈ operandColumns ∨ o ∈ nested ∧ ∃ e, condition Sql.backend r .and value = .ok e := by
  unfold askedOccurrences at h
  split at h
  · cases h
  · exact .inl h
  · exact .inl h
  · next entries hisIn hhas =>
    have hraw : op.takesRaw = false := by cases op <;> first | rfl | contradiction
    rw [argument, hraw] at harg
    obtain ⟨rhs, hrhs, -⟩ := bind_eq_ok.mp harg
    rcases operand_eq_ok.mp hrhs with ⟨-, -, hgroup⟩ | ⟨hscalar, -⟩
    · exact (List.mem_append.mp h).imp_right fun ho => ⟨ho, rhs, hgroup⟩
    · exact absurd rfl (hscalar entries)
  · exact .inl h

end Conditions

section Agreement

variable {κ : Type} {others : κ → Type} {scope : Scope (Sql.ExpressionsWith others)}
  {table : String}

/-- A condition that names the columns read off its document, wherever it comes to stand. -/
structure NamesColumns (model : Model (Sql.ExpressionsWith others)) (table : String)
    (columns : List String → List Occurrence) (e : Expr) : Prop where
  uses : ∀ around, e.columnUses (around ++ [table]) = (columns around).map (Occurrence.use table)
  placed : ∀ around, ∀ o ∈ columns around, o.Placed model table around

namespace NamesColumns

variable {model : Model (Sql.ExpressionsWith others)}

theorem flatMap {parts : List (List String → List Occurrence)} {es : List Expr}
    (h : List.Forall₂ (NamesColumns model table) parts es) (around : List String) :
    es.flatMap (Expr.columnUses (around ++ [table])) =
        (parts.flatMap (· around)).map (Occurrence.use table) ∧
      ∀ o ∈ parts.flatMap (· around), o.Placed model table around := by
  induction h with
  | nil => exact ⟨rfl, by simp⟩
  | @cons columns e parts es hfirst hrest ih =>
      rw [List.flatMap_cons, List.flatMap_cons, List.map_append, hfirst.uses around, ih.1]
      refine ⟨rfl, fun o ho => ?_⟩
      rcases List.mem_append.mp ho with ho | ho
      · exact hfirst.placed around o ho
      · exact ih.2 o ho

theorem group {parts : List (List String → List Occurrence)} {es : List Expr}
    (h : List.Forall₂ (NamesColumns model table) parts es) (connective : Sql.Connective) :
    NamesColumns model table (fun around => parts.flatMap (· around)) (.group connective es) where
  uses around := (Expr.columnUses_group _ connective es).trans (flatMap h around).1
  placed around := (flatMap h around).2

theorem joined {op : Operator} (entries : Bool) {parts : List (List String → List Occurrence)}
    {es : List Expr} {e : Expr} (hparts : List.Forall₂ (NamesColumns model table) parts es)
    (h : Joined Sql.backend op es e) :
    NamesColumns model table ((occurrences model table).branches op entries parts) e := by
  cases h with
  | negated first rest =>
      cases hparts with
      | cons hfirst hrest => exact ⟨hfirst.uses, hfirst.placed⟩
  | single notNegated only =>
      cases hparts with
      | cons hfirst hrest =>
          cases hrest
          cases op <;> simpa [occurrences] using hfirst
  | disjunction nonempty => exact group hparts .or
  | conjunction notNegated nonempty =>
      have hgroup := group hparts .and
      cases op <;> first | exact hgroup | contradiction

end NamesColumns

section Field

variable {model : Model (Sql.ExpressionsWith others)} {r : Resolver Expr} {op : Operation}
  {value : Json} {columns : List String → List Occurrence} {arg : Argument Expr}

/-- An operation on a column names the column and the columns of a nested document, in this order,
and places them all where the column is. -/
theorem columnUses_asked
    (hnested : ∀ e, condition Sql.backend r .and value = .ok e →
      NamesColumns model table columns e)
    (harg : argument Sql.backend r op value = .ok arg) {around : List String} {o : Occurrence}
    (ho : o.Placed model table around) {left : Expr}
    (hleft : left.columnUses (around ++ [table]) = [o.use table]) :
    (Sql.backend.apply op left arg).columnUses (around ++ [table]) =
        (askedOccurrences op value [o] (columns around)).map (Occurrence.use table) ∧
      ∀ other ∈ askedOccurrences op value [o] (columns around),
        other.Placed model table around := by
  refine ⟨columnUses_apply (fun e he => (hnested e he).uses around) harg hleft, ?_⟩
  intro other hother
  rcases mem_askedOccurrences harg hother with hself | ⟨hmem, e, he⟩
  · rwa [List.mem_singleton.mp hself]
  · exact (hnested e he).placed around other hmem

theorem namesColumns_plain
    (hnested : ∀ e, condition Sql.backend r .and value = .ok e →
      NamesColumns model table columns e)
    (harg : argument Sql.backend r op value = .ok arg) {name : String} {column : ColumnField}
    (found : model.fields.get? name = some (.plain column)) :
    NamesColumns model table ((occurrences model table).field op name value columns)
      (Sql.backend.apply op (.column (some table) (column.column.getD name)) arg) := by
  have hfield (around : List String) :
      (occurrences model table).field op name value columns around =
        askedOccurrences op value [⟨table, column.column.getD name, true, around⟩]
          (columns around) := by
    simp [occurrences, found]
  have hasked (around : List String) :=
    columnUses_asked hnested harg (.own (column.column.getD name) around)
      (Expr.columnUses_column _ table _)
  refine ⟨fun around => ?_, fun around => ?_⟩
  · rw [hfield]
    exact (hasked around).1
  · rw [hfield]
    exact (hasked around).2

/-- A relation names its match column where it stands, and everything else inside of its own
table. -/
theorem namesColumns_relation
    (hnested : ∀ e, condition Sql.backend r .and value = .ok e →
      NamesColumns model table columns e)
    (harg : argument Sql.backend r op value = .ok arg) {name : String} {related : Relation}
    (found : model.fields.get? name = some (.relation related)) :
    NamesColumns model table ((occurrences model table).field op name value columns)
      ((Expr.column (some table) related.matchColumn).among (.keysWhere related.table related.key
        (Sql.backend.apply op (.column (some related.table) related.value) arg))) := by
  have hfield (around : List String) :
      (occurrences model table).field op name value columns around =
        ⟨table, related.matchColumn, true, around⟩ ::
        ⟨related.table, related.key, false, related.table :: around⟩ ::
        askedOccurrences op value
          [⟨related.table, related.value, false, related.table :: around⟩]
          (columns (related.table :: around)) := by
    simp [occurrences, found]
  have hasked (around : List String) :=
    columnUses_asked hnested harg (.ofRelated related.table related.value around)
      (Expr.columnUses_column _ related.table _)
  refine ⟨fun around => ?_, fun around => ?_⟩
  · have hkey :
        Occurrence.use table ⟨related.table, related.key, false, related.table :: around⟩ =
          ⟨some related.table, related.key, some (around ++ [table]).length⟩ := by
      simp [Occurrence.use, Sql.ownerIn_cons_self]
    rw [hfield, List.map_cons, List.map_cons, hkey, ← (hasked around).1]
    exact Expr.columnUses_amongKeys ..
  · rw [hfield]
    intro o ho
    rcases List.mem_cons.mp ho with rfl | ho
    · exact .own related.matchColumn around
    -- The key and the value are inside of the relation, which is one of the model's.
    refine Occurrence.Placed.outside found ?_
    rcases List.mem_cons.mp ho with rfl | ho
    · exact .ofRelated related.table related.key around
    · exact (hasked around).2 o ho

end Field

theorem namesColumns_applied (hbound : scope.model.binding.map (·.table) = some table)
    (hstored : scope.model.IsStored) {r : Resolver Expr} {op : Operation} {value : Json}
    {columns : List String → List Occurrence}
    (hnested : ∀ e, condition Sql.backend r .and value = .ok e →
      NamesColumns scope.model table columns e)
    {arg : Argument Expr} (harg : argument Sql.backend r op value = .ok arg) {name : String}
    {e : Expr} (happlied : scope.Applied none Sql.backend name op arg e) :
    NamesColumns scope.model table ((occurrences scope.model table).field op name value columns)
      e := by
  rcases happlied with @⟨column, found, permitted⟩ | @⟨related, binding, found, bound, permitted⟩ |
    ⟨found, bound, handler⟩
  · rw [Scope.plainColumn, hbound]
    exact namesColumns_plain hnested harg found
  · have htable : binding.table = table := by simpa [bound] using hbound
    rw [htable]
    exact namesColumns_relation hnested harg found
  · exact absurd found (hstored _ _)

variable [DecidableEq κ]

/-- A condition names the columns of the value it was compiled from. The induction is the compiler's
own; only relations change what is around a column. -/
theorem namesColumns_condition (hbound : scope.model.binding.map (·.table) = some table)
    (hstored : scope.model.IsStored) {op : Operator} {value : Json} {e : Expr}
    (h : condition Sql.backend (scope.resolve none Sql.backend) op value = .ok e) :
    NamesColumns scope.model table ((occurrences scope.model table).of op value) e := by
  refine Reading.agrees (occurrences scope.model table) scope none Sql.backend
    (NamesColumns scope.model table) ?reference ?field ?fields ?branches h
  case reference =>
    intro name column found
    have href (around : List String) : (occurrences scope.model table).reference name around =
        [⟨table, column.column.getD name, true, around⟩] := by
      simp [occurrences, found]
    refine ⟨fun around => ?_, fun around => ?_⟩
    · rw [href, Scope.plainColumn, hbound]
      rfl
    · rw [href]
      intro o ho
      rw [List.mem_singleton.mp ho]
      exact .own (column.column.getD name) around
  case field =>
    intro op name value arg e hnested harg happlied
    exact namesColumns_applied hbound hstored hnested harg happlied
  case fields =>
    exact fun op parts es e hparts joined =>
      .joined false hparts (joined_of_joinFields joined)
  case branches =>
    exact fun op entries parts es e joins hparts joined =>
      .joined entries hparts (joined_of_join joined)

/-- The columns of a document that is a filter by itself, behind no relation. -/
def documentColumns (model : Model (Sql.ExpressionsWith others)) (table : String)
    (document : Json) : List Occurrence :=
  (occurrences model table).of .and document []

/-- A compiled filter names the columns of its document, in their order and by their tables. Each is
at home unless it is captured, so that all are at home exactly when none is captured; and none is
where no relation reads from the model's own table. -/
theorem columnUses_compile (hbound : scope.model.binding.map (·.table) = some table)
    (hstored : scope.model.IsStored) {document : Json} {filter : Expr}
    (hfilter : compile Sql.backend (scope.resolve none Sql.backend) (some document) =
      .ok (some filter)) :
    let columns := documentColumns scope.model table document
    List.Forall₂ (fun o use => use.qualifier = some o.table ∧ use.name = o.name ∧
        (use.owner = some o.home ↔ ¬ o.Captured)) columns (filter.columnUses [table]) ∧
      (filter.columnUses [table] = columns.map Occurrence.atHome ↔ ∀ o ∈ columns, ¬ o.Captured) ∧
      ((∀ name related, scope.model.fields.get? name = some (.relation related) →
        related.table ≠ table) → ∀ o ∈ columns, ¬ o.Captured) := by
  intro columns
  obtain ⟨value, heq, hcondition⟩ := compile_eq_some.mp hfilter
  cases heq
  have hnames := namesColumns_condition hbound hstored hcondition
  have huses : filter.columnUses [table] = columns.map (Occurrence.use table) := hnames.uses []
  have hplaced : ∀ o ∈ columns, o.Placed scope.model table [] := hnames.placed []
  rw [huses]
  refine ⟨?_, ?_, ?_⟩
  · rw [List.forall₂_map_right_iff, List.forall₂_same]
    intro o ho
    exact ⟨rfl, rfl, (hplaced o ho).owner_eq⟩
  · rw [List.map_inj_left]
    constructor
    · intro h o ho
      exact (hplaced o ho).owner_eq.mp (Occurrence.use_eq_atHome.mp (h o ho))
    · intro h o ho
      exact Occurrence.use_eq_atHome.mpr ((hplaced o ho).owner_eq.mpr (h o ho))
  · intro haway o ho hcaptured
    obtain ⟨hmodel, hinside⟩ := hcaptured
    have htable := (hplaced o ho).ofModel hmodel
    rcases (hplaced o ho).inside o.table hinside with hnone | ⟨name, related, found, hrelated⟩
    · cases hnone
    · exact haway name related found (hrelated.trans htable)

end Agreement

/-- Categories with the names of their parents, which are categories too. -/
def nestedCategories {ι : Type} {E : ι → Type} : Model E where
  binding := some ⟨"categories", "id"⟩
  fields := ((∅ : NameTable (Field E)).insert "name" (.plain {})).insert "parent" (.relation
    { matchColumn := "parent_id", table := "categories", key := "id", value := "name" })

theorem isStored_nestedCategories {ι : Type} {E : ι → Type} :
    (nestedCategories : Model E).IsStored := by
  intro name handlers h
  simp only [nestedCategories, NameTable.get?_insert, NameTable.get?_empty] at h
  split at h
  · cases h
  · split at h <;> cases h

/-- A category by its own name and by its parent's. -/
def childByNames : Json :=
  .obj [("name", .str "a"), ("parent", .str "b")]

/-- Nothing is captured here: the category's own columns are taken from its row, and the parent's
from the row of the subquery. -/
theorem columnUses_childByNames :
    let scope : Scope (Sql.ExpressionsWith Empty.elim) := ⟨"category", nestedCategories⟩
    scope.model.binding.map (·.table) = some "categories" ∧ scope.model.IsStored ∧
    ∃ filter : Expr,
      compile Sql.backend (scope.resolve none Sql.backend) (some childByNames) =
        .ok (some filter) ∧
      filter.columnUses ["categories"] =
        [⟨some "categories", "name", some 0⟩, ⟨some "categories", "parent_id", some 0⟩,
          ⟨some "categories", "id", some 1⟩, ⟨some "categories", "name", some 1⟩] := by
  intro scope
  have hbound : scope.model.binding.map (·.table) = some "categories" := rfl
  have hstored : scope.model.IsStored := isStored_nestedCategories
  obtain ⟨filter, hfilter⟩ : ∃ filter : Expr,
      compile Sql.backend (scope.resolve none Sql.backend) (some childByNames) =
        .ok (some filter) := ⟨_, rfl⟩
  have hnone : ∀ o ∈ documentColumns scope.model "categories" childByNames, ¬ o.Captured := by
    decide
  have hhome := (columnUses_compile hbound hstored hfilter).2.1.mpr hnone
  exact ⟨hbound, hstored, filter, hfilter, hhome⟩

/-- Named like its parent. -/
def namesakeOfParent : Json :=
  .obj [("parent", .obj [("$ref", .str "name")])]

/-- The category's own name is taken from its parent's row, and so compared with itself. -/
theorem captured_namesakeOfParent :
    let scope : Scope (Sql.ExpressionsWith Empty.elim) := ⟨"category", nestedCategories⟩
    let columns := documentColumns scope.model "categories" namesakeOfParent
    ∃ filter : Expr,
      compile Sql.backend (scope.resolve none Sql.backend) (some namesakeOfParent) =
        .ok (some filter) ∧
      (columns.map Occurrence.atHome).getLast? = some ⟨some "categories", "name", some 0⟩ ∧
      (filter.columnUses ["categories"]).getLast? = some ⟨some "categories", "name", some 1⟩ ∧
      filter.columnUses ["categories"] ≠ columns.map Occurrence.atHome := by
  intro scope columns
  refine ⟨_, rfl, ?_, ?_, ?_⟩ <;> decide

end Criteria.Filter
