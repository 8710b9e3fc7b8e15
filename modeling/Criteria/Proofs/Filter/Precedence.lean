import Criteria.Proofs.Filter.Wording
import Criteria.Proofs.Sql.Readback

/-!
Compiled filters under the standard precedence. A filter of stored fields has no function call, so
its text says what the precedence makes of it. That is the filter itself unless a document compares
a field with a negation, whose `NOT` then stands bare behind the operator.
-/

namespace Criteria

namespace Sql

open Sql.Expr (Everywhere Elementary)

section Elementary

variable {left rows : Expr}

theorem Expr.elementary_compare (op : Comparison) (hleft : left.Everywhere Elementary)
    (hright : rows.Everywhere Elementary) : (compare left op rows).Everywhere Elementary :=
  .intro trivial (by simp [children, hleft, hright])

theorem Expr.elementary_group (op : Connective) {operands : List Expr}
    (h : ∀ e ∈ operands, e.Everywhere Elementary) : (group op operands).Everywhere Elementary :=
  .intro trivial h

theorem Expr.elementary_not (h : left.Everywhere Elementary) :
    (Expr.not left).Everywhere Elementary :=
  .intro trivial (by simp [children, h])

theorem Expr.elementary_member {op : Operation} (hop : op.takesRaw)
    (hleft : left.Everywhere Elementary) (values : Json) :
    (member op left values).Everywhere Elementary := by
  cases op
  case has =>
    have htest : (contains left values).Everywhere Elementary :=
      .intro trivial (by simp [children, hleft])
    exact htest
  case isIn =>
    rw [member_isIn]
    split
    · exact elementary_group .or (by simp)
    · exact .intro trivial (by simp [children, hleft])
  all_goals cases hop

theorem Expr.elementary_keysWhere (table key : String) (h : left.Everywhere Elementary) :
    (keysWhere table key left).Everywhere Elementary := by
  have hkey : (column (some table) key).Everywhere Elementary :=
    .intro trivial (by simp [children])
  rw [keysWhere]
  refine .intro trivial ?_
  simp [children, Clauses.ofTable, Clauses.filterBy, Clauses.exprs, hkey, h]

theorem Expr.elementary_among (hleft : left.Everywhere Elementary)
    (hrows : rows.Everywhere Elementary) : (left.among rows).Everywhere Elementary := by
  by_cases hsubquery : rows.isSubquery
  · obtain ⟨select, rfl⟩ := isSubquery_iff.mp hsubquery
    have hselect := hrows.inside
    exact .intro trivial (List.forall_mem_cons.mpr ⟨hleft, hselect⟩)
  · rw [among_of_not_isSubquery hsubquery]
    exact elementary_compare .eq hleft hrows

/-- The operations of the SQL backend build elementary expressions from elementary ones. Seen as a
relation of the backend to itself, this carries over to whatever is compiled. -/
theorem related_elementary : Backend.Related .fixed (fun e (_ : Expr) => e.Everywhere Elementary)
    (fun sort (_ : OrderTerm) => sort.expr.Everywhere Elementary) Sql.backend Sql.backend where
  column table name := .intro trivial nofun
  literal value value' _ := .intro trivial nofun
  compare op left left' right right' hop hleft hright := by
    cases op
    case isIn => cases hop
    case has => cases hop
    all_goals exact Expr.elementary_compare _ hleft hright
  member op left left' values values' hop hleft _ := Expr.elementary_member hop hleft values
  subquery table key filter filter' h := Expr.elementary_keysWhere table key h
  among left left' rows rows' hleft hrows := Expr.elementary_among hleft hrows
  and operands operands' h := Expr.elementary_group .and (forall_mem_of_forall₂ h)
  or operands operands' h := Expr.elementary_group .or (forall_mem_of_forall₂ h)
  not operand operand' h := Expr.elementary_not h
  ascending operand operand' h := h
  descending operand operand' h := h

end Elementary

end Sql

namespace Filter

open Sql (Expr Dialect)

section Compiled

variable {κ : Type} [DecidableEq κ] {others : κ → Type}
  {scope : Scope (Sql.ExpressionsWith others)}

theorem elementary_compile (hstored : scope.model.IsStored) {document : Json} {filter : Expr}
    (hfilter : compile Sql.backend (scope.resolve none Sql.backend) (some document) =
      .ok (some filter)) : filter.Everywhere Expr.Elementary := by
  have hagree := compile_agree Sql.related_elementary
    (Scope.resolve_agree (i := none) (j := none) hstored Sql.related_elementary)
    (.some (.same .and document))
  rw [hfilter] at hagree
  cases hagree with
  | ok related =>
      cases related with
      | some helementary => exact helementary

/-- Read by the standard precedence, the text of an elementary expression is that expression, up to
groups of one, exactly when no operand of a comparison, of `IN` or of `@>` is a bare `NOT`; and so
is the text of a compiled filter. -/
theorem condition_render_iff (scope : Scope (Sql.ExpressionsWith others)) :
    (∀ (d : Dialect) (expr : Expr), expr.Everywhere Expr.Elementary →
      ((expr.render d).condition? d = some expr.normal ↔ expr.Everywhere (Expr.NotsApart d))) ∧
    (scope.model.IsStored → ∀ (document : Json) (filter : Expr),
      compile Sql.backend (scope.resolve none Sql.backend) (some document) = .ok (some filter) →
        ∀ d, ((filter.render d).condition? d = some filter.normal ↔
          filter.Everywhere (Expr.NotsApart d))) := by
  refine ⟨fun d expr h => expr.condition?_render_eq_normal_iff d h, ?_⟩
  intro hstored document filter hfilter d
  exact filter.condition?_render_eq_normal_iff d (elementary_compile hstored hfilter)

end Compiled

/-- Negations where they are read back: as a condition of its own, and among others. -/
def negatedDocument : Json :=
  .obj [
    ("$not", .arr [.obj [("name", .obj [("$ref", .str "joined")])]]),
    ("$or", .arr [.obj [("$not", .obj [("tag", .str "a")])], .obj [("name", .str "b")]])]

/-- A negation of a negation, around a containment test. -/
def doubleNegation : Expr :=
  .not (.not (.contains (.column none "NOT (a") (.str "b")))

theorem everywhere_doubleNegation {p : Expr → Prop} (h : ∀ e ∈ [doubleNegation,
    .not (.contains (.column none "NOT (a") (.str "b")),
    .contains (.column none "NOT (a") (.str "b"), .column none "NOT (a"], p e) :
    doubleNegation.Everywhere p := by
  simp only [List.forall_mem_cons] at h
  obtain ⟨houter, hinner, hcontains, hcolumn, -⟩ := h
  have hcolumn : (Expr.column none "NOT (a").Everywhere p := .intro hcolumn nofun
  have hcontains : (Expr.contains (.column none "NOT (a") (.str "b")).Everywhere p :=
    .intro hcontains (by simp [Expr.children, hcolumn])
  have hinner := Expr.Everywhere.intro hinner (by simp [Expr.children, hcontains])
  exact .intro houter (by simp [doubleNegation, Expr.children, hinner])

/-- A negation around a negation is read back, and so are negations among the operands of a group,
in both dialects. -/
theorem condition_render_negated :
    let scope : Scope (Sql.ExpressionsWith Empty.elim) := ⟨"user", .taggedUsers⟩
    scope.model.IsStored ∧
    (∀ d, (doubleNegation.render d).condition? d = some doubleNegation) ∧
    ∃ filter : Expr,
      compile Sql.backend (scope.resolve none Sql.backend) (some negatedDocument) =
        .ok (some filter) ∧
      ∀ d, (filter.render d).condition? d = some filter.normal := by
  intro scope
  have hstored : scope.model.IsStored := Model.isStored_taggedUsers
  obtain ⟨filter, hfilter⟩ : ∃ filter : Expr,
      compile Sql.backend (scope.resolve none Sql.backend) (some negatedDocument) =
        .ok (some filter) := ⟨_, rfl⟩
  refine ⟨hstored, fun d => ?_, filter, hfilter, fun d => ?_⟩
  · have helementary : doubleNegation.Everywhere Expr.Elementary :=
      everywhere_doubleNegation (by simp [doubleNegation, Expr.Elementary])
    have hapart : doubleNegation.Everywhere (Expr.NotsApart d) :=
      everywhere_doubleNegation (by simp [doubleNegation, Expr.NotsApart, Expr.isNot])
    exact ((condition_render_iff scope).1 d doubleNegation helementary).mpr hapart
  · have hread : filter.asRead d = some filter.normal := by
      cases hfilter
      cases d <;> rfl
    have hapart := (Expr.asRead_eq_normal_iff (elementary_compile hstored hfilter)).mp hread
    exact ((condition_render_iff scope).2 hstored negatedDocument filter hfilter d).mpr hapart

/-- A name compared with a negation. -/
def comparedNegation : Json :=
  .obj [("name", .obj [("$not", .obj [("joined", .str "a")])])]

/-- A negation compared with a value. -/
def negationCompared : Expr :=
  .compare (.not (.column none "a")) .eq (.value .null)

/-- Behind the operator the bare `NOT` cannot be read; in front of it, it takes the whole comparison
and not the operand that was negated. -/
theorem misread_negation :
    let scope : Scope (Sql.ExpressionsWith Empty.elim) := ⟨"user", .taggedUsers⟩
    (∃ filter : Expr,
      compile Sql.backend (scope.resolve none Sql.backend) (some comparedNegation) =
        .ok (some filter) ∧
      (filter.render .postgres).sql =
        "(\"users\".\"name\" = NOT (\"users\".\"created_at\" = $1))" ∧
      ∀ d, (filter.render d).condition? d = none) ∧
    (negationCompared.render .postgres).sql = "(NOT (\"a\") = $1)" ∧
    ∀ d, (negationCompared.render d).condition? d =
      some (.not (.compare (.column none "a") .eq (.value .null))) := by
  intro scope
  have hstored : scope.model.IsStored := Model.isStored_taggedUsers
  obtain ⟨filter, hfilter⟩ : ∃ filter : Expr,
      compile Sql.backend (scope.resolve none Sql.backend) (some comparedNegation) =
        .ok (some filter) := ⟨_, rfl⟩
  have hfilterElementary := elementary_compile hstored hfilter
  have helementary : negationCompared.Everywhere Expr.Elementary := by
    have hcolumn : (Expr.column none "a").Everywhere Expr.Elementary := .intro trivial nofun
    exact Expr.elementary_compare .eq (Expr.elementary_not hcolumn) (.intro trivial nofun)
  refine ⟨⟨filter, hfilter, ?_, fun d => ?_⟩, ?_, fun d => ?_⟩
  · cases hfilter
    decide
  · rw [filter.condition?_render_eq d hfilterElementary]
    cases hfilter
    cases d <;> rfl
  · decide
  · rw [negationCompared.condition?_render_eq d helementary]
    cases d <;> rfl

end Filter

end Criteria
