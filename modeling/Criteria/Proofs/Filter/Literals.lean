import Criteria.Sql.Backend
import Criteria.Proofs.Filter.Reading
import Criteria.Proofs.Sql.Parameters

/-!
The literals of a document, read off in document order, and how they reach the statement: as its
parameters, each once, unchanged and in this order. How a field is stored has no part in it, though
the literals of a relation come to stand inside a subquery.
-/

namespace Criteria.Filter

open Sql (Expr)

/-- The literals of a right-hand side: those of the document nested there, or the value itself. -/
def rightLiterals (value : Json) (nested : List Json) : List Json :=
  match value with
  | .obj _ => nested
  | value => [value]

/-- The literals of an operation's value. Every element of an array is one for `$in`, and any other
value is one as a whole. -/
def argumentLiterals (op : Operation) (value : Json) (nested : List Json) : List Json :=
  match op, value with
  | .isIn, .arr list => list
  | .isIn, single => [single]
  | .has, part => [part]
  | _, value => rightLiterals value nested

/-- The literals of branches: all of them, or under `$not` those of the first. -/
def branchLiterals (op : Operator) (branches : List (List Json)) : List Json :=
  match op with
  | .not => branches.head?.getD []
  | _ => branches.flatten

/-- The literals at each kind of position, in document order. A reference has none. -/
def literalReading : Reading (List Json) where
  reference _ := []
  field op _ value nested := argumentLiterals op value nested
  fields := List.flatten
  branches op _ := branchLiterals op
  nothing := []

/-- The literals of an operator's value, in document order. -/
def literals : Operator → Json → List Json :=
  literalReading.of

theorem literals_amongKeys (qualifier : Option String) (name table key : String) (filter : Expr) :
    ((Expr.column qualifier name).among (.keysWhere table key filter)).literals =
      filter.literals := by
  rw [Expr.among_keysWhere]
  simp [Expr.literals, Sql.literalsOfSelect, Sql.literalsOfExprs, Sql.literalsOfClause,
    Sql.literalsOfSorts]

/-- Joining keeps the literals of every part, except for what `$not` discards: all branches behind
the first. -/
theorem literals_joined {op : Operator} {es : List Expr} {e : Expr}
    (h : Joined Sql.backend op es e) :
    e.literals = branchLiterals op (es.map Expr.literals) := by
  have hall {op : Operator} (hop : op ≠ .not) (parts : List (List Json)) :
      branchLiterals op parts = parts.flatten := by
    cases op <;> first | rfl | contradiction
  have hgroup (connective : Sql.Connective) :
      (Expr.group connective es).literals = (es.map Expr.literals).flatten := by
    rw [Expr.literals, Sql.literalsOfExprs_eq_flatMap, List.flatMap_def]
  cases h with
  | negated first rest => rfl
  | single notNegated only =>
      rw [hall notNegated]
      simp
  | disjunction nonempty => exact hgroup .or
  | conjunction notNegated nonempty =>
      rw [hall notNegated]
      exact hgroup .and

section Field

variable {r : Resolver Expr} {op : Operation} {value : Json}

theorem literals_operand
    (hnested : ∀ e, condition Sql.backend r .and value = .ok e → e.literals = literals .and value)
    {rhs : Expr} (h : operand Sql.backend r value = .ok rhs) :
    rhs.literals = rightLiterals value (literals .and value) := by
  rcases operand_eq_ok.mp h with ⟨entries, rfl, hgroup⟩ | ⟨hscalar, rfl⟩
  · exact hnested rhs hgroup
  · change [value] = _
    cases value with
    | obj entries => exact absurd rfl (hscalar entries)
    | _ => rfl

/-- An operation on an operand without literals of its own holds those of its argument. An empty
list leaves the operand out, so one with literals would lose them. -/
theorem literals_apply
    (hnested : ∀ e, condition Sql.backend r .and value = .ok e → e.literals = literals .and value)
    {arg : Argument Expr} (harg : argument Sql.backend r op value = .ok arg) {left : Expr}
    (hleft : left.literals = []) :
    (Sql.backend.apply op left arg).literals = argumentLiterals op value (literals .and value) := by
  have hscalar (list : List Json) : (Expr.inList left list).literals = list := by
    rw [Expr.literals, hleft, List.nil_append]
  cases op
  case isIn =>
    cases harg
    cases value with
    | arr list =>
        cases list with
        | nil => rfl
        | cons first rest => exact hscalar (first :: rest)
    | _ => exact hscalar _
  case has =>
    cases harg
    change left.literals ++ [value] = _
    rw [hleft]
    rfl
  all_goals
    obtain ⟨rhs, hrhs, heq⟩ := bind_eq_ok.mp harg
    cases heq
    have hright := literals_operand hnested hrhs
    change left.literals ++ rhs.literals = _
    rw [hleft, hright]
    cases value <;> rfl

end Field

section Document

variable {κ : Type} {others : κ → Type} {scope : Scope (Sql.ExpressionsWith others)}

/-- Wherever a stored field holds its values, an operation on it holds the literals of its
argument: a relation's only come to stand in the subquery of the related rows. -/
theorem literals_applied (hstored : scope.model.IsStored) {r : Resolver Expr} {op : Operation}
    {value : Json}
    (hnested : ∀ e, condition Sql.backend r .and value = .ok e → e.literals = literals .and value)
    {arg : Argument Expr} (harg : argument Sql.backend r op value = .ok arg) {name : String}
    {e : Expr} (happlied : scope.Applied none Sql.backend name op arg e) :
    e.literals = argumentLiterals op value (literals .and value) := by
  have hcolumn (qualifier : Option String) (name : String) :
      (Sql.backend.apply op (.column qualifier name) arg).literals =
        argumentLiterals op value (literals .and value) :=
    literals_apply hnested harg rfl
  rcases happlied with ⟨found, permitted⟩ | ⟨found, bound, permitted⟩ | ⟨found, bound, handler⟩
  · exact hcolumn _ _
  · exact (literals_amongKeys _ _ _ _ _).trans (hcolumn _ _)
  · exact absurd found (hstored _ _)

variable [DecidableEq κ]

/-- A condition on a stored model holds the literals of the value it was compiled from, in document
order, since no operation reorders or repeats what it is given. -/
theorem literals_condition (hstored : scope.model.IsStored) {op : Operator} {value : Json}
    {e : Expr} (h : condition Sql.backend (scope.resolve none Sql.backend) op value = .ok e) :
    e.literals = literals op value := by
  have hparts {parts : List (List Json)} {es : List Expr}
      (h : List.Forall₂ (fun part (e : Expr) => e.literals = part) parts es) :
      es.map Expr.literals = parts := by
    simpa using map_eq_map_of_forall₂ (f := id) h
  refine literalReading.agrees scope none Sql.backend (fun part (e : Expr) => e.literals = part)
    ?reference ?field ?fields ?branches h
  case reference => exact fun name column found => rfl
  case field =>
    intro op name value arg e hnested harg happlied
    exact literals_applied hstored hnested harg happlied
  case fields =>
    intro op parts es e h joined
    rw [literals_joined (joined_of_joinFields joined), hparts h]
    rfl
  case branches =>
    intro op entries parts es e hjoins h joined
    rw [literals_joined (joined_of_join joined), hparts h]
    rfl

/-- The parameters of a compiled filter are the literals of its document, each once, unchanged and
in document order, in either dialect. -/
theorem params_render_compile (hstored : scope.model.IsStored) {document : Json} {filter : Expr}
    (hfilter : compile Sql.backend (scope.resolve none Sql.backend) (some document) =
      .ok (some filter)) (d : Sql.Dialect) :
    (filter.render d).params = literals .and document := by
  obtain ⟨value, heq, hcondition⟩ := compile_eq_some.mp hfilter
  cases heq
  rw [filter.params_render]
  exact literals_condition hstored hcondition

end Document

/-- A document with literals of every kind: in a nested document, an array as one value, the
elements of a list, a value that is contained, and a branch that `$not` discards. -/
def mixedDocument : Json :=
  .obj [
    ("name", .obj [("$neq", .obj [("joined", .str "a")])]),
    ("$eq", .obj [("name", .arr [.str "b", .null]), ("joined", .obj [("$ref", .str "name")])]),
    ("$in", .obj [("tag", .arr [.str "c", .null]), ("name", .obj [("d", .null)])]),
    ("$contains", .obj [("name", .obj [("$ref", .str "name")])]),
    ("$not", .arr [.obj [("tag", .str "e")], .obj [("tag", .str "discarded")]])]

/-- An array is bound as one value or element by element, a reference only where it is contained,
and what is discarded not at all. -/
theorem params_render_mixedDocument :
    let scope : Scope (Sql.ExpressionsWith Empty.elim) := ⟨"user", .taggedUsers⟩
    scope.model.IsStored ∧ ∃ filter : Expr,
      compile Sql.backend (scope.resolve none Sql.backend) (some mixedDocument) =
        .ok (some filter) ∧
      ∀ d, (filter.render d).params =
        [.str "a", .arr [.str "b", .null], .str "c", .null, .obj [("d", .null)],
          .obj [("$ref", .str "name")], .str "e"] := by
  intro scope
  have hstored : scope.model.IsStored := Model.isStored_taggedUsers
  obtain ⟨filter, hfilter⟩ : ∃ filter : Expr,
      compile Sql.backend (scope.resolve none Sql.backend) (some mixedDocument) =
        .ok (some filter) := ⟨_, rfl⟩
  exact ⟨hstored, filter, hfilter, params_render_compile hstored hfilter⟩

end Criteria.Filter
