import Criteria.Proofs.Filter.Reading
import Criteria.Proofs.Sql.WellShaped

/-!
Compiled filters are well shaped, although neither the expressions nor the operations of the backend
are bound to it: the compiler compares nothing but columns, and asks for membership in nothing but
raw values and subqueries. The tests of a filter are those that its document asks for, in order, so
that an empty group stands exactly where `$in` has an empty array.
-/

namespace Criteria

open Sql (Expr Test)

/-- The test that an operation with a value asks for of a field. Nothing is in the empty list. -/
def Operation.test (op : Operation) (value : Json) : Test :=
  match op, value with
  | .isIn, .arr [] => .nothing .or
  | .isIn, _ => .listed
  | .has, _ => .contained
  | .eq, _ => .comparison .eq
  | .neq, _ => .comparison .ne
  | .gt, _ => .comparison .gt
  | .gte, _ => .comparison .ge
  | .lt, _ => .comparison .lt
  | .lte, _ => .comparison .le
  | .like, _ => .comparison .like

namespace Filter

/-- What branches say together: everything, or under `$not` what the first of them says. -/
def ofBranches {α : Type} (op : Operator) (branches : List (List α)) : List α :=
  match op with
  | .not => branches.head?.getD []
  | _ => branches.flatten

/-- What a right-hand side says: as much as the document nested there, if it is one. -/
def ofRightSide {α : Type} (value : Json) (nested : List α) : List α :=
  match value with
  | .obj _ => nested
  | _ => []

/-- The operations on fields that a document's filter is made of, each with its value, in document
order. -/
def operations : Reading (List (Operation × Json)) where
  reference _ := []
  field op _ value nested :=
    (op, value) :: if op.takesRaw then [] else ofRightSide value nested
  fields := List.flatten
  branches op _ := ofBranches op
  nothing := []

/-- What an operation on an operand comes to. -/
inductive Asked (r : Resolver Expr) (left : Expr) : Operation → Json → Expr → Prop
  | nothing : Asked r left .isIn (.arr []) (.or [])
  | listed {value : Json} {values : List Json} (filled : value ≠ .arr []) (nonempty : values ≠ []) :
    Asked r left .isIn value (.inList left values)
  | contained (value : Json) : Asked r left .has value (.contains left value)
  | compared {op : Operation} {comparison : Sql.Comparison} {value : Json} {right : Expr}
    (known : Sql.Comparison.ofOperation? op = some comparison)
    (compiled : operand Sql.backend r value = .ok right) :
    Asked r left op value (.compare left comparison right)

theorem asked_of_argument {r : Resolver Expr} {op : Operation} {value : Json} {arg : Argument Expr}
    (h : argument Sql.backend r op value = .ok arg) (left : Expr) :
    Asked r left op value (Sql.backend.apply op left arg) := by
  cases op
  case isIn =>
    cases h
    match value with
    | .arr [] => exact .nothing
    | .arr (first :: rest) => exact .listed nofun (List.cons_ne_nil first rest)
    | .obj _ | .str _ | .num _ | .bool _ | .null => exact .listed nofun (List.cons_ne_nil _ [])
  case has =>
    cases h
    exact .contained value
  all_goals
    obtain ⟨right, hright, heq⟩ := bind_eq_ok.mp h
    cases heq
    exact .compared rfl hright

/-- A well-shaped condition with the tests that operations ask for. -/
structure Answers (asked : List (Operation × Json)) (e : Expr) : Prop where
  wellShaped : e.Everywhere Expr.WellShaped
  tests : e.tests = asked.map fun (op, value) => op.test value

namespace Answers

theorem flatten {parts : List (List (Operation × Json))} {es : List Expr}
    (h : List.Forall₂ Answers parts es) :
    (∀ e ∈ es, e.Everywhere Expr.WellShaped) ∧
      es.flatMap Expr.tests = parts.flatten.map fun (op, value) => op.test value := by
  induction h with
  | nil => exact ⟨nofun, rfl⟩
  | cons hfirst hrest ih =>
      refine ⟨List.forall_mem_cons.mpr ⟨hfirst.wellShaped, ih.1⟩, ?_⟩
      rw [List.flatMap_cons, List.flatten_cons, List.map_append, hfirst.tests, ih.2]

theorem group {parts : List (List (Operation × Json))} {es : List Expr}
    (h : List.Forall₂ Answers parts es) (hne : es ≠ []) (connective : Sql.Connective) :
    Answers parts.flatten (.group connective es) where
  wellShaped := Expr.wellShaped_group (fun hempty => absurd hempty hne) (flatten h).1
  tests := (Expr.tests_group connective hne).trans (flatten h).2

theorem joined {op : Operator} {parts : List (List (Operation × Json))} {es : List Expr} {e : Expr}
    (hparts : List.Forall₂ Answers parts es) (h : Joined Sql.backend op es e) :
    Answers (ofBranches op parts) e := by
  cases h with
  | negated first rest =>
      cases hparts with
      | cons hfirst hrest => exact ⟨Expr.wellShaped_not hfirst.wellShaped, hfirst.tests⟩
  | single notNegated only =>
      cases hparts with
      | cons hfirst hrest =>
          cases hrest
          cases op <;> simpa [ofBranches] using hfirst
  | disjunction nonempty => exact group hparts nonempty .or
  | conjunction notNegated nonempty =>
      have hgroup := group hparts nonempty .and
      cases op <;> first | exact hgroup | exact absurd rfl notNegated

variable {r : Resolver Expr} {value : Json} {nested : List (Operation × Json)}

theorem ofRightSide (hnested : ∀ e, condition Sql.backend r .and value = .ok e → Answers nested e)
    {right : Expr} (h : operand Sql.backend r value = .ok right) :
    Answers (Filter.ofRightSide value nested) right := by
  rcases operand_eq_ok.mp h with ⟨entries, rfl, hgroup⟩ | ⟨hscalar, rfl⟩
  · exact hnested right hgroup
  · have hvalue : Answers [] (.value value) := ⟨.intro trivial nofun, rfl⟩
    cases value with
    | obj entries => exact absurd rfl (hscalar entries)
    | _ => exact hvalue

/-- An operation on a column asks for its own test, and a document on its right for more. An empty
list is answered by an empty disjunction. -/
theorem asked (hnested : ∀ e, condition Sql.backend r .and value = .ok e → Answers nested e)
    {op : Operation} {qualifier : Option String} {column : String} {e : Expr}
    (h : Asked r (.column qualifier column) op value e) (name : String) :
    Answers (operations.field op name value nested) e := by
  cases h with
  | nothing => exact ⟨Expr.wellShaped_group (fun _ => rfl) nofun, rfl⟩
  | listed filled nonempty =>
      refine ⟨Expr.wellShaped_inList qualifier column nonempty, ?_⟩
      cases value with
      | arr items => cases items <;> first | rfl | contradiction
      | _ => rfl
  | contained =>
      refine ⟨Expr.wellShaped_contains qualifier column value, ?_⟩
      cases value <;> rfl
  | @compared _ comparison _ right known compiled =>
      have hraw : op.takesRaw = false := by cases op <;> first | rfl | cases known
      have htest : op.test value = .comparison comparison := by
        cases op <;> cases known <;> rfl
      have hright := ofRightSide hnested compiled
      refine ⟨Expr.wellShaped_compare qualifier column comparison hright.wellShaped, ?_⟩
      change Test.comparison comparison :: ([] ++ right.tests) = _
      rw [List.nil_append, hright.tests, ← htest]
      simp [operations, hraw]

end Answers

section Document

variable {κ : Type} [DecidableEq κ] {others : κ → Type}
  {scope : Scope (Sql.ExpressionsWith others)}

/-- A condition on a stored model answers the value it was compiled from: it is well-shaped, and
makes the tests that the value asks for, in order. -/
theorem answers_condition (hstored : scope.model.IsStored) {op : Operator} {value : Json} {e : Expr}
    (h : condition Sql.backend (scope.resolve none Sql.backend) op value = .ok e) :
    Answers (operations.of op value) e := by
  refine Reading.agrees operations scope none Sql.backend Answers
    ?reference ?field ?fields ?branches h
  case reference => exact fun name column found => ⟨Expr.wellShaped_column _ _, rfl⟩
  case field =>
    intro op name value arg e hnested harg happlied
    have hasked (qualifier : Option String) (column : String) :
        Answers (operations.ofField op (name, value))
          (Sql.backend.apply op (.column qualifier column) arg) :=
      .asked hnested (asked_of_argument harg _) name
    rcases happlied with ⟨found, permitted⟩ | @⟨related, _, found, bound, permitted⟩ |
      ⟨found, bound, handler⟩
    · exact hasked _ _
    · have hinside := hasked (some related.table) related.value
      exact ⟨Expr.wellShaped_amongKeys _ _ _ _ hinside.wellShaped,
        (Expr.tests_amongKeys ..).trans hinside.tests⟩
    · exact absurd found (hstored _ _)
  case fields =>
    exact fun op parts es e hparts joined => .joined hparts (joined_of_joinFields joined)
  case branches =>
    exact fun op entries parts es e joins hparts joined => .joined hparts (joined_of_join joined)

/-- A filter compiled from a document on a stored model is well shaped at every depth, and makes the
tests that its document asks for, in order: a group of it is empty exactly where the document has
`$in` with an empty array, and then it is a disjunction. The text has no empty list anywhere, and
nothing that looks like one, unless a name does. -/
theorem wellShaped_compile (hstored : scope.model.IsStored) {document : Json} {filter : Expr}
    (hfilter : compile Sql.backend (scope.resolve none Sql.backend) (some document) =
      .ok (some filter)) :
    filter.Everywhere Expr.WellShaped ∧
      filter.tests = ((operations.of .and document).map fun (op, value) => op.test value) ∧
      ∀ d : Sql.Dialect,
        (∃ tokens, d.tokens (filter.render d).sql = some tokens ∧
          ¬ "IN ()".toList.map Sql.Token.char <:+: tokens) ∧
        ("IN ()".toList <:+: (filter.render d).sql.toList →
          ∃ name ∈ filter.names, "IN ()".toList <:+: name.toList) := by
  obtain ⟨value, heq, hcondition⟩ := compile_eq_some.mp hfilter
  cases heq
  have hanswers := answers_condition hstored hcondition
  exact ⟨hanswers.wellShaped, hanswers.tests, Expr.render_of_wellShaped hanswers.wellShaped⟩

end Document

/-- Empty lists: for a relation, and under a negation whose second branch is discarded. -/
def emptyLists : Json :=
  .obj [
    ("$in", .obj [("tag", .arr []), ("name", .arr [.str "a"])]),
    ("$not", .arr [
      .obj [("$in", .obj [("name", .arr [])])],
      .obj [("$in", .obj [("tag", .arr [])])]]),
    ("name", .obj [("$gt", .obj [("joined", .arr [])])])]

/-- Each empty list that is compiled has an empty disjunction for its test. The discarded one has
none, and as a value to compare with, an empty array is a literal. -/
theorem wellShaped_compile_emptyLists :
    let scope : Scope (Sql.ExpressionsWith Empty.elim) := ⟨"user", .taggedUsers⟩
    scope.model.IsStored ∧ ∃ filter : Expr,
      compile Sql.backend (scope.resolve none Sql.backend) (some emptyLists) = .ok (some filter) ∧
      filter.Everywhere Expr.WellShaped ∧
      filter.tests = [.nothing .or, .listed, .nothing .or, .comparison .eq, .comparison .gt] ∧
      ∀ d : Sql.Dialect,
        (∃ tokens, d.tokens (filter.render d).sql = some tokens ∧
          ¬ "IN ()".toList.map Sql.Token.char <:+: tokens) ∧
        ("IN ()".toList <:+: (filter.render d).sql.toList →
          ∃ name ∈ filter.names, "IN ()".toList <:+: name.toList) := by
  intro scope
  have hstored : scope.model.IsStored := Model.isStored_taggedUsers
  obtain ⟨filter, hfilter⟩ : ∃ filter : Expr,
      compile Sql.backend (scope.resolve none Sql.backend) (some emptyLists) =
        .ok (some filter) := ⟨_, rfl⟩
  exact ⟨hstored, filter, hfilter, wellShaped_compile hstored hfilter⟩

end Filter

end Criteria
