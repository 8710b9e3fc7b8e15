import Criteria.Proofs.Agreement
import Criteria.Proofs.Sql.Evaluation

/-!
Expressions up to the order of the operands in their groups, at any depth. The order is the only
thing that may differ, and it is not seen from the value that an expression has in a database.
-/

namespace Criteria.Sql

namespace Expr

/-- The same expression, except for the order in which operands stand in its groups. -/
inductive Reordered : Expr → Expr → Prop
  | refl (e : Expr) : Reordered e e
  | trans {first second third : Expr} (before : Reordered first second)
      (after : Reordered second third) : Reordered first third
  | permute (op : Connective) {operands operands' : List Expr} (perm : operands.Perm operands') :
    Reordered (.group op operands) (.group op operands')
  | operand (op : Connective) (front back : List Expr) {e e' : Expr} (inside : Reordered e e') :
    Reordered (.group op (front ++ e :: back)) (.group op (front ++ e' :: back))
  | left (op : Comparison) (right : Expr) {left left' : Expr} (inside : Reordered left left') :
    Reordered (.compare left op right) (.compare left' op right)
  | right (left : Expr) (op : Comparison) {right right' : Expr} (inside : Reordered right right') :
    Reordered (.compare left op right) (.compare left op right')
  | not {e e' : Expr} (inside : Reordered e e') : Reordered (.not e) (.not e')
  | inList (values : List Json) {e e' : Expr} (inside : Reordered e e') :
    Reordered (.inList e values) (.inList e' values)
  | inSelect (select : Select) {e e' : Expr} (inside : Reordered e e') :
    Reordered (.inSelect e select) (.inSelect e' select)
  | contains (value : Json) {e e' : Expr} (inside : Reordered e e') :
    Reordered (.contains e value) (.contains e' value)
  | among (e : Expr) (select : Select) {filter filter' : Expr} (inside : Reordered filter filter') :
    Reordered (.inSelect e (select.filterBy (some filter)))
      (.inSelect e (select.filterBy (some filter')))
  | subquery (select : Select) {filter filter' : Expr} (inside : Reordered filter filter') :
    Reordered (.subquery (select.filterBy (some filter)))
      (.subquery (select.filterBy (some filter')))

namespace Reordered

variable {e e' : Expr}

/-- Operands that are reordered inside keep the group reordered, without a change in its own
order. -/
theorem group (op : Connective) {operands operands' : List Expr}
    (h : List.Forall₂ Reordered operands operands') :
    (Expr.group op operands).Reordered (.group op operands') := by
  -- The operands in front have been exchanged already.
  have hbehind (front : List Expr) :
      (Expr.group op (front ++ operands)).Reordered (.group op (front ++ operands')) := by
    induction h generalizing front with
    | nil => exact .refl _
    | @cons first first' rest rest' hfirst hrest ih =>
        have hothers := ih (front ++ [first'])
        rw [List.append_assoc, List.append_assoc] at hothers
        exact (operand op front rest hfirst).trans hothers
  exact hbehind []

theorem compare (op : Comparison) {left left' right right' : Expr}
    (hleft : left.Reordered left') (hright : right.Reordered right') :
    (Expr.compare left op right).Reordered (.compare left' op right') :=
  (hleft.left op right).trans (hright.right left' op)

/-- Every operation that compares keeps the relation in both of its operands. -/
theorem comparison {op : Operation} (hop : op.takesRaw = false) {left left' right right' : Expr}
    (hleft : left.Reordered left') (hright : right.Reordered right') :
    (Expr.comparison op left right).Reordered (.comparison op left' right') := by
  cases op
  case isIn => cases hop
  case has => cases hop
  all_goals exact hleft.compare _ hright

/-- A membership test keeps the relation in its operand; the values are not touched. -/
theorem member {op : Operation} (hop : op.takesRaw) (values : Json) (h : e.Reordered e') :
    (Expr.member op e values).Reordered (.member op e' values) := by
  cases op
  case isIn =>
    cases values with
    | arr list =>
        cases list with
        | nil => exact .refl _
        | cons first rest => exact h.inList _
    | _ => exact h.inList _
  case has => exact h.contains values
  all_goals cases hop

/-- What stands behind an operand is tested for what it is: a subquery stays one when it is
reordered inside. -/
theorem among_rows (left : Expr) {rows rows' : Expr} (h : rows.Reordered rows') :
    (left.among rows).Reordered (left.among rows') := by
  induction h with
  | refl rows => exact .refl _
  | trans before after ih ih' => exact ih.trans ih'
  | permute op perm => exact .right left .eq (.permute op perm)
  | operand op front back inside => exact .right left .eq (.operand op front back inside)
  | left op right inside => exact .right left .eq (.left op right inside)
  | right other op inside => exact .right left .eq (.right other op inside)
  | not inside => exact .right left .eq (.not inside)
  | inList values inside => exact .right left .eq (.inList values inside)
  | inSelect select inside => exact .right left .eq (.inSelect select inside)
  | contains value inside => exact .right left .eq (.contains value inside)
  | among e select inside => exact .right left .eq (.among e select inside)
  | subquery select inside => exact .among left select inside

theorem among_left {left left' : Expr} (h : left.Reordered left') (rows : Expr) :
    (left.among rows).Reordered (left'.among rows) := by
  cases rows with
  | subquery select => exact .inSelect select h
  | _ => exact .left .eq _ h

end Reordered

end Expr

/-- The backend keeps the relation in everything that it builds, which is what carries it through a
compilation. -/
theorem related_reordered : Backend.Related .fixed Expr.Reordered
    (fun sort sort' => sort.expr.Reordered sort'.expr ∧ sort.direction = sort'.direction)
    backend backend where
  column _ _ := .refl _
  literal _ _ h := h ▸ .refl _
  compare _ _ _ _ _ hop hleft hright := hleft.comparison hop hright
  member _ _ _ values _ hop hleft hvalues := hvalues ▸ hleft.member hop values
  subquery _ _ _ _ h := .subquery _ h
  among _ left' rows _ hleft hrows := (hleft.among_left rows).trans (hrows.among_rows left')
  and _ _ h := .group .and h
  or _ _ h := .group .or h
  not _ _ h := h.not
  ascending _ _ h := ⟨h, rfl⟩
  descending _ _ h := ⟨h, rfl⟩

section Evaluation

variable {V : Type} {I : Interpretation V} {db : Database V}

/-- Conjunction and disjunction do not depend on the order of their operands, as they ask only
whether all of them hold, or any. -/
theorem Interpretation.group_perm (op : Connective) {values values' : List V}
    (h : values.Perm values') : I.group op values = I.group op values' := by
  cases op with
  | and => exact congrArg I.ofBool h.all_eq
  | or => exact congrArg I.ofBool h.any_eq

/-- Expressions have values if all have one, and then theirs. Put this way, the order shows only in
the list of values. -/
theorem evalExprs_eq_filterMap (scopes : Scopes V) (exprs : List Expr) :
    evalExprs I db scopes exprs =
      if exprs.all fun e => (e.eval I db scopes).isSome then
        some (exprs.filterMap (Expr.eval I db scopes)) else none := by
  induction exprs with
  | nil => rfl
  | cons expr rest ih =>
      rw [evalExprs, ih]
      cases hexpr : expr.eval I db scopes with
      | none => simp [hexpr]
      | some value =>
          simp only [List.all_cons, List.filterMap_cons, hexpr, Option.isSome_some, Bool.true_and]
          cases rest.all fun e => (e.eval I db scopes).isSome <;> rfl

/-- A group has the same value with its operands in any other order, also where one of them has
none. -/
theorem eval_permute (op : Connective) {operands operands' : List Expr}
    (h : operands.Perm operands') (scopes : Scopes V) :
    (Expr.group op operands).eval I db scopes = (Expr.group op operands').eval I db scopes := by
  have hvalues := I.group_perm op (h.filterMap (Expr.eval I db scopes))
  rw [Expr.eval, Expr.eval, evalExprs_eq_filterMap, evalExprs_eq_filterMap, h.all_eq]
  cases operands'.all fun e => (e.eval I db scopes).isSome with
  | true => exact congrArg some hvalues
  | false => rfl

/-- Reordered expressions have the same value in every database, step by step: a condition that is
reordered inside of a statement is evaluated in front of the same rows. -/
theorem Expr.Reordered.eval_eq {e e' : Expr} (h : e.Reordered e') (scopes : Scopes V) :
    e.eval I db scopes = e'.eval I db scopes := by
  have hamong (value : V) (scopes : Scopes V) (select : Select) {filter filter' : Expr}
      (ih : ∀ scopes, filter.eval I db scopes = filter'.eval I db scopes) :
      evalAmong I db scopes value (select.filterBy (some filter)) =
        evalAmong I db scopes value (select.filterBy (some filter')) := by
    obtain ⟨columns, table, _, order, limit, offset⟩ := select
    rcases table with _ | table
    · rfl
    rcases order with _ | ⟨first, rest⟩
    · rcases limit with _ | limit
      · rcases offset with _ | offset
        · simp [Clauses.filterBy, evalAmong, evalClause, ih]
        · rfl
      · rfl
    · rfl
  induction h generalizing scopes with
  | refl e => rfl
  | trans before after ih ih' => rw [ih, ih']
  | permute op perm => exact eval_permute op perm scopes
  | operand op front back inside ih =>
      simp only [eval, evalExprs_eq_filterMap, List.all_append, List.all_cons,
        List.filterMap_append, List.filterMap_cons, ih]
  | left op right inside ih => rw [eval, eval, ih]
  | right left op inside ih => rw [eval, eval, ih]
  | not inside ih => rw [eval, eval, ih]
  | inList values inside ih => rw [eval, eval, ih]
  | inSelect select inside ih => rw [eval, eval, ih]
  | contains value inside ih => rw [eval, eval, ih]
  | among e select inside ih => simp [eval, hamong _ _ select ih]
  | subquery select inside ih => rfl

end Evaluation

end Criteria.Sql
