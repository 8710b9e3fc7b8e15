import Mathlib.Data.List.Forall2
import Criteria.Proofs.Sql.Writing
import Criteria.Sql.Backend

/-!
The shape of an expression: its fragments without regard to the values bound. Expressions of one
shape have one text, whatever their values are, and the operations of the SQL backend build
expressions of one shape from operands of one shape. Only the length of a list shows in the text.
-/

namespace Criteria.Sql

open Fragment (separated textFrom)

/-- The fragment without its value. -/
def Fragment.blank : Fragment → Fragment
  | .bind _ => .bind .null
  | fixed => fixed

/-- The text of fragments does not depend on the values that they bind, only on how many come
before. -/
theorem Fragment.textFrom_map_blank (d : Dialect) (bound : Nat) (fragments : List Fragment) :
    textFrom d bound (fragments.map blank) = textFrom d bound fragments := by
  induction fragments generalizing bound with
  | nil => rfl
  | cons fragment rest ih => cases fragment <;> simp [blank, ih]

theorem Fragment.map_blank_separated (separator : String) (parts : List (List Fragment)) :
    (separated separator parts).map blank = separated separator (parts.map (List.map blank)) :=
  map_separated rfl parts

namespace Expr

def isSubquery : Expr → Bool
  | .subquery _ => true
  | _ => false

/-- Two expressions that are written alike, up to their values, and that stand alone or open a
subquery both or neither. -/
structure SameShape (e e' : Expr) : Prop where
  fragments : ∀ d, (e.fragments d).map Fragment.blank = (e'.fragments d).map Fragment.blank
  standsAlone : e.standsAlone = e'.standsAlone
  isSubquery : e.isSubquery = e'.isSubquery

theorem SameShape.refl (e : Expr) : e.SameShape e := ⟨fun _ => rfl, rfl, rfl⟩

/-- Trees of the same shape are rendered alike: the text shows where a value is bound and never
which. -/
theorem SameShape.sql_render {e e' : Expr} (h : e.SameShape e') (d : Dialect) :
    (e.render d).sql = (e'.render d).sql := by
  have htext (e : Expr) : (e.render d).sql = textFrom d 0 ((e.fragments d).map Fragment.blank) := by
    rw [render_eq, Fragment.textFrom_map_blank, Statement.ofFragments_eq]
  rw [htext e, htext e', h.fragments d]

/-- Each constructor keeps the shape when its operands do. What is not an operand, such as a
comparison or a column, has to be the same. -/
theorem SameShape.compare {left left' right right' : Expr} (op : Comparison)
    (hleft : left.SameShape left') (hright : right.SameShape right') :
    (Expr.compare left op right).SameShape (.compare left' op right') where
  fragments d := by simp [Expr.fragments, hleft.fragments d, hright.fragments d]
  standsAlone := rfl
  isSubquery := rfl

theorem map_blank_fragmentsOfExprs (d : Dialect) {es es' : List Expr}
    (h : List.Forall₂ SameShape es es') :
    (fragmentsOfExprs d es).map (List.map Fragment.blank) =
      (fragmentsOfExprs d es').map (List.map Fragment.blank) := by
  induction h with
  | nil => rfl
  | cons hfirst hrest ih => simp [fragmentsOfExprs, hfirst.fragments d, ih]

/-- A group keeps its shape operand by operand, so both sides have as many. -/
theorem SameShape.group (op : Connective) {operands operands' : List Expr}
    (h : List.Forall₂ SameShape operands operands') :
    (Expr.group op operands).SameShape (.group op operands') where
  fragments d := by
    cases h with
    | nil => rfl
    | cons hfirst hrest =>
        have hparts := map_blank_fragmentsOfExprs d (.cons hfirst hrest)
        simp only [fragmentsOfExprs] at hparts
        simp [Expr.fragments, Fragment.map_blank_separated, hparts]
  standsAlone := rfl
  isSubquery := rfl

/-- A negation puts its operand in parentheses unless the operand stands alone, and that is the same
on both sides. -/
theorem SameShape.not {operand operand' : Expr} (h : operand.SameShape operand') :
    (Expr.not operand).SameShape (.not operand') where
  fragments d := by
    rw [Expr.fragments, Expr.fragments, h.standsAlone]
    split <;> simp [h.fragments d]
  standsAlone := rfl
  isSubquery := rfl

/-- Lists of values may differ in every element but not in length, for each element has a
placeholder. -/
theorem SameShape.inList {operand operand' : Expr} (h : operand.SameShape operand')
    {values values' : List Json} (hlength : values.length = values'.length) :
    (Expr.inList operand values).SameShape (.inList operand' values') where
  fragments d := by
    have hblank (values : List Json) :
        (values.map fun value => [Fragment.bind value]).map (List.map Fragment.blank) =
          List.replicate values.length [.bind .null] := by
      have hconst : List.map Fragment.blank ∘ (fun value => [Fragment.bind value]) =
          fun _ => [.bind .null] := rfl
      rw [List.map_map, hconst, List.map_const']
    simp only [Expr.fragments, List.map_append, List.map_cons, Fragment.map_blank_separated,
      h.fragments d, hblank, hlength]
  standsAlone := rfl
  isSubquery := rfl

/-- The value that is contained may be any on either side. It is bound as a whole, whatever it holds
inside. -/
theorem SameShape.contains {target target' : Expr} (h : target.SameShape target')
    (value value' : Json) : (Expr.contains target value).SameShape (.contains target' value') where
  fragments d := by simp [Expr.fragments, h.fragments d, Fragment.blank]
  standsAlone := rfl
  isSubquery := rfl

/-- The subquery of a relation reads from the same table and the same key on both sides; only its
condition may differ. -/
theorem SameShape.keysWhere (table key : String) {filter filter' : Expr}
    (h : filter.SameShape filter') :
    (Expr.keysWhere table key filter).SameShape (.keysWhere table key filter') where
  fragments d := by
    simp [Expr.keysWhere, Clauses.ofTable, Clauses.filterBy, Expr.fragments, fragmentsOfSelect,
      fragmentsOfClause, h.fragments d]
  standsAlone := rfl
  isSubquery := rfl

theorem isSubquery_iff {e : Expr} : e.isSubquery ↔ ∃ select, e = .subquery select := by
  cases e <;> simp [isSubquery]

/-- Membership in anything but a subquery is equality, which is what the backend falls back to. -/
theorem among_of_not_isSubquery {rows : Expr} (h : ¬ rows.isSubquery) (operand : Expr) :
    operand.among rows = .compare operand .eq rows := by
  cases rows with
  | subquery select => exact absurd rfl h
  | _ => rfl

/-- Sides of the same shape are both subqueries or neither, so membership takes the same form on
both. -/
theorem SameShape.among {operand operand' rows rows' : Expr} (hoperand : operand.SameShape operand')
    (hrows : rows.SameShape rows') : (operand.among rows).SameShape (operand'.among rows') := by
  by_cases hrow : rows.isSubquery
  · obtain ⟨select, rfl⟩ := isSubquery_iff.mp hrow
    obtain ⟨select', rfl⟩ := isSubquery_iff.mp (hrows.isSubquery.symm.trans hrow)
    refine ⟨fun d => ?_, rfl, rfl⟩
    have hselect : (fragmentsOfSelect d select).map Fragment.blank =
        (fragmentsOfSelect d select').map Fragment.blank := by
      simpa [Expr.fragments] using hrows.fragments d
    simp [Expr.among, Expr.fragments, hoperand.fragments d, hselect]
  · have hrow' : ¬ rows'.isSubquery := by rwa [← hrows.isSubquery]
    rw [among_of_not_isSubquery hrow, among_of_not_isSubquery hrow']
    exact hoperand.compare .eq hrows

end Expr

end Criteria.Sql
