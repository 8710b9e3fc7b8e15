import Criteria.Proofs.Sql.Readback

/-!
What tells expressions apart by their atoms. What a pair of parentheses holds begins with a term and
goes on with an operator, a connective or a clause, if at all. Where the term ends is seen from the
atoms, and what follows it gives the form of the expression.
-/

namespace Criteria.Sql

open Criteria.Sql.Expr (Elementary)

section Lists

variable {α : Type} {p : α → Bool}

/-- Where a list goes over from what has a property to what has it not is seen from the list, so
both parts are. The second part needs to lack the property at its head only. -/
theorem append_eq_append_of_head {front front' behind behind' : List α}
    (hfront : ∀ a ∈ front, p a) (hfront' : ∀ a ∈ front', p a)
    (hbehind : ∀ a ∈ behind.head?, p a = false) (hbehind' : ∀ a ∈ behind'.head?, p a = false)
    (h : front ++ behind = front' ++ behind') : front = front' ∧ behind = behind' := by
  constructor
  · rw [← takeWhile_append_of_head hfront hbehind, h, takeWhile_append_of_head hfront' hbehind']
  · rw [← dropWhile_append_of_head hfront hbehind, h, dropWhile_append_of_head hfront' hbehind']

theorem intercalate_cons_eq (separator : α) (part : List α) (rest : List (List α)) :
    [separator].intercalate (part :: rest) = part ++ rest.flatMap (separator :: ·) := by
  induction rest generalizing part with
  | nil => simp
  | cons second rest ih => rw [List.intercalate_cons_cons, ih]; simp

/-- Joined parts without a separator inside are seen from the whole. -/
theorem map_eq_map_of_intercalate {β : Type} {separator : α} (hseparator : p separator)
    {f : β → List α} {xs ys : List β} (hx : ∀ x ∈ xs, ∀ a ∈ f x, p a = false)
    (hy : ∀ y ∈ ys, ∀ a ∈ f y, p a = false) (hxne : xs ≠ []) (hyne : ys ≠ [])
    (h : [separator].intercalate (xs.map f) = [separator].intercalate (ys.map f)) :
    xs.map f = ys.map f := by
  have hxs : ([separator].intercalate (xs.map f)).splitOnP p = xs.map f :=
    splitOnP_intercalate hseparator (List.forall_mem_map.mpr hx) (by simpa using hxne)
  have hys : ([separator].intercalate (ys.map f)).splitOnP p = ys.map f :=
    splitOnP_intercalate hseparator (List.forall_mem_map.mpr hy) (by simpa using hyne)
  rw [← hxs, h, hys]

end Lists

section Terms

variable {π : Type} {close : List (Atom π) → π} {d : Dialect}

/-- What an expression holds in parentheses: the term in front, and what stands behind it. There is
nothing for an expression that is not in parentheses as a whole. -/
def Expr.held (close : List (Atom π) → π) (d : Dialect) :
    Expr → Option (List (Atom π) × List (Atom π))
  | .compare left op right =>
    some (left.atoms close d, .word (.comparison op) :: right.atoms close d)
  | .group op (first :: rest) =>
    some (first.atoms close d,
      (rest.map (Expr.atoms close d)).flatMap (.word (.connective op) :: ·))
  | .inList operand values =>
    some (operand.atoms close d, [.word .isIn,
      .inside (close ([.comma].intercalate (values.map fun content => [.value (some content)])))])
  | .inSelect operand select =>
    some (operand.atoms close d, [.word .isIn, .inside (close (atomsOfSelect close d select))])
  | .subquery select => some ([], atomsOfSelect close d select)
  | .contains target content =>
    match d with
    | .postgres => some (target.atoms close d, [.word .contains, .value (some content)])
    | .mysql => none
  | _ => none

theorem Expr.atoms_of_held {e : Expr} {front behind : List (Atom π)}
    (h : e.held close d = some (front, behind)) :
    e.atoms close d = [.inside (close (front ++ behind))] := by
  cases e with
  | group op operands =>
      cases operands with
      | nil => cases h
      | cons first rest =>
          cases h
          rw [atoms, atomsOfExprs_eq_map, intercalate_cons_eq]
  | contains target value =>
      cases d with
      | postgres => cases h; rfl
      | mysql => cases h
  | compare => cases h; rfl
  | inList => cases h; rfl
  | inSelect => cases h; rfl
  | subquery => cases h; rfl
  | _ => cases h

theorem Expr.atoms_ne_of_held {e : Expr} (h : e.held close d = none) (content : π) :
    e.atoms close d ≠ [.inside content] := by
  cases e with
  | column qualifier name => cases qualifier <;> simp [atoms]
  | group op operands =>
      cases operands with
      | nil => simp [atoms]
      | cons first rest => cases h
  | not operand => rw [atoms]; split <;> simp
  | contains target value =>
      cases d with
      | postgres => cases h
      | mysql => simp [atoms]
  | value => simp [atoms]
  | call => simp [atoms]
  | wildcard => simp [atoms]
  | _ => cases h

theorem Expr.inTerm_of_held {e : Expr} (he : e.Everywhere Elementary)
    {front behind : List (Atom π)} (h : e.held close d = some (front, behind)) :
    ∀ atom ∈ front, atom.inTerm := by
  cases e with
  | compare left op right =>
      cases h
      exact isTerm (he.inside left (by simp [children])).here
  | group op operands =>
      cases operands with
      | nil => cases h
      | cons first rest =>
          cases h
          exact isTerm (he.inside first (by simp [children])).here
  | inList operand values =>
      cases h
      exact isTerm (he.inside operand (by simp [children])).here
  | inSelect operand select =>
      cases h
      exact isTerm (he.inside operand (by simp [children])).here
  | subquery select => cases h; simp
  | contains target value =>
      cases d with
      | postgres =>
          cases h
          exact isTerm (he.inside target (by simp [children])).here
      | mysql => cases h
  | _ => cases h

theorem Expr.head_of_held {e : Expr} {front behind : List (Atom π)}
    (h : e.held close d = some (front, behind)) :
    ∀ atom ∈ behind.head?, atom.inTerm = false := by
  cases e with
  | group op operands =>
      cases operands with
      | nil => cases h
      | cons first rest => cases h; cases rest <;> simp [Atom.inTerm, Atom.inOperand]
  | contains target value =>
      cases d with
      | postgres => cases h; simp [Atom.inTerm, Atom.inOperand]
      | mysql => cases h
  | compare => cases h; simp [Atom.inTerm, Atom.inOperand]
  | inList => cases h; simp [Atom.inTerm, Atom.inOperand]
  | inSelect => cases h; simp [Atom.inTerm, Atom.inOperand]
  | subquery select =>
      cases h
      obtain ⟨columns, table, filter, order, limit, offset⟩ := select
      simp [atomsOfSelect, Atom.inTerm, Atom.inOperand]
  | _ => cases h

/-- Expressions with the same atoms hold the same in their parentheses, whether one of them is in
parentheses or not, since `close` can be undone. -/
theorem Expr.held_eq_of_atoms (hclose : Function.Injective close) {e e' : Expr}
    (he : e.Everywhere Elementary) (he' : e'.Everywhere Elementary)
    (h : e.atoms close d = e'.atoms close d) : e.held close d = e'.held close d := by
  cases hheld : e.held close d with
  | none =>
      cases hheld' : e'.held close d with
      | none => rfl
      | some held' =>
          exact absurd (h.trans (atoms_of_held hheld')) (atoms_ne_of_held hheld _)
  | some held =>
      cases hheld' : e'.held close d with
      | none => exact absurd (h.symm.trans (atoms_of_held hheld)) (atoms_ne_of_held hheld' _)
      | some held' =>
          rw [atoms_of_held hheld, atoms_of_held hheld'] at h
          have hcontent : held.1 ++ held.2 = held'.1 ++ held'.2 := by
            simpa [hclose.eq_iff] using h
          obtain ⟨hfront, hbehind⟩ := append_eq_append_of_head (inTerm_of_held he hheld)
            (inTerm_of_held he' hheld') (head_of_held hheld) (head_of_held hheld') hcontent
          exact congrArg some (Prod.ext hfront hbehind)

/-- An expression as `NOT` is written in front of it. -/
def Expr.negand (e : Expr) : Expr :=
  if e.standsAlone then e else .group .and [e]

theorem Expr.normal_negand (e : Expr) : e.negand.normal = e.normal := by
  unfold negand
  split <;> simp [normal]

/-- A negation is written as its word in front of what it negates, where a group of one operand lets
its operand stand for itself. -/
theorem Expr.atoms_not (e : Expr) :
    (Expr.not e).atoms close d = .word .not :: e.negand.atoms close d := by
  rw [atoms, negand]
  split <;> simp [atoms, atomsOfExprs]

theorem Expr.everywhere_negand {e : Expr} (h : e.Everywhere Elementary) :
    e.negand.Everywhere Elementary := by
  unfold negand
  split
  · exact h
  · exact .intro trivial (by simpa [children] using h)

theorem atomsOfSelect_eq_cons (close : List (Atom π) → π) (d : Dialect) (select : Select) :
    ∃ rest, atomsOfSelect close d select = .word (.clause .select) :: rest := by
  obtain ⟨columns, table, filter, order, limit, offset⟩ := select
  exact ⟨_, atomsOfSelect_eq close d columns table filter order limit offset⟩

/-- The forms of expressions. The tests of membership have one form: only what stands in their
inner parentheses tells them apart. -/
inductive Form where
  | column
  | value
  | compare
  | group
  | not
  | among
  | subquery
  | contains
  | other

def Expr.form : Expr → Form
  | .column .. => .column
  | .value _ => .value
  | .compare .. => .compare
  | .group .. => .group
  | .not _ => .not
  | .inList .. | .inSelect .. => .among
  | .subquery _ => .subquery
  | .contains .. => .contains
  | .call .. | .wildcard => .other

/-- The form of an expression in parentheses, by what stands behind the term in front. -/
def Form.ofBehind : List (Atom π) → Form
  | [] | .word (.connective _) :: _ => .group
  | .word (.comparison _) :: _ => .compare
  | .word .isIn :: _ => .among
  | .word .contains :: _ => .contains
  | _ => .subquery

/-- The form of an expression that is not in parentheses, by what it begins with. -/
def Form.ofFront : List (Atom π) → Form
  | .name _ :: _ => .column
  | .value _ :: _ => .value
  | .word (.unit _) :: _ => .group
  | .word .not :: _ => .not
  | _ => .contains

theorem Expr.form_of_held {e : Expr} {front behind : List (Atom π)}
    (h : e.held close d = some (front, behind)) : e.form = .ofBehind behind := by
  cases e with
  | group op operands =>
      cases operands with
      | nil => cases h
      | cons first rest => cases h; cases rest <;> rfl
  | subquery select =>
      obtain ⟨rest, hrest⟩ := atomsOfSelect_eq_cons close d select
      cases h
      rw [hrest]
      rfl
  | contains target value =>
      cases d with
      | postgres => cases h; rfl
      | mysql => cases h
  | compare => cases h; rfl
  | inList => cases h; rfl
  | inSelect => cases h; rfl
  | _ => cases h

theorem Expr.form_of_not_held {e : Expr} (he : e.Elementary) (h : e.held close d = none) :
    e.form = .ofFront (e.atoms close d) := by
  cases e with
  | column qualifier name => cases qualifier <;> rfl
  | value => rfl
  | group op operands =>
      cases operands with
      | nil => rfl
      | cons first rest => cases h
  | not operand => rw [atoms_not]; rfl
  | contains target value =>
      cases d with
      | postgres => cases h
      | mysql => rfl
  | call => exact he.elim
  | wildcard => exact he.elim
  | _ => cases h

/-- The form of an expression is seen from its atoms: inside of parentheses from what stands behind
the first operand, and outside of them from the first atom. -/
theorem Expr.form_eq_of_atoms (hclose : Function.Injective close) {e e' : Expr}
    (he : e.Everywhere Elementary) (he' : e'.Everywhere Elementary)
    (h : e.atoms close d = e'.atoms close d) : e.form = e'.form := by
  have hsame := held_eq_of_atoms hclose he he' h
  cases hheld : e.held close d with
  | none =>
      rw [form_of_not_held he.here hheld, form_of_not_held he'.here (hsame ▸ hheld), h]
  | some held => rw [form_of_held hheld, form_of_held (hsame ▸ hheld)]

end Terms

end Criteria.Sql
