import Criteria.Proofs.Filter.Simulation
import Criteria.Proofs.Sql.Shape

/-!
The literals of a document have no influence on the SQL text. Two documents that differ in their
literals alone have the same fate, the same error included, and where they compile, the same text in
either dialect. What a literal says can thus not reach the text, whatever it holds.
-/

namespace Criteria

/-- The values that a value of `$in` lists. One that is no array lists itself. -/
def Json.listed : Json → List Json
  | .arr list => list
  | single => [single]

/-- Literals are free, and so are the values of membership tests, but for the number of values that
`$in` lists. -/
def Slots.free : Slots where
  literal _ _ := True
  raw op values values' := op = .isIn → values.listed.length = values'.listed.length
  literal_refl _ := trivial
  raw_refl _ _ _ := rfl

namespace Sql

open Sql.Expr (SameShape)

theorem Expr.member_isIn (left : Expr) (values : Json) :
    Expr.member .isIn left values =
      if values.listed.length = 0 then .or [] else .inList left values.listed := by
  cases values with
  | arr list => cases list <;> rfl
  | _ => rfl

theorem Expr.SameShape.member {op : Operation} (hop : op.takesRaw) {left left' : Expr}
    (hleft : left.SameShape left') {values values' : Json} (h : Slots.free.raw op values values') :
    (Expr.member op left values).SameShape (.member op left' values') := by
  cases op
  case has => exact hleft.contains values values'
  case isIn =>
    rw [member_isIn, member_isIn, h rfl]
    split
    · exact .refl _
    · exact hleft.inList (h rfl)
  all_goals cases hop

/-- The operations of the SQL backend build one shape from one shape, whatever the values are. A
list of values is shaped by its length. -/
theorem related_free : Backend.Related .free SameShape
    (fun sort sort' => sort.expr.SameShape sort'.expr) Sql.backend Sql.backend where
  column table name := .refl _
  literal value value' _ := ⟨fun _ => rfl, rfl, rfl⟩
  compare op left left' right right' hop hleft hright := by
    cases op
    case isIn => cases hop
    case has => cases hop
    all_goals exact hleft.compare _ hright
  member op left left' values values' hop hleft hvalues := hleft.member hop hvalues
  subquery table key filter filter' h := h.keysWhere table key
  among left left' rows rows' hleft hrows := hleft.among hrows
  and operands operands' h := .group .and h
  or operands operands' h := .group .or h
  not operand operand' h := h.not
  ascending operand operand' h := h
  descending operand operand' h := h

end Sql

namespace Filter

open Sql (Expr)

/-- Two documents, or their absence, that are the same except for what stands in literal slots. -/
def DifferInLiterals (document document' : Option Json) : Prop :=
  Option.Rel (Alike .free .and) document document'

/-- Documents that differ in their literals alone both hold no filter, both fail with the same
error, or both compile, to filters with the same text. -/
theorem sql_render_compile {κ : Type} [DecidableEq κ] {others : κ → Type}
    {scope : Scope (Sql.ExpressionsWith others)} (hstored : scope.model.IsStored)
    {document document' : Option Json} (h : DifferInLiterals document document') :
    let compile := compile Sql.backend (scope.resolve none Sql.backend)
    (compile document = .ok none ∧ compile document' = .ok none) ∨
    (∃ error, compile document = .error error ∧ compile document' = .error error) ∨
    ∃ filter filter' : Expr, compile document = .ok (some filter) ∧
      compile document' = .ok (some filter') ∧
      ∀ d, (filter.render d).sql = (filter'.render d).sql := by
  intro compile
  have hagree : Agree (Option.Rel Expr.SameShape) (compile document) (compile document') :=
    compile_agree Sql.related_free
      (Scope.resolve_agree (i := none) (j := none) hstored Sql.related_free) h
  generalize compile document = left, compile document' = right at hagree ⊢
  cases hagree with
  | error error => exact .inr (.inl ⟨error, rfl, rfl⟩)
  | ok related =>
      cases related with
      | none => exact .inl ⟨rfl, rfl⟩
      | some hshape => exact .inr (.inr ⟨_, _, rfl, rfl, hshape.sql_render⟩)

/-- A document with a literal slot of every kind. -/
def slottedDocument (joined first second part tag : Json) : Json :=
  .obj [
    ("name", .obj [("$neq", .obj [("joined", joined)])]),
    ("$in", .obj [("tag", .arr [first, second])]),
    ("$contains", .obj [("name", part)]),
    ("$not", .arr [.obj [("tag", tag)]])]

theorem differInLiterals_slottedDocument {joined joined' tag tag' : Json}
    (hjoined : ∀ entries, joined ≠ .obj entries) (hjoined' : ∀ entries, joined' ≠ .obj entries)
    (htag : ∀ entries, tag ≠ .obj entries) (htag' : ∀ entries, tag' ≠ .obj entries)
    (first first' second second' part part' : Json) :
    DifferInLiterals (some (slottedDocument joined first second part tag))
      (some (slottedDocument joined' first' second' part' tag')) := by
  have hliteral {op : Operation} (name : String) (hop : op.takesRaw = false) {value value' : Json}
      (h : ∀ entries, value ≠ .obj entries) (h' : ∀ entries, value' ≠ .obj entries) :
      AlikeField .free op (name, value) (name, value') := .literal hop h h' trivial
  have hfields {op : Operation} {field field' : String × Json}
      (h : AlikeField .free op field field') :
      Alike .free (.field op) (.obj [field]) (.obj [field']) :=
    alike_fields_iff.mpr ⟨_, rfl, .cons h .nil⟩
  have hsingle {entry entry' : String × Json} (h : AlikeEntry .free entry entry') :
      Alike .free .and (.obj [entry]) (.obj [entry']) :=
    (alike_obj_iff rfl).mpr ⟨_, rfl, .cons h .nil⟩
  have hname : Alike .free .and (.obj [("$neq", .obj [("joined", joined)])])
      (.obj [("$neq", .obj [("joined", joined')])]) :=
    hsingle (.operator rfl (hfields (hliteral "joined" rfl hjoined hjoined')))
  have hin : Alike .free (.field .isIn) (.obj [("tag", .arr [first, second])])
      (.obj [("tag", .arr [first', second'])]) := hfields (.raw rfl fun _ => rfl)
  have hcontains : Alike .free (.field .has) (.obj [("name", part)]) (.obj [("name", part')]) :=
    hfields (.raw rfl nofun)
  have hnot : Alike .free .not (.arr [.obj [("tag", tag)]]) (.arr [.obj [("tag", tag')]]) :=
    (alike_arr_iff rfl).mpr ⟨_, rfl,
      .cons (hsingle (.field (by decide) (hliteral "tag" rfl htag htag'))) .nil⟩
  refine .some ((alike_obj_iff rfl).mpr ⟨_, rfl, ?_⟩)
  exact .cons (.field (by decide) (.nested rfl hname)) <| .cons (.operator rfl hin) <|
    .cons (.operator rfl hcontains) <| .cons (.operator rfl hnot) .nil

/-- Neither SQL in a literal nor a document in the place of a raw value shows in the text. -/
theorem sql_render_compile_slottedDocument :
    let scope : Scope (Sql.ExpressionsWith Empty.elim) := ⟨"user", .taggedUsers⟩
    let harmless := slottedDocument (.str "a") (.str "b") (.str "c") (.str "d") (.str "e")
    let hostile := slottedDocument (.arr [.str "' OR 1=1"]) (.obj [("$ref", .str "name")])
      (.str "$1) OR (TRUE") (.obj [("$or", .null)]) (.str "\"; DROP TABLE users; --")
    scope.model.IsStored ∧ DifferInLiterals (some harmless) (some hostile) ∧
    ∃ filter filter' : Expr,
      compile Sql.backend (scope.resolve none Sql.backend) (some harmless) = .ok (some filter) ∧
      compile Sql.backend (scope.resolve none Sql.backend) (some hostile) = .ok (some filter') ∧
      ∀ d, (filter.render d).sql = (filter'.render d).sql := by
  intro scope harmless hostile
  have hstored : scope.model.IsStored := Model.isStored_taggedUsers
  have hdiffer : DifferInLiterals (some harmless) (some hostile) :=
    differInLiterals_slottedDocument (by simp) (by simp) (by simp) (by simp) ..
  obtain ⟨filter, hfilter⟩ : ∃ filter : Expr,
      compile Sql.backend (scope.resolve none Sql.backend) (some harmless) = .ok (some filter) :=
    ⟨_, rfl⟩
  rcases sql_render_compile hstored hdiffer with ⟨hnone, -⟩ | ⟨error, herror, -⟩ | hboth
  · cases hfilter.symm.trans hnone
  · cases hfilter.symm.trans herror
  · exact ⟨hstored, hdiffer, hboth⟩

end Filter

end Criteria
