import Criteria.Proofs.Filter.Reading
import Criteria.Proofs.Sql.Evaluation

/-!
The meaning of a document on a row of the model's table, without regard to any query language, and
its agreement with what the compiled condition comes to in the database. A document's fields speak
of the row, while a compiled relation opens a statement of its own, so the agreement rests on what
is around an expression: as no relation reads from the model's table, the row stays in sight.
-/

namespace Criteria

/-- A stored model over a table that none of its relations reads from. -/
structure Model.RestsOn {ι : Type} {E : ι → Type} (model : Model E) (table : String) : Prop where
  bound : model.binding.map (·.table) = some table
  stored : model.IsStored
  away : ∀ name related, model.fields.get? name = some (.relation related) → related.table ≠ table

namespace Filter

open Sql (Expr Interpretation Row Database Scopes)

section Meaning

variable {V : Type} (I : Interpretation V) (db : Database V)

/-- The value of a right-hand side: that of the document nested there, or the literal. -/
def rightValue (value : Json) (nested : V) : V :=
  match value with
  | .obj _ => nested
  | value => I.literal value

/-- What an operation asks of a field's value. Being in a value that is no array is being equal to
it. -/
def asks (op : Operation) (value : Json) (nested : V) (left : V) : Bool :=
  match op with
  | .eq => I.eq left (rightValue I value nested)
  | .neq => I.ne left (rightValue I value nested)
  | .gt => I.gt left (rightValue I value nested)
  | .gte => I.ge left (rightValue I value nested)
  | .lt => I.lt left (rightValue I value nested)
  | .lte => I.le left (rightValue I value nested)
  | .like => I.like left (rightValue I value nested)
  | .has => I.contains left (I.literal value)
  | .isIn =>
    match value with
    | .arr list => list.any fun item => I.eq left (I.literal item)
    | single => I.eq left (I.literal single)

/-- The value of branches. A single entry stands for itself; `$not` looks at the first branch. -/
def joinValues (op : Operator) (entries : Bool) : List V → V
  | [] => I.ofBool false
  | first :: rest =>
    match op, entries, rest with
    | .not, _, _ => I.ofBool (!I.truth first)
    | _, true, [] => first
    | .or, _, _ => I.disjunction (first :: rest)
    | _, _, _ => I.conjunction (first :: rest)

def joinFieldValues : List V → V
  | [only] => only
  | several => I.conjunction several

variable {ι : Type} {E : ι → Type} (model : Model E) (row : Row V)

/-- Whether a field has a value with a property: for a plain field the one in its column, for a
relation that of some row whose key is the row's match column. -/
def hasValue (name : String) (property : V → Bool) : Bool :=
  match model.fields.get? name with
  | some (.plain column) => property (row (column.column.getD name))
  | some (.relation related) =>
    (db related.table).any fun other =>
      property (other related.value) && I.eq (row related.matchColumn) (other related.key)
  | _ => false

/-- The value of a plain field. -/
def columnValue (name : String) : V :=
  match model.fields.get? name with
  | some (.plain column) => row (column.column.getD name)
  | _ => I.ofBool false

/-- The value at each kind of position, on one row. A reference is the value of its column, and a
field asks whether it has a value with the property that its operation asks for. -/
def meaningReading : Reading V where
  reference := columnValue I model row
  field op name value nested := I.ofBool (hasValue I db model row name (asks I op value nested))
  fields := joinFieldValues I
  branches := joinValues I
  nothing := I.ofBool false

/-- The value of an operator on a value, on one row. -/
def meaning : Operator → Json → V :=
  (meaningReading I db model row).of

end Meaning

section Conditions

variable {V : Type} {I : Interpretation V} {db : Database V} {scopes : Scopes V}

/-- Joined conditions have the value that joining their values gives, where each has a value in
front of these rows. -/
theorem eval_join {op : Operator} {entries : Bool} {es : List Expr} {e : Expr} {values : List V}
    (h : join Sql.backend op entries es = .ok e)
    (hvalues : es.map (Expr.eval I db scopes) = values.map some) :
    e.eval I db scopes = some (joinValues I op entries values) := by
  cases es with
  | nil => cases h
  | cons first rest =>
      obtain ⟨value, others, rfl, hfirst, hrest⟩ := List.map_eq_cons_iff.mp hvalues.symm
      cases op with
      | not =>
          cases h
          change (Expr.not first).eval I db scopes = _
          simp [Expr.eval, ← hfirst, joinValues]
      | or =>
          cases h
          cases rest with
          | nil =>
              obtain rfl := List.map_eq_nil_iff.mp hrest
              cases entries
              · exact Sql.eval_group hvalues
              · exact hfirst.symm
          | cons second rest =>
              obtain ⟨secondValue, others, rfl, hsecond, hrest⟩ := List.map_eq_cons_iff.mp hrest
              cases entries <;> exact Sql.eval_group hvalues
      | _ =>
          cases h
          cases rest with
          | nil =>
              obtain rfl := List.map_eq_nil_iff.mp hrest
              cases entries
              · exact Sql.eval_group hvalues
              · exact hfirst.symm
          | cons second rest =>
              obtain ⟨secondValue, others, rfl, hsecond, hrest⟩ := List.map_eq_cons_iff.mp hrest
              cases entries <;> exact Sql.eval_group hvalues

theorem eval_joinFields {op : Operator} {es : List Expr} {e : Expr} {values : List V}
    (h : joinFields Sql.backend op es = .ok e)
    (hvalues : es.map (Expr.eval I db scopes) = values.map some) :
    e.eval I db scopes = some (joinFieldValues I values) := by
  cases es with
  | nil => cases h
  | cons first rest =>
      obtain ⟨value, others, rfl, hfirst, hrest⟩ := List.map_eq_cons_iff.mp hvalues.symm
      cases rest with
      | nil =>
          cases h
          obtain rfl := List.map_eq_nil_iff.mp hrest
          exact hfirst.symm
      | cons second rest =>
          cases h
          obtain ⟨secondValue, others, rfl, hsecond, hrest⟩ := List.map_eq_cons_iff.mp hrest
          exact Sql.eval_group hvalues

variable {r : Resolver Expr} {op : Operation} {value : Json} {nested : V}

theorem eval_operand (hnested : ∀ e, condition Sql.backend r .and value = .ok e →
      e.eval I db scopes = some nested)
    {rhs : Expr} (h : operand Sql.backend r value = .ok rhs) :
    rhs.eval I db scopes = some (rightValue I value nested) := by
  rcases operand_eq_ok.mp h with ⟨entries, rfl, hgroup⟩ | ⟨hscalar, rfl⟩
  · exact hnested rhs hgroup
  · change some (I.literal value) = _
    cases value with
    | obj entries => exact absurd rfl (hscalar entries)
    | _ => rfl

/-- An operation applied to an operand comes to what it asks of the operand's value. A nested
document counts with the value it has in front of the same rows. -/
theorem eval_apply (hnested : ∀ e, condition Sql.backend r .and value = .ok e →
      e.eval I db scopes = some nested)
    {arg : Argument Expr} (harg : argument Sql.backend r op value = .ok arg) {left : Expr}
    {leftValue : V} (hleft : left.eval I db scopes = some leftValue) :
    (Sql.backend.apply op left arg).eval I db scopes =
      some (I.ofBool (asks I op value nested leftValue)) := by
  have hlist (list : List Json) : (Expr.inList left list).eval I db scopes =
      some (I.ofBool (list.any fun item => I.eq leftValue (I.literal item))) := by
    simp [Expr.eval, hleft]
  have hsingle : (Expr.inList left [value]).eval I db scopes =
      some (I.ofBool (I.eq leftValue (I.literal value))) := by
    simp [hlist]
  cases op
  case isIn =>
    cases harg
    cases value with
    | arr list =>
        cases list with
        | nil => rfl
        | cons first rest => exact hlist (first :: rest)
    | _ => exact hsingle
  case has =>
    cases harg
    change (Expr.contains left value).eval I db scopes = _
    simp [Expr.eval, hleft, asks]
  all_goals
    obtain ⟨rhs, hrhs, heq⟩ := bind_eq_ok.mp harg
    cases heq
    have hright := eval_operand hnested hrhs
    change (Expr.compare left _ rhs).eval I db scopes = _
    simp [Expr.eval, hleft, hright, asks, Interpretation.test]

end Conditions

section Agreement

variable {V : Type} (I : Interpretation V) (db : Database V) (table : String) (row : Row V)

/-- An expression has a value wherever the row of the table is in sight, whatever is around it. -/
def Means (e : Expr) (value : V) : Prop :=
  ∀ scopes : Scopes V, scopes.lookup table = some row → e.eval I db scopes = some value

variable {I db table row}

/-- A column qualified by the table of the innermost row of that name has the value of the row. -/
theorem means_column (name : String) :
    Means I db table row (.column (some table) name) (row name) := by
  intro scopes hrow
  rw [Expr.eval, hrow]
  rfl

theorem Means.map_eval {values : List V} {es : List Expr}
    (h : List.Forall₂ (fun value e => Means I db table row e value) values es) {scopes : Scopes V}
    (hrow : scopes.lookup table = some row) :
    es.map (Expr.eval I db scopes) = values.map some :=
  map_eq_map_of_forall₂ (h.imp fun _ _ he => he scopes hrow)

variable {κ : Type} {others : κ → Type} {scope : Scope (Sql.ExpressionsWith others)}

theorem means_plainColumn (hmodel : scope.model.RestsOn table) (name : String)
    (column : ColumnField) :
    Means I db table row (scope.plainColumn Sql.backend name column)
      (row (column.column.getD name)) := by
  rw [Scope.plainColumn, hmodel.bound]
  exact means_column _

/-- A condition on a field states of the field's values what its operation asks. In a relation the
right-hand side is evaluated in front of a related row, with the model's row still in sight. -/
theorem means_applied (hmodel : scope.model.RestsOn table) {r : Resolver Expr} {op : Operation}
    {value : Json}
    (hnested : ∀ e, condition Sql.backend r .and value = .ok e →
      Means I db table row e (meaning I db scope.model row .and value))
    {arg : Argument Expr} (harg : argument Sql.backend r op value = .ok arg) {name : String}
    {e : Expr} (happlied : scope.Applied none Sql.backend name op arg e) :
    Means I db table row e (I.ofBool (hasValue I db scope.model row name
      (asks I op value (meaning I db scope.model row .and value)))) := by
  intro scopes hrow
  rcases happlied with ⟨found, permitted⟩ | @⟨related, binding, found, bound, permitted⟩ |
    ⟨found, bound, handler⟩
  · rw [hasValue, found]
    exact eval_apply (fun e he => hnested e he scopes hrow) harg
      (means_plainColumn hmodel name _ scopes hrow)
  · have htable : binding.table = table := by simpa [bound] using hmodel.bound
    rw [hasValue, found, htable]
    refine Sql.eval_amongKeys (means_column _ scopes hrow) fun other => ?_
    -- The related row comes in front; looking past it takes that its table is another one.
    have hother : table ≠ related.table := (hmodel.away name related found).symm
    have hsight : ((related.table, other) :: scopes).lookup table = some row := by
      rw [List.lookup_cons, beq_false_of_ne hother, hrow]
    exact eval_apply (fun e he => hnested e he _ hsight) harg
      (means_column _ _ List.lookup_cons_self)
  · exact absurd found (hmodel.stored _ _)

variable [DecidableEq κ]

/-- Whatever a value compiles to has the value's meaning, in front of whatever rows it comes to
stand. -/
theorem means_condition (hmodel : scope.model.RestsOn table) {op : Operator} {value : Json}
    {e : Expr} (h : condition Sql.backend (scope.resolve none Sql.backend) op value = .ok e) :
    Means I db table row e (meaning I db scope.model row op value) := by
  refine (meaningReading I db scope.model row).agrees scope none Sql.backend
    (fun value e => Means I db table row e value) ?reference ?field ?fields ?branches h
  case reference =>
    intro name column found
    change Means I db table row _ (columnValue I scope.model row name)
    rw [columnValue, found]
    exact means_plainColumn hmodel name column
  case field =>
    intro op name value arg e hnested harg happlied
    exact means_applied hmodel hnested harg happlied
  case fields =>
    intro op values es e parts joined scopes hrow
    exact eval_joinFields joined (Means.map_eval parts hrow)
  case branches =>
    intro op entries values es e hjoins parts joined scopes hrow
    exact eval_join joined (Means.map_eval parts hrow)

/-- In any database, a compiled filter comes to the document's own meaning on every row of the
model's table. -/
theorem eval_compile (hmodel : scope.model.RestsOn table) {document : Json} {filter : Expr}
    (hfilter : compile Sql.backend (scope.resolve none Sql.backend) (some document) =
      .ok (some filter)) :
    filter.eval I db [(table, row)] = some (meaning I db scope.model row .and document) := by
  obtain ⟨value, heq, hcondition⟩ := compile_eq_some.mp hfilter
  cases heq
  exact means_condition hmodel hcondition _ List.lookup_cons_self

end Agreement

/-- The natural numbers in their order, with divisibility for containment. -/
def naturals : Interpretation Nat where
  literal
    | .num (.int n) => n.toNat
    | _ => 0
  eq left right := left = right
  ne left right := left ≠ right
  lt left right := left < right
  le left right := left ≤ right
  gt left right := left > right
  ge left right := left ≥ right
  like left right := left = right
  contains left right := left % right = 0
  ofBool := Bool.toNat
  truth n := n ≠ 0
  truth_ofBool := by decide

/-- A user by number, whose name is the number too. -/
def userRow (id : Nat) : Row Nat
  | "id" | "name" => id
  | _ => 0

/-- User 3 has the tags 3 and 8, and user 4 the tags 4 and 7. -/
def tagTables : Database Nat
  | "user_tags" => [(3, 3), (3, 8), (4, 4), (4, 7)].map fun (user, tag) column =>
    if column = "user_id" then user else tag
  | _ => []

/-- Tagged with the own name, but not with 7. -/
def namesakeDocument : Json :=
  .obj [
    ("tag", .obj [("$ref", .str "name")]),
    ("$not", .arr [.obj [("$in", .obj [("tag", .arr [.num (.int 7)])])]])]

/-- User 3 has a tag of the own name and not the tag 7. User 4 has both, so the negation rules the
row out. -/
theorem eval_compile_namesakeDocument :
    let scope : Scope (Sql.ExpressionsWith Empty.elim) := ⟨"user", .taggedUsers⟩
    scope.model.RestsOn "users" ∧ ∃ filter : Expr,
      compile Sql.backend (scope.resolve none Sql.backend) (some namesakeDocument) =
        .ok (some filter) ∧
      filter.eval naturals tagTables [("users", userRow 3)] = some 1 ∧
      filter.eval naturals tagTables [("users", userRow 4)] = some 0 := by
  intro scope
  have hmodel : scope.model.RestsOn "users" :=
    ⟨rfl, Model.isStored_taggedUsers, Model.table_taggedUsers⟩
  obtain ⟨filter, hfilter⟩ : ∃ filter : Expr,
      compile Sql.backend (scope.resolve none Sql.backend) (some namesakeDocument) =
        .ok (some filter) := ⟨_, rfl⟩
  exact ⟨hmodel, filter, hfilter, eval_compile hmodel hfilter, eval_compile hmodel hfilter⟩

end Filter

end Criteria
