import Criteria.Filter
import Criteria.Proofs.Traversal

/-!
What a successful compilation is made of: the branches of a group and the fields of an operation
compile one by one, each by itself, and the results are joined. Everything that is said of compiled
filters rests on this one inversion.
-/

namespace Criteria

/-- True of the operators over branches. -/
def Operator.joins : Operator → Bool
  | .and | .or | .not => true
  | .ref | .field _ => false

namespace Filter

variable {ε σ : Type} (b : Backend ε σ) (r : Resolver ε)

/-- A value as the right-hand side of a comparison. -/
def operand (value : Json) : Except CompileError ε :=
  rightSide b value (condition b r .and value)

def entryCondition (entry : String × Json) : Except CompileError ε := do
  match ← Key.read entry.1 with
  | .operator op => condition b r op entry.2
  | .field field => do
    let rhs ← operand b r entry.2
    (← r field).compare b .eq rhs

/-- The condition of an operation on one of its fields. -/
def fieldCondition (op : Operation) (field : String × Json) : Except CompileError ε := do
  let found ← r field.1
  if op.takesRaw then found.member b op field.2
  else do found.compare b op (← operand b r field.2)

/-- What an operation is applied to, given the value of one of its fields. -/
def argument (op : Operation) (value : Json) : Except CompileError (Argument ε) :=
  if op.takesRaw then .ok (.raw value) else do return .operand (← operand b r value)

/-- The object of one entry. -/
def single (entry : String × Json) : Json :=
  .obj [entry]

theorem groups_eq_mapM (items : List Json) :
    groups b r items = items.mapM (condition b r .and) := by
  induction items with
  | nil => rfl
  | cons item rest ih => rw [groups, ih, List.mapM_cons]

theorem entryConditions_eq_mapM (entries : List (String × Json)) :
    entryConditions b r entries = entries.mapM (entryCondition b r) := by
  induction entries with
  | nil => rfl
  | cons entry rest ih =>
      rw [entryConditions, ih, List.mapM_cons, entryCondition, bind_assoc]
      congr 1
      funext key
      cases key with
      | operator op => rfl
      | field name => simp only [operand, bind_assoc]

theorem fieldConditions_eq_mapM (op : Operation) (fields : List (String × Json)) :
    fieldConditions b r op fields = fields.mapM (fieldCondition b r op) := by
  induction fields with
  | nil => rfl
  | cons field rest ih =>
      rw [fieldConditions, ih, List.mapM_cons, fieldCondition, bind_assoc]
      congr 1
      funext found
      split
      · rfl
      · simp only [operand, bind_assoc]

/-- The elements of an array are groups of their own. They are compiled in order and then joined. -/
theorem condition_arr {op : Operator} (h : op.joins) (items : List Json) :
    condition b r op (.arr items) = (items.mapM (condition b r .and) >>= join b op false) := by
  rw [← groups_eq_mapM]
  cases op <;> first | rfl | cases h

/-- The entries of an object are compiled in order and then joined. The joining is told that they
are entries, since a single one stands for itself. -/
theorem condition_obj {op : Operator} (h : op.joins) (entries : List (String × Json)) :
    condition b r op (.obj entries) = (entries.mapM (entryCondition b r) >>= join b op true) := by
  rw [← entryConditions_eq_mapM]
  cases op <;> first | rfl | cases h

theorem condition_scalar {op : Operator} (h : op.joins) {value : Json}
    (noArray : ∀ items, value ≠ .arr items) (noObject : ∀ entries, value ≠ .obj entries) :
    condition b r op value = .error (.malformed (.notBranches op value)) := by
  cases value with
  | arr items => exact absurd rfl (noArray items)
  | obj entries => exact absurd rfl (noObject entries)
  | _ => cases op <;> first | rfl | cases h

/-- The fields of an operation are compiled in order and joined as one condition. -/
theorem condition_field (op : Operation) (fields : List (String × Json)) :
    condition b r (.field op) (.obj fields) =
      (fields.mapM (fieldCondition b r op) >>= joinFields b (.field op)) := by
  rw [← fieldConditions_eq_mapM]
  rfl

/-- A group of one entry is the entry's own condition: nothing is put around a single condition by
`$and`. -/
theorem condition_single (entry : String × Json) :
    condition b r .and (single entry) = entryCondition b r entry := by
  rw [single, condition_obj b r rfl, List.mapM_cons]
  cases entryCondition b r entry <;> rfl

theorem fields_single (op : Operation) (field : String × Json) :
    condition b r (.field op) (single field) = fieldCondition b r op field := by
  rw [single, condition_field, List.mapM_cons]
  cases fieldCondition b r op field <;> rfl

/-- How an operator on a value comes to a condition, one step deep. -/
inductive Compiled : Operator → Json → ε → Prop
  | reference {name : String} {field : ResolvedField ε} {e : ε} (resolved : r name = .ok field)
      (alone : field.alone "ref" = .ok e) : Compiled .ref (.str name) e
  | fields {op : Operation} {fields : List (String × Json)} {es : List ε} {e : ε}
      (parts : List.Forall₂ (fun field e => fieldCondition b r op field = .ok e) fields es)
      (joined : joinFields b (.field op) es = .ok e) : Compiled (.field op) (.obj fields) e
  | items {op : Operator} {items : List Json} {es : List ε} {e : ε} (joins : op.joins)
      (parts : List.Forall₂ (fun item e => condition b r .and item = .ok e) items es)
      (joined : join b op false es = .ok e) : Compiled op (.arr items) e
  | entries {op : Operator} {entries : List (String × Json)} {es : List ε} {e : ε}
      (joins : op.joins)
      (parts : List.Forall₂ (fun entry e => entryCondition b r entry = .ok e) entries es)
      (joined : join b op true es = .ok e) : Compiled op (.obj entries) e

variable {b r}

theorem compiled_of_condition {op : Operator} {value : Json} {e : ε}
    (h : condition b r op value = .ok e) : Compiled b r op value e := by
  cases value with
  | arr items =>
      have hjoins : op.joins := by cases op <;> first | rfl | cases h
      rw [condition_arr b r hjoins] at h
      obtain ⟨es, hparts, hjoined⟩ := bind_eq_ok.mp h
      exact .items hjoins (mapM_eq_ok.mp hparts) hjoined
  | obj entries =>
      by_cases hjoins : op.joins
      · rw [condition_obj b r hjoins] at h
        obtain ⟨es, hparts, hjoined⟩ := bind_eq_ok.mp h
        exact .entries hjoins (mapM_eq_ok.mp hparts) hjoined
      · cases op with
        | field op =>
            rw [condition_field] at h
            obtain ⟨es, hparts, hjoined⟩ := bind_eq_ok.mp h
            exact .fields (mapM_eq_ok.mp hparts) hjoined
        | ref => cases h
        | and => exact absurd rfl hjoins
        | or => exact absurd rfl hjoins
        | not => exact absurd rfl hjoins
  | str name =>
      cases op with
      | ref =>
          rw [condition] at h
          obtain ⟨field, hfield, halone⟩ := bind_eq_ok.mp h
          exact .reference hfield halone
      | _ => cases h
  | _ => cases op <;> cases h

/-- A right-hand side is a nested document if it is an object, and a literal if it is anything
else. -/
theorem operand_eq_ok {value : Json} {rhs : ε} :
    operand b r value = .ok rhs ↔
      (∃ entries, value = .obj entries ∧ condition b r .and value = .ok rhs) ∨
      ((∀ entries, value ≠ .obj entries) ∧ rhs = b.literal value) := by
  cases value <;> simp [operand, rightSide, eq_comm]

/-- The condition on a field applies the operation to what the field's value compiles to. The field
has to be found, the value to compile, and the field to take the operation. -/
theorem fieldCondition_eq_ok {op : Operation} {name : String} {value : Json} {e : ε} :
    fieldCondition b r op (name, value) = .ok e ↔
      ∃ field arg, r name = .ok field ∧ argument b r op value = .ok arg ∧
        field.apply b op arg = .ok e := by
  rw [fieldCondition, bind_eq_ok]
  by_cases hraw : op.takesRaw
  · simp [hraw, argument, ResolvedField.member]
  · simp [hraw, argument, ResolvedField.compare, bind_eq_ok, pure, Except.pure]

theorem Key.read_eq_operator {key : String} {op : Operator} :
    Key.read key = .ok (.operator op) ↔ Operator.ofKey? key = some op := by
  rw [Key.read]
  split
  next found known => simp [known]
  next unknown => split <;> simp [unknown]

theorem Key.read_eq_field {key name : String} :
    Key.read key = .ok (.field name) ↔ ¬ Operator.hasSigil key ∧ name = key := by
  rw [Key.read]
  split
  next op known => simp [Operator.hasSigil_of_ofKey? known]
  next unknown =>
    split
    next sigil => simp [sigil]
    next bare => simp [bare, eq_comm]

/-- An entry states its operator of its value, or equality of its field. Its key decides which: with
a sigil it is an operator or nothing. -/
theorem entryCondition_eq_ok {key : String} {value : Json} {e : ε} :
    entryCondition b r (key, value) = .ok e ↔
      (∃ op, Operator.ofKey? key = some op ∧ condition b r op value = .ok e) ∨
      (¬ Operator.hasSigil key ∧ fieldCondition b r .eq (key, value) = .ok e) := by
  have hargument (rhs : ε) : argument b r .eq value = .ok (.operand rhs) ↔
      operand b r value = .ok rhs := by
    simp [argument, Operation.takesRaw, bind_eq_ok, pure, Except.pure]
  rw [entryCondition, bind_eq_ok]
  constructor
  · rintro ⟨read, hread, h⟩
    cases read with
    | operator op => exact .inl ⟨op, Key.read_eq_operator.mp hread, h⟩
    | field name =>
        obtain ⟨hbare, rfl⟩ := Key.read_eq_field.mp hread
        obtain ⟨rhs, hrhs, h⟩ := bind_eq_ok.mp h
        obtain ⟨field, hfield, happly⟩ := bind_eq_ok.mp h
        exact .inr ⟨hbare, fieldCondition_eq_ok.mpr
          ⟨field, .operand rhs, hfield, (hargument rhs).mpr hrhs, happly⟩⟩
  · rintro (⟨op, hkey, h⟩ | ⟨hbare, h⟩)
    · exact ⟨_, Key.read_eq_operator.mpr hkey, h⟩
    · obtain ⟨field, arg, hfield, harg, happly⟩ := fieldCondition_eq_ok.mp h
      obtain ⟨rhs, hrhs, heq⟩ := bind_eq_ok.mp harg
      cases heq
      exact ⟨_, Key.read_eq_field.mpr ⟨hbare, rfl⟩,
        bind_eq_ok.mpr ⟨rhs, hrhs, bind_eq_ok.mpr ⟨field, hfield, happly⟩⟩⟩

/-- What conditions are joined to: there are some, and one of them stands for itself, the first is
negated, or all make one group. -/
inductive Joined (b : Backend ε σ) : Operator → List ε → ε → Prop
  | negated (first : ε) (rest : List ε) : Joined b .not (first :: rest) (b.not first)
  | single {op : Operator} (notNegated : op ≠ .not) (only : ε) : Joined b op [only] only
  | disjunction {es : List ε} (nonempty : es ≠ []) : Joined b .or es (b.or es)
  | conjunction {op : Operator} (notNegated : op ≠ .not) {es : List ε} (nonempty : es ≠ []) :
    Joined b op es (b.and es)

theorem joined_of_join {op : Operator} {entries : Bool} {es : List ε} {e : ε}
    (h : join b op entries es = .ok e) : Joined b op es e := by
  cases es with
  | nil => cases h
  | cons first rest =>
      cases op with
      | not =>
          cases h
          exact .negated first rest
      | or =>
          cases h
          split
          next single =>
            obtain rfl : rest = [] := by simp_all
            exact .single (by simp) first
          next => exact .disjunction (by simp)
      | _ =>
          cases h
          split
          next single =>
            obtain rfl : rest = [] := by simp_all
            exact .single (by simp) first
          next => exact .conjunction (by simp) (by simp)

/-- The conditions of an operation's fields are joined as those of `$and` are. -/
theorem joined_of_joinFields {op : Operator} {es : List ε} {e : ε}
    (h : joinFields b op es = .ok e) : Joined b .and es e := by
  cases es with
  | nil => cases h
  | cons first rest =>
      cases rest with
      | nil =>
          cases h
          exact .single (by simp) _
      | cons second rest =>
          cases h
          exact .conjunction (by simp) (by simp)

/-- There are four documents without a filter: none at all, `null`, and the empty object and
array. -/
theorem compile_eq_none {document : Option Json} :
    compile b r document = .ok none ↔
      document = none ∨ document = some .null ∨ document = some (.obj []) ∨
        document = some (.arr []) := by
  cases document with
  | none => simp [compile]
  | some value =>
      cases value with
      | arr items =>
          cases items <;>
            simp [compile, Json.isBlank, bind_eq_ok, pure, Except.pure]
      | obj entries =>
          cases entries <;>
            simp [compile, Json.isBlank, bind_eq_ok, pure, Except.pure]
      | _ => simp [compile, Json.isBlank]

/-- A document compiles to the condition that `$and` states of it, if there is one. Of a blank
document it states none. -/
theorem compile_eq_some {document : Option Json} {e : ε} :
    compile b r document = .ok (some e) ↔
      ∃ value, document = some value ∧ condition b r .and value = .ok e := by
  have hempty : condition b r .and (.arr []) ≠ .ok e ∧ condition b r .and (.obj []) ≠ .ok e := by
    constructor <;> exact nofun
  cases document with
  | none => simp [compile]
  | some value =>
      cases value with
      | arr items =>
          cases items <;>
            simp [compile, Json.isBlank, bind_eq_ok, pure, Except.pure, hempty]
      | obj entries =>
          cases entries <;>
            simp [compile, Json.isBlank, bind_eq_ok, pure, Except.pure, hempty]
      | _ => simp [compile, Json.isBlank, condition]

end Filter

end Criteria
