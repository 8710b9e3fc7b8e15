import Criteria.Proofs.Filter.Compilation
import Criteria.Proofs.Resolution

/-!
The documents that compile, as a grammar. Its rules depend on the position: an array is a group of
conditions in one place and a literal in another, an object without entries is no filter at the top
and malformed further down, and an unknown key with the sigil is refused as an entry but is a
field's name like any other inside the fields of an operation. The main statement is that the
compiler accepts exactly the grammar's groups, and finds no filter in exactly four documents.
-/

namespace Criteria.Filter

variable {ι : Type} {E : ι → Type}

/-- The operations that the document may apply to a field: those that a stored field permits, and
those that a custom field has a handler for, written for the backend in use. Only a plain field
works in a model that is not bound to a table. -/
inductive Admits (scope : Scope E) (i : ι) (name : String) (op : Operation) : Prop
  | plain {column : ColumnField} (found : scope.model.fields.get? name = some (.plain column))
      (permitted : column.permitted = [] ∨ op ∈ column.permitted)
  | relation {related : Relation}
      (found : scope.model.fields.get? name = some (.relation related))
      (bound : scope.model.binding ≠ none)
      (permitted : related.permitted = [] ∨ op ∈ related.permitted)
  | custom {handlers : CustomField E} {build : Handler (E i)}
      (found : scope.model.fields.get? name = some (.custom handlers))
      (bound : scope.model.binding ≠ none) (handled : handlers.handlers op = some ⟨i, build⟩)

/-- The keys of the operations whose values are right-hand sides. -/
def comparisonKeys : List (String × Operation) :=
  [("$eq", .eq), ("$neq", .neq), ("$gt", .gt), ("$gte", .gte), ("$lt", .lt), ("$lte", .lte),
    ("$like", .like), ("$regex", .like)]

/-- The keys of the operations whose values are taken as they stand. -/
def membershipKeys : List (String × Operation) :=
  [("$in", .isIn), ("$contains", .has)]

mutual

/-- A condition or several. -/
inductive Group (scope : Scope E) (i : ι) : Json → Prop
  | array {items : List Json} (nonempty : items ≠ []) (each : ∀ item ∈ items, Group scope i item) :
      Group scope i (.arr items)
  | object {entries : List (String × Json)} (nonempty : entries ≠ [])
      (each : ∀ entry ∈ entries, Entry scope i entry.1 entry.2) : Group scope i (.obj entries)

/-- A key with its value, as it stands in a group. -/
inductive Entry (scope : Scope E) (i : ι) : String → Json → Prop
  | branches {key : String} {value : Json} (listed : key ∈ ["$and", "$or", "$not"])
      (group : Group scope i value) : Entry scope i key value
  | reference {name : String} {column : ColumnField}
      (found : scope.model.fields.get? name = some (.plain column)) :
      Entry scope i "$ref" (.str name)
  | comparison {key : String} {op : Operation} {fields : List (String × Json)}
      (listed : (key, op) ∈ comparisonKeys) (nonempty : fields ≠ [])
      (admitted : ∀ field ∈ fields, Admits scope i field.1 op)
      (each : ∀ field ∈ fields, Literal scope i field.2) : Entry scope i key (.obj fields)
  | membership {key : String} {op : Operation} {fields : List (String × Json)}
      (listed : (key, op) ∈ membershipKeys) (nonempty : fields ≠ [])
      (admitted : ∀ field ∈ fields, Admits scope i field.1 op) : Entry scope i key (.obj fields)
  | field {name : String} {value : Json} (bare : name.toList.head? ≠ some '$')
      (admitted : Admits scope i name .eq) (literal : Literal scope i value) :
      Entry scope i name value

/-- A right-hand side. -/
inductive Literal (scope : Scope E) (i : ι) : Json → Prop
  | value {value : Json} (noObject : ∀ entries, value ≠ .obj entries) : Literal scope i value
  | group {entries : List (String × Json)} (group : Group scope i (.obj entries)) :
      Literal scope i (.obj entries)

end

theorem not_hasSigil {key : String} :
    ¬ Operator.hasSigil key ↔ key.toList.head? ≠ some '$' :=
  not_congr decide_eq_true_iff

theorem ofKey?_joins {key : String} :
    (∃ op, Operator.ofKey? key = some op ∧ op.joins) ↔ key ∈ ["$and", "$or", "$not"] := by
  simp only [Operator.ofKey?_eq_some, List.mem_cons, List.not_mem_nil, or_false]
  constructor
  · rintro ⟨op, rfl | ⟨-, rfl⟩, hjoins⟩
    · cases op with
      | ref => cases hjoins
      | field op => cases hjoins
      | _ => simp [Operator.key]
    · cases hjoins
  · rintro (rfl | rfl | rfl)
    · exact ⟨.and, .inl rfl, rfl⟩
    · exact ⟨.or, .inl rfl, rfl⟩
    · exact ⟨.not, .inl rfl, rfl⟩

theorem ofKey?_ref {key : String} : Operator.ofKey? key = some .ref ↔ key = "$ref" := by
  simp [Operator.ofKey?_eq_some, Operator.key]

theorem ofKey?_comparison {key : String} {op : Operation} :
    (Operator.ofKey? key = some (.field op) ∧ ¬ op.takesRaw) ↔ (key, op) ∈ comparisonKeys := by
  rw [Operator.ofKey?_eq_some]
  cases op <;> simp [Operator.key, Operation.takesRaw, comparisonKeys]

theorem ofKey?_membership {key : String} {op : Operation} :
    (Operator.ofKey? key = some (.field op) ∧ op.takesRaw) ↔ (key, op) ∈ membershipKeys := by
  rw [Operator.ofKey?_eq_some]
  cases op <;> simp [Operator.key, Operation.takesRaw, membershipKeys]

theorem permits_iff {permitted : List Operation} {op : Operation} :
    permits permitted op ↔ permitted = [] ∨ op ∈ permitted := by
  simp [permits]

section Acceptance

variable {σ : Type} {scope : Scope E} {i : ι} {b : Backend (E i) σ}

/-- Some condition comes of an operation on a field exactly when the model admits the operation
there, whatever it is applied to. -/
theorem exists_applied {name : String} {op : Operation} {arg : Argument (E i)} :
    (∃ e, scope.Applied i b name op arg e) ↔ Admits scope i name op := by
  constructor
  · rintro ⟨e, h⟩
    cases h with
    | plain found permitted => exact .plain found (permits_iff.mp permitted)
    | relation found bound permitted =>
        exact .relation found (by simp [bound]) (permits_iff.mp permitted)
    | custom found bound handler => exact .custom found (by simp [bound]) handler
  · intro h
    cases h with
    | plain found permitted => exact ⟨_, .plain found (permits_iff.mpr permitted)⟩
    | relation found bound permitted =>
        obtain ⟨binding, hbinding⟩ := Option.ne_none_iff_exists'.mp bound
        exact ⟨_, .relation found hbinding (permits_iff.mpr permitted)⟩
    | custom found bound handler =>
        obtain ⟨binding, hbinding⟩ := Option.ne_none_iff_exists'.mp bound
        exact ⟨_, .custom found hbinding handler⟩

variable [DecidableEq ι]

/-- A field of an operation compiles when it admits the operation and its value, unless taken as it
stands, is a right-hand side. -/
theorem exists_fieldCondition {op : Operation} {name : String} {value : Json} :
    (∃ e, fieldCondition b (scope.resolve i b) op (name, value) = .ok e) ↔
      Admits scope i name op ∧
        (op.takesRaw ∨ ∃ rhs, operand b (scope.resolve i b) value = .ok rhs) := by
  have hargument : (∃ arg, argument b (scope.resolve i b) op value = .ok arg) ↔
      (op.takesRaw ∨ ∃ rhs, operand b (scope.resolve i b) value = .ok rhs) := by
    by_cases hraw : op.takesRaw
    · simp [argument, hraw]
    · simp [argument, hraw, bind_eq_ok, pure, Except.pure]
  rw [← hargument]
  constructor
  · rintro ⟨e, h⟩
    obtain ⟨field, arg, hfield, harg, happly⟩ := fieldCondition_eq_ok.mp h
    exact ⟨exists_applied.mp ⟨e, Scope.resolve_apply_eq_ok.mp ⟨field, hfield, happly⟩⟩, arg, harg⟩
  · rintro ⟨hadmits, arg, harg⟩
    obtain ⟨e, happlied⟩ := exists_applied.mpr hadmits
    obtain ⟨field, hfield, happly⟩ := Scope.resolve_apply_eq_ok.mpr happlied
    exact ⟨e, fieldCondition_eq_ok.mpr ⟨field, arg, hfield, harg, happly⟩⟩

/-- Parts that compile one by one and are then joined make a condition when there are any, and all
of them compile. -/
theorem exists_joined {α ε β γ : Type} {f : α → Except ε β} {xs : List α}
    {joinAll : List β → Except ε γ} (hjoin : ∀ ys, (∃ z, joinAll ys = .ok z) ↔ ys ≠ []) :
    (∃ z, (xs.mapM f >>= joinAll) = .ok z) ↔ xs ≠ [] ∧ ∀ x ∈ xs, ∃ y, f x = .ok y := by
  have hempty {ys : List β} (hys : xs.mapM f = .ok ys) : ys = [] ↔ xs = [] := by
    have hlength := (mapM_eq_ok.mp hys).length_eq
    rw [← List.length_eq_zero_iff, ← hlength, List.length_eq_zero_iff]
  rw [← exists_mapM_eq_ok]
  constructor
  · rintro ⟨z, h⟩
    obtain ⟨ys, hys, hz⟩ := bind_eq_ok.mp h
    have hne : ys ≠ [] := (hjoin ys).mp ⟨z, hz⟩
    exact ⟨mt (hempty hys).mpr hne, ys, hys⟩
  · rintro ⟨hne, ys, hys⟩
    obtain ⟨z, hz⟩ := (hjoin ys).mpr (mt (hempty hys).mp hne)
    exact ⟨z, bind_eq_ok.mpr ⟨ys, hys, hz⟩⟩

theorem exists_join {ε : Type} {b : Backend ε σ} {op : Operator} {entries : Bool} (es : List ε) :
    (∃ e, join b op entries es = .ok e) ↔ es ≠ [] := by
  cases es with
  | nil => simp [join]
  | cons first rest => cases op <;> simp [join]

theorem exists_joinFields {ε : Type} {b : Backend ε σ} {op : Operator} (es : List ε) :
    (∃ e, joinFields b op es = .ok e) ↔ es ≠ [] := by
  cases es with
  | nil => simp [joinFields]
  | cons first rest => cases rest <;> simp [joinFields]

/-- A value that the compiler takes for a group, for the fields of an operation and for a right-hand
side exactly where the grammar does. -/
structure Agrees (scope : Scope E) (i : ι) (b : Backend (E i) σ) (value : Json) : Prop where
  group : ∀ op : Operator, op.joins →
    ((∃ e, condition b (scope.resolve i b) op value = .ok e) ↔ Group scope i value)
  fields : ∀ op : Operation, (∃ e, condition b (scope.resolve i b) (.field op) value = .ok e) ↔
    ∃ fields, value = .obj fields ∧ fields ≠ [] ∧ ∀ field ∈ fields,
      Admits scope i field.1 op ∧ (op.takesRaw ∨ Literal scope i field.2)
  literal : (∃ rhs, operand b (scope.resolve i b) value = .ok rhs) ↔ Literal scope i value

/-- An entry compiles when the grammar has it, provided that its value agrees. The key alone decides
which rule of the grammar is asked. -/
theorem exists_entryCondition {key : String} {value : Json} (h : Agrees scope i b value) :
    (∃ e, entryCondition b (scope.resolve i b) (key, value) = .ok e) ↔ Entry scope i key value := by
  simp only [entryCondition_eq_ok]
  constructor
  · rintro ⟨e, ⟨op, hkey, hcondition⟩ | ⟨hbare, hfield⟩⟩
    · cases op with
      | ref =>
          obtain rfl := ofKey?_ref.mp hkey
          cases compiled_of_condition hcondition with
          | reference resolved alone =>
              obtain ⟨column, found, -⟩ := Scope.resolve_alone_eq_ok.mp ⟨_, resolved, alone⟩
              exact .reference found
          | items joins => cases joins
          | entries joins => cases joins
      | field op =>
          obtain ⟨fields, rfl, hne, hall⟩ := (h.fields op).mp ⟨e, hcondition⟩
          by_cases hraw : op.takesRaw
          · exact .membership (ofKey?_membership.mp ⟨hkey, hraw⟩) hne fun f hf => (hall f hf).1
          · exact .comparison (ofKey?_comparison.mp ⟨hkey, hraw⟩) hne (fun f hf => (hall f hf).1)
              fun f hf => (hall f hf).2.resolve_left hraw
      | and => exact .branches (ofKey?_joins.mp ⟨_, hkey, rfl⟩) ((h.group _ rfl).mp ⟨e, hcondition⟩)
      | or => exact .branches (ofKey?_joins.mp ⟨_, hkey, rfl⟩) ((h.group _ rfl).mp ⟨e, hcondition⟩)
      | not => exact .branches (ofKey?_joins.mp ⟨_, hkey, rfl⟩) ((h.group _ rfl).mp ⟨e, hcondition⟩)
    · obtain ⟨hadmits, hrhs⟩ := exists_fieldCondition.mp ⟨e, hfield⟩
      exact .field (not_hasSigil.mp hbare) hadmits
        (h.literal.mp (hrhs.resolve_left (by decide)))
  · intro hentry
    cases hentry with
    | branches listed group =>
        obtain ⟨op, hkey, hjoins⟩ := ofKey?_joins.mpr listed
        obtain ⟨e, he⟩ := (h.group op hjoins).mpr group
        exact ⟨e, .inl ⟨op, hkey, he⟩⟩
    | reference found =>
        obtain ⟨field, resolved, alone⟩ := Scope.resolve_alone_eq_ok.mpr ⟨_, found, rfl⟩
        exact ⟨_, .inl ⟨.ref, rfl, bind_eq_ok.mpr ⟨field, resolved, alone⟩⟩⟩
    | comparison listed nonempty admitted each =>
        obtain ⟨hkey, -⟩ := ofKey?_comparison.mpr listed
        obtain ⟨e, he⟩ := (h.fields _).mpr
          ⟨_, rfl, nonempty, fun f hf => ⟨admitted f hf, .inr (each f hf)⟩⟩
        exact ⟨e, .inl ⟨_, hkey, he⟩⟩
    | membership listed nonempty admitted =>
        obtain ⟨hkey, hraw⟩ := ofKey?_membership.mpr listed
        obtain ⟨e, he⟩ := (h.fields _).mpr
          ⟨_, rfl, nonempty, fun f hf => ⟨admitted f hf, .inl hraw⟩⟩
        exact ⟨e, .inl ⟨_, hkey, he⟩⟩
    | field bare admitted literal =>
        obtain ⟨e, he⟩ := exists_fieldCondition.mpr ⟨admitted, .inr (h.literal.mpr literal)⟩
        exact ⟨e, .inr ⟨not_hasSigil.mpr bare, he⟩⟩

/-- A value that is no object is never the fields of an operation, and always a literal. A group
among such values is an array. -/
theorem agrees_of_noObject {value : Json} (hobj : ∀ entries, value ≠ .obj entries)
    (hgroup : ∀ op : Operator, op.joins →
      ((∃ e, condition b (scope.resolve i b) op value = .ok e) ↔ Group scope i value)) :
    Agrees scope i b value where
  group := hgroup
  fields op := by
    constructor
    · rintro ⟨e, h⟩
      cases compiled_of_condition h with
      | fields => exact absurd rfl (hobj _)
      | items joins => cases joins
      | entries joins => cases joins
    · rintro ⟨fields, rfl, -⟩
      exact absurd rfl (hobj fields)
  literal := ⟨fun _ => .value hobj, fun _ => ⟨_, operand_eq_ok.mpr (.inr ⟨hobj, rfl⟩)⟩⟩

theorem agrees_of_scalar {value : Json} (harr : ∀ items, value ≠ .arr items)
    (hobj : ∀ entries, value ≠ .obj entries) : Agrees scope i b value := by
  refine agrees_of_noObject hobj fun op hjoins => ?_
  constructor
  · rintro ⟨e, h⟩
    cases compiled_of_condition h with
    | reference => cases hjoins
    | fields => cases hjoins
    | items => exact absurd rfl (harr _)
    | entries => exact absurd rfl (hobj _)
  · intro h
    cases h with
    | array => exact absurd rfl (harr _)
    | object => exact absurd rfl (hobj _)

/-- An array is a group when its elements are, and on a right-hand side it is a literal, whatever is
in it. -/
theorem agrees_arr {items : List Json} (ih : ∀ item ∈ items, Agrees scope i b item) :
    Agrees scope i b (.arr items) := by
  refine agrees_of_noObject (by simp) fun op hjoins => ?_
  rw [condition_arr _ _ hjoins, exists_joined exists_join]
  constructor
  · rintro ⟨hne, hall⟩
    exact .array hne fun item hitem => ((ih item hitem).group .and rfl).mp (hall item hitem)
  · rintro ⟨hne, hall⟩
    exact ⟨hne, fun item hitem => ((ih item hitem).group .and rfl).mpr (hall item hitem)⟩

/-- An object is a group when its entries are, and fields of an operation when they are admitted
with their values. On a right-hand side it is a group again. -/
theorem agrees_obj {entries : List (String × Json)}
    (ih : ∀ entry ∈ entries, Agrees scope i b entry.2) : Agrees scope i b (.obj entries) := by
  have hgroup (op : Operator) (hjoins : op.joins) :
      (∃ e, condition b (scope.resolve i b) op (.obj entries) = .ok e) ↔
        Group scope i (.obj entries) := by
    rw [condition_obj _ _ hjoins, exists_joined exists_join]
    constructor
    · rintro ⟨hne, hall⟩
      exact .object hne fun entry hentry =>
        (exists_entryCondition (ih entry hentry)).mp (hall entry hentry)
    · rintro (_ | ⟨hne, hall⟩)
      exact ⟨hne, fun entry hentry =>
        (exists_entryCondition (ih entry hentry)).mpr (hall entry hentry)⟩
  refine ⟨hgroup, fun op => ?_, ?_⟩
  · rw [condition_field, exists_joined exists_joinFields]
    have heach (field : String × Json) (hfield : field ∈ entries) :
        (∃ e, fieldCondition b (scope.resolve i b) op field = .ok e) ↔
          Admits scope i field.1 op ∧ (op.takesRaw ∨ Literal scope i field.2) := by
      rw [← (ih field hfield).literal]
      exact exists_fieldCondition
    constructor
    · rintro ⟨hne, hall⟩
      exact ⟨entries, rfl, hne, fun field hfield => (heach field hfield).mp (hall field hfield)⟩
    · rintro ⟨fields, heq, hne, hall⟩
      cases heq
      exact ⟨hne, fun field hfield => (heach field hfield).mpr (hall field hfield)⟩
  · rw [operand, rightSide, hgroup .and rfl]
    constructor
    · exact .group
    · rintro (hvalue | hgroup)
      · exact absurd rfl (hvalue entries)
      · exact hgroup

/-- By induction on the value: what a group, a mapping of fields or a right-hand side needs of its
parts is again that they agree. -/
theorem agrees (value : Json) : Agrees scope i b value := by
  induction value with
  | arr items ih => exact agrees_arr ih
  | obj entries ih => exact agrees_obj ih
  | _ => exact agrees_of_scalar (by simp) (by simp)

end Acceptance

/-- The documents that hold no filter: none at all, `null`, and the empty object and array. -/
def NoFilter (document : Option Json) : Prop :=
  document = none ∨ document = some .null ∨ document = some (.obj []) ∨ document = some (.arr [])

/-- Compilation finds no filter in exactly the four empty documents, comes to a condition for
exactly the groups of the grammar, and fails on everything else, whatever the model, its name and
the backend. -/
theorem compile_accepts [DecidableEq ι] {σ : Type} (scope : Scope E) (i : ι)
    (b : Backend (E i) σ) (document : Option Json) :
    (compile b (scope.resolve i b) document = .ok none ↔ NoFilter document) ∧
    ((∃ e, compile b (scope.resolve i b) document = .ok (some e)) ↔
      ∃ value, document = some value ∧ Group scope i value) ∧
    ((∃ error, compile b (scope.resolve i b) document = .error error) ↔
      ¬ NoFilter document ∧ ¬ ∃ value, document = some value ∧ Group scope i value) := by
  have hnone : compile b (scope.resolve i b) document = .ok none ↔ NoFilter document :=
    compile_eq_none
  have hsome : (∃ e, compile b (scope.resolve i b) document = .ok (some e)) ↔
      ∃ value, document = some value ∧ Group scope i value := by
    simp only [compile_eq_some, ← (agrees (b := b) _).group .and rfl]
    constructor
    · rintro ⟨e, value, rfl, he⟩
      exact ⟨value, rfl, e, he⟩
    · rintro ⟨value, rfl, e, he⟩
      exact ⟨e, value, rfl, he⟩
  refine ⟨hnone, hsome, ?_⟩
  rw [← hnone, ← hsome]
  cases compile b (scope.resolve i b) document with
  | error error => simp
  | ok filter => cases filter <;> simp

end Criteria.Filter
