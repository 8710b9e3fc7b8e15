import Criteria.Proofs.Filter.Induction

/-!
Reading something off a document from its leaves upwards, at the positions that are compiled and in
the order in which they are. What a reading says of a document and what is true of the condition
that the document compiles to agree, as soon as they do for references, for single fields, and for
parts that are joined.
-/

namespace Criteria.Filter

/-- What a reading says at each kind of position, given what it says of the parts. -/
structure Reading (α : Type) where
  /-- A reference to a field. -/
  reference : String → α
  /-- An operation on a field, given its value and what the value says as a nested document. -/
  field : Operation → String → Json → α → α
  /-- The fields of one operation. -/
  fields : List α → α
  /-- The branches of an operator; true for the entries of an object. -/
  branches : Operator → Bool → List α → α
  /-- What does not compile. -/
  nothing : α

namespace Reading

variable {α : Type} (reading : Reading α)

mutual

/-- What an operator with a value says. -/
def of : Operator → Json → α
  | .ref, .str name => reading.reference name
  | .field op, .obj fields => reading.fields (ofFields op fields)
  | op, .arr items => reading.branches op false (ofItems items)
  | op, .obj entries => reading.branches op true (ofEntries entries)
  | _, _ => reading.nothing

def ofItems : List Json → List α
  | [] => []
  | item :: rest => of .and item :: ofItems rest

def ofEntries : List (String × Json) → List α
  | [] => []
  | (key, value) :: rest =>
    (match Operator.ofKey? key with
      | some op => of op value
      | none => reading.field .eq key value (of .and value)) :: ofEntries rest

def ofFields (op : Operation) : List (String × Json) → List α
  | [] => []
  | (name, value) :: rest => reading.field op name value (of .and value) :: ofFields op rest

end

def ofField (op : Operation) (field : String × Json) : α :=
  reading.field op field.1 field.2 (reading.of .and field.2)

def ofEntry (entry : String × Json) : α :=
  match Operator.ofKey? entry.1 with
  | some op => reading.of op entry.2
  | none => reading.ofField .eq entry

theorem ofItems_eq_map (items : List Json) :
    reading.ofItems items = items.map (reading.of .and) := by
  induction items with
  | nil => rfl
  | cons item rest ih => rw [ofItems, ih, List.map_cons]

theorem ofEntries_eq_map (entries : List (String × Json)) :
    reading.ofEntries entries = entries.map reading.ofEntry := by
  induction entries with
  | nil => rfl
  | cons entry rest ih =>
      rw [ofEntries, ih, List.map_cons]
      rfl

theorem ofFields_eq_map (op : Operation) (fields : List (String × Json)) :
    reading.ofFields op fields = fields.map (reading.ofField op) := by
  induction fields with
  | nil => rfl
  | cons field rest ih =>
      rw [ofFields, ih, List.map_cons]
      rfl

/-- The elements of an array are read as groups, whatever operator they stand under. -/
theorem of_arr (op : Operator) (items : List Json) :
    reading.of op (.arr items) = reading.branches op false (items.map (reading.of .and)) := by
  rw [← ofItems_eq_map]
  cases op <;> rfl

theorem of_obj {op : Operator} (h : op.joins) (entries : List (String × Json)) :
    reading.of op (.obj entries) = reading.branches op true (entries.map reading.ofEntry) := by
  rw [← ofEntries_eq_map]
  cases op <;> first | rfl | cases h

/-- The fields of an operation are read one by one and put together. -/
theorem of_fields (op : Operation) (fields : List (String × Json)) :
    reading.of (.field op) (.obj fields) = reading.fields (fields.map (reading.ofField op)) := by
  rw [← ofFields_eq_map]
  rfl

variable {ι σ : Type} [DecidableEq ι] {E : ι → Type}

/-- A relation between what is read and what is compiled holds of a document and its condition when
it holds of references and of fields, and when joining keeps it. -/
theorem agrees (scope : Scope E) (i : ι) (b : Backend (E i) σ) (rel : α → E i → Prop)
    (reference : ∀ name column, scope.model.fields.get? name = some (.plain column) →
      rel (reading.reference name) (scope.plainColumn b name column))
    (field : ∀ op name value arg e,
      (∀ nested, condition b (scope.resolve i b) .and value = .ok nested →
        rel (reading.of .and value) nested) →
      argument b (scope.resolve i b) op value = .ok arg → scope.Applied i b name op arg e →
      rel (reading.ofField op (name, value)) e)
    (fields : ∀ op parts es e, List.Forall₂ rel parts es → joinFields b (.field op) es = .ok e →
      rel (reading.fields parts) e)
    (branches : ∀ op entries parts es e, op.joins → List.Forall₂ rel parts es →
      join b op entries es = .ok e → rel (reading.branches op entries parts) e)
    {op : Operator} {value : Json} {e : E i}
    (h : condition b (scope.resolve i b) op value = .ok e) : rel (reading.of op value) e := by
  refine condition_induction scope i b (fun op value e => rel (reading.of op value) e)
    (fun op field e => rel (reading.ofField op field) e)
    reference field ?fields ?items ?entries h
  case fields =>
    intro op list es e parts joined
    rw [of_fields]
    exact fields op _ es e (List.forall₂_map_left_iff.mpr parts) joined
  case items =>
    intro op items es e joins parts joined
    rw [of_arr]
    exact branches op false _ es e joins (List.forall₂_map_left_iff.mpr parts) joined
  case entries =>
    intro op entries es e joins parts joined
    rw [of_obj _ joins]
    refine branches op true _ es e joins (List.forall₂_map_left_iff.mpr (parts.imp ?_)) joined
    rintro entry e (⟨op, hkey, hop⟩ | ⟨hbare, hfield⟩)
    · rw [ofEntry, hkey]
      exact hop
    · rw [ofEntry, Operator.ofKey?_eq_none hbare]
      exact hfield

end Reading

end Criteria.Filter
