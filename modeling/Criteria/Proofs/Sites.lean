import Mathlib.Logic.Relation
import Criteria.Proofs.Filter.Rewriting
import Criteria.Proofs.Query.Compilation

/-!
The sites of a document that are compiled, and the fields that are named there. The same string can
be an operator's key, a field or a literal: it depends on where it stands. Sites lie also in the
branches that a result leaves out, but never inside the values of membership tests or in arrays on
a right-hand side.
-/

namespace Criteria

namespace Filter

/-- A part of a document that is compiled, with what it is compiled as. -/
inductive Site where
  /-- The value of an operator. -/
  | stated (op : Operator) (value : Json)
  /-- An entry of a group, by a key that can be an operator or a field. -/
  | entry (key : String) (value : Json)
  /-- A field of an operation, or a bare field, which has to equal its value. -/
  | applied (op : Operation) (name : String) (value : Json)

namespace Site

/-- The sites that come next, one step deeper. -/
inductive Next : Site → Site → Prop
  | item {op : Operator} {items : List Json} {item : Json} (joins : op.joins)
    (mem : item ∈ items) : Next (.stated op (.arr items)) (.stated .and item)
  | entry {op : Operator} {entries : List (String × Json)} {key : String} {value : Json}
    (joins : op.joins) (mem : (key, value) ∈ entries) :
    Next (.stated op (.obj entries)) (.entry key value)
  | field {op : Operation} {fields : List (String × Json)} {name : String} {value : Json}
    (mem : (name, value) ∈ fields) :
    Next (.stated (.field op) (.obj fields)) (.applied op name value)
  | operator {key : String} {op : Operator} (known : Operator.ofKey? key = some op)
    (value : Json) : Next (.entry key value) (.stated op value)
  | bare {key : String} (bare : ¬ Operator.hasSigil key) (value : Json) :
    Next (.entry key value) (.applied .eq key value)
  | nested {op : Operation} (compares : op.takesRaw = false) (name : String)
    (entries : List (String × Json)) :
    Next (.applied op name (.obj entries)) (.stated .and (.obj entries))

/-- The sites at any depth, itself included. -/
abbrev Reaches : Site → Site → Prop :=
  Relation.ReflTransGen Next

/-- The field that is named right at the site, and what for. -/
def use? : Site → Option (String × Use)
  | .stated .ref (.str name) => some (name, .reference)
  | .applied op name _ => some (name, .operation op)
  | _ => none

/-- True of the fields that are named at the site or deeper, with what they are wanted for. -/
def Names (p : Site) (name : String) (use : Use) : Prop :=
  ∃ q, p.Reaches q ∧ q.use? = some (name, use)

theorem Names.here {p : Site} {name : String} {use : Use} (h : p.use? = some (name, use)) :
    p.Names name use :=
  ⟨p, .refl, h⟩

theorem Names.of_reaches {p q : Site} {name : String} {use : Use} (hreach : p.Reaches q)
    (h : q.Names name use) : p.Names name use := by
  obtain ⟨deeper, hdeeper, huse⟩ := h
  exact ⟨deeper, hreach.trans hdeeper, huse⟩

theorem Names.of_next {p q : Site} {name : String} {use : Use} (hnext : p.Next q)
    (h : q.Names name use) : p.Names name use :=
  h.of_reaches (.single hnext)

/-- What is named at a site is named by the site itself or at one of those that come next. -/
theorem names_iff {p : Site} {name : String} {use : Use} :
    p.Names name use ↔ p.use? = some (name, use) ∨ ∃ q, p.Next q ∧ q.Names name use := by
  constructor
  · rintro ⟨deeper, hreach, huse⟩
    rcases hreach.cases_head with rfl | ⟨q, hnext, hreach⟩
    · exact .inl huse
    · exact .inr ⟨q, hnext, deeper, hreach, huse⟩
  · rintro (huse | ⟨q, hnext, hname⟩)
    · exact .here huse
    · exact .of_next hnext hname

section Names

variable {name : String} {use : Use}

theorem names_iff_of_unused {p : Site} (hunused : p.use? = none) :
    p.Names name use ↔ ∃ q, p.Next q ∧ q.Names name use := by
  rw [names_iff, hunused]
  simp

theorem names_items {op : Operator} (hjoins : op.joins) {items : List Json} :
    (Site.stated op (.arr items)).Names name use ↔
      ∃ item ∈ items, (Site.stated .and item).Names name use := by
  rw [names_iff_of_unused (by cases op <;> rfl)]
  constructor
  · rintro ⟨q, hnext, hname⟩
    cases hnext with
    | item joins mem => exact ⟨_, mem, hname⟩
  · rintro ⟨item, hmem, hname⟩
    exact ⟨_, .item hjoins hmem, hname⟩

/-- An object names what its entries name, also those whose conditions are discarded afterwards,
since they are compiled all the same. -/
theorem names_entries {op : Operator} (hjoins : op.joins) {entries : List (String × Json)} :
    (Site.stated op (.obj entries)).Names name use ↔
      ∃ entry ∈ entries, (Site.entry entry.1 entry.2).Names name use := by
  rw [names_iff_of_unused (by cases op <;> rfl)]
  constructor
  · rintro ⟨q, hnext, hname⟩
    cases hnext with
    | entry joins mem => exact ⟨_, mem, hname⟩
    | field mem => cases hjoins
  · rintro ⟨entry, hmem, hname⟩
    exact ⟨_, .entry hjoins hmem, hname⟩

theorem names_fields {op : Operation} {fields : List (String × Json)} :
    (Site.stated (.field op) (.obj fields)).Names name use ↔
      ∃ field ∈ fields, (Site.applied op field.1 field.2).Names name use := by
  rw [names_iff_of_unused rfl]
  constructor
  · rintro ⟨q, hnext, hname⟩
    cases hnext with
    | entry joins mem => cases joins
    | field mem => exact ⟨_, mem, hname⟩
  · rintro ⟨field, hmem, hname⟩
    exact ⟨_, .field hmem, hname⟩

theorem names_reference {field : String} :
    (Site.stated .ref (.str field)).Names name use ↔ field = name ∧ .reference = use := by
  rw [names_iff]
  constructor
  · rintro (huse | ⟨q, hnext, -⟩)
    · cases huse
      exact ⟨rfl, rfl⟩
    · cases hnext
  · rintro ⟨rfl, rfl⟩
    exact .inl rfl

theorem names_entry_of_operator {key : String} {op : Operator}
    (hkey : Operator.ofKey? key = some op) {value : Json} :
    (Site.entry key value).Names name use ↔ (Site.stated op value).Names name use := by
  rw [names_iff_of_unused rfl]
  constructor
  · rintro ⟨q, hnext, hname⟩
    cases hnext with
    | operator known =>
        cases hkey.symm.trans known
        exact hname
    | bare bare => exact absurd (Operator.hasSigil_of_ofKey? hkey) bare
  · intro hname
    exact ⟨_, .operator hkey value, hname⟩

theorem names_entry_of_bare {key : String} (hbare : ¬ Operator.hasSigil key) {value : Json} :
    (Site.entry key value).Names name use ↔ (Site.applied .eq key value).Names name use := by
  rw [names_iff_of_unused rfl]
  constructor
  · rintro ⟨q, hnext, hname⟩
    cases hnext with
    | operator known => exact absurd (Operator.hasSigil_of_ofKey? known) hbare
    | bare => exact hname
  · intro hname
    exact ⟨_, .bare hbare value, hname⟩

/-- An operation names its field, and what its value names if the value is a nested document. A
value that is taken as it stands names nothing, even if it looks like a document. -/
theorem names_applied {op : Operation} {field : String} {value : Json} :
    (Site.applied op field value).Names name use ↔ (field = name ∧ .operation op = use) ∨
      op.takesRaw = false ∧ ∃ entries, value = .obj entries ∧
        (Site.stated .and value).Names name use := by
  rw [names_iff]
  constructor
  · rintro (huse | ⟨q, hnext, hname⟩)
    · cases huse
      exact .inl ⟨rfl, rfl⟩
    · cases hnext with
      | nested compares field entries => exact .inr ⟨compares, entries, rfl, hname⟩
  · rintro (⟨rfl, rfl⟩ | ⟨hcompares, entries, rfl, hname⟩)
    · exact .inl rfl
    · exact .inr ⟨_, .nested hcompares field entries, hname⟩

end Names

/-- The sites that come next are of smaller values, or of the same value with less left to do. -/
noncomputable def depth : Site → Nat
  | .stated _ value => 3 * sizeOf value
  | .applied _ _ value => 3 * sizeOf value + 1
  | .entry _ value => 3 * sizeOf value + 2

/-- Sites that come next are less deep, so everything that goes from a site to the next ones comes
to an end. -/
theorem Next.depth_lt {p q : Site} (h : p.Next q) : q.depth < p.depth := by
  cases h with
  | item joins mem =>
      have hsize := List.sizeOf_lt_of_mem mem
      simp only [depth, Json.arr.sizeOf_spec]
      omega
  | entry joins mem =>
      have hsize := List.sizeOf_lt_of_mem mem
      simp only [depth, Json.obj.sizeOf_spec, Prod.mk.sizeOf_spec] at hsize ⊢
      omega
  | field mem =>
      have hsize := List.sizeOf_lt_of_mem mem
      simp only [depth, Json.obj.sizeOf_spec, Prod.mk.sizeOf_spec] at hsize ⊢
      omega
  | operator known value =>
      simp only [depth]
      omega
  | bare bare value =>
      simp only [depth]
      omega
  | nested compares name entries =>
      simp only [depth]
      omega

end Site

/-- True of the sites of a document that states a condition. -/
def Reads (document : Option Json) (site : Site) : Prop :=
  ∃ value, document = some value ∧ IsFilter value ∧ (Site.stated .and value).Reaches site

/-- True of the fields that a document names, with what they are wanted for. -/
def Names (document : Option Json) (name : String) (use : Use) : Prop :=
  ∃ site, Reads document site ∧ site.use? = some (name, use)

end Filter

/-- True of the fields that a query names, with what they are wanted for. -/
def Query.Names (query : Query) (name : String) (use : Use) : Prop :=
  Filter.Names query.filter name use ∨ use = .order ∧ Order.Names query.order name

end Criteria
