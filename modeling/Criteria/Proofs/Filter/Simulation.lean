import Criteria.Proofs.Agreement
import Criteria.Proofs.Filter.Compilation

/-!
Two compilations side by side: of one document for two backends, or of two documents that differ in
their literals only. Where backends and fields are related and the values in each place can stand
for one another, both fail with the same error or come to related conditions. The induction is on
the document, as the compiler's recursion is.
-/

namespace Criteria.Filter

mutual

/-- Two values under an operator that are the same, except for what stands in literal slots at the
positions that are compiled. -/
inductive Alike (slots : Slots) : Operator → Json → Json → Prop
  | same (op : Operator) (value : Json) : Alike slots op value value
  | items {op : Operator} {items items' : List Json} (joins : op.joins)
      (length : items.length = items'.length)
      (each : ∀ {item item'}, (item, item') ∈ items.zip items' → Alike slots .and item item') :
      Alike slots op (.arr items) (.arr items')
  | entries {op : Operator} {entries entries' : List (String × Json)} (joins : op.joins)
      (length : entries.length = entries'.length)
      (each : ∀ {entry entry'}, (entry, entry') ∈ entries.zip entries' →
        AlikeEntry slots entry entry') :
      Alike slots op (.obj entries) (.obj entries')
  | fields {op : Operation} {fields fields' : List (String × Json)}
      (length : fields.length = fields'.length)
      (each : ∀ {field field'}, (field, field') ∈ fields.zip fields' →
        AlikeField slots op field field') :
      Alike slots (.field op) (.obj fields) (.obj fields')

/-- Two entries of a group with the same key. -/
inductive AlikeEntry (slots : Slots) : String × Json → String × Json → Prop
  | same (entry : String × Json) : AlikeEntry slots entry entry
  | operator {key : String} {op : Operator} {value value' : Json}
      (known : Operator.ofKey? key = some op) (alike : Alike slots op value value') :
      AlikeEntry slots (key, value) (key, value')
  | field {name : String} {value value' : Json} (bare : ¬ Operator.hasSigil name)
      (alike : AlikeField slots .eq (name, value) (name, value')) :
      AlikeEntry slots (name, value) (name, value')

/-- The same field of an operation, with two values. A right-hand side that is no object is a slot,
and so is the whole value of a membership test. -/
inductive AlikeField (slots : Slots) : Operation → String × Json → String × Json → Prop
  | literal {op : Operation} {name : String} {value value' : Json} (compares : op.takesRaw = false)
      (noObject : ∀ entries, value ≠ .obj entries) (noObject' : ∀ entries, value' ≠ .obj entries)
      (slot : slots.literal value value') : AlikeField slots op (name, value) (name, value')
  | nested {op : Operation} {name : String} {entries entries' : List (String × Json)}
      (compares : op.takesRaw = false) (alike : Alike slots .and (.obj entries) (.obj entries')) :
      AlikeField slots op (name, .obj entries) (name, .obj entries')
  | raw {op : Operation} {name : String} {values values' : Json} (takes : op.takesRaw)
      (slot : slots.raw op values values') : AlikeField slots op (name, values) (name, values')

end

variable {slots : Slots}

theorem AlikeField.refl (op : Operation) (field : String × Json) :
    AlikeField slots op field field := by
  obtain ⟨name, value⟩ := field
  cases hraw : op.takesRaw with
  | true => exact .raw hraw (slots.raw_refl op value)
  | false =>
      cases value with
      | obj entries => exact .nested hraw (.same _ _)
      | _ => exact .literal hraw nofun nofun (slots.literal_refl _)

theorem AlikeField.name_eq {op : Operation} {field field' : String × Json}
    (h : AlikeField slots op field field') : field.1 = field'.1 := by
  cases h <;> rfl

/-- Arrays of branches are alike element by element; they have the same length, and nothing but an
array is like one. -/
theorem alike_arr_iff {op : Operator} (hjoins : op.joins) {items : List Json} {value : Json} :
    Alike slots op (.arr items) value ↔
      ∃ items', value = .arr items' ∧ List.Forall₂ (Alike slots .and) items items' := by
  constructor
  · intro h
    cases h with
    | same => exact ⟨items, rfl, List.forall₂_same.mpr fun item _ => .same _ item⟩
    | items joins length each => exact ⟨_, rfl, List.forall₂_iff_zip.mpr ⟨length, each⟩⟩
  · rintro ⟨items', rfl, each⟩
    obtain ⟨hlength, heach⟩ := List.forall₂_iff_zip.mp each
    exact .items hjoins hlength heach

/-- Groups that are alike have their entries in the same order under the same keys. -/
theorem alike_obj_iff {op : Operator} (hjoins : op.joins) {entries : List (String × Json)}
    {value : Json} :
    Alike slots op (.obj entries) value ↔
      ∃ entries', value = .obj entries' ∧ List.Forall₂ (AlikeEntry slots) entries entries' := by
  constructor
  · intro h
    cases h with
    | same => exact ⟨entries, rfl, List.forall₂_same.mpr fun entry _ => .same entry⟩
    | entries joins length each => exact ⟨_, rfl, List.forall₂_iff_zip.mpr ⟨length, each⟩⟩
    | fields length each => cases hjoins
  · rintro ⟨entries', rfl, each⟩
    obtain ⟨hlength, heach⟩ := List.forall₂_iff_zip.mp each
    exact .entries hjoins hlength heach

theorem alike_fields_iff {op : Operation} {fields : List (String × Json)} {value : Json} :
    Alike slots (.field op) (.obj fields) value ↔
      ∃ fields', value = .obj fields' ∧ List.Forall₂ (AlikeField slots op) fields fields' := by
  constructor
  · intro h
    cases h with
    | same => exact ⟨fields, rfl, List.forall₂_same.mpr fun field _ => .refl op field⟩
    | entries joins length each => cases joins
    | fields length each => exact ⟨_, rfl, List.forall₂_iff_zip.mpr ⟨length, each⟩⟩
  · rintro ⟨fields', rfl, each⟩
    obtain ⟨hlength, heach⟩ := List.forall₂_iff_zip.mp each
    exact .fields hlength heach

/-- Away from the positions that are compiled, values that are alike are the same, so an array in
such a place can only stand for itself. -/
theorem Alike.eq_of_arr {op : Operator} (hjoins : ¬ op.joins) {items : List Json} {value : Json}
    (h : Alike slots op (.arr items) value) : value = .arr items := by
  cases h with
  | same => rfl
  | items joins length each => exact absurd joins hjoins

theorem Alike.eq_of_ref {value value' : Json} (h : Alike slots .ref value value') :
    value' = value := by
  cases h with
  | same => rfl
  | items joins length each => cases joins
  | entries joins length each => cases joins

theorem Alike.eq_of_scalar {op : Operator} {value value' : Json}
    (harr : ∀ items, value ≠ .arr items) (hobj : ∀ entries, value ≠ .obj entries)
    (h : Alike slots op value value') : value' = value := by
  cases h with
  | same => rfl
  | items => exact absurd rfl (harr _)
  | entries => exact absurd rfl (hobj _)
  | fields => exact absurd rfl (hobj _)

/-- Under the key of an operator stands the value of that operator, alike as such. -/
theorem AlikeEntry.of_operator {key : String} {value : Json} {entry : String × Json}
    (h : AlikeEntry slots (key, value) entry) {op : Operator}
    (hkey : Operator.ofKey? key = some op) :
    ∃ value', entry = (key, value') ∧ Alike slots op value value' := by
  cases h with
  | same => exact ⟨value, rfl, .same _ _⟩
  | operator known alike =>
      rw [hkey] at known
      cases known
      exact ⟨_, rfl, alike⟩
  | field bare alike => exact absurd (Operator.hasSigil_of_ofKey? hkey) bare

theorem AlikeEntry.of_bare {name : String} {value : Json} {entry : String × Json}
    (h : AlikeEntry slots (name, value) entry) (hbare : ¬ Operator.hasSigil name) :
    ∃ value', entry = (name, value') ∧ AlikeField slots .eq (name, value) (name, value') := by
  cases h with
  | same => exact ⟨value, rfl, .refl _ _⟩
  | operator known alike => exact absurd (Operator.hasSigil_of_ofKey? known) hbare
  | field bare alike => exact ⟨_, rfl, alike⟩

theorem AlikeEntry.eq_of_unknown {key : String} {value : Json} {entry : String × Json}
    (h : AlikeEntry slots (key, value) entry) (hsigil : Operator.hasSigil key)
    (hkey : Operator.ofKey? key = none) : entry = (key, value) := by
  cases h with
  | same => rfl
  | operator known alike => simp [hkey] at known
  | field bare alike => exact absurd hsigil bare

section Parts

variable {ε σ : Type} (b : Backend ε σ) (r : Resolver ε)

/-- A field of an operation is looked up before its value is compiled, unlike a bare field. -/
theorem fieldCondition_eq (op : Operation) (field : String × Json) :
    fieldCondition b r op field =
      (r field.1 >>= fun found => argument b r op field.2 >>= fun arg => found.apply b op arg) := by
  rw [fieldCondition, argument]
  cases op.takesRaw with
  | true => rfl
  | false => simp [ResolvedField.compare]

theorem entryCondition_of_operator {key : String} {op : Operator}
    (h : Operator.ofKey? key = some op) (value : Json) :
    entryCondition b r (key, value) = condition b r op value := by
  rw [entryCondition, Key.read_eq_operator.mpr h]
  rfl

/-- A bare field's value is compiled before the field is looked up, so where both fail it is the
error of the value that is reported. -/
theorem entryCondition_of_bare {name : String} (h : ¬ Operator.hasSigil name) (value : Json) :
    entryCondition b r (name, value) =
      (argument b r .eq value >>= fun arg => r name >>= fun field => field.apply b .eq arg) := by
  rw [entryCondition, Key.read_eq_field.mpr ⟨h, rfl⟩, argument]
  simp [Operation.takesRaw, ResolvedField.compare]
  rfl

theorem entryCondition_of_unknown {key : String} (hsigil : Operator.hasSigil key)
    (hkey : Operator.ofKey? key = none) (value : Json) :
    entryCondition b r (key, value) = .error (.unknownOperator key) := by
  rw [entryCondition, Key.read, hkey]
  simp [hsigil]
  rfl

end Parts

section Compilation

variable {ε ε' σ σ' : Type} {R : ε → ε' → Prop} {Q : σ → σ' → Prop} {b : Backend ε σ}
  {b' : Backend ε' σ'} {r : Resolver ε} {r' : Resolver ε'}

theorem join_agree (hb : Backend.JoinsRelated R b b') (op : Operator) (entries : Bool)
    {es : List ε} {es' : List ε'} (h : List.Forall₂ R es es') :
    Agree R (join b op entries es) (join b' op entries es') := by
  cases h with
  | nil => exact .error _
  | @cons first first' rest rest' hfirst hrest =>
      have hempty : rest.isEmpty = rest'.isEmpty := by cases hrest <;> rfl
      have hand := hb.and _ _ (.cons hfirst hrest)
      have hor := hb.or _ _ (.cons hfirst hrest)
      have hsingle (joined : ε) (joined' : ε') (hjoined : R joined joined') :
          Agree R (.ok (if entries && rest.isEmpty then first else joined) : Except CompileError ε)
            (.ok (if entries && rest'.isEmpty then first' else joined')) := by
        rw [hempty]
        split
        · exact .ok hfirst
        · exact .ok hjoined
      cases op with
      | not => exact .ok (hb.not _ _ hfirst)
      | or => exact hsingle _ _ hor
      | _ => exact hsingle _ _ hand

theorem joinFields_agree (hb : Backend.JoinsRelated R b b') (op : Operator) {es : List ε}
    {es' : List ε'} (h : List.Forall₂ R es es') :
    Agree R (joinFields b op es) (joinFields b' op es') := by
  cases h with
  | nil => exact .error _
  | cons hfirst hrest =>
      cases hrest with
      | nil => exact .ok hfirst
      | cons hsecond hrest => exact .ok (hb.and _ _ (.cons hfirst (.cons hsecond hrest)))

/-- What an operation is applied to, given that nested documents agree: raw values may stand for one
another, and so may literals, by what the slots allow. -/
theorem argument_agree (hb : Backend.Related slots R Q b b') {op : Operation}
    {field field' : String × Json} (h : AlikeField slots op field field')
    (hnested : ∀ {value'}, Alike slots .and field.2 value' →
      Agree R (condition b r .and field.2) (condition b' r' .and value')) :
    Agree (Argument.Related slots R op) (argument b r op field.2) (argument b' r' op field'.2) := by
  cases h with
  | literal compares noObject noObject' slot =>
      have hleft := operand_eq_ok (b := b) (r := r).mpr (.inr ⟨noObject, rfl⟩)
      have hright := operand_eq_ok (b := b') (r := r').mpr (.inr ⟨noObject', rfl⟩)
      simp only [argument, compares, hleft, hright]
      exact .ok (.operand compares (hb.literal _ _ slot))
  | nested compares alike =>
      simp only [argument, compares]
      exact (hnested alike).bind fun _ _ related => .ok (.operand compares related)
  | raw takes slot =>
      simp only [argument, takes]
      exact .ok (.raw takes slot)

theorem fieldCondition_agree (hb : Backend.Related slots R Q b b')
    (hr : ∀ name, Agree (ResolvedField.Related R) (r name) (r' name)) {op : Operation}
    {field field' : String × Json} (h : AlikeField slots op field field')
    (hnested : ∀ {value'}, Alike slots .and field.2 value' →
      Agree R (condition b r .and field.2) (condition b' r' .and value')) :
    Agree R (fieldCondition b r op field) (fieldCondition b' r' op field') := by
  rw [fieldCondition_eq, fieldCondition_eq, ← h.name_eq]
  refine (hr field.1).bind fun found found' hfound => ?_
  exact (argument_agree hb h hnested).bind fun arg arg' harg => hfound.apply hb harg

theorem entryCondition_agree (hb : Backend.Related slots R Q b b')
    (hr : ∀ name, Agree (ResolvedField.Related R) (r name) (r' name)) {key : String} {value : Json}
    {entry : String × Json} (h : AlikeEntry slots (key, value) entry)
    (hnested : ∀ {op value'}, Alike slots op value value' →
      Agree R (condition b r op value) (condition b' r' op value')) :
    Agree R (entryCondition b r (key, value)) (entryCondition b' r' entry) := by
  by_cases hsigil : Operator.hasSigil key
  · cases hkey : Operator.ofKey? key with
    | none =>
        obtain rfl := h.eq_of_unknown hsigil hkey
        rw [entryCondition_of_unknown b r hsigil hkey, entryCondition_of_unknown b' r' hsigil hkey]
        exact .error _
    | some op =>
        obtain ⟨value', rfl, halike⟩ := h.of_operator hkey
        rw [entryCondition_of_operator b r hkey, entryCondition_of_operator b' r' hkey]
        exact hnested halike
  · obtain ⟨value', rfl, halike⟩ := h.of_bare hsigil
    rw [entryCondition_of_bare b r hsigil, entryCondition_of_bare b' r' hsigil]
    refine (argument_agree hb halike hnested).bind fun arg arg' harg => ?_
    exact (hr key).bind fun field field' hfield => hfield.apply hb harg

/-- Documents that are alike compile alike, given related backends and fields that resolve alike.
The induction follows the recursion of the compiler, one case for each kind of value. -/
theorem condition_agree (hb : Backend.Related slots R Q b b')
    (hr : ∀ name, Agree (ResolvedField.Related R) (r name) (r' name)) {op : Operator}
    {value value' : Json} (h : Alike slots op value value') :
    Agree R (condition b r op value) (condition b' r' op value') := by
  induction value generalizing op value' with
  | arr items ih =>
      by_cases hjoins : op.joins
      · obtain ⟨items', rfl, each⟩ := (alike_arr_iff hjoins).mp h
        rw [condition_arr b r hjoins, condition_arr b' r' hjoins]
        have hparts := ((List.forall₂_and_left _ _).mpr ⟨ih, each⟩).imp
          fun item item' hitem => hitem.1 hitem.2
        exact (Agree.mapM hparts).bind fun _ _ => join_agree hb.joins op false
      · obtain rfl := h.eq_of_arr hjoins
        cases op with
        | ref => exact .error _
        | field op => exact .error _
        | _ => exact absurd rfl hjoins
  | obj entries ih =>
      by_cases hjoins : op.joins
      · obtain ⟨entries', rfl, each⟩ := (alike_obj_iff hjoins).mp h
        rw [condition_obj b r hjoins, condition_obj b' r' hjoins]
        have hparts := ((List.forall₂_and_left _ _).mpr ⟨ih, each⟩).imp fun entry entry' hentry =>
          entryCondition_agree hb hr hentry.2 hentry.1
        exact (Agree.mapM hparts).bind fun _ _ => join_agree hb.joins op true
      · cases op with
        | field op =>
            obtain ⟨fields', rfl, each⟩ := alike_fields_iff.mp h
            rw [condition_field, condition_field]
            have hparts := ((List.forall₂_and_left _ _).mpr ⟨ih, each⟩).imp
              fun field field' hfield => fieldCondition_agree hb hr hfield.2 hfield.1
            exact (Agree.mapM hparts).bind fun _ _ => joinFields_agree hb.joins (.field op)
        | ref =>
            obtain rfl := h.eq_of_ref
            exact .error _
        | _ => exact absurd rfl hjoins
  | str name =>
      obtain rfl := h.eq_of_scalar (by simp) (by simp)
      cases op with
      | ref => exact (hr name).bind fun field field' hfield => hfield.alone "ref"
      | _ => exact .error _
  | _ =>
      obtain rfl := h.eq_of_scalar (by simp) (by simp)
      cases op <;> exact .error _

/-- Whole documents come to nothing on both sides, to the same error, or to related conditions. What
is compiled with two backends, or from two documents, is compared by this. -/
theorem compile_agree (hb : Backend.Related slots R Q b b')
    (hr : ∀ name, Agree (ResolvedField.Related R) (r name) (r' name))
    {document document' : Option Json} (h : Option.Rel (Alike slots .and) document document') :
    Agree (Option.Rel R) (compile b r document) (compile b' r' document') := by
  cases h with
  | none => exact .ok .none
  | @some value value' halike =>
      have hcondition := condition_agree hb hr halike
      have hsome {e : ε} {e' : ε'} (h : R e e') :
          Agree (Option.Rel R) (.ok (some e) : Except CompileError _) (.ok (some e')) :=
        .ok (.some h)
      cases value with
      | null =>
          obtain rfl := halike.eq_of_scalar (by simp) (by simp)
          exact .ok .none
      | arr items =>
          obtain ⟨items', rfl, each⟩ := (alike_arr_iff rfl).mp halike
          cases each with
          | nil => exact .ok .none
          | cons first rest => exact hcondition.bind fun _ _ => hsome
      | obj entries =>
          obtain ⟨entries', rfl, each⟩ := (alike_obj_iff rfl).mp halike
          cases each with
          | nil => exact .ok .none
          | cons first rest => exact hcondition.bind fun _ _ => hsome
      | _ =>
          obtain rfl := halike.eq_of_scalar (by simp) (by simp)
          exact .error _

end Compilation

end Criteria.Filter
