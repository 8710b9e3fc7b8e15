import Criteria.Json.Reader
import Criteria.Proofs.Traversal

/-!
Readers on values. A record is read from the entries that were written of it, in the order of its
fields and without those that are left out.
-/

namespace Criteria.Json

namespace Source

theorem ofItems_eq_map (items : List Json) : ofItems items = items.map ofJson := by
  induction items with
  | nil => rfl
  | cons item rest ih => rw [ofItems, ih, List.map_cons]

theorem list_ofJson {α : Type} {read : Reader α} {write : α → Json} {values : List α}
    (h : ∀ value ∈ values, read (ofJson (write value)) = .ok value) :
    list read (ofJson (.arr (values.map write))) = .ok values := by
  have hitems : ((values.map write).map ofJson).mapM read = .ok values := by
    rw [mapM_eq_ok, List.map_map, List.forall₂_map_left_iff, List.forall₂_same]
    exact h
  rw [ofJson, list, ofItems_eq_map, hitems]
  rfl

/-- A value that is there is read as such, unless it is `null`, which stands for an absent one. -/
theorem optional_ofJson {α : Type} {read : Reader α} {value : Json} {x : α} (hnull : value ≠ .null)
    (h : read (ofJson value) = .ok x) : optional read (ofJson value) = .ok (some x) := by
  cases value with
  | null => exact absurd rfl hnull
  | _ => exact congrArg (Except.map some) h

theorem eq_null_of_content {source : Source} (h : source.content = .ok .null) : source = .null := by
  cases source with
  | null => rfl
  | bool | tooDeep | fault => cases h
  | num value | str value => cases value <;> cases h
  | arr items closed | obj entries closed =>
      obtain ⟨contents, -, h⟩ := bind_eq_ok.mp h
      obtain ⟨-, -, heq⟩ := bind_eq_ok.mp h
      cases heq

section Records

variable {φ : Type} {fields : Fields φ}

/-- What a record reads the entry of an object as. -/
def Fields.Reads (fields : Fields φ) (entry : String × Json) (value : φ) : Prop :=
  ∃ read, fields.lookup entry.1 = some read ∧ read (ofJson entry.2) = .ok value

theorem recordEntries_ofEntries {entries : List (String × Json)} {values : List φ}
    (hread : List.Forall₂ fields.Reads entries values) {seen : List String}
    (hdistinct : (entries.map (·.1)).Nodup) (hnew : ∀ entry ∈ entries, entry.1 ∉ seen) :
    recordEntries fields true seen (ofEntries entries) = .ok values := by
  induction hread generalizing seen with
  | nil => rfl
  | @cons entry value entries values hentry hrest ih =>
      obtain ⟨read, hlookup, hvalue⟩ := hentry
      obtain ⟨hfirst, hdistinct⟩ := List.nodup_cons.mp hdistinct
      obtain ⟨hunseen, hnew⟩ := List.forall_mem_cons.mp hnew
      have hothers :
          recordEntries fields true (entry.1 :: seen) (ofEntries entries) = .ok values := by
        refine ih hdistinct fun other hmem => ?_
        rw [List.mem_cons, not_or]
        exact ⟨fun same => hfirst (List.mem_map.mpr ⟨other, hmem, same⟩), hnew other hmem⟩
      rw [ofEntries, recordEntries, hlookup]
      simp only [List.contains_eq_mem, hunseen, decide_false, Bool.false_eq_true, if_false, hvalue,
        hothers]
      rfl

/-- True of entries that are written in the order of a record's fields, some of which may be left
out, and of the values that the fields read them as. -/
inductive Fields.Writes : Fields φ → List (String × Json) → List φ → Prop
  | nil : Fields.Writes [] [] []
  | absent (field : String × Reader φ) {fields : Fields φ} {entries : List (String × Json)}
    {values : List φ} (rest : Fields.Writes fields entries values) :
    Fields.Writes (field :: fields) entries values
  | present {key : String} {read : Reader φ} {written : Json} {value : φ} {fields : Fields φ}
    {entries : List (String × Json)} {values : List φ}
    (first : read (ofJson written) = .ok value) (rest : Fields.Writes fields entries values) :
    Fields.Writes ((key, read) :: fields) ((key, written) :: entries) (value :: values)

/-- A field that may be absent is written as one entry or as none, and is read back either way. -/
theorem Fields.Writes.optional {α : Type} {key : String} {read : Reader φ} (write : α → Json)
    (value : α → φ) (first : ∀ x, read (ofJson (write x)) = .ok (value x)) (x? : Option α)
    {entries : List (String × Json)} {values : List φ} (rest : fields.Writes entries values) :
    Fields.Writes ((key, read) :: fields) ((x?.map fun x => (key, write x)).toList ++ entries)
      ((x?.map value).toList ++ values) := by
  cases x? with
  | none => exact .absent _ rest
  | some x => exact .present (first x) rest

theorem Fields.Reads.behind {entry : String × Json} {value : φ} (h : fields.Reads entry value)
    {field : String × Reader φ} (hnew : field.1 ∉ fields.map (·.1)) :
    Fields.Reads (field :: fields) entry value := by
  obtain ⟨read, hlookup, hvalue⟩ := h
  have hother : entry.1 ≠ field.1 := by
    rintro same
    obtain ⟨front, back, rfl, -⟩ := List.lookup_eq_some_iff.mp hlookup
    exact hnew (by simp [same])
  exact ⟨read, by rwa [List.lookup_cons, beq_false_of_ne hother], hvalue⟩

namespace Fields.Writes

variable {entries : List (String × Json)} {values : List φ} (h : fields.Writes entries values)
include h

theorem keys_sublist : (entries.map (·.1)).Sublist (fields.map (·.1)) := by
  induction h with
  | nil => exact .slnil
  | absent field rest ih => exact ih.cons _
  | present first rest ih => exact ih.cons_cons _

theorem forall₂_reads (hdistinct : (fields.map (·.1)).Nodup) :
    List.Forall₂ fields.Reads entries values := by
  induction h with
  | nil => exact .nil
  | absent field rest ih =>
      obtain ⟨hnew, hdistinct⟩ := List.nodup_cons.mp hdistinct
      exact (ih hdistinct).imp fun _ _ hreads => hreads.behind hnew
  | @present key read written value fields entries values first rest ih =>
      obtain ⟨hnew, hdistinct⟩ := List.nodup_cons.mp hdistinct
      refine .cons ⟨read, ?_, first⟩ ((ih hdistinct).imp fun _ _ hreads => hreads.behind hnew)
      rw [List.lookup_cons, beq_self_eq_true]

/-- A record is read from what was written of it, with the entries of the fields that were written,
in their order. -/
theorem record_eq (hdistinct : (fields.map (·.1)).Nodup) :
    record fields (ofJson (.obj entries)) = .ok values :=
  recordEntries_ofEntries (h.forall₂_reads hdistinct) (hdistinct.sublist h.keys_sublist) nofun

end Fields.Writes

variable {p : φ → Prop}

theorem forall_of_recordItems
    (hfields : ∀ field ∈ fields, ∀ source value, field.2 source = .ok value → p value)
    {closed : Bool} {items : List Source} {values : List φ}
    (h : recordItems closed fields items = .ok values) : ∀ value ∈ values, p value := by
  induction fields generalizing items values with
  | nil =>
      cases items with
      | nil =>
          obtain ⟨-, -, heq⟩ := bind_eq_ok.mp h
          cases heq
          nofun
      | cons => cases h
  | cons field fields ih =>
      obtain ⟨hfield, hfields⟩ := List.forall_mem_cons.mp hfields
      cases items with
      | nil =>
          obtain ⟨-, -, heq⟩ := bind_eq_ok.mp h
          cases heq
          nofun
      | cons item items =>
          obtain ⟨value, hvalue, h⟩ := bind_eq_ok.mp h
          obtain ⟨others, hothers, heq⟩ := bind_eq_ok.mp h
          cases heq
          exact List.forall_mem_cons.mpr ⟨hfield item value hvalue, ih hfields hothers⟩

section Readers

variable (hfields : ∀ field ∈ fields, ∀ source value, field.2 source = .ok value → p value)
include hfields

theorem forall_of_recordEntries {closed : Bool} {seen : List String}
    {entries : List (Option String × Source)} {values : List φ}
    (h : recordEntries fields closed seen entries = .ok values) : ∀ value ∈ values, p value := by
  induction entries generalizing seen values with
  | nil =>
      obtain ⟨-, -, heq⟩ := bind_eq_ok.mp h
      cases heq
      nofun
  | cons entry rest ih =>
      obtain ⟨key?, source⟩ := entry
      cases key? with
      | none => cases h
      | some key =>
          rw [recordEntries] at h
          split at h
          next =>
            obtain ⟨-, -, h⟩ := bind_eq_ok.mp h
            exact ih h
          next read hlookup =>
            have hmem : (key, read) ∈ fields := by
              obtain ⟨front, back, rfl, -⟩ := List.lookup_eq_some_iff.mp hlookup
              exact List.mem_append_right front (.head back)
            split at h
            next => cases h
            next =>
              obtain ⟨value, hvalue, h⟩ := bind_eq_ok.mp h
              obtain ⟨others, hothers, heq⟩ := bind_eq_ok.mp h
              cases heq
              exact List.forall_mem_cons.mpr ⟨hfields _ hmem source value hvalue, ih hothers⟩

/-- A record's values are as its fields read them. -/
theorem forall_of_record {source : Source} {values : List φ}
    (h : record fields source = .ok values) : ∀ value ∈ values, p value := by
  cases source with
  | arr items closed => exact forall_of_recordItems hfields h
  | obj entries closed => exact forall_of_recordEntries hfields h
  | _ => cases h

end Readers

end Records

end Source

end Criteria.Json
