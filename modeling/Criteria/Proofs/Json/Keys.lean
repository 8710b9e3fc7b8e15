import Criteria.Json.Basic
import Mathlib.Data.List.Nodup

/-!
Values whose objects have distinct keys. Merging repeated keys yields such a value, and leaves one
as it is.
-/

namespace Criteria.Json

/-- True of the values in which no object repeats a key, at any depth. -/
inductive KeysDistinct : Json → Prop
  | null : KeysDistinct .null
  | bool (b : Bool) : KeysDistinct (.bool b)
  | num (n : Number) : KeysDistinct (.num n)
  | str (s : String) : KeysDistinct (.str s)
  | arr {items : List Json} (inside : ∀ item ∈ items, KeysDistinct item) : KeysDistinct (.arr items)
  | obj {entries : List (String × Json)} (distinct : (entries.map (·.1)).Nodup)
    (inside : ∀ entry ∈ entries, KeysDistinct entry.2) : KeysDistinct (.obj entries)

section Entries

variable {key : String} {value : Json} {known : List (String × Json)}

theorem putEntry_of_new (h : key ∉ known.map (·.1)) :
    putEntry key value known = known ++ [(key, value)] := by
  induction known with
  | nil => rfl
  | cons entry rest ih =>
      simp only [List.map_cons, List.mem_cons, not_or] at h
      obtain ⟨hother, hrest⟩ := h
      rw [putEntry, if_neg (Ne.symm hother), ih hrest, List.cons_append]

/-- A key that is there keeps its place, and only its value is replaced. -/
theorem keys_putEntry_of_mem (h : key ∈ known.map (·.1)) :
    (putEntry key value known).map (·.1) = known.map (·.1) := by
  induction known with
  | nil => cases h
  | cons entry rest ih =>
      rw [putEntry]
      split
      next same => rfl
      next other =>
        have hrest : key ∈ rest.map (·.1) :=
          (List.mem_cons.mp h).resolve_left fun same => other same.symm
        rw [List.map_cons, List.map_cons, ih hrest]

theorem nodup_keys_putEntry (h : (known.map (·.1)).Nodup) :
    ((putEntry key value known).map (·.1)).Nodup := by
  by_cases hmem : key ∈ known.map (·.1)
  · rwa [keys_putEntry_of_mem hmem]
  · rw [putEntry_of_new hmem, List.map_append, List.map_singleton]
    exact List.nodup_append_comm.mp (List.nodup_cons.mpr ⟨hmem, h⟩)

theorem forall_mem_putEntry {p : Json → Prop} (hvalue : p value) (h : ∀ entry ∈ known, p entry.2) :
    ∀ entry ∈ putEntry key value known, p entry.2 := by
  induction known with
  | nil => simpa [putEntry] using hvalue
  | cons entry rest ih =>
      obtain ⟨hfirst, hrest⟩ := List.forall_mem_cons.mp h
      rw [putEntry]
      split
      next => exact List.forall_mem_cons.mpr ⟨hvalue, hrest⟩
      next => exact List.forall_mem_cons.mpr ⟨hfirst, ih hrest⟩

/-- Distinct new keys go behind the ones that are there, in their order, so an object without
repeated keys is built entry by entry. -/
theorem foldl_putEntry {entries : List (String × Json)}
    (hdistinct : ((known ++ entries).map (·.1)).Nodup) :
    entries.foldl (fun known entry => putEntry entry.1 entry.2 known) known = known ++ entries := by
  induction entries generalizing known with
  | nil => simp
  | cons entry rest ih =>
      have hnew : entry.1 ∉ known.map (·.1) := by
        rw [List.map_append, List.map_cons] at hdistinct
        intro hmem
        exact List.disjoint_of_nodup_append hdistinct hmem (.head _)
      have happend : known ++ entry :: rest = known ++ [entry] ++ rest := by simp
      rw [List.foldl_cons, putEntry_of_new hnew, ih (by rwa [← happend]), happend]

theorem ofEntries_of_distinct {entries : List (String × Json)}
    (hdistinct : (entries.map (·.1)).Nodup) : ofEntries entries = .obj entries := by
  rw [ofEntries, foldl_putEntry (by simpa using hdistinct), List.nil_append]

theorem keysDistinct_ofEntries {entries : List (String × Json)}
    (h : ∀ entry ∈ entries, KeysDistinct entry.2) : KeysDistinct (ofEntries entries) := by
  suffices hknown : ∀ known : List (String × Json), KeysDistinct (.obj known) →
      KeysDistinct (.obj (entries.foldl (fun known entry => putEntry entry.1 entry.2 known) known))
    from hknown [] (.obj .nil nofun)
  induction entries with
  | nil => exact fun _ hknown => hknown
  | cons entry rest ih =>
      obtain ⟨hfirst, hrest⟩ := List.forall_mem_cons.mp h
      intro known hknown
      cases hknown with
      | obj distinct inside =>
          exact ih hrest _ (.obj (nodup_keys_putEntry distinct) (forall_mem_putEntry hfirst inside))

end Entries

theorem mergeKeysList_eq_map (items : List Json) : mergeKeysList items = items.map mergeKeys := by
  induction items with
  | nil => rfl
  | cons item rest ih => rw [mergeKeysList, ih, List.map_cons]

theorem mergeKeysEntries_eq_map (entries : List (String × Json)) :
    mergeKeysEntries entries = entries.map fun entry => (entry.1, entry.2.mergeKeys) := by
  induction entries with
  | nil => rfl
  | cons entry rest ih => rw [mergeKeysEntries, ih, List.map_cons]

/-- Distinct keys are not merged: a value without repeated keys comes back as it was. -/
theorem KeysDistinct.mergeKeys_eq {value : Json} (h : KeysDistinct value) :
    value.mergeKeys = value := by
  induction h with
  | null | bool | num | str => rfl
  | @arr items inside ih =>
      rw [mergeKeys, mergeKeysList_eq_map, List.map_congr_left ih, List.map_id']
  | @obj entries distinct inside ih =>
      have hentries : (entries.map fun entry => (entry.1, entry.2.mergeKeys)) = entries := by
        rw [List.map_congr_left fun entry hmem => by rw [ih entry hmem], List.map_id']
      rw [mergeKeys, mergeKeysEntries_eq_map, hentries, ofEntries_of_distinct distinct]

/-- After merging no object repeats a key, at any depth. -/
theorem keysDistinct_mergeKeys (value : Json) : KeysDistinct value.mergeKeys := by
  induction value with
  | null => exact .null
  | bool b => exact .bool b
  | num n => exact .num n
  | str s => exact .str s
  | arr items ih =>
      rw [mergeKeys, mergeKeysList_eq_map]
      exact .arr (List.forall_mem_map.mpr ih)
  | obj entries ih =>
      rw [mergeKeys, mergeKeysEntries_eq_map]
      exact keysDistinct_ofEntries (List.forall_mem_map.mpr ih)

/-- No value but `null` is merged to it. -/
theorem eq_null_of_mergeKeys {value : Json} (h : value.mergeKeys = .null) : value = .null := by
  cases value with
  | null | bool | num | str => exact h
  | arr items =>
      rw [mergeKeys] at h
      cases h
  | obj entries =>
      rw [mergeKeys, ofEntries] at h
      cases h

end Criteria.Json
