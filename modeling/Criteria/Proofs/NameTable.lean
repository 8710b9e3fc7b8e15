import Mathlib.Data.List.Dedup
import Criteria.NameTable

/-!
What a table of names holds is decided by its look-ups. Its entries list them ascending by name,
each once, so tables that give the same answers are the same table.
-/

namespace Criteria.NameTable

variable {α : Type}

/-- The entries of a table are its look-ups, since no name stands twice in it. So two tables can be
compared by what they are asked. -/
theorem mem_entries_iff {table : NameTable α} {name : String} {value : α} :
    (name, value) ∈ table.entries ↔ table.get? name = some value := by
  obtain ⟨entries, ascending⟩ := table
  simp only [get?]
  induction entries with
  | nil => simp
  | cons head rest ih =>
      obtain ⟨first, v⟩ := head
      obtain ⟨below, hrest⟩ := List.pairwise_cons.mp ascending
      rw [List.mem_cons, ih hrest, List.lookup_cons]
      by_cases same : name = first
      · -- No other entry of the name stands behind the first.
        subst same
        have hnone : rest.lookup name = none :=
          List.lookup_eq_none_iff.mpr fun e he => by simpa using String.ne_of_lt (below e he)
        simp [hnone, eq_comm]
      · simp [same, beq_false_of_ne same]

/-- Names stand in ascending order, whatever order they were put in. -/
theorem names_ascending (table : NameTable α) : table.names.Pairwise (· < ·) :=
  List.pairwise_map.mpr table.ascending

theorem nodup_names (table : NameTable α) : table.names.Nodup :=
  table.names_ascending.imp String.ne_of_lt

theorem mem_names_iff {table : NameTable α} {name : String} :
    name ∈ table.names ↔ table.contains name := by
  rw [names, List.mem_map, contains, Option.isSome_iff_exists]
  constructor
  · rintro ⟨⟨_, value⟩, hmem, rfl⟩
    exact ⟨value, mem_entries_iff.mp hmem⟩
  · rintro ⟨value, hfound⟩
    exact ⟨(name, value), mem_entries_iff.mpr hfound, rfl⟩

/-- A table has as many entries as there are different names in it. The list may repeat names and
have them in any order. -/
theorem size_eq_length_dedup {table : NameTable α} {names : List String}
    (h : ∀ name, name ∈ names ↔ table.contains name) :
    table.size = names.dedup.length := by
  have hperm : table.names.Perm names.dedup :=
    (List.perm_ext_iff_of_nodup table.nodup_names names.nodup_dedup).mpr fun name => by
      rw [List.mem_dedup, h, mem_names_iff]
  rw [← hperm.length_eq, NameTable.names, List.length_map, size]

/-- Tables with the same look-ups have the same entries in the same order, which is why a table says
nothing about the order it was filled in. -/
theorem eq_of_get? {table table' : NameTable α}
    (h : ∀ name, table.get? name = table'.get? name) : table = table' := by
  have hnodup (table : NameTable α) : table.entries.Nodup := table.nodup_names.of_map _
  have hperm : table.entries.Perm table'.entries :=
    (List.perm_ext_iff_of_nodup (hnodup table) (hnodup table')).mpr fun e => by
      rw [mem_entries_iff, mem_entries_iff, h]
  have hentries : table.entries = table'.entries :=
    hperm.eq_of_pairwise (fun _ _ _ _ hbefore hafter => absurd hafter (String.lt_asymm hbefore))
      table.ascending table'.ascending
  cases table
  cases table'
  cases hentries
  rfl

end Criteria.NameTable
