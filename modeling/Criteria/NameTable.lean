/-!
Tables from names to values, ascending by name and without duplicates. Two tables with the same
entries are equal, whatever the order in which they were filled.
-/

namespace Criteria

/-- A table from names to values. -/
structure NameTable (α : Type) where
  entries : List (String × α)
  ascending : entries.Pairwise fun a b => a.1 < b.1

namespace NameTable

variable {α : Type}

def empty : NameTable α where
  entries := []
  ascending := .nil

instance : EmptyCollection (NameTable α) := ⟨empty⟩

instance : Inhabited (NameTable α) := ⟨empty⟩

def get? (table : NameTable α) (name : String) : Option α :=
  table.entries.lookup name

def contains (table : NameTable α) (name : String) : Bool :=
  (table.get? name).isSome

def names (table : NameTable α) : List String :=
  table.entries.map (·.1)

def size (table : NameTable α) : Nat :=
  table.entries.length

/-- Puts an entry at its place, over the one of the same name. -/
def insertEntry (name : String) (value : α) : List (String × α) → List (String × α)
  | [] => [(name, value)]
  | (n, v) :: rest =>
    if name < n then (name, value) :: (n, v) :: rest
    else if n = name then (name, value) :: rest
    else (n, v) :: insertEntry name value rest

theorem mem_insertEntry_imp {name : String} {value : α} {entries : List (String × α)}
    {e : String × α} (h : e ∈ insertEntry name value entries) :
    e = (name, value) ∨ e ∈ entries := by
  induction entries with
  | nil => simpa [insertEntry] using h
  | cons head rest ih =>
    simp only [insertEntry] at h
    split at h
    · simpa using h
    · split at h
      · rcases List.mem_cons.1 h with h | h
        · exact .inl h
        · exact .inr (List.mem_cons_of_mem _ h)
      · rcases List.mem_cons.1 h with h | h
        · exact .inr (h ▸ List.mem_cons_self)
        · exact (ih h).imp id (List.mem_cons_of_mem _)

theorem insertEntry_ascending (name : String) (value : α) {entries : List (String × α)}
    (h : entries.Pairwise fun a b => a.1 < b.1) :
    (insertEntry name value entries).Pairwise fun a b => a.1 < b.1 := by
  induction entries with
  | nil => simp [insertEntry]
  | cons head rest ih =>
    obtain ⟨below, ascending⟩ := List.pairwise_cons.1 h
    simp only [insertEntry]
    split
    next before =>
      refine List.pairwise_cons.2 ⟨fun e he => ?_, h⟩
      rcases List.mem_cons.1 he with rfl | he
      · exact before
      · exact String.lt_trans before (below e he)
    next notBefore =>
      split
      next same => exact List.pairwise_cons.2 ⟨fun e he => same ▸ below e he, ascending⟩
      next other =>
        refine List.pairwise_cons.2 ⟨fun e he => ?_, ih ascending⟩
        rcases mem_insertEntry_imp he with rfl | he
        · exact Std.lt_of_le_of_ne (String.not_lt.1 notBefore) other
        · exact below e he

/-- The table with a value for the name, in place of the one it had. -/
def insert (table : NameTable α) (name : String) (value : α) : NameTable α where
  entries := insertEntry name value table.entries
  ascending := insertEntry_ascending name value table.ascending

@[simp]
theorem get?_empty (name : String) : (∅ : NameTable α).get? name = none := rfl

theorem lookup_insertEntry (name other : String) (value : α) (entries : List (String × α)) :
    (insertEntry name value entries).lookup other =
      if other = name then some value else entries.lookup other := by
  have step (n : String) (v : α) (rest : List (String × α)) :
      ((n, v) :: rest).lookup other = if other = n then some v else rest.lookup other := by
    by_cases same : other = n
    · simp [same]
    · simp [List.lookup_cons, beq_false_of_ne same, same]
  induction entries with
  | nil => simpa [insertEntry] using step name value []
  | cons head rest ih =>
    simp only [insertEntry]
    split
    next => exact step name value _
    next =>
      split
      next found => subst found; simp only [step]; split <;> rfl
      next different =>
        simp only [step, ih]
        by_cases same : other = head.1
        · simp [same, different]
        · simp [same]

/-- Inserting changes the value of the one name. -/
theorem get?_insert (table : NameTable α) (name other : String) (value : α) :
    (table.insert name value).get? other =
      if other = name then some value else table.get? other :=
  lookup_insertEntry name other value table.entries

end NameTable

end Criteria
