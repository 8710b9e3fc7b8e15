/-!
JSON documents. An object keeps its entries in the order they were written: that order is the order
in which a filter compiles and in which its literals are bound.
-/

namespace Criteria

/-- A number of a document: an integer, or a binary64 value given by its bits. The bits tell `0.0`
from `-0.0`, which are written differently. -/
inductive Number where
  | int (n : Int)
  | double (bits : UInt64)
deriving DecidableEq, Repr, Inhabited

inductive Json where
  | null
  | bool (b : Bool)
  | num (n : Number)
  | str (s : String)
  | arr (items : List Json)
  | obj (entries : List (String × Json))
deriving BEq, Repr, Inhabited

namespace Json

/-- Induction over a value: an array by its elements, an object by the values of its entries. -/
@[elab_as_elim, induction_eliminator]
theorem induction {motive : Json → Prop} (null : motive .null) (bool : ∀ b, motive (.bool b))
    (num : ∀ n, motive (.num n)) (str : ∀ s, motive (.str s))
    (arr : ∀ items, (∀ item ∈ items, motive item) → motive (.arr items))
    (obj : ∀ entries, (∀ entry ∈ entries, motive entry.2) → motive (.obj entries))
    (value : Json) : motive value :=
  @Json.rec motive (fun items => ∀ item ∈ items, motive item)
    (fun entries => ∀ entry ∈ entries, motive entry.2) (fun entry => motive entry.2)
    null bool num str arr obj
    nofun (fun _ _ first rest => List.forall_mem_cons.2 ⟨first, rest⟩)
    nofun (fun _ _ first rest => List.forall_mem_cons.2 ⟨first, rest⟩)
    (fun _ _ value => value) value

/-- An unsigned machine word as a JSON integer. -/
def ofWord (n : UInt64) : Json :=
  .num (.int n.toNat)

def string? : Json → Option String
  | .str s => some s
  | _ => none

def entries? : Json → Option (List (String × Json))
  | .obj entries => some entries
  | _ => none

/-- True of the values that hold no condition: `null`, the empty object and the empty array. -/
def isBlank : Json → Bool
  | .null | .obj [] | .arr [] => true
  | _ => false

/-- Writes an entry: a repeated key keeps its first position and takes the last value. -/
def putEntry (key : String) (value : Json) : List (String × Json) → List (String × Json)
  | [] => [(key, value)]
  | (k, v) :: rest => if k = key then (k, value) :: rest else (k, v) :: putEntry key value rest

/-- An object whose keys are distinct, from entries that may repeat them. -/
def ofEntries (entries : List (String × Json)) : Json :=
  .obj (entries.foldl (fun known e => putEntry e.1 e.2 known) [])

mutual

/-- The value with the repeated keys of every object merged, at every depth. -/
def mergeKeys : Json → Json
  | .arr items => .arr (mergeKeysList items)
  | .obj entries => ofEntries (mergeKeysEntries entries)
  | value => value

def mergeKeysList : List Json → List Json
  | [] => []
  | item :: rest => item.mergeKeys :: mergeKeysList rest

def mergeKeysEntries : List (String × Json) → List (String × Json)
  | [] => []
  | (key, value) :: rest => (key, value.mergeKeys) :: mergeKeysEntries rest

end

end Json

end Criteria
