import Criteria.Json.Source

/-!
Readers turn a source tree into a value of some type. They go from left to right and fail at the
first problem: the text is malformed there, or its value has the wrong shape. Records read from
objects, and from arrays that list their fields in order.
-/

namespace Criteria.Json

/-- Why a reader fails. `surplus` says that an array lists more than a record has fields; a text is
then malformed at that place, and a value has the wrong shape. -/
inductive ReadError where
  | malformed
  | wrongShape
  | surplus
deriving DecidableEq, Repr

abbrev Reader (α : Type) := Source → Except ReadError α

namespace Source

/-- The error for a value of a shape that was not expected. A string or number is read before its
shape is looked at, so that one without a value is malformed. -/
def rejection : Source → ReadError
  | .fault | .str none | .num none => .malformed
  | _ => .wrongShape

/-- Succeeds if a container ended with its bracket. -/
def ensureClosed (closed : Bool) : Except ReadError Unit :=
  if closed then .ok () else .error .malformed

mutual

/-- Passes over a value of any depth. Strings and numbers need not stand for values. -/
def skip : Source → Except ReadError Unit
  | .fault => .error .malformed
  | .arr items closed => do skipItems items; ensureClosed closed
  | .obj entries closed => do skipEntries entries; ensureClosed closed
  | .tooDeep container => container.skip
  | _ => .ok ()

def skipItems : List Source → Except ReadError Unit
  | [] => .ok ()
  | item :: rest => do item.skip; skipItems rest

def skipEntries : List (Option String × Source) → Except ReadError Unit
  | [] => .ok ()
  | (_, value) :: rest => do value.skip; skipEntries rest

end

mutual

/-- The content of a value, with every entry of its objects as written. -/
def content : Source → Except ReadError Json
  | .null => .ok .null
  | .bool b => .ok (.bool b)
  | .num (some n) => .ok (.num n)
  | .str (some s) => .ok (.str s)
  | .arr items closed => do
    let items ← contentItems items
    ensureClosed closed
    return .arr items
  | .obj entries closed => do
    let entries ← contentEntries entries
    ensureClosed closed
    return .obj entries
  | .num none | .str none | .tooDeep _ | .fault => .error .malformed

def contentItems : List Source → Except ReadError (List Json)
  | [] => .ok []
  | item :: rest => do
    let item ← item.content
    let rest ← contentItems rest
    return item :: rest

def contentEntries : List (Option String × Source) → Except ReadError (List (String × Json))
  | [] => .ok []
  | (none, _) :: _ => .error .malformed
  | (some key, value) :: rest => do
    let value ← value.content
    let rest ← contentEntries rest
    return (key, value) :: rest

end

mutual

/-- A value that is already there is its own content. -/
theorem content_ofJson : (value : Json) → (ofJson value).content = .ok value
  | .null | .bool _ | .num _ | .str _ => rfl
  | .arr items => by
    simp [ofJson, content, contentItems_ofItems items, ensureClosed, pure, Except.pure, bind,
      Except.bind]
  | .obj entries => by
    simp [ofJson, content, contentEntries_ofEntries entries, ensureClosed, pure, Except.pure, bind,
      Except.bind]

theorem contentItems_ofItems : (items : List Json) → contentItems (ofItems items) = .ok items
  | [] => rfl
  | item :: rest => by
    simp [ofItems, contentItems, content_ofJson item, contentItems_ofItems rest, pure,
      Except.pure, bind, Except.bind]

theorem contentEntries_ofEntries :
    (entries : List (String × Json)) → contentEntries (ofEntries entries) = .ok entries
  | [] => rfl
  | (key, value) :: rest => by
    simp [ofEntries, contentEntries, content_ofJson value, contentEntries_ofEntries rest, pure,
      Except.pure, bind, Except.bind]

end

def string : Reader String
  | .str (some s) => .ok s
  | source => .error source.rejection

/-- An integer of an unsigned machine word. -/
def word : Reader UInt64
  | .num (some (.int n)) =>
    if 0 ≤ n ∧ n < UInt64.size then .ok (.ofNat n.toNat) else .error .wrongShape
  | source => .error source.rejection

/-- A value that `null` leaves out. -/
def optional {α : Type} (read : Reader α) : Reader (Option α)
  | .null => .ok none
  | source => do return some (← read source)

/-- An array of values of one kind. -/
def list {α : Type} (read : Reader α) : Reader (List α)
  | .arr items closed => do
    let items ← items.mapM read
    ensureClosed closed
    return items
  | source => .error source.rejection

/-- The fields of a record in order: their names, and the readers of their values. -/
abbrev Fields (φ : Type) := List (String × Reader φ)

/-- Reads the fields in order from the elements of an array. Trailing fields may be missing. -/
def recordItems {φ : Type} (closed : Bool) : Fields φ → List Source → Except ReadError (List φ)
  | (_, read) :: fields, item :: items => do
    let value ← read item
    let values ← recordItems closed fields items
    return value :: values
  | [], _ :: _ => .error .surplus
  | _, [] => do ensureClosed closed; return []

/-- Reads the entries of an object. Unknown keys are passed over; a known key must not come
again. -/
def recordEntries {φ : Type} (fields : Fields φ) (closed : Bool) :
    List String → List (Option String × Source) → Except ReadError (List φ)
  | _, [] => do ensureClosed closed; return []
  | _, (none, _) :: _ => .error .malformed
  | seen, (some key, value) :: rest =>
    match fields.lookup key with
    | none => do
      value.skip
      recordEntries fields closed seen rest
    | some read =>
      if seen.contains key then .error .wrongShape
      else do
        let value ← read value
        let values ← recordEntries fields closed (key :: seen) rest
        return value :: values

/-- The values of a record's fields, in the order they were written. -/
def record {φ : Type} (fields : Fields φ) : Reader (List φ)
  | .arr items closed => recordItems closed fields items
  | .obj entries closed => recordEntries fields closed [] entries
  | source => .error source.rejection

/-- A field that has to be there. -/
def required {α : Type} : Option α → Except ReadError α
  | some value => .ok value
  | none => .error .wrongShape

end Source

/-- Reads a text, behind whose value only blanks may come. -/
def readText {α : Type} (read : Reader α) (text : String) : Except ReadError α :=
  let (source, clean) := Source.ofText text
  match read source with
  | .ok value => if clean then .ok value else .error .malformed
  | .error .surplus => .error .malformed
  | .error e => .error e

/-- Reads a value that is already there. Whatever is wrong with it is its shape. -/
def readValue {α : Type} (read : Reader α) (value : Json) : Except ReadError α :=
  (read (Source.ofJson value)).mapError fun _ => .wrongShape

/-- The value of a text, with the repeated keys of its objects merged. -/
def parse (text : String) : Except ReadError Json :=
  mergeKeys <$> readText Source.content text

end Criteria.Json
