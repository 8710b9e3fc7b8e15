/-!
The closed table of operators that a filter document may use, and the operations that a field can
offer. A key that starts with the sigil is an operator; any other key names a field.
-/

namespace Criteria

/-- An operation on a field. These are the names used in lists of permitted operations. -/
inductive Operation where
  | eq
  | neq
  | gt
  | gte
  | lt
  | lte
  | like
  | isIn
  | has
deriving DecidableEq, Repr, Inhabited

namespace Operation

def name : Operation → String
  | .eq => "eq"
  | .neq => "neq"
  | .gt => "gt"
  | .gte => "gte"
  | .lt => "lt"
  | .lte => "lte"
  | .like => "like"
  | .isIn => "in"
  | .has => "has"

def all : List Operation :=
  [.eq, .neq, .gt, .gte, .lt, .lte, .like, .isIn, .has]

def ofName? (name : String) : Option Operation :=
  all.find? fun op => op.name = name

/-- The membership tests take their argument as it stands in the document; the others take a
compiled right-hand side. -/
def takesRaw : Operation → Bool
  | .isIn | .has => true
  | _ => false

def inspect : Operation → String
  | .eq => "Eq"
  | .neq => "Neq"
  | .gt => "Gt"
  | .gte => "Gte"
  | .lt => "Lt"
  | .lte => "Lte"
  | .like => "Like"
  | .isIn => "In"
  | .has => "Has"

theorem ofName?_name (op : Operation) : ofName? op.name = some op := by
  cases op <;> rfl

theorem name_injective {op other : Operation} (h : op.name = other.name) : op = other := by
  have hsome : some op = some other := by rw [← ofName?_name op, h, ofName?_name]
  exact Option.some.inj hsome

end Operation

/-- An operator of a document. `ref` yields a field's operand and not a condition. -/
inductive Operator where
  | and
  | or
  | not
  | ref
  | field (op : Operation)
deriving DecidableEq, Repr, Inhabited

namespace Operator

/-- The first character of every operator key. -/
def sigil : Char := '$'

/-- True of the keys that can only be operators. -/
def hasSigil (key : String) : Bool :=
  key.toList.head? = some sigil

/-- The key that an operator is written with. -/
def key : Operator → String
  | .and => "$and"
  | .or => "$or"
  | .not => "$not"
  | .ref => "$ref"
  | .field .eq => "$eq"
  | .field .neq => "$neq"
  | .field .gt => "$gt"
  | .field .gte => "$gte"
  | .field .lt => "$lt"
  | .field .lte => "$lte"
  | .field .like => "$like"
  | .field .isIn => "$in"
  | .field .has => "$contains"

def all : List Operator :=
  [.and, .or, .not, .ref] ++ Operation.all.map .field

/-- The operator of a key. `$regex` is a second spelling of `$like`. -/
def ofKey? (key : String) : Option Operator :=
  if key = "$regex" then some (.field .like) else all.find? fun op => op.key = key

theorem ofKey?_key (op : Operator) : ofKey? op.key = some op := by
  cases op with
  | field op => cases op <;> rfl
  | _ => rfl

/-- A key names an operator that is written with it, or is the second spelling of `$like`. -/
theorem ofKey?_eq_some {key : String} {op : Operator} :
    ofKey? key = some op ↔ key = op.key ∨ key = "$regex" ∧ op = .field .like := by
  constructor
  · intro h
    rw [ofKey?] at h
    split at h
    next regex => exact .inr ⟨regex, (Option.some.inj h).symm⟩
    next => exact .inl (by simpa [eq_comm] using List.find?_some h)
  · rintro (rfl | ⟨rfl, rfl⟩)
    · exact ofKey?_key op
    · rfl

theorem hasSigil_key (op : Operator) : hasSigil op.key := by
  cases op with
  | field op => cases op <;> decide
  | _ => decide

theorem hasSigil_of_ofKey? {key : String} {op : Operator} (h : ofKey? key = some op) :
    hasSigil key := by
  rcases ofKey?_eq_some.mp h with rfl | ⟨rfl, -⟩
  · exact hasSigil_key op
  · decide

theorem ofKey?_eq_none {key : String} (h : ¬ hasSigil key) : ofKey? key = none := by
  cases hop : ofKey? key with
  | none => rfl
  | some op => exact absurd (hasSigil_of_ofKey? hop) h

end Operator

inductive Direction where
  | asc
  | desc
deriving DecidableEq, Repr, Inhabited

namespace Direction

/-- The direction of one of the two words that order entries use. -/
def ofKeyword? (word : String) : Option Direction :=
  if word = "ASC" then some .asc
  else if word = "DESC" then some .desc
  else none

def inspect : Direction → String
  | .asc => "Asc"
  | .desc => "Desc"

end Direction

end Criteria
