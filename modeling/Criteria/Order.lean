import Criteria.Resolution

/-!
Order documents: an array of entries, each an object whose first key is a field and whose value says
the direction. Entries of another kind are passed over, and so are the further keys of an entry.
-/

namespace Criteria.Order

variable {ε σ : Type}

/-- The entries of a document; none where there is no document. -/
def entries? : Option Json → Except CompileError (Option (List Json))
  | none | some .null => .ok none
  | some (.arr entries) => .ok (some entries)
  | some other => .error (.malformed (.notOrderList other))

/-- The direction that a value says. -/
def direction (field : String) (value : Json) : Except CompileError Direction :=
  match value.string?.bind Direction.ofKeyword? with
  | some direction => .ok direction
  | none => .error (.badDirection field value.text)

/-- The sort of one entry; none if the entry is passed over. The direction is checked before the
field is looked up. -/
def term? (b : Backend ε σ) (r : Resolver ε) : Json → Except CompileError (Option σ)
  | .obj ((field, value) :: _) => do
    let direction ← direction field value
    let operand ← (← r field).alone "order"
    return some (b.sort direction operand)
  | _ => .ok none

/-- The sorts of the entries, in their order. -/
def terms (b : Backend ε σ) (r : Resolver ε) : List Json → Except CompileError (List σ)
  | [] => .ok []
  | entry :: rest => do
    let first ← term? b r entry
    let others ← terms b r rest
    return first.toList ++ others

/-- Compiles a document. Without a sort there is no order. -/
def compile (b : Backend ε σ) (r : Resolver ε) (document : Option Json) :
    Except CompileError (Option (List σ)) := do
  match ← entries? document with
  | none => return none
  | some entries =>
    let terms ← terms b r entries
    return if terms.isEmpty then none else some terms

/-- Compiles a document against a model of a registry. The document's shape is checked first, and
without entries it needs no model. -/
def compileFor {ι : Type} [DecidableEq ι] {E : ι → Type} (registry : Registry E) (i : ι)
    (b : Backend (E i) σ) (model : String) (document : Option Json) :
    Except CompileError (Option (List σ)) := do
  match ← entries? document with
  | none | some [] => return none
  | some _ =>
    let scope ← registry.scope model
    compile b (scope.resolve i b) document

end Criteria.Order
