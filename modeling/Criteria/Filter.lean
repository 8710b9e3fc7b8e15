import Criteria.Resolution

/-!
Filter documents. A document is a group of conditions: the entries of an object, or the elements of
an array, all of which must hold. An entry's key is an operator, or a field that has to equal the
entry's value. Errors surface in document order, also from branches that the result leaves out.
-/

namespace Criteria.Filter

variable {ε σ : Type}

/-- What the key of an entry says. -/
inductive Key where
  | operator (op : Operator)
  | field (name : String)
deriving DecidableEq, Repr

/-- Reads a key. A key with the sigil has to be an operator. -/
def Key.read (key : String) : Except CompileError Key :=
  match Operator.ofKey? key with
  | some op => .ok (.operator op)
  | none => if Operator.hasSigil key then .error (.unknownOperator key) else .ok (.field key)

/-- The right-hand side of a comparison: an object is a nested group, already compiled as `group`,
and any other value a literal. -/
def rightSide (b : Backend ε σ) (value : Json) (group : Except CompileError ε) :
    Except CompileError ε :=
  match value with
  | .obj _ => group
  | value => .ok (b.literal value)

/-- Joins the branches of a group. Only the first branch of `not` is negated. The single entry of
an object stands for itself, while the elements of an array are always joined. -/
def join (b : Backend ε σ) (op : Operator) (entries : Bool) :
    List ε → Except CompileError ε
  | [] => .error (.malformed (.noBranch op))
  | first :: rest =>
    match op with
    | .not => .ok (b.not first)
    | .or => .ok (if entries && rest.isEmpty then first else b.or (first :: rest))
    | _ => .ok (if entries && rest.isEmpty then first else b.and (first :: rest))

/-- Joins the conditions of an operation on several fields. -/
def joinFields (b : Backend ε σ) (op : Operator) : List ε → Except CompileError ε
  | [] => .error (.malformed (.noField op))
  | [condition] => .ok condition
  | conditions => .ok (b.and conditions)

mutual

/-- The condition that an operator states of a value. -/
def condition (b : Backend ε σ) (r : Resolver ε) : Operator → Json → Except CompileError ε
  | .ref, .str field => do (← r field).alone "ref"
  | .ref, value => .error (.malformed (.notFieldName .ref value))
  | .field op, .obj fields => do joinFields b (.field op) (← fieldConditions b r op fields)
  | .field op, value => .error (.malformed (.notFieldMap (.field op) value))
  | op, .arr items => do join b op false (← groups b r items)
  | op, .obj entries => do join b op true (← entryConditions b r entries)
  | op, value => .error (.malformed (.notBranches op value))

/-- The elements of an array, each a group of its own. -/
def groups (b : Backend ε σ) (r : Resolver ε) : List Json → Except CompileError (List ε)
  | [] => .ok []
  | item :: rest => do
    let group ← condition b r .and item
    let groups ← groups b r rest
    return group :: groups

/-- The entries of an object, each by its key. A bare field's value is compiled before the field is
looked up. -/
def entryConditions (b : Backend ε σ) (r : Resolver ε) :
    List (String × Json) → Except CompileError (List ε)
  | [] => .ok []
  | (key, value) :: rest => do
    let first ← match ← Key.read key with
      | .operator op => condition b r op value
      | .field field => do
        let rhs ← rightSide b value (condition b r .and value)
        (← r field).compare b .eq rhs
    let others ← entryConditions b r rest
    return first :: others

/-- The fields of an operation. Each field is looked up before its value is compiled; membership
tests take the value as it is. -/
def fieldConditions (b : Backend ε σ) (r : Resolver ε) (op : Operation) :
    List (String × Json) → Except CompileError (List ε)
  | [] => .ok []
  | (name, value) :: rest => do
    let field ← r name
    let first ←
      if op.takesRaw then field.member b op value
      else do field.compare b op (← rightSide b value (condition b r .and value))
    let others ← fieldConditions b r op rest
    return first :: others

end

/-- Compiles a document. An absent one, `null` and an empty object or array are no filter. -/
def compile (b : Backend ε σ) (r : Resolver ε) (document : Option Json) :
    Except CompileError (Option ε) :=
  match document with
  | none => .ok none
  | some document =>
    if document.isBlank then .ok none
    else match document with
      | .obj _ | .arr _ => do return some (← condition b r .and document)
      | other => .error (.malformed (.notDocument other))

/-- Compiles a document against a model of a registry. A document without a filter needs no
model. -/
def compileFor {ι : Type} [DecidableEq ι] {E : ι → Type} (registry : Registry E) (i : ι)
    (b : Backend (E i) σ) (model : String) (document : Option Json) :
    Except CompileError (Option (E i)) :=
  if document.all Json.isBlank then .ok none
  else do
    let scope ← registry.scope model
    compile b (scope.resolve i b) document

end Criteria.Filter
