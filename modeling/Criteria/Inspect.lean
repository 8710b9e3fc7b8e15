import Criteria.Json.Printer
import Criteria.Text.Quoted

/-!
The one-line notation in which values show how they are built: constructors with their arguments,
records with named fields, lists in brackets.
-/

namespace Criteria

namespace Inspect

def applied (name argument : String) : String :=
  name ++ "(" ++ argument ++ ")"

def tuple (name : String) (arguments : List String) : String :=
  applied name (", ".intercalate arguments)

def list (items : List String) : String :=
  "[" ++ ", ".intercalate items ++ "]"

def record (name : String) (fields : List (String × String)) : String :=
  name ++ " \x7b " ++ ", ".intercalate (fields.map fun (field, value) => field ++ ": " ++ value)
    ++ " \x7d"

def option (value : Option String) : String :=
  match value with
  | none => "None"
  | some text => applied "Some" text

end Inspect

namespace Json

open Text (quoted)

mutual

def inspect : Json → String
  | .null => "Null"
  | .bool b => Inspect.applied "Bool" (if b then "true" else "false")
  | .num n => Inspect.applied "Number" n.text
  | .str s => Inspect.applied "String" (quoted s)
  | .arr items => "Array " ++ Inspect.list (inspectItems items)
  | .obj entries => "Object \x7b" ++ ", ".intercalate (inspectEntries entries) ++ "\x7d"

def inspectItems : List Json → List String
  | [] => []
  | item :: rest => item.inspect :: inspectItems rest

def inspectEntries : List (String × Json) → List String
  | [] => []
  | (key, value) :: rest => (quoted key ++ ": " ++ value.inspect) :: inspectEntries rest

end

end Json

end Criteria
