/-!
Where SQL dialects differ: how names are quoted, how bind parameters are marked, and how containment
is tested.
-/

namespace Criteria.Sql

inductive Dialect where
  | postgres
  | mysql
deriving DecidableEq, Repr, Inhabited

namespace Dialect

def name : Dialect → String
  | .postgres => "PostgreSQL"
  | .mysql => "MySQL"

/-- The character around quoted names. -/
def quoteChar : Dialect → Char
  | .postgres => '"'
  | .mysql => '\x60'

/-- The characters of a name with every quote doubled. -/
def doubleQuotes (quote : Char) : List Char → List Char
  | [] => []
  | c :: rest =>
    if c = quote then quote :: quote :: doubleQuotes quote rest
    else c :: doubleQuotes quote rest

/-- A name in quotes. A quote inside it is doubled. -/
def quoteName (d : Dialect) (name : String) : String :=
  String.ofList (d.quoteChar :: doubleQuotes d.quoteChar name.toList ++ [d.quoteChar])

/-- The mark of a bind parameter that comes after `index` others. -/
def placeholder (d : Dialect) (index : Nat) : String :=
  match d with
  | .postgres => "$" ++ toString (index + 1)
  | .mysql => "?"

/-- What stands before the target of a containment test. -/
def containsOpening : Dialect → String
  | .postgres => "("
  | .mysql => "JSON_CONTAINS("

/-- What stands between the target of a containment test and its value. -/
def containsSeparator : Dialect → String
  | .postgres => " @> "
  | .mysql => ", "

/-- The containment test of a value in a target, both already written. -/
def containment (d : Dialect) (target value : String) : String :=
  d.containsOpening ++ target ++ d.containsSeparator ++ value ++ ")"

end Dialect

end Criteria.Sql
