import Criteria.Json.Basic
import Criteria.Operator

/-!
What a storage layer offers to the compiler. Compiled conditions are opaque: the compiler builds
them through these operations only, so whatever every operation preserves, compilation preserves.
-/

namespace Criteria

/-- What an operation is applied to: the compiled right-hand side of a comparison, or the value of
a membership test as it stands in the document. -/
inductive Argument (ε : Type) where
  | operand (rhs : ε)
  | raw (values : Json)

/-- The operations of a backend with expressions `ε` and sorts `σ`. Operands and conditions share
one type, so that a reference or a nested condition can stand on a right-hand side. -/
structure Backend (ε σ : Type) where
  /-- The operand for a column, qualified by a table if there is one. -/
  column : Option String → String → ε
  literal : Json → ε
  /-- The comparison of a left with a right operand, by one of `eq` to `like`. -/
  compare : Operation → ε → ε → ε
  /-- The test whether an operand is among raw values, or has a raw value. -/
  member : Operation → ε → Json → ε
  /-- The values of a table's key column in the rows under a condition: table, key, condition. -/
  subquery : String → String → ε → ε
  among : ε → ε → ε
  and : List ε → ε
  or : List ε → ε
  not : ε → ε
  ascending : ε → σ
  descending : ε → σ

namespace Backend

variable {ε σ : Type}

def apply (b : Backend ε σ) (op : Operation) (left : ε) : Argument ε → ε
  | .operand rhs => b.compare op left rhs
  | .raw values => b.member op left values

def sort (b : Backend ε σ) : Direction → ε → σ
  | .asc => b.ascending
  | .desc => b.descending

end Backend

end Criteria
