import Criteria.Filter
import Criteria.Order
import Criteria.Json.Reader

/-!
Queries: a filter, an order, paging and columns in one request, how they are written and read, and
their compilation.
-/

namespace Criteria

/-- A request for rows of a model. Every part may be absent. -/
structure Query where
  filter : Option Json := none
  order : Option Json := none
  limit : Option UInt64 := none
  offset : Option UInt64 := none
  columns : Option (List String) := none
deriving BEq, Repr, Inhabited

/-- A query whose documents are compiled. -/
structure CompiledQuery (ε σ : Type) where
  filter : Option ε
  order : Option (List σ)
  limit : Option UInt64
  offset : Option UInt64
  isCount : Bool

namespace Query

/-- The column that turns a query into a count of its rows. -/
def countColumn : String := "count(*)"

/-- True when the query asks for the count and nothing else. -/
def isCount (query : Query) : Bool :=
  query.columns == some [countColumn]

/-- The query as an object. Absent parts are left out. -/
def toJson (query : Query) : Json :=
  .obj <| List.flatten [
    (query.filter.map fun document => ("where", document)).toList,
    (query.order.map fun document => ("orderBy", document)).toList,
    (query.limit.map fun rows => ("limit", Json.ofWord rows)).toList,
    (query.offset.map fun rows => ("offset", Json.ofWord rows)).toList,
    (query.columns.map fun names => ("columns", Json.arr (names.map .str))).toList]

inductive Part where
  | filter (document : Option Json)
  | order (document : Option Json)
  | limit (rows : Option UInt64)
  | offset (rows : Option UInt64)
  | columns (names : Option (List String))

def set (query : Query) : Part → Query
  | .filter document => { query with filter := document }
  | .order document => { query with order := document }
  | .limit rows => { query with limit := rows }
  | .offset rows => { query with offset := rows }
  | .columns names => { query with columns := names }

open Json (Reader Source)

/-- The parts of a query, in the order of its array form. Each may be `null`. -/
def partReaders : Source.Fields Part :=
  [("where", fun source => Part.filter <$> Source.optional Source.content source),
    ("orderBy", fun source => Part.order <$> Source.optional Source.content source),
    ("limit", fun source => Part.limit <$> Source.optional Source.word source),
    ("offset", fun source => Part.offset <$> Source.optional Source.word source),
    ("columns", fun source => Part.columns <$> Source.optional (Source.list Source.string) source)]

def read : Reader Query := fun source => do
  return (← Source.record partReaders source).foldl set {}

/-- The query with the repeated keys in its documents merged. -/
def mergeKeys (query : Query) : Query :=
  { query with filter := query.filter.map Json.mergeKeys, order := query.order.map Json.mergeKeys }

def ofText (text : String) : Except Json.ReadError Query :=
  mergeKeys <$> Json.readText read text

def ofJson (value : Json) : Except Json.ReadError Query :=
  Json.readValue read value

variable {ε σ : Type}

/-- Compiles a query. The filter's errors come before the order's. -/
def compile (b : Backend ε σ) (r : Resolver ε) (query : Query) :
    Except CompileError (CompiledQuery ε σ) := do
  let filter ← Filter.compile b r query.filter
  let order ← Order.compile b r query.order
  return ⟨filter, order, query.limit, query.offset, query.isCount⟩

/-- Compiles a query against a model of a registry, which must be there even for an empty query. -/
def compileFor {ι : Type} [DecidableEq ι] {E : ι → Type} (registry : Registry E) (i : ι)
    (b : Backend (E i) σ) (model : String) (query : Query) :
    Except CompileError (CompiledQuery (E i) σ) := do
  let scope ← registry.scope model
  query.compile b (scope.resolve i b)

end Query

def CompiledQuery.inspect {ε σ : Type} (expr : ε → String) (sort : σ → String)
    (compiled : CompiledQuery ε σ) : String :=
  let word (n : Option UInt64) := Inspect.option (n.map fun n => toString n.toNat)
  Inspect.record "CompiledSelect"
    [("filter", Inspect.option (compiled.filter.map expr)),
      ("order", Inspect.option (compiled.order.map fun sorts => Inspect.list (sorts.map sort))),
      ("limit", word compiled.limit),
      ("offset", word compiled.offset),
      ("count_only", toString compiled.isCount)]

end Criteria
