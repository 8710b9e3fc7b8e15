import Criteria.Sql.Fragment

/-!
Statements with bind parameters, and how they are written. Writing goes from left to right over one
text and one list of parameters: a value is bound behind the values that are there, and its
placeholder carries its number. Only the target of a containment test is written beside the text, on
the same parameters, and put in its place afterwards. What is written can also be given as
fragments; writing those only appends.
-/

namespace Criteria.Sql

/-- SQL with its bind parameters in the order of their placeholders; also a statement that is still
being written. -/
structure Statement where
  sql : String := ""
  params : List Json := []
deriving BEq, Repr, Inhabited

namespace Statement

def empty : Statement := {}

def push (s : Statement) (text : String) : Statement :=
  { s with sql := s.sql ++ text }

/-- Binds a value without writing it; its placeholder comes beside. -/
def reserve (d : Dialect) (s : Statement) (value : Json) : String × Statement :=
  (d.placeholder s.params.length, { s with params := s.params ++ [value] })

/-- Binds a value and writes its placeholder. -/
def bind (d : Dialect) (s : Statement) (value : Json) : Statement :=
  let (mark, s) := s.reserve d value
  s.push mark

/-- Binds values and writes their placeholders, with commas between them. -/
def bindAll (d : Dialect) (s : Statement) : List Json → Statement
  | [] => s
  | [last] => s.bind d last
  | value :: rest => bindAll d ((s.bind d value).push ", ") rest

/-- Appends the table to read from, if there is one. -/
def pushTable (d : Dialect) (s : Statement) : Option String → Statement
  | none => s
  | some table => (s.push " FROM ").push (d.quoteName table)

/-- Writes on an empty text with the statement's parameters. What was written comes beside, and the
statement keeps its text. -/
def aside (s : Statement) (write : Statement → Statement) : String × Statement :=
  let written := write { s with sql := "" }
  (written.sql, { written with sql := s.sql })

/-- Binds the values of fragments without writing them; their text comes beside. -/
def detach (d : Dialect) (s : Statement) (fragments : List Fragment) : String × Statement :=
  (Fragment.textFrom d s.params.length fragments,
    { s with params := s.params ++ Fragment.binds fragments })

def write (d : Dialect) (s : Statement) (fragments : List Fragment) : Statement :=
  let (text, bound) := s.detach d fragments
  bound.push text

/-- The statement that fragments make by themselves. -/
def ofFragments (d : Dialect) (fragments : List Fragment) : Statement :=
  empty.write d fragments

/-- Writing two lists of fragments one after the other is writing them at once. -/
theorem write_write (d : Dialect) (s : Statement) (first second : List Fragment) :
    (s.write d first).write d second = s.write d (first ++ second) := by
  simp [write, detach, push, Fragment.textFrom_append, Fragment.binds_append, String.append_assoc]

def toJson (s : Statement) : Json :=
  .obj [("sql", .str s.sql), ("params", .arr s.params)]

end Statement

mutual

def Expr.write (d : Dialect) (s : Statement) : Expr → Statement
  | .column none name => s.push (d.quoteName name)
  | .column (some qualifier) name =>
    ((s.push (d.quoteName qualifier)).push ".").push (d.quoteName name)
  | .value value => s.bind d value
  | .compare left op right =>
    let s := left.write d (s.push "(")
    let s := right.write d (s.push (" " ++ op.text ++ " "))
    s.push ")"
  | .group op operands =>
    if operands.isEmpty then s.push op.unit
    else
      let s := writeExprs d (" " ++ op.text ++ " ") (s.push "(") operands
      s.push ")"
  | .not operand =>
    let s := s.push "NOT "
    if operand.standsAlone then operand.write d s
    else
      let s := operand.write d (s.push "(")
      s.push ")"
  | .inList operand values =>
    let s := operand.write d (s.push "(")
    let s := (s.push " IN (").bindAll d values
    s.push "))"
  | .inSelect operand select =>
    let s := operand.write d (s.push "(")
    let s := writeSelect d (s.push " IN (") select
    s.push "))"
  | .subquery select =>
    let s := writeSelect d (s.push "(") select
    s.push ")"
  | .contains target value =>
    let (target, s) := s.aside fun s => target.write d s
    let (mark, s) := s.reserve d value
    s.push (d.containment target mark)
  | .call name args =>
    let s := writeExprs d ", " ((s.push name).push "(") args
    s.push ")"
  | .wildcard => s.push "*"

/-- Writes expressions with a text between them. -/
def writeExprs (d : Dialect) (separator : String) (s : Statement) : List Expr → Statement
  | [] => s
  | [last] => last.write d s
  | expr :: rest => writeExprs d separator ((expr.write d s).push separator) rest

/-- Writes a clause that may be absent, behind its keyword. -/
def writeClause (d : Dialect) (keyword : String) (s : Statement) : Option Expr → Statement
  | none => s
  | some expr => expr.write d (s.push keyword)

def writeSort (d : Dialect) (s : Statement) : SortTerm Expr → Statement
  | ⟨expr, direction⟩ => (expr.write d s).push (" " ++ directionText direction)

def writeSorts (d : Dialect) (s : Statement) : List (SortTerm Expr) → Statement
  | [] => s
  | [last] => writeSort d s last
  | sort :: rest => writeSorts d ((writeSort d s sort).push ", ") rest

def writeSelect (d : Dialect) (s : Statement) : Clauses Expr → Statement
  | ⟨columns, table, filter, order, limit, offset⟩ =>
    let s := s.push "SELECT "
    let s := if columns.isEmpty then s.push "*" else writeExprs d ", " s columns
    let s := s.pushTable d table
    let s := writeClause d " WHERE " s filter
    let s := if order.isEmpty then s else writeSorts d (s.push " ORDER BY ") order
    let s := writeClause d " LIMIT " s limit
    writeClause d " OFFSET " s offset

end

def Clauses.write (d : Dialect) (s : Statement) (select : Select) : Statement :=
  writeSelect d s select

def SortTerm.write (d : Dialect) (s : Statement) (sort : OrderTerm) : Statement :=
  writeSort d s sort

def Expr.render (d : Dialect) (expr : Expr) : Statement :=
  expr.write d .empty

def Clauses.render (d : Dialect) (select : Select) : Statement :=
  select.write d .empty

/-- The body of an `ORDER BY` clause. -/
def renderOrder (d : Dialect) (sorts : List OrderTerm) : Statement :=
  writeSorts d .empty sorts

end Criteria.Sql
