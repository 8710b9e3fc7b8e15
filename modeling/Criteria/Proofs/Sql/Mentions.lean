import Criteria.Sql.Backend

/-!
What a statement mentions besides its values: tables, columns and functions, at every depth.
-/

namespace Criteria.Sql

inductive Mention where
  | table (name : String)
  | column (qualifier : Option String) (name : String)
  | function (name : String)
deriving DecidableEq, Repr

/-- What an expression mentions, its parts left aside. A statement inside it mentions its table. -/
def Expr.mention? : Expr → Option Mention
  | .column qualifier name => some (.column qualifier name)
  | .inSelect _ select | .subquery select => select.table.map .table
  | .call name _ => some (.function name)
  | _ => none

/-- An expression that mentions nothing else, at any depth. -/
def Expr.MentionsOnly (p : Mention → Prop) (expr : Expr) : Prop :=
  expr.Everywhere fun e => ∀ m ∈ e.mention?, p m

/-- A statement that mentions nothing else, at any depth. -/
structure Clauses.MentionsOnly (p : Mention → Prop) (select : Select) : Prop where
  table : ∀ name ∈ select.table, p (.table name)
  exprs : ∀ e ∈ select.exprs, e.MentionsOnly p

namespace Expr.MentionsOnly

variable {p q : Mention → Prop}

/-- What mentions only things with one property mentions only things with a weaker one. The
compiler's lemmas use it to go from one field's exposure to that of the whole document. -/
theorem imp {e : Expr} (hpq : ∀ m, p m → q m) (h : e.MentionsOnly p) : e.MentionsOnly q :=
  Everywhere.imp (fun _ he m hm => hpq m (he m hm)) h

theorem column {qualifier : Option String} {name : String} (h : p (.column qualifier name)) :
    (Expr.column qualifier name).MentionsOnly p :=
  .intro (by simpa [mention?] using h) nofun

theorem value (value : Json) : (Expr.value value).MentionsOnly p :=
  .intro nofun nofun

theorem group (op : Connective) {operands : List Expr} (h : ∀ e ∈ operands, e.MentionsOnly p) :
    (Expr.group op operands).MentionsOnly p :=
  .intro nofun h

theorem not {operand : Expr} (h : operand.MentionsOnly p) : (Expr.not operand).MentionsOnly p :=
  .intro nofun (List.forall_mem_singleton.mpr h)

theorem compare (op : Comparison) {left right : Expr} (hleft : left.MentionsOnly p)
    (hright : right.MentionsOnly p) : (Expr.compare left op right).MentionsOnly p :=
  .intro nofun (List.forall_mem_cons.mpr ⟨hleft, List.forall_mem_singleton.mpr hright⟩)

theorem inList (values : List Json) {left : Expr} (h : left.MentionsOnly p) :
    (Expr.inList left values).MentionsOnly p :=
  .intro nofun (List.forall_mem_singleton.mpr h)

theorem contains (value : Json) {left : Expr} (h : left.MentionsOnly p) :
    (Expr.contains left value).MentionsOnly p :=
  .intro nofun (List.forall_mem_singleton.mpr h)

/-- A test against a table's keys mentions the table and the key besides its parts. This is the only
place where the compiler brings in another table. -/
theorem amongKeys {operand filter : Expr} {table key : String} (htable : p (.table table))
    (hkey : p (.column (some table) key)) (hoperand : operand.MentionsOnly p)
    (hfilter : filter.MentionsOnly p) :
    (operand.among (keysWhere table key filter)).MentionsOnly p := by
  rw [among_keysWhere]
  refine .intro (by simpa [mention?] using htable) (List.forall_mem_cons.mpr ⟨hoperand, ?_⟩)
  exact List.forall_mem_cons.mpr ⟨column hkey, List.forall_mem_singleton.mpr hfilter⟩

end Expr.MentionsOnly

end Criteria.Sql
