import Criteria.Proofs.Sql.Joining

/-!
Every tree is written in legible fragments, provided that the names of its functions are read as
themselves. Its other names may hold any characters: they are quoted.
-/

namespace Criteria.Sql

open Fragment (Legible Clear Joins)

/-- A function's name that is read as itself in a dialect. -/
def Expr.QuietCall (d : Dialect) : Expr → Prop
  | .call name _ => d.QuietText name
  | _ => True

instance (d : Dialect) : DecidablePred (Expr.QuietCall d)
  | .call name _ => inferInstanceAs (Decidable (d.QuietText name))
  | .column .. | .value _ | .compare .. | .group .. | .not _ | .inList .. | .inSelect ..
  | .subquery _ | .contains .. | .wildcard => .isTrue trivial

theorem Expr.QuietCall.calls {d : Dialect} {e : Expr} (h : e.QuietCall d) :
    e.Calls d.QuietText := by
  cases e <;> exact h

/-- Legibility is one of the properties that are kept in joining: no text that the program writes by
itself runs into what stands beside it. -/
theorem Fragment.joins_legible (d : Dialect) : Joins d (Legible d) where
  nil := trivial
  name _ := ⟨trivial, trivial⟩
  bind _ := ⟨trivial, trivial⟩
  join hfront hs hbehind := hfront.append ⟨hs.1, hbehind⟩ hs.2

section Parts

variable {d : Dialect}

theorem Fragment.Legible.separated {parts : List (List Fragment)} {separator : String}
    (hparts : ∀ part ∈ parts, Legible d part) (hs : Clear d separator) :
    Legible d (Fragment.separated separator parts) :=
  (joins_legible d).separated hparts hs

theorem legible_fragmentsOfSorts {sorts : List OrderTerm}
    (h : ∀ sort ∈ sorts, Legible d (sort.expr.fragments d)) :
    ∀ part ∈ fragmentsOfSorts d sorts, Legible d part :=
  (Fragment.joins_legible d).fragmentsOfSorts h

theorem legible_fragmentsOfSelect {select : Select}
    (h : ∀ e ∈ select.exprs, Legible d (e.fragments d)) :
    Legible d (fragmentsOfSelect d select) :=
  (Fragment.joins_legible d).fragmentsOfSelect h

end Parts

/-- The fragments of a tree are legible as soon as its functions' names are. Names of tables and
columns may be any, for they are quoted. -/
theorem Expr.legible_fragments {d : Dialect} {expr : Expr} (h : expr.Everywhere (QuietCall d)) :
    Legible d (expr.fragments d) := by
  have hopen : d.QuietText "(" := by cases d <;> decide
  refine (Fragment.joins_legible d).fragments (fun hname hbehind => ⟨hname, hopen, hbehind⟩) ?_
  exact h.imp fun _ hcall => hcall.calls

end Criteria.Sql
