import Criteria.Proofs.Sql.Legibility
import Criteria.Proofs.Sql.Parameters

/-!
Placeholders and bind parameters keep in step. A rendered text, scanned from left to right outside
its quoted names, shows one placeholder for each parameter, numbered in this order where the dialect
numbers them, and the parameters are the literals of the tree in the order of the text.
-/

namespace Criteria.Sql

open Fragment (Legible textFrom tokensFrom binds)

def Token.mark? : Token → Option String
  | .mark s => some s
  | _ => none

/-- The placeholders of a text outside its quoted names, from left to right; none if the last name
is not closed. -/
def Dialect.placeholders (d : Dialect) (text : String) : Option (List String) :=
  (d.tokens text).map (·.filterMap Token.mark?)

/-- The placeholders of the first `count` parameters. -/
def Dialect.firstMarks (d : Dialect) (count : Nat) : List String :=
  match d with
  | .postgres => (List.range count).map fun i => "$" ++ toString (i + 1)
  | .mysql => List.replicate count "?"

theorem Dialect.firstMarks_eq (d : Dialect) (count : Nat) :
    d.firstMarks count = (List.range' 0 count).map d.placeholder := by
  cases d with
  | postgres =>
      rw [firstMarks, List.range_eq_range']
      rfl
  | mysql =>
      have hmark : ∀ i ∈ List.range' 0 count, Dialect.mysql.placeholder i = "?" := fun _ _ => rfl
      rw [List.map_congr_left hmark, List.map_const', List.length_range', firstMarks]

/-- Fragments show a placeholder for each of their parameters, counted on from those before. Names
are tokens of their own, so a name that looks like a placeholder is not among them. -/
theorem Fragment.marks_tokensFrom (d : Dialect) (bound : Nat) (fragments : List Fragment) :
    (tokensFrom d bound fragments).filterMap Token.mark? =
      (List.range' bound (binds fragments).length).map d.placeholder := by
  induction fragments generalizing bound with
  | nil => rfl
  | cons fragment rest ih =>
      cases fragment with
      | text s =>
          have hchars : (s.toList.map Token.char).filterMap Token.mark? = [] := by
            simp [List.filterMap_eq_nil_iff, Token.mark?]
          rw [tokensFrom, List.filterMap_append, hchars, ih bound]
          rfl
      | name s =>
          rw [tokensFrom, List.filterMap_cons_none rfl, ih bound]
          rfl
      | bind value => simp [tokensFrom, Token.mark?, ih (bound + 1), List.range'_succ]

/-- The text of legible fragments shows these placeholders, and no others. It is read character by
character, with the quotes of the dialect around the names. -/
theorem Fragment.placeholders_textFrom {d : Dialect} {fragments : List Fragment}
    (h : Legible d fragments) (bound : Nat) :
    d.placeholders (textFrom d bound fragments) =
      some ((List.range' bound (binds fragments).length).map d.placeholder) := by
  rw [Dialect.placeholders, tokens_textFrom h, Option.map_some, marks_tokensFrom]

/-- A statement whose parameters are the given literals, and whose text shows the placeholders of
exactly these parameters, in order. -/
structure Statement.InStep (d : Dialect) (literals : List Json) (s : Statement) : Prop where
  params : s.params = literals
  placeholders : d.placeholders s.sql = some (d.firstMarks s.params.length)

/-- What is rendered from legible fragments keeps in step with what they bind: the parameters are
these values in order, and the placeholders are the first ones in order. -/
theorem Statement.inStep_ofFragments {d : Dialect} {fragments : List Fragment}
    (h : Legible d fragments) :
    (ofFragments d fragments).InStep d (binds fragments) where
  params := params_ofFragments d fragments
  placeholders := by
    rw [ofFragments_eq, Fragment.placeholders_textFrom h, Dialect.firstMarks_eq]

/-- Whatever is rendered from scratch, its placeholders and its parameters keep in step with the
literals of the tree, and both dialects bind the same parameters. -/
theorem render_inStep :
    (∀ (d : Dialect) (expr : Expr), expr.Everywhere (Expr.QuietCall d) →
      (expr.render d).InStep d expr.literals) ∧
    (∀ (d : Dialect) (select : Select), (∀ e ∈ select.exprs, e.Everywhere (Expr.QuietCall d)) →
      (select.render d).InStep d select.literals) ∧
    (∀ (d : Dialect) (sorts : List OrderTerm),
      (∀ sort ∈ sorts, sort.expr.Everywhere (Expr.QuietCall d)) →
      (renderOrder d sorts).InStep d (literalsOfSorts sorts)) ∧
    (∀ expr : Expr, (expr.render .postgres).params = (expr.render .mysql).params) ∧
    (∀ select : Select, (select.render .postgres).params = (select.render .mysql).params) ∧
    (∀ sorts : List OrderTerm,
      (renderOrder .postgres sorts).params = (renderOrder .mysql sorts).params) := by
  refine ⟨?_, ?_, ?_, ?_, ?_, ?_⟩
  · intro d expr hcalls
    have hstep := Statement.inStep_ofFragments (Expr.legible_fragments hcalls)
    rwa [← expr.render_eq, expr.binds_fragments] at hstep
  · intro d select hcalls
    have hlegible := legible_fragmentsOfSelect fun e he => Expr.legible_fragments (hcalls e he)
    have hstep := Statement.inStep_ofFragments hlegible
    rwa [← select.render_eq, ← Statement.params_ofFragments, ← select.render_eq,
      select.params_render] at hstep
  · intro d sorts hcalls
    have hparts := legible_fragmentsOfSorts fun sort hsort =>
      Expr.legible_fragments (hcalls sort hsort)
    have hcomma : Fragment.Clear d ", " := by cases d <;> decide
    have hstep := Statement.inStep_ofFragments (.separated hparts hcomma)
    rwa [← renderOrder_eq, ← Statement.params_ofFragments, ← renderOrder_eq,
      params_renderOrder] at hstep
  · intro expr
    rw [expr.params_render, expr.params_render]
  · intro select
    rw [select.params_render, select.params_render]
  · intro sorts
    rw [params_renderOrder, params_renderOrder]

/-- A statement with quotes and placeholders in its names, and a containment test whose target holds
a literal itself. -/
def hostileSelect : Select where
  columns := [.column (some "$1") "a\"?"]
  table := some "`$2"
  filter := some (.contains (.call "LOWER" [.value (.str "x")]) (.str "?"))
  limit := some (.value .null)

/-- A condition on that statement's rows. -/
def hostileCondition : Expr :=
  .inSelect (.call "COALESCE" [.column none "?", .value (.str "$9")]) hostileSelect

theorem everywhere_hostileCondition (d : Dialect) :
    hostileCondition.Everywhere (Expr.QuietCall d) := by
  have hcolumn (qualifier : Option String) (name : String) :
      (Expr.column qualifier name).Everywhere (Expr.QuietCall d) := .intro trivial nofun
  have hvalue (value : Json) : (Expr.value value).Everywhere (Expr.QuietCall d) :=
    .intro trivial nofun
  have htarget : (Expr.call "LOWER" [.value (.str "x")]).Everywhere (Expr.QuietCall d) :=
    .intro (by cases d <;> decide) (by simp [Expr.children, hvalue])
  have hfilter : (Expr.contains (.call "LOWER" [.value (.str "x")]) (.str "?")).Everywhere
      (Expr.QuietCall d) :=
    .intro trivial (by simp [Expr.children, htarget])
  have hoperand : (Expr.call "COALESCE" [.column none "?", .value (.str "$9")]).Everywhere
      (Expr.QuietCall d) :=
    .intro (by cases d <;> decide) (by simp [Expr.children, hcolumn, hvalue])
  refine .intro trivial ?_
  simp [hostileCondition, hostileSelect, Expr.children, Clauses.exprs, hoperand, hfilter, hcolumn,
    hvalue]

/-- Names that look like placeholders are not counted, in a statement, in a condition on its rows,
and in sorts by that condition. -/
theorem render_inStep_hostile :
    (∀ d, (hostileCondition.render d).InStep d
      [.str "$9", .str "x", .str "?", .null]) ∧
    (∀ d, (hostileSelect.render d).InStep d [.str "x", .str "?", .null]) ∧
    (∀ d, (renderOrder d [⟨hostileCondition, .desc⟩, ⟨.value .null, .asc⟩]).InStep d
      [.str "$9", .str "x", .str "?", .null, .null]) := by
  have hcalls := everywhere_hostileCondition
  refine ⟨fun d => render_inStep.1 d hostileCondition (hcalls d), fun d => ?_, fun d => ?_⟩
  · have hselect : ∀ e ∈ hostileSelect.exprs, e.Everywhere (Expr.QuietCall d) :=
      fun e he => (hcalls d).inside e (.tail _ he)
    exact render_inStep.2.1 d hostileSelect hselect
  · have hvalue : (Expr.value .null).Everywhere (Expr.QuietCall d) := .intro trivial nofun
    exact render_inStep.2.2.1 d [⟨hostileCondition, .desc⟩, ⟨.value .null, .asc⟩]
      (by simp [hcalls d, hvalue])

end Criteria.Sql
