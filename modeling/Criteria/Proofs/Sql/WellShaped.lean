import Mathlib.Data.List.Chain
import Criteria.Sql.Backend
import Criteria.Proofs.Sql.Legibility
import Criteria.Proofs.Sql.Occurrences

/-!
Well-shaped conditions: each test stands on a column, a list is never empty, and a statement that a
column is tested against looks up the keys of one table. An empty group, where one is needed, is a
disjunction. The text of such a condition has no empty parentheses outside of its names.
-/

namespace Criteria.Sql

def Expr.IsColumn : Expr → Prop
  | .column .. => True
  | _ => False

/-- A statement that looks up one column of a table, under a condition and with no other clause. The
column is qualified by the table. -/
structure Clauses.IsLookup (select : Select) : Prop where
  column : ∃ table key, select.table = some table ∧ select.columns = [.column (some table) key]
  filter : select.filter ≠ none
  order : select.order = []
  limit : select.limit = none
  offset : select.offset = none

/-- An expression as it may stand in a condition, its parts left aside. -/
def Expr.WellShaped : Expr → Prop
  | .column .. | .value _ | .not _ => True
  | .compare left _ _ | .contains left _ => left.IsColumn
  | .group op operands => operands = [] → op = .or
  | .inList left values => left.IsColumn ∧ values ≠ []
  | .inSelect left select => left.IsColumn ∧ select.IsLookup
  | .subquery _ | .call .. | .wildcard => False

theorem Expr.WellShaped.quietCall {e : Expr} (h : e.WellShaped) (d : Dialect) :
    e.QuietCall d := by
  cases e with
  | call name args => cases h
  | _ => trivial

namespace Expr

theorem wellShaped_column (qualifier : Option String) (name : String) :
    (column qualifier name).Everywhere WellShaped :=
  .intro trivial nofun

/-- A group of well-shaped operands is well-shaped. Only a disjunction may be empty, which is how
the compiler writes that no value of an empty list matches. -/
theorem wellShaped_group {op : Connective} {operands : List Expr}
    (hempty : operands = [] → op = .or)
    (h : ∀ e ∈ operands, e.Everywhere WellShaped) : (group op operands).Everywhere WellShaped :=
  .intro hempty h

theorem wellShaped_not {operand : Expr} (h : operand.Everywhere WellShaped) :
    (Expr.not operand).Everywhere WellShaped :=
  .intro trivial (by simpa [children] using h)

theorem wellShaped_compare (qualifier : Option String) (name : String) (op : Comparison)
    {right : Expr} (h : right.Everywhere WellShaped) :
    (compare (column qualifier name) op right).Everywhere WellShaped :=
  .intro trivial (by simp [children, wellShaped_column, h])

theorem wellShaped_contains (qualifier : Option String) (name : String) (value : Json) :
    (contains (column qualifier name) value).Everywhere WellShaped :=
  .intro trivial (by simp [children, wellShaped_column])

theorem wellShaped_inList (qualifier : Option String) (name : String) {values : List Json}
    (h : values ≠ []) : (inList (column qualifier name) values).Everywhere WellShaped :=
  .intro ⟨trivial, h⟩ (by simp [children, wellShaped_column])

/-- A column is tested against the keys of a table's rows under a well-shaped condition. This is the
only statement that the compiler puts into a condition. -/
theorem wellShaped_amongKeys (qualifier : Option String) (name table key : String) {filter : Expr}
    (h : filter.Everywhere WellShaped) :
    ((column qualifier name).among (keysWhere table key filter)).Everywhere WellShaped := by
  rw [among_keysWhere]
  refine .intro ⟨trivial, ⟨table, key, rfl, rfl⟩, nofun, rfl, rfl, rfl⟩ ?_
  simp [children, Clauses.exprs, wellShaped_column, h]

end Expr

/-- A test that a condition makes. An empty group has one outcome, and tests nothing. -/
inductive Test where
  | comparison (op : Comparison)
  | listed
  | contained
  | nothing (op : Connective)
deriving DecidableEq, Repr

mutual

/-- The tests of an expression, in the order of the text. To look a column up in a statement is no
test by itself: the statement's condition is. -/
def Expr.tests : Expr → List Test
  | .column .. | .value _ | .wildcard => []
  | .compare left op right => .comparison op :: left.tests ++ right.tests
  | .group op [] => [.nothing op]
  | .group _ (first :: rest) => first.tests ++ testsOfExprs rest
  | .not operand => operand.tests
  | .inList operand _ => .listed :: operand.tests
  | .contains operand _ => .contained :: operand.tests
  | .inSelect operand select => operand.tests ++ testsOfSelect select
  | .subquery select => testsOfSelect select
  | .call _ args => testsOfExprs args

def testsOfExprs : List Expr → List Test
  | [] => []
  | expr :: rest => expr.tests ++ testsOfExprs rest

def testsOfClause : Option Expr → List Test
  | none => []
  | some expr => expr.tests

def testsOfSorts : List (SortTerm Expr) → List Test
  | [] => []
  | ⟨expr, _⟩ :: rest => expr.tests ++ testsOfSorts rest

def testsOfSelect : Clauses Expr → List Test
  | ⟨columns, _, filter, order, limit, offset⟩ =>
    testsOfExprs columns ++ testsOfClause filter ++ testsOfSorts order ++ testsOfClause limit
      ++ testsOfClause offset

end

theorem testsOfExprs_eq_flatMap (exprs : List Expr) :
    testsOfExprs exprs = exprs.flatMap Expr.tests := by
  induction exprs with
  | nil => rfl
  | cons expr rest ih => rw [testsOfExprs, ih, List.flatMap_cons]

theorem Expr.tests_group (op : Connective) {operands : List Expr} (h : operands ≠ []) :
    (group op operands).tests = operands.flatMap tests := by
  cases operands with
  | nil => exact absurd rfl h
  | cons first rest => rw [tests, testsOfExprs_eq_flatMap, List.flatMap_cons]

theorem Expr.tests_amongKeys (qualifier : Option String) (name table key : String) (filter : Expr) :
    ((column qualifier name).among (keysWhere table key filter)).tests = filter.tests := by
  rw [among_keysWhere]
  simp [tests, testsOfSelect, testsOfExprs, testsOfClause, testsOfSorts]

/-- Neighbours that are not an empty pair of parentheses. -/
def Token.Parted (first second : Token) : Prop :=
  ¬ (first = .char '(' ∧ second = .char ')')

instance : DecidableRel Token.Parted := fun _ _ => inferInstanceAs (Decidable (¬ (_ ∧ _)))

/-- Tokens without empty parentheses, to be written in front of others. -/
structure Token.Opens (tokens : List Token) : Prop where
  nonempty : tokens ≠ []
  parted : tokens.IsChain Parted
  front : tokens.head? ≠ some (.char ')')

/-- Tokens without empty parentheses, to be written behind others. -/
structure Token.Closes (tokens : List Token) : Prop where
  nonempty : tokens ≠ []
  parted : tokens.IsChain Parted
  back : tokens.getLast? ≠ some (.char '(')

/-- Tokens without empty parentheses, which they do not form with their neighbours either. -/
structure Token.Filled (tokens : List Token) : Prop extends Opens tokens, Closes tokens

namespace Token

variable {first second : List Token}

theorem Opens.before (hfirst : Opens first) (hsecond : Filled second) :
    Filled (first ++ second) where
  nonempty := by simp [hfirst.nonempty]
  parted := List.isChain_append.mpr ⟨hfirst.parted, hsecond.parted, fun _ _ token hhead hparens =>
    hsecond.front (by rw [hhead, hparens.2])⟩
  front := by rw [List.head?_append_of_ne_nil _ hfirst.nonempty]; exact hfirst.front
  back := by rw [List.getLast?_append_of_ne_nil _ hsecond.nonempty]; exact hsecond.back

theorem Filled.before (hfirst : Filled first) (hsecond : Closes second) :
    Filled (first ++ second) where
  nonempty := by simp [hfirst.nonempty]
  parted := List.isChain_append.mpr ⟨hfirst.parted, hsecond.parted, fun token hlast _ _ hparens =>
    hfirst.back (by rw [hlast, hparens.1])⟩
  front := by rw [List.head?_append_of_ne_nil _ hfirst.nonempty]; exact hfirst.front
  back := by rw [List.getLast?_append_of_ne_nil _ hsecond.nonempty]; exact hsecond.back

/-- A token that is no parenthesis neither opens nor closes anything, so it is filled by itself. -/
theorem Filled.single {token : Token} (hopening : token ≠ .char '(')
    (hclosing : token ≠ .char ')') : Filled [token] where
  nonempty := nofun
  parted := .singleton token
  front := by simpa using hclosing
  back := by simpa using hopening

end Token

namespace Fragment

/-- The tokens of a fixed text. -/
abbrev chars (s : String) : List Token :=
  s.toList.map .char

/-- Fragments whose tokens have no empty parentheses, whatever parameters are in front. -/
def Filled (d : Dialect) (fragments : List Fragment) : Prop :=
  ∀ bound, Token.Filled (tokensFrom d bound fragments)

namespace Filled

variable {d : Dialect} {front behind : List Fragment} {s : String}

theorem name (s : String) : Filled d [.name s] :=
  fun _ => .single nofun nofun

theorem bind (value : Json) : Filled d [.bind value] :=
  fun _ => .single nofun nofun

theorem text (h : Token.Filled (chars s)) : Filled d [.text s] := by
  intro bound
  rwa [tokensFrom, tokensFrom, List.append_nil]

theorem text_cons (hs : Token.Opens (chars s)) (h : Filled d behind) :
    Filled d (.text s :: behind) :=
  fun bound => hs.before (h bound)

theorem append_text (h : Filled d front) (hs : Token.Closes (chars s)) :
    Filled d (front ++ [.text s]) := by
  intro bound
  rw [tokensFrom_append, tokensFrom, tokensFrom, List.append_nil]
  exact (h bound).before hs

theorem append (hfront : Filled d front) (hbehind : Filled d behind) :
    Filled d (front ++ behind) := by
  intro bound
  rw [tokensFrom_append]
  exact (hfront bound).toOpens.before (hbehind _)

theorem separated {parts : List (List Fragment)} (hne : parts ≠ [])
    (hparts : ∀ part ∈ parts, Filled d part) (hs : Token.Opens (chars s)) :
    Filled d (separated s parts) := by
  induction parts with
  | nil => exact absurd rfl hne
  | cons part rest ih =>
      have hpart := hparts part (by simp)
      cases rest with
      | nil => exact hpart
      | cons second rest =>
          have hrest := ih nofun fun part hpart => hparts part (by simp [hpart])
          exact hpart.append (text_cons hs hrest)

end Filled

end Fragment

open Fragment (Filled)

theorem filled_fragmentsOfExprs {d : Dialect} {exprs : List Expr}
    (h : ∀ e ∈ exprs, Filled d (e.fragments d)) :
    ∀ part ∈ fragmentsOfExprs d exprs, Filled d part := by
  simpa [fragmentsOfExprs_eq_map] using h

/-- A look-up is written with its column, its table and its condition, each of them filled, so it
can stand between the parentheses of a test. -/
theorem Clauses.IsLookup.filled {d : Dialect} {select : Select} (h : select.IsLookup)
    (hparts : ∀ e ∈ select.exprs, Filled d (e.fragments d)) :
    Filled d (fragmentsOfSelect d select) := by
  obtain ⟨columns, table, filter, order, limit, offset⟩ := select
  obtain ⟨⟨name, key, htable, hcolumns⟩, hfilter, horder, hlimit, hoffset⟩ := h
  obtain ⟨filter, rfl⟩ := Option.ne_none_iff_exists'.mp hfilter
  cases htable; cases hcolumns; cases horder; cases hlimit; cases hoffset
  have hcolumn := hparts (.column (some name) key) (by simp [exprs])
  have hcondition := hparts filter (by simp [exprs])
  have hselect : Token.Opens (Fragment.chars "SELECT ") := by constructor <;> decide
  have hfrom : Token.Opens (Fragment.chars " FROM ") := by constructor <;> decide
  have hwhere : Token.Opens (Fragment.chars " WHERE ") := by constructor <;> decide
  have hfiltered := (Filled.name name).append (.text_cons hwhere hcondition)
  have hrows := hcolumn.append (.text_cons hfrom hfiltered)
  simpa [fragmentsOfSelect, fragmentsOfExprs, fragmentsOfTable, fragmentsOfClause,
    Fragment.separated] using Filled.text_cons hselect hrows

/-- A well-shaped expression is written without empty parentheses, and does not form a pair of them
with what it is written between. -/
theorem Expr.filled {d : Dialect} {e : Expr} (h : e.Everywhere WellShaped) :
    Filled d (e.fragments d) := by
  have hopen : Token.Opens (Fragment.chars "(") := by constructor <;> decide
  have hclose : Token.Closes (Fragment.chars ")") := by constructor <;> decide
  have hcloses : Token.Closes (Fragment.chars "))") := by constructor <;> decide
  have hin : Token.Opens (Fragment.chars " IN (") := by constructor <;> decide
  have hcomma : Token.Opens (Fragment.chars ", ") := by constructor <;> decide
  induction e with
  | column qualifier name =>
      cases qualifier with
      | none => exact .name name
      | some qualifier =>
          have hdot : Token.Opens (Fragment.chars ".") := by constructor <;> decide
          exact (Filled.name qualifier).append (.text_cons hdot (.name name))
  | value value => exact .bind value
  | compare left op right hleft hright =>
      have hleft := hleft (h.inside left (by simp [children]))
      have hright := hright (h.inside right (by simp [children]))
      have hop : Token.Opens (Fragment.chars (" " ++ op.text ++ " ")) := by
        cases op <;> constructor <;> decide
      simpa [fragments] using
        (Filled.text_cons hopen (hleft.append (.text_cons hop hright))).append_text hclose
  | group op operands ih =>
      have hparts := filled_fragmentsOfExprs fun e he => ih e he (h.inside e he)
      cases operands with
      | nil =>
          have hopens : Token.Opens (Fragment.chars op.unit) := by
            cases op <;> constructor <;> decide
          have hback : (Fragment.chars op.unit).getLast? ≠ some (.char '(') := by
            cases op <;> decide
          exact .text { hopens with back := hback }
      | cons first rest =>
          have hop : Token.Opens (Fragment.chars (" " ++ op.text ++ " ")) := by
            cases op <;> constructor <;> decide
          have hoperands := Filled.separated (by simp [fragmentsOfExprs]) hparts hop
          simpa [fragments, fragmentsOfExprs] using
            (Filled.text_cons hopen hoperands).append_text hclose
  | not operand ih =>
      have hoperand := ih (h.inside operand (by simp [children]))
      have hnot : Token.Opens (Fragment.chars "NOT ") := by constructor <;> decide
      rw [fragments]
      split
      · exact .text_cons hnot hoperand
      · exact .text_cons hnot ((Filled.text_cons hopen hoperand).append_text hclose)
  | inList operand values ih =>
      have hoperand := ih (h.inside operand (by simp [children]))
      have hvalues : ∀ part ∈ values.map fun value => [Fragment.bind value], Filled d part := by
        rw [List.forall_mem_map]
        exact fun value _ => .bind value
      have hlist := Filled.separated (by simpa using h.here.2) hvalues hcomma
      simpa [fragments] using
        (Filled.text_cons hopen (hoperand.append (.text_cons hin hlist))).append_text hcloses
  | inSelect operand select ih hselect =>
      have hoperand := ih (h.inside operand (by simp [children]))
      have hrows := h.here.2.filled fun e he => hselect e he (h.inside e (by simp [children, he]))
      simpa [fragments] using
        (Filled.text_cons hopen (hoperand.append (.text_cons hin hrows))).append_text hcloses
  | contains target value ih =>
      have htarget := ih (h.inside target (by simp [children]))
      have hopening : Token.Opens (Fragment.chars d.containsOpening) := by
        cases d <;> constructor <;> decide
      have hseparator : Token.Opens (Fragment.chars d.containsSeparator) := by
        cases d <;> constructor <;> decide
      have hvalue := (Filled.bind value).append_text (d := d) hclose
      simpa [fragments] using
        Filled.text_cons hopening (htarget.append (.text_cons hseparator hvalue))
  | subquery select => exact h.here.elim
  | call name args => exact h.here.elim
  | wildcard => exact h.here.elim

/-- Among the tokens of a well-shaped expression there is no test against an empty list. Names are
one token each here, so what a name spells does not count. -/
theorem Expr.no_empty_list {e : Expr} (h : e.Everywhere WellShaped) (d : Dialect) :
    ¬ Fragment.chars "IN ()" <:+: Fragment.tokensFrom d 0 (e.fragments d) := by
  intro hempty
  have hparted : (Fragment.chars "IN ()").IsChain Token.Parted :=
    List.IsChain.infix (filled h 0).parted hempty
  exact absurd hparted (by decide)

/-- The text of a well-shaped expression does not test anything against an empty list, and looks
like it only in a name that does. -/
theorem Expr.render_of_wellShaped {e : Expr} (h : e.Everywhere WellShaped) (d : Dialect) :
    (∃ tokens, d.tokens (e.render d).sql = some tokens ∧
      ¬ "IN ()".toList.map Token.char <:+: tokens) ∧
    ("IN ()".toList <:+: (e.render d).sql.toList →
      ∃ name ∈ e.names, "IN ()".toList <:+: name.toList) := by
  have hlegible := legible_fragments (d := d) (h.imp fun _ hshape => hshape.quietCall d)
  have hnone := no_empty_list h d
  refine ⟨⟨_, by rw [render_eq]; exact Statement.tokens_ofFragments hlegible, hnone⟩, ?_⟩
  rw [render_eq, Statement.ofFragments_eq]
  intro htext
  have hverbal : d.Verbal "IN ()".toList := by cases d <;> decide
  rcases Fragment.infix_textFrom hverbal (e.fragments d) 0 [] htext with hname | htokens
  · rwa [names_fragments] at hname
  · exact absurd htokens hnone

end Criteria.Sql
