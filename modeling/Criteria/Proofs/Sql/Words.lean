import Mathlib.Data.List.Chain
import Criteria.Proofs.Sql.Legibility
import Criteria.Proofs.Sql.Parameters

/-!
SQL text as a reader sees it: words, quoted names, values in the place of their placeholders, and
punctuation. A word ends at a blank, at punctuation, and where a name or a placeholder begins. Two
texts that are written one behind the other are read apart if one of them is fenced off at the side
of the other, and then each is read by itself.
-/

namespace Criteria.Sql

open Fragment (textFrom tokensFrom binds)

/-- The words that open the clauses of a statement. -/
inductive ClauseWord where
  | select
  | table
  | filter
  | order
  | limit
  | offset
deriving DecidableEq, Repr

inductive Word where
  | connective (op : Connective)
  | unit (op : Connective)
  | not
  | comparison (op : Comparison)
  | isIn
  | contains
  /-- The function that tests for containment. -/
  | containment
  | clause (clause : ClauseWord)
  | by
  | direction (direction : Direction)
  | all
  | other (s : String)
deriving DecidableEq, Repr

/-- The word that is spelled so. -/
def Word.ofText : String → Word
  | "AND" => .connective .and
  | "OR" => .connective .or
  | "TRUE" => .unit .and
  | "FALSE" => .unit .or
  | "NOT" => .not
  | "=" => .comparison .eq
  | "<>" => .comparison .ne
  | "<" => .comparison .lt
  | "<=" => .comparison .le
  | ">" => .comparison .gt
  | ">=" => .comparison .ge
  | "LIKE" => .comparison .like
  | "IN" => .isIn
  | "@>" => .contains
  | "JSON_CONTAINS" => .containment
  | "SELECT" => .clause .select
  | "FROM" => .clause .table
  | "WHERE" => .clause .filter
  | "ORDER" => .clause .order
  | "LIMIT" => .clause .limit
  | "OFFSET" => .clause .offset
  | "BY" => .by
  | "ASC" => .direction .asc
  | "DESC" => .direction .desc
  | "*" => .all
  | s => .other s

/-- What a text is made of. A placeholder without a parameter has no value. -/
inductive Lexeme where
  | name (s : String)
  | value (value : Option Json)
  | word (word : Word)
  | opening
  | closing
  | comma
  | dot
deriving Repr

/-- What a character says that belongs to no word; a blank says nothing. -/
def punctuation? : Char → Option (List Lexeme)
  | ' ' => some []
  | '(' => some [.opening]
  | ')' => some [.closing]
  | ',' => some [.comma]
  | '.' => some [.dot]
  | _ => none

/-- The word of the characters that were read since the last one ended, if there are any. -/
def endWord : List Char → List Lexeme
  | [] => []
  | word => [.word (.ofText (String.ofList word))]

/-- What characters say behind a word that has begun, and the word that they leave begun. -/
def spell (word : List Char) : List Char → List Lexeme × List Char
  | [] => ([], word)
  | c :: rest =>
    match punctuation? c with
    | some lexemes => (endWord word ++ lexemes ++ (spell [] rest).1, (spell [] rest).2)
    | none => spell (word ++ [c]) rest

/-- The parameter that a placeholder stands for, behind `passed` others. -/
def Dialect.param? (d : Dialect) (params : List Json) (passed : Nat) (mark : String) :
    Option Json :=
  match d with
  | .postgres =>
    match Nat.ofDigitChars 10 (mark.toList.drop 1) 0 with
    | 0 => none
    | number + 1 => params[number]?
  | .mysql => if mark = "?" then params[passed]? else none

/-- What tokens say behind `passed` placeholders and a word that has begun. -/
def Dialect.scan (d : Dialect) (params : List Json) (passed : Nat) (word : List Char) :
    List Token → List Lexeme
  | [] => endWord word
  | .name s :: rest => endWord word ++ .name s :: scan d params passed [] rest
  | .mark s :: rest =>
    endWord word ++ .value (d.param? params passed s) :: scan d params (passed + 1) [] rest
  | .char c :: rest =>
    match punctuation? c with
    | some lexemes => endWord word ++ lexemes ++ scan d params passed [] rest
    | none => scan d params passed (word ++ [c]) rest

/-- What a statement says, its parameters included; none if its last name is not closed. -/
def Statement.lexemes? (d : Dialect) (s : Statement) : Option (List Lexeme) :=
  (d.tokens s.sql).map (d.scan s.params 0 [])

/-- A placeholder stands for the parameter it was written for: by its number in one dialect, by the
count of those before it in the other. -/
theorem Dialect.param?_placeholder (d : Dialect) (params : List Json) (passed : Nat) :
    d.param? params passed (d.placeholder passed) = params[passed]? := by
  cases d with
  | mysql => rfl
  | postgres =>
      have hdigits : (Dialect.postgres.placeholder passed).toList.drop 1 =
          Nat.toDigits 10 (passed + 1) := by
        simp [Dialect.placeholder]
      rw [param?, hdigits, Nat.ofDigitChars_ten_toDigits]

section Scan

variable {d : Dialect} {params : List Json} {passed : Nat}

theorem scan_chars (word cs : List Char) (rest : List Token) :
    d.scan params passed word (cs.map .char ++ rest) =
      (spell word cs).1 ++ d.scan params passed (spell word cs).2 rest := by
  induction cs generalizing word with
  | nil => rfl
  | cons c cs ih =>
      rw [List.map_cons, List.cons_append, Dialect.scan, spell]
      cases punctuation? c with
      | none => exact ih (word ++ [c])
      | some lexemes => simp [ih]

/-- A token that ends a word in front of it. -/
def Token.EndsWord : Token → Prop
  | .char c => (punctuation? c).isSome
  | _ => True

/-- A word that is begun ends in front of a token which no word goes on with. -/
theorem scan_of_endsWord (word : List Char) {rest : List Token}
    (h : ∀ token ∈ rest.head?, token.EndsWord) :
    d.scan params passed word rest = endWord word ++ d.scan params passed [] rest := by
  cases rest with
  | nil => simp [Dialect.scan, endWord]
  | cons token rest =>
      have htoken := h token (by simp)
      cases token with
      | name s => simp [Dialect.scan, endWord]
      | mark s => simp [Dialect.scan, endWord]
      | char c =>
          obtain ⟨lexemes, hc⟩ := Option.isSome_iff_exists.mp htoken
          simp [Dialect.scan, hc, endWord]

end Scan

namespace Fragment

/-- What a fragment says by itself. -/
def lexemes : Fragment → List Lexeme
  | .text s => (spell [] s.toList).1 ++ endWord (spell [] s.toList).2
  | .name s => [.name s]
  | .bind value => [.value (some value)]

/-- A fragment that leaves no word begun. -/
def Closed : Fragment → Prop
  | .text s => (spell [] s.toList).2 = []
  | _ => True

/-- A fragment that ends a word in front of it. -/
def Fresh : Fragment → Prop
  | .text s => ∃ c ∈ s.toList.head?, (punctuation? c).isSome
  | _ => True

instance : DecidablePred Closed
  | .text _ => inferInstanceAs (Decidable (_ = _))
  | .name _ | .bind _ => .isTrue trivial

instance : DecidablePred Fresh
  | .text s => Option.decidableExistsMem s.toList.head?
  | .name _ | .bind _ => .isTrue trivial

/-- Fragments that are read apart. -/
def Beside (first second : Fragment) : Prop :=
  first.Closed ∨ second.Fresh

variable {d : Dialect} {params : List Json}

theorem endsWord_tokensFrom {fragments : List Fragment} (bound : Nat)
    (h : ∀ fragment ∈ fragments.head?, fragment.Fresh) :
    ∀ token ∈ (tokensFrom d bound fragments).head?, token.EndsWord := by
  cases fragments with
  | nil => simp [tokensFrom]
  | cons fragment rest =>
      have hfragment := h fragment (by simp)
      cases fragment with
      | name s => simp [tokensFrom, Token.EndsWord]
      | bind value => simp [tokensFrom, Token.EndsWord]
      | text s =>
          obtain ⟨c, hhead, hc⟩ := hfragment
          obtain ⟨cs, hs⟩ := List.head?_eq_some_iff.mp hhead
          simpa [tokensFrom, hs, Token.EndsWord] using hc

/-- Fragments that are read apart from their neighbours are read one by one, with their values for
the placeholders. -/
theorem scan_tokensFrom {fragments : List Fragment} {bound : Nat}
    (hparams : params.drop bound = binds fragments) (h : fragments.IsChain Beside) :
    d.scan params bound [] (tokensFrom d bound fragments) = fragments.flatMap lexemes := by
  induction fragments generalizing bound with
  | nil => rfl
  | cons fragment rest ih =>
      obtain ⟨hbeside, hrest⟩ := List.isChain_cons.mp h
      cases fragment with
      | name s =>
          have hothers := ih hparams hrest
          simp [tokensFrom, Dialect.scan, endWord, lexemes, hothers]
      | bind value =>
          have hvalue : params[bound]? = some value := by
            rw [← List.head?_drop, hparams]
            rfl
          have hothers : params.drop (bound + 1) = binds rest := by
            rw [← List.drop_drop, hparams]
            rfl
          simp [tokensFrom, Dialect.scan, endWord, lexemes, d.param?_placeholder, hvalue,
            ih hothers hrest]
      | text s =>
          have hothers := ih hparams hrest
          rw [tokensFrom, scan_chars, List.flatMap_cons, lexemes, List.append_assoc]
          congr 1
          by_cases hclosed : (spell [] s.toList).2 = []
          · rw [hclosed, hothers]
            rfl
          · have hfresh : ∀ fragment ∈ rest.head?, fragment.Fresh := fun fragment hfragment =>
              (hbeside fragment hfragment).resolve_left hclosed
            rw [scan_of_endsWord _ (endsWord_tokensFrom bound hfresh), hothers]

end Fragment

/-- A rendered expression says what its fragments say: reading its text back, with the parameters
for the placeholders, gives the lexemes of the fragments in order. -/
theorem Expr.lexemes?_render {d : Dialect} {e : Expr}
    (hlegible : Fragment.Legible d (e.fragments d))
    (hapart : (e.fragments d).IsChain Fragment.Beside) :
    (e.render d).lexemes? d = some ((e.fragments d).flatMap Fragment.lexemes) := by
  have hparams : (e.render d).params.drop 0 = binds (e.fragments d) := by
    rw [List.drop_zero, render_eq, Statement.params_ofFragments]
  rw [Statement.lexemes?, render_eq, Statement.tokens_ofFragments hlegible, ← render_eq,
    Option.map_some, Fragment.scan_tokensFrom hparams hapart]

end Criteria.Sql
