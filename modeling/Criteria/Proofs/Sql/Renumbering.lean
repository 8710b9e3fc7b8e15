import Criteria.Proofs.Sql.Placeholders

/-!
Placeholders counted on. A text read as tokens is what its tokens spell, so it can be written again
with other numbers in its placeholders and is otherwise the same: names are left alone, whatever
they hold, and so are placeholders without a number. Fragments that are written behind further
parameters come to their own text counted on.
-/

namespace Criteria.Sql

open Fragment (Legible textFrom tokensFrom)

/-- The characters that a token is read from. -/
def Token.chars (d : Dialect) : Token → List Char
  | .name s => (d.quoteName s).toList
  | .mark s => s.toList
  | .char c => [c]

/-- Reading a name loses nothing: the text is the name with its quotes doubled, the closing quote,
and what was left. -/
theorem eq_doubleQuotes_of_readName {quote : Char} {text name behind : List Char}
    (h : readName quote text = some (name, behind)) :
    text = Dialect.doubleQuotes quote name ++ quote :: behind := by
  fun_induction readName quote text generalizing name with
  | case1 => cases h
  | case2 c rest hc ih =>
      obtain ⟨⟨name, behind'⟩, hread, heq⟩ := Option.map_eq_some_iff.mp h
      cases heq
      simp [Dialect.doubleQuotes, hc, ← ih hread]
  | case3 c hc =>
      cases h
      simpa [Dialect.doubleQuotes] using hc
  | case4 c hc behind' ih =>
      obtain ⟨⟨name, behind''⟩, hread, heq⟩ := Option.map_eq_some_iff.mp h
      cases heq
      simpa [Dialect.doubleQuotes, ← ih hread] using hc
  | case5 c hc next behind' hnext =>
      cases h
      simpa [Dialect.doubleQuotes] using hc

/-- The tokens of a text spell it again, so that a text can be changed by changing its tokens. -/
theorem chars_of_lex {d : Dialect} {text : List Char} {tokens : List Token}
    (h : lex d.quoteChar text = some tokens) : tokens.flatMap (Token.chars d) = text := by
  fun_induction lex d.quoteChar text generalizing tokens with
  | case1 => cases h; rfl
  | case2 rest hread => cases h
  | case3 rest name behind hread ih =>
      obtain ⟨others, hothers, rfl⟩ := Option.map_eq_some_iff.mp h
      have hquoted := eq_doubleQuotes_of_readName hread
      simp [Token.chars, Dialect.quoteName, ih hothers, hquoted]
  | case4 rest hquote ih =>
      obtain ⟨others, hothers, rfl⟩ := Option.map_eq_some_iff.mp h
      simp [Token.chars, ih hothers]
  | case5 rest hquote hquestion ih =>
      obtain ⟨others, hothers, rfl⟩ := Option.map_eq_some_iff.mp h
      simp [Token.chars, ih hothers, List.takeWhile_append_dropWhile]
  | case6 c rest hquote hquestion hdollar ih =>
      obtain ⟨others, hothers, rfl⟩ := Option.map_eq_some_iff.mp h
      simp [Token.chars, ih hothers]

/-- The token behind `count` further parameters: a placeholder with a number has a larger one. -/
def Token.countOn (count : Nat) : Token → Token
  | .mark s =>
    match s.toList with
    | '$' :: digit :: digits =>
      .mark ("$" ++ toString (Nat.ofDigitChars 10 (digit :: digits) 0 + count))
    | _ => .mark s
  | token => token

/-- A text with all the placeholders outside its quoted names counted on; none if its last name is
not closed. -/
def Dialect.countOn? (d : Dialect) (count : Nat) (text : String) : Option String :=
  (d.tokens text).map fun tokens =>
    String.ofList ((tokens.map (Token.countOn count)).flatMap (Token.chars d))

/-- Where no placeholder has a number, counting on leaves the text as it is, whatever names and
other characters it has. -/
theorem Dialect.countOn?_eq_self {d : Dialect} {text : String} {marks : List String}
    (h : d.placeholders text = some marks) (hmarks : ∀ mark ∈ marks, mark = "?") (count : Nat) :
    d.countOn? count text = some text := by
  obtain ⟨tokens, htokens, rfl⟩ := Option.map_eq_some_iff.mp h
  have hsame : ∀ token ∈ tokens, token.countOn count = token := by
    intro token htoken
    cases token with
    | name s => rfl
    | char c => rfl
    | mark s =>
        have hmark : s = "?" := hmarks s (List.mem_filterMap.mpr ⟨_, htoken, rfl⟩)
        simp [Token.countOn, hmark]
  rw [countOn?, htokens, Option.map_some, List.map_congr_left hsame, List.map_id',
    chars_of_lex htokens, String.ofList_toList]

example : Dialect.postgres.countOn? 2 "(\"$1\" = $1 AND \"a\"\"?\" > $12)" =
    some "(\"$1\" = $3 AND \"a\"\"?\" > $14)" := by
  decide +kernel

theorem Token.countOn_placeholder (d : Dialect) (count bound : Nat) :
    countOn count (.mark (d.placeholder bound)) = .mark (d.placeholder (bound + count)) := by
  cases d with
  | mysql => simp [countOn, Dialect.placeholder]
  | postgres =>
      have hmark : (Dialect.postgres.placeholder bound).toList =
          '$' :: Nat.toDigits 10 (bound + 1) := by
        simp [Dialect.placeholder]
      have hnumber : Nat.ofDigitChars 10 (Nat.toDigits 10 (bound + 1)) 0 = bound + 1 :=
        Nat.ofDigitChars_ten_toDigits
      -- A mark without digits is left alone, but every number has some.
      cases hdigits : Nat.toDigits 10 (bound + 1) with
      | nil => simp [hdigits] at hnumber
      | cons digit digits =>
          rw [hdigits] at hmark hnumber
          simp only [countOn, hmark, hnumber]
          rw [Dialect.placeholder, Nat.add_right_comm]

namespace Fragment

variable (d : Dialect)

/-- Counting on the tokens of fragments is the same as numbering the fragments from further on. -/
theorem map_countOn_tokensFrom (count bound : Nat) (fragments : List Fragment) :
    (tokensFrom d bound fragments).map (Token.countOn count) =
      tokensFrom d (bound + count) fragments := by
  induction fragments generalizing bound with
  | nil => rfl
  | cons fragment rest ih =>
      cases fragment with
      | text s => simp [tokensFrom, ih, Token.countOn, Function.comp_def]
      | name s => simp [tokensFrom, ih, Token.countOn]
      | bind value => simp [tokensFrom, ih, Token.countOn_placeholder, Nat.add_right_comm]

theorem chars_tokensFrom (bound : Nat) (fragments : List Fragment) :
    (tokensFrom d bound fragments).flatMap (Token.chars d) =
      (textFrom d bound fragments).toList := by
  induction fragments generalizing bound with
  | nil => rfl
  | cons fragment rest ih =>
      cases fragment with
      | text s => simp [tokensFrom, ih, Token.chars, List.flatMap_map]
      | name s => simp [tokensFrom, ih, Token.chars]
      | bind value => simp [tokensFrom, ih, Token.chars]

end Fragment

/-- The text of fragments behind other parameters is their own text counted on, so it can be told
from the text by itself. -/
theorem Statement.countOn?_ofFragments {d : Dialect} {fragments : List Fragment}
    (h : Legible d fragments) (count : Nat) :
    d.countOn? count (ofFragments d fragments).sql = some (textFrom d count fragments) := by
  rw [Dialect.countOn?, tokens_ofFragments h, Option.map_some, Fragment.map_countOn_tokensFrom,
    Fragment.chars_tokensFrom, String.ofList_toList, Nat.zero_add]

/-- Where placeholders have no numbers, fragments are written alike behind any parameters. -/
theorem Statement.countOn?_ofFragments_mysql {fragments : List Fragment}
    (h : Legible .mysql fragments) (count : Nat) :
    Dialect.mysql.countOn? count (ofFragments .mysql fragments).sql =
      some (ofFragments .mysql fragments).sql := by
  refine Dialect.countOn?_eq_self (inStep_ofFragments h).placeholders ?_ count
  exact fun mark hmark => List.eq_of_mem_replicate hmark

end Criteria.Sql
