import Mathlib.Data.List.Infix
import Criteria.Proofs.Sql.Lexing
import Criteria.Proofs.Sql.Names

/-!
Where a text can contain a word. A word without quotes and without characters of placeholders lies
inside one of the quoted names, or outside of all names and placeholders.
-/

namespace Criteria.Sql

open Fragment (textFrom)

/-- A list that does not contain an element lies on one side of it. With the element a quote or a
placeholder, a word cannot begin in front of it and end behind it. -/
theorem infix_beside {α : Type} {word back : List α} {fence : α} (hfence : fence ∉ word)
    (front : List α) (h : word <:+: front ++ fence :: back) :
    word <:+: front ∨ word <:+: back := by
  have hnil {list : List α} (hlist : list <+: fence :: back) (hword : fence ∉ list) :
      list = [] := by
    rcases List.prefix_cons_iff.mp hlist with hempty | ⟨rest, rfl, -⟩
    · exact hempty
    · exact absurd List.mem_cons_self hword
  rcases List.infix_append_iff.mp h with hfront | hback | ⟨first, second, rfl, hfirst, hsecond⟩
  · exact .inl hfront
  · rcases List.infix_cons_iff.mp hback with hprefix | hback
    · rw [hnil hprefix hfence]
      exact .inl List.nil_infix
    · exact .inr hback
  · rw [hnil hsecond fun hmem => hfence (List.mem_append_right first hmem), List.append_nil]
    exact .inl hfirst.isInfix

theorem infix_behind {α : Type} {word fences back : List α} (hfences : ∀ c ∈ fences, c ∉ word)
    (h : word <:+: fences ++ back) : word <:+: back := by
  induction fences with
  | nil => exact h
  | cons fence rest ih =>
      obtain ⟨hfence, hrest⟩ := List.forall_mem_cons.mp hfences
      rcases infix_beside hfence [] h with hnothing | hbehind
      · rw [List.infix_nil.mp hnothing]
        exact List.nil_infix
      · exact ih hrest hbehind

/-- Where quotes are doubled there is none of a word without quotes, so such a word is found in a
quoted name exactly where the name itself has it. -/
theorem infix_of_doubleQuotes {quote : Char} {word : List Char} (hquote : quote ∉ word)
    (name front : List Char) (h : word <:+: front ++ Dialect.doubleQuotes quote name) :
    word <:+: front ++ name := by
  induction name generalizing front with
  | nil => exact h
  | cons c rest ih =>
      rw [Dialect.doubleQuotes] at h
      split at h
      next =>
        rcases infix_beside hquote front h with hfront | hback
        · exact hfront.trans (List.prefix_append front _).isInfix
        · have hfences : ∀ c ∈ [quote], c ∉ word := by simpa using hquote
          have hrest := ih [] (infix_behind hfences hback)
          exact hrest.trans ((List.suffix_cons c rest).trans (List.suffix_append front _)).isInfix
      next =>
        have hrest := ih (front ++ [c]) (by simpa using h)
        simpa using hrest

/-- True of a word without quotes and without the characters of placeholders. -/
def Dialect.Verbal (d : Dialect) (word : List Char) : Prop :=
  ∀ c ∈ word, d.Quiet c ∧ c.isDigit = false

instance (d : Dialect) : DecidablePred d.Verbal := fun word =>
  List.decidableBAll (fun c => d.Quiet c ∧ c.isDigit = false) word

theorem Dialect.Verbal.quoteChar_notMem {d : Dialect} {word : List Char} (h : d.Verbal word) :
    d.quoteChar ∉ word :=
  fun hmem => (h _ hmem).1.1 rfl

theorem Dialect.Verbal.placeholder_notMem {d : Dialect} {word : List Char} (h : d.Verbal word)
    (bound : Nat) : ∀ c ∈ (d.placeholder bound).toList, c ∉ word := by
  intro c hc hmem
  obtain ⟨⟨-, hquestion, hdollar⟩, hdigit⟩ := h c hmem
  cases d with
  | mysql => simp_all [placeholder]
  | postgres =>
      have hdigits : c ∈ Nat.toDigits 10 (bound + 1) := by
        simpa [placeholder, hdollar, Nat.toString_eq_ofList_toDigits] using hc
      simp [Nat.isDigit_of_mem_toDigits (by decide) (by decide) hdigits] at hdigit

theorem Dialect.placeholder_eq_cons (d : Dialect) (bound : Nat) :
    ∃ c rest, (d.placeholder bound).toList = c :: rest := by
  cases d <;> simp [placeholder]

/-- Fragments contain a word inside of one of their names, or outside of all names and
placeholders. Characters that are read as themselves may stand in front. -/
theorem Fragment.infix_textFrom {d : Dialect} {word : List Char} (hword : d.Verbal word)
    (fragments : List Fragment) (bound : Nat) (front : List Char)
    (h : word <:+: front ++ (textFrom d bound fragments).toList) :
    (∃ name ∈ names fragments, word <:+: name.toList) ∨
      word.map .char <:+: front.map .char ++ tokensFrom d bound fragments := by
  have hfront {front : List Char} (h : word <:+: front) (tokens : List Token) :
      word.map .char <:+: front.map .char ++ tokens :=
    (h.map Token.char).trans (List.prefix_append _ tokens).isInfix
  have hbehind {tokens : List Token} (h : word.map .char <:+: tokens) (front : List Token)
      (token : Token) : word.map .char <:+: front ++ token :: tokens :=
    h.trans ((List.suffix_cons token tokens).trans (List.suffix_append front _)).isInfix
  induction fragments generalizing bound front with
  | nil => exact .inr (by simpa [tokensFrom] using h.map Token.char)
  | cons fragment rest ih =>
      cases fragment with
      | text s =>
          rw [textFrom_text, String.toList_append, ← List.append_assoc] at h
          simpa [tokensFrom] using ih bound _ h
      | name s =>
          rw [textFrom_name, String.toList_append, Dialect.quoteName, String.toList_ofList,
            List.cons_append, List.cons_append, List.append_assoc, List.singleton_append] at h
          rcases infix_beside hword.quoteChar_notMem front h with h | h
          · exact .inr (hfront h _)
          rcases infix_beside hword.quoteChar_notMem _ h with h | h
          · have hname := infix_of_doubleQuotes hword.quoteChar_notMem s.toList [] h
            exact .inl ⟨s, by simp, hname⟩
          rcases ih bound [] h with ⟨name, hmem, hname⟩ | htokens
          · exact .inl ⟨name, by simp [hmem], hname⟩
          · exact .inr (hbehind htokens _ _)
      | bind value =>
          obtain ⟨c, mark, hmark⟩ := d.placeholder_eq_cons bound
          have hfences := hword.placeholder_notMem bound
          rw [hmark] at hfences
          obtain ⟨hc, hrest⟩ := List.forall_mem_cons.mp hfences
          rw [textFrom_bind, String.toList_append, hmark, List.cons_append] at h
          rcases infix_beside hc front h with h | h
          · exact .inr (hfront h _)
          have h := infix_behind hrest h
          rcases ih (bound + 1) [] h with ⟨name, hmem, hname⟩ | htokens
          · exact .inl ⟨name, by simp [hmem], hname⟩
          · exact .inr (hbehind htokens _ _)

end Criteria.Sql
