import Criteria.Json.Printer
import Criteria.Json.Source
import Mathlib.Data.List.Forall2

/-!
The tokens of a printed text. Every character of a string is escaped into one piece, and every value
has its own tokens, whatever comes behind it as long as no value goes on with that. So the tokens of
a text are those of the value that was printed. Of numbers, the integers of a machine word are shown
to be read as they are printed.
-/

namespace Criteria.Json

namespace Token

theorem listFrom_eq_drop (skip : Nat) (cs : List Char) :
    listFrom skip cs = listFrom 0 (cs.drop skip) := by
  induction cs generalizing skip with
  | nil => simp [listFrom]
  | cons c rest ih =>
      cases skip with
      | zero => rfl
      | succ skip => simpa [listFrom] using ih skip

/-- A token in front is followed by the tokens of what comes behind it. The hypothesis says how many
characters the token takes. -/
theorem listFrom_of_first? {c : Char} {cs rest : List Char} {token : Token}
    (hblank : isBlank c = false)
    (hfirst : first? (c :: (cs ++ rest)) = some (token, cs.length + 1)) :
    listFrom 0 (c :: (cs ++ rest)) = token :: listFrom 0 rest := by
  rw [listFrom, hblank, hfirst]
  simp only [Bool.false_eq_true, if_false, Nat.add_sub_cancel]
  rw [listFrom_eq_drop, List.drop_left]

/-- The three ways in which a character is written inside a string: with a letter that stands for
it, by its number, or as itself. -/
inductive Escaped (c : Char) : List Char → Piece → Prop
  | letter {letter : Char} (stands : unescape? letter = some c) (other : letter ≠ 'u') :
    Escaped c ['\\', letter] (.char c)
  | number {high low : Char} (stands : codeUnit? '0' '0' high low = some c.toNat)
    (control : c.toNat < 0x20) : Escaped c ['\\', 'u', '0', '0', high, low] (.unit c.toNat)
  | plain (notQuote : c ≠ '"') (notBackslash : c ≠ '\\') (printable : ¬ c.toNat < 0x20) :
    Escaped c [c] (.char c)

/-- Two digits are enough for the number of a control character. -/
theorem codeUnit?_control : ∀ n : Fin 0x20,
    codeUnit? '0' '0' (hexDigit (n / 16)) (hexDigit n) = some n := by
  decide

/-- Every character is written in one of the ways that are read back as that character: as itself,
behind a backslash, or by its number. -/
theorem exists_escaped (c : Char) : ∃ piece, Escaped c (escapeChar c).toList piece := by
  -- Seven characters have a letter that stands for them.
  by_cases hletter : c ∈ ['"', '\\', '\x08', '\t', '\n', '\x0c', '\r']
  · simp only [List.mem_cons, List.not_mem_nil, or_false] at hletter
    rcases hletter with rfl | rfl | rfl | rfl | rfl | rfl | rfl <;>
      exact ⟨_, .letter rfl (by decide)⟩
  · simp only [List.mem_cons, List.not_mem_nil, or_false, not_or] at hletter
    obtain ⟨hquote, hbackslash, hback, htab, hline, hform, hreturn⟩ := hletter
    rw [escapeChar, if_neg hquote, if_neg hbackslash, if_neg hback, if_neg htab, if_neg hline,
      if_neg hform, if_neg hreturn]
    split
    next control =>
      have hdigits := codeUnit?_control ⟨c.toNat, control⟩
      exact ⟨_, by simpa using Escaped.number hdigits control⟩
    next printable => exact ⟨_, by simpa using Escaped.plain hquote hbackslash printable⟩

namespace Escaped

variable {c : Char} {written : List Char} {piece : Piece} (h : Escaped c written piece)
include h

theorem stringPieces? (rest : List Char) :
    Token.stringPieces? (written ++ rest) = (do
      let (pieces, taken) ← Token.stringPieces? rest
      return (piece :: pieces, taken + written.length)) := by
  cases h with
  | letter stands other =>
      rw [List.cons_append, List.singleton_append, Token.stringPieces?, stands]
      · rfl
      · exact fun _ _ _ _ _ hu _ => other hu
  | @number high low stands control =>
      simp only [List.cons_append, List.nil_append]
      rw [Token.stringPieces?, stands]
      rfl
  | plain notQuote notBackslash printable =>
      have hnoControl : ¬ c < ' ' := fun hlt => printable (UInt32.lt_iff_toNat_lt.mp hlt)
      rw [List.singleton_append, Token.stringPieces?, if_neg hnoControl]
      · rfl
      · exact notQuote
      · exact fun _ _ _ _ _ hbackslash _ => notBackslash hbackslash
      · exact fun _ _ hbackslash _ => notBackslash hbackslash

theorem joinPieces? (pieces : List Piece) :
    Token.joinPieces? none (piece :: pieces) = (c :: ·) <$> Token.joinPieces? none pieces := by
  cases h with
  | letter | plain => rfl
  | number stands control =>
      have hhigh : isHighSurrogate c.toNat = false := by
        simp only [isHighSurrogate, Bool.and_eq_false_iff, decide_eq_false_iff_not]
        omega
      have hlow : isLowSurrogate c.toNat = false := by
        simp only [isLowSurrogate, Bool.and_eq_false_iff, decide_eq_false_iff_not]
        omega
      rw [Token.joinPieces?, hhigh, hlow, Char.ofNat_toNat]
      rfl

end Escaped

/-- The characters of a string inside its quotes. -/
def escaped (cs : List Char) : List Char :=
  cs.flatMap fun c => (escapeChar c).toList

theorem toList_quote (s : String) : (quote s).toList = '"' :: (escaped s.toList ++ ['"']) := by
  simp [quote, escaped, List.flatMap_map]

/-- The pieces of what is written inside quotes come to the characters again. An escaped character
is one piece, however long its escape. -/
theorem exists_pieces (cs rest : List Char) :
    ∃ pieces, stringPieces? (escaped cs ++ '"' :: rest) = some (pieces, (escaped cs).length + 1) ∧
      joinPieces? none pieces = some cs := by
  induction cs with
  | nil => exact ⟨[], rfl, rfl⟩
  | cons c cs ih =>
      obtain ⟨pieces, hpieces, hjoined⟩ := ih
      obtain ⟨piece, hpiece⟩ := exists_escaped c
      refine ⟨piece :: pieces, ?_, ?_⟩
      · rw [escaped, List.flatMap_cons, ← escaped, List.append_assoc, hpiece.stringPieces?, hpieces]
        simp only [Option.bind_eq_bind, Option.bind_some, List.length_append, pure,
          Option.some.injEq, Prod.mk.injEq, true_and]
        omega
      · rw [hpiece.joinPieces?, hjoined]
        rfl

/-- A quoted string is one token, which ends at its closing quote and not at one inside. -/
theorem listFrom_quote (s : String) (rest : List Char) :
    listFrom 0 ((quote s).toList ++ rest) = .str (some s) :: listFrom 0 rest := by
  obtain ⟨pieces, hpieces, hjoined⟩ := exists_pieces s.toList rest
  have hstring : string? (escaped s.toList ++ '"' :: rest) =
      some (.str (some s), (escaped s.toList).length + 1) := by
    rw [string?, hpieces]
    simp [hjoined]
  rw [toList_quote, List.cons_append]
  refine listFrom_of_first? rfl ?_
  rw [List.append_assoc, List.singleton_append, first?, hstring]
  simp

/-- True of what may come behind a value: nothing, or a character that no value goes on with. -/
def Delimited (rest : List Char) : Prop :=
  ∀ c ∈ rest.head?, c = ',' ∨ c = ']' ∨ c = '\x7d'

/-- True of characters that have the given tokens wherever a value may stand. -/
def Spells (cs : List Char) (tokens : List Token) : Prop :=
  ∀ rest, Delimited rest → listFrom 0 (cs ++ rest) = tokens ++ listFrom 0 rest

theorem takeWhile_digits {ds rest : List Char} (hds : ∀ c ∈ ds, c.isDigit) (h : Delimited rest) :
    (ds ++ rest).takeWhile Char.isDigit = ds := by
  rw [List.takeWhile_append_of_pos hds]
  cases rest with
  | nil => simp
  | cons c rest =>
      rcases h c rfl with rfl | rfl | rfl <;> simp

theorem ofDigits_toDigits (n : Nat) : Decimal.ofDigits (Nat.toDigits 10 n) = n := by
  have h : Nat.ofDigitChars 10 (Nat.toDigits 10 n) 0 = n := Nat.ofDigitChars_ten_toDigits
  rw [Nat.ofDigitChars_eq_foldl] at h
  exact h

theorem head?_toDigits {n : Nat} (h : 0 < n) : (Nat.toDigits 10 n).head? ≠ some '0' := by
  induction n using Nat.strongRecOn with
  | ind n ih =>
      rw [Nat.toDigits_eq_if (by decide)]
      split
      next small =>
        have hdigit : ∀ d : Fin 10, 0 < d.val → [Nat.digitChar d].head? ≠ some '0' := by decide
        exact hdigit ⟨n, small⟩ h
      next large =>
        rw [List.head?_append_of_ne_nil _ Nat.toDigits_ne_nil]
        exact ih (n / 10) (by omega) (by omega)

theorem isDigit_toDigits {n : Nat} {c : Char} (h : c ∈ Nat.toDigits 10 n) : c.isDigit :=
  Nat.isDigit_of_mem_toDigits (by decide) (by decide) h

theorem whole?_toDigits (n : Nat) {rest : List Char} (h : Delimited rest) :
    whole? (Nat.toDigits 10 n ++ rest) = some (Nat.toDigits 10 n) := by
  have hdigits : digits? (Nat.toDigits 10 n ++ rest) = some (Nat.toDigits 10 n) := by
    rw [digits?, takeWhile_digits (fun _ => isDigit_toDigits) h]
    split
    next hnil => exact absurd hnil Nat.toDigits_ne_nil
    next => rfl
  -- A number may be zero, but it must not start with one.
  have hzero : ¬ ((Nat.toDigits 10 n).head? = some '0' ∧ 1 < (Nat.toDigits 10 n).length) := by
    rintro ⟨hhead, hlength⟩
    rcases Nat.eq_zero_or_pos n with rfl | hpos
    · exact absurd hlength (by decide)
    · exact head?_toDigits hpos hhead
  rw [whole?, hdigits]
  simp [hzero]

theorem fractionPart?_of_delimited {rest : List Char} (h : Delimited rest) :
    fractionPart? rest = some (none, 0) := by
  cases rest with
  | nil => rfl
  | cons c rest => rcases h c rfl with rfl | rfl | rfl <;> rfl

theorem exponentPart?_of_delimited {rest : List Char} (h : Delimited rest) :
    exponentPart? rest = some (none, 0) := by
  cases rest with
  | nil => rfl
  | cons c rest => rcases h c rfl with rfl | rfl | rfl <;> rfl

/-- The characters of an integer. -/
def signed (negative : Bool) (n : Nat) : List Char :=
  (if negative then ['-'] else []) ++ Nat.toDigits 10 n

/-- The text of an integer is taken whole, and nothing behind it, where a value may end. -/
theorem numberText?_signed (negative : Bool) (n : Nat) {rest : List Char} (h : Delimited rest) :
    numberText? (signed negative n ++ rest) =
      some (⟨negative, Nat.toDigits 10 n, none, none⟩, (signed negative n).length) := by
  have hminus : (Nat.toDigits 10 n).head? ≠ some '-' := by
    intro hhead
    exact absurd (isDigit_toDigits (List.mem_of_mem_head? hhead)) (by decide)
  cases negative with
  | false =>
      simp [signed, numberText?, hminus, whole?_toDigits n h, fractionPart?_of_delimited h,
        exponentPart?_of_delimited h]
  | true =>
      simp [signed, numberText?, whole?_toDigits n h, fractionPart?_of_delimited h,
        exponentPart?_of_delimited h, Nat.add_comm]

/-- A digit or a minus starts a number. -/
theorem first?_of_number {c : Char} (cs : List Char) (h : c.isDigit ∨ c = '-') :
    first? (c :: cs) = number? (c :: cs) := by
  rw [first?]
  all_goals
    rintro _ heq
    cases heq
    revert h
    decide

theorem isBlank_of_number {c : Char} (h : c.isDigit ∨ c = '-') : isBlank c = false := by
  rw [isBlank, Bool.eq_false_iff]
  intro hblank
  simp only [Bool.or_eq_true, decide_eq_true_eq] at hblank
  rcases hblank with ((rfl | rfl) | rfl) | rfl <;> revert h <;> decide

theorem spells_signed {negative : Bool} {n : Nat} {value : Number}
    (h : NumberText.value? ⟨negative, Nat.toDigits 10 n, none, none⟩ = some value) :
    Spells (signed negative n) [.num (some value)] := by
  intro rest hrest
  have hnumber : number? (signed negative n ++ rest) =
      some (.num (some value), (signed negative n).length) := by
    rw [number?, numberText?_signed negative n hrest]
    simp [h]
  obtain ⟨c, cs, hcs, hstart⟩ : ∃ c cs, signed negative n = c :: cs ∧ (c.isDigit ∨ c = '-') := by
    cases negative with
    | true => exact ⟨'-', Nat.toDigits 10 n, rfl, .inr rfl⟩
    | false =>
        obtain ⟨c, cs, hcs⟩ := List.exists_cons_of_ne_nil (Nat.toDigits_ne_nil (n := n) (b := 10))
        have hmem : c ∈ Nat.toDigits 10 n := by
          rw [hcs]
          exact .head _
        exact ⟨c, cs, hcs, .inl (isDigit_toDigits hmem)⟩
  rw [hcs] at hnumber ⊢
  refine listFrom_of_first? (isBlank_of_number hstart) ?_
  rw [first?_of_number _ hstart]
  exact hnumber

theorem toList_text_int (n : Int) :
    (Number.int n).text.toList = signed (decide (n < 0)) n.natAbs := by
  cases n <;> simp [Number.text, signed, Int.toString_eq_repr, Int.repr]

/-- The integers of a machine word, with or without a sign, are read as they are written. Larger
ones would be read as doubles. -/
theorem spells_int {n : Int} (low : -(UInt64.size / 2 : Nat) ≤ n) (high : n < UInt64.size) :
    Spells (Number.int n).text.toList [.num (some (.int n))] := by
  rw [toList_text_int]
  refine spells_signed ?_
  simp only [NumberText.value?, ofDigits_toDigits, Option.isNone_none, and_self, if_true,
    decide_eq_true_eq]
  by_cases negative : n < 0
  · have hfits : n.natAbs ≠ 0 ∧ n.natAbs ≤ UInt64.size / 2 := by omega
    have hvalue : -(n.natAbs : Int) = n := by omega
    rw [if_pos negative, if_pos hfits, hvalue]
  · have hfits : n.natAbs < UInt64.size := by omega
    have hvalue : (n.natAbs : Int) = n := by omega
    rw [if_neg negative, if_pos hfits, hvalue]

end Token

mutual

/-- The tokens of a written value. -/
def tokens : Json → List Token
  | .null => [.null]
  | .bool b => [.bool b]
  | .num n => [.num (some n)]
  | .str s => [.str (some s)]
  | .arr items => .openBracket :: ([Token.comma].intercalate (itemTokens items) ++ [.closeBracket])
  | .obj entries => .openBrace :: ([Token.comma].intercalate (entryTokens entries) ++ [.closeBrace])

def itemTokens : List Json → List (List Token)
  | [] => []
  | item :: rest => item.tokens :: itemTokens rest

def entryTokens : List (String × Json) → List (List Token)
  | [] => []
  | (key, value) :: rest => (.str (some key) :: .colon :: value.tokens) :: entryTokens rest

end

/-- True of the values whose containers nest no deeper than some levels, and whose numbers are read
as they are written. -/
inductive Fits : Nat → Json → Prop
  | null {levels : Nat} : Fits levels .null
  | bool {levels : Nat} (b : Bool) : Fits levels (.bool b)
  | str {levels : Nat} (s : String) : Fits levels (.str s)
  | num {levels : Nat} {n : Number} (spells : Token.Spells n.text.toList [.num (some n)]) :
    Fits levels (.num n)
  | arr {levels : Nat} {items : List Json} (inside : ∀ item ∈ items, Fits levels item) :
    Fits (levels + 1) (.arr items)
  | obj {levels : Nat} {entries : List (String × Json)}
    (inside : ∀ entry ∈ entries, Fits levels entry.2) : Fits (levels + 1) (.obj entries)

theorem Fits.mono {value : Json} {levels more : Nat} (h : Fits levels value)
    (hmore : levels ≤ more) : Fits more value := by
  induction h generalizing more with
  | null => exact .null
  | bool b => exact .bool b
  | str s => exact .str s
  | num spells => exact .num spells
  | arr inside ih =>
      obtain ⟨more, rfl⟩ := Nat.exists_eq_add_one_of_ne_zero (Nat.ne_zero_of_lt hmore)
      exact .arr fun item hmem => ih item hmem (Nat.le_of_succ_le_succ hmore)
  | obj inside ih =>
      obtain ⟨more, rfl⟩ := Nat.exists_eq_add_one_of_ne_zero (Nat.ne_zero_of_lt hmore)
      exact .obj fun entry hmem => ih entry hmem (Nat.le_of_succ_le_succ hmore)

theorem fits_ofWord {levels : Nat} (n : UInt64) : Fits levels (ofWord n) := by
  have hlow : -(UInt64.size / 2 : Nat) ≤ (n.toNat : Int) := by omega
  have hhigh : (n.toNat : Int) < UInt64.size := Int.ofNat_lt.mpr n.toNat_lt_size
  exact .num (Token.spells_int hlow hhigh)

/-- An entry that is left out where there is nothing to write fits, if what would be written
does. -/
theorem fits_entry {α : Type} {levels : Nat} {key : String} {write : α → Json} {x? : Option α}
    (h : ∀ x ∈ x?.toList, Fits levels (write x)) :
    ∀ entry ∈ (x?.map fun x => (key, write x)).toList, Fits levels entry.2 := by
  cases x? with
  | none => nofun
  | some x => exact List.forall_mem_singleton.mpr (h x (.head _))

theorem itemTexts_eq_map (items : List Json) : itemTexts items = items.map text := by
  induction items with
  | nil => rfl
  | cons item rest ih => rw [itemTexts, ih, List.map_cons]

theorem entryTexts_eq_map (entries : List (String × Json)) :
    entryTexts entries = entries.map fun entry => quote entry.1 ++ ":" ++ entry.2.text := by
  induction entries with
  | nil => rfl
  | cons entry rest ih => rw [entryTexts, ih, List.map_cons]

theorem itemTokens_eq_map (items : List Json) : itemTokens items = items.map tokens := by
  induction items with
  | nil => rfl
  | cons item rest ih => rw [itemTokens, ih, List.map_cons]

theorem entryTokens_eq_map (entries : List (String × Json)) :
    entryTokens entries =
      entries.map fun entry => .str (some entry.1) :: .colon :: entry.2.tokens := by
  induction entries with
  | nil => rfl
  | cons entry rest ih => rw [entryTokens, ih, List.map_cons]

namespace Token

theorem Spells.intercalate {css : List (List Char)} {tokenss : List (List Token)}
    (h : List.Forall₂ Spells css tokenss) :
    Spells ([','].intercalate css) ([.comma].intercalate tokenss) := by
  induction h with
  | nil => exact fun _ _ => rfl
  | @cons cs tokens css tokenss hfirst hrest ih =>
      cases hrest with
      | nil => simpa using hfirst
      | @cons =>
          intro rest hrest
          rw [List.intercalate_cons_cons, List.intercalate_cons_cons, List.append_assoc,
            List.append_assoc, List.append_assoc, List.append_assoc]
          rw [hfirst _ (by simp [Delimited])]
          exact congrArg (tokens ++ .comma :: ·) (ih rest hrest)

/-- A value between two brackets. -/
theorem Spells.enclosed {cs : List Char} {tokens : List Token} (h : Spells cs tokens)
    {opening closing : Char} {start finish : Token}
    (hstart : ∀ rest, listFrom 0 (opening :: rest) = start :: listFrom 0 rest)
    (hfinish : ∀ rest, listFrom 0 (closing :: rest) = finish :: listFrom 0 rest)
    (hclosing : closing = ']' ∨ closing = '\x7d') :
    Spells (opening :: (cs ++ [closing])) (start :: (tokens ++ [finish])) := by
  intro rest _
  have hdelimited : Delimited (closing :: rest) := by
    rintro _ ⟨⟩
    exact .inr hclosing
  rw [List.cons_append, hstart, List.append_assoc, List.singleton_append, h _ hdelimited, hfinish]
  simp

theorem Spells.entry {value : Json} (h : Spells value.text.toList value.tokens) (key : String) :
    Spells (quote key ++ ":" ++ value.text).toList (.str (some key) :: .colon :: value.tokens) := by
  intro rest hrest
  have htext : (quote key ++ ":" ++ value.text).toList ++ rest =
      (quote key).toList ++ (':' :: (value.text.toList ++ rest)) := by
    simp
  rw [htext, listFrom_quote]
  exact congrArg (.str (some key) :: .colon :: ·) (h rest hrest)

/-- A text has the tokens of the value that it was written from. The induction is on the value; its
parts are joined by the tokens that were written between them. -/
theorem spells_text {levels : Nat} {value : Json} (h : Fits levels value) :
    Spells value.text.toList value.tokens := by
  induction h with
  | null => exact fun _ _ => rfl
  | bool b => cases b <;> exact fun _ _ => rfl
  | str s => exact fun rest _ => listFrom_quote s rest
  | num spells => exact spells
  | @arr levels items inside ih =>
      have htext : (Json.arr items).text.toList =
          '[' :: ([','].intercalate ((itemTexts items).map String.toList) ++ [']']) := by
        simp [text, String.toList_intercalate]
      have hitems : List.Forall₂ Spells ((itemTexts items).map String.toList)
          (itemTokens items) := by
        rw [itemTexts_eq_map, itemTokens_eq_map, List.map_map, List.forall₂_map_left_iff,
          List.forall₂_map_right_iff, List.forall₂_same]
        exact ih
      rw [htext]
      exact (Spells.intercalate hitems).enclosed (fun _ => rfl) (fun _ => rfl) (.inl rfl)
  | @obj levels entries inside ih =>
      have htext : (Json.obj entries).text.toList =
          '\x7b' :: ([','].intercalate ((entryTexts entries).map String.toList) ++ ['\x7d']) := by
        simp [text, String.toList_intercalate]
      have hentries : List.Forall₂ Spells ((entryTexts entries).map String.toList)
          (entryTokens entries) := by
        rw [entryTexts_eq_map, entryTokens_eq_map, List.map_map, List.forall₂_map_left_iff,
          List.forall₂_map_right_iff, List.forall₂_same]
        exact fun entry hmem => (ih entry hmem).entry entry.1
      rw [htext]
      exact (Spells.intercalate hentries).enclosed (fun _ => rfl) (fun _ => rfl) (.inr rfl)

theorem ofText_text {levels : Nat} {value : Json} (h : Fits levels value) :
    ofText value.text = value.tokens := by
  have hspells := spells_text h [] (by simp [Delimited])
  simpa [ofText, listFrom] using hspells

end Token

end Criteria.Json
