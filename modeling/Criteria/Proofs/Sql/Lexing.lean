import Criteria.Proofs.Sql.Writing

/-!
SQL text read back from left to right. Quoted names are read as a whole, with doubled quotes undone,
so nothing inside them counts as a placeholder; outside them a placeholder is a question mark, or a
dollar sign with the digits behind it, in either dialect. Fragments whose fixed texts keep clear of
these characters are read back one by one.
-/

namespace Criteria.Sql

open Fragment (textFrom)

/-- A quoted name without its quotes, a placeholder, or a single character of anything else. -/
inductive Token where
  | name (s : String)
  | mark (s : String)
  | char (c : Char)
deriving DecidableEq, Repr

/-- Reads a name behind its opening quote, up to the first quote that is not doubled. The text
behind that quote comes beside. -/
def readName (quote : Char) : List Char → Option (List Char × List Char)
  | [] => none
  | c :: rest =>
    if c ≠ quote then (readName quote rest).map fun (name, behind) => (c :: name, behind)
    else match rest with
      | [] => some ([], [])
      | next :: behind =>
        if next = quote then
          (readName quote behind).map fun (name, behind) => (quote :: name, behind)
        else some ([], next :: behind)

/-- Reading a name takes at least its closing quote, which is why reading a text comes to an end. -/
theorem readName_length {quote : Char} {text name behind : List Char}
    (h : readName quote text = some (name, behind)) : behind.length < text.length := by
  fun_induction readName quote text generalizing name with
  | case1 => cases h
  | case2 c rest hc ih =>
      obtain ⟨⟨name, behind'⟩, hread, heq⟩ := Option.map_eq_some_iff.mp h
      cases heq
      exact Nat.lt_succ_of_lt (ih hread)
  | case3 c hc => cases h; simp
  | case4 c hc behind' ih =>
      obtain ⟨⟨name, behind''⟩, hread, heq⟩ := Option.map_eq_some_iff.mp h
      cases heq
      have := ih hread
      simp only [List.length_cons]
      omega
  | case5 c hc next behind' hnext => cases h; simp

theorem readName_cons_of_ne {quote c : Char} (h : c ≠ quote) (rest : List Char) :
    readName quote (c :: rest) =
      (readName quote rest).map fun (name, behind) => (c :: name, behind) := by
  rw [readName.eq_def]
  simp [h]

/-- The tokens of a text; none if its last name is not closed. -/
def lex (quote : Char) (text : List Char) : Option (List Token) :=
  match text with
  | [] => some []
  | c :: rest =>
    if c = quote then
      match _read : readName quote rest with
      | none => none
      | some (name, behind) => (lex quote behind).map (.name (String.ofList name) :: ·)
    else if c = '?' then (lex quote rest).map (.mark "?" :: ·)
    else if c = '$' then
      (lex quote (rest.dropWhile Char.isDigit)).map
        (.mark (String.ofList ('$' :: rest.takeWhile Char.isDigit)) :: ·)
    else (lex quote rest).map (.char c :: ·)
termination_by text.length
decreasing_by
  · have := readName_length _read
    simp only [List.length_cons]
    omega
  · simp
  · have := (List.dropWhile_sublist Char.isDigit (l := rest)).length_le
    simp only [List.length_cons]
    omega
  · simp

def Dialect.tokens (d : Dialect) (text : String) : Option (List Token) :=
  lex d.quoteChar text.toList

/-- A character that is read as itself. -/
def Dialect.Quiet (d : Dialect) (c : Char) : Prop :=
  c ≠ d.quoteChar ∧ c ≠ '?' ∧ c ≠ '$'

/-- A character that ends the name or the placeholder in front of it. -/
def Dialect.Ends (d : Dialect) (c : Char) : Prop :=
  c ≠ d.quoteChar ∧ c.isDigit = false

instance (d : Dialect) : DecidablePred d.Quiet := fun _ => inferInstanceAs (Decidable (_ ∧ _))

instance (d : Dialect) : DecidablePred d.Ends := fun _ => inferInstanceAs (Decidable (_ ∧ _))

/-- A text that is read as itself. -/
def Dialect.QuietText (d : Dialect) (s : String) : Prop :=
  ∀ c ∈ s.toList, d.Quiet c

/-- A text that ends the name or the placeholder in front of it. -/
def Dialect.EndsText (d : Dialect) (s : String) : Prop :=
  ∃ c ∈ s.toList.head?, d.Ends c

-- Decided over the text: there are finitely many characters, and a search might go over them all.
instance (d : Dialect) : DecidablePred d.QuietText := fun s =>
  List.decidableBAll d.Quiet s.toList

instance (d : Dialect) : DecidablePred d.EndsText := fun s =>
  Option.decidableExistsMem s.toList.head?

section Steps

variable (d : Dialect)

/-- Characters that open nothing are read as themselves, one token for each. -/
theorem lex_quiet {cs : List Char} (h : ∀ c ∈ cs, d.Quiet c) (rest : List Char) :
    lex d.quoteChar (cs ++ rest) = (lex d.quoteChar rest).map (cs.map .char ++ ·) := by
  induction cs with
  | nil => simp
  | cons c cs ih =>
      obtain ⟨hquote, hquestion, hdollar⟩ := h c (by simp)
      have htail := ih fun c hc => h c (by simp [hc])
      rw [List.cons_append, lex.eq_def]
      simp [hquote, hquestion, hdollar, htail]
      rfl

/-- A name is read back from its doubled quotes. The closing quote is the first that is not followed
by another, so what comes behind must not start with one. -/
theorem readName_doubleQuotes {quote : Char} (name : List Char) {rest : List Char}
    (h : ∀ c ∈ rest.head?, c ≠ quote) :
    readName quote (Dialect.doubleQuotes quote name ++ quote :: rest) = some (name, rest) := by
  induction name with
  | nil =>
      cases rest with
      | nil => simp [Dialect.doubleQuotes, readName]
      | cons c rest =>
          have hc : c ≠ quote := h c (by simp)
          simp [Dialect.doubleQuotes, readName, hc]
  | cons c name ih =>
      by_cases hc : c = quote
      · simp [Dialect.doubleQuotes, readName, hc, ih]
      · simp [Dialect.doubleQuotes, readName_cons_of_ne hc, hc, ih]

/-- A quoted name is one token and is read back as it was, whatever characters it has, quotes and
placeholders among them. -/
theorem lex_quoteName (name : String) {rest : List Char} (h : ∀ c ∈ rest.head?, d.Ends c) :
    lex d.quoteChar ((d.quoteName name).toList ++ rest) =
      (lex d.quoteChar rest).map (.name name :: ·) := by
  have hread : readName d.quoteChar
      (Dialect.doubleQuotes d.quoteChar name.toList ++ d.quoteChar :: rest) =
        some (name.toList, rest) :=
    readName_doubleQuotes name.toList fun c hc => (h c hc).1
  rw [Dialect.quoteName, String.toList_ofList, List.append_assoc, List.cons_append,
    List.singleton_append, lex.eq_def]
  simp only [↓reduceIte]
  split
  · simp_all
  · simp_all

/-- A dollar with its digits is one placeholder, provided that no digit follows them. -/
theorem lex_dollar {digits rest : List Char} (hdigits : ∀ c ∈ digits, c.isDigit)
    (h : ∀ c ∈ rest.head?, d.Ends c) :
    lex d.quoteChar ('$' :: digits ++ rest) =
      (lex d.quoteChar rest).map (.mark (String.ofList ('$' :: digits)) :: ·) := by
  have hquote : '$' ≠ d.quoteChar := by cases d <;> decide
  have htake : (digits ++ rest).takeWhile Char.isDigit = digits := by
    rw [List.takeWhile_append_of_pos hdigits]
    cases rest with
    | nil => simp
    | cons c rest => simp [(h c (by simp)).2]
  have hdrop : (digits ++ rest).dropWhile Char.isDigit = rest := by
    rw [List.dropWhile_append_of_pos hdigits]
    cases rest with
    | nil => simp
    | cons c rest => simp [(h c (by simp)).2]
  rw [List.cons_append, lex.eq_def]
  simp [hquote, htake, hdrop]

/-- The placeholder of either dialect is read back as one token. In PostgreSQL it bears its number,
in MySQL it is a question mark. -/
theorem lex_placeholder (bound : Nat) {rest : List Char} (h : ∀ c ∈ rest.head?, d.Ends c) :
    lex d.quoteChar ((d.placeholder bound).toList ++ rest) =
      (lex d.quoteChar rest).map (.mark (d.placeholder bound) :: ·) := by
  cases d with
  | mysql =>
      have hquote : '?' ≠ Dialect.mysql.quoteChar := by decide
      have htext : (Dialect.mysql.placeholder bound).toList = ['?'] := by
        simp [Dialect.placeholder]
      rw [htext, List.singleton_append, lex.eq_def]
      simp [hquote, Dialect.placeholder]
  | postgres =>
      have hdigits : ∀ c ∈ (toString (bound + 1)).toList, c.isDigit := by
        intro c hc
        rw [Nat.toString_eq_ofList_toDigits, String.toList_ofList] at hc
        exact Nat.isDigit_of_mem_toDigits (by decide) (by decide) hc
      have htext : (Dialect.postgres.placeholder bound).toList =
          '$' :: (toString (bound + 1)).toList := by
        simp [Dialect.placeholder]
      have hmark : String.ofList ('$' :: (toString (bound + 1)).toList) =
          Dialect.postgres.placeholder bound := by
        rw [← htext, String.ofList_toList]
      rw [htext, lex_dollar .postgres hdigits h, hmark]

end Steps

/-- The tokens of fragments, the first parameter coming after `bound` others. -/
def Fragment.tokensFrom (d : Dialect) : Nat → List Fragment → List Token
  | _, [] => []
  | bound, .text s :: rest => s.toList.map .char ++ tokensFrom d bound rest
  | bound, .name s :: rest => .name s :: tokensFrom d bound rest
  | bound, .bind _ :: rest => .mark (d.placeholder bound) :: tokensFrom d (bound + 1) rest

/-- The tokens of two lists of fragments are those of the first, and those of the second with the
placeholders counted on. -/
theorem Fragment.tokensFrom_append (d : Dialect) (bound : Nat) (first second : List Fragment) :
    tokensFrom d bound (first ++ second) =
      tokensFrom d bound first ++ tokensFrom d (bound + (binds first).length) second := by
  induction first generalizing bound with
  | nil => rfl
  | cons fragment rest ih =>
      cases fragment with
      | text s => simp [tokensFrom, ih]
      | name s => simp [tokensFrom, ih]
      | bind value => simp [tokensFrom, ih, Nat.add_assoc, Nat.add_comm 1]

/-- Fragments that end the name or the placeholder in front of them: there are none, or the first
is a text that begins accordingly. -/
def Fragment.End (d : Dialect) : List Fragment → Prop
  | [] => True
  | .text s :: _ => d.EndsText s
  | _ => False

/-- Fragments that can be told apart in the text: fixed texts are read as themselves, and behind
each name and each placeholder stands what ends it. -/
def Fragment.Legible (d : Dialect) : List Fragment → Prop
  | [] => True
  | .text s :: rest => d.QuietText s ∧ Legible d rest
  | _ :: rest => End d rest ∧ Legible d rest

namespace Fragment

variable {d : Dialect}

/-- Only what stands in front decides whether fragments end a name: an empty first list leaves it to
the second. -/
theorem End.append {first second : List Fragment} (hfirst : End d first)
    (hsecond : End d second) : End d (first ++ second) := by
  cases first with
  | nil => exact hsecond
  | cons fragment rest => cases fragment <;> exact hfirst

/-- Two legible lists make one when the second may stand behind a name or a placeholder. -/
theorem Legible.append {first second : List Fragment} (hfirst : Legible d first)
    (hsecond : Legible d second) (hend : End d second) : Legible d (first ++ second) := by
  induction first with
  | nil => exact hsecond
  | cons fragment rest ih =>
      cases fragment with
      | text s => exact ⟨hfirst.1, ih hfirst.2⟩
      | name s => exact ⟨hfirst.1.append hend, ih hfirst.2⟩
      | bind value => exact ⟨hfirst.1.append hend, ih hfirst.2⟩

/-- A fixed text that is read as itself and ends what stands in front of it. -/
abbrev Clear (d : Dialect) (s : String) : Prop :=
  d.QuietText s ∧ d.EndsText s

/-- What stands behind a name or a placeholder ends it, be it a fragment or the text that follows
all fragments. -/
theorem End.head_ends {fragments : List Fragment} (h : End d fragments) (bound : Nat)
    {rest : List Char} (hrest : ∀ c ∈ rest.head?, d.Ends c) :
    ∀ c ∈ ((textFrom d bound fragments).toList ++ rest).head?, d.Ends c := by
  cases fragments with
  | nil => simpa using hrest
  | cons fragment others =>
      cases fragment with
      | text s =>
          obtain ⟨c, hhead, hc⟩ := h
          obtain ⟨cs, hs⟩ := List.head?_eq_some_iff.mp hhead
          simpa [hs] using hc
      | name s => cases h
      | bind value => cases h

/-- Legible fragments are read back one by one, whatever follows them. It is by induction on the
list, each fragment being ended by the one behind it. -/
theorem lex_textFrom {fragments : List Fragment} (h : Legible d fragments) (bound : Nat)
    {rest : List Char} (hrest : ∀ c ∈ rest.head?, d.Ends c) :
    lex d.quoteChar ((textFrom d bound fragments).toList ++ rest) =
      (lex d.quoteChar rest).map (tokensFrom d bound fragments ++ ·) := by
  induction fragments generalizing bound with
  | nil => simp [tokensFrom]
  | cons fragment others ih =>
      cases fragment with
      | text s =>
          have hothers := ih h.2 bound
          rw [textFrom_text, String.toList_append, List.append_assoc, lex_quiet d h.1, hothers]
          simp [tokensFrom]
          rfl
      | name s =>
          have hothers := ih h.2 bound
          rw [textFrom_name, String.toList_append, List.append_assoc,
            lex_quoteName d s (h.1.head_ends bound hrest), hothers]
          simp [tokensFrom]
          rfl
      | bind value =>
          have hothers := ih h.2 (bound + 1)
          rw [textFrom_bind, String.toList_append, List.append_assoc,
            lex_placeholder d bound (h.1.head_ends (bound + 1) hrest), hothers]
          simp [tokensFrom]
          rfl

/-- The whole text of legible fragments is read back, with no character left over. -/
theorem tokens_textFrom {fragments : List Fragment} (h : Legible d fragments) (bound : Nat) :
    d.tokens (textFrom d bound fragments) = some (tokensFrom d bound fragments) := by
  have hend : ∀ c ∈ ([] : List Char).head?, d.Ends c := by simp
  have hlex := lex_textFrom h bound hend
  simpa [Dialect.tokens, lex] using hlex

end Fragment

theorem Statement.tokens_ofFragments {d : Dialect} {fragments : List Fragment}
    (h : Fragment.Legible d fragments) :
    d.tokens (Statement.ofFragments d fragments).sql =
      some (Fragment.tokensFrom d 0 fragments) := by
  rw [ofFragments_eq]
  exact Fragment.tokens_textFrom h 0

end Criteria.Sql
