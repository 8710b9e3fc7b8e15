import Criteria.Proofs.Sql.Legibility
import Criteria.Proofs.Sql.Names

/-!
Quoted names in a rendered text. Read from left to right, with a doubled quote inside a name for one
quote character, a text ends outside of its names, and the names are those of the tree, each as it
was. Whatever they hold, nothing of it gets outside: with other names the rest of the text is the
same.
-/

namespace Criteria.Sql

open Fragment (Clear Joins textFrom)

/-- A text taken apart into its quoted names and the characters outside of them; none if the last
name is not closed. -/
def takeApart (quote : Char) (text : List Char) : Option (List (String ⊕ Char)) :=
  match text with
  | [] => some []
  | c :: rest =>
    if c = quote then
      match _read : readName quote rest with
      | none => none
      | some (name, behind) => (takeApart quote behind).map (.inl (String.ofList name) :: ·)
    else (takeApart quote rest).map (.inr c :: ·)
termination_by text.length
decreasing_by
  · have := readName_length _read
    simp only [List.length_cons]
    omega
  · simp

/-- The text ends outside of its quoted names. These are the given ones, and around them stand the
given characters. -/
def Dialect.Reads (d : Dialect) (text : String) (names : List String) (outside : String) : Prop :=
  ∃ parts, takeApart d.quoteChar text.toList = some parts ∧
    parts.filterMap Sum.getLeft? = names ∧ parts.filterMap Sum.getRight? = outside.toList

/-- A text without the dialect's quote character. -/
def Dialect.Unquoted (d : Dialect) (s : String) : Prop :=
  d.quoteChar ∉ s.toList

instance (d : Dialect) : DecidablePred d.Unquoted := fun s =>
  inferInstanceAs (Decidable (d.quoteChar ∉ s.toList))

/-- Text that is read as itself has no quote in it, which is all that matters for the names in a
text. -/
theorem Dialect.QuietText.unquoted {d : Dialect} {s : String} (h : d.QuietText s) :
    d.Unquoted s :=
  fun hquote => (h d.quoteChar hquote).1 rfl

theorem Dialect.unquoted_placeholder (d : Dialect) (bound : Nat) :
    d.Unquoted (d.placeholder bound) := by
  cases d with
  | mysql => simp [Unquoted, placeholder, quoteChar]
  | postgres =>
      intro hquote
      have hmem : '"' ∈ Nat.toDigits 10 (bound + 1) := by
        simpa [placeholder, quoteChar, Nat.toString_eq_ofList_toDigits] using hquote
      exact absurd (Nat.isDigit_of_mem_toDigits (by decide) (by decide) hmem) (by decide)

section Steps

variable (d : Dialect)

theorem takeApart_unquoted {cs : List Char} (h : d.quoteChar ∉ cs) (rest : List Char) :
    takeApart d.quoteChar (cs ++ rest) = (takeApart d.quoteChar rest).map (cs.map .inr ++ ·) := by
  induction cs with
  | nil => simp
  | cons c cs ih =>
      have hc : c ≠ d.quoteChar := fun heq => h (heq ▸ List.mem_cons_self)
      have hcs : d.quoteChar ∉ cs := fun hmem => h (List.mem_cons_of_mem c hmem)
      rw [List.cons_append, takeApart, if_neg hc, ih hcs]
      cases takeApart d.quoteChar rest <;> rfl

/-- A quoted name is taken off as that name, whatever characters it has, as long as no further quote
follows. -/
theorem takeApart_quoteName (name : String) {rest : List Char}
    (h : ∀ c ∈ rest.head?, c ≠ d.quoteChar) :
    takeApart d.quoteChar ((d.quoteName name).toList ++ rest) =
      (takeApart d.quoteChar rest).map (.inl name :: ·) := by
  have hread : readName d.quoteChar
      (Dialect.doubleQuotes d.quoteChar name.toList ++ d.quoteChar :: rest) =
        some (name.toList, rest) :=
    readName_doubleQuotes name.toList h
  rw [Dialect.quoteName, String.toList_ofList, List.append_assoc, List.cons_append,
    List.singleton_append, takeApart]
  simp only [↓reduceIte]
  split
  · simp_all
  · simp_all

end Steps

namespace Fragment

/-- What fragments are taken apart into, the first parameter coming after `bound` others. -/
def partsFrom (d : Dialect) : Nat → List Fragment → List (String ⊕ Char)
  | _, [] => []
  | bound, .text s :: rest => s.toList.map .inr ++ partsFrom d bound rest
  | bound, .name s :: rest => .inl s :: partsFrom d bound rest
  | bound, .bind _ :: rest => (d.placeholder bound).toList.map .inr ++ partsFrom d (bound + 1) rest

/-- The text of fragments with nothing in the place of their names. -/
def outsideFrom (d : Dialect) : Nat → List Fragment → String
  | _, [] => ""
  | bound, .text s :: rest => s ++ outsideFrom d bound rest
  | bound, .name _ :: rest => outsideFrom d bound rest
  | bound, .bind _ :: rest => d.placeholder bound ++ outsideFrom d (bound + 1) rest

variable {d : Dialect}

theorem partsFrom_append (bound : Nat) (first second : List Fragment) :
    partsFrom d bound (first ++ second) =
      partsFrom d bound first ++ partsFrom d (bound + (binds first).length) second := by
  induction first generalizing bound with
  | nil => rfl
  | cons fragment rest ih =>
      cases fragment with
      | text s => simp [partsFrom, ih]
      | name s => simp [partsFrom, ih]
      | bind value => simp [partsFrom, ih]; grind

/-- The quoted parts of a text are the names in its fragments, in order. -/
theorem names_partsFrom (bound : Nat) (fragments : List Fragment) :
    (partsFrom d bound fragments).filterMap Sum.getLeft? = names fragments := by
  have hchars (s : String) :
      (s.toList.map (Sum.inr (α := String))).filterMap Sum.getLeft? = [] := by
    simp [List.filterMap_eq_nil_iff]
  induction fragments generalizing bound with
  | nil => rfl
  | cons fragment rest ih => cases fragment <;> simp [partsFrom, ih, hchars]

/-- The characters outside the quoted parts are those of the texts and placeholders between them. -/
theorem outside_partsFrom (bound : Nat) (fragments : List Fragment) :
    (partsFrom d bound fragments).filterMap Sum.getRight? =
      (outsideFrom d bound fragments).toList := by
  have hchars (s : String) :
      (s.toList.map (Sum.inr (α := String))).filterMap Sum.getRight? = s.toList := by
    simp [List.filterMap_map, Function.comp_def]
  induction fragments generalizing bound with
  | nil => rfl
  | cons fragment rest ih =>
      cases fragment <;> simp [partsFrom, outsideFrom, List.filterMap_cons, ih, hchars]

/-- Renaming changes nothing outside: placeholders are numbered by values, and names do not
count. -/
theorem outsideFrom_map_rename (f : String → String) (bound : Nat) (fragments : List Fragment) :
    outsideFrom d bound (fragments.map (rename f)) = outsideFrom d bound fragments := by
  induction fragments generalizing bound with
  | nil => rfl
  | cons fragment rest ih => cases fragment <;> simp [outsideFrom, ih]

/-- Whatever their names are, the text of the fragments is taken apart into what they are made of,
and nothing of what follows them is drawn in. -/
def Severed (d : Dialect) (fragments : List Fragment) : Prop :=
  ∀ (f : String → String) (bound : Nat) (rest : List Char), (∀ c ∈ rest.head?, c ≠ d.quoteChar) →
    takeApart d.quoteChar ((textFrom d bound (fragments.map (rename f))).toList ++ rest) =
      (takeApart d.quoteChar rest).map (partsFrom d bound (fragments.map (rename f)) ++ ·)

theorem Severed.text {s : String} (hs : d.Unquoted s) {behind : List Fragment}
    (h : Severed d behind) : Severed d (.text s :: behind) := by
  intro f bound rest hrest
  have hbehind := h f bound rest hrest
  rw [List.map_cons, rename_text, textFrom_text, String.toList_append, List.append_assoc,
    takeApart_unquoted d hs, hbehind]
  cases takeApart d.quoteChar rest <;> simp [partsFrom]

theorem joins_severed (d : Dialect) : Joins d (Severed d) where
  nil f bound rest hrest := by simp [partsFrom]
  name s f bound rest hrest := by
    have hname := takeApart_quoteName d (f s) hrest
    simpa [partsFrom] using hname
  bind value f bound rest hrest := by
    have hmark := takeApart_unquoted d (d.unquoted_placeholder bound) rest
    simpa [partsFrom] using hmark
  join {front behind s} hfront hs hbehind f bound rest hrest := by
    -- The fixed text in between begins with what is no quote, so it ends a name in front of it.
    have htail := Severed.text hs.1.unquoted hbehind f
      (bound + (binds (front.map (rename f))).length) rest hrest
    obtain ⟨c, hhead, hc⟩ := hs.2
    obtain ⟨cs, hcs⟩ := List.head?_eq_some_iff.mp hhead
    have hstop : ∀ c ∈ ((textFrom d (bound + (binds (front.map (rename f))).length)
        ((Fragment.text s :: behind).map (rename f))).toList ++ rest).head?, c ≠ d.quoteChar := by
      simpa [hcs] using hc.1
    have hwhole := hfront f bound _ hstop
    rw [List.map_append, textFrom_append, String.toList_append, List.append_assoc, hwhole, htail,
      partsFrom_append]
    cases takeApart d.quoteChar rest <;> simp

end Fragment

/-- Severed fragments are taken apart as they were put together, before a renaming and after it
alike. -/
theorem Statement.reads_ofFragments {d : Dialect} {fragments : List Fragment}
    (h : Fragment.Severed d fragments) (f : String → String) :
    d.Reads (Statement.ofFragments d (fragments.map (Fragment.rename f))).sql
      ((Fragment.names fragments).map f) (Fragment.outsideFrom d 0 fragments) := by
  have hend : ∀ c ∈ ([] : List Char).head?, c ≠ d.quoteChar := by simp
  have hread := h f 0 [] hend
  refine ⟨Fragment.partsFrom d 0 (fragments.map (Fragment.rename f)), ?_, ?_, ?_⟩
  · simpa [ofFragments_eq, takeApart] using hread
  · rw [Fragment.names_partsFrom, Fragment.names_map_rename]
  · rw [Fragment.outside_partsFrom, Fragment.outsideFrom_map_rename]

/-- A rendered text ends outside of its names, and they are the names of the tree, in order. With
other names in the tree the text has these instead, and the same characters outside. -/
theorem names_render :
    (∀ (d : Dialect) (expr : Expr), expr.Everywhere (Expr.Calls d.Unquoted) →
      ∃ outside, d.Reads (expr.render d).sql expr.names outside ∧
        ∀ f, d.Reads ((expr.rename f).render d).sql (expr.names.map f) outside) ∧
    (∀ (d : Dialect) (select : Select),
      (∀ e ∈ select.exprs, e.Everywhere (Expr.Calls d.Unquoted)) →
      ∃ outside, d.Reads (select.render d).sql select.names outside ∧
        ∀ f, d.Reads ((select.rename f).render d).sql (select.names.map f) outside) := by
  have hcall {d : Dialect} {name : String} {behind : List Fragment} (hname : d.Unquoted name)
      (hbehind : Fragment.Severed d behind) :
      Fragment.Severed d (.text name :: .text "(" :: behind) := by
    have hopen : d.Unquoted "(" := by cases d <;> decide
    exact .text hname (.text hopen hbehind)
  have hsevered {d : Dialect} {expr : Expr} (h : expr.Everywhere (Expr.Calls d.Unquoted)) :
      Fragment.Severed d (expr.fragments d) :=
    (Fragment.joins_severed d).fragments hcall h
  constructor
  · intro d expr hcalls
    have hreads := Statement.reads_ofFragments (hsevered hcalls)
    rw [expr.names_fragments] at hreads
    refine ⟨Fragment.outsideFrom d 0 (expr.fragments d), ?_, fun f => ?_⟩
    · simpa [expr.render_eq, Fragment.map_rename_id] using hreads id
    · rw [Expr.render_eq, expr.fragments_rename d f]
      exact hreads f
  · intro d select hcalls
    have hrows := (Fragment.joins_severed d).fragmentsOfSelect fun e he => hsevered (hcalls e he)
    have hreads := Statement.reads_ofFragments hrows
    rw [names_fragmentsOfSelect fun e _ => e.names_fragments d] at hreads
    refine ⟨Fragment.outsideFrom d 0 (fragmentsOfSelect d select), ?_, fun f => ?_⟩
    · simpa [select.render_eq, Fragment.map_rename_id] using hreads id
    · rw [Clauses.render_eq, fragmentsOfSelect_rename fun e _ => e.fragments_rename d f]
      exact hreads f

/-- A statement with quotes at the ends of its names and between them, and a name of none. -/
def quotedSelect : Select where
  columns := [.column (some "\"") "\".\""]
  table := some "`"
  filter := some (.compare (.column none "") .eq (.call "f$1?" [.column (some "a`") "``"]))
  order := [⟨.column none "\"\"", .desc⟩]

/-- Neither a name that ends in a quote nor the name of no characters is mistaken, in a statement by
itself and in one that a column is tested against. -/
theorem names_render_quotedSelect :
    let names := ["b\"", "\"", "\".\"", "`", "", "a`", "``", "\"\""]
    (∀ d : Dialect, (∀ e ∈ quotedSelect.exprs, e.Everywhere (Expr.Calls d.Unquoted)) ∧
      ∃ outside, d.Reads (quotedSelect.render d).sql names.tail outside ∧
        ∀ f, d.Reads ((quotedSelect.rename f).render d).sql (names.tail.map f) outside) ∧
    ∀ d : Dialect,
      (Expr.inSelect (.column none "b\"") quotedSelect).Everywhere (Expr.Calls d.Unquoted) ∧
      ∃ outside,
        d.Reads ((Expr.inSelect (.column none "b\"") quotedSelect).render d).sql names outside ∧
        ∀ f, d.Reads (((Expr.inSelect (.column none "b\"") quotedSelect).rename f).render d).sql
          (names.map f) outside := by
  intro names
  have hcolumn (d : Dialect) (qualifier : Option String) (name : String) :
      (Expr.column qualifier name).Everywhere (Expr.Calls d.Unquoted) := .intro trivial nofun
  have hcall (d : Dialect) :
      (Expr.call "f$1?" [.column (some "a`") "``"]).Everywhere (Expr.Calls d.Unquoted) := by
    have hname : d.Unquoted "f$1?" := by cases d <;> decide
    exact .intro hname (by simp [Expr.children, hcolumn])
  have hfilter (d : Dialect) :
      (Expr.compare (.column none "") .eq (.call "f$1?" [.column (some "a`") "``"])).Everywhere
        (Expr.Calls d.Unquoted) :=
    .intro trivial (by simp [Expr.children, hcolumn, hcall])
  have hselect (d : Dialect) :
      ∀ e ∈ quotedSelect.exprs, e.Everywhere (Expr.Calls d.Unquoted) := by
    simp [quotedSelect, Clauses.exprs, hcolumn, hfilter]
  have hexpr (d : Dialect) :
      (Expr.inSelect (.column none "b\"") quotedSelect).Everywhere (Expr.Calls d.Unquoted) :=
    .intro trivial (List.forall_mem_cons.mpr ⟨hcolumn d none "b\"", hselect d⟩)
  constructor
  · intro d
    exact ⟨hselect d, names_render.2 d quotedSelect (hselect d)⟩
  · intro d
    exact ⟨hexpr d, names_render.1 d _ (hexpr d)⟩

end Criteria.Sql
