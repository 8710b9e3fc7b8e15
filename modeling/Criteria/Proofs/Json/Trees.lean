import Criteria.Json.Reader
import Criteria.Proofs.Json.Tokens

/-!
The tree of a printed text. The tokens of a value put it into the container at hand, so a text is
read as the value that was printed. Readers of texts then need to be known on values only.
-/

namespace Criteria.Json

namespace Source

/-- True where a value may start. -/
def Expected.Starts (next : Expected) : Prop :=
  next = .value ∨ next = .firstItem

/-- Where a value may start, every token but a closing bracket is taken as the start of one. -/
theorem step_of_starts {next : Expected} (hnext : next.Starts) (frames : List Frame)
    {token : Token} (htoken : token ≠ .closeBracket) :
    step (.reading frames next) token = stepValue frames token := by
  rcases hnext with rfl | rfl
  · rfl
  · cases frames <;> cases token <;> first | rfl | exact absurd rfl htoken

/-- True of a value whose tokens put it into the container at hand, inside up to `limit` ones. -/
def ReadBy (limit : Nat) (value : Json) : Prop :=
  ∀ (frames : List Frame) (next : Expected), next.Starts → frames.length ≤ limit →
    value.tokens.foldl step (.reading frames next) = complete (ofJson value) frames

/-- Elements are read one after the other. The first may stand where the array could end; the others
come behind commas. -/
theorem foldl_items {limit : Nat} {frames : List Frame} (hlimit : frames.length < limit)
    {items : List Json} (hitems : ∀ item ∈ items, ReadBy limit item) (hne : items ≠ [])
    (read : List Source) {next : Expected} (hnext : next.Starts) :
    ([Token.comma].intercalate (items.map tokens)).foldl step
        (.reading (.arr read :: frames) next) =
      .reading (.arr ((ofItems items).reverse ++ read) :: frames) .separator := by
  induction items generalizing read next with
  | nil => exact absurd rfl hne
  | cons item rest ih =>
      obtain ⟨hitem, hrest⟩ := List.forall_mem_cons.mp hitems
      have hfirst := hitem (.arr read :: frames) next hnext hlimit
      cases rest with
      | nil =>
          rw [List.map_singleton, List.intercalate_singleton]
          exact hfirst
      | cons second rest =>
          rw [List.map_cons, List.map_cons, List.intercalate_cons_cons, List.foldl_append,
            List.foldl_append, hfirst]
          have hcomma := ih hrest (by simp) (ofJson item :: read) (.inl rfl)
          rw [List.map_cons] at hcomma
          simp only [ofItems, List.reverse_cons, List.append_assoc,
            List.singleton_append] at hcomma ⊢
          exact hcomma

theorem foldl_entries {limit : Nat} {frames : List Frame} (hlimit : frames.length < limit)
    {entries : List (String × Json)} (hentries : ∀ entry ∈ entries, ReadBy limit entry.2)
    (hne : entries ≠ []) (read : List (Option String × Source)) (key : Option String)
    {next : Expected} (hnext : next = .firstKey ∨ next = .key) :
    ∃ last, ([Token.comma].intercalate (entryTokens entries)).foldl step
        (.reading (.obj read key :: frames) next) =
      .reading (.obj ((ofEntries entries).reverse ++ read) last :: frames) .separator := by
  induction entries generalizing read key next with
  | nil => exact absurd rfl hne
  | cons entry rest ih =>
      obtain ⟨hentry, hrest⟩ := List.forall_mem_cons.mp hentries
      have hfirst : (Token.str (some entry.1) :: .colon :: entry.2.tokens).foldl step
          (.reading (.obj read key :: frames) next) =
            complete (ofJson entry.2) (.obj read (some entry.1) :: frames) := by
        rw [← hentry (.obj read (some entry.1) :: frames) .value (.inl rfl) hlimit]
        rcases hnext with rfl | rfl <;> rfl
      cases rest with
      | nil =>
          refine ⟨some entry.1, ?_⟩
          rw [entryTokens, entryTokens, List.intercalate_singleton]
          exact hfirst
      | cons second rest =>
          obtain ⟨last, hlast⟩ := ih hrest (by simp) ((some entry.1, ofJson entry.2) :: read)
            (some entry.1) (.inr rfl)
          refine ⟨last, ?_⟩
          rw [entryTokens, entryTokens, List.intercalate_cons_cons, List.foldl_append,
            List.foldl_append, hfirst]
          rw [entryTokens] at hlast
          simp only [ofEntries, List.reverse_cons, List.append_assoc,
            List.singleton_append] at hlast ⊢
          exact hlast

/-- A value that fits is read from its tokens, wherever it stands with enough levels left for it. -/
theorem readBy_of_fits {levels : Nat} {value : Json} (h : Fits levels value) {limit : Nat}
    (hlimit : limit + levels ≤ nestingLimit) : ReadBy limit value := by
  -- A container takes one of the levels and is one more around its elements.
  induction h generalizing limit with
  | null | bool | str | num => exact fun frames next hnext _ => step_of_starts hnext frames nofun
  | @arr levels items inside ih =>
      rintro frames next hnext hframes
      have hopen : step (.reading frames next) .openBracket =
          .reading (.arr [] :: frames) .firstItem := step_of_starts hnext frames nofun
      have hclose : (Frame.arr (ofItems items).reverse).toSource true frames.length =
          ofJson (.arr items) := by
        have hdeep : ¬ nestingLimit ≤ frames.length := by omega
        simp [Frame.toSource, ofJson, hdeep]
      rw [tokens, List.foldl_cons, hopen, List.foldl_append, itemTokens_eq_map]
      cases items with
      | nil => exact congrArg (complete · frames) hclose
      | cons item rest =>
          have hitems := foldl_items (Nat.lt_succ_of_le hframes)
            (fun item hmem => ih item hmem (by omega)) (List.cons_ne_nil item rest) [] (.inr rfl)
          rw [hitems, List.append_nil]
          exact congrArg (complete · frames) hclose
  | @obj levels entries inside ih =>
      rintro frames next hnext hframes
      have hopen : step (.reading frames next) .openBrace =
          .reading (.obj [] none :: frames) .firstKey := step_of_starts hnext frames nofun
      have hclose (last : Option String) :
          (Frame.obj (ofEntries entries).reverse last).toSource true frames.length =
            ofJson (.obj entries) := by
        have hdeep : ¬ nestingLimit ≤ frames.length := by omega
        simp [Frame.toSource, ofJson, hdeep]
      rw [tokens, List.foldl_cons, hopen, List.foldl_append]
      cases entries with
      | nil => exact congrArg (complete · frames) (hclose none)
      | cons entry rest =>
          obtain ⟨last, hlast⟩ := foldl_entries (Nat.lt_succ_of_le hframes)
            (fun entry hmem => ih entry hmem (by omega)) (List.cons_ne_nil entry rest) [] none
            (.inl rfl)
          rw [hlast, List.append_nil]
          exact congrArg (complete · frames) (hclose last)

/-- A value that fits is what its text is read as. A value that is nested more deeply would not be
read at all. -/
theorem ofText_text {value : Json} (h : Fits nestingLimit value) :
    ofText value.text = (ofJson value, true) := by
  have hread := readBy_of_fits h (Nat.le_of_eq (Nat.zero_add _)) [] .value (.inl rfl)
    (Nat.le_refl 0)
  rw [ofText, Token.ofText_text h, hread]
  rfl

end Source

/-- True of the texts of a value: they are read as it, without a fault. -/
def Written (text : String) (value : Json) : Prop :=
  Source.ofText text = (Source.ofJson value, true)

theorem written_text {value : Json} (h : Fits Source.nestingLimit value) :
    Written value.text value :=
  Source.ofText_text h

/-- From a text of a value, a reader gets what it gets from the value, so round trips need to be
shown for values only. -/
theorem readText_of_written {α : Type} {read : Reader α} {text : String} {value : Json} {x : α}
    (htext : Written text value) (hread : read (Source.ofJson value) = .ok x) :
    readText read text = .ok x := by
  rw [readText, htext]
  simp [hread]

/-- What is read from a text is read from its tree. -/
theorem read_of_readText {α : Type} {read : Reader α} {text : String} {x : α}
    (h : readText read text = .ok x) : read (Source.ofText text).1 = .ok x := by
  simp only [readText] at h
  cases hread : read (Source.ofText text).1 with
  | error e =>
      rw [hread] at h
      cases e <;> cases h
  | ok value =>
      rw [hread] at h
      by_cases clean : (Source.ofText text).2
      · simpa only [clean, if_true] using h
      · simp only [clean] at h
        cases h

end Criteria.Json
