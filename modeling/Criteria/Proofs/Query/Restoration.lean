import Criteria.Proofs.Json.Keys
import Criteria.Proofs.Json.Records
import Criteria.Proofs.Json.Trees
import Criteria.Query

/-!
Queries that are written and read again. The reader takes `null` for an absent part, and so do the
compilers for a document that is `null`. So a query comes back up to such documents, and exactly if
it was read before, and compiles to the same.
-/

namespace Criteria.Query

open Json (Reader Source Fits KeysDistinct Written)

/-- The document of a query, which is absent if it is `null`. -/
def given? : Option Json → Option Json
  | some .null => none
  | document? => document?

/-- The query without documents that are `null`. -/
def withoutNulls (query : Query) : Query :=
  { query with filter := given? query.filter, order := given? query.order }

/-- True of queries none of whose documents is `null`. -/
structure Given (query : Query) : Prop where
  filter : query.filter ≠ some .null
  order : query.order ≠ some .null

theorem given?_cases (document? : Option Json) :
    document? = some .null ∧ given? document? = none ∨ given? document? = document? := by
  match document? with
  | none => exact .inr rfl
  | some .null => exact .inl ⟨rfl, rfl⟩
  | some (.bool _) | some (.num _) | some (.str _) | some (.arr _) | some (.obj _) =>
      exact .inr rfl

theorem given?_of_ne {document? : Option Json} (h : document? ≠ some .null) :
    given? document? = document? :=
  (given?_cases document?).resolve_left fun hnull => h hnull.1

theorem Given.withoutNulls_eq {query : Query} (h : query.Given) : query.withoutNulls = query := by
  rw [withoutNulls, given?_of_ne h.filter, given?_of_ne h.order]

section Compilation

variable {ε σ : Type} (b : Backend ε σ) (r : Resolver ε)

theorem filter_compile_given? (document? : Option Json) :
    Filter.compile b r (given? document?) = Filter.compile b r document? := by
  rcases given?_cases document? with ⟨rfl, -⟩ | hgiven
  · rfl
  · rw [hgiven]

theorem order_compile_given? (document? : Option Json) :
    Order.compile b r (given? document?) = Order.compile b r document? := by
  rcases given?_cases document? with ⟨rfl, -⟩ | hgiven
  · rfl
  · rw [hgiven]

/-- To the compilers a document that is `null` is an absent one, so nothing is lost by what the text
cannot tell apart. -/
theorem compile_withoutNulls (query : Query) :
    query.withoutNulls.compile b r = query.compile b r := by
  have hfilter : Filter.compile b r query.withoutNulls.filter = Filter.compile b r query.filter :=
    filter_compile_given? b r query.filter
  have horder : Order.compile b r query.withoutNulls.order = Order.compile b r query.order :=
    order_compile_given? b r query.order
  rw [compile, hfilter, horder]
  rfl

end Compilation

theorem read_document (document : Json) :
    Source.optional Source.content (Source.ofJson document) = .ok (given? (some document)) := by
  rcases eq_or_ne document .null with rfl | hne
  · rfl
  · have hgiven : given? (some document) = some document :=
      given?_of_ne fun hnull => hne (Option.some.inj hnull)
    rw [hgiven, Source.optional_ofJson hne (Source.content_ofJson document)]

theorem read_word (n : UInt64) :
    Source.optional Source.word (Source.ofJson (Json.ofWord n)) = .ok (some n) := by
  have hrange : (0 : Int) ≤ n.toNat ∧ (n.toNat : Int) < UInt64.size :=
    ⟨Int.natCast_nonneg _, Int.ofNat_lt.mpr n.toNat_lt_size⟩
  have hword : Source.word (Source.ofJson (Json.ofWord n)) = .ok n := by
    rw [Json.ofWord, Source.ofJson, Source.word, if_pos hrange, Int.toNat_natCast,
      UInt64.ofNat_toNat]
  exact Source.optional_ofJson nofun hword

theorem read_names (names : List String) :
    Source.optional (Source.list Source.string) (Source.ofJson (.arr (names.map .str))) =
      .ok (some names) :=
  Source.optional_ofJson nofun (Source.list_ofJson fun _ _ => rfl)

/-- What the parts of a query are read as that are there. -/
def givenParts (query : Query) : List Part :=
  List.flatten [
    (query.filter.map fun document => Part.filter (given? (some document))).toList,
    (query.order.map fun document => Part.order (given? (some document))).toList,
    (query.limit.map fun rows => Part.limit (some rows)).toList,
    (query.offset.map fun rows => Part.offset (some rows)).toList,
    (query.columns.map fun names => Part.columns (some names)).toList]

theorem read_toJson (query : Query) :
    read (Source.ofJson query.toJson) = .ok query.withoutNulls := by
  have hrecord : Source.record partReaders (Source.ofJson query.toJson) = .ok query.givenParts := by
    refine Source.Fields.Writes.record_eq ?writes (by decide)
    refine .optional _ _ ?filter _ <| .optional _ _ ?order _ <| .optional _ _ ?limit _ <|
      .optional _ _ ?offset _ <| .optional _ _ ?columns _ .nil
    case filter | order =>
      intro document
      rw [read_document]
      rfl
    case limit | offset =>
      intro rows
      rw [read_word]
      rfl
    case columns =>
      intro names
      rw [read_names]
      rfl
  have hset : query.givenParts.foldl set {} = query.withoutNulls := by
    obtain ⟨filter, order, limit, offset, columns⟩ := query
    cases filter <;> cases order <;> cases limit <;> cases offset <;> cases columns <;> rfl
  rw [read, hrecord]
  exact congrArg Except.ok hset

theorem ofJson_toJson (query : Query) : ofJson query.toJson = .ok query.withoutNulls := by
  rw [ofJson, Json.readValue, read_toJson]
  rfl

/-- From a text of a query its parts are read, without the documents that are `null` and with
repeated keys merged. -/
theorem ofText_of_written {query : Query} {text : String} (h : Written text query.toJson) :
    ofText text = .ok query.withoutNulls.mergeKeys := by
  rw [ofText, Json.readText_of_written h query.read_toJson]
  rfl

/-- True of the parts that are not a document which is `null`. -/
def Part.Given : Part → Prop
  | .filter document? | .order document? => document? ≠ some .null
  | .limit _ | .offset _ | .columns _ => True

/-- A document that is read is not `null`, since `null` is read as an absent one. -/
theorem given_of_optional {source : Source} {document? : Option Json}
    (h : Source.optional Source.content source = .ok document?) : document? ≠ some .null := by
  rintro rfl
  cases source with
  | null => cases h
  | _ =>
      obtain ⟨content, hcontent, heq⟩ := bind_eq_ok.mp h
      cases heq
      exact nomatch Source.eq_null_of_content hcontent

theorem Part.given_of_read {field : String × Reader Part} (hmem : field ∈ partReaders)
    {source : Source} {part : Part} (h : field.2 source = .ok part) : part.Given := by
  simp only [partReaders, List.mem_cons, List.not_mem_nil, or_false] at hmem
  rcases hmem with rfl | rfl | rfl | rfl | rfl
  all_goals
    obtain ⟨value, hvalue, heq⟩ := map_eq_ok.mp h
    cases heq
  case inl | inr.inl => exact given_of_optional hvalue
  all_goals trivial

theorem Given.set {query : Query} (h : query.Given) {part : Part} (hpart : part.Given) :
    (query.set part).Given := by
  cases part with
  | filter => exact ⟨hpart, h.order⟩
  | order => exact ⟨h.filter, hpart⟩
  | limit | offset | columns => exact ⟨h.filter, h.order⟩

theorem given_foldl_set {query : Query} (h : query.Given) {parts : List Part}
    (hparts : ∀ part ∈ parts, part.Given) : (parts.foldl set query).Given := by
  induction parts generalizing query with
  | nil => exact h
  | cons part rest ih =>
      obtain ⟨hpart, hrest⟩ := List.forall_mem_cons.mp hparts
      exact ih (h.set hpart) hrest

/-- A query that is read has no document that is `null`, whichever of its parts were there and in
whatever order they stood. -/
theorem given_of_read {source : Source} {query : Query} (h : read source = .ok query) :
    query.Given := by
  obtain ⟨parts, hparts, heq⟩ := bind_eq_ok.mp h
  cases heq
  have hempty : ({} : Query).Given := ⟨(Option.some_ne_none _).symm, (Option.some_ne_none _).symm⟩
  exact given_foldl_set hempty
    (Source.forall_of_record (fun _ hmem _ _ => Part.given_of_read hmem) hparts)

/-- The documents that a query has. -/
def documents (query : Query) : List Json :=
  query.filter.toList ++ query.order.toList

/-- True of queries in whose documents no object repeats a key. -/
def KeysDistinct (query : Query) : Prop :=
  ∀ document ∈ query.documents, document.KeysDistinct

theorem map_mergeKeys_eq {document? : Option Json}
    (h : ∀ document ∈ document?.toList, document.KeysDistinct) :
    document?.map Json.mergeKeys = document? := by
  cases document? with
  | none => rfl
  | some document => exact congrArg some (h document (.head _)).mergeKeys_eq

theorem KeysDistinct.mergeKeys_eq {query : Query} (h : query.KeysDistinct) :
    query.mergeKeys = query := by
  obtain ⟨hfilter, horder⟩ := List.forall_mem_append.mp h
  rw [mergeKeys, map_mergeKeys_eq hfilter, map_mergeKeys_eq horder]

theorem keysDistinct_mergeKeys (query : Query) : query.mergeKeys.KeysDistinct := by
  have hmerged (document? : Option Json) :
      ∀ document ∈ (document?.map Json.mergeKeys).toList, document.KeysDistinct := by
    cases document? with
    | none => nofun
    | some document => exact List.forall_mem_singleton.mpr (Json.keysDistinct_mergeKeys document)
  exact List.forall_mem_append.mpr ⟨hmerged query.filter, hmerged query.order⟩

theorem map_mergeKeys_ne_null {document? : Option Json} (h : document? ≠ some .null) :
    document?.map Json.mergeKeys ≠ some .null := by
  intro hnull
  obtain ⟨document, rfl, hmerged⟩ := Option.map_eq_some_iff.mp hnull
  exact h (congrArg some (Json.eq_null_of_mergeKeys hmerged))

theorem Given.mergeKeys {query : Query} (h : query.Given) : query.mergeKeys.Given :=
  ⟨map_mergeKeys_ne_null h.filter, map_mergeKeys_ne_null h.order⟩

theorem mem_given? {document? : Option Json} {document : Json}
    (h : document ∈ (given? document?).toList) : document ∈ document?.toList := by
  rcases given?_cases document? with ⟨-, hnone⟩ | hgiven
  · rw [hnone] at h
    cases h
  · rwa [hgiven] at h

theorem KeysDistinct.withoutNulls {query : Query} (h : query.KeysDistinct) :
    query.withoutNulls.KeysDistinct := by
  obtain ⟨hfilter, horder⟩ := List.forall_mem_append.mp h
  exact List.forall_mem_append.mpr ⟨fun document hmem => hfilter document (mem_given? hmem),
    fun document hmem => horder document (mem_given? hmem)⟩

/-- From a text of a query that was read the same query is read: what was read has neither a
document that is `null` nor a key that is repeated. -/
theorem ofText_of_read {text written : String} {query : Query} (h : ofText text = .ok query)
    (hwritten : Written written query.toJson) : ofText written = .ok query := by
  obtain ⟨found, hfound, rfl⟩ := map_eq_ok.mp h
  have hgiven : found.Given := given_of_read (Json.read_of_readText hfound)
  rw [ofText_of_written hwritten, hgiven.mergeKeys.withoutNulls_eq,
    (keysDistinct_mergeKeys found).mergeKeys_eq]

theorem ofJson_of_read {value : Json} {query : Query} (h : ofJson value = .ok query) :
    ofJson query.toJson = .ok query := by
  have hgiven : query.Given := given_of_read (mapError_eq_ok.mp h)
  rw [ofJson_toJson, hgiven.withoutNulls_eq]

theorem fits_toJson {query : Query} {levels : Nat}
    (h : ∀ document ∈ query.documents, Fits (levels + 1) document) :
    Fits (levels + 2) query.toJson := by
  obtain ⟨hfilter, horder⟩ := List.forall_mem_append.mp h
  have hcolumns (names : List String) : Fits (levels + 1) (.arr (names.map .str)) :=
    .arr (List.forall_mem_map.mpr fun name _ => .str name)
  refine .obj (List.forall_mem_append.mpr ⟨Json.fits_entry hfilter, ?_⟩)
  refine List.forall_mem_append.mpr ⟨Json.fits_entry horder, ?_⟩
  refine List.forall_mem_append.mpr ⟨Json.fits_entry fun rows _ => Json.fits_ofWord rows, ?_⟩
  refine List.forall_mem_append.mpr ⟨Json.fits_entry fun rows _ => Json.fits_ofWord rows, ?_⟩
  exact List.forall_mem_append.mpr ⟨Json.fits_entry fun names _ => hcolumns names, nofun⟩

/-- From a text of a query, if it repeats no key in its documents, the query is read without the
documents that are `null`. -/
theorem ofText_of_keysDistinct {query : Query} (hkeys : query.KeysDistinct) {text : String}
    (h : Written text query.toJson) : ofText text = .ok query.withoutNulls := by
  rw [ofText_of_written h, hkeys.withoutNulls.mergeKeys_eq]

/-- A query comes back from what is written of it up to documents that are `null`, which become
absent, and that makes no difference to compilation: with every backend and resolver the query that
is read compiles to the same, or fails with the same error. So it is for the value that is written,
and for every text of it, such as the one that is printed if its documents are not nested too deep
and their numbers are read as they are printed. A query that was read before comes back as it was,
and is printed as the same text again. -/
theorem restored_up_to_null :
    (∀ query : Query, ofJson query.toJson = .ok query.withoutNulls ∧
      (query.KeysDistinct → ∀ text, Written text query.toJson →
        ofText text = .ok query.withoutNulls) ∧
      ((∀ document ∈ query.documents, Fits (Source.nestingLimit - 1) document) →
        Written query.toJson.text query.toJson) ∧
      ∀ (ε σ : Type) (b : Backend ε σ) (r : Resolver ε),
        query.withoutNulls.compile b r = query.compile b r) ∧
    (∀ (value : Json) (query : Query), ofJson value = .ok query →
      ∃ reread, ofJson query.toJson = .ok reread ∧ reread = query ∧
        reread.toJson.text = query.toJson.text) ∧
    ∀ (text : String) (query : Query), ofText text = .ok query →
      ∀ written, Written written query.toJson → ∃ reread, ofText written = .ok reread ∧
        reread = query ∧ reread.toJson.text = query.toJson.text := by
  refine ⟨fun query => ⟨query.ofJson_toJson, fun hkeys text hwritten =>
    ofText_of_keysDistinct hkeys hwritten, fun hfits => Json.written_text (fits_toJson hfits),
    fun ε σ b r => query.compile_withoutNulls b r⟩, fun value query hvalue => ?value,
    fun text query htext written hwritten => ?text⟩
  case value => exact ⟨query, ofJson_of_read hvalue, rfl, rfl⟩
  case text => exact ⟨query, ofText_of_read htext hwritten, rfl, rfl⟩

/-- A page without rows, at the last offset there is, behind a filter that is `null`. -/
def lastPage : Query where
  filter := some .null
  order := some (.arr [.obj [("created", .str "DESC")]])
  limit := some 0
  offset := some 0xffffffffffffffff
  columns := some ["id", "title", "id"]

/-- The first text loses the filter, which is `null`, and a second one loses nothing more. -/
theorem restored_up_to_null_lastPage :
    ofText lastPage.toJson.text = .ok lastPage.withoutNulls ∧
    ofText lastPage.withoutNulls.toJson.text = .ok lastPage.withoutNulls ∧
    ofJson lastPage.withoutNulls.toJson = .ok lastPage.withoutNulls := by
  obtain ⟨hwritten, hvalue, htext⟩ := restored_up_to_null
  have hkeys : ∀ document ∈ lastPage.documents, document.KeysDistinct := by
    refine List.forall_mem_cons.mpr ⟨.null, List.forall_mem_singleton.mpr (.arr ?_)⟩
    exact List.forall_mem_singleton.mpr (.obj (by decide) (List.forall_mem_singleton.mpr (.str _)))
  have horder : Fits 126 (.arr [.obj [("created", .str "DESC")]]) :=
    .arr (List.forall_mem_singleton.mpr (.obj (List.forall_mem_singleton.mpr (.str _))))
  obtain ⟨hread, hkept, hprinted, -⟩ := hwritten lastPage
  have hfirst := hkept hkeys _
    (hprinted (List.forall_mem_cons.mpr ⟨.null, List.forall_mem_singleton.mpr horder⟩))
  obtain ⟨-, -, hprinted, -⟩ := hwritten lastPage.withoutNulls
  obtain ⟨second, hsecond, rfl, -⟩ := htext _ _ hfirst _
    (hprinted (List.forall_mem_singleton.mpr horder))
  obtain ⟨third, hthird, rfl, -⟩ := hvalue _ _ hread
  exact ⟨hfirst, hsecond, hthird⟩

end Criteria.Query
