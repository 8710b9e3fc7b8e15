import Criteria.Query
import Criteria.Proofs.Resolution

/-!
What a compiled order and a compiled query are made of. The sorts of an order are those of the
entries that have one, in their order, and each is by a plain column of the model. A query's parts
are compiled by themselves, the filter before the order.
-/

namespace Criteria

namespace Order

section Entries

variable {ε σ : Type} (b : Backend ε σ) (r : Resolver ε)

theorem terms_eq_mapM (entries : List Json) :
    terms b r entries =
      (entries.mapM (term? b r) >>= fun found => .ok (found.flatMap Option.toList)) := by
  induction entries with
  | nil => rfl
  | cons entry rest ih =>
      rw [terms, ih, List.mapM_cons]
      simp only [bind_assoc, pure_bind, List.flatMap_cons]
      rfl

variable {b r}

theorem entries?_eq_some {document : Option Json} {entries : List Json} :
    entries? document = .ok (some entries) ↔ document = some (.arr entries) := by
  cases document with
  | none => simp [entries?]
  | some value => cases value <;> simp [entries?]

/-- An order has sorts, and they are those of the document's entries. Where all entries are passed
over there is no order, and not an order without sorts. -/
theorem compile_eq_some {document : Option Json} {sorts : List σ} :
    compile b r document = .ok (some sorts) ↔
      ∃ entries, document = some (.arr entries) ∧ terms b r entries = .ok sorts ∧ sorts ≠ [] := by
  rw [compile, bind_eq_ok]
  constructor
  · rintro ⟨found, hfound, h⟩
    cases found with
    | none => cases h
    | some entries =>
        obtain ⟨terms, hterms, h⟩ := bind_eq_ok.mp h
        split at h
        next => cases h
        next hne =>
          cases h
          exact ⟨entries, entries?_eq_some.mp hfound, hterms, by simpa using hne⟩
  · rintro ⟨entries, hdocument, hterms, hne⟩
    refine ⟨some entries, entries?_eq_some.mpr hdocument, bind_eq_ok.mpr ⟨sorts, hterms, ?_⟩⟩
    simp [hne, pure, Except.pure]

theorem exists_term_of_mem {entries : List Json} {sorts : List σ}
    (h : terms b r entries = .ok sorts) {sort : σ} (hmem : sort ∈ sorts) :
    ∃ entry ∈ entries, term? b r entry = .ok (some sort) := by
  rw [terms_eq_mapM] at h
  obtain ⟨found, hfound, heq⟩ := bind_eq_ok.mp h
  cases heq
  obtain ⟨term, hterm, hsort⟩ := List.mem_flatMap.mp hmem
  obtain rfl : term = some sort := by simpa using hsort
  exact exists_left_of_mem (mapM_eq_ok.mp hfound) hterm

end Entries

/-- True of the fields that a document names: the first keys of its entries. -/
def Names (document : Option Json) (name : String) : Prop :=
  ∃ entries value rest, document = some (.arr entries) ∧ .obj ((name, value) :: rest) ∈ entries

section Scope

variable {ι σ : Type} [DecidableEq ι] {E : ι → Type} {scope : Scope E} {i : ι}
  {b : Backend (E i) σ}

/-- A sort is by the column of a plain field: relations and custom fields do not sort, and their
errors are those of a field that does not stand by itself. -/
theorem term?_eq_some {entry : Json} {sort : σ}
    (h : term? b (scope.resolve i b) entry = .ok (some sort)) :
    ∃ name value rest column direction, entry = .obj ((name, value) :: rest) ∧
      scope.model.fields.get? name = some (.plain column) ∧
      sort = b.sort direction (scope.plainColumn b name column) := by
  match entry with
  | .obj ((name, value) :: rest) =>
      obtain ⟨direction, -, h⟩ := bind_eq_ok.mp h
      obtain ⟨field, hfield, h⟩ := bind_eq_ok.mp h
      obtain ⟨operand, halone, h⟩ := bind_eq_ok.mp h
      obtain ⟨column, hfound, rfl⟩ := Scope.resolve_alone_eq_ok.mp ⟨field, hfield, halone⟩
      cases h
      exact ⟨name, value, rest, column, direction, rfl, hfound, rfl⟩

/-- Every sort of an order is by the column of a plain field that the order's document names. -/
theorem sort_of_compile {document : Option Json} {sorts : List σ}
    (h : compile b (scope.resolve i b) document = .ok (some sorts)) {sort : σ}
    (hmem : sort ∈ sorts) :
    ∃ name column direction, Names document name ∧
      scope.model.fields.get? name = some (.plain column) ∧
      sort = b.sort direction (scope.plainColumn b name column) := by
  obtain ⟨entries, rfl, hterms, -⟩ := compile_eq_some.mp h
  obtain ⟨entry, hentry, hterm⟩ := exists_term_of_mem hterms hmem
  obtain ⟨name, value, rest, column, direction, rfl, hfound, hsort⟩ := term?_eq_some hterm
  exact ⟨name, column, direction, ⟨entries, value, rest, rfl, hentry⟩, hfound, hsort⟩

end Scope

end Order

namespace Query

variable {ε σ : Type} {b : Backend ε σ} {r : Resolver ε} {query : Query}

/-- A compiled query has the parts that its documents compile to by themselves. The numbers of rows
and what it asks for are taken over as they are. -/
theorem compile_eq_ok {compiled : CompiledQuery ε σ} :
    query.compile b r = .ok compiled ↔
      Filter.compile b r query.filter = .ok compiled.filter ∧
        Order.compile b r query.order = .ok compiled.order ∧
        compiled.limit = query.limit ∧ compiled.offset = query.offset ∧
        compiled.isCount = query.isCount := by
  simp only [compile, bind_eq_ok]
  constructor
  · rintro ⟨filter, hfilter, order, horder, heq⟩
    cases heq
    exact ⟨hfilter, horder, rfl, rfl, rfl⟩
  · rintro ⟨hfilter, horder, hlimit, hoffset, hcount⟩
    obtain ⟨filter, order, limit, offset, isCount⟩ := compiled
    subst hlimit hoffset hcount
    exact ⟨filter, hfilter, order, horder, rfl⟩

/-- A query fails with the error of its filter, or else with that of its order. The filter is
compiled first, also when only a count is asked for. -/
theorem compile_eq_error {error : CompileError} :
    query.compile b r = .error error ↔
      Filter.compile b r query.filter = .error error ∨
        (∃ filter, Filter.compile b r query.filter = .ok filter) ∧
          Order.compile b r query.order = .error error := by
  simp only [compile, bind_eq_error]
  constructor
  · rintro (hfilter | ⟨filter, hfilter, horder | ⟨order, -, heq⟩⟩)
    · exact .inl hfilter
    · exact .inr ⟨⟨filter, hfilter⟩, horder⟩
    · cases heq
  · rintro (hfilter | ⟨⟨filter, hfilter⟩, horder⟩)
    · exact .inl hfilter
    · exact .inr ⟨filter, hfilter, .inl horder⟩

end Query

end Criteria
