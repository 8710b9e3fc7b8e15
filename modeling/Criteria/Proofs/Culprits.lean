import Criteria.Proofs.Filter.Outcomes
import Criteria.Sql.Backend

/-!
Every error names a culprit. An error is traced down the sites of a document to the one that it
comes from, where a key, the shape of a value or the use of a field is at fault. A filter fails
exactly if it has a culprit, but which one is reported depends on the order of compilation.
-/

namespace Criteria

variable {ι : Type} {E : ι → Type} {σ : Type}

namespace Filter

/-- What can be wrong with the value of an operator by itself. -/
inductive Misshapen : Operator → Json → Malformation → Prop
  | notFieldName {value : Json} (noString : ∀ name, value ≠ .str name) :
    Misshapen .ref value (.notFieldName .ref value)
  | notFieldMap {op : Operation} {value : Json} (noObject : ∀ fields, value ≠ .obj fields) :
    Misshapen (.field op) value (.notFieldMap (.field op) value)
  | noField (op : Operation) : Misshapen (.field op) (.obj []) (.noField (.field op))
  | notBranches {op : Operator} {value : Json} (joins : op.joins)
    (noArray : ∀ items, value ≠ .arr items) (noObject : ∀ entries, value ≠ .obj entries) :
    Misshapen op value (.notBranches op value)
  | noItem {op : Operator} (joins : op.joins) : Misshapen op (.arr []) (.noBranch op)
  | noEntry {op : Operator} (joins : op.joins) : Misshapen op (.obj []) (.noBranch op)

/-- What can be wrong right at a site, seen by the backend `i`. -/
inductive Site.Culprit (scope : Scope E) (i : ι) : Site → CompileError → Prop
  | key {key : String} (value : Json) (sigil : Operator.hasSigil key)
    (unknown : Operator.ofKey? key = none) :
    Culprit scope i (.entry key value) (.unknownOperator key)
  | shape {op : Operator} {value : Json} {problem : Malformation}
    (misshapen : Misshapen op value problem) :
    Culprit scope i (.stated op value) (.malformed problem)
  | field {site : Site} {name : String} {use : Use} {error : CompileError}
    (uses : site.use? = some (name, use)) (fault : scope.Fault i name use error) :
    Culprit scope i site error

/-- What can be wrong with a document: it is no document, or there is a culprit at one of its
sites. -/
inductive Culprit (scope : Scope E) (i : ι) (document : Option Json) : CompileError → Prop
  | notDocument {value : Json} (is : document = some value) (notNull : value ≠ .null)
    (noArray : ∀ items, value ≠ .arr items) (noObject : ∀ entries, value ≠ .obj entries) :
    Culprit scope i document (.malformed (.notDocument value))
  | inside {site : Site} {error : CompileError} (reads : Reads document site)
    (culprit : site.Culprit scope i error) : Culprit scope i document error

/-- The ways in which a site fails. A bare field and a field of an operation differ in which of
theirs comes first. -/
inductive Site.Fails {ε : Type} (b : Backend ε σ) (r : Resolver ε) : Site → CompileError → Prop
  | stated {op : Operator} {value : Json} {error : CompileError}
    (fails : condition b r op value = .error error) : Fails b r (.stated op value) error
  | entry {key : String} {value : Json} {error : CompileError}
    (fails : entryCondition b r (key, value) = .error error) : Fails b r (.entry key value) error
  | resolving {op : Operation} {name : String} (value : Json) {error : CompileError}
    (fails : r name = .error error) : Fails b r (.applied op name value) error
  | argument {op : Operation} (name : String) {value : Json} {error : CompileError}
    (fails : argument b r op value = .error error) : Fails b r (.applied op name value) error
  | applying {op : Operation} {name : String} (value : Json) {field : ResolvedField ε}
    {arg : Argument ε} {error : CompileError} (found : r name = .ok field)
    (fails : field.apply b op arg = .error error) : Fails b r (.applied op name value) error

section Parts

variable {ε : Type} {b : Backend ε σ} {r : Resolver ε} {error : CompileError}

/-- The only way for conditions not to be joined is that there are none of them, and then the
operator is reported as having no branch. -/
theorem join_eq_error {op : Operator} {entries : Bool} {es : List ε}
    (h : join b op entries es = .error error) : es = [] ∧ error = .malformed (.noBranch op) := by
  cases es with
  | nil =>
      cases h
      exact ⟨rfl, rfl⟩
  | cons first rest => cases op <;> cases h

theorem joinFields_eq_error {op : Operator} {es : List ε}
    (h : joinFields b op es = .error error) : es = [] ∧ error = .malformed (.noField op) := by
  match es with
  | [] =>
      cases h
      exact ⟨rfl, rfl⟩
  | [_] | _ :: _ :: _ => cases h

theorem fails_of_fieldCondition {op : Operation} {name : String} {value : Json}
    (h : fieldCondition b r op (name, value) = .error error) :
    (Site.applied op name value).Fails b r error := by
  rw [fieldCondition_eq] at h
  rcases bind_eq_error.mp h with hresolve | ⟨field, hfield, h⟩
  · exact .resolving value hresolve
  · rcases bind_eq_error.mp h with hargument | ⟨arg, -, happly⟩
    · exact .argument name hargument
    · exact .applying value hfield happly

theorem fails_of_bareEntry {name : String} {value : Json} (hbare : ¬ Operator.hasSigil name)
    (h : entryCondition b r (name, value) = .error error) :
    (Site.applied .eq name value).Fails b r error := by
  rw [entryCondition_of_bare b r hbare] at h
  rcases bind_eq_error.mp h with hargument | ⟨arg, -, h⟩
  · exact .argument name hargument
  · rcases bind_eq_error.mp h with hresolve | ⟨field, hfield, happly⟩
    · exact .resolving value hresolve
    · exact .applying value hfield happly

/-- The argument of an operation fails only as a nested document. A value that is taken as it stands
and a literal are never refused. -/
theorem argument_eq_error {op : Operation} {value : Json}
    (h : argument b r op value = .error error) :
    op.takesRaw = false ∧ ∃ entries, value = .obj entries ∧
      condition b r .and value = .error error := by
  cases hraw : op.takesRaw with
  | true => simp [argument, hraw] at h
  | false =>
      simp only [argument, hraw, Bool.false_eq_true, if_false] at h
      rcases bind_eq_error.mp h with hoperand | ⟨rhs, -, h⟩
      · cases value with
        | obj entries => exact ⟨rfl, entries, rfl, hoperand⟩
        | _ => cases hoperand
      · cases h

end Parts

section Scope

variable [DecidableEq ι] {scope : Scope E} {i : ι} {b : Backend (E i) σ} {error : CompileError}

/-- An operator over branches fails by a branch, or by what it has in place of branches. The
branches come in the order of the document, so it is the first that fails. -/
theorem culprit_or_next_of_joins {op : Operator} (hjoins : op.joins) {value : Json}
    (h : condition b (scope.resolve i b) op value = .error error) :
    (Site.stated op value).Culprit scope i error ∨
      ∃ next, (Site.stated op value).Next next ∧ next.Fails b (scope.resolve i b) error := by
  cases value with
  | arr items =>
      rw [condition_arr _ _ hjoins] at h
      rcases bind_eq_error.mp h with hitems | ⟨es, hes, hjoined⟩
      · obtain ⟨item, hmem, hitem⟩ := exists_of_mapM_eq_error hitems
        exact .inr ⟨_, .item hjoins hmem, .stated hitem⟩
      · obtain ⟨rfl, rfl⟩ := join_eq_error hjoined
        obtain rfl : items = [] := List.forall₂_nil_right_iff.mp (mapM_eq_ok.mp hes)
        exact .inl (.shape (.noItem hjoins))
  | obj entries =>
      rw [condition_obj _ _ hjoins] at h
      rcases bind_eq_error.mp h with hentries | ⟨es, hes, hjoined⟩
      · obtain ⟨⟨key, value⟩, hmem, hentry⟩ := exists_of_mapM_eq_error hentries
        exact .inr ⟨_, .entry hjoins hmem, .entry hentry⟩
      · obtain ⟨rfl, rfl⟩ := join_eq_error hjoined
        obtain rfl : entries = [] := List.forall₂_nil_right_iff.mp (mapM_eq_ok.mp hes)
        exact .inl (.shape (.noEntry hjoins))
  | _ =>
      rw [condition_scalar _ _ hjoins (by simp) (by simp)] at h
      cases h
      exact .inl (.shape (.notBranches hjoins (by simp) (by simp)))

/-- A reference fails by what it refers to: it is no name at all, or the name of a field that does
not stand by itself. -/
theorem culprit_of_ref {value : Json}
    (h : condition b (scope.resolve i b) .ref value = .error error) :
    (Site.stated .ref value).Culprit scope i error := by
  cases value with
  | str name =>
      rw [condition] at h
      have hfault : scope.Fault i name .reference error := by
        rcases bind_eq_error.mp h with hresolve | ⟨field, hfield, halone⟩
        · exact Scope.fault_of_resolve hresolve _
        · exact Scope.fault_of_alone hfield (.inl rfl) halone
      exact .field rfl hfault
  | _ =>
      cases h
      exact .shape (.notFieldName (by simp))

/-- An operation fails by one of the fields that it is given, or by not being given any: an empty
object, or no object. -/
theorem culprit_or_next_of_field {op : Operation} {value : Json}
    (h : condition b (scope.resolve i b) (.field op) value = .error error) :
    (Site.stated (.field op) value).Culprit scope i error ∨
      ∃ next, (Site.stated (.field op) value).Next next ∧
        next.Fails b (scope.resolve i b) error := by
  cases value with
  | obj fields =>
      rw [condition_field] at h
      rcases bind_eq_error.mp h with hfields | ⟨es, hes, hjoined⟩
      · obtain ⟨⟨name, value⟩, hmem, hfield⟩ := exists_of_mapM_eq_error hfields
        exact .inr ⟨_, .field hmem, fails_of_fieldCondition hfield⟩
      · obtain ⟨rfl, rfl⟩ := joinFields_eq_error hjoined
        obtain rfl : fields = [] := List.forall₂_nil_right_iff.mp (mapM_eq_ok.mp hes)
        exact .inl (.shape (.noField op))
  | _ =>
      cases h
      exact .inl (.shape (.notFieldMap nofun))

/-- A site that fails has a culprit, or a site that comes next fails alike. The cases are those of
the site: a statement, an entry, or an operation on a field. -/
theorem Site.Fails.culprit_or_next {site : Site} (h : site.Fails b (scope.resolve i b) error) :
    site.Culprit scope i error ∨
      ∃ next, site.Next next ∧ next.Fails b (scope.resolve i b) error := by
  cases h with
  | @stated op value _ fails =>
      cases op with
      | ref => exact .inl (culprit_of_ref fails)
      | field op => exact culprit_or_next_of_field fails
      | _ => exact culprit_or_next_of_joins rfl fails
  | @entry key value _ fails =>
      by_cases hsigil : Operator.hasSigil key
      · cases hkey : Operator.ofKey? key with
        | none =>
            rw [entryCondition_of_unknown _ _ hsigil hkey] at fails
            cases fails
            exact .inl (.key value hsigil hkey)
        | some op =>
            rw [entryCondition_of_operator _ _ hkey] at fails
            exact .inr ⟨_, .operator hkey value, .stated fails⟩
      · exact .inr ⟨_, .bare hsigil value, fails_of_bareEntry hsigil fails⟩
  | resolving value fails => exact .inl (.field rfl (Scope.fault_of_resolve fails _))
  | argument name fails =>
      obtain ⟨hraw, entries, rfl, hgroup⟩ := argument_eq_error fails
      exact .inr ⟨_, .nested hraw name entries, .stated hgroup⟩
  | applying value found fails => exact .inl (.field rfl (Scope.fault_of_apply found fails))

/-- An error is traced down to a site with a culprit, by induction on the depth of the site, as the
sites that come next are less deep. -/
theorem Site.Fails.exists_culprit {site : Site} (h : site.Fails b (scope.resolve i b) error) :
    ∃ deeper, site.Reaches deeper ∧ deeper.Culprit scope i error := by
  rcases h.culprit_or_next with hculprit | ⟨next, hnext, hfails⟩
  · exact ⟨site, .refl, hculprit⟩
  · obtain ⟨deeper, hreach, hculprit⟩ := exists_culprit hfails
    exact ⟨deeper, .head hnext hreach, hculprit⟩
termination_by site.depth
decreasing_by exact hnext.depth_lt

/-- An error of a filter is due to a culprit in its document. -/
theorem culprit_of_compile {document : Option Json}
    (h : compile b (scope.resolve i b) document = .error error) :
    Culprit scope i document error := by
  have hinside {value : Json} (hfilter : IsFilter value) (hdocument : document = some value) :
      Culprit scope i document error := by
    rw [hdocument, hfilter.compile] at h
    rcases bind_eq_error.mp h with hcondition | ⟨e, -, heq⟩
    · obtain ⟨site, hreach, hculprit⟩ := Site.Fails.exists_culprit (.stated hcondition)
      exact .inside ⟨value, hdocument, hfilter, hreach⟩ hculprit
    · cases heq
  match document with
  | none | some .null | some (.obj []) | some (.arr []) => cases h
  | some (.obj (first :: rest)) => exact hinside (.entries first rest) rfl
  | some (.arr (first :: rest)) => exact hinside (.items first rest) rfl
  | some (.bool _) | some (.num _) | some (.str _) =>
      cases h
      exact .notDocument rfl (by simp) (by simp) (by simp)

omit [DecidableEq ι] in
theorem Misshapen.not_compiled {r : Resolver (E i)} {op : Operator} {value : Json}
    {problem : Malformation} (h : Misshapen op value problem) {e : E i} :
    ¬ Compiled b r op value e := by
  intro hcompiled
  cases h with
  | notFieldName noString =>
      cases hcompiled with
      | reference => exact noString _ rfl
      | items joins => cases joins
      | entries joins => cases joins
  | notFieldMap noObject =>
      cases hcompiled with
      | fields => exact noObject _ rfl
      | items joins => cases joins
      | entries joins => cases joins
  | noField op =>
      cases hcompiled with
      | fields parts joined =>
          cases parts
          cases joined
      | entries joins => cases joins
  | notBranches joins noArray noObject =>
      cases hcompiled with
      | reference => cases joins
      | fields => cases joins
      | items => exact noArray _ rfl
      | entries => exact noObject _ rfl
  | noItem joins =>
      cases hcompiled with
      | items joins' parts joined =>
          cases parts
          cases joined
  | noEntry joins =>
      cases hcompiled with
      | fields => cases joins
      | entries joins' parts joined =>
          cases parts
          cases joined

/-- A site with a culprit does not compile. The error it comes to may be another one, when several
sites in its document have culprits. -/
theorem Site.Culprit.not_ok {site : Site} (h : site.Culprit scope i error) (e : E i) :
    site.outcome b (scope.resolve i b) ≠ .ok e := by
  intro hok
  cases h with
  | key value sigil unknown =>
      rw [Site.outcome_entry, entryCondition_of_unknown _ _ sigil unknown] at hok
      cases hok
  | shape misshapen => exact misshapen.not_compiled (compiled_of_condition hok)
  | @field _ name use _ uses fault =>
      match site with
      | .stated .ref (.str _) =>
          cases uses
          rw [Site.outcome, condition] at hok
          obtain ⟨column, hplain, -⟩ := Scope.resolve_alone_eq_ok.mp (bind_eq_ok.mp hok)
          exact fault.not_plain (.inl rfl) column hplain
      | .applied op _ value =>
          cases uses
          rw [Site.outcome_applied] at hok
          obtain ⟨found, arg, hfound, -, happly⟩ := fieldCondition_eq_ok.mp hok
          exact fault.not_applied (Scope.resolve_apply_eq_ok.mp ⟨found, hfound, happly⟩)

/-- A filter fails exactly if its document has a culprit. -/
theorem fails_iff_culprit {document : Option Json} :
    (∃ error, compile b (scope.resolve i b) document = .error error) ↔
      ∃ error, Culprit scope i document error := by
  constructor
  · rintro ⟨error, h⟩
    exact ⟨error, culprit_of_compile h⟩
  · rintro ⟨error, h⟩
    cases hcompile : compile b (scope.resolve i b) document with
    | error error => exact ⟨error, rfl⟩
    | ok filter =>
        cases h with
        | @notDocument value is notNull noArray noObject =>
            subst is
            cases value with
            | null => exact absurd rfl notNull
            | arr items => exact absurd rfl (noArray items)
            | obj entries => exact absurd rfl (noObject entries)
            | _ => cases hcompile
        | inside reads culprit =>
            obtain ⟨e, hsite, -⟩ := reads.exists_standsIn hcompile
            exact absurd hsite (culprit.not_ok e)

end Scope

end Filter

namespace Order

/-- What can be wrong with an order, seen by the backend `i`: it is no list, an entry has another
direction than the two, or a field is no plain one. -/
inductive Culprit (scope : Scope E) (i : ι) (document : Option Json) : CompileError → Prop
  | notOrderList {value : Json} (is : document = some value) (notNull : value ≠ .null)
    (noArray : ∀ entries, value ≠ .arr entries) :
    Culprit scope i document (.malformed (.notOrderList value))
  | direction {entries : List Json} {name : String} {value : Json} {rest : List (String × Json)}
    (is : document = some (.arr entries)) (mem : .obj ((name, value) :: rest) ∈ entries)
    (neither : value ≠ .str "ASC" ∧ value ≠ .str "DESC") :
    Culprit scope i document (.badDirection name value.text)
  | field {name : String} {error : CompileError} (names : Names document name)
    (fault : scope.Fault i name .order error) : Culprit scope i document error

theorem direction_eq_error {name : String} {value : Json} {error : CompileError} :
    direction name value = .error error ↔
      (value ≠ .str "ASC" ∧ value ≠ .str "DESC") ∧ error = .badDirection name value.text := by
  have hkeyword : value.string?.bind Direction.ofKeyword? = none ↔
      value ≠ .str "ASC" ∧ value ≠ .str "DESC" := by
    cases value with
    | str word =>
        by_cases hasc : word = "ASC"
        · simp [Json.string?, Direction.ofKeyword?, hasc]
        · by_cases hdesc : word = "DESC" <;>
            simp [Json.string?, Direction.ofKeyword?, hasc, hdesc]
    | _ => simp [Json.string?]
  rw [← hkeyword, direction]
  split
  next direction found => simp [found]
  next missing => simp [missing, eq_comm]

variable [DecidableEq ι] {scope : Scope E} {i : ι} {b : Backend (E i) σ} {error : CompileError}

/-- An entry of an order fails by its first key alone, for its direction or for its field. Whatever
follows the first key is never looked at. -/
theorem term?_eq_error {entry : Json} (h : term? b (scope.resolve i b) entry = .error error) :
    ∃ name value rest, entry = .obj ((name, value) :: rest) ∧
      (direction name value = .error error ∨ scope.Fault i name .order error) := by
  match entry with
  | .obj ((name, value) :: rest) =>
      refine ⟨name, value, rest, rfl, ?_⟩
      rcases bind_eq_error.mp h with hdirection | ⟨direction, -, h⟩
      · exact .inl hdirection
      · rcases bind_eq_error.mp h with hresolve | ⟨field, hfield, h⟩
        · exact .inr (Scope.fault_of_resolve hresolve _)
        · rcases bind_eq_error.mp h with halone | ⟨operand, -, heq⟩
          · exact .inr (Scope.fault_of_alone hfield (.inr rfl) halone)
          · cases heq

/-- An error of an order is due to a culprit in its document. -/
theorem culprit_of_compile {document : Option Json}
    (h : compile b (scope.resolve i b) document = .error error) :
    Culprit scope i document error := by
  rcases bind_eq_error.mp h with hentries | ⟨found, hfound, hterms⟩
  · match document with
    | none | some .null | some (.arr _) => cases hentries
    | some (.obj _) | some (.bool _) | some (.num _) | some (.str _) =>
        cases hentries
        exact .notOrderList rfl (by simp) (by simp)
  · cases found with
    | none => cases hterms
    | some entries =>
        have hdocument := entries?_eq_some.mp hfound
        rcases bind_eq_error.mp hterms with hterms | ⟨sorts, -, heq⟩
        · rw [terms_eq_mapM] at hterms
          rcases bind_eq_error.mp hterms with hterms | ⟨found, -, heq⟩
          · obtain ⟨entry, hmem, hterm⟩ := exists_of_mapM_eq_error hterms
            obtain ⟨name, value, rest, rfl, hdirection | hfault⟩ := term?_eq_error hterm
            · obtain ⟨hneither, rfl⟩ := direction_eq_error.mp hdirection
              exact .direction hdocument hmem hneither
            · exact .field ⟨entries, value, rest, hdocument, hmem⟩ hfault
          · cases heq
        · cases heq

/-- An order that compiles has compiled each of its entries. -/
theorem exists_term_of_compile {entries : List Json} {order : Option (List σ)}
    (h : compile b (scope.resolve i b) (some (.arr entries)) = .ok order) {entry : Json}
    (hmem : entry ∈ entries) : ∃ sort, term? b (scope.resolve i b) entry = .ok sort := by
  obtain ⟨found, hfound, h⟩ := bind_eq_ok.mp h
  cases hfound
  obtain ⟨sorts, hterms, -⟩ := bind_eq_ok.mp h
  rw [terms_eq_mapM] at hterms
  obtain ⟨found, hfound, -⟩ := bind_eq_ok.mp hterms
  exact exists_mapM_eq_ok.mp ⟨found, hfound⟩ entry hmem

/-- An order fails exactly if its document has a culprit. -/
theorem fails_iff_culprit {document : Option Json} :
    (∃ error, compile b (scope.resolve i b) document = .error error) ↔
      ∃ error, Culprit scope i document error := by
  constructor
  · rintro ⟨error, h⟩
    exact ⟨error, culprit_of_compile h⟩
  · rintro ⟨error, h⟩
    cases hcompile : compile b (scope.resolve i b) document with
    | error error => exact ⟨error, rfl⟩
    | ok order =>
        cases h with
        | @notOrderList value is notNull noArray =>
            subst is
            cases value with
            | null => exact absurd rfl notNull
            | arr entries => exact absurd rfl (noArray entries)
            | _ => cases hcompile
        | @direction entries name value rest is mem neither =>
            subst is
            obtain ⟨sort, hterm⟩ := exists_term_of_compile hcompile mem
            obtain ⟨direction, hdirection, -⟩ := bind_eq_ok.mp hterm
            rw [direction_eq_error.mpr ⟨neither, rfl⟩] at hdirection
            cases hdirection
        | field names fault =>
            obtain ⟨entries, value, rest, rfl, mem⟩ := names
            obtain ⟨sort, hterm⟩ := exists_term_of_compile hcompile mem
            obtain ⟨direction, -, hterm⟩ := bind_eq_ok.mp hterm
            obtain ⟨found, hfound, hterm⟩ := bind_eq_ok.mp hterm
            obtain ⟨operand, halone, -⟩ := bind_eq_ok.mp hterm
            obtain ⟨column, hplain, -⟩ := Scope.resolve_alone_eq_ok.mp ⟨found, hfound, halone⟩
            exact absurd hplain (fault.not_plain (.inr rfl) column)

end Order

/-- Every error of a filter or of an order is due to a culprit in its document. The document itself
is to blame unless the culprit is a field that the model has. There is an error as soon as there is
a culprit, though another may be the one that is reported. -/
theorem culprit_of_error [DecidableEq ι] (scope : Scope E) (i : ι) (b : Backend (E i) σ) :
    (∀ document error, Filter.compile b (scope.resolve i b) document = .error error →
      Filter.Culprit scope i document error ∧
      (error.isDocumentFault = false ↔ ∃ name use, Filter.Names document name use ∧
        scope.model.fields.get? name ≠ none ∧ scope.Fault i name use error)) ∧
    (∀ document error, Order.compile b (scope.resolve i b) document = .error error →
      Order.Culprit scope i document error ∧
      (error.isDocumentFault = false ↔ ∃ name, Order.Names document name ∧
        scope.model.fields.get? name ≠ none ∧ scope.Fault i name .order error)) ∧
    (∀ document, (∃ error, Filter.Culprit scope i document error) →
      ∃ error, Filter.compile b (scope.resolve i b) document = .error error) ∧
    (∀ document, (∃ error, Order.Culprit scope i document error) →
      ∃ error, Order.compile b (scope.resolve i b) document = .error error) := by
  have hregistered {name : String} {use : Use} {error : CompileError}
      (hfault : scope.Fault i name use error) :
      error.isDocumentFault = false ↔ scope.model.fields.get? name ≠ none := by
    rw [ne_eq, ← hfault.isDocumentFault_iff, Bool.not_eq_true]
  refine ⟨?filters, ?orders, fun _ => Filter.fails_iff_culprit.mpr,
    fun _ => Order.fails_iff_culprit.mpr⟩
  case filters =>
    intro document error h
    have hculprit := Filter.culprit_of_compile h
    refine ⟨hculprit, fun hblame => ?_, ?_⟩
    · cases hculprit with
      | notDocument => cases hblame
      | inside reads culprit =>
          cases culprit with
          | key => cases hblame
          | shape => cases hblame
          | field uses fault =>
              exact ⟨_, _, ⟨_, reads, uses⟩, (hregistered fault).mp hblame, fault⟩
    · rintro ⟨name, use, -, hfound, hfault⟩
      exact (hregistered hfault).mpr hfound
  case orders =>
    intro document error h
    have hculprit := Order.culprit_of_compile h
    refine ⟨hculprit, fun hblame => ?_, ?_⟩
    · cases hculprit with
      | notOrderList => cases hblame
      | direction => cases hblame
      | field names fault => exact ⟨_, names, (hregistered fault).mp hblame, fault⟩
    · rintro ⟨name, -, hfound, hfault⟩
      exact (hregistered hfault).mpr hfound

/-- A filter that refers to a relation in a branch that would be left out. -/
def tagReference : Json :=
  .obj [("$not", .arr [.obj [("name", .str "$ref")],
    .obj [("$eq", .obj [("name", .obj [("$ref", .str "tag")])])]])]

/-- A literal that looks like an operator is passed over, and the relation in the second branch
is found, although only the first would be negated. An order fails by its direction, before its
field. -/
theorem culprit_of_error_tagReference :
    let scope : Scope (Sql.ExpressionsWith Empty.elim) := ⟨"user", .taggedUsers⟩
    let r := scope.resolve none Sql.backend
    Filter.compile Sql.backend r (some tagReference) = .error (.unsupported "tag" "ref") ∧
    Filter.Culprit scope none (some tagReference) (.unsupported "tag" "ref") ∧
    Order.compile Sql.backend r (some (.arr [.null, .obj [("joined", .str "up")]])) =
      .error (.badDirection "joined" (Json.str "up").text) ∧
    Order.Culprit scope none (some (.arr [.null, .obj [("joined", .str "up")]]))
      (.badDirection "joined" (Json.str "up").text) := by
  intro scope r
  have hfilter : Filter.compile Sql.backend r (some tagReference) =
      .error (.unsupported "tag" "ref") := rfl
  have horder : Order.compile Sql.backend r (some (.arr [.null, .obj [("joined", .str "up")]])) =
      .error (.badDirection "joined" (Json.str "up").text) := rfl
  obtain ⟨hfilters, horders, -, -⟩ := culprit_of_error scope none Sql.backend
  exact ⟨hfilter, (hfilters _ _ hfilter).1, horder, (horders _ _ horder).1⟩

end Criteria
