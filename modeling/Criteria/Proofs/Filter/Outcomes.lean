import Criteria.Proofs.Sites

/-!
What the sites of a document compile to, and what comes of it for the document. An error of a site
is the document's own, once everything that is compiled before the site has been. A condition of a
site stands in the document's filter where the site stands in the document: beside those that it is
joined with, and for a right-hand side where the site is one.
-/

namespace Criteria.Filter

variable {ε σ : Type}

namespace Site

/-- What the site compiles to by itself. An entry is taken as the only one of its group, and a field
as the only one of its operation. -/
def outcome (b : Backend ε σ) (r : Resolver ε) : Site → Except CompileError ε
  | .stated op value => condition b r op value
  | .entry key value => condition b r .and (.obj [(key, value)])
  | .applied op name value => condition b r (.field op) (.obj [(name, value)])

/-- The sites that come next after everything that is compiled before them has been. What stands
behind them is not compiled yet. -/
inductive ComesNext (b : Backend ε σ) (r : Resolver ε) : Site → Site → Prop
  | item {op : Operator} (joins : op.joins) (front : List Json) {es : List ε}
    (before : groups b r front = .ok es) (item : Json) (back : List Json) :
    ComesNext b r (.stated op (.arr (front ++ item :: back))) (.stated .and item)
  | entry {op : Operator} (joins : op.joins) (front : List (String × Json)) {es : List ε}
    (before : entryConditions b r front = .ok es) (key : String) (value : Json)
    (back : List (String × Json)) :
    ComesNext b r (.stated op (.obj (front ++ (key, value) :: back))) (.entry key value)
  | field {op : Operation} (front : List (String × Json)) {es : List ε}
    (before : fieldConditions b r op front = .ok es) (name : String) (value : Json)
    (back : List (String × Json)) :
    ComesNext b r (.stated (.field op) (.obj (front ++ (name, value) :: back)))
      (.applied op name value)
  | operator {key : String} {op : Operator} (known : Operator.ofKey? key = some op)
    (value : Json) : ComesNext b r (.entry key value) (.stated op value)
  /-- The value of a bare field is compiled before the field is looked up. -/
  | bare {key : String} (bare : ¬ Operator.hasSigil key) (entries : List (String × Json)) :
    ComesNext b r (.entry key (.obj entries)) (.stated .and (.obj entries))
  | nested {op : Operation} (compares : op.takesRaw = false) {name : String}
    {field : ResolvedField ε} (found : r name = .ok field) (entries : List (String × Json)) :
    ComesNext b r (.applied op name (.obj entries)) (.stated .and (.obj entries))

/-- True when the condition of a site is built from that of one a step deeper: joined with those
that stand beside it, in document order, or compared with. What is left out in joining, such as the
later branches of a negation, is left out here as well. -/
inductive BuiltFrom (b : Backend ε σ) (r : Resolver ε) : Site × ε → Site × ε → Prop
  | item {op : Operator} (joins : op.joins) {front back : List Json} (item : Json)
    {es es' : List ε} {part whole : ε} (before : groups b r front = .ok es)
    (after : groups b r back = .ok es') (joined : join b op false (es ++ part :: es') = .ok whole) :
    BuiltFrom b r (.stated op (.arr (front ++ item :: back)), whole) (.stated .and item, part)
  | entry {op : Operator} (joins : op.joins) {front back : List (String × Json)} (key : String)
    (value : Json) {es es' : List ε} {part whole : ε} (before : entryConditions b r front = .ok es)
    (after : entryConditions b r back = .ok es')
    (joined : join b op true (es ++ part :: es') = .ok whole) :
    BuiltFrom b r (.stated op (.obj (front ++ (key, value) :: back)), whole)
      (.entry key value, part)
  | field {op : Operation} {front back : List (String × Json)} (name : String) (value : Json)
    {es es' : List ε} {part whole : ε} (before : fieldConditions b r op front = .ok es)
    (after : fieldConditions b r op back = .ok es')
    (joined : joinFields b (.field op) (es ++ part :: es') = .ok whole) :
    BuiltFrom b r (.stated (.field op) (.obj (front ++ (name, value) :: back)), whole)
      (.applied op name value, part)
  | operator {key : String} {op : Operator} (known : Operator.ofKey? key = some op)
    (value : Json) (e : ε) : BuiltFrom b r (.entry key value, e) (.stated op value, e)
  | bare {key : String} (bare : ¬ Operator.hasSigil key) (value : Json) (e : ε) :
    BuiltFrom b r (.entry key value, e) (.applied .eq key value, e)
  /-- The condition of a nested document is what the operation around it compares with. -/
  | nested {op : Operation} (compares : op.takesRaw = false) {name : String}
    {field : ResolvedField ε} (found : r name = .ok field) (entries : List (String × Json))
    {rhs whole : ε} (applied : field.apply b op (.operand rhs) = .ok whole) :
    BuiltFrom b r (.applied op name (.obj entries), whole) (.stated .and (.obj entries), rhs)

end Site

/-- True of the sites that the compilation of a document comes to, with all that is compiled before
them compiled. -/
def ComesTo (b : Backend ε σ) (r : Resolver ε) (document : Option Json) (site : Site) : Prop :=
  ∃ value, document = some value ∧ IsFilter value ∧
    Relation.ReflTransGen (Site.ComesNext b r) (.stated .and value) site

/-- True when a filter is built from a condition that stands in it where the site stands in the
document, step by step from the whole document down to the site. -/
def StandsIn (b : Backend ε σ) (r : Resolver ε) (document : Option Json) (filter : Option ε)
    (site : Site) (part : ε) : Prop :=
  ∃ value whole, document = some value ∧ filter = some whole ∧
    Relation.ReflTransGen (Site.BuiltFrom b r) (.stated .and value, whole) (site, part)

variable {b : Backend ε σ} {r : Resolver ε}

namespace Site

theorem outcome_entry (key : String) (value : Json) :
    (Site.entry key value).outcome b r = entryCondition b r (key, value) :=
  condition_single b r (key, value)

theorem outcome_applied (op : Operation) (name : String) (value : Json) :
    (Site.applied op name value).outcome b r = fieldCondition b r op (name, value) :=
  fields_single b r op (name, value)

/-- A site fails with the error of the one that comes next. What stands in front of it has compiled,
so its error is the first that is met. -/
theorem ComesNext.outcome_error {p q : Site} {error : CompileError} (hnext : p.ComesNext b r q)
    (h : q.outcome b r = .error error) : p.outcome b r = .error error := by
  cases hnext with
  | item joins front before item back =>
      rw [groups_eq_mapM] at before
      rw [outcome, condition_arr b r joins, mapM_eq_error_of_first before h]
      rfl
  | entry joins front before key value back =>
      rw [entryConditions_eq_mapM] at before
      rw [outcome_entry] at h
      rw [outcome, condition_obj b r joins, mapM_eq_error_of_first before h]
      rfl
  | field front before name value back =>
      rw [fieldConditions_eq_mapM] at before
      rw [outcome_applied] at h
      rw [outcome, condition_field, mapM_eq_error_of_first before h]
      rfl
  | operator known value =>
      rw [outcome_entry, entryCondition_of_operator b r known]
      exact h
  | bare bare entries =>
      have hargument : argument b r .eq (.obj entries) = .error error :=
        bind_eq_error.mpr (.inl h)
      rw [outcome_entry, entryCondition_of_bare b r bare, hargument]
      rfl
  | @nested op compares name field found entries =>
      have hargument : argument b r op (.obj entries) = .error error := by
        rw [argument, compares]
        exact bind_eq_error.mpr (.inl h)
      rw [outcome_applied, fieldCondition_eq, found, hargument]
      rfl

/-- What is built from a condition that a site compiles to is what is compiled around the site, one
step further out. -/
theorem BuiltFrom.outcome_ok {p q : Site} {whole part : ε}
    (hbuilt : BuiltFrom b r (p, whole) (q, part)) (h : q.outcome b r = .ok part) :
    p.outcome b r = .ok whole := by
  cases hbuilt with
  | item joins item before after joined =>
      rw [groups_eq_mapM] at before after
      rw [outcome, condition_arr b r joins,
        mapM_append_cons_eq_ok.mpr ⟨_, _, _, before, h, after, rfl⟩]
      exact joined
  | entry joins key value before after joined =>
      rw [entryConditions_eq_mapM] at before after
      rw [outcome_entry] at h
      rw [outcome, condition_obj b r joins,
        mapM_append_cons_eq_ok.mpr ⟨_, _, _, before, h, after, rfl⟩]
      exact joined
  | field name value before after joined =>
      rw [fieldConditions_eq_mapM] at before after
      rw [outcome_applied] at h
      rw [outcome, condition_field, mapM_append_cons_eq_ok.mpr ⟨_, _, _, before, h, after, rfl⟩]
      exact joined
  | operator known value =>
      rw [outcome_entry, entryCondition_of_operator b r known]
      exact h
  | bare bare value =>
      rw [outcome_entry, entryCondition_eq_ok]
      exact .inr ⟨bare, by rw [← outcome_applied, h]⟩
  | @nested op compares name field found entries rhs whole applied =>
      have hargument : argument b r op (.obj entries) = .ok (.operand part) := by
        rw [argument, compares]
        exact bind_eq_ok.mpr ⟨part, h, rfl⟩
      rw [outcome_applied]
      exact fieldCondition_eq_ok.mpr ⟨field, _, found, hargument, applied⟩

/-- What compiles has been compiled one step deeper, and is built from what came of it there. -/
theorem Next.exists_builtFrom {p q : Site} {whole : ε} (hnext : p.Next q)
    (h : p.outcome b r = .ok whole) :
    ∃ part, q.outcome b r = .ok part ∧ BuiltFrom b r (p, whole) (q, part) := by
  cases hnext with
  | item joins mem =>
      obtain ⟨front, back, rfl⟩ := List.append_of_mem mem
      rw [outcome, condition_arr b r joins] at h
      obtain ⟨es, hes, hjoined⟩ := bind_eq_ok.mp h
      obtain ⟨before, part, after, hbefore, hpart, hafter, rfl⟩ := mapM_append_cons_eq_ok.mp hes
      rw [← groups_eq_mapM] at hbefore hafter
      exact ⟨part, hpart, .item joins _ hbefore hafter hjoined⟩
  | entry joins mem =>
      obtain ⟨front, back, rfl⟩ := List.append_of_mem mem
      rw [outcome, condition_obj b r joins] at h
      obtain ⟨es, hes, hjoined⟩ := bind_eq_ok.mp h
      obtain ⟨before, part, after, hbefore, hpart, hafter, rfl⟩ := mapM_append_cons_eq_ok.mp hes
      rw [← entryConditions_eq_mapM] at hbefore hafter
      rw [outcome_entry]
      exact ⟨part, hpart, .entry joins _ _ hbefore hafter hjoined⟩
  | field mem =>
      obtain ⟨front, back, rfl⟩ := List.append_of_mem mem
      rw [outcome, condition_field] at h
      obtain ⟨es, hes, hjoined⟩ := bind_eq_ok.mp h
      obtain ⟨before, part, after, hbefore, hpart, hafter, rfl⟩ := mapM_append_cons_eq_ok.mp hes
      rw [← fieldConditions_eq_mapM] at hbefore hafter
      rw [outcome_applied]
      exact ⟨part, hpart, .field _ _ hbefore hafter hjoined⟩
  | operator known value =>
      rw [outcome_entry, entryCondition_of_operator b r known] at h
      exact ⟨whole, h, .operator known value whole⟩
  | bare bare value =>
      rw [outcome_entry] at h
      rcases entryCondition_eq_ok.mp h with ⟨op, known, -⟩ | ⟨-, hfield⟩
      · exact absurd (Operator.hasSigil_of_ofKey? known) bare
      · rw [← outcome_applied] at hfield
        exact ⟨whole, hfield, .bare bare value whole⟩
  | @nested op compares name entries =>
      rw [outcome_applied] at h
      obtain ⟨field, arg, hfound, harg, happly⟩ := fieldCondition_eq_ok.mp h
      rw [argument, compares] at harg
      obtain ⟨rhs, hrhs, heq⟩ := bind_eq_ok.mp harg
      cases heq
      exact ⟨rhs, hrhs, .nested compares hfound entries happly⟩

/-- What compiles has been compiled at every depth, also where the result does not show it. -/
theorem Reaches.exists_builtFrom {p q : Site} {whole : ε} (hreach : p.Reaches q)
    (h : p.outcome b r = .ok whole) :
    ∃ part, q.outcome b r = .ok part ∧
      Relation.ReflTransGen (BuiltFrom b r) (p, whole) (q, part) := by
  induction hreach with
  | refl => exact ⟨whole, h, .refl⟩
  | tail _ hnext ih =>
      obtain ⟨middle, hmiddle, hbuilt⟩ := ih
      obtain ⟨part, hpart, hstep⟩ := hnext.exists_builtFrom hmiddle
      exact ⟨part, hpart, hbuilt.tail hstep⟩

end Site

/-- A document fails with the error of a site that its compilation comes to, however deep the site
lies and whatever stands behind it. -/
theorem ComesTo.compile_error {document : Option Json} {site : Site} {error : CompileError}
    (hcomes : ComesTo b r document site) (h : site.outcome b r = .error error) :
    compile b r document = .error error := by
  obtain ⟨value, rfl, hfilter, hsites⟩ := hcomes
  have hvalue : (Site.stated .and value).outcome b r = .error error := by
    induction hsites with
    | refl => exact h
    | tail _ hnext ih => exact ih (hnext.outcome_error h)
  rw [Site.outcome] at hvalue
  rw [hfilter.compile, hvalue]
  rfl

/-- A document compiles to what is built from the condition of one of its sites. The conditions
beside it are those that the model's own functions compile. -/
theorem StandsIn.compile_ok {document : Option Json} {filter : Option ε} {site : Site} {part : ε}
    (hstands : StandsIn b r document filter site part) (h : site.outcome b r = .ok part) :
    compile b r document = .ok filter := by
  obtain ⟨value, whole, rfl, rfl, hbuilt⟩ := hstands
  have hwhole : (Site.stated .and value).outcome b r = .ok whole := by
    -- From the site outwards, each step hands what it comes to on to the one around it.
    generalize hinner : (site, part) = inner at hbuilt
    induction hbuilt generalizing site part with
    | refl =>
        cases hinner
        exact h
    | @tail middle _ _ hstep ih =>
        subst hinner
        exact ih (hstep.outcome_ok h) rfl
  exact compile_eq_some.mpr ⟨value, rfl, hwhole⟩

/-- The filter of a document is built from the conditions of all the sites that are read, also of
those whose condition is discarded on the way. -/
theorem Reads.exists_standsIn {document : Option Json} {site : Site} (hreads : Reads document site)
    {filter : Option ε} (h : compile b r document = .ok filter) :
    ∃ part, site.outcome b r = .ok part ∧ StandsIn b r document filter site part := by
  obtain ⟨value, rfl, hfilter, hreach⟩ := hreads
  rw [hfilter.compile] at h
  obtain ⟨whole, hcondition, heq⟩ := bind_eq_ok.mp h
  cases heq
  have hwhole : (Site.stated .and value).outcome b r = .ok whole := hcondition
  obtain ⟨part, hpart, hbuilt⟩ := hreach.exists_builtFrom hwhole
  exact ⟨part, hpart, value, whole, rfl, rfl, hbuilt⟩

end Criteria.Filter
