import Criteria.Resolution
import Criteria.Proofs.Traversal

/-!
What looking a field up in a model and applying an operation to it can come to: one case for each
kind of field, with everything that is checked on the way.
-/

namespace Criteria

/-- A model whose fields are all stored: plain ones and relations, but no custom ones. -/
def Model.IsStored {ι : Type} {E : ι → Type} (model : Model E) : Prop :=
  ∀ name handlers, model.fields.get? name ≠ some (.custom handlers)

/-- Users with the tags that another table gives them. -/
def Model.taggedUsers {ι : Type} {E : ι → Type} : Model E where
  binding := some ⟨"users", "id"⟩
  fields := (((∅ : NameTable (Field E)).insert "name" (.plain {})).insert "joined"
    (.plain { column := some "created_at" })).insert "tag" (.relation
      { matchColumn := "id", table := "user_tags", key := "user_id", value := "tag",
        permitted := [.eq, .isIn] })

theorem Model.get?_taggedUsers {ι : Type} {E : ι → Type} {name : String} {field : Field E}
    (h : (taggedUsers : Model E).fields.get? name = some field) :
    (∃ column, field = .plain column) ∨
      ∃ related, field = .relation related ∧ related.table = "user_tags" := by
  simp only [taggedUsers, NameTable.get?_insert, NameTable.get?_empty] at h
  split at h
  · cases h
    exact .inr ⟨_, rfl, rfl⟩
  · split at h
    · cases h
      exact .inl ⟨_, rfl⟩
    · split at h
      · cases h
        exact .inl ⟨_, rfl⟩
      · cases h

/-- The users and their tags have no custom fields, so all backends of a program see the same
fields. -/
theorem Model.isStored_taggedUsers {ι : Type} {E : ι → Type} :
    (taggedUsers : Model E).IsStored := by
  intro name handlers h
  rcases get?_taggedUsers h with ⟨column, heq⟩ | ⟨related, heq, -⟩ <;> cases heq

theorem Model.table_taggedUsers {ι : Type} {E : ι → Type} (name : String) (related : Relation)
    (h : (taggedUsers : Model E).fields.get? name = some (.relation related)) :
    related.table ≠ "users" := by
  rcases get?_taggedUsers h with ⟨column, heq⟩ | ⟨found, heq, htable⟩
  · cases heq
  · cases heq
    rw [htable]
    decide

namespace Scope

variable {ι : Type} {E : ι → Type} {σ : Type}

theorem binding_eq_ok {scope : Scope E} {binding : TableBinding} :
    scope.binding = .ok binding ↔ scope.model.binding = some binding := by
  rw [Scope.binding]
  split <;> simp_all

/-- The column of a plain field, as the model qualifies it. -/
def plainColumn (scope : Scope E) {ε : Type} (b : Backend ε σ) (name : String)
    (column : ColumnField) : ε :=
  b.column (scope.model.binding.map (·.table)) (column.column.getD name)

/-- What a field of the model resolves to. Only a plain one does without a table. -/
inductive Resolved [DecidableEq ι] (scope : Scope E) (i : ι) (b : Backend (E i) σ)
    (name : String) : ResolvedField (E i) → Prop
  | plain {column : ColumnField} (found : scope.model.fields.get? name = some (.plain column)) :
      Resolved scope i b name (.plain name (scope.plainColumn b name column) (some column))
  | relation {related : Relation} {binding : TableBinding}
      (found : scope.model.fields.get? name = some (.relation related))
      (bound : scope.model.binding = some binding) :
      Resolved scope i b name
        (.relation name (b.column (some binding.table) related.matchColumn) related)
  | custom {handlers : CustomField E} {binding : TableBinding}
      (found : scope.model.fields.get? name = some (.custom handlers))
      (bound : scope.model.binding = some binding) :
      Resolved scope i b name
        (.custom name (b.column (some binding.table) binding.primaryKey) (handlers.offer i))

/-- The conditions that an operation on a field of the model comes to. -/
inductive Applied (scope : Scope E) (i : ι) (b : Backend (E i) σ) (name : String) (op : Operation)
    (arg : Argument (E i)) : E i → Prop
  | plain {column : ColumnField} (found : scope.model.fields.get? name = some (.plain column))
      (permitted : permits column.permitted op) :
      Applied scope i b name op arg (b.apply op (scope.plainColumn b name column) arg)
  | relation {related : Relation} {binding : TableBinding}
      (found : scope.model.fields.get? name = some (.relation related))
      (bound : scope.model.binding = some binding) (permitted : permits related.permitted op) :
      Applied scope i b name op arg
        (b.among (b.column (some binding.table) related.matchColumn)
          (b.subquery related.table related.key
            (b.apply op (b.column (some related.table) related.value) arg)))
  | custom {handlers : CustomField E} {binding : TableBinding} {build : Handler (E i)}
      (found : scope.model.fields.get? name = some (.custom handlers))
      (bound : scope.model.binding = some binding)
      (handler : handlers.handlers op = some ⟨i, build⟩) :
      Applied scope i b name op arg
        (build (b.column (some binding.table) binding.primaryKey) op arg)

variable [DecidableEq ι] {scope : Scope E} {i : ι} {b : Backend (E i) σ} {name : String}

theorem offer_eq_handler {handlers : CustomField E} {op : Operation} {build : Handler (E i)} :
    handlers.offer i op = .handler build ↔ handlers.handlers op = some ⟨i, build⟩ := by
  rw [CustomField.offer]
  cases hfound : handlers.handlers op with
  | none => simp
  | some found =>
      obtain ⟨j, other⟩ := found
      by_cases hsame : j = i
      · subst hsame
        simp
      · simp [hsame]

/-- Looking a field up succeeds exactly for the fields that resolve. A plain field resolves in any
model; a relation and a custom field want the model to be bound. -/
theorem resolve_eq_ok {field : ResolvedField (E i)} :
    scope.resolve i b name = .ok field ↔ scope.Resolved i b name field := by
  constructor
  · intro h
    rw [resolve] at h
    split at h
    next => cases h
    next column found =>
        cases h
        exact .plain found
    next related found =>
        obtain ⟨binding, hbinding, heq⟩ := bind_eq_ok.mp h
        cases heq
        exact .relation found (binding_eq_ok.mp hbinding)
    next handlers found =>
        obtain ⟨binding, hbinding, heq⟩ := bind_eq_ok.mp h
        cases heq
        exact .custom found (binding_eq_ok.mp hbinding)
  · intro h
    cases h with
    | plain found => rw [resolve, found, plainColumn]
    | relation found bound =>
        rw [resolve, found]
        exact bind_eq_ok.mpr ⟨_, binding_eq_ok.mpr bound, rfl⟩
    | custom found bound =>
        rw [resolve, found]
        exact bind_eq_ok.mpr ⟨_, binding_eq_ok.mpr bound, rfl⟩

/-- A field that is looked up and has an operation applied to it comes to one of three conditions,
and nothing else stands in the way than what they list. -/
theorem resolve_apply_eq_ok {op : Operation} {arg : Argument (E i)} {e : E i} :
    (∃ field, scope.resolve i b name = .ok field ∧ field.apply b op arg = .ok e) ↔
      scope.Applied i b name op arg e := by
  constructor
  · rintro ⟨field, hresolve, happly⟩
    cases resolve_eq_ok.mp hresolve with
    | plain found =>
        rw [ResolvedField.apply] at happly
        split at happly
        next permitted => cases happly; exact .plain found permitted
        next => cases happly
    | relation found bound =>
        rw [ResolvedField.apply] at happly
        split at happly
        next permitted => cases happly; exact .relation found bound permitted
        next => cases happly
    | custom found bound =>
        rw [ResolvedField.apply] at happly
        split at happly
        next => cases happly
        next => cases happly
        next build handler =>
          cases happly
          exact .custom found bound (offer_eq_handler.mp handler)
  · intro h
    cases h with
    | plain found permitted =>
        refine ⟨_, resolve_eq_ok.mpr (.plain found), ?_⟩
        simp [ResolvedField.apply, permitted]
    | relation found bound permitted =>
        refine ⟨_, resolve_eq_ok.mpr (.relation found bound), ?_⟩
        simp [ResolvedField.apply, permitted]
    | custom found bound handler =>
        refine ⟨_, resolve_eq_ok.mpr (.custom found bound), ?_⟩
        simp [ResolvedField.apply, offer_eq_handler.mpr handler]

/-- Only a plain field stands by itself, and then as its column. References and sorts ask for their
fields in this way. -/
theorem resolve_alone_eq_ok {purpose : String} {e : E i} :
    (∃ field, scope.resolve i b name = .ok field ∧ field.alone purpose = .ok e) ↔
      ∃ column, scope.model.fields.get? name = some (.plain column) ∧
        e = scope.plainColumn b name column := by
  constructor
  · rintro ⟨field, hresolve, halone⟩
    cases resolve_eq_ok.mp hresolve with
    | plain found =>
        cases halone
        exact ⟨_, found, rfl⟩
    | relation found bound => cases halone
    | custom found bound => cases halone
  · rintro ⟨column, found, rfl⟩
    exact ⟨_, resolve_eq_ok.mpr (.plain found), rfl⟩

end Scope

/-- What a document wants a field for. -/
inductive Use where
  | reference
  | operation (op : Operation)
  | order
deriving DecidableEq, Repr

/-- The name under which a use is refused. -/
def Use.name : Use → String
  | .reference => "ref"
  | .operation op => op.name
  | .order => "order"

namespace Field

variable {ι : Type} {E : ι → Type}

def IsPlain : Field E → Prop
  | .plain _ => True
  | _ => False

/-- True of the fields that leave an operation out: a stored one by a list of others, a custom one
for want of a handler. -/
def Omits : Field E → Operation → Prop
  | .plain ⟨_, permitted⟩, op | .relation ⟨_, _, _, _, permitted⟩, op =>
    permitted ≠ [] ∧ op ∉ permitted
  | .custom handlers, op => handlers.handlers op = none

end Field

theorem permits_eq_false {permitted : List Operation} {op : Operation} :
    permits permitted op = false ↔ permitted ≠ [] ∧ op ∉ permitted := by
  simp [permits]

namespace Scope

variable {ι : Type} {E : ι → Type} {σ : Type}

/-- What can be wrong with a use of a field, seen by the backend `i`. -/
inductive Fault (scope : Scope E) (i : ι) (name : String) : Use → CompileError → Prop
  | unknown {use : Use} (missing : scope.model.fields.get? name = none) :
    Fault scope i name use (.unknownField name)
  | unbound {use : Use} {field : Field E} (found : scope.model.fields.get? name = some field)
    (notPlain : ¬ field.IsPlain) (unbound : scope.model.binding = none) :
    Fault scope i name use (.unknownModel scope.name)
  | notAlone {use : Use} {field : Field E} (found : scope.model.fields.get? name = some field)
    (notPlain : ¬ field.IsPlain) (alone : use = .reference ∨ use = .order) :
    Fault scope i name use (.unsupported name use.name)
  | omitted {op : Operation} {field : Field E} (found : scope.model.fields.get? name = some field)
    (omits : field.Omits op) :
    Fault scope i name (.operation op) (.unsupported name op.name)
  | foreign {op : Operation} {handlers : CustomField E} {j : ι} {build : Handler (E j)}
    (found : scope.model.fields.get? name = some (.custom handlers))
    (handler : handlers.handlers op = some ⟨j, build⟩) (other : j ≠ i) :
    Fault scope i name (.operation op) (.foreignHandler name)

/-- A fault is the document's own only if the model lacks the field. Every other fault is about how
the field was registered. -/
theorem Fault.isDocumentFault_iff {scope : Scope E} {i : ι} {name : String} {use : Use}
    {error : CompileError} (h : scope.Fault i name use error) :
    error.isDocumentFault ↔ scope.model.fields.get? name = none := by
  cases h with
  | unknown missing => simp [CompileError.isDocumentFault, missing]
  | unbound found => simp [CompileError.isDocumentFault, found]
  | notAlone found => simp [CompileError.isDocumentFault, found]
  | omitted found => simp [CompileError.isDocumentFault, found]
  | foreign found => simp [CompileError.isDocumentFault, found]

/-- A field that may not stand alone is no plain one. -/
theorem Fault.not_plain {scope : Scope E} {i : ι} {name : String} {use : Use}
    {error : CompileError} (h : scope.Fault i name use error)
    (halone : use = .reference ∨ use = .order) (column : ColumnField) :
    scope.model.fields.get? name ≠ some (.plain column) := by
  intro hplain
  cases h with
  | unknown missing => cases missing.symm.trans hplain
  | unbound found notPlain =>
      obtain rfl := Option.some.inj (found.symm.trans hplain)
      exact notPlain trivial
  | notAlone found notPlain =>
      obtain rfl := Option.some.inj (found.symm.trans hplain)
      exact notPlain trivial
  | omitted => simp at halone
  | foreign => simp at halone

/-- A faulty operation comes to no condition, whatever its argument. With `fault_of_apply` the
faults are exactly the ways to fail. -/
theorem Fault.not_applied {scope : Scope E} {i : ι} {b : Backend (E i) σ} {name : String}
    {op : Operation} {error : CompileError} (h : scope.Fault i name (.operation op) error)
    {arg : Argument (E i)} {e : E i} : ¬ scope.Applied i b name op arg e := by
  intro happlied
  cases h with
  | unknown missing => cases happlied <;> simp_all
  | unbound found notPlain unbound =>
      cases happlied with
      | plain found' =>
          obtain rfl := Option.some.inj (found.symm.trans found')
          exact notPlain trivial
      | relation found' bound => simp [unbound] at bound
      | custom found' bound => simp [unbound] at bound
  | notAlone found notPlain alone => simp at alone
  | omitted found omits =>
      cases happlied with
      | plain found' permitted =>
          obtain rfl := Option.some.inj (found.symm.trans found')
          simp [permits_eq_false.mpr omits] at permitted
      | relation found' bound permitted =>
          obtain rfl := Option.some.inj (found.symm.trans found')
          simp [permits_eq_false.mpr omits] at permitted
      | custom found' bound handler =>
          obtain rfl := Option.some.inj (found.symm.trans found')
          cases omits.symm.trans handler
  | foreign found handler other =>
      cases happlied with
      | plain found' => cases found.symm.trans found'
      | relation found' => cases found.symm.trans found'
      | custom found' bound handler' =>
          cases found.symm.trans found'
          cases handler.symm.trans handler'
          exact other rfl

theorem binding_eq_error {scope : Scope E} {error : CompileError} :
    scope.binding = .error error ↔
      scope.model.binding = none ∧ error = .unknownModel scope.name := by
  rw [Scope.binding]
  split <;> simp_all [eq_comm]

variable [DecidableEq ι] {scope : Scope E} {i : ι} {b : Backend (E i) σ} {name : String}
  {error : CompileError}

/-- Looking a field up fails for any use alike, as it is looked up before it is asked what for. -/
theorem fault_of_resolve (h : scope.resolve i b name = .error error) (use : Use) :
    scope.Fault i name use error := by
  rw [resolve] at h
  split at h
  next missing => cases h; exact .unknown missing
  next => cases h
  next related found =>
      rcases bind_eq_error.mp h with hbinding | ⟨binding, -, heq⟩
      · obtain ⟨unbound, rfl⟩ := binding_eq_error.mp hbinding
        exact .unbound found id unbound
      · cases heq
  next handlers found =>
      rcases bind_eq_error.mp h with hbinding | ⟨binding, -, heq⟩
      · obtain ⟨unbound, rfl⟩ := binding_eq_error.mp hbinding
        exact .unbound found id unbound
      · cases heq

/-- An operation that fails on a field, whatever its argument, does so by a fault of its use: it is
not permitted there, or not given a handler of the backend. -/
theorem fault_of_apply {field : ResolvedField (E i)} (hfield : scope.resolve i b name = .ok field)
    {op : Operation} {arg : Argument (E i)} (h : field.apply b op arg = .error error) :
    scope.Fault i name (.operation op) error := by
  cases resolve_eq_ok.mp hfield with
  | plain found =>
      rw [ResolvedField.apply] at h
      split at h
      next => cases h
      next refused =>
        cases h
        exact .omitted found (permits_eq_false.mp (by simpa using refused))
  | relation found bound =>
      rw [ResolvedField.apply] at h
      split at h
      next => cases h
      next refused =>
        cases h
        exact .omitted found (permits_eq_false.mp (by simpa using refused))
  | @custom handlers _ found bound =>
      rw [ResolvedField.apply, CustomField.offer] at h
      cases hhandler : handlers.handlers op with
      | none =>
          simp only [hhandler] at h
          cases h
          exact .omitted found hhandler
      | some handler =>
          obtain ⟨j, build⟩ := handler
          by_cases hsame : j = i
          · simp [hhandler, hsame] at h
          · simp only [hhandler, hsame, dif_neg, not_false_eq_true] at h
            cases h
            exact .foreign found hhandler hsame

/-- A field that does not stand by itself is no plain one. -/
theorem fault_of_alone {field : ResolvedField (E i)} (hfield : scope.resolve i b name = .ok field)
    {use : Use} (halone : use = .reference ∨ use = .order)
    (h : field.alone use.name = .error error) : scope.Fault i name use error := by
  cases resolve_eq_ok.mp hfield with
  | plain found => cases h
  | relation found bound => cases h; exact .notAlone found id halone
  | custom found bound => cases h; exact .notAlone found id halone

end Scope

end Criteria
