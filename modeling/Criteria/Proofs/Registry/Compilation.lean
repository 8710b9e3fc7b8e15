import Criteria.Proofs.Query.Dependence

/-!
Compiling against a registry. A model that the registry knows is compiled for as it stands there: it
makes no difference then that filters and orders are looked at before the model is. For a model that
it does not know, a filter or an order that is none for every model is none; an order of the wrong
shape is reported as such, and anything else by the model that is missing.
-/

namespace Criteria

/-- Blank documents are the ones without a filter, whatever the model. -/
theorem Filter.compile_eq_none_iff_blank {ε σ : Type} {b : Backend ε σ} {r : Resolver ε}
    {document : Option Json} : compile b r document = .ok none ↔ document.all Json.isBlank := by
  rw [compile_eq_none]
  match document with
  | none | some .null | some (.obj []) | some (.arr []) => simp [Json.isBlank]
  | some (.obj (first :: rest)) | some (.arr (first :: rest)) => simp [Json.isBlank]
  | some (.bool _) | some (.num _) | some (.str _) => simp [Json.isBlank]

theorem Order.entries?_of_noList {value : Json} (notNull : value ≠ .null)
    (noArray : ∀ entries, value ≠ .arr entries) :
    entries? (some value) = .error (.malformed (.notOrderList value)) := by
  cases value with
  | null => exact absurd rfl notNull
  | arr entries => exact absurd rfl (noArray entries)
  | _ => rfl

namespace Registry

variable {ι : Type} {E : ι → Type} {registry : Registry E} {name : String}

theorem scope_of_known {model : Model E} (h : registry.model? name = some model) :
    registry.scope name = .ok ⟨name, model⟩ := by
  rw [scope, h]

theorem scope_of_unknown (h : registry.model? name = none) :
    registry.scope name = .error (.unknownModel name) := by
  rw [scope, h]

section EntryPoints

variable [DecidableEq ι] (registry : Registry E) (i : ι) {σ : Type} (b : Backend (E i) σ)
  (name : String)

/-- A filter that is not blank asks for the model. A blank one comes to no filter even for a model
that nobody knows. -/
theorem filter_compileFor (document : Option Json) :
    Filter.compileFor registry i b name document =
      if document.all Json.isBlank then .ok none
      else registry.scope name >>= fun scope => Filter.compile b (scope.resolve i b) document := rfl

/-- A list with entries asks for the model, before any of the entries is looked at. -/
theorem order_compileFor_cons (first : Json) (rest : List Json) :
    Order.compileFor registry i b name (some (.arr (first :: rest))) =
      registry.scope name >>= fun scope =>
        Order.compile b (scope.resolve i b) (some (.arr (first :: rest))) := rfl

/-- A query asks for the model before its documents are looked at, so also when it has none. -/
theorem query_compileFor (query : Query) :
    query.compileFor registry i b name =
      registry.scope name >>= fun scope => query.compile b (scope.resolve i b) := rfl

variable {registry name}

section Known

variable {model : Model E} (h : registry.model? name = some model)
include h

theorem filter_compileFor_of_known (document : Option Json) :
    Filter.compileFor registry i b name document =
      Filter.compile b (Scope.resolve ⟨name, model⟩ i b) document := by
  rw [filter_compileFor, scope_of_known h]
  split
  next blank => exact (Filter.compile_eq_none_iff_blank.mpr blank).symm
  next => rfl

/-- In the scope of a known model, an order comes to what it comes to in the explicit scope. -/
theorem order_compileFor_of_known (document : Option Json) :
    Order.compileFor registry i b name document =
      Order.compile b (Scope.resolve ⟨name, model⟩ i b) document := by
  match document with
  | none | some .null | some (.arr []) => rfl
  | some (.arr (first :: rest)) =>
      rw [order_compileFor_cons, scope_of_known h]
      rfl
  | some (.bool _) | some (.num _) | some (.str _) | some (.obj _) => rfl

theorem query_compileFor_of_known (query : Query) :
    query.compileFor registry i b name =
      query.compile b (Scope.resolve ⟨name, model⟩ i b) := by
  rw [query_compileFor, scope_of_known h]
  rfl

end Known

section Unknown

variable (h : registry.model? name = none)
include h

theorem filter_compileFor_of_unknown (document : Option Json) :
    Filter.compileFor registry i b name document =
      if document.all Json.isBlank then .ok none else .error (.unknownModel name) := by
  rw [filter_compileFor, scope_of_unknown h]
  rfl

theorem order_compileFor_of_unknown (first : Json) (rest : List Json) :
    Order.compileFor registry i b name (some (.arr (first :: rest))) =
      .error (.unknownModel name) := by
  rw [order_compileFor_cons, scope_of_unknown h]
  rfl

theorem query_compileFor_of_unknown (query : Query) :
    query.compileFor registry i b name = .error (.unknownModel name) := by
  rw [query_compileFor, scope_of_unknown h]
  rfl

end Unknown

end EntryPoints

/-- Filters, orders and queries that are compiled for a model by name come to what they come to in
the model's scope, if the registry knows the model. If it does not, a filter is none exactly where
it would be none for any model, the shape of an order is still checked and an order without entries
is none, and everything else, all queries among it, is refused for want of the model. -/
theorem compileFor_agrees [DecidableEq ι] (registry : Registry E) (i : ι) {σ : Type}
    (b : Backend (E i) σ) (name : String) :
    (∀ model, registry.model? name = some model →
      let r := Scope.resolve ⟨name, model⟩ i b
      (∀ document, Filter.compileFor registry i b name document = Filter.compile b r document) ∧
      (∀ document, Order.compileFor registry i b name document = Order.compile b r document) ∧
      ∀ query : Query, query.compileFor registry i b name = query.compile b r) ∧
    (registry.model? name = none →
      (∀ {ε' σ' : Type} (b' : Backend ε' σ') (r' : Resolver ε') (document : Option Json),
        (Filter.compile b' r' document = .ok none →
          Filter.compileFor registry i b name document = .ok none) ∧
        (Filter.compile b' r' document ≠ .ok none →
          Filter.compileFor registry i b name document = .error (.unknownModel name))) ∧
      (∀ {ε' σ' : Type} (b' : Backend ε' σ') (r' : Resolver ε') (value : Json), value ≠ .null →
        (∀ entries, value ≠ .arr entries) →
        Order.compile b' r' (some value) = .error (.malformed (.notOrderList value)) ∧
          Order.compileFor registry i b name (some value) =
            .error (.malformed (.notOrderList value))) ∧
      (∀ document ∈ [none, some .null, some (.arr [])],
        Order.compileFor registry i b name document = .ok none) ∧
      (∀ first rest, Order.compileFor registry i b name (some (.arr (first :: rest))) =
        .error (.unknownModel name)) ∧
      ∀ query : Query, query.compileFor registry i b name = .error (.unknownModel name)) := by
  refine ⟨fun model h => ?known, fun h => ⟨?filter, ?noList, ?noEntries, ?entries, ?query⟩⟩
  case known =>
    exact ⟨filter_compileFor_of_known i b h, order_compileFor_of_known i b h,
      query_compileFor_of_known i b h⟩
  case filter =>
    intro ε' σ' b' r' document
    rw [ne_eq, Filter.compile_eq_none_iff_blank, filter_compileFor_of_unknown i b h]
    exact ⟨fun blank => if_pos blank, fun filled => if_neg filled⟩
  case noList =>
    intro ε' σ' b' r' value notNull noArray
    have hshape := Order.entries?_of_noList notNull noArray
    rw [Order.compile, Order.compileFor, hshape]
    exact ⟨rfl, rfl⟩
  case noEntries =>
    intro document hdocument
    simp only [List.mem_cons, List.not_mem_nil, or_false] at hdocument
    rcases hdocument with rfl | rfl | rfl <;> rfl
  case entries => exact order_compileFor_of_unknown i b h
  case query => exact query_compileFor_of_unknown i b h

/-- Posts are known, drafts are not. Without a model the shape of an order is still complained of,
and no order is still none; filters and queries ask for the model first. -/
theorem compileFor_agrees_posts :
    let registry := (∅ : Registry fun _ : Unit => Tree).after postWrites
    (∃ model, registry.model? "post" = some model ∧
      hiddenTwiceQuery.compileFor registry () Tree.backend "post" =
        hiddenTwiceQuery.compile Tree.backend
          (Scope.resolve ⟨"post", model⟩ () Tree.backend)) ∧
    registry.model? "draft" = none ∧
    Filter.compileFor registry () Tree.backend "draft" (some (.str "title")) =
      .error (.unknownModel "draft") ∧
    Order.compileFor registry () Tree.backend "draft" (some (.obj [])) =
      .error (.malformed (.notOrderList (.obj []))) ∧
    Order.compileFor registry () Tree.backend "draft" none = .ok none ∧
    ({} : Query).compileFor registry () Tree.backend "draft" = .error (.unknownModel "draft") := by
  intro registry
  obtain ⟨hknown, -⟩ := compileFor_agrees registry () Tree.backend "post"
  obtain ⟨-, hunknown⟩ := compileFor_agrees registry () Tree.backend "draft"
  have hpost : registry.contains "post" :=
    (contains_after_empty _ _).mpr ⟨.bind "post" ⟨"posts", "id"⟩, .head _, rfl⟩
  obtain ⟨model, hmodel⟩ : ∃ model, registry.model? "post" = some model :=
    Option.isSome_iff_exists.mp hpost
  have hdraft : registry.model? "draft" = none := rfl
  obtain ⟨hfilter, hnoList, hnone, -, hquery⟩ := hunknown hdraft
  have hmalformed : Filter.compile Tree.backend (Resolver.ofColumns fun _ => none)
      (some (.str "title")) ≠ .ok none := nofun
  exact ⟨⟨model, hmodel, (hknown model hmodel).2.2 hiddenTwiceQuery⟩, hdraft,
    (hfilter _ _ _).2 hmalformed, (hnoList Tree.backend (Resolver.ofColumns fun _ => none) (.obj [])
      nofun nofun).2, hnone none (.head _), hquery {}⟩

end Registry

end Criteria
