import Criteria.Proofs.LastWrite
import Criteria.Proofs.NameTable
import Criteria.Tree

/-!
What a registry holds after any number of writes. For each binding and each field the last write
decides, and the order of writes to different ones makes no difference. A registry is its answers:
two sequences whose last writes are the same come to the same registry, and two whose last writes
differ do not.
-/

namespace Criteria.Registry

variable {ι : Type} {E : ι → Type}

/-- The table that a model is bound to. -/
def binding? (registry : Registry E) (name : String) : Option TableBinding :=
  (registry.model? name).bind Model.binding

/-- How a field of a model can be filtered. -/
def field? (registry : Registry E) (name field : String) : Option (Field E) :=
  (registry.model? name).bind fun model => model.fields.get? field

theorem contains_eq (registry : Registry E) (name : String) :
    registry.contains name = (registry.model? name).isSome := rfl

theorem mem_names_iff {registry : Registry E} {name : String} :
    name ∈ registry.names ↔ registry.contains name :=
  NameTable.mem_names_iff

theorem binding?_of_model? {registry : Registry E} {name : String} {model : Model E}
    (h : registry.model? name = some model) : registry.binding? name = model.binding := by
  simp [binding?, h]

theorem field?_of_model? {registry : Registry E} {name : String} {model : Model E}
    (h : registry.model? name = some model) (field : String) :
    registry.field? name field = model.fields.get? field := by
  simp [field?, h]

/-- What is known of a model is whether it is known, its binding and its fields, and nothing
else. -/
theorem model?_eq_iff {registry registry' : Registry E} {name : String} :
    registry.model? name = registry'.model? name ↔
      registry.contains name = registry'.contains name ∧
        registry.binding? name = registry'.binding? name ∧
        ∀ field, registry.field? name field = registry'.field? name field := by
  constructor
  · intro h
    simp [contains_eq, binding?, field?, h]
  · rintro ⟨hcontains, hbinding, hfields⟩
    rw [contains_eq, contains_eq] at hcontains
    cases hmodel : registry.model? name with
    | none =>
        rw [hmodel] at hcontains
        exact (Option.isNone_iff_eq_none.mp (by simpa using hcontains.symm)).symm
    | some model =>
        rw [hmodel] at hcontains
        obtain ⟨model', hmodel'⟩ := Option.isSome_iff_exists.mp hcontains.symm
        rw [binding?_of_model? hmodel, binding?_of_model? hmodel'] at hbinding
        have hsame : model.fields = model'.fields := by
          refine NameTable.eq_of_get? fun field => ?_
          rw [← field?_of_model? hmodel, ← field?_of_model? hmodel', hfields]
        obtain ⟨binding, fields⟩ := model
        cases hbinding
        cases hsame
        exact hmodel'.symm

/-- Registries that know the same of every model are equal, so they can be compared model by
model. -/
theorem eq_of_model? {registry registry' : Registry E}
    (h : ∀ name, registry.model? name = registry'.model? name) : registry = registry' := by
  obtain ⟨models⟩ := registry
  obtain ⟨models'⟩ := registry'
  obtain rfl : models = models' := NameTable.eq_of_get? h
  rfl

/-- A write to a registry. -/
inductive Write {ι : Type} (E : ι → Type) where
  | bind (model : String) (binding : TableBinding)
  | addField (model field : String) (how : Field E)

namespace Write

/-- The model that a write is about. -/
def model : Write E → String
  | .bind model _ | .addField model _ _ => model

/-- What a write binds a model to, if it does. -/
def binding? (name : String) : Write E → Option TableBinding
  | .bind model binding => if model = name then some binding else none
  | .addField .. => none

/-- How a write has a field of a model filtered, if it says so. -/
def field? (name field : String) : Write E → Option (Field E)
  | .bind .. => none
  | .addField model added how => if model = name ∧ added = field then some how else none

/-- The name of the field that a write gives to a model, if it does. -/
def fieldName? (name : String) : Write E → Option String
  | .bind .. => none
  | .addField model added _ => if model = name then some added else none

/-- What a write changes in its model. -/
def change : Write E → Model E → Model E
  | .bind _ binding, model => { model with binding := some binding }
  | .addField _ field how, model => { model with fields := model.fields.insert field how }

end Write

def write (registry : Registry E) : Write E → Registry E
  | .bind model binding => registry.bind model binding
  | .addField model field how => registry.addField model field how

/-- The registry after a sequence of writes. -/
def after (registry : Registry E) (writes : List (Write E)) : Registry E :=
  writes.foldl write registry

/-- A write makes its model known and changes it, while every other model stays as it is. A model
that was not known is changed from an empty one. -/
theorem model?_write (registry : Registry E) (w : Write E) (name : String) :
    (registry.write w).model? name =
      if name = w.model then some (w.change ((registry.model? name).getD {}))
      else registry.model? name := by
  have hmodify : registry.write w = registry.modify w.model w.change := by cases w <;> rfl
  rw [hmodify, model?_modify]
  split
  next same => rw [same]
  next => rfl

theorem contains_write (registry : Registry E) (w : Write E) (name : String) :
    (registry.write w).contains name ↔ w.model = name ∨ registry.contains name := by
  rw [contains_eq, contains_eq, model?_write]
  by_cases same : name = w.model
  · simp [same]
  · simp [same, Ne.symm same]

/-- A write changes the one binding that it is about: writes that add a field are about none, even
for a model that is new. -/
theorem binding?_write (registry : Registry E) (w : Write E) (name : String) :
    (registry.write w).binding? name = (w.binding? name).or (registry.binding? name) := by
  rw [binding?, binding?, model?_write]
  cases w with
  | bind model binding =>
      by_cases same : name = model
      · simp [Write.model, Write.binding?, Write.change, same]
      · simp [Write.model, Write.binding?, same, Ne.symm same]
  | addField model added how =>
      by_cases same : name = model
      · cases hmodel : registry.model? model <;>
          simp [Write.model, Write.binding?, Write.change, same, hmodel]
      · simp [Write.model, Write.binding?, same]

/-- A write changes the one field that it is about: a new field of a name replaces the old one as a
whole, and the others stay. -/
theorem field?_write (registry : Registry E) (w : Write E) (name field : String) :
    (registry.write w).field? name field =
      (w.field? name field).or (registry.field? name field) := by
  rw [field?, field?, model?_write]
  cases w with
  | bind model binding =>
      by_cases same : name = model
      · cases hmodel : registry.model? model <;>
          simp [Write.model, Write.field?, Write.change, same, hmodel]
      · simp [Write.model, Write.field?, same]
  | addField model added how =>
      by_cases same : name = model
      · by_cases sameField : field = added
        · simp [Write.model, Write.field?, Write.change, same, sameField, NameTable.get?_insert]
        · cases hmodel : registry.model? model <;>
            simp [Write.model, Write.field?, Write.change, same, sameField, Ne.symm sameField,
              NameTable.get?_insert, hmodel]
      · simp [Write.model, Write.field?, same, Ne.symm same]

/-- What a sequence of writes binds a model to in the end. -/
def lastBinding? (name : String) : List (Write E) → Option TableBinding :=
  last? (·.binding? name)

/-- How a sequence of writes has a field of a model filtered in the end. -/
def lastField? (name field : String) : List (Write E) → Option (Field E) :=
  last? (·.field? name field)

/-- True of the models that some write is about. -/
def Mentions (name : String) (writes : List (Write E)) : Prop :=
  ∃ w ∈ writes, w.model = name

theorem binding?_after (registry : Registry E) (writes : List (Write E)) (name : String) :
    (registry.after writes).binding? name =
      (lastBinding? name writes).or (registry.binding? name) :=
  observe_foldl (·.binding? name) (binding?_write · · name) registry writes

/-- What is known of a field after some writes is what the last of them says that is about it, and
otherwise what was known before. -/
theorem field?_after (registry : Registry E) (writes : List (Write E)) (name field : String) :
    (registry.after writes).field? name field =
      (lastField? name field writes).or (registry.field? name field) :=
  observe_foldl (·.field? name field) (field?_write · · name field) registry writes

/-- A binding stays as it is where no write is about it. -/
theorem binding?_after_of_spared {registry : Registry E} {writes : List (Write E)} {name : String}
    (h : ∀ w ∈ writes, w.binding? name = none) :
    (registry.after writes).binding? name = registry.binding? name := by
  rw [binding?_after, lastBinding?, last?_eq_none_iff.mpr h, Option.none_or]

/-- A field stays as it is where no write is about it. -/
theorem field?_after_of_spared {registry : Registry E} {writes : List (Write E)}
    {name field : String} (h : ∀ w ∈ writes, w.field? name field = none) :
    (registry.after writes).field? name field = registry.field? name field := by
  rw [field?_after, lastField?, last?_eq_none_iff.mpr h, Option.none_or]

/-- A model is known once some write is about it, and is never forgotten. -/
theorem contains_after (registry : Registry E) (writes : List (Write E)) (name : String) :
    (registry.after writes).contains name ↔ Mentions name writes ∨ registry.contains name := by
  induction writes generalizing registry with
  | nil => simp [after, Mentions]
  | cons w rest ih =>
      have hrest : (registry.after (w :: rest)).contains name ↔
          Mentions name rest ∨ (registry.write w).contains name := ih (registry.write w)
      have hcons : Mentions name (w :: rest) ↔ w.model = name ∨ Mentions name rest := by
        simp [Mentions]
      rw [hrest, contains_write, hcons, or_left_comm, or_assoc]

/-- The fields that a sequence of writes gives to a model are those with a last write. -/
theorem mem_fieldNames_iff {name field : String} {writes : List (Write E)} :
    field ∈ writes.filterMap (·.fieldName? name) ↔ (lastField? name field writes).isSome := by
  have hpart (w : Write E) : w.fieldName? name = some field ↔ (w.field? name field).isSome := by
    cases w with
    | bind model binding => simp [Write.fieldName?, Write.field?]
    | addField model added how =>
        by_cases same : model = name <;> simp [Write.fieldName?, Write.field?, same]
  rw [lastField?, last?_isSome_iff, List.mem_filterMap]
  exact exists_congr fun w => and_congr_right fun _ => hpart w

/-- Two sequences of writes with the same outcome for a model: both are about it or neither is, and
the last writes of its binding and of each field are the same. -/
structure SameLast (name : String) (writes writes' : List (Write E)) : Prop where
  mentions : Mentions name writes ↔ Mentions name writes'
  binding : lastBinding? name writes = lastBinding? name writes'
  field : ∀ field, lastField? name field writes = lastField? name field writes'

/-- The same last writes have the same effect on a model, whatever was known of it. The order of the
writes, and what they had overwritten, cannot be seen any more. -/
theorem SameLast.model?_after {name : String} {writes writes' : List (Write E)}
    (h : SameLast name writes writes') (registry : Registry E) :
    (registry.after writes).model? name = (registry.after writes').model? name := by
  refine model?_eq_iff.mpr ⟨?_, ?_, fun field => ?_⟩
  · rw [Bool.eq_iff_iff, contains_after, contains_after, h.mentions]
  · rw [binding?_after, binding?_after, h.binding]
  · rw [field?_after, field?_after, h.field]

/-- Repeating a sequence of writes changes nothing: the last writes of the repeated sequence are
those of the sequence. -/
theorem after_append_self (registry : Registry E) (writes : List (Write E)) :
    registry.after (writes ++ writes) = registry.after writes := by
  refine eq_of_model? fun name => SameLast.model?_after ⟨?_, ?_, fun field => ?_⟩ registry
  · simp [Mentions]
  · rw [lastBinding?, last?_append, Option.or_self]
  · rw [lastField?, last?_append, Option.or_self]

section Empty

@[simp]
theorem model?_empty (name : String) : (∅ : Registry E).model? name = none := rfl

variable (writes : List (Write E)) (name : String)

theorem contains_after_empty :
    ((∅ : Registry E).after writes).contains name ↔ Mentions name writes := by
  rw [contains_after]
  simp [contains_eq]

theorem binding?_after_empty :
    ((∅ : Registry E).after writes).binding? name = lastBinding? name writes := by
  rw [binding?_after]
  exact Option.or_none

theorem field?_after_empty (field : String) :
    ((∅ : Registry E).after writes).field? name field = lastField? name field writes := by
  rw [field?_after]
  exact Option.or_none

theorem model?_after_empty_eq_iff {writes writes' : List (Write E)} {name : String} :
    ((∅ : Registry E).after writes).model? name = ((∅ : Registry E).after writes').model? name ↔
      SameLast name writes writes' := by
  refine ⟨fun h => ?_, fun h => h.model?_after ∅⟩
  obtain ⟨hcontains, hbinding, hfields⟩ := model?_eq_iff.mp h
  refine ⟨?_, ?_, fun field => ?_⟩
  · rw [← contains_after_empty, ← contains_after_empty, hcontains]
  · rw [← binding?_after_empty, ← binding?_after_empty, hbinding]
  · rw [← field?_after_empty, ← field?_after_empty, hfields]

end Empty

/-- What a sequence of writes leaves of a model that nothing was known of: the last binding, and
each field by its last write, listed ascending and once each. -/
structure Leaves (writes : List (Write E)) (name : String) (model : Model E) : Prop where
  binding : model.binding = lastBinding? name writes
  field : ∀ field, model.fields.get? field = lastField? name field writes
  size : model.fields.size = (writes.filterMap (·.fieldName? name)).dedup.length
  ascending : model.fields.names.Pairwise (· < ·)
  entries : ∀ field how,
    (field, how) ∈ model.fields.entries ↔ lastField? name field writes = some how

theorem leaves_of_model? {writes : List (Write E)} {name : String} {model : Model E}
    (h : ((∅ : Registry E).after writes).model? name = some model) : Leaves writes name model := by
  have hfield (field : String) : model.fields.get? field = lastField? name field writes := by
    rw [← field?_of_model? h, field?_after_empty]
  refine ⟨?_, hfield, ?_, model.fields.names_ascending, fun field how => ?_⟩
  · rw [← binding?_of_model? h, binding?_after_empty]
  · refine NameTable.size_eq_length_dedup fun field => ?_
    rw [mem_fieldNames_iff, NameTable.contains, hfield]
  · rw [NameTable.mem_entries_iff, hfield]

/-- A registry that is filled from nothing knows the models that some write is about, and the last
writes decide what it knows of each. Sequences come to the same registry exactly if their last
writes are the same, and a query compiles alike after those that have them for its model. -/
theorem after_decided_by_last (writes : List (Write E)) :
    let registry := (∅ : Registry E).after writes
    (∀ name, (∃ model, registry.model? name = some model) ↔ Mentions name writes) ∧
    (∀ name model, registry.model? name = some model → Leaves writes name model) ∧
    registry.names.Pairwise (· < ·) ∧
    (∀ name, name ∈ registry.names ↔ Mentions name writes) ∧
    (∀ writes', (∅ : Registry E).after writes' = registry ↔
      ∀ name, SameLast name writes writes') ∧
    ∀ [DecidableEq ι] {σ : Type} (writes' : List (Write E)) (name : String),
      SameLast name writes writes' → ∀ (i : ι) (b : Backend (E i) σ) (query : Query),
        query.compileFor ((∅ : Registry E).after writes') i b name =
          query.compileFor registry i b name := by
  intro registry
  refine ⟨fun name => ?_, fun name model => leaves_of_model?, registry.models.names_ascending,
    fun name => ?_, fun writes' => ⟨fun h name => ?_, fun h => ?_⟩, ?_⟩
  · rw [← contains_after_empty, contains_eq, Option.isSome_iff_exists]
  · rw [mem_names_iff, contains_after_empty]
  · exact model?_after_empty_eq_iff.mp (by rw [h])
  · exact eq_of_model? fun name => ((h name).model?_after ∅).symm
  · intro _ σ writes' name h i b query
    have hmodel : ((∅ : Registry E).after writes').model? name = registry.model? name :=
      (h.model?_after ∅).symm
    rw [Query.compileFor, Query.compileFor, Registry.scope, Registry.scope, hmodel]

/-- Writes to two models in turn, with a table and a column that are corrected later. -/
def interleavedWrites : List (Write fun _ : Unit => Tree) :=
  [.addField "post" "title" (.plain {}), .bind "post" ⟨"drafts", "id"⟩,
    .addField "user" "name" (.plain {}),
    .addField "post" "title" (.plain { column := some "headline" }),
    .bind "post" ⟨"posts", "id"⟩]

/-- The same models, one after the other, and right from the start. -/
def orderlyWrites : List (Write fun _ : Unit => Tree) :=
  [.bind "post" ⟨"posts", "id"⟩, .addField "post" "title" (.plain { column := some "headline" }),
    .addField "user" "name" (.plain {})]

theorem sameLast_orderlyWrites (name : String) :
    SameLast name interleavedWrites orderlyWrites := by
  refine ⟨?_, ?_, fun field => ?_⟩
  · simp only [Mentions, interleavedWrites, orderlyWrites, List.exists_mem_cons_iff, Write.model]
    tauto
  · by_cases hname : "post" = name <;>
      simp [lastBinding?, last?, interleavedWrites, orderlyWrites, Write.binding?, hname]
  · by_cases hpost : "post" = name ∧ "title" = field
    · obtain ⟨rfl, rfl⟩ := hpost
      rfl
    · simp [lastField?, last?, interleavedWrites, orderlyWrites, Write.field?, hpost]

/-- The corrected table and column are what is left, the models are listed by name, and the two
sequences cannot be told apart afterwards. -/
theorem after_decided_by_last_interleaved :
    let registry := (∅ : Registry fun _ : Unit => Tree).after interleavedWrites
    (∃ model, registry.model? "post" = some model ∧ Leaves interleavedWrites "post" model ∧
      model.binding = some ⟨"posts", "id"⟩ ∧ model.fields.size = 1) ∧
    registry.names = ["post", "user"] ∧
    (∅ : Registry fun _ : Unit => Tree).after orderlyWrites = registry ∧
    ∀ query : Query,
      query.compileFor ((∅ : Registry fun _ : Unit => Tree).after orderlyWrites) ()
        Tree.backend "post" = query.compileFor registry () Tree.backend "post" := by
  intro registry
  obtain ⟨hknown, hleaves, -, -, hsame, hcompile⟩ := after_decided_by_last interleavedWrites
  obtain ⟨model, hmodel⟩ := (hknown "post").mpr ⟨_, .head _, rfl⟩
  have hleft := hleaves "post" model hmodel
  refine ⟨⟨model, hmodel, hleft, hleft.binding, hleft.size⟩, rfl,
    (hsame orderlyWrites).mpr sameLast_orderlyWrites, fun query => ?_⟩
  exact hcompile orderlyWrites "post" (sameLast_orderlyWrites "post") () Tree.backend query

end Criteria.Registry
