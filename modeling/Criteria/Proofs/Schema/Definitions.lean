import Mathlib.Data.List.Induction
import Mathlib.Data.List.Nodup
import Criteria.Proofs.Registry.Writes
import Criteria.Schema

/-!
Definitions as the writes that loading them makes, and the check that no two of them have the same
name. What is written of a model comes from the definitions of its name alone; under distinct names
that is one definition.
-/

namespace Criteria

variable {ι : Type} {E : ι → Type}

namespace ModelDefinition

/-- The last definition of a field. -/
def lastField? (model : ModelDefinition) (field : String) : Option FieldDefinition :=
  (model.fields.filter (·.name = field)).getLast?

/-- What a definition writes to a registry. -/
def writes (model : ModelDefinition) : List (Registry.Write E) :=
  .bind model.name model.binding ::
    model.fields.map fun field => .addField model.name field.name field.field

theorem addTo_eq_after (model : ModelDefinition) (registry : Registry E) :
    model.addTo registry = registry.after model.writes := by
  rw [addTo, Registry.after, writes, List.foldl_cons, List.foldl_map]
  rfl

theorem model_of_mem_writes {model : ModelDefinition} {w : Registry.Write E}
    (h : w ∈ model.writes) : w.model = model.name := by
  rcases List.mem_cons.mp h with rfl | h
  · rfl
  · obtain ⟨field, -, rfl⟩ := List.mem_map.mp h
    rfl

theorem lastBinding?_writes (model : ModelDefinition) :
    Registry.lastBinding? model.name (model.writes : List (Registry.Write E)) =
      some model.binding := by
  have hfields : (model.fields.map fun field =>
      (.addField model.name field.name field.field : Registry.Write E)).filterMap
        (·.binding? model.name) = [] := by
    simp [List.filterMap_map, Registry.Write.binding?]
  rw [Registry.lastBinding?, last?, writes, List.filterMap_cons, hfields]
  simp [Registry.Write.binding?]

theorem lastField?_writes (model : ModelDefinition) (field : String) :
    Registry.lastField? model.name field (model.writes : List (Registry.Write E)) =
      (model.lastField? field).map FieldDefinition.field := by
  have hfields (fields : List FieldDefinition) :
      (fields.map fun found =>
        (.addField model.name found.name found.field : Registry.Write E)).filterMap
          (·.field? model.name field) =
        (fields.filter (·.name = field)).map FieldDefinition.field := by
    induction fields with
    | nil => rfl
    | cons first rest ih =>
        rw [List.map_cons, List.filterMap_cons, ih, List.filter_cons]
        by_cases same : first.name = field <;> simp [Registry.Write.field?, same]
  rw [Registry.lastField?, last?, writes, List.filterMap_cons, hfields, lastField?,
    ← List.getLast?_map]
  rfl

end ModelDefinition

namespace Schema

def writes (schema : Schema) : List (Registry.Write E) :=
  schema.models.flatMap ModelDefinition.writes

theorem addTo_eq_after (schema : Schema) (registry : Registry E) :
    schema.addTo registry = registry.after schema.writes := by
  rw [addTo, Registry.after, writes, List.foldl_flatMap]
  congr 1
  funext registry model
  exact model.addTo_eq_after registry

theorem mentions_writes {schema : Schema} {name : String} :
    Registry.Mentions name (schema.writes : List (Registry.Write E)) ↔
      ∃ definition ∈ schema.models, definition.name = name := by
  constructor
  · rintro ⟨w, hw, rfl⟩
    obtain ⟨definition, hmem, hw⟩ := List.mem_flatMap.mp hw
    exact ⟨definition, hmem, (ModelDefinition.model_of_mem_writes hw).symm⟩
  · rintro ⟨definition, hmem, rfl⟩
    exact ⟨_, List.mem_flatMap.mpr ⟨definition, hmem, .head _⟩, rfl⟩

/-- Only the definitions of its name have a part in what is written of a model, so all others can be
left out. -/
theorem last?_writes {α : Type} {part : Registry.Write E → Option α} {name : String}
    (hpart : ∀ w, w.model ≠ name → part w = none) (schema : Schema) :
    last? part schema.writes = last? part
      ((schema.models.filter (·.name = name)).flatMap ModelDefinition.writes) := by
  rw [last?, last?, writes]
  congr 1
  induction schema.models with
  | nil => rfl
  | cons definition rest ih =>
      rw [List.flatMap_cons, List.filterMap_append, ih, List.filter_cons]
      by_cases same : definition.name = name
      · simp [same, List.filterMap_append]
      · have hnone : definition.writes.filterMap part = [] :=
          List.filterMap_eq_nil_iff.mpr fun w hw =>
            hpart w (by rwa [ModelDefinition.model_of_mem_writes hw])
        simp [same, hnone]

/-- The last writes of a model are those of its definitions: definitions of other names have no part
in it, wherever they stand. -/
theorem sameLast_filter (schema : Schema) (name : String) :
    Registry.SameLast name (schema.writes : List (Registry.Write E))
      (writes ⟨schema.models.filter (·.name = name)⟩) := by
  refine ⟨?_, last?_writes (fun w hw => ?_) schema,
    fun field => last?_writes (fun w hw => ?_) schema⟩
  · rw [mentions_writes, mentions_writes]
    simp
  · cases w with
    | bind model binding => simpa [Registry.Write.binding?, Registry.Write.model] using hw
    | addField => rfl
  · cases w with
    | bind => rfl
    | addField model added how =>
        have hne : model ≠ name := hw
        simp [Registry.Write.field?, hne]

/-- Distinct names that have not been seen are passed over. -/
theorem firstRepeat?_append {seen front rest : List String} (hnodup : front.Nodup)
    (hapart : ∀ name ∈ front, name ∉ seen) :
    firstRepeat? seen (front ++ rest) = firstRepeat? (front.reverse ++ seen) rest := by
  induction front generalizing seen with
  | nil => rfl
  | cons first front ih =>
      obtain ⟨hfirst, hnodup⟩ := List.nodup_cons.mp hnodup
      obtain ⟨hseen, hapart⟩ := List.forall_mem_cons.mp hapart
      have hnew : ∀ name ∈ front, name ∉ first :: seen := by
        intro name hmem
        rw [List.mem_cons, not_or]
        exact ⟨fun heq => hfirst (heq ▸ hmem), hapart name hmem⟩
      rw [List.cons_append, firstRepeat?, if_neg (by simpa using hseen), ih hnodup hnew]
      simp

/-- Names are distinct, or one of them stands behind distinct ones and is among them. -/
theorem nodup_or_repeats (names : List String) :
    names.Nodup ∨ ∃ front name back, names = front ++ name :: back ∧ front.Nodup ∧
      name ∈ front := by
  induction names using List.reverseRecOn with
  | nil => exact .inl .nil
  | append_singleton names last ih =>
      rcases ih with hnodup | ⟨front, name, back, rfl, hnodup, hmem⟩
      · by_cases hmem : last ∈ names
        · exact .inr ⟨names, last, [], rfl, hnodup, hmem⟩
        · exact .inl (List.nodup_append_comm.mp (List.nodup_cons.mpr ⟨hmem, hnodup⟩))
      · exact .inr ⟨front, name, back ++ [last], by simp, hnodup, hmem⟩

theorem firstRepeat?_of_nodup {names : List String} (h : names.Nodup) :
    firstRepeat? [] names = none := by
  have happend : firstRepeat? [] (names ++ []) = firstRepeat? (names.reverse ++ []) [] :=
    firstRepeat?_append h (by simp)
  simpa [firstRepeat?] using happend

/-- The first repeated name stands behind distinct ones and is among them, so it is the second place
where it stands that is reported. -/
theorem firstRepeat?_eq_some_iff {names : List String} {name : String} :
    firstRepeat? [] names = some name ↔
      ∃ front back, names = front ++ name :: back ∧ front.Nodup ∧ name ∈ front := by
  have hrepeats {front back : List String} {name : String} (hnodup : front.Nodup)
      (hmem : name ∈ front) : firstRepeat? [] (front ++ name :: back) = some name := by
    rw [firstRepeat?_append hnodup (by simp), firstRepeat?, if_pos (by simpa using hmem)]
  constructor
  · intro h
    rcases nodup_or_repeats names with hnodup | ⟨front, other, back, rfl, hnodup, hmem⟩
    · rw [firstRepeat?_of_nodup hnodup] at h
      cases h
    · rw [hrepeats hnodup hmem] at h
      cases h
      exact ⟨front, back, rfl, hnodup, hmem⟩
  · rintro ⟨front, back, rfl, hnodup, hmem⟩
    exact hrepeats hnodup hmem

theorem duplicate?_eq_none_iff {schema : Schema} :
    schema.duplicate? = none ↔ (schema.models.map (·.name)).Nodup := by
  refine ⟨fun h => ?_, firstRepeat?_of_nodup⟩
  rcases nodup_or_repeats (schema.models.map (·.name)) with
    hnodup | ⟨front, name, back, hnames, hfront⟩
  · exact hnodup
  · rw [duplicate?, firstRepeat?_eq_some_iff.mpr ⟨front, back, hnames, hfront⟩] at h
    cases h

/-- The first definition, in their order, that has the name of an earlier one. -/
def FirstRepeated (schema : Schema) (definition : ModelDefinition) : Prop :=
  ∃ front back, schema.models = front ++ definition :: back ∧ (front.map (·.name)).Nodup ∧
    ∃ earlier ∈ front, earlier.name = definition.name

/-- The name that is reported is that of the first definition whose name was there before. -/
theorem duplicate?_eq_some_iff {schema : Schema} {name : String} :
    schema.duplicate? = some name ↔
      ∃ definition, schema.FirstRepeated definition ∧ definition.name = name := by
  rw [duplicate?, firstRepeat?_eq_some_iff]
  constructor
  · rintro ⟨front, back, hnames, hnodup, hmem⟩
    obtain ⟨front, behind, hmodels, rfl, hbehind⟩ := List.map_eq_append_iff.mp hnames
    obtain ⟨definition, back, rfl, rfl, -⟩ := List.map_eq_cons_iff.mp hbehind
    exact ⟨definition, ⟨front, back, hmodels, hnodup, List.mem_map.mp hmem⟩, rfl⟩
  · rintro ⟨definition, ⟨front, back, hmodels, hnodup, hearlier⟩, rfl⟩
    exact ⟨front.map (·.name), back.map (·.name), by simp [hmodels], hnodup,
      List.mem_map.mpr hearlier⟩

/-- Under distinct names a definition is the only one of its name. -/
theorem filter_name_eq_singleton {schema : Schema} (hdistinct : (schema.models.map (·.name)).Nodup)
    {definition : ModelDefinition} (hmem : definition ∈ schema.models) :
    schema.models.filter (·.name = definition.name) = [definition] := by
  refine List.perm_singleton.mp ((List.perm_ext_iff_of_nodup
    (hdistinct.of_map.filter _) (List.nodup_singleton _)).mpr fun other => ?_)
  rw [List.mem_filter, List.mem_singleton, decide_eq_true_iff]
  constructor
  · rintro ⟨hother, hname⟩
    exact List.inj_on_of_nodup_map hdistinct hother hmem hname
  · rintro rfl
    exact ⟨hmem, rfl⟩

end Schema

end Criteria
