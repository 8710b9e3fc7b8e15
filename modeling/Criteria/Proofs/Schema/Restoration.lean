import Criteria.Proofs.Json.Records
import Criteria.Proofs.Json.Trees
import Criteria.Proofs.Schema.Loading

/-!
Definitions that are written and read again. What the writer leaves out is what the reader puts
back, so that definitions come back as they were.
-/

namespace Criteria

open Json (ReadError Reader Source Fits Written)

/-- An operation that is written as its name is read back, whatever stands for no argument. -/
theorem Operation.read_name (bare : Source → Bool) (op : Operation) :
    Operation.read bare (Source.ofJson (.str op.name)) = .ok op := by
  rw [Source.ofJson, Operation.read, Operation.ofName?_name]
  rfl

namespace FieldDefinition

theorem readEntries_of_kind {kind : Kind} {entries : List (String × Json)}
    (h : "kind" ∉ entries.map (·.1)) :
    readEntries true (some kind) (Source.ofEntries entries) = .ok (kind, entries) := by
  induction entries with
  | nil => rfl
  | cons entry rest ih =>
      simp only [List.map_cons, List.mem_cons, not_or] at h
      obtain ⟨hfirst, hrest⟩ := h
      rw [Source.ofEntries, readEntries, if_neg (Ne.symm hfirst), Source.content_ofJson, ih hrest]
      rfl

/-- A field is read by its kind: once the kind is known, the other entries are read as the fields of
that kind. -/
theorem read_of_kind {name : String} {kind : Kind} {fields : Source.Fields Part}
    {build : List Part → Except ReadError FieldDefinition}
    (hkind : Kind.read (.str (some name)) = .ok kind)
    (hbuild : ∀ content, ofContent kind content =
      Json.readValue (fun source => do build (← Source.record fields source)) content)
    (hfields : ("kind" :: fields.map (·.1)).Nodup) {entries : List (String × Json)}
    {parts : List Part} {definition : FieldDefinition} (hwrites : fields.Writes entries parts)
    (hparts : build parts = .ok definition) :
    read (Source.ofJson (.obj (("kind", .str name) :: entries))) = .ok definition := by
  obtain ⟨hnew, hdistinct⟩ := List.nodup_cons.mp hfields
  have hread : readEntries true none (Source.ofEntries (("kind", .str name) :: entries)) =
      .ok (kind, entries) := by
    rw [Source.ofEntries, readEntries, if_pos rfl, Source.ofJson, hkind]
    exact readEntries_of_kind fun hmem => hnew (hwrites.keys_sublist.subset hmem)
  have hcontent : ofContent kind (.obj entries) = .ok definition := by
    rw [hbuild, Json.readValue, hwrites.record_eq hdistinct]
    exact congrArg (Except.mapError _) hparts
  rw [Source.ofJson, read, hread]
  exact hcontent

/-- What the list of permitted operations is read as; an empty one is not there. -/
def permittedParts (permitted : List Operation) : List Part :=
  if permitted.isEmpty then [] else [.permitted permitted]

/-- What the parts of a definition are read as that are there. -/
def givenParts : FieldDefinition → List Part
  | .plain name field =>
    .name name :: (field.column.map fun column => Part.column (some column)).toList
      ++ permittedParts field.permitted
  | .relation name related =>
    [.name name, .matchColumn related.matchColumn, .table related.table, .key related.key,
      .value related.value] ++ permittedParts related.permitted

theorem writes_permitted (permitted : List Operation) :
    Source.Fields.Writes [("operators", permittedPart)] (permittedEntry permitted)
      (permittedParts permitted) := by
  rw [permittedEntry, permittedParts]
  split
  next => exact .absent _ .nil
  next =>
    refine .present ?_ .nil
    rw [permittedPart, Source.list_ofJson fun op _ => Operation.read_name _ op]
    rfl

theorem plainOf_givenParts (name : String) (field : ColumnField) :
    plainOf (givenParts (.plain name field)) = .ok (.plain name field) := by
  obtain ⟨column, permitted⟩ := field
  cases column <;> cases permitted <;> rfl

theorem relationOf_givenParts (name : String) (related : Relation) :
    relationOf (givenParts (.relation name related)) = .ok (.relation name related) := by
  obtain ⟨matchColumn, table, key, value, permitted⟩ := related
  cases permitted <;> rfl

theorem read_toJson (definition : FieldDefinition) :
    read (Source.ofJson definition.toJson) = .ok definition := by
  cases definition with
  | plain name field =>
      have hwrites : plainReaders.Writes
          (("name", .str name) :: (field.column.map fun column => ("column", .str column)).toList
            ++ permittedEntry field.permitted) (givenParts (.plain name field)) :=
        .present rfl <| .optional .str (fun column => .column (some column)) (fun _ => rfl) _ <|
          writes_permitted field.permitted
      exact read_of_kind rfl (fun _ => rfl) (by decide) hwrites (plainOf_givenParts name field)
  | relation name related =>
      have hwrites : relationReaders.Writes
          ([("name", .str name), ("match", .str related.matchColumn),
            ("table", .str related.table), ("key", .str related.key),
            ("value", .str related.value)] ++ permittedEntry related.permitted)
          (givenParts (.relation name related)) :=
        .present rfl <| .present rfl <| .present rfl <| .present rfl <| .present rfl <|
          writes_permitted related.permitted
      exact read_of_kind rfl (fun _ => rfl) (by decide) hwrites (relationOf_givenParts name related)

end FieldDefinition

theorem ModelDefinition.read_toJson (model : ModelDefinition) :
    read (Source.ofJson model.toJson) = .ok model := by
  have hfields : Source.list FieldDefinition.read
      (Source.ofJson (.arr (model.fields.map FieldDefinition.toJson))) = .ok model.fields :=
    Source.list_ofJson fun definition _ => definition.read_toJson
  have hwrites : partReaders.Writes
      [("name", .str model.name), ("table", .str model.table),
        ("primary_key", .str model.primaryKey),
        ("fields", .arr (model.fields.map FieldDefinition.toJson))]
      [.name model.name, .table model.table, .primaryKey model.primaryKey,
        .fields model.fields] :=
    .present rfl <| .present rfl <| .present rfl <|
      .present (congrArg (Except.map Part.fields) hfields) .nil
  rw [toJson, read, hwrites.record_eq (by decide)]
  rfl

namespace Schema

theorem read_toJson (schema : Schema) : read (Source.ofJson schema.toJson) = .ok schema := by
  have hmodels : Source.list ModelDefinition.read
      (Source.ofJson (.arr (schema.models.map ModelDefinition.toJson))) = .ok schema.models :=
    Source.list_ofJson fun model _ => model.read_toJson
  have hwrites : Source.Fields.Writes [("models", Source.list ModelDefinition.read)]
      [("models", .arr (schema.models.map ModelDefinition.toJson))] [schema.models] :=
    .present hmodels .nil
  rw [toJson, read, hwrites.record_eq (by decide)]
  exact congrArg (fun models => Except.ok (Schema.mk models)) (List.flatten_singleton)

end Schema

theorem fits_permittedEntry (permitted : List Operation) :
    ∀ entry ∈ permittedEntry permitted, Fits 1 entry.2 := by
  rw [permittedEntry]
  split
  next => nofun
  next =>
    rw [List.forall_mem_singleton]
    exact .arr (List.forall_mem_map.mpr fun op _ => .str op.name)

/-- A written field is two levels deep at most, its list of permitted operations included. -/
theorem FieldDefinition.fits_toJson (definition : FieldDefinition) : Fits 2 definition.toJson := by
  cases definition with
  | plain name field =>
      have hcolumn : ∀ entry ∈ (field.column.map fun column => ("column", Json.str column)).toList,
          Fits 1 entry.2 := Json.fits_entry fun column _ => .str column
      refine .obj (List.forall_mem_append.mpr ⟨List.forall_mem_append.mpr ⟨?_, hcolumn⟩,
        fits_permittedEntry field.permitted⟩)
      simp [Fits.str]
  | relation name related =>
      refine .obj (List.forall_mem_append.mpr ⟨?_, fits_permittedEntry related.permitted⟩)
      simp [Fits.str]

theorem ModelDefinition.fits_toJson (model : ModelDefinition) : Fits 4 model.toJson := by
  have hfields : Fits 3 (.arr (model.fields.map FieldDefinition.toJson)) :=
    .arr (List.forall_mem_map.mpr fun definition _ => definition.fits_toJson)
  exact .obj (by simp [Fits.str, hfields])

namespace Schema

theorem fits_toJson (schema : Schema) : Fits 6 schema.toJson := by
  have hmodels : Fits 5 (.arr (schema.models.map ModelDefinition.toJson)) :=
    .arr (List.forall_mem_map.mpr fun model _ => model.fits_toJson)
  exact .obj (List.forall_mem_singleton.mpr hmodels)

/-- The printed text of definitions is a text of what was printed. They are never nested too deeply
to be read. -/
theorem written_text (schema : Schema) : Written schema.toJson.text schema.toJson :=
  Json.written_text (schema.fits_toJson.mono (by decide))

/-- From a text of definitions the definitions are read and then checked for repeated names, as from
any other text. -/
theorem ofText_of_written {schema : Schema} {text : String} (h : Written text schema.toJson) :
    ofText text = schema.validate :=
  ofText_of_read (Json.readText_of_written h schema.read_toJson)

theorem ofText_of_distinct {schema : Schema} (hdistinct : (schema.models.map (·.name)).Nodup)
    {text : String} (h : Written text schema.toJson) : ofText text = .ok schema :=
  (ofText_of_written h).trans (validate_eq_ok.mpr ⟨rfl, hdistinct⟩)

/-- Definitions come back from what is written of them, as they were: as a value whatever their
names, and from every text of it, such as the one that is printed, if the names are distinct. The
definitions of an accepted text come back in the same way, whatever its form was. They are printed
as the same text again, and put the same models into a registry. -/
theorem restored_from_text {ι : Type} {E : ι → Type} :
    (∀ schema : Schema, Json.readValue read schema.toJson = .ok schema ∧
      Written schema.toJson.text schema.toJson) ∧
    (∀ schema : Schema, (schema.models.map (·.name)).Nodup →
      ∀ text, Written text schema.toJson → ofText text = .ok schema) ∧
    ∀ (text : String) (schema : Schema), ofText text = .ok schema →
      ∀ written, Written written schema.toJson → ∃ reread, ofText written = .ok reread ∧
        reread = schema ∧ reread.toJson.text = schema.toJson.text ∧
        ∀ (registry : Registry E) (name : String),
          (reread.addTo registry).model? name = (schema.addTo registry).model? name := by
  refine ⟨fun schema => ⟨?value, schema.written_text⟩, fun schema hdistinct text hwritten =>
    ofText_of_distinct hdistinct hwritten, fun text schema htext written hwritten => ?reread⟩
  case value =>
    rw [Json.readValue, schema.read_toJson]
    rfl
  case reread =>
    have hreread := ofText_of_distinct (distinct_of_ofText htext) hwritten
    exact ⟨schema, hreread, rfl, rfl, fun _ _ => rfl⟩

/-- Posts with a title that permits the same operation twice, a date under another name, and
tags. -/
def taggedPosts : Schema where
  models := [
    { name := "post", table := "posts", primaryKey := "key",
      fields := [.plain "title" { permitted := [.like, .eq, .like] },
        .plain "joined" { column := some "created_at" },
        .relation "tag" { matchColumn := "id", table := "tags", key := "post", value := "name" }] },
    { name := "tag", table := "tags", primaryKey := "id", fields := [] }]

/-- A model without fields, in a text with blanks and an escape. -/
def spacedDefinitions : String :=
  "\x7b\"models\": [ \x7b\"name\": \"p\\u006fst\", \"table\": \"posts\", \"primary_key\": \"id\", "
    ++ "\"fields\": []\x7d ]\x7d"

/-- Definitions come back as they were, repeated operations included, and a text that was written
elsewhere is read the same after it is written anew. -/
theorem restored_from_text_posts :
    (∃ text, ofText text = .ok taggedPosts) ∧
    ofText spacedDefinitions = .ok ⟨[⟨"post", "posts", "id", []⟩]⟩ ∧
    ∃ schema, ofText postDefinitions = .ok schema ∧ ofText schema.toJson.text = .ok schema := by
  obtain ⟨hvalue, hdistinct, haccepted⟩ := restored_from_text (E := fun _ : Unit => Tree)
  obtain ⟨schema, hschema⟩ : ∃ schema, ofText postDefinitions = .ok schema :=
    exists_of_isOk (by decide +kernel)
  have hspaced : Written spacedDefinitions (toJson ⟨[⟨"post", "posts", "id", []⟩]⟩) := by rfl
  obtain ⟨reread, hreread, rfl, -⟩ := haccepted _ schema hschema _ (hvalue schema).2
  exact ⟨⟨_, hdistinct taggedPosts (by decide) _ (hvalue taggedPosts).2⟩,
    hdistinct _ (by decide) _ hspaced, _, hschema, hreread⟩

end Schema

end Criteria
