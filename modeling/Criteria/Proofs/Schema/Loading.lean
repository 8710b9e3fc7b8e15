import Criteria.CommandLine.Run
import Criteria.Proofs.Query.Assembly
import Criteria.Proofs.Query.Exposure
import Criteria.Proofs.Schema.Definitions

/-!
Loading definitions into a registry. Definitions are loaded in order, and the last write counts,
while they are looked up from the front: the two agree because no two definitions that pass the
check have the same name. Fields may repeat inside a definition, and there the last one counts. So
a statement that is printed reads from the table that its model's columns are qualified by.
-/

namespace Criteria

variable {ι : Type} {E : ι → Type}

namespace Schema

/-- How a registry differs after definitions have been loaded into it. -/
structure Loaded (schema : Schema) (before after : Registry E) : Prop where
  /-- A definition is the only one of its name, and it is the one that its name leads to. -/
  only : ∀ definition ∈ schema.models,
    schema.models.filter (·.name = definition.name) = [definition] ∧
      schema.model? definition.name = some definition
  /-- A model is bound as its definition says, and its fields are the last ones of their names
  there; the fields that the definition leaves out stay. -/
  model : ∀ definition ∈ schema.models, ∃ model, after.model? definition.name = some model ∧
    model.binding = some definition.binding ∧
    ∀ field, model.fields.get? field =
      ((definition.lastField? field).map FieldDefinition.field).or
        (before.field? definition.name field)
  others : ∀ name, (∀ definition ∈ schema.models, definition.name ≠ name) →
    after.model? name = before.model? name

section Distinct

variable {schema : Schema} (hdistinct : (schema.models.map (·.name)).Nodup)
include hdistinct

theorem model?_of_mem {definition : ModelDefinition} (hmem : definition ∈ schema.models) :
    schema.model? definition.name = some definition := by
  rw [Schema.model?, ← List.head?_filter, filter_name_eq_singleton hdistinct hmem]
  rfl

theorem sameLast_of_mem {definition : ModelDefinition} (hmem : definition ∈ schema.models) :
    Registry.SameLast definition.name (schema.writes : List (Registry.Write E))
      definition.writes := by
  have h := sameLast_filter (E := E) schema definition.name
  rw [filter_name_eq_singleton hdistinct hmem] at h
  simpa [writes] using h

/-- A definition that is loaded decides the binding of its model and the fields that it has. Fields
that the registry knew besides are kept. -/
theorem model?_addTo_of_mem (registry : Registry E) {definition : ModelDefinition}
    (hmem : definition ∈ schema.models) :
    ∃ model, (schema.addTo registry).model? definition.name = some model ∧
      model.binding = some definition.binding ∧
      ∀ field, model.fields.get? field =
        ((definition.lastField? field).map FieldDefinition.field).or
          (registry.field? definition.name field) := by
  rw [addTo_eq_after, (sameLast_of_mem hdistinct hmem).model?_after]
  have hknown : (registry.after definition.writes).contains definition.name :=
    (Registry.contains_after _ _ _).mpr (.inl ⟨_, .head _, rfl⟩)
  obtain ⟨model, hmodel⟩ := Option.isSome_iff_exists.mp hknown
  refine ⟨model, hmodel, ?_, fun field => ?_⟩
  · rw [← Registry.binding?_of_model? hmodel, Registry.binding?_after,
      definition.lastBinding?_writes]
    rfl
  · rw [← Registry.field?_of_model? hmodel, Registry.field?_after, definition.lastField?_writes]

end Distinct

theorem model?_addTo_of_forall_ne {schema : Schema} (registry : Registry E) {name : String}
    (h : ∀ definition ∈ schema.models, definition.name ≠ name) :
    (schema.addTo registry).model? name = registry.model? name := by
  have hnone : schema.models.filter (·.name = name) = [] :=
    List.filter_eq_nil_iff.mpr fun definition hmem => by simpa using h definition hmem
  rw [addTo_eq_after, (schema.sameLast_filter name).model?_after, hnone]
  rfl

theorem loaded_addTo {schema : Schema} (hdistinct : (schema.models.map (·.name)).Nodup)
    (registry : Registry E) : schema.Loaded registry (schema.addTo registry) where
  only _ hmem := ⟨filter_name_eq_singleton hdistinct hmem, model?_of_mem hdistinct hmem⟩
  model _ := model?_addTo_of_mem hdistinct registry
  others _ := model?_addTo_of_forall_ne registry

/-- Loading definitions a second time changes nothing, whatever the registry knew before. -/
theorem addTo_addTo (schema : Schema) (registry : Registry E) :
    schema.addTo (schema.addTo registry) = schema.addTo registry := by
  calc schema.addTo (schema.addTo registry)
      = registry.after (schema.writes ++ schema.writes) := by
        rw [addTo_eq_after, addTo_eq_after, Registry.after, Registry.after, Registry.after,
          List.foldl_append]
    _ = registry.after schema.writes := Registry.after_append_self registry schema.writes
    _ = schema.addTo registry := (schema.addTo_eq_after registry).symm

/-- Under distinct names the order of definitions makes no difference. With a repeated name the
later definition would win, so it would. -/
theorem addTo_perm {schema schema' : Schema} (hdistinct : (schema.models.map (·.name)).Nodup)
    (hperm : schema'.models.Perm schema.models) (registry : Registry E) :
    schema'.addTo registry = schema.addTo registry := by
  refine Registry.eq_of_model? fun name => ?_
  by_cases hname : ∃ definition ∈ schema.models, definition.name = name
  · obtain ⟨definition, hmem, rfl⟩ := hname
    have hdistinct' : (schema'.models.map (·.name)).Nodup :=
      (hperm.map _).nodup_iff.mpr hdistinct
    rw [addTo_eq_after, addTo_eq_after, (sameLast_of_mem hdistinct hmem).model?_after,
      (sameLast_of_mem hdistinct' (hperm.mem_iff.mpr hmem)).model?_after]
  · simp only [not_exists, not_and] at hname
    rw [model?_addTo_of_forall_ne _ hname, model?_addTo_of_forall_ne]
    exact fun definition hmem => hname definition (hperm.mem_iff.mp hmem)

theorem contains_toRegistry {schema : Schema} {name : String} :
    (schema.toRegistry : Registry E).contains name ↔
      ∃ definition ∈ schema.models, definition.name = name := by
  rw [toRegistry, addTo_eq_after, Registry.contains_after_empty, mentions_writes]

/-- Definitions have no custom fields, so every model that comes from them is a stored one. -/
theorem isStored_toRegistry {schema : Schema} (hdistinct : (schema.models.map (·.name)).Nodup)
    {name : String} {model : Model E}
    (h : (schema.toRegistry : Registry E).model? name = some model) : model.IsStored := by
  obtain ⟨definition, hmem, rfl⟩ := contains_toRegistry.mp (Option.isSome_iff_exists.mpr ⟨model, h⟩)
  obtain ⟨loaded, hloaded, -, hfields⟩ := model?_addTo_of_mem hdistinct (∅ : Registry E) hmem
  obtain rfl : loaded = model := Option.some.inj (hloaded.symm.trans h)
  intro field handlers hcustom
  rw [hfields] at hcustom
  cases hlast : definition.lastField? field with
  | none =>
      rw [hlast] at hcustom
      cases hcustom
  | some found =>
      rw [hlast] at hcustom
      cases found <;> cases hcustom

theorem validate_eq_ok {schema checked : Schema} :
    schema.validate = .ok checked ↔ checked = schema ∧ (schema.models.map (·.name)).Nodup := by
  rw [validate, ← duplicate?_eq_none_iff]
  cases schema.duplicate? with
  | none => simp [eq_comm]
  | some name => simp

/-- Definitions are refused only for a name that is repeated, and the first repetition is
reported. -/
theorem validate_eq_error {schema : Schema} {error : SchemaError} :
    schema.validate = .error error ↔
      ∃ definition, schema.FirstRepeated definition ∧ error = .duplicateModel definition.name := by
  have hsome {definition : ModelDefinition} (h : schema.FirstRepeated definition) :
      schema.duplicate? = some definition.name := duplicate?_eq_some_iff.mpr ⟨definition, h, rfl⟩
  rw [validate]
  constructor
  · intro h
    split at h
    next => cases h
    next name hduplicate =>
      obtain ⟨definition, hfirst, rfl⟩ := duplicate?_eq_some_iff.mp hduplicate
      cases h
      exact ⟨definition, hfirst, rfl⟩
  · rintro ⟨definition, hfirst, rfl⟩
    rw [hsome hfirst]

/-- A text that holds definitions is checked for their names. -/
theorem ofText_of_read {text : String} {schema : Schema}
    (h : Json.readText read text = .ok schema) : ofText text = schema.validate := by
  rw [ofText, h]
  rfl

theorem distinct_of_ofText {text : String} {schema : Schema} (h : ofText text = .ok schema) :
    (schema.models.map (·.name)).Nodup := by
  obtain ⟨found, -, hvalid⟩ := bind_eq_ok.mp h
  obtain ⟨rfl, hdistinct⟩ := validate_eq_ok.mp hvalid
  exact hdistinct

end Schema

namespace CommandLine

/-- What a statement is made from: the definition of a model, the model as a registry has it, and a
query on it. -/
structure Sources where
  schema : Schema
  definition : ModelDefinition
  scope : Scope Expressions
  query : Query
  compiled : CompiledQuery Sql.Expr Sql.OrderTerm

/-- The statement of the compiled query over the table of the definition. -/
def Sources.select (sources : Sources) : Sql.Select :=
  .ofCompiled sources.definition.binding sources.compiled

/-- The columns of a table are printed behind its name, both in quotes, so the text alone shows
which table a column is taken from. -/
theorem sql_render_column (table column : String) (d : Sql.Dialect) :
    ((Sql.Expr.column (some table) column).render d).sql =
      d.quoteName table ++ "." ++ d.quoteName column := by
  rw [Sql.Expr.render_eq, Sql.Statement.ofFragments_eq]
  simp [Sql.Expr.fragments, String.append_assoc]

theorem Sources.table_select (sources : Sources) :
    sources.select.table = some sources.definition.table := by
  rw [Sources.select]
  by_cases hcount : sources.compiled.isCount
  · rw [Sql.Select.ofCompiled_of_count hcount]
    rfl
  · rw [Sql.Select.ofCompiled_of_rows hcount]
    rfl

/-- True of the sources that the options lead to, given the text of the file. -/
structure Sources.Of (sources : Sources) (file? : Option String) (o : CompileOptions) : Prop where
  file : Schema.ofFile file? = .ok sources.schema
  found : sources.schema.model? o.model = some sources.definition
  registered : (sources.schema.toRegistry : Registry Expressions).scope o.model = .ok sources.scope
  asked : o.toQuery = .ok sources.query
  compiles : sources.query.compile Sql.backend (sources.scope.resolve none Sql.backend) =
    .ok sources.compiled

/-- What `compile` prints is the statement of some sources: the definitions, the definition of the
model, and the query that was compiled in its scope. -/
theorem exists_sources_of_run {file? : Option String} {o : CompileOptions} {output : String}
    (h : Command.run file? (.compile o) = .ok output) :
    ∃ sources : Sources, sources.Of file? o ∧
      output = (sources.select.render o.dialect).toJson.pretty ++ "\n" := by
  obtain ⟨statement, hstatement, heq⟩ := bind_eq_ok.mp h
  cases heq
  obtain ⟨query, hquery, h⟩ := bind_eq_ok.mp hstatement
  obtain ⟨⟨schema, definition⟩, hload, h⟩ := bind_eq_ok.mp h
  obtain ⟨compiled, hcompiled, heq⟩ := bind_eq_ok.mp h
  cases heq
  obtain ⟨found, hfile, hfound⟩ := bind_eq_ok.mp hload
  split at hfound
  next model hmodel =>
    cases hfound
    obtain ⟨scope, hscope, hcompile⟩ := bind_eq_ok.mp (mapError_eq_ok.mp hcompiled)
    exact ⟨⟨schema, definition, scope, query, compiled⟩,
      ⟨mapError_eq_ok.mp hfile, hmodel, hscope, hquery, hcompile⟩, rfl⟩
  next => cases hfound

namespace Sources.Of

variable {sources : Sources} {file? : Option String} {o : CompileOptions} (h : sources.Of file? o)
include h

theorem model? : (sources.schema.toRegistry : Registry Expressions).model? o.model =
    some sources.scope.model := by
  have hregistered := h.registered
  rw [Registry.scope] at hregistered
  split at hregistered
  next model hmodel =>
    obtain hscope := Except.ok.inj hregistered
    rw [hmodel, ← hscope]
  next => cases hregistered

theorem distinct : (sources.schema.models.map (·.name)).Nodup := by
  have hfile := h.file
  cases file? with
  | none => cases hfile
  | some text => exact Schema.distinct_of_ofText hfile

/-- The definition that was looked up is the one that was loaded, so the statement reads from the
table that the compiler qualifies its columns by. -/
theorem binding : sources.scope.model.binding = some sources.definition.binding := by
  have hmem := List.mem_of_find?_eq_some h.found
  have hname : sources.definition.name = o.model := by simpa using List.find?_some h.found
  obtain ⟨model, hmodel, hbinding, -⟩ :=
    Schema.model?_addTo_of_mem h.distinct (∅ : Registry Expressions) hmem
  rw [hname] at hmodel
  rw [← hbinding, Option.some.inj (h.model?.symm.trans hmodel)]

theorem operand_eq {name : String} {field : ResolvedField (Expressions none)}
    (hfield : sources.scope.resolve none Sql.backend name = .ok field) :
    ∃ column, field.operand = .column (some sources.definition.table) column := by
  have hbinding := h.binding
  cases Scope.resolve_eq_ok.mp hfield with
  | @plain column found =>
      refine ⟨column.column.getD name, ?_⟩
      rw [ResolvedField.operand, Scope.plainColumn, hbinding]
      rfl
  | relation found bound =>
      cases hbinding.symm.trans bound
      exact ⟨_, rfl⟩
  | custom found bound =>
      cases hbinding.symm.trans bound
      exact ⟨_, rfl⟩

theorem stored : sources.scope.model.IsStored :=
  Schema.isStored_toRegistry h.distinct h.model?

theorem mentionsOnly_filter {filter : Sql.Expr} (hfilter : sources.compiled.filter = some filter) :
    filter.MentionsOnly
      (sources.query.Exposes sources.scope.model sources.definition.table) := by
  obtain ⟨hcompile, -⟩ := Query.compile_eq_ok.mp h.compiles
  rw [hfilter] at hcompile
  exact Query.mentionsOnly_filter h.stored h.binding hcompile

theorem mentionsOnly_order {sorts : List Sql.OrderTerm}
    (horder : sources.compiled.order = some sorts) {sort : Sql.OrderTerm} (hmem : sort ∈ sorts) :
    sort.expr.MentionsOnly
      (sources.query.Exposes sources.scope.model sources.definition.table) := by
  obtain ⟨-, hcompile, -⟩ := Query.compile_eq_ok.mp h.compiles
  rw [horder] at hcompile
  exact Query.mentionsOnly_order h.binding hcompile hmem

end Sources.Of

end CommandLine

/-- Definitions that pass the check are found by their names as they are loaded, whatever the
registry held before, and it makes no difference to load them twice or in another order. Of the
texts that hold definitions the check refuses those in which a name repeats, and reports the first
that does. A statement that is printed reads from the table of the definition, and the columns of
the model in it are qualified by the same table; so does its text, which is put together from that
table's name and the rendered filter and order. -/
theorem loading_consistent :
    (∀ (text : String) (schema : Schema), Schema.ofText text = .ok schema →
      ∀ registry : Registry E,
        schema.Loaded registry (schema.addTo registry) ∧
        schema.addTo (schema.addTo registry) = schema.addTo registry ∧
        (∀ schema' : Schema, schema'.models.Perm schema.models →
          schema'.addTo registry = schema.addTo registry) ∧
        ∀ name, (schema.toRegistry : Registry E).contains name ↔
          ∃ definition ∈ schema.models, definition.name = name) ∧
    (∀ (text : String) (schema : Schema), Json.readText Schema.read text = .ok schema →
      (Schema.ofText text = .ok schema ↔ (schema.models.map (·.name)).Nodup) ∧
      ∀ error, Schema.ofText text = .error error ↔
        ∃ definition, schema.FirstRepeated definition ∧
          error = .duplicateModel definition.name) ∧
    ∀ (file? : Option String) (o : CommandLine.CompileOptions) (output : String),
      CommandLine.Command.run file? (.compile o) = .ok output →
      ∃ sources : CommandLine.Sources, sources.Of file? o ∧
        output = (sources.select.render o.dialect).toJson.pretty ++ "\n" ∧
        sources.select.table = some sources.definition.table ∧
        sources.select.render o.dialect =
          sources.query.assemble o.dialect sources.definition.table
            (sources.compiled.filter.map (·.render o.dialect))
            (sources.compiled.order.map (Sql.renderOrder o.dialect)) ∧
        (∀ name field, sources.scope.resolve none Sql.backend name = .ok field →
          ∃ column, field.operand = .column (some sources.definition.table) column ∧
            (Sql.Expr.render o.dialect field.operand).sql =
              o.dialect.quoteName sources.definition.table ++ "." ++ o.dialect.quoteName column) ∧
        (∀ filter ∈ sources.compiled.filter, filter.MentionsOnly
          (sources.query.Exposes sources.scope.model sources.definition.table)) ∧
        ∀ sorts ∈ sources.compiled.order, ∀ sort ∈ sorts, sort.expr.MentionsOnly
          (sources.query.Exposes sources.scope.model sources.definition.table) := by
  refine ⟨fun text schema htext registry => ?_, fun text schema htext => ?_,
    fun file? o output h => ?_⟩
  · have hdistinct := Schema.distinct_of_ofText htext
    exact ⟨Schema.loaded_addTo hdistinct registry, schema.addTo_addTo registry,
      fun schema' hperm => Schema.addTo_perm hdistinct hperm registry,
      fun name => Schema.contains_toRegistry⟩
  · rw [Schema.ofText_of_read htext]
    exact ⟨by simp [Schema.validate_eq_ok], fun error => Schema.validate_eq_error⟩
  · obtain ⟨sources, hsources, houtput⟩ := CommandLine.exists_sources_of_run h
    refine ⟨sources, hsources, houtput, sources.table_select,
      Query.render_ofCompiled hsources.compiles _ o.dialect, fun name field hfield => ?_,
      fun _ => hsources.mentionsOnly_filter, fun _ horder _ => hsources.mentionsOnly_order horder⟩
    obtain ⟨column, hcolumn⟩ := hsources.operand_eq hfield
    refine ⟨column, hcolumn, ?_⟩
    rw [hcolumn, CommandLine.sql_render_column]

/-- Posts, whose title is defined twice, and tags. -/
def postDefinitions : String :=
  "[[[\"post\", \"posts\", \"id\", [[\"plain\", \"title\"], "
    ++ "[\"plain\", \"title\", \"headline\"]]], [\"tag\", \"tags\"]]]"

/-- Posts are repeated first, behind other tags than those that come last. -/
def repeatedDefinitions : String :=
  "[[[\"tag\", \"tags\"], [\"post\", \"posts\"], [\"post\", \"drafts\"], [\"tag\", \"labels\"]]]"

/-- The posts of one title. -/
def titledPosts : CommandLine.CompileOptions where
  config := "models.json"
  model := "post"
  filter := some "\x7b\"title\": \"x\"\x7d"

/-- What is printed for them. The title is stored where its last definition says. -/
def printedPosts : String :=
  "\x7b\n  \"sql\": \"SELECT * FROM \\\"posts\\\" "
    ++ "WHERE (\\\"posts\\\".\\\"headline\\\" = $1)\",\n"
    ++ "  \"params\": [\n    \"x\"\n  ]\n\x7d\n"

/-- The printed text is that of a statement which reads from the table of the loaded definition, put
together from the parts as they are rendered by themselves. -/
theorem loading_consistent_posts :
    (∃ schema, Schema.ofText postDefinitions = .ok schema ∧
      ∀ registry : Registry fun _ : Unit => Tree,
        schema.Loaded registry (schema.addTo registry)) ∧
    (∃ schema definition, Json.readText Schema.read repeatedDefinitions = .ok schema ∧
      schema.FirstRepeated definition ∧ definition.name = "post") ∧
    CommandLine.Command.run (some postDefinitions) (.compile titledPosts) = .ok printedPosts ∧
    ∃ sources : CommandLine.Sources, sources.Of (some postDefinitions) titledPosts ∧
      sources.select.table = some sources.definition.table ∧
      ∃ statement : Sql.Statement, printedPosts = statement.toJson.pretty ++ "\n" ∧
        statement = sources.query.assemble .postgres sources.definition.table
          (sources.compiled.filter.map (·.render .postgres))
          (sources.compiled.order.map (Sql.renderOrder .postgres)) := by
  obtain ⟨hload, hcheck, hrun⟩ := loading_consistent (E := fun _ : Unit => Tree)
  obtain ⟨schema, hschema⟩ : ∃ schema, Schema.ofText postDefinitions = .ok schema :=
    exists_of_isOk (by decide +kernel)
  obtain ⟨repeated, hrepeated⟩ : ∃ schema,
      Json.readText Schema.read repeatedDefinitions = .ok schema :=
    exists_of_isOk (by decide +kernel)
  have houtput : CommandLine.Command.run (some postDefinitions) (.compile titledPosts) =
      .ok printedPosts := eq_ok_of_toOption (by decide +kernel)
  have herror : Schema.ofText repeatedDefinitions = .error (.duplicateModel "post") := by
    decide +kernel
  obtain ⟨definition, hfirst, hname⟩ := ((hcheck _ repeated hrepeated).2 _).mp herror
  obtain ⟨sources, hsources, hprinted, htable, hassembled, -⟩ := hrun _ titledPosts _ houtput
  exact ⟨⟨schema, hschema, fun registry => (hload _ schema hschema registry).1⟩,
    ⟨repeated, definition, hrepeated, hfirst, (SchemaError.duplicateModel.inj hname).symm⟩,
    houtput, sources, hsources, htable, _, hprinted, hassembled⟩

end Criteria
