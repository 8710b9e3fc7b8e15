import Criteria.Proofs.Registry.Writes
import Criteria.Proofs.Filter.Outcomes

/-!
What a query depends on. Of a registry it is the model that is asked, and of the model the fields
that the query names, wherever they are named, and the table; the primary key counts only where a
custom field is named. Whatever else is written to a registry makes no difference.
-/

namespace Criteria

namespace Filter

section Resolvers

variable {ε σ : Type} {b : Backend ε σ} {r r' : Resolver ε}

namespace Site

/-- The argument of an operation is its own, given that nested documents are. -/
theorem argument_congr {op : Operation} (name : String) {value : Json}
    (hnested : ∀ q, (Site.applied op name value).Next q → q.outcome b r = q.outcome b r') :
    argument b r op value = argument b r' op value := by
  cases hraw : op.takesRaw with
  | true => simp [argument, hraw]
  | false =>
      have hoperand : operand b r value = operand b r' value := by
        cases value with
        | obj entries => exact hnested _ (.nested hraw name entries)
        | _ => rfl
      simp only [argument, hraw, hoperand]

/-- What an operator comes to depends on the sites that come next and, for a reference, on the field
that it names. -/
theorem stated_congr {op : Operator} {value : Json}
    (hnext : ∀ q, (Site.stated op value).Next q → q.outcome b r = q.outcome b r')
    (hused : ∀ name use, (Site.stated op value).use? = some (name, use) → r name = r' name) :
    condition b r op value = condition b r' op value := by
  match value with
  | .arr items =>
      by_cases hjoins : op.joins
      · have hitems : items.mapM (condition b r .and) = items.mapM (condition b r' .and) :=
          mapM_congr fun item hmem => hnext _ (.item hjoins hmem)
        rw [condition_arr b r hjoins, condition_arr b r' hjoins, hitems]
      · cases op <;> first | rfl | exact absurd rfl hjoins
  | .obj entries =>
      by_cases hjoins : op.joins
      · have hentries : entries.mapM (entryCondition b r) = entries.mapM (entryCondition b r') :=
          mapM_congr fun (key, value) hmem => by
            rw [← outcome_entry, ← outcome_entry, hnext _ (.entry hjoins hmem)]
        rw [condition_obj b r hjoins, condition_obj b r' hjoins, hentries]
      · cases op with
        | field op =>
            have hfields : entries.mapM (fieldCondition b r op) =
                entries.mapM (fieldCondition b r' op) :=
              mapM_congr fun (name, value) hmem => by
                rw [← outcome_applied, ← outcome_applied, hnext _ (.field hmem)]
            rw [condition_field, condition_field, hfields]
        | ref => rfl
        | _ => exact absurd rfl hjoins
  | .str name =>
      cases op with
      | ref => rw [condition, condition, hused name .reference rfl]
      | _ => rfl
  | .null | .bool _ | .num _ => cases op <;> rfl

theorem applied_congr {op : Operation} {name : String} {value : Json}
    (hargument : argument b r op value = argument b r' op value) (hfield : r name = r' name) :
    fieldCondition b r op (name, value) = fieldCondition b r' op (name, value) := by
  rw [fieldCondition_eq, fieldCondition_eq, hargument, hfield]

theorem entry_congr {key : String} {value : Json}
    (hoperator : ∀ op, Operator.ofKey? key = some op →
      condition b r op value = condition b r' op value)
    (hbare : ¬ Operator.hasSigil key →
      argument b r .eq value = argument b r' .eq value ∧ r key = r' key) :
    entryCondition b r (key, value) = entryCondition b r' (key, value) := by
  by_cases hsigil : Operator.hasSigil key
  · cases hkey : Operator.ofKey? key with
    | none =>
        rw [entryCondition_of_unknown b r hsigil hkey, entryCondition_of_unknown b r' hsigil hkey]
    | some op =>
        rw [entryCondition_of_operator b r hkey, entryCondition_of_operator b r' hkey,
          hoperator op hkey]
  · obtain ⟨hargument, hfield⟩ := hbare hsigil
    rw [entryCondition_of_bare b r hsigil, entryCondition_of_bare b r' hsigil, hargument, hfield]

/-- What a site compiles to depends on the sites below it and the field that is named there, so two
resolvers that agree on these make no difference. -/
theorem outcome_congr_of_below {p : Site}
    (hbelow : ∀ q, Relation.TransGen Next p q → q.outcome b r = q.outcome b r')
    (hused : ∀ name use, p.Names name use → r name = r' name) :
    p.outcome b r = p.outcome b r' := by
  cases p with
  | stated op value =>
      exact stated_congr (fun q h => hbelow q (.single h)) fun name use h =>
        hused name use (.here h)
  | entry key value =>
      rw [outcome_entry, outcome_entry]
      refine entry_congr (fun op hkey => hbelow _ (.single (.operator hkey value)))
        fun hbare => ⟨?_, ?_⟩
      -- A bare field is used one step deeper, where its value is nested yet another.
      · exact argument_congr key fun q h => hbelow q (.head (.bare hbare value) (.single h))
      · exact hused key (.operation .eq) (.of_next (.bare hbare value) (.here rfl))
  | applied op name value =>
      rw [outcome_applied, outcome_applied]
      exact applied_congr (argument_congr name fun q h => hbelow q (.single h))
        (hused name (.operation op) (.here rfl))

theorem depth_lt_of_below {p q : Site} (h : Relation.TransGen Next p q) : q.depth < p.depth := by
  induction h with
  | single hnext => exact hnext.depth_lt
  | tail _ hnext ih => exact Nat.lt_trans hnext.depth_lt ih

/-- What a site compiles to depends only on the fields that are named there or deeper, by induction
on the depth of the site. -/
theorem outcome_congr {p : Site} (h : ∀ name use, p.Names name use → r name = r' name) :
    p.outcome b r = p.outcome b r' := by
  refine outcome_congr_of_below (fun q hbelow => ?_) h
  exact outcome_congr fun name use hname =>
    h name use (hname.of_reaches hbelow.to_reflTransGen)
termination_by p.depth
decreasing_by exact depth_lt_of_below hbelow

end Site

/-- A filter depends only on the fields that it names. -/
theorem compile_congr {document : Option Json}
    (h : ∀ name use, Names document name use → r name = r' name) :
    compile b r document = compile b r' document := by
  have hinside {value : Json} (hfilter : IsFilter value) (hdocument : document = some value) :
      compile b r document = compile b r' document := by
    have hcondition : condition b r .and value = condition b r' .and value := by
      refine Site.outcome_congr (p := .stated .and value) fun name use hname => ?_
      obtain ⟨site, hreach, huse⟩ := hname
      exact h name use ⟨site, ⟨value, hdocument, hfilter, hreach⟩, huse⟩
    rw [hdocument, hfilter.compile, hfilter.compile, hcondition]
  match document with
  | none | some .null | some (.obj []) | some (.arr []) => rfl
  | some (.obj (first :: rest)) => exact hinside (.entries first rest) rfl
  | some (.arr (first :: rest)) => exact hinside (.items first rest) rfl
  | some (.bool _) | some (.num _) | some (.str _) => rfl

end Resolvers

end Filter

namespace Order

variable {ε σ : Type} {b : Backend ε σ} {r r' : Resolver ε}

/-- An order depends only on the fields that its entries begin with. -/
theorem compile_congr {document : Option Json}
    (h : ∀ name, Names document name → r name = r' name) :
    compile b r document = compile b r' document := by
  have hterm {entries : List Json} (hdocument : document = some (.arr entries)) :
      ∀ entry ∈ entries, term? b r entry = term? b r' entry := by
    intro entry hmem
    match entry with
    | .obj ((name, value) :: rest) =>
        rw [term?, term?, h name ⟨entries, value, rest, hdocument, hmem⟩]
    | .obj [] | .null | .bool _ | .num _ | .str _ | .arr _ => rfl
  match document with
  | some (.arr entries) =>
      have hcompile (r : Resolver ε) : compile b r (some (.arr entries)) =
          (terms b r entries >>= fun sorts => .ok (if sorts.isEmpty then none else some sorts)) :=
        rfl
      rw [hcompile, hcompile, terms_eq_mapM, terms_eq_mapM, mapM_congr (hterm rfl)]
  | none | some .null => rfl
  | some (.bool _) | some (.num _) | some (.str _) | some (.obj _) => rfl

end Order

/-- A query depends only on the fields that it names, in its filter or in its order, and on nothing
else that a resolver may know. -/
theorem Query.compile_congr {ε σ : Type} {b : Backend ε σ} {r r' : Resolver ε} {query : Query}
    (h : ∀ name use, query.Names name use → r name = r' name) :
    query.compile b r = query.compile b r' := by
  have hfilter : Filter.compile b r query.filter = Filter.compile b r' query.filter :=
    Filter.compile_congr fun name use hname => h name use (.inl hname)
  have horder : Order.compile b r query.order = Order.compile b r' query.order :=
    Order.compile_congr fun name hname => h name .order (.inr ⟨rfl, hname⟩)
  rw [compile, compile, hfilter, horder]

section Registries

variable {ι : Type} [DecidableEq ι] {E : ι → Type} {σ : Type} {i : ι} {b : Backend (E i) σ}

/-- What a field resolves to depends on how it can be filtered and on the model's table. Only a
custom field takes the primary key as well. -/
theorem Scope.resolve_congr {scope scope' : Scope E} {field : String}
    (hname : scope.name = scope'.name)
    (hfield : scope.model.fields.get? field = scope'.model.fields.get? field)
    (htable : scope.model.binding.map (·.table) = scope'.model.binding.map (·.table))
    (hkey : ∀ handlers, scope.model.fields.get? field = some (.custom handlers) →
      scope.model.binding = scope'.model.binding) :
    scope.resolve i b field = scope'.resolve i b field := by
  simp only [resolve, ← hfield]
  cases hhow : scope.model.fields.get? field with
  | none => rfl
  | some how =>
      cases how with
      | plain column => simp only [htable]
      | relation related =>
          -- The bindings may differ, but what is read of them is the table.
          simp only [binding, ← hname]
          cases hbinding : scope.model.binding <;> cases hbinding' : scope'.model.binding <;>
            simp_all [bind, Except.bind]
      | custom handlers => simp only [binding, hname, hkey handlers hhow]

variable {name : String} {query : Query}

/-- A query depends on whether its model is known, on the fields that it names and on the model's
table, and on the primary key if it names a custom field. -/
theorem Query.compileFor_congr {registry registry' : Registry E}
    (hknown : registry.contains name = registry'.contains name)
    (htable : (registry.binding? name).map (·.table) = (registry'.binding? name).map (·.table))
    (hfield : ∀ field use, query.Names field use →
      registry.field? name field = registry'.field? name field)
    (hkey : ∀ field use handlers, query.Names field use →
      registry.field? name field = some (.custom handlers) →
        registry.binding? name = registry'.binding? name) :
    query.compileFor registry i b name = query.compileFor registry' i b name := by
  rw [Registry.contains_eq, Registry.contains_eq] at hknown
  cases hmodel : registry.model? name with
  | none =>
      have hmodel' : registry'.model? name = none := by simpa [hmodel] using hknown.symm
      rw [compileFor, compileFor, Registry.scope, Registry.scope, hmodel, hmodel']
  | some model =>
      obtain ⟨model', hmodel'⟩ : ∃ model', registry'.model? name = some model' :=
        Option.isSome_iff_exists.mp (by simpa [hmodel] using hknown.symm)
      simp only [Registry.binding?_of_model? hmodel, Registry.binding?_of_model? hmodel',
        Registry.field?_of_model? hmodel, Registry.field?_of_model? hmodel']
        at htable hfield hkey
      rw [compileFor, compileFor, Registry.scope, Registry.scope, hmodel, hmodel']
      refine compile_congr fun field use hname => ?_
      exact Scope.resolve_congr rfl (hfield field use hname) htable fun handlers hcustom =>
        hkey field use handlers hname hcustom

end Registries

/-- A query compiles alike on registries that bind its model alike and agree on the fields that it
names. So it does after any writes to other models or to other fields, and, as long as it names no
custom field, when the model's table is given another primary key. -/
theorem Query.compileFor_depends_on_names {ι : Type} [DecidableEq ι] {E : ι → Type} {σ : Type}
    (i : ι) (b : Backend (E i) σ) (name : String) (query : Query) :
    (∀ registry registry' : Registry E, registry.contains name → registry'.contains name →
      registry.binding? name = registry'.binding? name →
      (∀ field use, query.Names field use →
        registry.field? name field = registry'.field? name field) →
      query.compileFor registry i b name = query.compileFor registry' i b name) ∧
    (∀ (registry : Registry E) (writes : List (Registry.Write E)),
      (∀ w ∈ writes, w.model = name → registry.contains name ∧
        ∃ field how, w = .addField name field how ∧ ∀ use, ¬ query.Names field use) →
      query.compileFor (registry.after writes) i b name = query.compileFor registry i b name) ∧
    (∀ registry registry' : Registry E, registry.contains name → registry'.contains name →
      (registry.binding? name).map (·.table) = (registry'.binding? name).map (·.table) →
      (∀ field use, query.Names field use →
        registry.field? name field = registry'.field? name field ∧
          ∀ handlers, registry.field? name field ≠ some (.custom handlers)) →
      query.compileFor registry i b name = query.compileFor registry' i b name) := by
  refine ⟨?agree, ?writes, ?stored⟩
  case agree =>
    intro registry registry' hknown hknown' hbinding hfields
    exact compileFor_congr (hknown.trans hknown'.symm) (by rw [hbinding]) hfields
      fun _ _ _ _ _ => hbinding
  case writes =>
    intro registry writes hspared
    have hknown : (registry.after writes).contains name = registry.contains name := by
      rw [Bool.eq_iff_iff, Registry.contains_after]
      refine or_iff_right_of_imp ?_
      rintro ⟨w, hw, hmodel⟩
      exact (hspared w hw hmodel).1
    have hbinding : (registry.after writes).binding? name = registry.binding? name := by
      refine Registry.binding?_after_of_spared fun w hw => ?_
      cases w with
      | bind model binding =>
          refine if_neg fun same => ?_
          obtain ⟨-, field, how, heq, -⟩ := hspared _ hw same
          cases heq
      | addField model field how => rfl
    refine compileFor_congr hknown (by rw [hbinding]) (fun field use hname => ?_)
      fun _ _ _ _ _ => hbinding
    refine Registry.field?_after_of_spared fun w hw => ?_
    cases w with
    | bind model binding => rfl
    | addField model added how =>
        refine if_neg ?_
        rintro ⟨same, rfl⟩
        obtain ⟨-, field, how, heq, hunnamed⟩ := hspared _ hw same
        cases heq
        exact hunnamed use hname
  case stored =>
    intro registry registry' hknown hknown' htable hfields
    refine compileFor_congr (hknown.trans hknown'.symm) htable
      (fun field use hname => (hfields field use hname).1) ?_
    intro field use handlers hname hcustom
    exact absurd hcustom ((hfields field use hname).2 handlers)

/-- A query that has `hidden` in it twice, but where it names no field. -/
def hiddenTwiceQuery : Query where
  filter := some (.obj [("$or", .arr [
    .obj [("title", .obj [("$ref", .str "slug")])],
    .obj [("$in", .obj [("mine", .arr [.obj [("hidden", .null)]])])]])])
  order := some (.arr [.obj [("title", .str "ASC"), ("hidden", .str "DESC")], .obj []])

theorem orderNames_hiddenTwiceQuery {field : String}
    (h : Order.Names hiddenTwiceQuery.order field) : field = "title" := by
  obtain ⟨entries, value, rest, horder, hmem⟩ := h
  cases horder
  simp at hmem
  exact hmem.1.1

open Filter.Site in
theorem names_hiddenTwiceQuery {field : String} {use : Use}
    (h : hiddenTwiceQuery.Names field use) : field = "title" ∨ field = "slug" ∨ field = "mine" := by
  have hand : Operator.joins .and := rfl
  have hor : Operator.joins .or := rfl
  have hkeyOr : Operator.ofKey? "$or" = some .or := rfl
  have hkeyRef : Operator.ofKey? "$ref" = some .ref := rfl
  have hkeyIn : Operator.ofKey? "$in" = some (.field .isIn) := rfl
  have htitle : ¬ Operator.hasSigil "title" := by decide
  rcases h with ⟨site, ⟨value, hvalue, -, hreach⟩, huse⟩ | ⟨-, horder⟩
  · have hname : (Filter.Site.stated .and value).Names field use := ⟨site, hreach, huse⟩
    simp only [hiddenTwiceQuery, Option.some.injEq] at hvalue
    subst hvalue
    simp [names_items, names_entries, names_fields, hand, hor, names_applied, names_reference,
      names_entry_of_operator hkeyOr, names_entry_of_operator hkeyRef,
      names_entry_of_operator hkeyIn, names_entry_of_bare htitle, Operation.takesRaw] at hname
    rcases hname with (⟨rfl, -⟩ | ⟨rfl, -⟩) | ⟨rfl, -⟩ <;> simp
  · exact .inl (orderNames_hiddenTwiceQuery horder)

/-- Posts, with a custom field and with one that no query has to do with. -/
def postWrites : List (Registry.Write fun _ : Unit => Tree) :=
  [.bind "post" ⟨"posts", "id"⟩, .addField "post" "title" (.plain {}),
    .addField "post" "slug" (.plain { column := some "path" }),
    .addField "post" "mine" (.custom (CustomField.empty.on .isIn () fun primary _ _ => primary)),
    .addField "post" "hidden" (.plain { permitted := [.eq] })]

/-- Writes to another model, and to fields of posts that are of no account. -/
def strayWrites : List (Registry.Write fun _ : Unit => Tree) :=
  [.bind "user" ⟨"users", "id"⟩, .addField "user" "title" (.custom CustomField.empty),
    .addField "post" "hidden" (.custom CustomField.empty), .addField "post" "author" (.plain {})]

theorem stray_of_mem {w : Registry.Write fun _ : Unit => Tree} (hw : w ∈ strayWrites)
    (hmodel : w.model = "post") : ∃ field how, w = .addField "post" field how ∧
      ∀ use, ¬ hiddenTwiceQuery.Names field use := by
  have hunnamed {field : String} (h : field ≠ "title" ∧ field ≠ "slug" ∧ field ≠ "mine") :
      ∀ use, ¬ hiddenTwiceQuery.Names field use := by
    intro use hname
    rcases names_hiddenTwiceQuery hname with rfl | rfl | rfl <;> simp at h
  simp only [strayWrites, List.mem_cons, List.not_mem_nil, or_false] at hw
  rcases hw with rfl | rfl | rfl | rfl
  · simp [Registry.Write.model] at hmodel
  · simp [Registry.Write.model] at hmodel
  · exact ⟨"hidden", _, rfl, hunnamed (by decide)⟩
  · exact ⟨"author", _, rfl, hunnamed (by decide)⟩

/-- The stray writes make no difference behind the others or in front of them, and an order does not
depend on the primary key. -/
theorem Query.compileFor_depends_on_names_stray :
    let registry := (∅ : Registry fun _ : Unit => Tree).after postWrites
    let orders : Query := { hiddenTwiceQuery with filter := none }
    (∃ compiled, hiddenTwiceQuery.compileFor registry () Tree.backend "post" = .ok compiled) ∧
    hiddenTwiceQuery.compileFor (registry.after strayWrites) () Tree.backend "post" =
      hiddenTwiceQuery.compileFor registry () Tree.backend "post" ∧
    hiddenTwiceQuery.compileFor registry () Tree.backend "post" =
      hiddenTwiceQuery.compileFor ((∅ : Registry fun _ : Unit => Tree).after
        (strayWrites ++ postWrites)) () Tree.backend "post" ∧
    orders.compileFor registry () Tree.backend "post" =
      orders.compileFor (registry.after [.bind "post" ⟨"posts", "uuid"⟩]) () Tree.backend
        "post" := by
  intro registry orders
  obtain ⟨hagree, hwrites, -⟩ :=
    compileFor_depends_on_names (E := fun _ => Tree) () Tree.backend "post" hiddenTwiceQuery
  obtain ⟨-, -, hstored⟩ :=
    compileFor_depends_on_names (E := fun _ => Tree) () Tree.backend "post" orders
  have hknown (writes : List (Registry.Write fun _ : Unit => Tree)) :
      ((∅ : Registry fun _ : Unit => Tree).after (writes ++ postWrites)).contains "post" := by
    refine (Registry.contains_after_empty _ _).mpr ⟨.bind "post" ⟨"posts", "id"⟩, ?_, rfl⟩
    simp [postWrites]
  refine ⟨exists_of_isOk (by decide +kernel), ?stray, ?before, ?key⟩
  case stray =>
    exact hwrites registry strayWrites fun w hw hmodel => ⟨hknown [], stray_of_mem hw hmodel⟩
  case before =>
    refine hagree _ _ (hknown []) (hknown strayWrites) ?_ fun field use hname => ?_
    · rw [Registry.binding?_after_empty, Registry.binding?_after_empty]
      rfl
    · rw [Registry.field?_after_empty, Registry.field?_after_empty]
      rcases names_hiddenTwiceQuery hname with rfl | rfl | rfl <;> rfl
  case key =>
    refine hstored registry (registry.after [.bind "post" ⟨"posts", "uuid"⟩]) (hknown []) ?_ ?_
      fun field use hname => ?_
    · exact (Registry.contains_after _ _ _).mpr (.inr (hknown []))
    · simp only [registry, Registry.binding?_after]
      rfl
    · obtain rfl : field = "title" := by
        rcases hname with ⟨site, ⟨value, hvalue, -⟩, -⟩ | ⟨-, hname⟩
        · cases hvalue
        · exact orderNames_hiddenTwiceQuery hname
      simp only [registry, Registry.field?_after]
      exact ⟨rfl, nofun⟩

end Criteria
