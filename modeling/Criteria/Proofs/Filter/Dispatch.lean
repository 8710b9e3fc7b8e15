import Criteria.Proofs.CustomField
import Criteria.Proofs.Filter.Outcomes
import Criteria.Sql.Backend
import Criteria.Tree

/-!
Operations on custom fields, wherever they stand in a document. An operation is left to the handler
that was given last for it, and an earlier one does not stand in for it. What is refused is reported
once everything that is compiled before it is compiled, the right-hand side included.
-/

namespace Criteria.Filter

/-- The sites that apply an operation to a field: as a field of the operation, or by its bare name,
which is held to equal the value. -/
inductive Site.Applies : Site → Operation → String → Json → Prop
  | field (op : Operation) (name : String) (value : Json) :
    Applies (.applied op name value) op name value
  | bare {name : String} (bare : ¬ Operator.hasSigil name) (value : Json) :
    Applies (.entry name value) .eq name value

/-- What an operation takes for a value: what the value compiles to as a right-hand side, but for a
membership test the value itself, which is not compiled. -/
inductive Takes {ε σ : Type} (b : Backend ε σ) (r : Resolver ε) :
    Operation → Json → Argument ε → Prop
  | compiled {op : Operation} (compares : op.takesRaw = false) {value : Json} {rhs : ε}
    (rightSide : rightSide b value (condition b r .and value) = .ok rhs) :
    Takes b r op value (.operand rhs)
  | raw {op : Operation} (raw : op.takesRaw) (value : Json) : Takes b r op value (.raw value)

section Operations

variable {ε σ : Type} {b : Backend ε σ} {r : Resolver ε}

theorem takes_iff {op : Operation} {value : Json} {arg : Argument ε} :
    Takes b r op value arg ↔ argument b r op value = .ok arg := by
  constructor
  · intro h
    cases h with
    | compiled compares rightSide =>
        rw [argument, compares, operand, rightSide]
        rfl
    | raw raw value => rw [argument, if_pos raw]
  · intro h
    rw [argument] at h
    split at h
    next raw =>
      cases h
      exact .raw raw value
    next compares =>
      obtain ⟨rhs, hrhs, heq⟩ := bind_eq_ok.mp h
      cases heq
      exact .compiled (by simpa using compares) hrhs

/-- The two ways to apply an operation to a field come to the same, once the field is found and the
value has been taken. -/
theorem Site.Applies.outcome_eq {site : Site} {op : Operation} {name : String} {value : Json}
    (happlies : site.Applies op name value) {field : ResolvedField ε} (hfound : r name = .ok field)
    {arg : Argument ε} (htakes : Takes b r op value arg) :
    site.outcome b r = field.apply b op arg := by
  cases happlies with
  | field op name value =>
      rw [Site.outcome_applied, fieldCondition_eq, hfound, takes_iff.mp htakes]
      rfl
  | bare bare value =>
      rw [Site.outcome_entry, entryCondition_of_bare b r bare, takes_iff.mp htakes, hfound]
      rfl

/-- Where an operation comes to a condition, there is something that it takes. -/
theorem Site.Applies.exists_takes {site : Site} {op : Operation} {name : String} {value : Json}
    (happlies : site.Applies op name value) {e : ε} (h : site.outcome b r = .ok e) :
    ∃ arg, Takes b r op value arg := by
  have hfield : fieldCondition b r op (name, value) = .ok e := by
    cases happlies with
    | field op name value => rw [← Site.outcome_applied, h]
    | bare bare value =>
        rw [Site.outcome_entry] at h
        rcases entryCondition_eq_ok.mp h with ⟨op, known, -⟩ | ⟨-, hfield⟩
        · exact absurd (Operator.hasSigil_of_ofKey? known) bare
        · exact hfield
  obtain ⟨field, arg, -, hargument, -⟩ := fieldCondition_eq_ok.mp hfield
  exact ⟨arg, takes_iff.mpr hargument⟩

/-- A document of one entry compiles to what the entry does: neither the document nor its group puts
anything around a single condition. -/
theorem compile_entry (key : String) (value : Json) :
    compile b r (some (.obj [(key, value)])) = some <$> (Site.entry key value).outcome b r :=
  (IsFilter.entries (key, value) []).compile

/-- An operation on one field, as a document of its own, compiles to what the field's condition
does. The errors are the same too. -/
theorem compile_field (op : Operation) (name : String) (value : Json) :
    compile b r (some (.obj [((Operator.field op).key, .obj [(name, value)])])) =
      some <$> (Site.applied op name value).outcome b r := by
  rw [compile_entry, Site.outcome_entry,
    entryCondition_of_operator b r (Operator.ofKey?_key (.field op))]
  rfl

end Operations

variable {ι : Type} {E : ι → Type}

open CustomField (Registration ofRegistrations lastHandler?)

/-- What an operation on a custom field comes to, seen by the backend `i`: the last handler decides,
and not the last one that is the backend's own. -/
inductive Dispatched (given : List (Registration E)) (i : ι) (name : String) (primary : E i)
    (op : Operation) (arg : Argument (E i)) : Except CompileError (E i) → Prop
  | unsupported (missing : lastHandler? op given = none) :
    Dispatched given i name primary op arg (.error (.unsupported name op.name))
  | foreign {j : ι} {build : Handler (E j)} (last : lastHandler? op given = some ⟨j, build⟩)
    (other : j ≠ i) : Dispatched given i name primary op arg (.error (.foreignHandler name))
  | handled {build : Handler (E i)} (last : lastHandler? op given = some ⟨i, build⟩) :
    Dispatched given i name primary op arg (.ok (build primary op arg))

theorem dispatched_apply [DecidableEq ι] {σ : Type} (given : List (Registration E)) (i : ι)
    (b : Backend (E i) σ) (name : String) (primary : E i) (op : Operation) (arg : Argument (E i)) :
    Dispatched given i name primary op arg
      ((ResolvedField.custom name primary ((ofRegistrations given).offer i)).apply b op arg) := by
  rw [ResolvedField.apply, CustomField.offer, CustomField.handlers_ofRegistrations]
  cases hlast : lastHandler? op given with
  | none => exact .unsupported hlast
  | some last =>
      obtain ⟨j, build⟩ := last
      by_cases same : j = i
      · subst same
        simpa using .handled hlast
      · simpa [same] using .foreign hlast same

/-- An operation on a custom field of a bound model comes to what the last handler given for it
builds from the primary key and what the operation takes; without a handler, or with one of another
backend, it fails. This is what a document of that one operation compiles to. In a larger one, it is
the error of the whole once compilation comes to it, and the condition that stands in the filter
where the operation stands in the document, in every filter that such a document compiles to.

The field lists the operations it has handlers for, ascending and once each, whatever the order in
which they were given. -/
theorem dispatched_to_last_handler [DecidableEq ι] (given : List (Registration E)) :
    (∀ (scope : Scope E) (binding : TableBinding) (name : String),
      scope.model.binding = some binding →
      scope.model.fields.get? name = some (.custom (ofRegistrations given)) →
      ∀ (i : ι) {σ : Type} (b : Backend (E i) σ),
        let r := scope.resolve i b
        let primary := b.column (some binding.table) binding.primaryKey
        (∀ (op : Operation) (value : Json) (arg : Argument (E i)), Takes b r op value arg →
          ∃ result, Dispatched given i name primary op arg result ∧
            compile b r (some (.obj [((Operator.field op).key, .obj [(name, value)])])) =
              some <$> result ∧
            (op = .eq → ¬ Operator.hasSigil name →
              compile b r (some (.obj [(name, value)])) = some <$> result) ∧
            ∀ site : Site, site.Applies op name value →
              (∀ document error, result = .error error → ComesTo b r document site →
                compile b r document = .error error) ∧
              (∀ document filter e, result = .ok e → StandsIn b r document filter site e →
                compile b r document = .ok filter)) ∧
        ∀ document filter, compile b r document = .ok filter →
          ∀ (site : Site) (op : Operation) (value : Json),
            Reads document site → site.Applies op name value →
            ∃ arg build, Takes b r op value arg ∧ lastHandler? op given = some ⟨i, build⟩ ∧
              StandsIn b r document filter site (build primary op arg)) ∧
    (∀ op, op ∈ (ofRegistrations given).operations ↔ ∃ next ∈ given, next.op = op) ∧
    ((ofRegistrations given).operations.map Operation.name).Pairwise (· < ·) ∧
    ∀ given' : List (Registration E),
      (∀ op, (∃ next ∈ given', next.op = op) ↔ ∃ next ∈ given, next.op = op) →
      (ofRegistrations given').operations = (ofRegistrations given).operations := by
  refine ⟨?dispatch, fun op => ?members, CustomField.operations_ascending _, fun given' h => ?order⟩
  case dispatch =>
    intro scope binding name hbound hcustom i σ b r primary
    have hfound := Scope.resolve_eq_ok.mpr (Scope.Resolved.custom (i := i) (b := b) hcustom hbound)
    constructor
    · intro op value arg htakes
      have hsites {site : Site} (happlies : site.Applies op name value) :=
        happlies.outcome_eq hfound htakes
      refine ⟨_, dispatched_apply given i b name primary op arg, ?_, ?_, fun site happlies => ?_⟩
      · rw [compile_field, hsites (.field op name value)]
      · rintro rfl hbare
        rw [compile_entry, hsites (.bare hbare value)]
      · exact ⟨fun document error herror hcomes =>
            hcomes.compile_error ((hsites happlies).trans herror),
          fun document filter e hok hstands => hstands.compile_ok ((hsites happlies).trans hok)⟩
    · intro document filter hcompile site op value hreads happlies
      obtain ⟨part, hsite, hstands⟩ := hreads.exists_standsIn hcompile
      obtain ⟨arg, htakes⟩ := happlies.exists_takes hsite
      -- The site has a condition, so of the three outcomes only the handled one is left.
      have hresult := dispatched_apply given i b name primary op arg
      rw [← happlies.outcome_eq hfound htakes, hsite] at hresult
      cases hresult with
      | handled last => exact ⟨arg, _, htakes, last, hstands⟩
  case members => rw [CustomField.mem_operations_iff, CustomField.supports_ofRegistrations_iff]
  case order =>
    refine CustomField.operations_congr fun op => ?_
    rw [CustomField.supports_ofRegistrations_iff, CustomField.supports_ofRegistrations_iff, h op]

/-- Posts that are rated. The first handler for equality is replaced, and the comparison with a
score was given to SQL in the end. -/
def ratings : List (Registration (Sql.ExpressionsWith fun _ : Unit => Tree)) :=
  [⟨.gt, some (), fun primary _ _ => primary⟩, ⟨.eq, some (), fun primary _ _ => primary⟩,
    ⟨.eq, some (), fun primary _ arg => match arg with
      | .operand rhs => .call "rated" [primary, rhs]
      | .raw _ => primary⟩,
    ⟨.gt, none, fun primary _ _ => primary⟩]

def ratedPosts : Scope (Sql.ExpressionsWith fun _ : Unit => Tree) where
  name := "post"
  model :=
    { binding := some ⟨"posts", "id"⟩
      fields := ((∅ : NameTable (Field _)).insert "title" (.plain {})).insert "score"
        (.custom (ofRegistrations ratings)) }

/-- A score that is held to equal a title. -/
def titleTest : Json :=
  .obj [("$eq", .obj [("score", .obj [("$ref", .str "title")])])]

/-- That test on a right-hand side, as the second of two branches. -/
def testedDocument : Json :=
  .obj [("$or", .arr [.obj [("title", .str "x")], .obj [("title", titleTest)]])]

/-- Behind that test, a score is compared with a number, on a right-hand side. -/
def ratedDocument : Json :=
  .obj [("$or", .arr [titleTest,
    .obj [("title", .obj [("$gt", .obj [("score", .num (.int 3))])])]])]

theorem reads_testedDocument :
    Reads (some testedDocument) (.applied .eq "score" (.obj [("$ref", .str "title")])) := by
  have hbranch : (Site.stated .and testedDocument).Reaches
      (.stated .and (.obj [("title", titleTest)])) :=
    .head (.entry rfl (.head _)) <| .head (.operator rfl _) (.single (.item rfl (by simp)))
  have hnested : (Site.stated .and (.obj [("title", titleTest)])).Reaches
      (.stated .and titleTest) :=
    .head (.entry rfl (.head _)) <| .head (.bare (by decide) _) (.single (.nested rfl _ _))
  have htest : (Site.stated .and titleTest).Reaches
      (.applied .eq "score" (.obj [("$ref", .str "title")])) :=
    .head (.entry rfl (.head _)) <| .head (.operator rfl _) (.single (.field (.head _)))
  exact ⟨testedDocument, rfl, .entries _ _, hbranch.trans (hnested.trans htest)⟩

theorem comesTo_ratedDocument :
    ComesTo Tree.backend (ratedPosts.resolve (some ()) Tree.backend) (some ratedDocument)
      (.applied .gt "score" (.num (.int 3))) := by
  let r := ratedPosts.resolve (some ()) Tree.backend
  let test : Json := .obj [("score", .num (.int 3))]
  let second : Json := .obj [("title", .obj [("$gt", test)])]
  have hgroup : Relation.ReflTransGen (Site.ComesNext Tree.backend r)
      (.stated .and ratedDocument) (.stated .or (.arr [titleTest, second])) :=
    .head (.entry rfl [] rfl _ _ []) (.single (.operator rfl _))
  have hitem : Relation.ReflTransGen (Site.ComesNext Tree.backend r)
      (.stated .or (.arr [titleTest, second])) (.stated .and (.obj [("$gt", test)])) :=
    .head (.item rfl [titleTest] rfl _ []) <|
      .head (.entry rfl [] rfl _ _ []) (.single (.bare (by decide) _))
  have htest : Relation.ReflTransGen (Site.ComesNext Tree.backend r)
      (.stated .and (.obj [("$gt", test)])) (.applied .gt "score" (.num (.int 3))) :=
    .head (.entry rfl [] rfl _ _ []) <|
      .head (.operator rfl _) (.single (.field [] rfl _ _ []))
  exact ⟨ratedDocument, rfl, .entries _ _, hgroup.trans (hitem.trans htest)⟩

/-- The tested document compiles, and what the last handler for equality builds is in its filter;
the rated one fails by the comparison that was given to another backend. -/
theorem dispatched_to_last_handler_rated :
    let r := ratedPosts.resolve (some ()) Tree.backend
    let site : Site := .applied .eq "score" (.obj [("$ref", .str "title")])
    let title : Tree := .column "posts.title"
    let rated : Tree := .call "rated" [.column "posts.id", title]
    let filter : Tree := .call "or" [.call "eq" [title, .literal (.str "x")],
      .call "eq" [title, rated]]
    compile Tree.backend r (some titleTest) = .ok (some rated) ∧
    compile Tree.backend r (some testedDocument) = .ok (some filter) ∧
    StandsIn Tree.backend r (some testedDocument) (some filter) site rated ∧
    compile Tree.backend r (some ratedDocument) = .error (.foreignHandler "score") ∧
    (ofRegistrations ratings.reverse).operations = (ofRegistrations ratings).operations := by
  intro r site title rated filter
  obtain ⟨hdispatch, -, -, horder⟩ := dispatched_to_last_handler ratings
  obtain ⟨hsites, hdocuments⟩ :=
    hdispatch ratedPosts ⟨"posts", "id"⟩ "score" rfl rfl (some ()) Tree.backend
  have hfilter : compile Tree.backend r (some testedDocument) = .ok (some filter) := rfl
  refine ⟨?_, hfilter, ?_, ?_, horder _ fun op => by simp⟩
  · obtain ⟨result, hresult, halone, -⟩ := hsites .eq (.obj [("$ref", .str "title")])
      (.operand title) (.compiled rfl rfl)
    cases hresult with
    | unsupported missing => cases missing
    | foreign last other => cases last; exact absurd rfl other
    | handled last =>
        cases last
        exact halone
  · obtain ⟨arg, build, htakes, hlast, hstands⟩ := hdocuments _ _ hfilter site .eq _
      reads_testedDocument (.field _ _ _)
    cases hlast
    cases takes_iff.mp htakes
    exact hstands
  · obtain ⟨result, hresult, -, -, hall⟩ := hsites .gt (.num (.int 3))
      (.operand (.literal (.num (.int 3)))) (.compiled rfl rfl)
    cases hresult with
    | unsupported missing => cases missing
    | handled last => cases last
    | foreign last other =>
        exact (hall _ (.field _ _ _)).1 _ _ rfl comesTo_ratedDocument

end Criteria.Filter
