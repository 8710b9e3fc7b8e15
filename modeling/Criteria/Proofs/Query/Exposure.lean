import Criteria.Proofs.Filter.WellShaped
import Criteria.Proofs.Sites
import Criteria.Proofs.Sql.Mentions

/-!
How far a request reaches. A model exposes columns and tables through its fields, and a statement
mentions none but those of the fields that its query names, besides the model's own table. Strings
of a document end up in the names of a statement through the model only.
-/

namespace Criteria

open Sql (Expr Mention)

variable {ι : Type} {E : ι → Type}

/-- What a model over a table exposes through its fields, given which of them are named and what
for. A relation is reached by an operation only. -/
inductive Model.Exposes (model : Model E) (table : String) (named : String → Use → Prop) :
    Mention → Prop
  | plain {name : String} {use : Use} {column : ColumnField} (mem : named name use)
    (found : model.fields.get? name = some (.plain column)) :
    Exposes model table named (.column (some table) (column.column.getD name))
  | matchColumn {name : String} {op : Operation} {related : Relation}
    (mem : named name (.operation op))
    (found : model.fields.get? name = some (.relation related)) :
    Exposes model table named (.column (some table) related.matchColumn)
  | relatedTable {name : String} {op : Operation} {related : Relation}
    (mem : named name (.operation op))
    (found : model.fields.get? name = some (.relation related)) :
    Exposes model table named (.table related.table)
  | key {name : String} {op : Operation} {related : Relation} (mem : named name (.operation op))
    (found : model.fields.get? name = some (.relation related)) :
    Exposes model table named (.column (some related.table) related.key)
  | value {name : String} {op : Operation} {related : Relation} (mem : named name (.operation op))
    (found : model.fields.get? name = some (.relation related)) :
    Exposes model table named (.column (some related.table) related.value)

/-- What a model exposes grows with the fields that are named, so the parts of a document may be
treated one by one. -/
theorem Model.Exposes.mono {model : Model E} {table : String} {named named' : String → Use → Prop}
    (h : ∀ name use, named name use → named' name use) {m : Mention}
    (hm : model.Exposes table named m) : model.Exposes table named' m := by
  cases hm with
  | plain mem found => exact .plain (h _ _ mem) found
  | matchColumn mem found => exact .matchColumn (h _ _ mem) found
  | relatedTable mem found => exact .relatedTable (h _ _ mem) found
  | key mem found => exact .key (h _ _ mem) found
  | value mem found => exact .value (h _ _ mem) found

namespace Filter

/-- Joined conditions mention what their parts do: a connective brings in no name of its own. -/
theorem Joined.mentionsOnly {p : Mention → Prop} {op : Operator} {es : List Expr} {e : Expr}
    (h : Joined Sql.backend op es e) (hes : ∀ e ∈ es, e.MentionsOnly p) : e.MentionsOnly p := by
  cases h with
  | negated first rest => exact .not (hes first (.head _))
  | single notNegated only => exact hes e (.head _)
  | disjunction nonempty => exact .group .or hes
  | conjunction notNegated nonempty => exact .group .and hes

/-- An operation on an operand mentions what the operand does, and what a nested document does. Raw
values mention nothing, whatever is in them. -/
theorem Asked.mentionsOnly {r : Resolver Expr} {left : Expr} {op : Operation} {value : Json}
    {e : Expr} (h : Asked r left op value e) {p : Mention → Prop} (hleft : left.MentionsOnly p)
    (hnested : ∀ entries nested, op.takesRaw = false → value = .obj entries →
      condition Sql.backend r .and value = .ok nested → nested.MentionsOnly p) :
    e.MentionsOnly p := by
  cases h with
  | nothing => exact .group .or nofun
  | listed filled nonempty => exact .inList _ hleft
  | contained => exact .contains _ hleft
  | @compared _ comparison _ right known compiled =>
      refine .compare comparison hleft ?_
      rcases operand_eq_ok.mp compiled with ⟨entries, hentries, hgroup⟩ | ⟨-, rfl⟩
      · have hraw : op.takesRaw = false := by cases op <;> first | rfl | cases known
        exact hnested entries right hraw hentries hgroup
      · exact .value _

section Conditions

variable {κ : Type} {others : κ → Type} {scope : Scope (Sql.ExpressionsWith others)}
  {table : String}

/-- An operation that is applied to a stored field mentions what the field exposes: its column, or
the table and the columns of its relation. -/
theorem mentionsOnly_applied (hstored : scope.model.IsStored)
    (htable : scope.model.binding.map (·.table) = some table) {named : String → Use → Prop}
    {op : Operation} {name : String} (hname : named name (.operation op)) {arg : Argument Expr}
    {e : Expr} (h : scope.Applied none Sql.backend name op arg e)
    (happly : ∀ left : Expr, left.MentionsOnly (scope.model.Exposes table named) →
      (Sql.backend.apply op left arg).MentionsOnly (scope.model.Exposes table named)) :
    e.MentionsOnly (scope.model.Exposes table named) := by
  rcases h with ⟨found, permitted⟩ | @⟨related, binding, found, bound, permitted⟩ |
    ⟨found, bound, handler⟩
  · rw [Scope.plainColumn, htable]
    exact happly _ (.column (.plain hname found))
  · obtain rfl : binding.table = table := by simpa [bound] using htable
    exact .amongKeys (.relatedTable hname found) (.key hname found)
      (.column (.matchColumn hname found)) (happly _ (.column (.value hname found)))
  · exact absurd found (hstored _ _)

/-- A condition on a stored model mentions what the fields expose that are named at its site, as a
site names what the ones below it do. -/
theorem mentionsOnly_condition [DecidableEq κ] (hstored : scope.model.IsStored)
    (htable : scope.model.binding.map (·.table) = some table) {op : Operator} {value : Json}
    {e : Expr} (h : condition Sql.backend (scope.resolve none Sql.backend) op value = .ok e) :
    e.MentionsOnly (scope.model.Exposes table (Site.stated op value).Names) := by
  -- What is mentioned one step deeper is exposed by the names that are found there.
  have hnext {site deeper : Site} (hstep : site.Next deeper) {e : Expr}
      (he : e.MentionsOnly (scope.model.Exposes table deeper.Names)) :
      e.MentionsOnly (scope.model.Exposes table site.Names) :=
    he.imp fun _ => .mono fun _ _ => .of_next hstep
  refine condition_induction scope none Sql.backend
    (fun op value e => e.MentionsOnly (scope.model.Exposes table (Site.stated op value).Names))
    (fun op part e =>
      e.MentionsOnly (scope.model.Exposes table (Site.applied op part.1 part.2).Names))
    ?reference ?field ?fields ?items ?entries h
  case reference =>
    intro name column found
    rw [Scope.plainColumn, htable]
    exact .column (.plain (.here rfl) found)
  case field =>
    intro op name value arg e hnested harg happlied
    refine mentionsOnly_applied hstored htable (.here rfl) happlied fun left hleft => ?_
    refine (asked_of_argument harg left).mentionsOnly hleft ?_
    rintro entries nested hraw rfl hgroup
    exact hnext (.nested hraw name entries) (hnested nested hgroup)
  case fields =>
    intro op fields es e hparts hjoined
    refine (joined_of_joinFields hjoined).mentionsOnly fun e he => ?_
    obtain ⟨⟨name, value⟩, hmem, hfield⟩ := exists_left_of_mem hparts he
    exact hnext (.field hmem) hfield
  case items =>
    intro op items es e hjoins hparts hjoined
    refine (joined_of_join hjoined).mentionsOnly fun e he => ?_
    obtain ⟨item, hmem, hitem⟩ := exists_left_of_mem hparts he
    exact hnext (.item hjoins hmem) hitem
  case entries =>
    intro op entries es e hjoins hparts hjoined
    refine (joined_of_join hjoined).mentionsOnly fun e he => ?_
    obtain ⟨⟨key, value⟩, hmem, hentry⟩ := exists_left_of_mem hparts he
    refine hnext (.entry hjoins hmem) ?_
    rcases hentry with ⟨op, known, hop⟩ | ⟨bare, hfield⟩
    · exact hnext (.operator known value) hop
    · exact hnext (.bare bare value) hfield

end Conditions

end Filter

/-- What a query may mention: the model's table, what the fields expose that it names, and the one
function that counts rows, if it asks for their number. -/
inductive Query.Exposes (query : Query) (model : Model E) (table : String) : Mention → Prop
  | table : Exposes query model table (.table table)
  | count (isCount : query.isCount) : Exposes query model table (.function "COUNT")
  | field {m : Mention} (exposed : model.Exposes table query.Names m) :
    Exposes query model table m

namespace Query

variable {κ : Type} [DecidableEq κ] {others : κ → Type}
  {scope : Scope (Sql.ExpressionsWith others)} {binding : TableBinding} {query : Query}

theorem mentionsOnly_filter (hstored : scope.model.IsStored)
    (hbinding : scope.model.binding = some binding) {filter : Expr}
    (h : Filter.compile Sql.backend (scope.resolve none Sql.backend) query.filter =
      .ok (some filter)) :
    filter.MentionsOnly (query.Exposes scope.model binding.table) := by
  obtain ⟨value, hvalue, hcondition⟩ := Filter.compile_eq_some.mp h
  have hmentions := Filter.mentionsOnly_condition hstored (by rw [hbinding]; rfl) hcondition
  have hnames (name : String) (use : Use) (hname : (Filter.Site.stated .and value).Names name use) :
      query.Names name use := by
    obtain ⟨site, hreach, huse⟩ := hname
    exact .inl ⟨site, ⟨value, hvalue, Filter.isFilter_of_condition hcondition, hreach⟩, huse⟩
  exact hmentions.imp fun m hm => .field (hm.mono hnames)

theorem mentionsOnly_order (hbinding : scope.model.binding = some binding)
    {sorts : List Sql.OrderTerm}
    (h : Order.compile Sql.backend (scope.resolve none Sql.backend) query.order =
      .ok (some sorts)) {sort : Sql.OrderTerm} (hmem : sort ∈ sorts) :
    sort.expr.MentionsOnly (query.Exposes scope.model binding.table) := by
  obtain ⟨name, column, direction, hname, found, rfl⟩ :=
    Order.sort_of_compile (E := Sql.ExpressionsWith others) (i := none) h hmem
  have hexposed : query.Exposes scope.model binding.table
      (.column (some binding.table) (column.column.getD name)) :=
    .field (.plain (.inr ⟨rfl, hname⟩) found)
  rw [Scope.plainColumn, hbinding]
  cases direction <;> exact .column hexposed

/-- The statement of a query on a stored model mentions the model's table, what the fields expose
that the query names, and nothing else, at any depth. Only a count has a function. -/
theorem mentionsOnly_compile (hstored : scope.model.IsStored)
    (hbinding : scope.model.binding = some binding)
    {compiled : CompiledQuery Expr Sql.OrderTerm}
    (h : query.compile Sql.backend (scope.resolve none Sql.backend) = .ok compiled) :
    (Sql.Select.ofCompiled binding compiled).MentionsOnly
      (query.Exposes scope.model binding.table) := by
  obtain ⟨hfilter, horder, -, -, hcount⟩ := compile_eq_ok.mp h
  have hcondition : ∀ e ∈ compiled.filter.toList,
      e.MentionsOnly (query.Exposes scope.model binding.table) := by
    intro e he
    rw [Option.mem_toList.mp he] at hfilter
    exact mentionsOnly_filter hstored hbinding hfilter
  by_cases isCount : compiled.isCount
  · have hrows : Expr.rowCount.MentionsOnly (query.Exposes scope.model binding.table) := by
      refine .intro ?_ (List.forall_mem_singleton.mpr (.intro nofun nofun))
      rintro m ⟨⟩
      exact .count (hcount ▸ isCount)
    rw [Sql.Select.ofCompiled_of_count isCount]
    refine ⟨by rintro name ⟨⟩; exact .table, ?_⟩
    simpa [Sql.Clauses.exprs, hrows] using hcondition
  · have hsorts : ∀ sort ∈ compiled.order.getD [],
        sort.expr.MentionsOnly (query.Exposes scope.model binding.table) := by
      intro sort hsort
      cases hsorts : compiled.order with
      | none => simp [hsorts] at hsort
      | some sorts =>
          rw [hsorts] at horder hsort
          exact mentionsOnly_order hbinding horder hsort
    have hword (n : Option UInt64) : ∀ e ∈ (n.map fun n => Expr.value (Json.ofWord n)).toList,
        e.MentionsOnly (query.Exposes scope.model binding.table) := by
      cases n with
      | none => exact List.forall_mem_nil _
      | some n => exact List.forall_mem_singleton.mpr (.value _)
    rw [Sql.Select.ofCompiled_of_rows isCount]
    refine ⟨by rintro name ⟨⟩; exact .table, ?_⟩
    simp only [Sql.Clauses.exprs, List.nil_append, List.forall_mem_append, List.forall_mem_map]
    exact ⟨⟨⟨hcondition, hsorts⟩, hword _⟩, hword _⟩

/-- Users tagged with their own name, whatever they have in common with the tables of a database. -/
def namesakesQuery : Query where
  filter := some (.obj [
    ("tag", .obj [("$ref", .str "name")]),
    ("$not", .arr [.obj [("name", .str "passwords")], .obj [("joined", .str "secrets")]]),
    ("$in", .obj [("tag", .arr [.str "DROP", .obj [("secret", .str "users.secret")]])])])
  order := some (.arr [.obj [("joined", .str "DESC"), ("secret", .str "ASC")], .str "secret"])
  limit := some 5
  columns := some ["secret"]

/-- Tables and columns that are spelled in literals, in the order's later keys or in the list of
columns are not mentioned. -/
theorem mentionsOnly_compile_namesakes :
    let scope : Scope (Sql.ExpressionsWith Empty.elim) := ⟨"user", .taggedUsers⟩
    scope.model.IsStored ∧ scope.model.binding = some ⟨"users", "id"⟩ ∧
    ∃ compiled : CompiledQuery Expr Sql.OrderTerm,
      namesakesQuery.compile Sql.backend (scope.resolve none Sql.backend) = .ok compiled ∧
      (Sql.Select.ofCompiled ⟨"users", "id"⟩ compiled).MentionsOnly
        (namesakesQuery.Exposes scope.model "users") := by
  intro scope
  have hstored : scope.model.IsStored := Model.isStored_taggedUsers
  obtain ⟨compiled, hcompiled⟩ : ∃ compiled : CompiledQuery Expr Sql.OrderTerm,
      namesakesQuery.compile Sql.backend (scope.resolve none Sql.backend) = .ok compiled :=
    ⟨_, rfl⟩
  exact ⟨hstored, rfl, compiled, hcompiled, mentionsOnly_compile hstored rfl hcompiled⟩

end Query

end Criteria
