import Criteria.Proofs.Filter.Simulation
import Criteria.Proofs.Sql.Shape
import Criteria.Query
import Criteria.Tree

/-!
The compiler treats every backend alike. It has no other way to build an expression or a sort than
the operations of the backend, so a relation that all of them keep ties the whole results: where one
backend compiles a query to a filter, an order and paging, so does the other, and where one reports
an error, the other reports the same. Trees can thus stand for SQL wherever only the shape of a
query is in question.
-/

namespace Criteria

namespace Order

variable {ε ε' σ σ' : Type} {slots : Slots} {R : ε → ε' → Prop} {Q : σ → σ' → Prop}
  {b : Backend ε σ} {b' : Backend ε' σ'} {r : Resolver ε} {r' : Resolver ε'}

theorem term?_agree (hb : Backend.Related slots R Q b b')
    (hr : ∀ name, Agree (ResolvedField.Related R) (r name) (r' name)) (entry : Json) :
    Agree (Option.Rel Q) (term? b r entry) (term? b' r' entry) := by
  match entry with
  | .obj ((field, value) :: _) =>
      have hdirection := Agree.refl (R := (· = ·)) (fun _ => rfl) (direction field value)
      refine hdirection.bind fun direction _ heq => ?_
      cases heq
      refine (hr field).bind fun found found' hfound => ?_
      exact (hfound.alone "order").bind fun _ _ h => .ok (.some (hb.sort h direction))
  | .obj [] | .arr _ | .str _ | .num _ | .bool _ | .null => exact .ok .none

theorem terms_agree (hb : Backend.Related slots R Q b b')
    (hr : ∀ name, Agree (ResolvedField.Related R) (r name) (r' name)) (entries : List Json) :
    Agree (List.Forall₂ Q) (terms b r entries) (terms b' r' entries) := by
  induction entries with
  | nil => exact .ok .nil
  | cons entry rest ih =>
      refine (term?_agree hb hr entry).bind fun first first' hfirst => ?_
      refine ih.bind fun others others' hothers => ?_
      cases hfirst with
      | none => exact .ok hothers
      | some hsort => exact .ok (.cons hsort hothers)

theorem compile_agree (hb : Backend.Related slots R Q b b')
    (hr : ∀ name, Agree (ResolvedField.Related R) (r name) (r' name)) (document : Option Json) :
    Agree (Option.Rel (List.Forall₂ Q)) (compile b r document) (compile b' r' document) := by
  have hentries := Agree.refl (R := (· = ·)) (fun _ => rfl) (entries? document)
  refine hentries.bind fun entries _ heq => ?_
  cases heq
  cases entries with
  | none => exact .ok .none
  | some entries =>
      refine (terms_agree hb hr entries).bind fun terms terms' hterms => ?_
      cases hterms with
      | nil => exact .ok .none
      | cons hfirst hrest => exact .ok (.some (.cons hfirst hrest))

end Order

/-- The expressions of a program that has trees besides backends of its own; trees have the index
`none`. -/
abbrev Tree.ExpressionsWith {κ : Type} (others : κ → Type) : Option κ → Type
  | none => Tree
  | some k => others k

/-- True of a tree that is a subquery. -/
def Tree.isSelect : Tree → Bool
  | .select .. => true
  | _ => false

/-- A tree and an expression that are subqueries both, or neither. -/
def Tree.Matches (tree : Tree) (expr : Sql.Expr) : Prop :=
  tree.isSelect = expr.isSubquery

/-- Two sorts by expressions that match, in the same direction. -/
def TreeSort.Matches (sort : TreeSort) (term : Sql.OrderTerm) : Prop :=
  sort.node.Matches term.expr ∧ sort.direction = term.direction

/-- Trees and SQL have subqueries in the same places, so a tree matches the SQL that is compiled
from the same query, operation by operation. -/
theorem Tree.related_sql :
    Backend.Related .fixed Tree.Matches TreeSort.Matches Tree.backend Sql.backend where
  column table name := by cases table <;> rfl
  literal value value' h := rfl
  compare op left left' right right' hop hleft hright := by
    cases op <;> first | rfl | cases hop
  member op left left' values values' hop hleft hvalues := by
    cases hvalues
    cases op
    case has => rfl
    case isIn =>
      match values with
      | .arr [] | .arr (_ :: _) | .obj _ | .str _ | .num _ | .bool _ | .null => rfl
    all_goals cases hop
  subquery table key filter filter' h := rfl
  among left left' rows rows' hleft hrows := by cases rows' <;> rfl
  and operands operands' h := rfl
  or operands operands' h := rfl
  not operand operand' h := rfl
  ascending operand operand' h := ⟨h, rfl⟩
  descending operand operand' h := ⟨h, rfl⟩

/-- Compiled queries with related filters and pairwise related sorts, and the same in all else. -/
structure CompiledQuery.Related {ε ε' σ σ' : Type} (R : ε → ε' → Prop) (Q : σ → σ' → Prop)
    (compiled : CompiledQuery ε σ) (compiled' : CompiledQuery ε' σ') : Prop where
  filter : Option.Rel R compiled.filter compiled'.filter
  order : Option.Rel (List.Forall₂ Q) compiled.order compiled'.order
  limit : compiled.limit = compiled'.limit
  offset : compiled.offset = compiled'.offset
  isCount : compiled.isCount = compiled'.isCount

namespace Query

theorem compile_agree {ε ε' σ σ' : Type} {slots : Slots} {R : ε → ε' → Prop} {Q : σ → σ' → Prop}
    {b : Backend ε σ} {b' : Backend ε' σ'} {r : Resolver ε} {r' : Resolver ε'}
    (hb : Backend.Related slots R Q b b')
    (hr : ∀ name, Agree (ResolvedField.Related R) (r name) (r' name)) (query : Query) :
    Agree (CompiledQuery.Related R Q) (query.compile b r) (query.compile b' r') := by
  have hdocument : Option.Rel (Filter.Alike slots .and) query.filter query.filter := by
    cases query.filter with
    | none => exact .none
    | some document => exact .some (.same _ document)
  refine (Filter.compile_agree hb hr hdocument).bind fun filter filter' hfilter => ?_
  refine (Order.compile_agree hb hr query.order).bind fun order order' horder => ?_
  exact .ok ⟨hfilter, horder, rfl, rfl, rfl⟩

/-- Between any two backends it makes no difference, to a relation that their operations keep, which
of them a query on a stored model is compiled for. Trees and SQL accept the same queries and refuse
the others with the same error. -/
theorem compile_alike :
    (∀ {ι : Type} [DecidableEq ι] {E : ι → Type} {σ σ' : Type} (scope : Scope E),
      scope.model.IsStored → ∀ (i j : ι) (R : E i → E j → Prop) (Q : σ → σ' → Prop)
        (b : Backend (E i) σ) (b' : Backend (E j) σ'), Backend.Related .fixed R Q b b' →
        ∀ query : Query, Agree (CompiledQuery.Related R Q)
          (query.compile b (scope.resolve i b)) (query.compile b' (scope.resolve j b'))) ∧
    (∀ {κ : Type} [DecidableEq κ] {others : κ → Type}
      (scope : Scope (Sql.ExpressionsWith (Tree.ExpressionsWith others))),
      scope.model.IsStored → ∀ query : Query,
        let trees := query.compile Tree.backend (scope.resolve (some none) Tree.backend)
        let sql := query.compile Sql.backend (scope.resolve none Sql.backend)
        ((∃ compiled, trees = .ok compiled) ↔ ∃ compiled, sql = .ok compiled) ∧
          ∀ error, trees = .error error ↔ sql = .error error) := by
  have hgeneral {ι : Type} [DecidableEq ι] {E : ι → Type} {σ σ' : Type} (scope : Scope E)
      (hstored : scope.model.IsStored) (i j : ι) (R : E i → E j → Prop) (Q : σ → σ' → Prop)
      (b : Backend (E i) σ) (b' : Backend (E j) σ') (hb : Backend.Related .fixed R Q b b')
      (query : Query) : Agree (CompiledQuery.Related R Q)
        (query.compile b (scope.resolve i b)) (query.compile b' (scope.resolve j b')) :=
    compile_agree hb (Scope.resolve_agree hstored hb) query
  refine ⟨hgeneral, ?_⟩
  intro κ _ others scope hstored query
  -- Any two backends keep the relation between all expressions.
  have hany : Backend.Related .fixed (fun _ _ => True) (fun _ _ => True)
      Tree.backend Sql.backend := by
    constructor <;> intros <;> trivial
  have hagree := hgeneral scope hstored (some none) none _ _ Tree.backend Sql.backend hany query
  exact ⟨hagree.ok_iff, hagree.error_iff⟩

/-- The first users not called after their tag, with the newest in front. -/
def strangersQuery : Query where
  filter := some (.obj [("$not", .arr [.obj [("tag", .obj [("$ref", .str "name")])]]),
    ("$in", .obj [("joined", .arr [.num (.int 2024), .num (.int 2025)])])])
  order := some (.arr [.obj [("joined", .str "DESC")], .null])
  limit := some 10

/-- Both backends compile the query, to a tree and to SQL that match in every part; the entry that
is passed over sorts in neither. -/
theorem compile_alike_strangers :
    let scope : Scope (Sql.ExpressionsWith (Tree.ExpressionsWith Empty.elim)) :=
      ⟨"user", .taggedUsers⟩
    scope.model.IsStored ∧
    Backend.Related .fixed Tree.Matches TreeSort.Matches Tree.backend Sql.backend ∧ ∃ trees sql,
      strangersQuery.compile Tree.backend (scope.resolve (some none) Tree.backend) = .ok trees ∧
      strangersQuery.compile Sql.backend (scope.resolve none Sql.backend) = .ok sql ∧
      trees.order.map List.length = some 1 ∧
      CompiledQuery.Related Tree.Matches TreeSort.Matches trees sql := by
  intro scope
  have hstored : scope.model.IsStored := Model.isStored_taggedUsers
  obtain ⟨trees, htrees, hlength⟩ : ∃ trees,
      strangersQuery.compile Tree.backend (scope.resolve (some none) Tree.backend) = .ok trees ∧
        trees.order.map List.length = some 1 := ⟨_, rfl, rfl⟩
  have hagree := compile_alike.1 scope hstored (some none) none _ _ Tree.backend Sql.backend
    Tree.related_sql strangersQuery
  obtain ⟨sql, hsql⟩ := (compile_alike.2 scope hstored strangersQuery).1.mp ⟨trees, htrees⟩
  rw [htrees, hsql] at hagree
  cases hagree with
  | ok related =>
      exact ⟨hstored, Tree.related_sql, trees, sql, htrees, hsql, hlength, related⟩

end Query

end Criteria
