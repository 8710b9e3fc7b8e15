import Mathlib.Data.List.Perm.Basic
import Criteria.Proofs.Filter.Rewriting
import Criteria.Proofs.Sql.Reordering

/-!
Documents up to the order of their entries. Whether a document compiles does not depend on the
order, as each part compiles by itself; which error is found first does. Conditions come out in
another order, and only the branch that `$not` takes has to stay in front.
-/

namespace Criteria.Filter

/-- Parts of a document in another order. `firstKept` keeps the first branch of `$not`. -/
inductive Permuted (firstKept : Prop) : Position → Json → Json → Prop
  | items {op : Operator} (joins : op.joins) {items items' : List Json} (perm : items.Perm items')
      (first : firstKept → op = .not → items.head? = items'.head?) :
    Permuted firstKept (.under op) (.arr items) (.arr items')
  | entries {op : Operator} (joins : op.joins) {entries entries' : List (String × Json)}
      (perm : entries.Perm entries')
      (first : firstKept → op = .not → entries.head? = entries'.head?) :
    Permuted firstKept (.under op) (.obj entries) (.obj entries')
  | fields {op : Operation} {fields fields' : List (String × Json)} (perm : fields.Perm fields') :
    Permuted firstKept (.under (.field op)) (.obj fields) (.obj fields')

theorem Permuted.isFilter {firstKept : Prop} {op : Operator} {value value' : Json}
    (h : Permuted firstKept (.under op) value value') :
    value = value' ∨ IsFilter value ∧ IsFilter value' := by
  have hlists {α : Type} {xs ys : List α} (hperm : xs.Perm ys) : xs = ys ∨ xs ≠ [] ∧ ys ≠ [] := by
    rcases eq_or_ne xs [] with rfl | hne
    · exact .inl hperm.nil_eq
    · exact .inr ⟨hne, fun heq => hne (heq ▸ hperm).eq_nil⟩
  cases h with
  | items joins perm first => exact (hlists perm).imp (congrArg _) (by simp)
  | entries joins perm first => exact (hlists perm).imp (congrArg _) (by simp)
  | fields perm => exact (hlists perm).imp (congrArg _) (by simp)

/-- Results in another order. If the lists begin alike, so do the results. -/
def SameParts {α β : Type} (xs ys : List α) (as bs : List β) : Prop :=
  as.Perm bs ∧ (xs.head? = ys.head? → as.head? = bs.head?)

theorem head?_map_of_mapM {ε α β : Type} {f : α → Except ε β} {xs : List α} {as : List β}
    (h : xs.mapM f = .ok as) : xs.head?.map f = as.head?.map .ok := by
  cases mapM_eq_ok.mp h with
  | nil => rfl
  | cons hfirst hrest => exact congrArg some hfirst

/-- Runs over the same elements in another order both have a result or both fail. They may fail with
different errors, since another element may fail first. -/
theorem mapM_permuted {ε α β : Type} {f : α → Except ε β} {xs ys : List α} (h : xs.Perm ys) :
    Corresponds False (SameParts xs ys) (xs.mapM f) (ys.mapM f) := by
  cases hxs : xs.mapM f with
  | error e =>
      cases hys : ys.mapM f with
      | error e' => exact .error False.elim
      | ok bs =>
          have hall := exists_mapM_eq_ok.mp ⟨bs, hys⟩
          obtain ⟨as, has⟩ := exists_mapM_eq_ok.mpr fun x hx => hall x (h.mem_iff.mp hx)
          simp [hxs] at has
  | ok as =>
      obtain ⟨bs, hforall, hperm⟩ := List.perm_comp_forall₂ h.symm (mapM_eq_ok.mp hxs)
      have hys : ys.mapM f = .ok bs := mapM_eq_ok.mpr hforall
      rw [hys]
      refine .ok ⟨hperm.symm, fun hhead => ?_⟩
      have hok : Function.Injective (Except.ok : β → Except ε β) := fun _ _ heq => by cases heq; rfl
      apply Option.map_injective hok
      rw [← head?_map_of_mapM hxs, ← head?_map_of_mapM hys, hhead]

variable {ε σ : Type} {R : ε → ε → Prop} {b : Backend ε σ} {r : Resolver ε} {firstKept : Prop}

/-- A relation of conditions that does not see in which order they are joined. Without `firstKept`
it does not see either what is negated. -/
structure Indifferent (firstKept : Prop) (R : ε → ε → Prop) (b : Backend ε σ) : Prop where
  refl : ∀ e, R e e
  and : ∀ es es', es.Perm es' → R (b.and es) (b.and es')
  or : ∀ es es', es.Perm es' → R (b.or es) (b.or es')
  not : ¬ firstKept → ∀ e e', R (b.not e) (b.not e')

/-- Joined in another order, conditions come to a related condition. Only `$not` sees the order, and
only by which branch is the first. -/
theorem join_permuted (hb : Indifferent firstKept R b) (op : Operator) (entries : Bool)
    {es es' : List ε} (h : es.Perm es') (hfirst : firstKept → op = .not → es.head? = es'.head?) :
    Corresponds False R (join b op entries es) (join b op entries es') := by
  rcases es with _ | ⟨first, _ | ⟨second, rest⟩⟩
  · rw [h.nil_eq]
    exact .refl hb.refl _
  · rw [List.singleton_perm.mp h]
    exact .refl hb.refl _
  rcases es' with _ | ⟨first', _ | ⟨second', rest'⟩⟩
  · exact absurd h.length_eq (by simp)
  · exact absurd h.length_eq (by simp)
  cases op with
  | not =>
      refine .ok ?_
      by_cases hkept : firstKept
      · rw [Option.some.inj (hfirst hkept rfl)]
        exact hb.refl _
      · exact hb.not hkept _ _
  | or => simpa [join] using Corresponds.ok (hb.or _ _ h)
  | _ => simpa [join] using Corresponds.ok (hb.and _ _ h)

theorem joinFields_permuted (hb : Indifferent firstKept R b) (op : Operator) {es es' : List ε}
    (h : es.Perm es') : Corresponds False R (joinFields b op es) (joinFields b op es') := by
  rcases es with _ | ⟨first, _ | ⟨second, rest⟩⟩
  · rw [h.nil_eq]
    exact .refl hb.refl _
  · rw [List.singleton_perm.mp h]
    exact .refl hb.refl _
  rcases es' with _ | ⟨first', _ | ⟨second', rest'⟩⟩
  · exact absurd h.length_eq (by simp)
  · exact absurd h.length_eq (by simp)
  exact .ok (hb.and _ _ h)

/-- Parts that are permuted at one position correspond there, whatever the relation, as long as it
does not see the order. -/
theorem permuted_corresponds (hb : Indifferent firstKept R b) {p : Position} {value value' : Json}
    (h : Permuted firstKept p value value') :
    Corresponds False R (p.compiled b r value) (p.compiled b r value') := by
  cases h with
  | items joins perm first =>
      simp only [Position.compiled, condition_arr b r joins]
      exact (mapM_permuted perm).bind fun es es' hes =>
        join_permuted hb _ false hes.1 fun hkept hnot => hes.2 (first hkept hnot)
  | entries joins perm first =>
      simp only [Position.compiled, condition_obj b r joins]
      exact (mapM_permuted perm).bind fun es es' hes =>
        join_permuted hb _ true hes.1 fun hkept hnot => hes.2 (first hkept hnot)
  | fields perm =>
      simp only [Position.compiled, condition_field]
      exact (mapM_permuted perm).bind fun es es' hes => joinFields_permuted hb _ hes.1

/-- Permuting the parts of a document at any number of positions keeps whether it compiles, and
keeps the relation of what it compiles to. -/
theorem compile_permuted (hb : Indifferent firstKept R b) (hkept : Kept False R b r)
    {document document' : Json}
    (h : Rewritten (Permuted firstKept) (.under .and) document document') :
    Corresponds False (Option.Rel R) (compile b r (some document)) (compile b r (some document')) :=
  compile_rewritten hkept (permuted_corresponds hb) Permuted.isFilter h

theorem indifferent_any (b : Backend ε σ) : Indifferent False (fun _ _ => True) b where
  refl _ := trivial
  and _ _ _ := trivial
  or _ _ _ := trivial
  not _ _ _ := trivial

/-- Whether an operation can be applied to a field does not depend on what it is applied to, only on
the field and the operation. -/
theorem apply_corresponds (b : Backend ε σ) (field : ResolvedField ε) (op : Operation)
    (arg arg' : Argument ε) :
    Corresponds False (fun _ _ => True) (field.apply b op arg) (field.apply b op arg') := by
  cases field with
  | plain field operand registered =>
      simp only [ResolvedField.apply]
      split
      · exact .ok trivial
      · exact .error False.elim
  | relation field anchor related =>
      simp only [ResolvedField.apply]
      split
      · exact .ok trivial
      · exact .error False.elim
  | custom field primary offers =>
      simp only [ResolvedField.apply]
      split
      · exact .error False.elim
      · exact .error False.elim
      · exact .ok trivial

theorem kept_any (b : Backend ε σ) (r : Resolver ε) : Kept False (fun _ _ => True) b r where
  refl _ := trivial
  trans _ _ _ _ _ := trivial
  joins := ⟨fun _ _ _ => trivial, fun _ _ _ => trivial, fun _ _ _ => trivial⟩
  apply _ _ _ _ _ := apply_corresponds b _ _ _ _

section Stored

open Sql (Expr Interpretation Database Scopes)

theorem indifferent_reordered : Indifferent True Expr.Reordered Sql.backend where
  refl := .refl
  and _ _ h := .permute .and h
  or _ _ h := .permute .or h
  not h := absurd trivial h

variable {κ : Type} [DecidableEq κ] {others : κ → Type} {scope : Scope (Sql.ExpressionsWith others)}

theorem kept_reordered (hstored : scope.model.IsStored) :
    Kept False Expr.Reordered Sql.backend (scope.resolve none Sql.backend) where
  refl := .refl
  trans _ _ _ := .trans
  joins := Sql.related_reordered.joins
  apply := by
    intro name field hfield op arg arg' harg
    have hagree := Scope.resolve_agree (i := none) (j := none) hstored Sql.related_reordered name
    rw [hfield] at hagree
    cases hagree with
    | ok related => exact (related.apply Sql.related_reordered harg).corresponds

/-- Documents that differ in the order of their entries both compile or both fail. If the first
branch of every `$not` has stayed in front, they compile to filters that differ in the order of
their operands, and have the same value in every database. -/
theorem compile_reordered (hstored : scope.model.IsStored) {document document' : Json} :
    let compile := compile Sql.backend (scope.resolve none Sql.backend)
    (Rewritten (Permuted False) (.under .and) document document' →
      ((∃ filter, compile (some document) = .ok filter) ↔
        ∃ filter, compile (some document') = .ok filter)) ∧
    (Rewritten (Permuted True) (.under .and) document document' →
      (compile (some document) = .ok none ∧ compile (some document') = .ok none) ∨
      (∃ error error', compile (some document) = .error error ∧
        compile (some document') = .error error') ∨
      ∃ filter filter' : Expr, compile (some document) = .ok (some filter) ∧
        compile (some document') = .ok (some filter') ∧ filter.Reordered filter' ∧
        ∀ (V : Type) (I : Interpretation V) (db : Database V) (scopes : Scopes V),
          filter.eval I db scopes = filter'.eval I db scopes) := by
  intro compile
  constructor
  · intro h
    exact (compile_permuted (indifferent_any Sql.backend) (kept_any _ _) h).ok_iff
  · intro h
    have hcorresponds : Corresponds False (Option.Rel Expr.Reordered) (compile (some document))
        (compile (some document')) :=
      compile_permuted indifferent_reordered (kept_reordered hstored) h
    generalize compile (some document) = filter, compile (some document') = filter'
      at hcorresponds ⊢
    cases hcorresponds with
    | error same => exact .inr (.inl ⟨_, _, rfl, rfl⟩)
    | ok related =>
        cases related with
        | none => exact .inl ⟨rfl, rfl⟩
        | some hreordered =>
            exact .inr (.inr ⟨_, _, rfl, rfl, hreordered, fun V I db scopes =>
              hreordered.eval_eq scopes⟩)

/-- Pairs of conditions in either order. -/
def taggedAs (first second : String) : Json :=
  .obj [(first, .str "x"), (second, .str "x")]

def laterThan (first second : String) : Json :=
  .obj [("$gt", .obj [(first, .str "b"), (second, .str "b")])]

def joinedNever : Json :=
  .obj [("joined", .null)]

def orderedDocument : Json :=
  .obj [("name", .str "a"),
    ("$not", .arr [taggedAs "tag" "name", joinedNever, laterThan "name" "joined"])]

/-- With everything in another order, but for the branch that is negated. -/
def reorderedDocument : Json :=
  .obj [("$not", .arr [taggedAs "name" "tag", laterThan "joined" "name", joinedNever]),
    ("name", .str "a")]

/-- With another branch negated. -/
def divertedDocument : Json :=
  .obj [("name", .str "a"),
    ("$not", .arr [joinedNever, taggedAs "tag" "name", laterThan "name" "joined"])]

theorem rewritten_reorderedDocument :
    Rewritten (Permuted True) (.under .and) orderedDocument reorderedDocument := by
  have hnot : Operator.ofKey? "$not" = some .not := rfl
  have hgt : Operator.ofKey? "$gt" = some (.field .gt) := rfl
  have htagged : Permuted True (.under .and) (taggedAs "tag" "name") (taggedAs "name" "tag") :=
    .entries rfl (.swap ..) nofun
  have hfields : Permuted True (.under (.field .gt)) _ _ :=
    .fields (.swap ("joined", .str "b") ("name", .str "b") [])
  have hlater : Rewritten (Permuted True) (.under .and) (laterThan "name" "joined")
      (laterThan "joined" "name") := .entry rfl [] [] hgt (.rule hfields)
  have hbranches : Permuted True (.under .not)
      (.arr [taggedAs "name" "tag", joinedNever, laterThan "joined" "name"])
      (.arr [taggedAs "name" "tag", laterThan "joined" "name", joinedNever]) :=
    .items rfl (.cons _ (.swap ..)) fun _ _ => rfl
  have hnegation := ((Rewritten.item rfl [] _ (.rule htagged)).trans
    (.item rfl [_, _] [] hlater)).trans (.rule hbranches)
  have hentries : Permuted True (.under .and)
      (.obj [("name", .str "a"),
        ("$not", .arr [taggedAs "name" "tag", laterThan "joined" "name", joinedNever])])
      reorderedDocument := .entries rfl (.swap ..) nofun
  exact (Rewritten.entry rfl [_] [] hnot hnegation).trans (.rule hentries)

theorem rewritten_divertedDocument :
    Rewritten (Permuted False) (.under .and) orderedDocument divertedDocument := by
  have hnot : Operator.ofKey? "$not" = some .not := rfl
  have hbranches : Permuted False (.under .not)
      (.arr [taggedAs "tag" "name", joinedNever, laterThan "name" "joined"])
      (.arr [joinedNever, taggedAs "tag" "name", laterThan "name" "joined"]) :=
    .items rfl (.swap ..) nofun
  exact .entry rfl [_] [] hnot (.rule hbranches)

/-- Diverted, another branch stands in front of the negated one, and only whether it compiles is
kept. Reordered, the filters differ in the order of operands alone. -/
theorem compile_reordered_reorderedDocument :
    let scope : Scope (Sql.ExpressionsWith Empty.elim) := ⟨"user", .taggedUsers⟩
    let compile := compile Sql.backend (scope.resolve none Sql.backend)
    scope.model.IsStored ∧
    (Rewritten (Permuted False) (.under .and) orderedDocument divertedDocument ∧
      ((∃ filter, compile (some orderedDocument) = .ok filter) ↔
        ∃ filter, compile (some divertedDocument) = .ok filter)) ∧
    Rewritten (Permuted True) (.under .and) orderedDocument reorderedDocument ∧
    ∃ filter filter' : Expr, compile (some orderedDocument) = .ok (some filter) ∧
      compile (some reorderedDocument) = .ok (some filter') ∧ filter.Reordered filter' ∧
      ∀ (V : Type) (I : Interpretation V) (db : Database V) (scopes : Scopes V),
        filter.eval I db scopes = filter'.eval I db scopes := by
  intro scope compile
  have hstored : scope.model.IsStored := Model.isStored_taggedUsers
  have hsome : ∃ filter, compile (some orderedDocument) = .ok (some filter) := ⟨_, rfl⟩
  obtain ⟨filter, hfilter⟩ := hsome
  refine ⟨hstored, ⟨rewritten_divertedDocument,
    (compile_reordered hstored).1 rewritten_divertedDocument⟩, rewritten_reorderedDocument, ?_⟩
  rcases (compile_reordered hstored).2 rewritten_reorderedDocument with
    ⟨hnone, -⟩ | ⟨error, error', herror, -⟩ | hboth
  · cases hfilter.symm.trans hnone
  · cases hfilter.symm.trans herror
  · exact hboth

end Stored

end Criteria.Filter
