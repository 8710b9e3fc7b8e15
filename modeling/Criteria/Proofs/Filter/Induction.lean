import Criteria.Proofs.Filter.Compilation
import Criteria.Proofs.Resolution

/-!
Induction over the conditions that a model's documents compile to. What holds of the columns of
references, of an operation applied to a field, and of parts joined to a whole holds of every
condition, and a right-hand side may be taken to have it already.
-/

namespace Criteria.Filter

/-- What an entry comes to, in terms of its operator or of the equality that a bare field states. -/
def OfEntry {ε : Type} (ofOperator : Operator → Json → ε → Prop)
    (ofField : Operation → String × Json → ε → Prop) (entry : String × Json) (e : ε) : Prop :=
  (∃ op, Operator.ofKey? entry.1 = some op ∧ ofOperator op entry.2 e) ∨
  (¬ Operator.hasSigil entry.1 ∧ ofField .eq entry e)

variable {ι σ : Type} [DecidableEq ι] {E : ι → Type}

theorem condition_induction (scope : Scope E) (i : ι) (b : Backend (E i) σ)
    (ofOperator : Operator → Json → E i → Prop)
    (ofField : Operation → String × Json → E i → Prop)
    (reference : ∀ name column, scope.model.fields.get? name = some (.plain column) →
      ofOperator .ref (.str name) (scope.plainColumn b name column))
    (field : ∀ op name value arg e,
      (∀ nested, condition b (scope.resolve i b) .and value = .ok nested →
        ofOperator .and value nested) →
      argument b (scope.resolve i b) op value = .ok arg → scope.Applied i b name op arg e →
      ofField op (name, value) e)
    (fields : ∀ op fields es e, List.Forall₂ (ofField op) fields es →
      joinFields b (.field op) es = .ok e → ofOperator (.field op) (.obj fields) e)
    (items : ∀ op items es e, op.joins → List.Forall₂ (ofOperator .and) items es →
      join b op false es = .ok e → ofOperator op (.arr items) e)
    (entries : ∀ op entries es e, op.joins →
      List.Forall₂ (OfEntry ofOperator ofField) entries es →
      join b op true es = .ok e → ofOperator op (.obj entries) e)
    {op : Operator} {value : Json} {e : E i}
    (h : condition b (scope.resolve i b) op value = .ok e) : ofOperator op value e := by
  -- Bare fields and the fields of an operation come to the same, once their value has been taken.
  have hfield {op : Operation} {part : String × Json} {e : E i}
      (ih : ∀ {nested}, condition b (scope.resolve i b) .and part.2 = .ok nested →
        ofOperator .and part.2 nested)
      (h : fieldCondition b (scope.resolve i b) op part = .ok e) : ofField op part e := by
    obtain ⟨found, arg, hresolve, harg, happly⟩ := fieldCondition_eq_ok.mp h
    exact field op part.1 part.2 arg e (fun _ => ih) harg
      (Scope.resolve_apply_eq_ok.mp ⟨found, hresolve, happly⟩)
  induction value generalizing op e with
  | arr list ih =>
      cases compiled_of_condition h with
      | items hjoins parts joined =>
          have hparts := (List.forall₂_and_left _ _).mpr ⟨ih, parts⟩
          exact items op list _ e hjoins (hparts.imp fun item e he => he.1 he.2) joined
  | obj list ih =>
      cases compiled_of_condition h with
      | fields parts joined =>
          have hparts := (List.forall₂_and_left _ _).mpr ⟨ih, parts⟩
          exact fields _ list _ e (hparts.imp fun part e he => hfield he.1 he.2) joined
      | entries hjoins parts joined =>
          have hparts := (List.forall₂_and_left _ _).mpr ⟨ih, parts⟩
          refine entries op list _ e hjoins (hparts.imp fun entry e he => ?_) joined
          rcases entryCondition_eq_ok.mp he.2 with ⟨op, hkey, hop⟩ | ⟨hbare, hequal⟩
          · exact .inl ⟨op, hkey, he.1 hop⟩
          · exact .inr ⟨hbare, hfield he.1 hequal⟩
  | str name =>
      cases compiled_of_condition h with
      | reference resolved alone =>
          obtain ⟨column, found, rfl⟩ := Scope.resolve_alone_eq_ok.mp ⟨_, resolved, alone⟩
          exact reference name column found
  | _ => exact nomatch compiled_of_condition h

end Criteria.Filter
