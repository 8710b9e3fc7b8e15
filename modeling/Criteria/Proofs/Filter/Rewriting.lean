import Criteria.Proofs.Filter.Simulation

/-!
Rewriting inside documents. A rule is applied at positions that are compiled, anywhere in a document
and any number of times. Where it keeps what is compiled at the position, up to a relation that the
backend and the fields keep, so does the rewriting what is compiled of the whole document.
-/

namespace Criteria.Filter

/-- What a value of a document is compiled as: under an operator, or as a right-hand side. -/
inductive Position where
  | under (op : Operator)
  | rightHand

namespace Position

/-- True of the positions at which an object is a group of entries. -/
def holdsGroups : Position → Bool
  | .under op => op.joins
  | .rightHand => true

variable {ε σ : Type} (b : Backend ε σ) (r : Resolver ε)

def compiled : Position → Json → Except CompileError ε
  | .under op, value => condition b r op value
  | .rightHand, value => operand b r value

end Position

/-- What comes of rewriting by a rule at positions that are compiled, any number of times. -/
inductive Rewritten (rule : Position → Json → Json → Prop) : Position → Json → Json → Prop
  | rule {p : Position} {value value' : Json} (applies : rule p value value') :
    Rewritten rule p value value'
  | refl (p : Position) (value : Json) : Rewritten rule p value value
  | trans {p : Position} {first second third : Json} (before : Rewritten rule p first second)
      (after : Rewritten rule p second third) : Rewritten rule p first third
  | item {op : Operator} (joins : op.joins) (front back : List Json) {item item' : Json}
      (inside : Rewritten rule (.under .and) item item') :
      Rewritten rule (.under op) (.arr (front ++ item :: back)) (.arr (front ++ item' :: back))
  | entry {op inner : Operator} (joins : op.joins) (front back : List (String × Json))
      {key : String} (known : Operator.ofKey? key = some inner) {value value' : Json}
      (inside : Rewritten rule (.under inner) value value') :
      Rewritten rule (.under op) (.obj (front ++ (key, value) :: back))
        (.obj (front ++ (key, value') :: back))
  | bare {op : Operator} (joins : op.joins) (front back : List (String × Json)) {name : String}
      (bare : ¬ Operator.hasSigil name) {value value' : Json}
      (inside : Rewritten rule .rightHand value value') :
      Rewritten rule (.under op) (.obj (front ++ (name, value) :: back))
        (.obj (front ++ (name, value') :: back))
  | field {op : Operation} (compares : op.takesRaw = false) (front back : List (String × Json))
      {name : String} {value value' : Json} (inside : Rewritten rule .rightHand value value') :
      Rewritten rule (.under (.field op)) (.obj (front ++ (name, value) :: back))
        (.obj (front ++ (name, value') :: back))
  | nested {entries entries' : List (String × Json)}
      (inside : Rewritten rule (.under .and) (.obj entries) (.obj entries')) :
      Rewritten rule .rightHand (.obj entries) (.obj entries')

variable {ε σ : Type} {sameErrors : Prop} {R : ε → ε → Prop} {b : Backend ε σ} {r : Resolver ε}

/-- A relation of conditions that the backend keeps in joining them, and the fields in applying an
operation to them. -/
structure Kept (sameErrors : Prop) (R : ε → ε → Prop) (b : Backend ε σ) (r : Resolver ε) :
    Prop where
  refl : ∀ e, R e e
  trans : ∀ first second third, R first second → R second third → R first third
  joins : Backend.JoinsRelated R b b
  apply : ∀ {name field}, r name = .ok field → ∀ {op arg arg'},
    Argument.Related .fixed R op arg arg' →
      Corresponds sameErrors R (field.apply b op arg) (field.apply b op arg')

theorem argument_corresponds {op : Operation} (hcompares : op.takesRaw = false)
    {value value' : Json} (h : Corresponds sameErrors R (operand b r value) (operand b r value')) :
    Corresponds sameErrors (Argument.Related .fixed R op) (argument b r op value)
      (argument b r op value') := by
  simp only [argument, hcompares]
  exact h.bind fun _ _ related => .ok (.operand hcompares related)

/-- Whatever is done with a field once it is found: a field that is not found is the same error on
both sides. -/
theorem corresponds_found {name : String} {f g : ResolvedField ε → Except CompileError ε}
    (h : ∀ {field}, r name = .ok field → Corresponds sameErrors R (f field) (g field)) :
    Corresponds sameErrors R (r name >>= f) (r name >>= g) := by
  cases hfound : r name with
  | error e => exact .error fun _ => rfl
  | ok field => exact h hfound

/-- Objects that differ in one entry correspond when the entries do, as all the others are compiled
alike. -/
theorem entries_correspond (hb : Kept sameErrors R b r) {op : Operator} (hjoins : op.joins)
    (front back : List (String × Json)) {entry entry' : String × Json}
    (h : Corresponds sameErrors R (entryCondition b r entry) (entryCondition b r entry')) :
    Corresponds sameErrors R (condition b r op (.obj (front ++ entry :: back)))
      (condition b r op (.obj (front ++ entry' :: back))) := by
  rw [condition_obj b r hjoins, condition_obj b r hjoins]
  exact (Corresponds.mapM_at hb.refl front back h).bind fun _ _ hes =>
    (join_agree hb.joins op true hes).corresponds

/-- What the rule keeps at its positions is kept at every position, by induction on the rewriting:
each step goes one position further out, to where the parts are joined. -/
theorem Rewritten.corresponds (hb : Kept sameErrors R b r)
    {rule : Position → Json → Json → Prop}
    (hrule : ∀ {p value value'}, rule p value value' →
      Corresponds sameErrors R (p.compiled b r value) (p.compiled b r value'))
    {p : Position} {value value' : Json} (h : Rewritten rule p value value') :
    Corresponds sameErrors R (p.compiled b r value) (p.compiled b r value') := by
  induction h with
  | rule applies => exact hrule applies
  | refl p value => exact .refl hb.refl _
  | trans before after ih ih' => exact ih.trans hb.trans ih'
  | item joins front back inside ih =>
      simp only [Position.compiled, condition_arr b r joins]
      exact (Corresponds.mapM_at hb.refl front back ih).bind fun _ _ hes =>
        (join_agree hb.joins _ false hes).corresponds
  | entry joins front back known inside ih =>
      refine entries_correspond hb joins front back ?_
      rw [entryCondition_of_operator b r known, entryCondition_of_operator b r known]
      exact ih
  | bare joins front back bare inside ih =>
      refine entries_correspond hb joins front back ?_
      rw [entryCondition_of_bare b r bare, entryCondition_of_bare b r bare]
      exact (argument_corresponds rfl ih).bind fun _ _ harg =>
        corresponds_found fun hfound => hb.apply hfound harg
  | @field op compares front back name value value' inside ih =>
      have hfield : Corresponds sameErrors R (fieldCondition b r op (name, value))
          (fieldCondition b r op (name, value')) := by
        rw [fieldCondition_eq, fieldCondition_eq]
        exact corresponds_found fun hfound =>
          (argument_corresponds compares ih).bind fun _ _ harg => hb.apply hfound harg
      simp only [Position.compiled, condition_field]
      exact (Corresponds.mapM_at hb.refl front back hfield).bind fun _ _ hes =>
        (joinFields_agree hb.joins _ hes).corresponds
  | nested inside ih => exact ih

/-- A document that states a condition. -/
inductive IsFilter : Json → Prop
  | items (first : Json) (rest : List Json) : IsFilter (.arr (first :: rest))
  | entries (first : String × Json) (rest : List (String × Json)) : IsFilter (.obj (first :: rest))

theorem IsFilter.compile {document : Json} (h : IsFilter document) :
    compile b r (some document) = (condition b r .and document >>= fun e => .ok (some e)) := by
  cases h <;> rfl

theorem isFilter_of_condition {document : Json} {e : ε}
    (h : condition b r .and document = .ok e) : IsFilter document := by
  match document with
  | .arr (first :: rest) => exact .items first rest
  | .obj (first :: rest) => exact .entries first rest
  | .arr [] | .obj [] | .null | .bool _ | .num _ | .str _ => cases h

@[simp]
theorem isFilter_arr {items : List Json} : IsFilter (.arr items) ↔ items ≠ [] := by
  constructor
  · rintro ⟨first, rest⟩
    simp
  · intro hne
    obtain ⟨first, rest, rfl⟩ := List.exists_cons_of_ne_nil hne
    exact .items first rest

@[simp]
theorem isFilter_obj {entries : List (String × Json)} : IsFilter (.obj entries) ↔ entries ≠ [] := by
  constructor
  · rintro ⟨first, rest⟩
    simp
  · intro hne
    obtain ⟨first, rest, rfl⟩ := List.exists_cons_of_ne_nil hne
    exact .entries first rest

/-- Rewriting makes no filter of a document that is none, and the other way round. This is needed at
the outermost position only, where a blank document is no filter. -/
theorem Rewritten.isFilter {rule : Position → Json → Json → Prop}
    (hrule : ∀ {op value value'}, rule (.under op) value value' →
      value = value' ∨ IsFilter value ∧ IsFilter value')
    {op : Operator} {value value' : Json} (h : Rewritten rule (.under op) value value') :
    value = value' ∨ IsFilter value ∧ IsFilter value' := by
  generalize hp : Position.under op = p at h
  induction h with
  | rule applies =>
      subst hp
      exact hrule applies
  | refl => exact .inl rfl
  | trans before after ih ih' =>
      rcases ih hp with rfl | ⟨hfirst, hsecond⟩
      · exact ih' hp
      · rcases ih' hp with rfl | ⟨-, hthird⟩
        · exact .inr ⟨hfirst, hsecond⟩
        · exact .inr ⟨hfirst, hthird⟩
  | item => exact .inr (by simp)
  | entry => exact .inr (by simp)
  | bare => exact .inr (by simp)
  | field => exact .inr (by simp)
  | nested => cases hp

theorem compile_rewritten (hb : Kept sameErrors R b r) {rule : Position → Json → Json → Prop}
    (hrule : ∀ {p value value'}, rule p value value' →
      Corresponds sameErrors R (p.compiled b r value) (p.compiled b r value'))
    (hfilter : ∀ {op value value'}, rule (.under op) value value' →
      value = value' ∨ IsFilter value ∧ IsFilter value')
    {document document' : Json} (h : Rewritten rule (.under .and) document document') :
    Corresponds sameErrors (Option.Rel R) (compile b r (some document))
      (compile b r (some document')) := by
  have hrefl : ∀ filter, Option.Rel R filter filter := fun filter => by
    cases filter with
    | none => exact .none
    | some e => exact .some (hb.refl e)
  rcases h.isFilter hfilter with rfl | ⟨hfirst, hsecond⟩
  · exact .refl hrefl _
  · rw [hfirst.compile, hsecond.compile]
    exact (h.corresponds hb hrule).bind fun _ _ related => .ok (.some related)

end Criteria.Filter
