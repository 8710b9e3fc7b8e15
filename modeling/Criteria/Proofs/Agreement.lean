import Criteria.Proofs.Resolution

/-!
Two backends side by side. Their expressions are tied by a relation that every operation keeps, and
what is compiled with either then fails with the same error or comes to related results. The two
may also be handed different values in the same place, as far as the values can stand for one
another there.
-/

namespace Criteria

/-- Two outcomes that are both errors, the same one if errors are to be the same, or related
results. -/
inductive Corresponds {ε α β : Type} (sameErrors : Prop) (R : α → β → Prop) :
    Except ε α → Except ε β → Prop
  | error {e e' : ε} (same : sameErrors → e = e') :
    Corresponds sameErrors R (.error e) (.error e')
  | ok {a : α} {b : β} (related : R a b) : Corresponds sameErrors R (.ok a) (.ok b)

namespace Corresponds

variable {ε α β γ δ : Type} {sameErrors : Prop} {R : α → β → Prop} {S : γ → δ → Prop}

theorem refl {R : α → α → Prop} (hR : ∀ a, R a a) (x : Except ε α) :
    Corresponds sameErrors R x x := by
  cases x with
  | error e => exact .error fun _ => rfl
  | ok a => exact .ok (hR a)

theorem of_eq {R : α → α → Prop} (hR : ∀ a, R a a) {x y : Except ε α} (h : x = y) :
    Corresponds sameErrors R x y :=
  h ▸ refl hR x

theorem trans {R : α → α → Prop} (hR : ∀ a b c, R a b → R b c → R a c) {x y z : Except ε α}
    (h : Corresponds sameErrors R x y) (h' : Corresponds sameErrors R y z) :
    Corresponds sameErrors R x z := by
  cases h with
  | error same =>
      cases h' with
      | error same' => exact .error fun hsame => (same hsame).trans (same' hsame)
  | ok related =>
      cases h' with
      | ok related' => exact .ok (hR _ _ _ related related')

/-- Runs that correspond and go on to runs that correspond do so as a whole. An error of the first
part is an error of both, and nothing of what follows is run. -/
theorem bind {x : Except ε α} {y : Except ε β} {f : α → Except ε γ} {g : β → Except ε δ}
    (h : Corresponds sameErrors R x y) (hf : ∀ a b, R a b → Corresponds sameErrors S (f a) (g b)) :
    Corresponds sameErrors S (x >>= f) (y >>= g) := by
  cases h with
  | error same => exact .error same
  | ok related => exact hf _ _ related

/-- Runs over two lists correspond when they do so element by element. Both stop at the same place,
with the errors that were met there. -/
theorem mapM {f : α → Except ε γ} {g : β → Except ε δ} {xs : List α} {ys : List β}
    (h : List.Forall₂ (fun x y => Corresponds sameErrors S (f x) (g y)) xs ys) :
    Corresponds sameErrors (List.Forall₂ S) (xs.mapM f) (ys.mapM g) := by
  induction h with
  | nil => exact .ok .nil
  | cons hfirst hrest ih =>
      rw [List.mapM_cons, List.mapM_cons]
      exact hfirst.bind fun _ _ first => ih.bind fun _ _ rest => .ok (.cons first rest)

/-- Runs over lists that differ in one element. In front of it and behind it the runs are the same,
so only the outcomes at that element are compared. -/
theorem mapM_at {R : γ → γ → Prop} (hR : ∀ c, R c c) {f : α → Except ε γ} (front back : List α)
    {x x' : α} (h : Corresponds sameErrors R (f x) (f x')) :
    Corresponds sameErrors (List.Forall₂ R) ((front ++ x :: back).mapM f)
      ((front ++ x' :: back).mapM f) := by
  have hsame (xs : List α) :
      List.Forall₂ (fun x y => Corresponds sameErrors R (f x) (f y)) xs xs :=
    List.forall₂_same.mpr fun x _ => refl hR (f x)
  exact mapM (List.rel_append (hsame front) (.cons h (hsame back)))

theorem eq {x y : Except ε α} (h : Corresponds True (· = ·) x y) : x = y := by
  cases h with
  | error same => rw [same trivial]
  | ok related => rw [related]

theorem eq_ok_iff {x y : Except ε α} (h : Corresponds sameErrors (· = ·) x y) (a : α) :
    x = .ok a ↔ y = .ok a := by
  cases h with
  | error same => simp
  | ok related => rw [related]

theorem imp {R' : α → β → Prop} (hR : ∀ a b, R a b → R' a b) {x : Except ε α} {y : Except ε β}
    (h : Corresponds sameErrors R x y) : Corresponds sameErrors R' x y := by
  cases h with
  | error same => exact .error same
  | ok related => exact .ok (hR _ _ related)

/-- Of two outcomes that correspond both are results or neither is. -/
theorem ok_iff {x : Except ε α} {y : Except ε β} (h : Corresponds sameErrors R x y) :
    (∃ a, x = .ok a) ↔ ∃ b, y = .ok b := by
  cases h with
  | error same => simp
  | ok related => simp

end Corresponds

/-- Two outcomes that are the same error, or related results. -/
inductive Agree {ε α β : Type} (R : α → β → Prop) : Except ε α → Except ε β → Prop
  | error (e : ε) : Agree R (.error e) (.error e)
  | ok {a : α} {b : β} (related : R a b) : Agree R (.ok a) (.ok b)

theorem Agree.corresponds {ε α β : Type} {sameErrors : Prop} {R : α → β → Prop} {x : Except ε α}
    {y : Except ε β} (h : Agree R x y) : Corresponds sameErrors R x y := by
  cases h with
  | error e => exact .error fun _ => rfl
  | ok related => exact .ok related

theorem Corresponds.agree {ε α β : Type} {R : α → β → Prop} {x : Except ε α} {y : Except ε β}
    (h : Corresponds True R x y) : Agree R x y := by
  cases h with
  | error same =>
      cases same trivial
      exact .error _
  | ok related => exact .ok related

namespace Agree

variable {ε α β γ δ : Type} {R : α → β → Prop} {S : γ → δ → Prop}

theorem refl {R : α → α → Prop} (hR : ∀ a, R a a) (x : Except ε α) : Agree R x x :=
  (Corresponds.refl hR x).agree

theorem bind {x : Except ε α} {y : Except ε β} {f : α → Except ε γ} {g : β → Except ε δ}
    (h : Agree R x y) (hf : ∀ a b, R a b → Agree S (f a) (g b)) : Agree S (x >>= f) (y >>= g) :=
  (h.corresponds.bind fun a b related => (hf a b related).corresponds).agree

theorem mapM {f : α → Except ε γ} {g : β → Except ε δ} {xs : List α} {ys : List β}
    (h : List.Forall₂ (fun x y => Agree S (f x) (g y)) xs ys) :
    Agree (List.Forall₂ S) (xs.mapM f) (ys.mapM g) :=
  (Corresponds.mapM (h.imp fun _ _ => Agree.corresponds)).agree

theorem error_iff {x : Except ε α} {y : Except ε β} (h : Agree R x y) (e : ε) :
    x = .error e ↔ y = .error e := by
  cases h with
  | error e => simp
  | ok related => simp

theorem ok_iff {x : Except ε α} {y : Except ε β} (h : Agree R x y) :
    (∃ a, x = .ok a) ↔ ∃ b, y = .ok b :=
  Corresponds.ok_iff (h.corresponds : Corresponds True R x y)

end Agree

/-- Which values may stand for one another: as right-hand sides that are literals, and as the raw
values of membership tests. -/
structure Slots where
  literal : Json → Json → Prop
  raw : Operation → Json → Json → Prop
  literal_refl : ∀ value, literal value value
  raw_refl : ∀ op value, raw op value value

/-- Each value stands for itself only. -/
def Slots.fixed : Slots where
  literal := (· = ·)
  raw _ := (· = ·)
  literal_refl _ := rfl
  raw_refl _ _ := rfl

variable {ε ε' σ σ' : Type}

/-- Every operation takes related expressions to related expressions or sorts. Comparisons and
membership tests have to do so only for the operations that they are meant for. -/
structure Backend.Related (slots : Slots) (R : ε → ε' → Prop) (Q : σ → σ' → Prop)
    (b : Backend ε σ) (b' : Backend ε' σ') : Prop where
  column : ∀ table name, R (b.column table name) (b'.column table name)
  literal : ∀ value value', slots.literal value value' → R (b.literal value) (b'.literal value')
  compare : ∀ op left left' right right', op.takesRaw = false → R left left' → R right right' →
    R (b.compare op left right) (b'.compare op left' right')
  member : ∀ op left left' values values', op.takesRaw → R left left' →
    slots.raw op values values' → R (b.member op left values) (b'.member op left' values')
  subquery : ∀ table key filter filter', R filter filter' →
    R (b.subquery table key filter) (b'.subquery table key filter')
  among : ∀ left left' rows rows', R left left' → R rows rows' →
    R (b.among left rows) (b'.among left' rows')
  and : ∀ operands operands', List.Forall₂ R operands operands' →
    R (b.and operands) (b'.and operands')
  or : ∀ operands operands', List.Forall₂ R operands operands' →
    R (b.or operands) (b'.or operands')
  not : ∀ operand operand', R operand operand' → R (b.not operand) (b'.not operand')
  ascending : ∀ operand operand', R operand operand' →
    Q (b.ascending operand) (b'.ascending operand')
  descending : ∀ operand operand', R operand operand' →
    Q (b.descending operand) (b'.descending operand')

/-- What an operation is applied to on either side. -/
inductive Argument.Related (slots : Slots) (R : ε → ε' → Prop) (op : Operation) :
    Argument ε → Argument ε' → Prop
  | operand {rhs : ε} {rhs' : ε'} (compares : op.takesRaw = false) (related : R rhs rhs') :
    Related slots R op (.operand rhs) (.operand rhs')
  | raw {values values' : Json} (takes : op.takesRaw) (slot : slots.raw op values values') :
    Related slots R op (.raw values) (.raw values')

/-- The same stored field, standing on related operands. -/
inductive ResolvedField.Related (R : ε → ε' → Prop) : ResolvedField ε → ResolvedField ε' → Prop
  | plain {operand : ε} {operand' : ε'} (field : String) (registered : Option ColumnField)
    (related : R operand operand') : Related R (.plain field operand registered)
      (.plain field operand' registered)
  | relation {anchor : ε} {anchor' : ε'} (field : String) (relation : Relation)
    (related : R anchor anchor') : Related R (.relation field anchor relation)
      (.relation field anchor' relation)

/-- Related conditions are joined to related conditions. -/
structure Backend.JoinsRelated (R : ε → ε' → Prop) (b : Backend ε σ) (b' : Backend ε' σ') :
    Prop where
  and : ∀ operands operands', List.Forall₂ R operands operands' →
    R (b.and operands) (b'.and operands')
  or : ∀ operands operands', List.Forall₂ R operands operands' →
    R (b.or operands) (b'.or operands')
  not : ∀ operand operand', R operand operand' → R (b.not operand) (b'.not operand')

section Fields

variable {slots : Slots} {R : ε → ε' → Prop} {Q : σ → σ' → Prop} {b : Backend ε σ}
  {b' : Backend ε' σ'}

theorem Backend.Related.joins (hb : Backend.Related slots R Q b b') :
    Backend.JoinsRelated R b b' where
  and := hb.and
  or := hb.or
  not := hb.not

/-- Whatever operation is applied, related backends keep the relation: a comparison by its
right-hand side, a membership test by what may stand for its raw value. -/
theorem Backend.Related.apply (hb : Backend.Related slots R Q b b') {op : Operation} {left : ε}
    {left' : ε'} (hleft : R left left') {arg : Argument ε} {arg' : Argument ε'}
    (harg : Argument.Related slots R op arg arg') :
    R (b.apply op left arg) (b'.apply op left' arg') := by
  cases harg with
  | operand compares related => exact hb.compare _ _ _ _ _ compares hleft related
  | raw takes slot => exact hb.member _ _ _ _ _ takes hleft slot

theorem Backend.Related.sort (hb : Backend.Related slots R Q b b') {operand : ε} {operand' : ε'}
    (h : R operand operand') (direction : Direction) :
    Q (b.sort direction operand) (b'.sort direction operand') := by
  cases direction with
  | asc => exact hb.ascending _ _ h
  | desc => exact hb.descending _ _ h

/-- Fields that resolve alike take the same operations, refuse the others with the same error, and
come to related conditions. -/
theorem ResolvedField.Related.apply (hb : Backend.Related slots R Q b b') {field : ResolvedField ε}
    {field' : ResolvedField ε'} (h : ResolvedField.Related R field field') {op : Operation}
    {arg : Argument ε} {arg' : Argument ε'} (harg : Argument.Related slots R op arg arg') :
    Agree R (field.apply b op arg) (field'.apply b' op arg') := by
  cases h with
  | plain field registered related =>
      simp only [ResolvedField.apply]
      split
      · exact .ok (hb.apply related harg)
      · exact .error _
  | relation field relation related =>
      simp only [ResolvedField.apply]
      split
      · have hvalue := hb.apply (hb.column (some relation.table) relation.value) harg
        exact .ok (hb.among _ _ _ _ related (hb.subquery _ _ _ _ hvalue))
      · exact .error _

theorem ResolvedField.Related.alone {field : ResolvedField ε} {field' : ResolvedField ε'}
    (h : ResolvedField.Related R field field') (purpose : String) :
    Agree R (field.alone purpose) (field'.alone purpose) := by
  cases h with
  | plain field registered related => exact .ok related
  | relation field relation related => exact .error _

end Fields

/-- The fields of a stored model resolve alike for any two backends of the program. A custom field
would not, as its handlers belong to one of them. -/
theorem Scope.resolve_agree {ι : Type} [DecidableEq ι] {E : ι → Type} {scope : Scope E}
    (hstored : scope.model.IsStored) {slots : Slots} {i j : ι} {R : E i → E j → Prop}
    {Q : σ → σ' → Prop} {b : Backend (E i) σ} {b' : Backend (E j) σ'}
    (hb : Backend.Related slots R Q b b') (name : String) :
    Agree (ResolvedField.Related R) (scope.resolve i b name) (scope.resolve j b' name) := by
  simp only [resolve]
  split
  next => exact .error _
  next column found => exact .ok (.plain name _ (hb.column _ _))
  next related found =>
    have hbinding : Agree (· = ·) scope.binding scope.binding := .refl (fun _ => rfl) _
    refine hbinding.bind fun binding _ heq => ?_
    cases heq
    exact .ok (.relation name related (hb.column _ _))
  next handlers found => exact absurd found (hstored _ _)

end Criteria
