import Mathlib.Data.List.Forall2

/-!
Runs that may fail, one after the other: a run over a list succeeds exactly when the run of every
element does, and its result pairs off with the list.
-/

namespace Criteria

variable {ε α β γ : Type}

theorem bind_eq_ok {x : Except ε α} {f : α → Except ε β} {b : β} :
    (x >>= f) = .ok b ↔ ∃ a, x = .ok a ∧ f a = .ok b := by
  cases x with
  | error e => simp [bind, Except.bind]
  | ok a => simp [bind, Except.bind]

/-- A first part and what follows it fail with the error of the first, or with that of what follows
when the first has a result. -/
theorem bind_eq_error {x : Except ε α} {f : α → Except ε β} {e : ε} :
    (x >>= f) = .error e ↔ x = .error e ∨ ∃ a, x = .ok a ∧ f a = .error e := by
  cases x with
  | error e => simp [bind, Except.bind]
  | ok a => simp [bind, Except.bind]

theorem map_eq_ok {f : α → β} {x : Except ε α} {b : β} :
    f <$> x = .ok b ↔ ∃ a, x = .ok a ∧ f a = b := by
  cases x with
  | error e => simp [Functor.map, Except.map]
  | ok a => simp [Functor.map, Except.map]

theorem mapError_eq_ok {ε' : Type} {x : Except ε α} {f : ε → ε'} {a : α} :
    x.mapError f = .ok a ↔ x = .ok a := by
  cases x <;> simp [Except.mapError]

theorem exists_of_isOk {x : Except ε α} (h : x.isOk) : ∃ a, x = .ok a := by
  cases x with
  | error e => cases h
  | ok a => exact ⟨a, rfl⟩

theorem eq_ok_of_toOption {x : Except ε α} {a : α} (h : x.toOption = some a) : x = .ok a := by
  cases x with
  | error e => cases h
  | ok b =>
      cases h
      rfl

theorem mapM_congr {f g : α → Except ε β} {xs : List α} (h : ∀ x ∈ xs, f x = g x) :
    xs.mapM f = xs.mapM g := by
  induction xs with
  | nil => rfl
  | cons x rest ih =>
      obtain ⟨hx, hrest⟩ := List.forall_mem_cons.mp h
      rw [List.mapM_cons, List.mapM_cons, hx, ih hrest]

/-- The results of a run over a list are those of its elements, one for each and in their order. -/
theorem mapM_eq_ok {f : α → Except ε β} {xs : List α} {ys : List β} :
    xs.mapM f = .ok ys ↔ List.Forall₂ (fun x y => f x = .ok y) xs ys := by
  induction xs generalizing ys with
  | nil => simp [pure, Except.pure, eq_comm]
  | cons x rest ih =>
      rw [List.mapM_cons, bind_eq_ok, List.forall₂_cons_left_iff]
      constructor
      · rintro ⟨y, hy, hrest⟩
        obtain ⟨others, hothers, heq⟩ := bind_eq_ok.mp hrest
        cases heq
        exact ⟨y, others, hy, ih.mp hothers, rfl⟩
      · rintro ⟨y, others, hy, hothers, rfl⟩
        exact ⟨y, hy, bind_eq_ok.mpr ⟨others, ih.mpr hothers, rfl⟩⟩

/-- A run over a list has a result exactly when every element has one. This is where an error in a
part that is discarded later still counts. -/
theorem exists_mapM_eq_ok {f : α → Except ε β} {xs : List α} :
    (∃ ys, xs.mapM f = .ok ys) ↔ ∀ x ∈ xs, ∃ y, f x = .ok y := by
  induction xs with
  | nil => simp [pure, Except.pure]
  | cons x rest ih =>
      simp only [mapM_eq_ok, List.forall_mem_cons, List.forall₂_cons_left_iff] at ih ⊢
      rw [← ih]
      constructor
      · rintro ⟨ys, y, others, hy, hothers, rfl⟩
        exact ⟨⟨y, hy⟩, others, hothers⟩
      · rintro ⟨⟨y, hy⟩, others, hothers⟩
        exact ⟨y :: others, y, others, hy, hothers, rfl⟩

/-- A run over a list fails with the error of one of the elements: it makes up no errors of its
own. -/
theorem exists_of_mapM_eq_error {f : α → Except ε β} {xs : List α} {e : ε}
    (h : xs.mapM f = .error e) : ∃ x ∈ xs, f x = .error e := by
  induction xs with
  | nil => cases h
  | cons x rest ih =>
      rw [List.mapM_cons] at h
      rcases bind_eq_error.mp h with hfirst | ⟨y, -, h⟩
      · exact ⟨x, .head _, hfirst⟩
      · rcases bind_eq_error.mp h with hrest | ⟨ys, -, h⟩
        · obtain ⟨x, hx, herror⟩ := ih hrest
          exact ⟨x, .tail _ hx, herror⟩
        · cases h

/-- The first element that fails is the one whose error is reported, whether or not elements behind
it would fail as well. -/
theorem mapM_eq_error_of_first {f : α → Except ε β} {front back : List α} {x : α} {ys : List β}
    {e : ε} (hfront : front.mapM f = .ok ys) (hx : f x = .error e) :
    (front ++ x :: back).mapM f = .error e := by
  rw [List.mapM_append, hfront, List.mapM_cons, hx]
  rfl

/-- The result of an element stands where the element does, between those of the others. -/
theorem mapM_append_cons_eq_ok {f : α → Except ε β} {front back : List α} {x : α} {ys : List β} :
    (front ++ x :: back).mapM f = .ok ys ↔
      ∃ before y after, front.mapM f = .ok before ∧ f x = .ok y ∧ back.mapM f = .ok after ∧
        ys = before ++ y :: after := by
  rw [List.mapM_append, bind_eq_ok]
  constructor
  · rintro ⟨before, hbefore, h⟩
    obtain ⟨rest, hrest, heq⟩ := bind_eq_ok.mp h
    cases heq
    rw [List.mapM_cons] at hrest
    obtain ⟨y, hy, h⟩ := bind_eq_ok.mp hrest
    obtain ⟨after, hafter, heq⟩ := bind_eq_ok.mp h
    cases heq
    exact ⟨before, y, after, hbefore, hy, hafter, rfl⟩
  · rintro ⟨before, y, after, hbefore, hy, hafter, rfl⟩
    refine ⟨before, hbefore, ?_⟩
    rw [List.mapM_cons, hy, hafter]
    rfl

theorem exists_left_of_mem {R : α → β → Prop} {xs : List α} {ys : List β}
    (h : List.Forall₂ R xs ys) {y : β} (hy : y ∈ ys) : ∃ x ∈ xs, R x y := by
  induction h with
  | nil => cases hy
  | cons hpair hrest ih =>
      rcases List.mem_cons.mp hy with rfl | hy
      · exact ⟨_, .head _, hpair⟩
      · obtain ⟨x, hx, hpair⟩ := ih hy
        exact ⟨x, .tail _ hx, hpair⟩

theorem forall_mem_of_forall₂ {p : α → Prop} {xs : List α} {ys : List β}
    (h : List.Forall₂ (fun x _ => p x) xs ys) : ∀ x ∈ xs, p x := by
  have hpairs : List.Forall₂ (fun x (_ : β) => p x ∧ True) xs ys :=
    h.imp fun _ _ hx => ⟨hx, trivial⟩
  exact ((List.forall₂_and_left xs ys).mp hpairs).1

theorem map_eq_map_of_forall₂ {f : α → γ} {g : β → γ} {xs : List α} {ys : List β}
    (h : List.Forall₂ (fun x y => g y = f x) xs ys) : ys.map g = xs.map f := by
  induction h with
  | nil => rfl
  | cons hpair hrest ih => rw [List.map_cons, List.map_cons, hpair, ih]

end Criteria
