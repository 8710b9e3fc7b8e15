import Mathlib.Data.List.Basic

/-!
Where the last write counts. Each step of a run may write to a thing, and what stands there in the
end is what was written last, or else what stood there before.
-/

namespace Criteria

variable {α β σ : Type}

/-- A part that elements may have, taken from the last one that has it. -/
def last? (part : α → Option β) (xs : List α) : Option β :=
  (xs.filterMap part).getLast?

variable {part : α → Option β}

theorem last?_cons (part : α → Option β) (x : α) (xs : List α) :
    last? part (x :: xs) = (last? part xs).or (part x) := by
  rw [last?, last?, List.filterMap_cons]
  cases part x with
  | none => simp
  | some value => simp [List.getLast?_cons]

/-- The last write of two sequences is the last one of the second, if that one writes at all.
Otherwise it is the last one of the first. -/
theorem last?_append (part : α → Option β) (xs ys : List α) :
    last? part (xs ++ ys) = (last? part ys).or (last? part xs) := by
  rw [last?, List.filterMap_append, List.getLast?_append, last?, last?]

theorem last?_eq_none_iff {xs : List α} : last? part xs = none ↔ ∀ x ∈ xs, part x = none := by
  rw [last?, List.getLast?_eq_none_iff, List.filterMap_eq_nil_iff]

theorem last?_isSome_iff {xs : List α} : (last? part xs).isSome ↔ ∃ x ∈ xs, (part x).isSome := by
  rw [← not_iff_not, Bool.not_eq_true, Option.isSome_eq_false_iff, Option.isNone_iff_eq_none,
    last?_eq_none_iff]
  simp [Option.isSome_iff_ne_none]

/-- Where each step replaces what it writes to, the last one decides. Registries, their models and
custom fields are all filled in this way. -/
theorem observe_foldl {step : σ → α → σ} (observe : σ → Option β)
    (hstep : ∀ s x, observe (step s x) = (part x).or (observe s)) (s : σ) (xs : List α) :
    observe (xs.foldl step s) = (last? part xs).or (observe s) := by
  induction xs generalizing s with
  | nil => rfl
  | cons x rest ih =>
      calc observe (rest.foldl step (step s x))
          = (last? part rest).or (observe (step s x)) := ih (step s x)
        _ = (last? part rest).or ((part x).or (observe s)) := by rw [hstep]
        _ = (last? part (x :: rest)).or (observe s) := by rw [last?_cons, Option.or_assoc]

end Criteria
