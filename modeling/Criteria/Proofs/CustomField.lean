import Criteria.Field
import Criteria.Proofs.LastWrite

/-!
What a custom field has after any number of handlers were given to it. For each operation the last
one counts, and the others are gone, whatever they were written for. The order in which the handlers
stand shows in nothing: an operation is looked up by itself, and the list of them is sorted.
-/

namespace Criteria.CustomField

variable {ι : Type} {E : ι → Type}

/-- A handler given for an operation. It builds the expressions of the backend with its index. -/
structure Registration {ι : Type} (E : ι → Type) where
  op : Operation
  index : ι
  build : Handler (E index)

/-- The handler that a registration has for an operation, if it is for that one. -/
def Registration.handler? (op : Operation) (given : Registration E) :
    Option ((i : ι) × Handler (E i)) :=
  if op = given.op then some ⟨given.index, given.build⟩ else none

/-- The field that is given handlers, one after the other. -/
def ofRegistrations (given : List (Registration E)) : CustomField E :=
  given.foldl (fun field next => field.on next.op next.index next.build) empty

/-- The handler that was given last for an operation. -/
def lastHandler? (op : Operation) : List (Registration E) → Option ((i : ι) × Handler (E i)) :=
  last? (·.handler? op)

/-- Taking out the entry of one operation leaves the others where they can be found, so a replaced
handler does not show in any other operation. -/
theorem lookup_filter_ne {α : Type} {op replaced : Operation} (hne : op ≠ replaced)
    (entries : List (Operation × α)) :
    (entries.filter fun entry => entry.1 ≠ replaced).lookup op = entries.lookup op := by
  induction entries with
  | nil => rfl
  | cons entry rest ih =>
      by_cases htaken : entry.1 = replaced
      · have hother : (op == entry.1) = false := by simpa [htaken] using hne
        rw [List.filter_cons_of_neg (by simpa using htaken), ih, List.lookup_cons, hother]
      · rw [List.filter_cons_of_pos (by simpa using htaken), List.lookup_cons, List.lookup_cons, ih]

/-- A registration changes the handler of one operation: the one it was given for. A handler that
was there before is gone. -/
theorem handlers_on (field : CustomField E) (given : Registration E) (op : Operation) :
    (field.on given.op given.index given.build).handlers op =
      (given.handler? op).or (field.handlers op) := by
  by_cases same : op = given.op
  · simp [on, handlers, Registration.handler?, same]
  · have hnext : (op == given.op) = false := by simpa using same
    rw [handlers, on, List.lookup_cons, hnext, Registration.handler?, if_neg same, Option.none_or]
    exact lookup_filter_ne same field.entries

/-- The handler of an operation is the last one that was given for it. -/
theorem handlers_ofRegistrations (given : List (Registration E)) (op : Operation) :
    (ofRegistrations given).handlers op = lastHandler? op given := by
  have hfold : (ofRegistrations given).handlers op =
      (lastHandler? op given).or ((empty : CustomField E).handlers op) :=
    observe_foldl (·.handlers op) (handlers_on · · op) empty given
  rw [hfold, handlers, empty, List.lookup_nil, Option.or_none]

theorem supports_ofRegistrations_iff {given : List (Registration E)} {op : Operation} :
    (ofRegistrations given).supports op ↔ ∃ next ∈ given, next.op = op := by
  rw [supports, handlers_ofRegistrations, lastHandler?, last?_isSome_iff]
  refine exists_congr fun next => and_congr_right fun _ => ?_
  by_cases same : op = next.op
  · simp [Registration.handler?, same]
  · simp [Registration.handler?, same, Ne.symm same]

theorem supports_iff {field : CustomField E} {op : Operation} :
    field.supports op ↔ op ∈ field.entries.map Prod.fst := by
  rw [supports, handlers, List.lookup_isSome_iff, List.mem_map]
  refine exists_congr fun entry => and_congr_right fun _ => ?_
  rw [beq_iff_eq, eq_comm]

/-- The list of operations is the list of entries in another order, so nothing is lost and nothing
comes in when it is sorted. -/
theorem operations_perm (field : CustomField E) :
    field.operations.Perm (field.entries.map Prod.fst) :=
  List.mergeSort_perm _ _

theorem mem_operations_iff {field : CustomField E} {op : Operation} :
    op ∈ field.operations ↔ field.supports op := by
  rw [field.operations_perm.mem_iff, supports_iff]

theorem nodup_operations (field : CustomField E) : field.operations.Nodup :=
  field.operations_perm.nodup_iff.mpr field.distinct

/-- The names come out of the sort in order, whatever order the handlers went in. Two operations of
one name are one, so this leaves no choice of the list. -/
theorem operations_sorted (field : CustomField E) :
    field.operations.Pairwise fun op other => op.name ≤ other.name := by
  have htrans (op middle other : Operation) (hfirst : decide (op.name ≤ middle.name))
      (hsecond : decide (middle.name ≤ other.name)) : decide (op.name ≤ other.name) := by
    simpa using String.le_trans (of_decide_eq_true hfirst) (of_decide_eq_true hsecond)
  have htotal (op other : Operation) :
      decide (op.name ≤ other.name) || decide (other.name ≤ op.name) := by
    simpa using String.le_total op.name other.name
  have hsort := List.pairwise_mergeSort htrans htotal (field.entries.map Prod.fst)
  simpa [operations] using hsort

/-- No operation is listed twice, so no name follows itself: the names of a field's operations are
strictly ascending. -/
theorem operations_ascending (field : CustomField E) :
    (field.operations.map Operation.name).Pairwise (· < ·) := by
  refine List.pairwise_map.mpr (field.operations_sorted.imp₂ ?_ field.nodup_operations)
  intro op other hle hne
  refine String.not_le.mp fun hge => hne ?_
  exact Operation.name_injective (String.le_antisymm hle hge)

/-- The list of a field's operations depends on which they are and on nothing else: two sorted
lists of the same operations are the same. -/
theorem operations_congr {field field' : CustomField E}
    (h : ∀ op, field.supports op ↔ field'.supports op) : field.operations = field'.operations := by
  have hperm : field.operations.Perm field'.operations := by
    refine (List.perm_ext_iff_of_nodup field.nodup_operations field'.nodup_operations).mpr ?_
    intro op
    rw [mem_operations_iff, mem_operations_iff, h op]
  refine hperm.eq_of_pairwise (fun op other _ _ hle hge => ?_) field.operations_sorted
    field'.operations_sorted
  exact Operation.name_injective (String.le_antisymm hle hge)

end Criteria.CustomField
