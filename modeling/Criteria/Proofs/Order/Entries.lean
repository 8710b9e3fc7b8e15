import Criteria.Proofs.Culprits
import Criteria.Tree

/-!
Orders entry by entry. Of an entry only the first key and its value count, and entries without one
are as good as not there, so an order is what the leading entries come to, one after the other: the
sorts stand as the entries do, and the first entry that fails has its error reported, whatever comes
behind it.
-/

namespace Criteria

theorem ResolvedField.alone_eq_ok {ε : Type} {purpose : String} {field : ResolvedField ε}
    {operand : ε} : field.alone purpose = .ok operand ↔
      ∃ name registered, field = .plain name operand registered := by
  cases field <;> simp [alone]

namespace Order

/-- The first entry of a non-empty object: all that an order takes from it. -/
def lead? : Json → Option (String × Json)
  | .obj (first :: _) => some first
  | _ => none

theorem lead?_eq_some {entry : Json} {lead : String × Json} :
    lead? entry = some lead ↔ ∃ rest, entry = .obj (lead :: rest) := by
  match entry with
  | .obj (first :: rest) => simp [lead?]
  | .obj [] | .arr _ | .str _ | .num _ | .bool _ | .null => simp [lead?]

/-- True of the entries that are passed over: all but non-empty objects. -/
def Skipped (entry : Json) : Prop :=
  ∀ first rest, entry ≠ .obj (first :: rest)

theorem lead?_eq_none {entry : Json} : lead? entry = none ↔ Skipped entry := by
  match entry with
  | .obj (first :: rest) => simp [lead?, Skipped]
  | .obj [] | .arr _ | .str _ | .num _ | .bool _ | .null => simp [lead?, Skipped]

/-- A direction is said by one of two words, in capital letters and with nothing around them. -/
theorem exists_direction (name : String) {value : Json} :
    (∃ said, direction name value = .ok said) ↔ value = .str "ASC" ∨ value = .str "DESC" := by
  constructor
  · rintro ⟨said, hsaid⟩
    by_contra hneither
    rw [not_or] at hneither
    cases (direction_eq_error.mpr ⟨hneither, rfl⟩).symm.trans hsaid
  · rintro (rfl | rfl) <;> exact ⟨_, rfl⟩

section Entries

variable {ε σ : Type} (b : Backend ε σ) (r : Resolver ε)

/-- The sort by a field, in the direction that a value says. -/
def leadSort (lead : String × Json) : Except CompileError σ := do
  let direction ← direction lead.1 lead.2
  let operand ← (← r lead.1).alone "order"
  return b.sort direction operand

theorem term?_of_lead {entry : Json} {lead : String × Json} (h : lead? entry = some lead) :
    term? b r entry = (do return some (← leadSort b r lead)) := by
  obtain ⟨rest, rfl⟩ := lead?_eq_some.mp h
  rw [term?, leadSort]
  simp only [bind_assoc, pure_bind]

theorem term?_of_skipped {entry : Json} (h : lead? entry = none) : term? b r entry = .ok none := by
  match entry with
  | .obj (first :: rest) => cases h
  | .obj [] | .arr _ | .str _ | .num _ | .bool _ | .null => rfl

/-- The sorts of an order are those of its leading entries. An entry without a first key is passed
over, and so is one that is no object. -/
theorem terms_eq_leads (entries : List Json) :
    terms b r entries = (entries.filterMap lead?).mapM (leadSort b r) := by
  induction entries with
  | nil => rfl
  | cons entry rest ih =>
      rw [terms, ih]
      cases hlead : lead? entry with
      | none =>
          rw [term?_of_skipped b r hlead, List.filterMap_cons_none hlead]
          exact bind_pure (m := Except CompileError) _
      | some lead =>
          rw [term?_of_lead b r hlead, List.filterMap_cons_some hlead, List.mapM_cons]
          simp only [bind_assoc, pure_bind, Option.toList_some, List.singleton_append]

theorem compile_arr (entries : List Json) :
    compile b r (some (.arr entries)) =
      ((entries.filterMap lead?).mapM (leadSort b r)).map
        fun sorts => if sorts.isEmpty then none else some sorts := by
  rw [← terms_eq_leads]
  change (terms b r entries >>= fun sorts => .ok (if sorts.isEmpty then none else some sorts)) = _
  cases terms b r entries <;> rfl

/-- The sorts of an order; no order is one without sorts. -/
def sorts (order : Option (List σ)) : List σ :=
  order.getD []

theorem map_sorts_compile (entries : List Json) :
    (compile b r (some (.arr entries))).map sorts =
      (entries.filterMap lead?).mapM (leadSort b r) := by
  rw [compile_arr]
  cases (entries.filterMap lead?).mapM (leadSort b r) with
  | error e => rfl
  | ok found => cases found <;> rfl

variable {b r}

/-- An entry sorts when its direction is one of the two words and its field a plain one. Both have
to be right, and nothing else about the entry is asked. -/
theorem exists_leadSort {name : String} {value : Json} :
    (∃ sort, leadSort b r (name, value) = .ok sort) ↔
      (value = .str "ASC" ∨ value = .str "DESC") ∧
        ∃ field operand registered, r name = .ok (.plain field operand registered) := by
  rw [← exists_direction name]
  simp only [leadSort, bind_eq_ok]
  constructor
  · rintro ⟨sort, said, hsaid, found, hfound, operand, halone, -⟩
    obtain ⟨field, registered, rfl⟩ := ResolvedField.alone_eq_ok.mp halone
    exact ⟨⟨said, hsaid⟩, field, operand, registered, hfound⟩
  · rintro ⟨⟨said, hsaid⟩, field, operand, registered, hfound⟩
    exact ⟨b.sort said operand, said, hsaid, _, hfound, operand, rfl, rfl⟩

/-- An order of one entry is the sort of the entry's first key. Later keys make no difference. -/
theorem compile_single (name : String) (value : Json) (rest : List (String × Json)) :
    compile b r (some (.arr [.obj ((name, value) :: rest)])) =
      (do return some [← leadSort b r (name, value)]) := by
  rw [compile_arr]
  change ([(name, value)].mapM (leadSort b r)).map _ = _
  rw [List.mapM_cons]
  cases leadSort b r (name, value) <;> rfl

theorem compile_single_of_direction {name : String} {value : Json} {said : Direction}
    (h : direction name value = .ok said) (rest : List (String × Json)) :
    compile b r (some (.arr [.obj ((name, value) :: rest)])) = (do
      let operand ← (← r name).alone "order"
      return some [b.sort said operand]) := by
  rw [compile_single, leadSort, h]
  simp only [bind_assoc, pure_bind]
  rfl

/-- Only an array without leading entries comes to no order; it makes no difference how many entries
it has that are passed over. -/
theorem compile_eq_none_iff {entries : List Json} :
    compile b r (some (.arr entries)) = .ok none ↔ ∀ entry ∈ entries, lead? entry = none := by
  rw [compile_arr, ← List.filterMap_eq_nil_iff]
  constructor
  · intro h
    cases hsorts : (entries.filterMap lead?).mapM (leadSort b r) with
    | error e =>
        rw [hsorts] at h
        cases h
    | ok sorts =>
        rw [hsorts] at h
        cases sorts with
        | nil => exact List.forall₂_nil_right_iff.mp (mapM_eq_ok.mp hsorts)
        | cons first rest => cases h
  · intro h
    rw [h]
    rfl

theorem exists_compile_iff {entries : List Json} :
    (∃ order, compile b r (some (.arr entries)) = .ok order) ↔
      ∀ lead ∈ entries.filterMap lead?, ∃ sort, leadSort b r lead = .ok sort := by
  rw [compile_arr, ← exists_mapM_eq_ok]
  cases (entries.filterMap lead?).mapM (leadSort b r) <;> simp [Except.map]

end Entries

/-- An order is compiled entry by entry, and its sorts stand as the entries do. One array behind
another comes to the sorts of both or to the first error, so that neither what is passed over nor
what comes later makes a difference. An entry has its direction checked before its field, which has
to be a plain one, whatever operations it permits. -/
theorem compile_entrywise {ε σ : Type} (b : Backend ε σ) (r : Resolver ε) :
    (∀ front back : List Json,
      (compile b r (some (.arr (front ++ back)))).map sorts = do
        let first ← (compile b r (some (.arr front))).map sorts
        let others ← (compile b r (some (.arr back))).map sorts
        return first ++ others) ∧
    (∀ front entry back, Skipped entry →
      compile b r (some (.arr (front ++ entry :: back))) =
        compile b r (some (.arr (front ++ back)))) ∧
    (∀ front first rest rest' back,
      compile b r (some (.arr (front ++ .obj (first :: rest) :: back))) =
        compile b r (some (.arr (front ++ .obj (first :: rest') :: back)))) ∧
    (∀ entries, compile b r (some (.arr entries)) = .ok none ↔
      ∀ entry ∈ entries, Skipped entry) ∧
    (∀ entries, (∃ order, compile b r (some (.arr entries)) = .ok order) ↔
      ∀ name value rest, .obj ((name, value) :: rest) ∈ entries →
        (value = .str "ASC" ∨ value = .str "DESC") ∧
          ∃ field operand registered, r name = .ok (.plain field operand registered)) ∧
    (∀ name value rest, value ≠ .str "ASC" → value ≠ .str "DESC" →
      compile b r (some (.arr [.obj ((name, value) :: rest)])) =
        .error (.badDirection name value.text)) ∧
    (∀ name rest, compile b r (some (.arr [.obj ((name, .str "ASC") :: rest)])) = do
      let operand ← (← r name).alone "order"
      return some [b.ascending operand]) ∧
    ∀ name rest, compile b r (some (.arr [.obj ((name, .str "DESC") :: rest)])) = do
      let operand ← (← r name).alone "order"
      return some [b.descending operand] := by
  refine ⟨?append, ?skipped, ?firstKey, ?empty, ?succeeds, ?direction, ?ascending, ?descending⟩
  case append =>
    intro front back
    rw [map_sorts_compile, map_sorts_compile, map_sorts_compile, List.filterMap_append,
      List.mapM_append]
  case skipped =>
    intro front entry back hskipped
    rw [compile_arr, compile_arr, List.filterMap_append, List.filterMap_append,
      List.filterMap_cons_none (lead?_eq_none.mpr hskipped)]
  case firstKey =>
    intro front first rest rest' back
    have hlead (rest : List (String × Json)) : lead? (.obj (first :: rest)) = some first := rfl
    rw [compile_arr, compile_arr, List.filterMap_append, List.filterMap_append,
      List.filterMap_cons_some (hlead rest), List.filterMap_cons_some (hlead rest')]
  case empty =>
    intro entries
    simp only [compile_eq_none_iff, lead?_eq_none]
  case succeeds =>
    intro entries
    rw [exists_compile_iff]
    constructor
    · intro h name value rest hmem
      exact exists_leadSort.mp (h (name, value) (List.mem_filterMap.mpr ⟨_, hmem, rfl⟩))
    · rintro h ⟨name, value⟩ hmem
      obtain ⟨entry, hentry, hlead⟩ := List.mem_filterMap.mp hmem
      obtain ⟨rest, rfl⟩ := lead?_eq_some.mp hlead
      exact exists_leadSort.mpr (h name value rest hentry)
  case direction =>
    intro name value rest hasc hdesc
    rw [compile_single, leadSort, direction_eq_error.mpr ⟨⟨hasc, hdesc⟩, rfl⟩]
    rfl
  case ascending =>
    intro name rest
    have hsaid : direction name (.str "ASC") = .ok .asc := rfl
    exact compile_single_of_direction hsaid rest
  case descending =>
    intro name rest
    have hsaid : direction name (.str "DESC") = .ok .desc := rfl
    exact compile_single_of_direction hsaid rest

/-- The newest users first, and those of one time by their names. -/
def newestFirst : List Json :=
  [.null, .obj [("joined", .str "DESC"), ("tag", .str "up")], .obj [], .obj [("name", .str "ASC")]]

/-- What is passed over makes no difference, the sort by a relation behind the first key is never
asked for, and in front it fails by its direction. -/
theorem compile_entrywise_newestFirst :
    let scope : Scope fun _ : Unit => Tree := ⟨"user", .taggedUsers⟩
    let r := scope.resolve () Tree.backend
    Skipped .null ∧
    compile Tree.backend r (some (.arr newestFirst)) =
      compile Tree.backend r (some (.arr (newestFirst.drop 1))) ∧
    (∃ order, compile Tree.backend r (some (.arr newestFirst)) = .ok order) ∧
    compile Tree.backend r (some (.arr [.obj [("tag", .str "up")]])) =
      .error (.badDirection "tag" (Json.str "up").text) := by
  intro scope r
  obtain ⟨-, hskipped, -, -, hsucceeds, hdirection, -⟩ := compile_entrywise Tree.backend r
  have hnull : Skipped .null := nofun
  refine ⟨hnull, hskipped [] .null _ hnull, (hsucceeds _).mpr ?plain, ?refused⟩
  case plain =>
    intro name value rest hmem
    simp only [newestFirst, List.mem_cons, reduceCtorEq, Json.obj.injEq, List.cons.injEq,
      Prod.mk.injEq, List.not_mem_nil, or_false, false_or] at hmem
    rcases hmem with ⟨⟨rfl, rfl⟩, -⟩ | ⟨⟨rfl, rfl⟩, -⟩
    · exact ⟨.inr rfl, _, _, _, rfl⟩
    · exact ⟨.inl rfl, _, _, _, rfl⟩
  case refused => exact hdirection "tag" (.str "up") [] (by simp) (by simp)

end Order

end Criteria
