import Criteria.Proofs.Filter.Rewriting
import Criteria.Sql.Backend

/-!
The shorthands of filter documents and the long forms they stand for: objects of several entries,
operations on several fields, the second spelling of `$like`, groups without their `$and` and fields
without their `$eq`. Wherever a document is written out, it compiles to the same. Only a field whose
value does not compile, and which is not to be found either, fails with another error.
-/

namespace Criteria.Filter

/-- Writing out a shorthand. Fields are written out as equalities where `equality` says so. -/
inductive Longhand (equality : String → Json → Prop) : Position → Json → Json → Prop
  | entries {op : Operator} (joins : op.joins) {entries : List (String × Json)}
      (several : 2 ≤ entries.length) :
    Longhand equality (.under op) (.obj entries) (.arr (entries.map single))
  | nestedEntries {entries : List (String × Json)} (several : 2 ≤ entries.length) :
    Longhand equality .rightHand (.obj entries) (single ("$and", .arr (entries.map single)))
  | fields {p : Position} (group : p.holdsGroups) {key : String} {op : Operation}
      (known : Operator.ofKey? key = some (.field op)) {fields : List (String × Json)}
      (several : 2 ≤ fields.length) :
    Longhand equality p (single (key, .obj fields))
      (single ("$and", .arr (fields.map fun field => single (key, single field))))
  | spelling {p : Position} (group : p.holdsGroups) (value : Json) :
    Longhand equality p (single ("$regex", value)) (single ("$like", value))
  | group {value : Json} (filter : IsFilter value) :
    Longhand equality (.under .and) value (single ("$and", value))
  | nestedGroup (entries : List (String × Json)) :
    Longhand equality .rightHand (.obj entries) (single ("$and", .obj entries))
  | equality {p : Position} (group : p.holdsGroups) {name : String} {value : Json}
      (bare : ¬ Operator.hasSigil name) (here : equality name value) :
    Longhand equality p (single (name, value)) (single ("$eq", single (name, value)))

theorem Longhand.isFilter {equality : String → Json → Prop} {op : Operator} {value value' : Json}
    (h : Longhand equality (.under op) value value') : IsFilter value ∧ IsFilter value' := by
  cases h with
  | entries joins several =>
      have hne := List.ne_nil_of_length_pos (Nat.zero_lt_of_lt several)
      simp [hne]
  | fields => exact ⟨.entries _ _, .entries _ _⟩
  | spelling => exact ⟨.entries _ _, .entries _ _⟩
  | group filter => exact ⟨filter, .entries _ _⟩
  | equality => exact ⟨.entries _ _, .entries _ _⟩

variable {ε σ : Type} (b : Backend ε σ) (r : Resolver ε)

theorem condition_and (value : Json) :
    condition b r .and (single ("$and", value)) = condition b r .and value := by
  have hkey : Operator.ofKey? "$and" = some .and := rfl
  rw [condition_single, entryCondition_of_operator b r hkey]

theorem entryCondition_eq_key (field : String × Json) :
    entryCondition b r ("$eq", single field) = fieldCondition b r .eq field := by
  have hkey : Operator.ofKey? "$eq" = some (.field .eq) := rfl
  rw [entryCondition_of_operator b r hkey, fields_single]

/-- Joined are as many conditions as there are parts, so two ways to join need to agree on lists of
that length only. -/
theorem mapM_bind_congr {α : Type} {f : α → Except CompileError ε} {xs : List α}
    {g g' : List ε → Except CompileError ε}
    (h : ∀ es : List ε, es.length = xs.length → g es = g' es) :
    xs.mapM f >>= g = xs.mapM f >>= g' := by
  cases hes : xs.mapM f with
  | error e => rfl
  | ok es => exact h es (mapM_eq_ok.mp hes).length_eq.symm

/-- Several entries are joined as elements of an array are. A single entry is not: it stands for
itself, while a single element is put into a group. -/
theorem join_several (op : Operator) {es : List ε} (h : 2 ≤ es.length) :
    join b op true es = join b op false es := by
  rcases es with _ | ⟨first, _ | ⟨second, rest⟩⟩
  · simp at h
  · simp at h
  · cases op <;> rfl

theorem joinFields_several (op : Operation) {es : List ε} (h : 2 ≤ es.length) :
    joinFields b (.field op) es = join b .and false es := by
  rcases es with _ | ⟨first, _ | ⟨second, rest⟩⟩
  · simp at h
  · simp at h
  · rfl

/-- An object of several entries is compiled as the array of its entries, each a document of its
own. -/
theorem condition_entries {op : Operator} (hjoins : op.joins) {entries : List (String × Json)}
    (h : 2 ≤ entries.length) :
    condition b r op (.obj entries) = condition b r op (.arr (entries.map single)) := by
  have hsingle : condition b r .and ∘ single = entryCondition b r :=
    funext fun entry => condition_single b r entry
  rw [condition_obj b r hjoins, condition_arr b r hjoins, List.mapM_map, hsingle]
  exact mapM_bind_congr fun es hlength => join_several b op (hlength ▸ h)

/-- An operation on several fields is the conjunction of the operation on each, written as an array
of documents of one entry. -/
theorem condition_fields {key : String} {op : Operation}
    (hkey : Operator.ofKey? key = some (.field op)) {fields : List (String × Json)}
    (h : 2 ≤ fields.length) :
    condition b r (.field op) (.obj fields) =
      condition b r .and (.arr (fields.map fun field => single (key, single field))) := by
  have hsingle : condition b r .and ∘ (fun field => single (key, single field)) =
      fieldCondition b r op := funext fun field => by
    rw [Function.comp_apply, condition_single, entryCondition_of_operator b r hkey, fields_single]
  rw [condition_field, condition_arr b r rfl, List.mapM_map, hsingle]
  exact mapM_bind_congr fun es hlength => joinFields_several b op (hlength ▸ h)

section Entries

variable {b r} {sameErrors : Prop}

/-- A field is found or its value compiles. -/
def Settled (b : Backend ε σ) (r : Resolver ε) (name : String) (value : Json) : Prop :=
  (∃ field, r name = .ok field) ∨ ∃ rhs, operand b r value = .ok rhs

/-- The two spellings of equality compile the same parts, one of them the value first. They come to
the same condition, but may report different errors when both parts fail. -/
theorem equality_corresponds {name : String} {value : Json} (hbare : ¬ Operator.hasSigil name)
    (h : sameErrors → Settled b r name value) :
    Corresponds sameErrors (· = ·) (entryCondition b r (name, value))
      (entryCondition b r ("$eq", single (name, value))) := by
  rw [entryCondition_of_bare b r hbare, entryCondition_eq_key, fieldCondition_eq]
  have hrefl (x : Except CompileError ε) : Corresponds sameErrors (· = ·) x x :=
    .refl (fun _ => rfl) x
  cases hvalue : operand b r value with
  | ok rhs =>
      simp only [argument, Operation.takesRaw, hvalue]
      exact hrefl _
  | error e =>
      simp only [argument, Operation.takesRaw, hvalue]
      cases hfield : r name with
      | ok field => exact hrefl _
      | error e' =>
          refine .error fun hsame => ?_
          rcases h hsame with ⟨field, hfound⟩ | ⟨rhs, hrhs⟩
          · simp [hfield] at hfound
          · simp [hvalue] at hrhs

theorem compiled_single {p : Position} (hp : p.holdsGroups) {R : ε → ε → Prop}
    (hb : Kept sameErrors R b r) {entry entry' : String × Json}
    (h : Corresponds sameErrors R (entryCondition b r entry) (entryCondition b r entry')) :
    Corresponds sameErrors R (p.compiled b r (single entry)) (p.compiled b r (single entry')) := by
  cases p with
  | under op => exact entries_correspond hb hp [] [] h
  | rightHand =>
      have hjoins : Operator.joins .and := rfl
      exact entries_correspond hb hjoins [] [] h

end Entries

/-- Equal conditions are joined to equal ones, and fields make the same of them. So a rewriting that
keeps conditions at its positions keeps them around these. -/
theorem kept_eq (sameErrors : Prop) : Kept sameErrors (· = ·) b r where
  refl _ := rfl
  trans _ _ _ := Eq.trans
  joins := {
    and := fun _ _ h => by rw [List.forall₂_eq_eq_eq] at h; rw [h]
    or := fun _ _ h => by rw [List.forall₂_eq_eq_eq] at h; rw [h]
    not := fun _ _ h => by rw [h] }
  apply := by
    intro name field _ op arg arg' harg
    have hsame : arg = arg' := by
      cases harg with
      | operand compares related => rw [related]
      | raw takes slot => exact congrArg Argument.raw slot
    rw [hsame]
    exact .refl (fun _ => rfl) _

/-- Writing out a shorthand at one position keeps what is compiled there. Errors are kept too where
the equalities that are written out are settled. -/
theorem longhand_corresponds {sameErrors : Prop} {equality : String → Json → Prop}
    (hequality : ∀ {name value}, equality name value → sameErrors → Settled b r name value)
    {p : Position} {value value' : Json} (h : Longhand equality p value value') :
    Corresponds sameErrors (· = ·) (p.compiled b r value) (p.compiled b r value') := by
  have hkept := kept_eq b r sameErrors
  cases h with
  | entries joins several => exact .of_eq hkept.refl (condition_entries b r joins several)
  | @nestedEntries entries several =>
      refine .of_eq hkept.refl ?_
      change condition b r .and (.obj entries) = condition b r .and _
      rw [condition_and, condition_entries b r rfl several]
  | fields group known several =>
      refine compiled_single group hkept (.of_eq hkept.refl ?_)
      rw [entryCondition_of_operator b r known, ← condition_single b r ("$and", _), condition_and]
      exact condition_fields b r known several
  | spelling group value =>
      refine compiled_single group hkept (.of_eq hkept.refl ?_)
      have hregex : Operator.ofKey? "$regex" = some (.field .like) := rfl
      have hlike : Operator.ofKey? "$like" = some (.field .like) := rfl
      rw [entryCondition_of_operator b r hregex, entryCondition_of_operator b r hlike]
  | group filter => exact .of_eq hkept.refl (condition_and b r value).symm
  | nestedGroup entries => exact .of_eq hkept.refl (condition_and b r (.obj entries)).symm
  | equality group bare here =>
      exact compiled_single group hkept (equality_corresponds bare (hequality here))

theorem compile_corresponds {sameErrors : Prop} {equality : String → Json → Prop}
    (hequality : ∀ {name value}, equality name value → sameErrors → Settled b r name value)
    {document document' : Json}
    (h : Rewritten (Longhand equality) (.under .and) document document') :
    Corresponds sameErrors (· = ·) (compile b r (some document))
      (compile b r (some document')) := by
  refine (compile_rewritten (kept_eq b r sameErrors) (longhand_corresponds b r hequality)
    (fun rule => .inr rule.isFilter) h).imp fun filter filter' hrel => ?_
  cases hrel with
  | none => rfl
  | some same => rw [same]

/-- Written out, a document compiles to the same condition or fails with the same error. The one
exception is a field that is not found and whose value does not compile: by itself it fails for its
value, and as an equality for itself. -/
theorem compile_longhand :
    (∀ document document', Rewritten (Longhand (Settled b r)) (.under .and) document document' →
      compile b r (some document) = compile b r (some document')) ∧
    (∀ document document' filter,
      Rewritten (Longhand fun _ _ => True) (.under .and) document document' →
      (compile b r (some document) = .ok filter ↔ compile b r (some document') = .ok filter)) ∧
    ∀ name value failed missing, ¬ Operator.hasSigil name → operand b r value = .error failed →
      r name = .error missing →
      compile b r (some (single (name, value))) = .error failed ∧
      compile b r (some (single ("$eq", single (name, value)))) = .error missing := by
  refine ⟨fun document document' h => ?_, fun document document' filter h => ?_,
    fun name value failed missing hbare hvalue hname => ?_⟩
  · exact (compile_corresponds b r (fun settled _ => settled) h).eq
  · have hcorresponds : Corresponds False (· = ·) (compile b r (some document))
        (compile b r (some document')) := compile_corresponds b r (fun _ => False.elim) h
    exact hcorresponds.eq_ok_iff filter
  · have hfilter (entry : String × Json) : IsFilter (single entry) := .entries _ _
    rw [(hfilter _).compile, (hfilter _).compile, condition_single, condition_single,
      entryCondition_of_bare b r hbare, entryCondition_eq_key, fieldCondition_eq, hname]
    simp only [argument, Operation.takesRaw, hvalue]
    exact ⟨rfl, rfl⟩

/-- The name of the column that was joined, or two patterns. -/
def shortDocument : Json :=
  single ("$or", .obj [("name", single ("$ref", .str "joined")),
    ("$regex", .obj [("name", .str "a%"), ("joined", .str "2%")])])

/-- The same, with each operation on one field only. -/
def longDocument : Json :=
  single ("$and", single ("$or", .arr [
    single ("$eq", single ("name", single ("$and", single ("$ref", .str "joined")))),
    single ("$and", .arr [single ("$like", single ("name", .str "a%")),
      single ("$like", single ("joined", .str "2%"))])]))

theorem rewritten_longDocument {equality : String → Json → Prop}
    (h : equality "name" (single ("$and", single ("$ref", .str "joined")))) :
    Rewritten (Longhand equality) (.under .and) shortDocument longDocument := by
  have hor : Operator.ofKey? "$or" = some .or := rfl
  have hlike : Operator.ofKey? "$like" = some (.field .like) := rfl
  have hbare : ¬ Operator.hasSigil "name" := by decide
  have hentries : Longhand equality (.under .or)
      (.obj [("name", single ("$ref", .str "joined")),
        ("$regex", .obj [("name", .str "a%"), ("joined", .str "2%")])])
      (.arr [single ("name", single ("$ref", .str "joined")),
        single ("$regex", .obj [("name", .str "a%"), ("joined", .str "2%")])]) :=
    .entries rfl (by simp)
  have hreference : Rewritten (Longhand equality) .rightHand (single ("$ref", .str "joined"))
      (single ("$and", single ("$ref", .str "joined"))) := .rule (.nestedGroup _)
  have hname : Rewritten (Longhand equality) (.under .and)
      (single ("name", single ("$ref", .str "joined")))
      (single ("$eq", single ("name", single ("$and", single ("$ref", .str "joined"))))) :=
    (Rewritten.bare rfl [] [] hbare hreference).trans (.rule (.equality rfl hbare h))
  have hpatterns : Rewritten (Longhand equality) (.under .and)
      (single ("$regex", .obj [("name", .str "a%"), ("joined", .str "2%")]))
      (single ("$and", .arr [single ("$like", single ("name", .str "a%")),
        single ("$like", single ("joined", .str "2%"))])) :=
    (Rewritten.rule (.spelling rfl _)).trans (.rule (.fields rfl hlike (by simp)))
  have hbranches := (Rewritten.rule hentries).trans
    ((Rewritten.item rfl [] _ hname).trans (Rewritten.item rfl [_] [] hpatterns))
  exact (Rewritten.entry rfl [] [] hor hbranches).trans (.rule (.group (.entries _ _)))

/-- A field that is not there, with a value that names another one. -/
def ghost : String × Json :=
  ("ghost", single ("phantom", .null))

/-- All five shorthands are written out in one document. The ghost shows why equality is an
exception: neither its value nor the field itself is there, and each spelling reports another of the
two. -/
theorem compile_longhand_longDocument :
    let scope : Scope (Sql.ExpressionsWith Empty.elim) := ⟨"user", .taggedUsers⟩
    let b := Sql.backend
    let r := scope.resolve none b
    (Rewritten (Longhand (Settled b r)) (.under .and) shortDocument longDocument ∧
      compile b r (some shortDocument) = compile b r (some longDocument)) ∧
    (∃ filter, Rewritten (Longhand fun _ _ => True) (.under .and) shortDocument longDocument ∧
      compile b r (some shortDocument) = .ok (some filter) ∧
      (compile b r (some shortDocument) = .ok (some filter) ↔
        compile b r (some longDocument) = .ok (some filter))) ∧
    (¬ Operator.hasSigil ghost.1 ∧ operand b r ghost.2 = .error (.unknownField "phantom") ∧
      r ghost.1 = .error (.unknownField "ghost")) ∧
    compile b r (some (single ghost)) = .error (.unknownField "phantom") ∧
    compile b r (some (single ("$eq", single ghost))) = .error (.unknownField "ghost") := by
  intro scope b r
  have hsettled : Settled b r "name" (single ("$and", single ("$ref", .str "joined"))) :=
    .inl ⟨_, rfl⟩
  have hshort : ∃ filter, compile b r (some shortDocument) = .ok (some filter) := ⟨_, rfl⟩
  obtain ⟨filter, hfilter⟩ := hshort
  have hbare : ¬ Operator.hasSigil ghost.1 := by decide
  have hvalue : operand b r ghost.2 = .error (.unknownField "phantom") := rfl
  have hname : r ghost.1 = .error (.unknownField "ghost") := rfl
  obtain ⟨hexact, hloose, hboth⟩ := compile_longhand b r
  exact ⟨⟨rewritten_longDocument hsettled, hexact _ _ (rewritten_longDocument hsettled)⟩,
    ⟨filter, rewritten_longDocument trivial, hfilter,
      hloose _ _ _ (rewritten_longDocument trivial)⟩,
    ⟨hbare, hvalue, hname⟩, hboth _ _ _ _ hbare hvalue hname⟩

end Criteria.Filter
