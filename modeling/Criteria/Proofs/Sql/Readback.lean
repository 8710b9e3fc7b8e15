import Criteria.Proofs.Sql.Precedence

/-!
What the standard precedence makes of a rendered expression. `NOT` is written without parentheses of
its own. Where it stands as a condition it is read back, but as an operand of a comparison, of `IN`
or of `@>` it is not: in front of the operator it takes the whole comparison, and behind it there is
no reading at all. Apart from this every expression is read back as it was, up to groups of one.
-/

namespace Criteria.Sql

namespace Expr

def isNot : Expr → Bool
  | .not _ => true
  | _ => false

/-- What is built of an operand that was read: a `NOT` in front of it comes to stand in front of the
whole. -/
def under (operand : Expr) (build : Expr → Expr) (read : Expr) : Expr :=
  match operand, read with
  | .not _, .not inner => .not (build inner)
  | _, read => build read

end Expr

mutual

/-- What an expression's text says by the standard precedence. -/
def Expr.asRead (d : Dialect) : Expr → Option Expr
  | .column qualifier name => some (.column qualifier name)
  | .value value => some (.value value)
  | .compare left op right => do
    let leftRead ← left.asRead d
    let rightRead ← right.asRead d
    if right.isNot then none else return left.under (.compare · op rightRead) leftRead
  | .group op [] => some (.group op [])
  | .group _ [only] => only.asRead d
  | .group op operands => do return .group op (← asReadExprs d operands)
  | .not operand => do return .not (← operand.asRead d)
  | .inList operand values => do
    let read ← operand.asRead d
    return operand.under (.inList · values) read
  | .inSelect operand select => do
    let read ← operand.asRead d
    let selectRead ← asReadSelect d select
    return operand.under (.inSelect · selectRead) read
  | .subquery select => do return .subquery (← asReadSelect d select)
  | .contains target value => do
    let read ← target.asRead d
    match d with
    | .postgres => return target.under (.contains · value) read
    | .mysql => return .contains read value
  | .call .. | .wildcard => none

def asReadExprs (d : Dialect) : List Expr → Option (List Expr)
  | [] => some []
  | expr :: rest => do
    let read ← expr.asRead d
    let others ← asReadExprs d rest
    return read :: others

def asReadClause (d : Dialect) : Option Expr → Option (Option Expr)
  | none => some none
  | some expr => do return some (← expr.asRead d)

def asReadSorts (d : Dialect) : List (SortTerm Expr) → Option (List (SortTerm Expr))
  | [] => some []
  | ⟨expr, direction⟩ :: rest => do
    let read ← expr.asRead d
    let others ← asReadSorts d rest
    return ⟨read, direction⟩ :: others

def asReadSelect (d : Dialect) : Clauses Expr → Option (Clauses Expr)
  | ⟨columns, table, filter, order, limit, offset⟩ => do
    let columns ← asReadExprs d columns
    let filter ← asReadClause d filter
    let order ← asReadSorts d order
    let limit ← asReadClause d limit
    let offset ← asReadClause d offset
    return ⟨columns, table, filter, order, limit, offset⟩

end

mutual

/-- The expression with its groups of one operand dropped. -/
def Expr.normal : Expr → Expr
  | .compare left op right => .compare left.normal op right.normal
  | .group _ [only] => only.normal
  | .group op operands => .group op (normalExprs operands)
  | .not operand => .not operand.normal
  | .inList operand values => .inList operand.normal values
  | .inSelect operand select => .inSelect operand.normal (normalSelect select)
  | .subquery select => .subquery (normalSelect select)
  | .contains target value => .contains target.normal value
  | .call name args => .call name (normalExprs args)
  | other => other

def normalExprs : List Expr → List Expr
  | [] => []
  | expr :: rest => expr.normal :: normalExprs rest

def normalClause : Option Expr → Option Expr
  | none => none
  | some expr => some expr.normal

def normalSorts : List (SortTerm Expr) → List (SortTerm Expr)
  | [] => []
  | ⟨expr, direction⟩ :: rest => ⟨expr.normal, direction⟩ :: normalSorts rest

def normalSelect : Clauses Expr → Clauses Expr
  | ⟨columns, table, filter, order, limit, offset⟩ =>
    ⟨normalExprs columns, table, normalClause filter, normalSorts order, normalClause limit,
      normalClause offset⟩

end

theorem asReadExprs_eq_mapM (d : Dialect) (exprs : List Expr) :
    asReadExprs d exprs = exprs.mapM (Expr.asRead d) := by
  induction exprs with
  | nil => rfl
  | cons expr rest ih =>
      rw [asReadExprs, ih, List.mapM_cons]

theorem Expr.asRead_group (d : Dialect) (op : Connective) (first second : Expr)
    (rest : List Expr) :
    (group op (first :: second :: rest)).asRead d =
      (asReadExprs d (first :: second :: rest)).map (group op) := by
  rw [asRead]
  · cases asReadExprs d (first :: second :: rest) <;> rfl
  · simp
  · simp

def asReadSort (d : Dialect) (sort : OrderTerm) : Option OrderTerm :=
  (sort.expr.asRead d).map (⟨·, sort.direction⟩)

theorem asReadSorts_eq_mapM (d : Dialect) (sorts : List OrderTerm) :
    asReadSorts d sorts = sorts.mapM (asReadSort d) := by
  induction sorts with
  | nil => rfl
  | cons sort rest ih =>
      obtain ⟨expr, direction⟩ := sort
      rw [asReadSorts, ih, List.mapM_cons, asReadSort]
      cases expr.asRead d <;> rfl

/-- An expression whose pieces make an operand with the expression's reading, or a `NOT` with an
operand. -/
def Expr.Presents (d : Dialect) : Expr → Prop
  | .not operand => ∃ pieces, (Expr.not operand).atoms Content.of d = .word .not :: pieces ∧
      ReadsAsOperand pieces (operand.asRead d)
  | expr => ReadsAsOperand (expr.atoms Content.of d) (expr.asRead d)

section Presents

variable {d : Dialect} {expr : Expr}

/-- What presents a reading is a term, so it can stand in a list, in a group and in a clause. -/
theorem Expr.Presents.isTerm (h : expr.Presents d) : expr.IsTerm Content.of d := by
  cases expr with
  | not operand =>
      obtain ⟨pieces, hatoms, hpieces⟩ := h
      rw [Expr.IsTerm, hatoms, List.forall_mem_cons]
      exact ⟨rfl, fun piece hpiece => Atom.inTerm_of_inOperand (hpieces.inOperand piece hpiece)⟩
  | _ => exact fun piece hpiece => Atom.inTerm_of_inOperand (h.inOperand piece hpiece)

/-- As an operand the expression is read unless it is a negation, for which an operand has no
place. -/
theorem Expr.Presents.readOperand (h : expr.Presents d) :
    readOperand (expr.atoms Content.of d) = if expr.isNot then none else expr.asRead d := by
  cases expr with
  | not operand =>
      obtain ⟨pieces, hatoms, hpieces⟩ := h
      rw [hatoms]
      rfl
  | _ => exact h.operand

/-- An operator behind an expression is applied to it, or to the operand of its `NOT`: comparisons
bind tighter than `NOT`, so that it takes the comparison whole. -/
theorem Expr.Presents.readNegation_append (h : expr.Presents d) {behind : List Piece}
    (hbehind : ∀ piece ∈ behind.head?, piece.isOperator) :
    readNegation (expr.atoms Content.of d ++ behind) =
      (expr.asRead d).bind fun read =>
        (readOperator behind).map fun build => expr.under build read := by
  cases expr with
  | not operand =>
      obtain ⟨pieces, hatoms, hpieces⟩ := h
      rw [hatoms, List.cons_append, readNegation, Sql.readNegation_append hpieces hbehind,
        Expr.asRead]
      cases operand.asRead d with
      | none => rfl
      | some read => cases readOperator behind <;> rfl
  | _ => exact Sql.readNegation_append h hbehind

/-- Without a connective in between, a condition is what a negation is. -/
theorem Expr.Presents.readCondition_append (h : expr.Presents d) {behind : List Piece}
    (hbehind : ∀ piece ∈ behind.head?, piece.isOperator)
    (hterms : ∀ piece ∈ behind, ∀ op, piece.isConnective op = false) :
    readCondition (expr.atoms Content.of d ++ behind) =
      (expr.asRead d).bind fun read =>
        (readOperator behind).map fun build => expr.under build read := by
  rw [← h.readNegation_append hbehind]
  refine readCondition_of_terms fun piece hpiece op => ?_
  rcases List.mem_append.mp hpiece with hfront | hback
  · exact Atom.isConnective_of_inTerm (h.isTerm piece hfront) op
  · exact hterms piece hback op

theorem Expr.under_id (expr read : Expr) : expr.under id read = read := by
  unfold under
  split <;> rfl

/-- By itself, with nothing behind it, an expression is read as what it presents. -/
theorem Expr.Presents.readNegation (h : expr.Presents d) :
    readNegation (expr.atoms Content.of d) = expr.asRead d := by
  have hnone : ∀ piece ∈ ([] : List Piece).head?, piece.isOperator := by simp
  have hall := h.readNegation_append hnone
  simpa [readOperator, Expr.under_id] using hall

theorem Expr.Presents.readGroup_and (h : expr.Presents d) :
    readGroup .and Sql.readNegation (expr.atoms Content.of d) = expr.asRead d := by
  have hterms : ∀ piece ∈ expr.atoms Content.of d, piece.isConnective .and = false :=
    fun piece hpiece => Atom.isConnective_of_inTerm (h.isTerm piece hpiece) .and
  rw [readGroup, List.splitOnP_eq_singleton hterms]
  exact h.readNegation

/-- As a whole condition too: it shows neither `OR` nor `AND` outside its parentheses. -/
theorem Expr.Presents.readCondition (h : expr.Presents d) :
    readCondition (expr.atoms Content.of d) = expr.asRead d := by
  have hnone : ∀ piece ∈ ([] : List Piece).head?, piece.isOperator := by simp
  have hall := h.readCondition_append hnone (by simp)
  simpa [readOperator, Expr.under_id] using hall

theorem Content.condition_of {pieces : List Piece} (h : ∀ piece ∈ pieces, piece.isClause = false) :
    (Content.of pieces).condition = readCondition pieces := by
  have hhead : pieces.head?.any Atom.isClause = false := by
    cases pieces with
    | nil => rfl
    | cons piece rest => exact h piece (by simp)
  simp [Content.of, hhead]

/-- A condition in parentheses is an operand and is read as the condition. -/
theorem readsAsOperand_inside {pieces : List Piece} {read : Option Expr}
    (hclause : ∀ piece ∈ pieces, piece.isClause = false) (h : readCondition pieces = read) :
    ReadsAsOperand [.inside (Content.of pieces)] read where
  inOperand := by simp [Atom.inOperand]
  operand := (Content.condition_of hclause).trans h

/-- A comparison in parentheses: of an expression with what an operator and its right side make of
it. This is where a negation on the left is read as one of the comparison. -/
theorem Expr.Presents.readsAsOperand_compare (h : expr.Presents d) (operator : Piece)
    (right : List Piece) (hoperator : operator.isOperator)
    (hright : ∀ piece ∈ right, piece.inTerm) :
    ReadsAsOperand [.inside (Content.of (expr.atoms Content.of d ++ operator :: right))]
      ((expr.asRead d).bind fun read =>
        (readOperator (operator :: right)).map fun build => expr.under build read) := by
  refine readsAsOperand_inside ?_ (h.readCondition_append (by simpa using hoperator) ?_)
  · intro piece hpiece
    rcases List.mem_append.mp hpiece with hfront | hback
    · exact Atom.isClause_of_inTerm (h.isTerm piece hfront)
    · rcases List.mem_cons.mp hback with rfl | hback
      · exact Atom.isClause_of_isOperator hoperator
      · exact Atom.isClause_of_inTerm (hright piece hback)
  · intro piece hpiece op
    rcases List.mem_cons.mp hpiece with rfl | hback
    · exact Atom.isConnective_of_isOperator hoperator op
    · exact Atom.isConnective_of_inTerm (hright piece hback) op

/-- Operands with a connective between them are cut at it and read one by one; a single one stands
for itself. -/
theorem readGroup_intercalate (op : Connective) {read : List Piece → Option Expr}
    {operands : List Expr} (hne : operands ≠ []) (h : ∀ e ∈ operands, e.Presents d)
    (hread : ∀ e ∈ operands, read (e.atoms Content.of d) = e.asRead d) :
    readGroup op read ([.word (.connective op)].intercalate (atomsOfExprs Content.of d operands)) =
      (Expr.group op operands).asRead d := by
  have hsplit : ([.word (.connective op)].intercalate
      (operands.map (Expr.atoms Content.of d))).splitOnP (Atom.isConnective op) =
        operands.map (Expr.atoms Content.of d) := by
    refine splitOnP_intercalate (by simp [Atom.isConnective]) ?_ (by simpa using hne)
    rw [List.forall_mem_map]
    exact fun e he piece hpiece => Atom.isConnective_of_inTerm ((h e he).isTerm piece hpiece) op
  rw [readGroup, atomsOfExprs_eq_map, hsplit]
  cases operands with
  | nil => exact absurd rfl hne
  | cons first rest =>
      cases rest with
      | nil => exact hread first (by simp)
      | cons second rest =>
          rw [Expr.asRead_group, asReadExprs_eq_mapM, ← mapM_map_of_forall hread]
          rfl

/-- Joined expressions in parentheses: cut at the words between them, each is read by itself and
joined again. -/
theorem readsAsOperand_group (op : Connective) {operands : List Expr} (hne : operands ≠ [])
    (h : ∀ e ∈ operands, e.Presents d) :
    ReadsAsOperand
      [.inside (Content.of
        ([.word (.connective op)].intercalate (atomsOfExprs Content.of d operands)))]
      ((Expr.group op operands).asRead d) := by
  refine readsAsOperand_inside (fun piece hpiece => ?_) ?_
  · rcases Expr.mem_intercalate_atoms (fun e he => (h e he).isTerm) hpiece with rfl | hterm
    · rfl
    · exact Atom.isClause_of_inTerm hterm
  · have hand : ∀ e ∈ operands, readGroup .and readNegation (e.atoms Content.of d) = e.asRead d :=
      fun e he => (h e he).readGroup_and
    cases op with
    | or => exact readGroup_intercalate .or hne h hand
    | and =>
        have hwhole : ∀ piece ∈ [.word (.connective .and)].intercalate
            (atomsOfExprs Content.of d operands), piece.isConnective .or = false := by
          intro piece hpiece
          rcases Expr.mem_intercalate_atoms (fun e he => (h e he).isTerm) hpiece with rfl | hterm
          · rfl
          · exact Atom.isConnective_of_inTerm hterm .or
        rw [readCondition, readGroup, List.splitOnP_eq_singleton hwhole]
        exact readGroup_intercalate .and hne h fun e he => (h e he).readNegation

theorem readValues_of_ne_nil {pieces : List Piece} (h : pieces ≠ []) :
    readValues pieces = (pieces.splitOnP Atom.isComma).mapM readValue := by
  cases pieces with
  | nil => exact absurd rfl h
  | cons piece rest => rfl

/-- A list of placeholders is read as the values in the order in which they are bound. -/
theorem readValues_intercalate (values : List Json) :
    readValues ([.comma].intercalate (values.map fun value => [.value (some value)])) =
      some values := by
  cases values with
  | nil => rfl
  | cons first rest =>
      have hne : ([.comma] : List Piece).intercalate
          ((first :: rest).map fun value => [.value (some value)]) ≠ [] := by
        cases rest <;> simp
      have hsplit : (([.comma] : List Piece).intercalate
          ((first :: rest).map fun value => [.value (some value)])).splitOnP Atom.isComma =
            (first :: rest).map fun value => [.value (some value)] :=
        splitOnP_intercalate rfl (by simp [Atom.isComma]) (by simp)
      have hread : ∀ value ∈ first :: rest, readValue [.value (some value)] = some value :=
        fun _ _ => rfl
      rw [readValues_of_ne_nil hne, hsplit, mapM_map_of_forall hread]
      exact List.mapM_pure.trans (by simp)

/-- No list of values begins with a word, so that a subquery is not taken for one. -/
theorem readValues_word (word : Word) (rest : List Piece) :
    readValues (.word word :: rest) = none := by
  have hword (behind : List Piece) : readValue (.word word :: behind) = none := by
    cases behind <;> rfl
  rw [readValues_of_ne_nil (by simp), List.splitOnP_cons_eq_if_modifyHead]
  cases hparts : rest.splitOnP Atom.isComma with
  | nil => exact absurd hparts (by simp)
  | cons part others => simp [Atom.isComma, hword]

/-- Expressions in a list with commas: none of their pieces is a comma, so that cutting at commas
gives the expressions back. -/
theorem splitOnP_comma {α : Type} {parts : α → List Piece} {xs : List α} (hne : xs ≠ [])
    (h : ∀ x ∈ xs, ∀ piece ∈ parts x, piece.isComma = false) :
    (([.comma] : List Piece).intercalate (xs.map parts)).splitOnP Atom.isComma = xs.map parts := by
  refine splitOnP_intercalate rfl ?_ (by simpa using hne)
  rw [List.forall_mem_map]
  exact h

theorem readColumns_of_ne {pieces : List Piece}
    (h : ∀ piece ∈ pieces, piece ≠ .word .all) :
    readColumns pieces = (pieces.splitOnP Atom.isComma).mapM readCondition := by
  unfold readColumns
  split
  · exact absurd rfl (h (.word .all) (by simp))
  · rfl

/-- Columns are read one by one, and a star alone as the statement without columns. -/
theorem readColumns_atomsOfExprs {columns : List Expr} (h : ∀ e ∈ columns, e.Presents d) :
    readColumns (columnPieces Content.of d columns) = asReadExprs d columns := by
  cases columns with
  | nil => rfl
  | cons first rest =>
      have hterms : ∀ e ∈ first :: rest, e.IsTerm Content.of d := fun e he => (h e he).isTerm
      have hall : ∀ piece ∈ ([.comma] : List Piece).intercalate
          (atomsOfExprs Content.of d (first :: rest)), piece ≠ .word .all := by
        rintro piece hpiece rfl
        rcases Expr.mem_intercalate_atoms hterms hpiece with heq | hterm
        · cases heq
        · cases hterm
      have hsplit := splitOnP_comma (by simp) fun e he piece hpiece =>
        Atom.isComma_of_inTerm (hterms e he piece hpiece)
      have hread : ∀ e ∈ first :: rest, readCondition (e.atoms Content.of d) = e.asRead d :=
        fun e he => (h e he).readCondition
      change readColumns ([.comma].intercalate (atomsOfExprs Content.of d (first :: rest))) = _
      rw [readColumns_of_ne hall, atomsOfExprs_eq_map, hsplit, mapM_map_of_forall hread,
        asReadExprs_eq_mapM]

/-- The last word of a sort is its direction and what stands in front its expression. -/
theorem readSort_atomsOfSort {sort : OrderTerm} (h : sort.expr.Presents d) :
    readSort (atomsOfSort Content.of d sort) = asReadSort d sort := by
  obtain ⟨expr, direction⟩ := sort
  simp [readSort, atomsOfSort, asReadSort, Expr.Presents.readCondition h]

/-- Sorts are read back one by one, since no comma stands in a sort outside of its parentheses. -/
theorem readSorts_atomsOfSorts {sorts : List OrderTerm} (hne : sorts ≠ [])
    (h : ∀ sort ∈ sorts, sort.expr.Presents d) :
    readSorts (.word .by :: [.comma].intercalate (atomsOfSorts Content.of d sorts)) =
      asReadSorts d sorts := by
  have hcomma : ∀ sort ∈ sorts, ∀ piece ∈ atomsOfSort Content.of d sort,
      piece.isComma = false := fun sort hsort => isComma_atomsOfSort (h sort hsort).isTerm
  have hsplit := splitOnP_comma hne hcomma
  have hread : ∀ sort ∈ sorts, readSort (atomsOfSort Content.of d sort) = asReadSort d sort :=
    fun sort hsort => readSort_atomsOfSort (h sort hsort)
  rw [readSorts, atomsOfSorts_eq_map, hsplit, mapM_map_of_forall hread, asReadSorts_eq_mapM]

/-- An absent clause is read as absent, and one that is there by its expression. -/
theorem readClause_atoms {clause : Option Expr} (h : ∀ e ∈ clause.toList, e.Presents d) :
    readClause readCondition (clause.map (Expr.atoms Content.of d)) = asReadClause d clause := by
  cases clause with
  | none => rfl
  | some expr =>
      have hexpr := (h expr (by simp)).readCondition
      rw [asReadClause, Option.map_some, readClause, hexpr]
      cases expr.asRead d <;> rfl

theorem readClause_sortPieces {sorts : List OrderTerm} (h : ∀ sort ∈ sorts, sort.expr.Presents d) :
    (readClause readSorts (sortPieces Content.of d sorts)).map (·.getD []) =
      asReadSorts d sorts := by
  cases sorts with
  | nil => rfl
  | cons first rest =>
      rw [sortPieces, readClause, readSorts_atomsOfSorts (by simp) h, Option.map_map]
      · exact Option.map_id'
      · simp

/-- A statement is read clause by clause as what its expressions present, the star standing for no
columns. -/
theorem readSelect_atomsOfSelect {select : Select} (h : ∀ e ∈ select.exprs, e.Presents d) :
    readSelect (atomsOfSelect Content.of d select) = asReadSelect d select := by
  obtain ⟨columns, table, filter, order, limit, offset⟩ := select
  simp only [Clauses.exprs, List.forall_mem_append, List.forall_mem_map] at h
  obtain ⟨⟨⟨⟨hcolumns, hfilter⟩, horder⟩, hlimit⟩, hoffset⟩ := h
  have hfront := isClause_columnPieces fun e he => (hcolumns e he).isTerm
  have htable : readClause readTable (table.map fun table => [.name table]) = some table := by
    cases table <;> rfl
  rw [atomsOfSelect_eq, readSelect_clauses hfront, readColumns_atomsOfExprs hcolumns, htable,
    readClause_atoms hfilter, readClause_atoms hlimit, readClause_atoms hoffset, asReadSelect,
    ← readClause_sortPieces horder]
  · cases readClause readSorts (sortPieces Content.of d order) with
    | none => simp
    | some sorts => simp
  · exact isClause_clauses table (fun e he => (hfilter e he).isTerm)
      (fun sort hsort => (horder sort hsort).isTerm) (fun e he => (hlimit e he).isTerm)
      fun e he => (hoffset e he).isTerm

end Presents

/-- Every elementary expression presents its reading. It is by induction on the tree: each
constructor puts what it joins into parentheses, and there its operands are read as they present. -/
theorem Expr.presents (d : Dialect) {expr : Expr} (h : expr.Everywhere Elementary) :
    expr.Presents d := by
  induction expr with
  | column qualifier name =>
      cases qualifier <;> exact ⟨by simp [atoms, Atom.inOperand], rfl⟩
  | value value => exact ⟨by simp [atoms, Atom.inOperand], rfl⟩
  | compare left op right hleft hright =>
      have hleft := hleft (h.inside left (by simp [children]))
      have hright := hright (h.inside right (by simp [children]))
      have hcompare := hleft.readsAsOperand_compare (.word (.comparison op))
        (right.atoms Content.of d) rfl hright.isTerm
      refine hcompare.congr ?_
      rw [readOperator, hright.readOperand, asRead]
      cases left.asRead d with
      | none => rfl
      | some leftRead => cases right.asRead d <;> cases right.isNot <;> rfl
  | group op operands ih =>
      cases operands with
      | nil => exact ⟨by simp [atoms, Atom.inOperand], rfl⟩
      | cons first rest =>
          exact readsAsOperand_group op (by simp) fun e he => ih e he (h.inside e he)
  | not operand ih =>
      have hoperand := ih (h.inside operand (by simp [children]))
      by_cases halone : operand.standsAlone
      · refine ⟨operand.atoms Content.of d, by simp [atoms, halone], ?_⟩
        cases operand with
        | compare left op right => exact hoperand
        | group op operands => exact hoperand
        | _ => cases halone
      · refine ⟨[.inside (Content.of (operand.atoms Content.of d))], by simp [atoms, halone], ?_⟩
        exact readsAsOperand_inside
          (fun piece hpiece => Atom.isClause_of_inTerm (hoperand.isTerm piece hpiece))
          hoperand.readCondition
  | inList operand values ih =>
      have hoperand := ih (h.inside operand (by simp [children]))
      have htest := hoperand.readsAsOperand_compare (.word .isIn) [.inside (Content.of
        ([.comma].intercalate (values.map fun value => [.value (some value)])))] rfl
        (by simp [Atom.inTerm, Atom.inOperand])
      have hselect : (Content.of ([.comma].intercalate
          (values.map fun value => [.value (some value)]))).select = none := by
        cases values with
        | nil => rfl
        | cons first rest => cases rest <;> rfl
      have hvalues : (Content.of ([.comma].intercalate
          (values.map fun value => [.value (some value)]))).values = some values :=
        readValues_intercalate values
      refine htest.congr ?_
      rw [readOperator, hselect, hvalues, asRead]
      cases operand.asRead d <;> rfl
  | inSelect operand select ih hselect =>
      have hoperand := ih (h.inside operand (by simp [children]))
      have htest := hoperand.readsAsOperand_compare (.word .isIn)
        [.inside (Content.of (atomsOfSelect Content.of d select))] rfl
        (by simp [Atom.inTerm, Atom.inOperand])
      have hrows : (Content.of (atomsOfSelect Content.of d select)).select =
          asReadSelect d select :=
        readSelect_atomsOfSelect fun e he => hselect e he (h.inside e (by simp [children, he]))
      have hvalues : (Content.of (atomsOfSelect Content.of d select)).values = none := by
        obtain ⟨columns, table, filter, order, limit, offset⟩ := select
        exact readValues_word _ _
      refine htest.congr ?_
      rw [readOperator, hrows, hvalues, asRead]
      cases operand.asRead d with
      | none => rfl
      | some read => cases asReadSelect d select <;> rfl
  | subquery select ih =>
      have hrows := readSelect_atomsOfSelect fun e he => ih e he (h.inside e he)
      refine ⟨by simp [atoms, Atom.inOperand], ?_⟩
      have hcondition : (Content.of (atomsOfSelect Content.of d select)).condition =
          (readSelect (atomsOfSelect Content.of d select)).map .subquery := by
        obtain ⟨columns, table, filter, order, limit, offset⟩ := select
        rfl
      change (Content.of (atomsOfSelect Content.of d select)).condition = _
      rw [hcondition, hrows, asRead]
      cases asReadSelect d select <;> rfl
  | contains target value ih =>
      have htarget := ih (h.inside target (by simp [children]))
      cases d with
      | postgres =>
          have htest := htarget.readsAsOperand_compare (.word .contains) [.value (some value)] rfl
            (by simp [Atom.inTerm, Atom.inOperand])
          refine htest.congr ?_
          rw [readOperator, asRead]
          cases target.asRead .postgres <;> rfl
      | mysql =>
          have hcomma : ∀ piece ∈ target.atoms Content.of .mysql, piece.isComma = false :=
            fun piece hpiece => Atom.isComma_of_inTerm (htarget.isTerm piece hpiece)
          refine ⟨by simp [atoms, Atom.inOperand], ?_⟩
          change readContainment (target.atoms Content.of .mysql ++
            .comma :: [.value (some value)]) = _
          rw [readContainment, List.splitOnP_append_cons_of_forall_mem hcomma _ rfl]
          change (readCondition (target.atoms Content.of .mysql)).bind _ = _
          rw [htarget.readCondition, asRead]
          cases target.asRead .mysql <;> rfl
  | call name args ih => exact h.here.elim
  | wildcard => exact h.here.elim

/-- A rendered expression is read as what the precedence makes of it. -/
theorem Expr.condition?_render_eq (d : Dialect) {expr : Expr} (h : expr.Everywhere Elementary) :
    (expr.render d).condition? d = expr.asRead d := by
  rw [Statement.condition?, atoms?_render d h, Option.bind_some, (presents d h).readCondition]

/-- Expressions whose operands are no `NOT` where they would be read as something else. -/
def Expr.NotsApart (d : Dialect) : Expr → Prop
  | .compare left _ right => ¬ left.isNot ∧ ¬ right.isNot
  | .inList operand _ | .inSelect operand _ => ¬ operand.isNot
  | .contains target _ => d = .postgres → ¬ target.isNot
  | _ => True

section Faithful

variable {d : Dialect}

/-- Expressions are read as themselves exactly when each is, since their number is kept. -/
theorem asReadExprs_eq_normalExprs (exprs : List Expr) :
    asReadExprs d exprs = some (normalExprs exprs) ↔
      ∀ e ∈ exprs, e.asRead d = some e.normal := by
  induction exprs with
  | nil => simp [asReadExprs, normalExprs]
  | cons expr rest ih =>
      rw [List.forall_mem_cons, ← ih, asReadExprs, normalExprs]
      cases expr.asRead d with
      | none => simp
      | some read => cases asReadExprs d rest <;> simp

theorem asReadClause_eq_normalClause (clause : Option Expr) :
    asReadClause d clause = some (normalClause clause) ↔
      ∀ e ∈ clause.toList, e.asRead d = some e.normal := by
  cases clause with
  | none => simp [asReadClause, normalClause]
  | some expr => cases h : expr.asRead d <;> simp [asReadClause, normalClause, h]

theorem asReadSorts_eq_normalSorts (sorts : List OrderTerm) :
    asReadSorts d sorts = some (normalSorts sorts) ↔
      ∀ sort ∈ sorts, sort.expr.asRead d = some sort.expr.normal := by
  induction sorts with
  | nil => simp [asReadSorts, normalSorts]
  | cons sort rest ih =>
      obtain ⟨expr, direction⟩ := sort
      rw [List.forall_mem_cons, ← ih, asReadSorts, normalSorts]
      cases expr.asRead d with
      | none => simp
      | some read => cases asReadSorts d rest <;> simp

/-- A statement is read as itself exactly when each expression right in it is. -/
theorem asReadSelect_eq_normalSelect (select : Select) :
    asReadSelect d select = some (normalSelect select) ↔
      ∀ e ∈ select.exprs, e.asRead d = some e.normal := by
  obtain ⟨columns, table, filter, order, limit, offset⟩ := select
  simp only [Clauses.exprs, List.forall_mem_append, List.forall_mem_map]
  rw [← asReadExprs_eq_normalExprs columns, ← asReadClause_eq_normalClause filter,
    ← asReadSorts_eq_normalSorts order, ← asReadClause_eq_normalClause limit,
    ← asReadClause_eq_normalClause offset, asReadSelect, normalSelect]
  constructor
  · intro h
    obtain ⟨columnsRead, hcolumns, h⟩ := Option.bind_eq_some_iff.mp h
    obtain ⟨filterRead, hfilter, h⟩ := Option.bind_eq_some_iff.mp h
    obtain ⟨orderRead, horder, h⟩ := Option.bind_eq_some_iff.mp h
    obtain ⟨limitRead, hlimit, h⟩ := Option.bind_eq_some_iff.mp h
    obtain ⟨offsetRead, hoffset, h⟩ := Option.bind_eq_some_iff.mp h
    cases h
    exact ⟨⟨⟨⟨hcolumns, hfilter⟩, horder⟩, hlimit⟩, hoffset⟩
  · rintro ⟨⟨⟨⟨hcolumns, hfilter⟩, horder⟩, hlimit⟩, hoffset⟩
    rw [hcolumns, hfilter, horder, hlimit, hoffset]
    rfl

namespace Expr

/-- Built of an operand that is no `NOT`, and of nothing else, is what does not come out a `NOT`. So
a comparison is read as itself only if its left operand is none. -/
theorem under_eq_iff {operand read e : Expr} (hread : operand.isNot → read.isNot)
    (build : Expr → Expr) (he : e.isNot = false) :
    operand.under build read = e ↔ operand.isNot = false ∧ build read = e := by
  cases operand with
  | not inner =>
      have hnot := hread rfl
      cases read with
      | not readInner =>
          have hne : Expr.not (build readInner) ≠ e := by
            rintro rfl
            cases he
          simpa [under, isNot] using hne
      | _ => cases hnot
  | _ => simp [under, isNot]

/-- What is read of a `NOT` is one, since nothing is left of it outside the operand. -/
theorem isNot_of_asRead {expr read : Expr} (hread : expr.asRead d = some read)
    (h : expr.isNot) : read.isNot := by
  cases expr with
  | not operand =>
      obtain ⟨inner, -, heq⟩ := Option.bind_eq_some_iff.mp hread
      cases heq
      rfl
  | _ => cases h

theorem everywhere_iff {p : Expr → Prop} {expr : Expr} :
    expr.Everywhere p ↔ p expr ∧ ∀ e ∈ expr.children, e.Everywhere p :=
  ⟨fun h => ⟨h.here, h.inside⟩, fun h => .intro h.1 h.2⟩

/-- A statement is read back as its normal form exactly when each of its expressions is, clause by
clause. -/
theorem asReadSelect_eq_normalSelect_iff {select : Select}
    (h : ∀ e ∈ select.exprs, (e.asRead d = some e.normal ↔ e.Everywhere (NotsApart d))) :
    asReadSelect d select = some (normalSelect select) ↔
      ∀ e ∈ select.exprs, e.Everywhere (NotsApart d) := by
  rw [asReadSelect_eq_normalSelect]
  exact forall₂_congr h

/-- The reading is the expression itself exactly when no operand is a `NOT` that is read as
something else. -/
theorem asRead_eq_normal_iff {expr : Expr} (h : expr.Everywhere Elementary) :
    expr.asRead d = some expr.normal ↔ expr.Everywhere (NotsApart d) := by
  induction expr with
  | column qualifier name =>
      rw [everywhere_iff]
      simp [children, asRead, normal, NotsApart]
  | value value =>
      rw [everywhere_iff]
      simp [children, asRead, normal, NotsApart]
  | compare left op right hleft hright =>
      have hleft := hleft (h.inside left (by simp [children]))
      have hright := hright (h.inside right (by simp [children]))
      rw [everywhere_iff]
      simp only [children, List.forall_mem_cons, ← hleft, ← hright]
      rw [asRead, normal, NotsApart]
      cases hleftRead : left.asRead d with
      | none => simp
      | some leftRead =>
          cases hrightRead : right.asRead d with
          | none => simp
          | some rightRead =>
              have hunder := under_eq_iff (isNot_of_asRead hleftRead)
                (.compare · op rightRead) (e := .compare left.normal op right.normal) rfl
              cases right.isNot <;> simp [hunder]
  | group op operands ih =>
      have hparts : (∀ e ∈ operands, e.Everywhere (NotsApart d)) ↔
          ∀ e ∈ operands, e.asRead d = some e.normal :=
        forall₂_congr fun e he => (ih e he (h.inside e he)).symm
      rw [everywhere_iff]
      simp only [children, hparts]
      cases operands with
      | nil => simp [asRead, normal, normalExprs, NotsApart]
      | cons first rest =>
          cases rest with
          | nil => simp [asRead, normal, NotsApart]
          | cons second rest =>
              rw [← asReadExprs_eq_normalExprs, asRead_group, normal]
              · cases asReadExprs d (first :: second :: rest) <;> simp [NotsApart]
              · simp
  | not operand ih =>
      have hoperand := ih (h.inside operand (by simp [children]))
      rw [everywhere_iff]
      simp only [children, List.forall_mem_cons, ← hoperand]
      rw [asRead, normal]
      cases operand.asRead d <;> simp [NotsApart]
  | inList operand values ih =>
      have hoperand := ih (h.inside operand (by simp [children]))
      rw [everywhere_iff]
      simp only [children, List.forall_mem_cons, ← hoperand]
      rw [asRead, normal, NotsApart]
      cases hread : operand.asRead d with
      | none => simp
      | some read =>
          have hunder := under_eq_iff (isNot_of_asRead hread) (.inList · values)
            (e := .inList operand.normal values) rfl
          simp [hunder]
  | inSelect operand select ih hselect =>
      have hoperand := ih (h.inside operand (by simp [children]))
      have hrows := asReadSelect_eq_normalSelect_iff fun e he =>
        hselect e he (h.inside e (by simp [children, he]))
      rw [everywhere_iff]
      simp only [children, List.forall_mem_cons, ← hoperand, ← hrows]
      rw [asRead, normal, NotsApart]
      cases hread : operand.asRead d with
      | none => simp
      | some read =>
          cases asReadSelect d select with
          | none => simp
          | some selectRead =>
              have hunder := under_eq_iff (isNot_of_asRead hread) (.inSelect · selectRead)
                (e := .inSelect operand.normal (normalSelect select)) rfl
              simp [hunder]
  | subquery select ih =>
      have hrows := asReadSelect_eq_normalSelect_iff fun e he => ih e he (h.inside e he)
      rw [everywhere_iff]
      simp only [children, ← hrows]
      rw [asRead, normal]
      cases asReadSelect d select <;> simp [NotsApart]
  | contains target value ih =>
      have htarget := ih (h.inside target (by simp [children]))
      rw [everywhere_iff]
      simp only [children, List.forall_mem_cons, ← htarget]
      rw [asRead, normal, NotsApart]
      cases hread : target.asRead d with
      | none => simp
      | some read =>
          have hunder := under_eq_iff (isNot_of_asRead hread) (.contains · value)
            (e := .contains target.normal value) rfl
          cases d <;> simp [hunder]
  | call name args ih => exact h.here.elim
  | wildcard => exact h.here.elim

/-- The text is read back as the expression exactly when no operand is a `NOT` that is read as
something else. -/
theorem condition?_render_eq_normal_iff (d : Dialect) {expr : Expr}
    (h : expr.Everywhere Elementary) :
    (expr.render d).condition? d = some expr.normal ↔ expr.Everywhere (NotsApart d) := by
  rw [expr.condition?_render_eq d h]
  exact asRead_eq_normal_iff h

end Expr

end Faithful

end Criteria.Sql
