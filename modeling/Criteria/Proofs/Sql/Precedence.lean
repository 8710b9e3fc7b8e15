import Mathlib.Data.Option.Basic
import Criteria.Proofs.Sql.Nesting

/-!
Conditions read by the standard precedence. Parentheses and single operands bind tightest, then the
comparisons, `LIKE`, `IN` and `@>`, then `NOT`, then `AND`, then `OR`. An operand of a comparison is
no `NOT`, unless it is in parentheses: a `NOT` in front takes the comparison as a whole, and one
behind the operator is an error.
-/

namespace Criteria.Sql

/-- What parentheses hold, in each of the ways in which it can be meant. -/
structure Content where
  /-- A condition or an operand; also a statement, as a subquery. -/
  condition : Option Expr
  select : Option Select
  values : Option (List Json)
  /-- The arguments of the containment function. -/
  containment : Option Expr

abbrev Piece := Atom Content

namespace Atom

variable {π : Type}

def isOperator : Atom π → Bool
  | .word (.comparison _) | .word .isIn | .word .contains => true
  | _ => false

def isConnective (op : Connective) : Atom π → Bool
  | .word (.connective found) => found = op
  | _ => false

def isComma : Atom π → Bool
  | .comma => true
  | _ => false

def isClause : Atom π → Bool
  | .word (.clause _) => true
  | _ => false

end Atom

/-- An operand by itself. -/
def readOperand : List Piece → Option Expr
  | [.name name] => some (.column none name)
  | [.name qualifier, .dot, .name name] => some (.column (some qualifier) name)
  | [.value value] => value.map .value
  | [.word (.unit op)] => some (.group op [])
  | [.inside content] => content.condition
  | [.word .containment, .inside content] => content.containment
  | _ => none

/-- What is made of an operand by what stands behind it: an operator and its right side. -/
def readOperator : List Piece → Option (Expr → Expr)
  | [] => some id
  | [.word .isIn, .inside content] =>
    (content.select.map fun select left => .inSelect left select).or
      (content.values.map fun values left => .inList left values)
  | [.word .contains, .value value] => value.map fun value left => .contains left value
  | .word (.comparison op) :: right =>
    (readOperand right).map fun right left => .compare left op right
  | _ => none

def readComparison (pieces : List Piece) : Option Expr :=
  (readOperand (pieces.takeWhile (!·.isOperator))).bind fun left =>
    (readOperator (pieces.dropWhile (!·.isOperator))).map (· left)

def readNegation : List Piece → Option Expr
  | .word .not :: rest => (readNegation rest).map .not
  | pieces => readComparison pieces

/-- The parts between the words of a connective. A single part is no group. -/
def readGroup (op : Connective) (read : List Piece → Option Expr) (pieces : List Piece) :
    Option Expr :=
  match pieces.splitOnP (Atom.isConnective op) with
  | [only] => read only
  | parts => (parts.mapM read).map (.group op)

def readCondition : List Piece → Option Expr :=
  readGroup .or (readGroup .and readNegation)

def readValue : List Piece → Option Json
  | [.value value] => value
  | _ => none

def readValues : List Piece → Option (List Json)
  | [] => some []
  | pieces => (pieces.splitOnP Atom.isComma).mapM readValue

def readContainment (pieces : List Piece) : Option Expr :=
  match pieces.splitOnP Atom.isComma with
  | [target, [.value value]] => do
    let target ← readCondition target
    value.map (.contains target)
  | _ => none

def readColumns : List Piece → Option (List Expr)
  | [.word .all] => some []
  | pieces => (pieces.splitOnP Atom.isComma).mapM readCondition

def readTable : List Piece → Option String
  | [.name table] => some table
  | _ => none

def readSort (pieces : List Piece) : Option OrderTerm :=
  match pieces.getLast? with
  | some (.word (.direction direction)) => (readCondition pieces.dropLast).map (⟨·, direction⟩)
  | _ => none

def readSorts : List Piece → Option (List OrderTerm)
  | .word .by :: pieces => (pieces.splitOnP Atom.isComma).mapM readSort
  | _ => none

/-- The clause in front, if it is the one of the word, and what stands behind it. -/
def splitClause (word : ClauseWord) : List Piece → Option (List Piece) × List Piece
  | .word (.clause found) :: rest =>
    if found = word then (some (rest.takeWhile (!·.isClause)), rest.dropWhile (!·.isClause))
    else (none, .word (.clause found) :: rest)
  | pieces => (none, pieces)

def readClause {α : Type} (read : List Piece → Option α) : Option (List Piece) → Option (Option α)
  | none => some none
  | some pieces => (read pieces).map some

/-- A statement: its clauses in their order, each at most once. -/
def readSelect : List Piece → Option Select
  | .word (.clause .select) :: pieces => do
    let (table, rest) := splitClause .table (pieces.dropWhile (!·.isClause))
    let (filter, rest) := splitClause .filter rest
    let (order, rest) := splitClause .order rest
    let (limit, rest) := splitClause .limit rest
    let (offset, rest) := splitClause .offset rest
    guard rest.isEmpty
    let columns ← readColumns (pieces.takeWhile (!·.isClause))
    let table ← readClause readTable table
    let filter ← readClause readCondition filter
    let order ← readClause readSorts order
    let limit ← readClause readCondition limit
    let offset ← readClause readCondition offset
    return { columns, table, filter, order := order.getD [], limit, offset }
  | _ => none

/-- Each way of reading what parentheses hold. -/
def Content.of (pieces : List Piece) : Content where
  condition :=
    if pieces.head?.any Atom.isClause then (readSelect pieces).map .subquery
    else readCondition pieces
  select := readSelect pieces
  values := readValues pieces
  containment := readContainment pieces

/-- The condition that a statement's text and parameters say by the standard precedence. -/
def Statement.condition? (d : Dialect) (s : Statement) : Option Expr :=
  (s.atoms? Content.of d).bind readCondition

section Lists

variable {α : Type} {p : α → Bool}

/-- Cutting at separators undoes joining parts that have none inside, which is what makes lists and
groups readable. -/
theorem splitOnP_intercalate {separator : α} (hseparator : p separator) {parts : List (List α)}
    (hparts : ∀ part ∈ parts, ∀ a ∈ part, p a = false) (hne : parts ≠ []) :
    ([separator].intercalate parts).splitOnP p = parts := by
  induction parts with
  | nil => exact absurd rfl hne
  | cons part rest ih =>
      have hpart := hparts part (by simp)
      cases rest with
      | nil => simpa using List.splitOnP_eq_singleton hpart
      | cons second rest =>
          have hrest := ih (fun part hmem => hparts part (by simp [hmem])) (by simp)
          rw [List.intercalate_cons_cons, List.append_assoc, List.singleton_append,
            List.splitOnP_append_cons_of_forall_mem hpart _ hseparator, hrest]

/-- Reading up to a word stops right in front of it, if no word before is of that kind. -/
theorem takeWhile_append_of_head {front behind : List α} (hfront : ∀ a ∈ front, p a)
    (hbehind : ∀ a ∈ behind.head?, p a = false) : (front ++ behind).takeWhile p = front := by
  rw [List.takeWhile_append_of_pos hfront]
  cases behind with
  | nil => simp
  | cons a rest => simp [hbehind a (by simp)]

theorem dropWhile_append_of_head {front behind : List α} (hfront : ∀ a ∈ front, p a)
    (hbehind : ∀ a ∈ behind.head?, p a = false) : (front ++ behind).dropWhile p = behind := by
  rw [List.dropWhile_append_of_pos hfront]
  cases behind with
  | nil => simp
  | cons a rest => simp [hbehind a (by simp)]

theorem mapM_map_of_forall {β γ : Type} {f : β → α} {read : α → Option γ} {g : β → Option γ}
    {xs : List β} (h : ∀ x ∈ xs, read (f x) = g x) : (xs.map f).mapM read = xs.mapM g := by
  induction xs with
  | nil => rfl
  | cons x rest ih =>
      have hrest := ih fun x hx => h x (by simp [hx])
      rw [List.map_cons, List.mapM_cons, List.mapM_cons, h x (by simp), hrest]

/-- What stands in joined parts is the separator or stands in one of the parts. -/
theorem mem_intercalate {separator a : α} {parts : List (List α)}
    (h : a ∈ [separator].intercalate parts) : a = separator ∨ ∃ part ∈ parts, a ∈ part := by
  induction parts with
  | nil => simp at h
  | cons part rest ih =>
      cases rest with
      | nil => exact .inr ⟨part, by simp, by simpa using h⟩
      | cons second rest =>
          rw [List.intercalate_cons_cons, List.mem_append, List.mem_append,
            List.mem_singleton] at h
          rcases h with (h | h) | h
          · exact .inr ⟨part, by simp, h⟩
          · exact .inl h
          · rcases ih h with heq | ⟨found, hfound, ha⟩
            · exact .inl heq
            · exact .inr ⟨found, by simp [hfound], ha⟩

end Lists

namespace Atom

variable {π : Type}

/-- True of what operands consist of. -/
def inOperand : Atom π → Bool
  | .name _ | .value _ | .dot | .inside _ | .word (.unit _) | .word .containment => true
  | _ => false

/-- True of what operands consist of, and of `NOT`. -/
def inTerm : Atom π → Bool
  | .word .not => true
  | atom => atom.inOperand

theorem inTerm_of_inOperand {atom : Atom π} (h : atom.inOperand) : atom.inTerm := by
  unfold inTerm
  split
  · rfl
  · exact h

/-- What may stand in an operand is no operator, so an operator that is seen outside of parentheses
ends the operand. -/
theorem isOperator_of_inOperand {atom : Atom π} (h : atom.inOperand) :
    atom.isOperator = false := by
  cases atom with
  | word word => cases word <;> first | rfl | cases h
  | _ => rfl

theorem isConnective_of_inTerm {atom : Atom π} (h : atom.inTerm) (op : Connective) :
    atom.isConnective op = false := by
  cases atom with
  | word word => cases word <;> first | rfl | cases h
  | _ => rfl

theorem isComma_of_inTerm {atom : Atom π} (h : atom.inTerm) : atom.isComma = false := by
  cases atom with
  | comma => cases h
  | _ => rfl

theorem isClause_of_inTerm {atom : Atom π} (h : atom.inTerm) : atom.isClause = false := by
  cases atom with
  | word word => cases word <;> first | rfl | cases h
  | _ => rfl

theorem isConnective_of_isOperator {atom : Atom π} (h : atom.isOperator) (op : Connective) :
    atom.isConnective op = false := by
  cases atom with
  | word word => cases word <;> first | rfl | cases h
  | _ => rfl

theorem isClause_of_isOperator {atom : Atom π} (h : atom.isOperator) : atom.isClause = false := by
  cases atom with
  | word word => cases word <;> first | rfl | cases h
  | _ => rfl

end Atom

/-- Pieces that make an operand, and its reading. -/
structure ReadsAsOperand (pieces : List Piece) (read : Option Expr) : Prop where
  inOperand : ∀ piece ∈ pieces, piece.inOperand
  operand : readOperand pieces = read

theorem ReadsAsOperand.congr {pieces : List Piece} {read other : Option Expr}
    (h : ReadsAsOperand pieces read) (heq : read = other) : ReadsAsOperand pieces other :=
  heq ▸ h

section Terms

variable {pieces behind : List Piece} {read : Option Expr}

/-- An operand is read up to the first operator behind it; what the operator and its right side make
of it comes on top. -/
theorem readComparison_append (h : ReadsAsOperand pieces read)
    (hbehind : ∀ piece ∈ behind.head?, piece.isOperator) :
    readComparison (pieces ++ behind) =
      read.bind fun left => (readOperator behind).map (· left) := by
  have hfront : ∀ piece ∈ pieces, (!piece.isOperator) = true := fun piece hpiece => by
    simp [Atom.isOperator_of_inOperand (h.inOperand piece hpiece)]
  have hhead : ∀ piece ∈ behind.head?, (!piece.isOperator) = false := fun piece hpiece => by
    simp [hbehind piece hpiece]
  rw [readComparison, takeWhile_append_of_head hfront hhead, dropWhile_append_of_head hfront hhead,
    h.operand]

/-- Without a `NOT` in front, a term is what a comparison is. -/
theorem readNegation_append (h : ReadsAsOperand pieces read)
    (hbehind : ∀ piece ∈ behind.head?, piece.isOperator) :
    readNegation (pieces ++ behind) =
      read.bind fun left => (readOperator behind).map (· left) := by
  rw [← readComparison_append h hbehind]
  cases hpieces : pieces ++ behind with
  | nil => rfl
  | cons first rest =>
      have hfirst : first ≠ .word .not := by
        rintro rfl
        cases pieces with
        | nil => simpa [Atom.isOperator] using hbehind (.word .not) (by simp_all)
        | cons piece others =>
            have hpiece := h.inOperand piece (by simp)
            simp_all [Atom.inOperand]
      rw [readNegation]
      exact fun _ heq => hfirst (List.cons.inj heq).1

/-- No connective stands in between, so that the pieces are a single term and neither `OR` nor `AND`
cuts them. -/
theorem readCondition_of_terms (h : ∀ piece ∈ pieces, ∀ op, piece.isConnective op = false) :
    readCondition pieces = readNegation pieces := by
  have hsplit (op : Connective) : pieces.splitOnP (Atom.isConnective op) = [pieces] :=
    List.splitOnP_eq_singleton fun piece hpiece => h piece hpiece op
  rw [readCondition, readGroup, hsplit .or]
  change readGroup .and readNegation pieces = _
  rw [readGroup, hsplit .and]

end Terms

/-- The pieces of a clause that may be absent. -/
def clausePieces {π : Type} (word : ClauseWord) : Option (List (Atom π)) → List (Atom π)
  | none => []
  | some body => .word (.clause word) :: body

/-- Pieces that begin with one of some clauses, or not at all. -/
def Leads {π : Type} (words : List ClauseWord) (pieces : List (Atom π)) : Prop :=
  ∀ piece ∈ pieces.head?, ∃ word ∈ words, piece = .word (.clause word)

section Clauses

variable {words : List ClauseWord}

section Leads

variable {π : Type} {behind : List (Atom π)}

theorem Leads.isClause (h : Leads words behind) :
    ∀ piece ∈ behind.head?, (!piece.isClause) = false := by
  intro piece hpiece
  obtain ⟨word, -, rfl⟩ := h piece hpiece
  rfl

/-- A clause in front of others begins with its own word or is not there, and so leads them either
way. -/
theorem Leads.clause (h : Leads words behind) (word : ClauseWord)
    (body : Option (List (Atom π))) :
    Leads (word :: words) (clausePieces word body ++ behind) := by
  intro piece hpiece
  cases body with
  | none =>
      obtain ⟨found, hfound, heq⟩ := h piece hpiece
      exact ⟨found, by simp [hfound], heq⟩
  | some body =>
      cases hpiece
      exact ⟨word, by simp, rfl⟩

end Leads

/-- A clause ends where the next one begins, and an absent one is not taken for a later one, since
each has its own word and they come in one order. -/
theorem splitClause_append {behind : List Piece} (h : Leads words behind) (word : ClauseWord)
    (hword : word ∉ words) {body : Option (List Piece)}
    (hbody : ∀ pieces ∈ body, ∀ piece ∈ pieces, (!piece.isClause) = true) :
    splitClause word (clausePieces word body ++ behind) = (body, behind) := by
  cases body with
  | some body =>
      have hfront := hbody body rfl
      rw [clausePieces, List.cons_append, splitClause, if_pos rfl,
        takeWhile_append_of_head hfront h.isClause, dropWhile_append_of_head hfront h.isClause]
  | none =>
      change splitClause word behind = (none, behind)
      cases behind with
      | nil => rfl
      | cons first rest =>
          obtain ⟨found, hfound, rfl⟩ := h first rfl
          have hne : found ≠ word := by
            rintro rfl
            exact hword hfound
          rw [splitClause, if_neg hne]

/-- What stands in front of the clauses. -/
def columnPieces {π : Type} (close : List (Atom π) → π) (d : Dialect) :
    List Expr → List (Atom π)
  | [] => [.word .all]
  | columns => [.comma].intercalate (atomsOfExprs close d columns)

/-- What stands behind the word of the order, if there is one. -/
def sortPieces {π : Type} (close : List (Atom π) → π) (d : Dialect) :
    List OrderTerm → Option (List (Atom π))
  | [] => none
  | sorts => some (.word .by :: [.comma].intercalate (atomsOfSorts close d sorts))

/-- The pieces of a statement, clause by clause, as a reader takes them off from the front. -/
theorem atomsOfSelect_eq {π : Type} (close : List (Atom π) → π) (d : Dialect) (columns : List Expr)
    (table : Option String) (filter : Option Expr) (order : List OrderTerm)
    (limit offset : Option Expr) :
    atomsOfSelect close d ⟨columns, table, filter, order, limit, offset⟩ =
      .word (.clause .select) :: (columnPieces close d columns ++
        (clausePieces .table (table.map fun table => [.name table]) ++
        (clausePieces .filter (filter.map (Expr.atoms close d)) ++
        (clausePieces .order (sortPieces close d order) ++
        (clausePieces .limit (limit.map (Expr.atoms close d)) ++
        (clausePieces .offset (offset.map (Expr.atoms close d)) ++ [])))))) := by
  have hcolumns : (if columns.isEmpty then [.word .all]
      else [.comma].intercalate (atomsOfExprs close d columns)) = columnPieces close d columns := by
    cases columns <;> rfl
  have htable : (atomsOfTable table : List (Atom π)) =
      clausePieces .table (table.map fun table => [.name table]) := by
    cases table <;> rfl
  have hclause (word : ClauseWord) (clause : Option Expr) :
      atomsOfClause close d word clause =
        clausePieces word (clause.map (Expr.atoms close d)) := by
    cases clause <;> rfl
  have hsorts : (if order.isEmpty then []
      else .word (.clause .order) :: .word .by ::
        [.comma].intercalate (atomsOfSorts close d order)) =
          clausePieces .order (sortPieces close d order) := by
    cases order <;> rfl
  simp only [atomsOfSelect, hcolumns, htable, hclause, hsorts, List.cons_append, List.append_assoc,
    List.append_nil]

section Parts

variable {π : Type} {close : List (Atom π) → π} {d : Dialect}

/-- An expression in which no separator, operator or clause is seen from outside. -/
def Expr.IsTerm (close : List (Atom π) → π) (d : Dialect) (e : Expr) : Prop :=
  ∀ atom ∈ e.atoms close d, atom.inTerm

/-- An elementary expression is a term: outside of parentheses it shows no connective, no comma and
no clause. -/
theorem Expr.isTerm {e : Expr} (h : e.Elementary) : e.IsTerm close d := by
  cases e with
  | column qualifier name =>
      cases qualifier <;> simp [IsTerm, atoms, Atom.inTerm, Atom.inOperand]
  | group op operands => cases operands <;> simp [IsTerm, atoms, Atom.inTerm, Atom.inOperand]
  | not operand =>
      cases operand with
      | group op operands =>
          cases operands <;> simp [IsTerm, atoms, standsAlone, Atom.inTerm, Atom.inOperand]
      | _ => simp [IsTerm, atoms, standsAlone, Atom.inTerm, Atom.inOperand]
  | contains target value => cases d <;> simp [IsTerm, atoms, Atom.inTerm, Atom.inOperand]
  | call name args => exact h.elim
  | wildcard => exact h.elim
  | _ => simp [IsTerm, atoms, Atom.inTerm, Atom.inOperand]

theorem Expr.mem_intercalate_atoms {separator atom : Atom π} {exprs : List Expr}
    (h : ∀ e ∈ exprs, e.IsTerm close d)
    (hatom : atom ∈ [separator].intercalate (atomsOfExprs close d exprs)) :
    atom = separator ∨ atom.inTerm := by
  rw [atomsOfExprs_eq_map] at hatom
  rcases mem_intercalate hatom with heq | ⟨part, hpart, hmem⟩
  · exact .inl heq
  · obtain ⟨e, he, rfl⟩ := List.mem_map.mp hpart
    exact .inr (h e he atom hmem)

theorem mem_atomsOfSort {sort : OrderTerm} (h : sort.expr.IsTerm close d) {atom : Atom π}
    (hatom : atom ∈ atomsOfSort close d sort) :
    atom.inTerm ∨ atom = .word (.direction sort.direction) := by
  obtain ⟨expr, direction⟩ := sort
  exact (List.mem_append.mp hatom).imp (h atom) List.mem_singleton.mp

/-- A sort shows no comma outside of parentheses, so that an order can be cut at its commas. -/
theorem isComma_atomsOfSort {sort : OrderTerm} (h : sort.expr.IsTerm close d) :
    ∀ atom ∈ atomsOfSort close d sort, atom.isComma = false := by
  intro atom hatom
  rcases mem_atomsOfSort h hatom with hterm | rfl
  · exact Atom.isComma_of_inTerm hterm
  · rfl

/-- No column has the word of a clause outside of its parentheses, so the list of columns ends where
the first clause begins. -/
theorem isClause_columnPieces {columns : List Expr} (h : ∀ e ∈ columns, e.IsTerm close d) :
    ∀ atom ∈ columnPieces close d columns, (!atom.isClause) = true := by
  intro atom hatom
  cases columns with
  | nil =>
      rw [List.mem_singleton.mp hatom]
      rfl
  | cons first rest =>
      rcases Expr.mem_intercalate_atoms h hatom with rfl | hterm
      · rfl
      · simp [Atom.isClause_of_inTerm hterm]

theorem isClause_sortPieces {sorts : List OrderTerm}
    (h : ∀ sort ∈ sorts, sort.expr.IsTerm close d) :
    ∀ pieces ∈ sortPieces close d sorts, ∀ atom ∈ pieces, (!atom.isClause) = true := by
  intro pieces hpieces atom hatom
  cases sorts with
  | nil => cases hpieces
  | cons first rest =>
      cases hpieces
      rcases List.mem_cons.mp hatom with rfl | hatom
      · rfl
      rw [atomsOfSorts_eq_map] at hatom
      rcases mem_intercalate hatom with rfl | ⟨part, hpart, hmem⟩
      · rfl
      · obtain ⟨sort, hsort, rfl⟩ := List.mem_map.mp hpart
        rcases mem_atomsOfSort (h sort hsort) hmem with hterm | rfl
        · simp [Atom.isClause_of_inTerm hterm]
        · rfl

/-- No clause of a statement has another one inside, except in the parentheses of a subquery, which
are one atom. -/
theorem isClause_clauses (table : Option String) {filter : Option Expr} {order : List OrderTerm}
    {limit offset : Option Expr} (hfilter : ∀ e ∈ filter.toList, e.IsTerm close d)
    (horder : ∀ sort ∈ order, sort.expr.IsTerm close d)
    (hlimit : ∀ e ∈ limit.toList, e.IsTerm close d)
    (hoffset : ∀ e ∈ offset.toList, e.IsTerm close d) :
    ∀ body ∈ [table.map fun table => [.name table], filter.map (Expr.atoms close d),
      sortPieces close d order, limit.map (Expr.atoms close d), offset.map (Expr.atoms close d)],
      ∀ pieces ∈ body, ∀ atom ∈ pieces, (!atom.isClause) = true := by
  have hclause {clause : Option Expr} (h : ∀ e ∈ clause.toList, e.IsTerm close d) :
      ∀ pieces ∈ clause.map (Expr.atoms close d), ∀ atom ∈ pieces,
        (!atom.isClause) = true := by
    intro pieces hpieces atom hatom
    obtain ⟨e, he, rfl⟩ := Option.map_eq_some_iff.mp hpieces
    simp [Atom.isClause_of_inTerm (h e (by simp [he]) atom hatom)]
  simp only [List.forall_mem_cons]
  exact ⟨by cases table <;> simp [Atom.isClause], hclause hfilter, isClause_sortPieces horder,
    hclause hlimit, hclause hoffset, by simp⟩

end Parts

/-- A statement is read clause by clause: each body is what stands between its word and that of the
next clause that is there. -/
theorem readSelect_clauses {columns : List Piece}
    {table filter order limit offset : Option (List Piece)}
    (hcolumns : ∀ piece ∈ columns, (!piece.isClause) = true)
    (hbodies : ∀ body ∈ [table, filter, order, limit, offset], ∀ pieces ∈ body,
      ∀ piece ∈ pieces, (!piece.isClause) = true) :
    readSelect (.word (.clause .select) :: (columns ++ (clausePieces .table table ++
      (clausePieces .filter filter ++ (clausePieces .order order ++
        (clausePieces .limit limit ++ (clausePieces .offset offset ++ []))))))) = (do
      let columns ← readColumns columns
      let table ← readClause readTable table
      let filter ← readClause readCondition filter
      let order ← readClause readSorts order
      let limit ← readClause readCondition limit
      let offset ← readClause readCondition offset
      return { columns, table, filter, order := order.getD [], limit, offset }) := by
  simp only [List.forall_mem_cons] at hbodies
  obtain ⟨htable, hfilter, horder, hlimit, hoffset, -⟩ := hbodies
  have hend : Leads [] ([] : List Piece) := by simp [Leads]
  have hskip := hend.clause .offset offset
  have hrows := hskip.clause .limit limit
  have hsorts := hrows.clause .order order
  have hwhere := hsorts.clause .filter filter
  have hfrom := hwhere.clause .table table
  rw [readSelect, takeWhile_append_of_head hcolumns hfrom.isClause,
    dropWhile_append_of_head hcolumns hfrom.isClause,
    splitClause_append hwhere .table (by decide) htable]
  simp only [splitClause_append hsorts .filter (by decide) hfilter,
    splitClause_append hrows .order (by decide) horder,
    splitClause_append hskip .limit (by decide) hlimit,
    splitClause_append hend .offset (by decide) hoffset]
  rfl

end Clauses

end Criteria.Sql
