import Criteria.Proofs.Sql.Words

/-!
Lexemes nested by their parentheses. What parentheses hold is closed to one atom as soon as they
end, in whatever way it is to be understood, so that a reader only ever sees one level. Every
expression is written so that its parentheses match, and the atoms of its text follow its structure.
-/

namespace Criteria.Sql

open Fragment (separated lexemes Beside Fresh Closed)

namespace Expr

/-- True of all expressions but function calls and the wildcard that stands for all columns. -/
def Elementary : Expr → Prop
  | .call .. | .wildcard => False
  | _ => True

theorem Elementary.quietCall {e : Expr} (h : e.Elementary) (d : Dialect) : e.QuietCall d := by
  cases e with
  | call name args => exact h.elim
  | _ => trivial

end Expr

/-- A lexeme, or parentheses with what they hold. -/
inductive Atom (π : Type) where
  | name (s : String)
  | value (value : Option Json)
  | word (word : Word)
  | comma
  | dot
  | inside (content : π)

section Nest

variable {π : Type} (close : List (Atom π) → π)

/-- Nests lexemes behind atoms that stand in parentheses, around which there are others, the
innermost first. There is no result if the parentheses do not match. -/
def nest (outer : List (List (Atom π))) (here : List (Atom π)) :
    List Lexeme → Option (List (Atom π))
  | [] => if outer.isEmpty then some here else none
  | .opening :: rest => nest (here :: outer) [] rest
  | .closing :: rest =>
    match outer with
    | [] => none
    | front :: outer => nest outer (front ++ [.inside (close here)]) rest
  | .name s :: rest => nest outer (here ++ [.name s]) rest
  | .value v :: rest => nest outer (here ++ [.value v]) rest
  | .word w :: rest => nest outer (here ++ [.word w]) rest
  | .comma :: rest => nest outer (here ++ [.comma]) rest
  | .dot :: rest => nest outer (here ++ [.dot]) rest

/-- What a statement says, nested. -/
def Statement.atoms? (d : Dialect) (s : Statement) : Option (List (Atom π)) :=
  (s.lexemes? d).bind (nest close [] [])

def atomsOfTable : Option String → List (Atom π)
  | none => []
  | some table => [.word (.clause .table), .name table]

mutual

/-- The atoms of the text of an expression; none for a function call. -/
def Expr.atoms (d : Dialect) : Expr → List (Atom π)
  | .column none name => [.name name]
  | .column (some qualifier) name => [.name qualifier, .dot, .name name]
  | .value value => [.value (some value)]
  | .compare left op right =>
    [.inside (close (left.atoms d ++ .word (.comparison op) :: right.atoms d))]
  | .group op [] => [.word (.unit op)]
  | .group op (first :: rest) =>
    [.inside (close ([.word (.connective op)].intercalate (first.atoms d :: atomsOfExprs d rest)))]
  | .not operand =>
    if operand.standsAlone then .word .not :: operand.atoms d
    else [.word .not, .inside (close (operand.atoms d))]
  | .inList operand values =>
    [.inside (close (operand.atoms d ++ [.word .isIn,
      .inside (close ([.comma].intercalate (values.map fun value => [.value (some value)])))]))]
  | .inSelect operand select =>
    [.inside (close (operand.atoms d ++ [.word .isIn, .inside (close (atomsOfSelect d select))]))]
  | .subquery select => [.inside (close (atomsOfSelect d select))]
  | .contains target value =>
    match d with
    | .postgres => [.inside (close (target.atoms d ++ [.word .contains, .value (some value)]))]
    | .mysql =>
      [.word .containment, .inside (close (target.atoms d ++ [.comma, .value (some value)]))]
  | .call .. => []
  | .wildcard => [.word .all]

def atomsOfExprs (d : Dialect) : List Expr → List (List (Atom π))
  | [] => []
  | expr :: rest => expr.atoms d :: atomsOfExprs d rest

def atomsOfClause (d : Dialect) (word : ClauseWord) : Option Expr → List (Atom π)
  | none => []
  | some expr => .word (.clause word) :: expr.atoms d

def atomsOfSort (d : Dialect) : SortTerm Expr → List (Atom π)
  | ⟨expr, direction⟩ => expr.atoms d ++ [.word (.direction direction)]

def atomsOfSorts (d : Dialect) : List (SortTerm Expr) → List (List (Atom π))
  | [] => []
  | sort :: rest => atomsOfSort d sort :: atomsOfSorts d rest

def atomsOfSelect (d : Dialect) : Clauses Expr → List (Atom π)
  | ⟨columns, table, filter, order, limit, offset⟩ =>
    .word (.clause .select)
      :: (if columns.isEmpty then [.word .all] else [.comma].intercalate (atomsOfExprs d columns))
      ++ atomsOfTable table
      ++ atomsOfClause d .filter filter
      ++ (if order.isEmpty then []
        else .word (.clause .order) :: .word .by :: [.comma].intercalate (atomsOfSorts d order))
      ++ atomsOfClause d .limit limit
      ++ atomsOfClause d .offset offset

end

theorem atomsOfExprs_eq_map (d : Dialect) (exprs : List Expr) :
    atomsOfExprs close d exprs = exprs.map (Expr.atoms close d) := by
  induction exprs with
  | nil => rfl
  | cons expr rest ih => rw [atomsOfExprs, ih, List.map_cons]

theorem atomsOfSorts_eq_map (d : Dialect) (sorts : List OrderTerm) :
    atomsOfSorts close d sorts = sorts.map (atomsOfSort close d) := by
  induction sorts with
  | nil => rfl
  | cons sort rest ih => rw [atomsOfSorts, ih, List.map_cons]

/-- Words stay apart when fragments are put between a text that ends in a parenthesis and one that
starts with it. -/
theorem Fragment.apart_enclosed {fragments : List Fragment} (h : fragments.IsChain Beside)
    {opening closing : Fragment} (hopening : opening.Closed) (hclosing : closing.Fresh) :
    (opening :: fragments ++ [closing]).IsChain Beside := by
  have hend : (fragments ++ [closing]).IsChain Beside :=
    h.append (.singleton _) fun _ _ fragment hhead => .inr (by cases hhead; exact hclosing)
  exact List.isChain_cons.mpr ⟨fun _ _ => .inl hopening, hend⟩

/-- Fragments that are read apart, and whose lexemes nest to atoms wherever they stand. -/
structure Fragment.Spells (fragments : List Fragment) (atoms : List (Atom π)) : Prop where
  apart : fragments.IsChain Beside
  nested : ∀ outer here rest,
    nest close outer here (fragments.flatMap lexemes ++ rest) =
      nest close outer (here ++ atoms) rest

variable {close}

namespace Fragment.Spells

variable {front behind : List Fragment} {atoms others : List (Atom π)}

theorem nil : Spells close [] [] := ⟨.nil, fun _ _ _ => by simp⟩

theorem name (s : String) : Spells close [.name s] [.name s] := ⟨.singleton _, fun _ _ _ => rfl⟩

theorem word {s : String} {word : Word} (h : (Fragment.text s).lexemes = [.word word]) :
    Spells close [.text s] [.word word] := by
  refine ⟨.singleton _, fun outer here rest => ?_⟩
  rw [List.flatMap_singleton, h]
  rfl

theorem bind (value : Json) : Spells close [.bind value] [.value (some value)] :=
  ⟨.singleton _, fun _ _ _ => rfl⟩

/-- Fragments behind others keep the atoms of both, as long as no word of the second runs into the
first. -/
theorem append (hfront : Spells close front atoms) (hbehind : Spells close behind others)
    (hfresh : ∀ fragment ∈ behind.head?, fragment.Fresh) :
    Spells close (front ++ behind) (atoms ++ others) where
  apart := hfront.apart.append hbehind.apart fun _ _ fragment hhead => .inr (hfresh fragment hhead)
  nested outer here rest := by
    rw [List.flatMap_append, List.append_assoc, hfront.nested, hbehind.nested, List.append_assoc]

theorem text_cons {s : String} (hs : Spells close [.text s] atoms)
    (hbehind : Spells close behind others) (hclosed : (Fragment.text s).Closed) :
    Spells close (.text s :: behind) (atoms ++ others) where
  apart := List.isChain_cons.mpr ⟨fun _ _ => .inl hclosed, hbehind.apart⟩
  nested outer here rest := by
    have htext := hs.nested outer here (behind.flatMap lexemes ++ rest)
    rw [List.flatMap_singleton] at htext
    rw [List.flatMap_cons, List.append_assoc, htext, hbehind.nested, List.append_assoc]

/-- A text that is read apart from what stands at either side. -/
abbrev Fence (s : String) : Prop :=
  (Fragment.text s).Closed ∧ (Fragment.text s).Fresh

/-- A text between two lists of fragments adds its own words there. It has to start and end with a
blank or a sign, so that it runs into neither. -/
theorem join {s : String} {words : List (Atom π)} (hfront : Spells close front atoms)
    (hs : Spells close [.text s] words) (hfence : Fence s)
    (hbehind : Spells close behind others) :
    Spells close (front ++ .text s :: behind) (atoms ++ (words ++ others)) :=
  hfront.append (hs.text_cons hbehind hfence.1) (by simp [hfence.2])

/-- Parts with a separator between them have the separator's word between their atoms. -/
theorem separated {α : Type} {parts : α → List Fragment} {written : α → List (Atom π)}
    {xs : List α} {s : String} {separator : Atom π}
    (h : ∀ x ∈ xs, Spells close (parts x) (written x)) (hs : Spells close [.text s] [separator])
    (hfence : Fence s) :
    Spells close (separated s (xs.map parts)) ([separator].intercalate (xs.map written)) := by
  induction xs with
  | nil => exact nil
  | cons x rest ih =>
      have hfirst := h x (by simp)
      cases rest with
      | nil => simpa [Fragment.separated] using hfirst
      | cons second rest =>
          have hrest := ih fun x hx => h x (by simp [hx])
          simpa [Fragment.separated] using hfirst.join hs hfence hrest

/-- Parentheses that a text opens are closed to one atom, which holds all that was written between
them and whatever the text opens them with. -/
theorem enclose {opening : String} {words : List (Atom π)}
    (hopening : ∀ outer here rest, nest close outer here ((Fragment.text opening).lexemes ++ rest) =
      nest close ((here ++ words) :: outer) [] rest)
    (hclosed : (Fragment.text opening).Closed) (h : Spells close front atoms) :
    Spells close (.text opening :: front ++ [.text ")"]) (words ++ [.inside (close atoms)]) where
  apart := by
    have hclosing : (Fragment.text ")").Fresh := by decide
    exact Fragment.apart_enclosed h.apart hclosed hclosing
  nested outer here rest := by
    have hclosing : (Fragment.text ")").lexemes = [.closing] := rfl
    simp [hopening, h.nested, hclosing, nest]

end Fragment.Spells

open Fragment (Spells)

section Parts

variable {d : Dialect}

theorem spells_comma : Spells close [.text ", "] [.comma] :=
  ⟨.singleton _, fun _ _ _ => rfl⟩

theorem spells_connective (op : Connective) :
    Spells close [.text (" " ++ op.text ++ " ")] [.word (.connective op)] :=
  .word (by cases op <;> rfl)

theorem spells_comparison (op : Comparison) :
    Spells close [.text (" " ++ op.text ++ " ")] [.word (.comparison op)] :=
  .word (by cases op <;> rfl)

theorem fence_connective (op : Connective) : Spells.Fence (" " ++ op.text ++ " ") := by
  cases op <;> decide

theorem fence_comparison (op : Comparison) : Spells.Fence (" " ++ op.text ++ " ") := by
  cases op <;> decide

/-- Whatever is put in parentheses becomes one atom, so that no operator around it can take it
apart. -/
theorem spells_parens {fragments : List Fragment} {atoms : List (Atom π)}
    (h : Spells close fragments atoms) :
    Spells close (.text "(" :: fragments ++ [.text ")"]) [.inside (close atoms)] := by
  have hopening (outer : List (List (Atom π))) (here : List (Atom π)) (rest : List Lexeme) :
      nest close outer here ((Fragment.text "(").lexemes ++ rest) =
        nest close ((here ++ []) :: outer) [] rest := by
    rw [List.append_nil]
    rfl
  exact h.enclose hopening (by decide)

/-- A membership test holds its list or its statement in parentheses of their own, inside those
around the whole test. -/
theorem spells_among {front behind : List Fragment} {atoms others : List (Atom π)}
    (hfront : Spells close front atoms) (hbehind : Spells close behind others) :
    Spells close (.text "(" :: front ++ .text " IN (" :: behind ++ [.text "))"])
      [.inside (close (atoms ++ [.word .isIn, .inside (close others)]))] where
  apart := by
    have hin : Spells.Fence " IN (" := by decide
    have hopening : (Fragment.text "(").Closed := by decide
    have hclosing : (Fragment.text "))").Fresh := by decide
    have hinside : (front ++ .text " IN (" :: behind).IsChain Beside :=
      hfront.apart.append (List.isChain_cons.mpr ⟨fun _ _ => .inl hin.1, hbehind.apart⟩)
        fun _ _ fragment hhead => .inr (by cases hhead; exact hin.2)
    simpa using Fragment.apart_enclosed hinside hopening hclosing
  nested outer here rest := by
    have hopening : (Fragment.text "(").lexemes = [.opening] := rfl
    have hin : (Fragment.text " IN (").lexemes = [.word .isIn, .opening] := rfl
    have hclosing : (Fragment.text "))").lexemes = [.closing, .closing] := rfl
    simp [hopening, hin, hclosing, hfront.nested, hbehind.nested, nest]

/-- A list of expressions has the atoms of each, with the word of the separator between them. -/
theorem spells_fragmentsOfExprs {exprs : List Expr}
    (h : ∀ e ∈ exprs, Spells close (e.fragments d) (e.atoms close d)) {s : String}
    {separator : Atom π} (hs : Spells close [.text s] [separator]) (hfence : Spells.Fence s) :
    Spells close (separated s (fragmentsOfExprs d exprs))
      ([separator].intercalate (atomsOfExprs close d exprs)) := by
  rw [fragmentsOfExprs_eq_map, atomsOfExprs_eq_map]
  exact .separated h hs hfence

/-- Sorts are spelled one by one with commas between them, each with its direction behind its
expression. -/
theorem spells_fragmentsOfSorts {sorts : List OrderTerm}
    (h : ∀ sort ∈ sorts, Spells close (sort.expr.fragments d) (sort.expr.atoms close d)) :
    Spells close (separated ", " (fragmentsOfSorts d sorts))
      ([.comma].intercalate (atomsOfSorts close d sorts)) := by
  rw [fragmentsOfSorts_eq_map, atomsOfSorts_eq_map]
  refine .separated ?_ spells_comma (by decide)
  rintro ⟨expr, direction⟩ hsort
  have hdirection : Spells close [.text (" " ++ directionText direction)]
      [.word (.direction direction)] := .word (by cases direction <;> rfl)
  have hfresh : (Fragment.text (" " ++ directionText direction)).Fresh := by
    cases direction <;> decide
  exact (h _ hsort).append hdirection (by simp [hfresh])

/-- A clause that may be absent stands behind whatever comes in front. Absent, it adds no word;
otherwise its keyword comes before the atoms of its expression. -/
theorem Fragment.Spells.clause {front : List Fragment} {atoms : List (Atom π)}
    (hfront : Spells close front atoms) {clause : Option Expr}
    (h : ∀ e ∈ clause.toList, Spells close (e.fragments d) (e.atoms close d)) (keyword : String)
    (word : ClauseWord) (hkeyword : (Fragment.text keyword).lexemes = [.word (.clause word)])
    (hfence : Spells.Fence keyword) :
    Spells close (front ++ fragmentsOfClause d keyword clause)
      (atoms ++ atomsOfClause close d word clause) := by
  cases clause with
  | none => simpa [fragmentsOfClause, atomsOfClause] using hfront
  | some expr => exact hfront.join (.word hkeyword) hfence (h expr (by simp))

/-- A statement is clause after clause. Its atoms hold no parentheses of its own, so that it needs
those that a subquery puts around it. -/
theorem spells_fragmentsOfSelect {select : Select}
    (h : ∀ e ∈ select.exprs, Spells close (e.fragments d) (e.atoms close d)) :
    Spells close (fragmentsOfSelect d select) (atomsOfSelect close d select) := by
  obtain ⟨columns, table, filter, order, limit, offset⟩ := select
  simp only [Clauses.exprs, List.forall_mem_append, List.forall_mem_map] at h
  obtain ⟨⟨⟨⟨hcolumns, hfilter⟩, horder⟩, hlimit⟩, hoffset⟩ := h
  have hlist : Spells close (if columns.isEmpty then [.text "*"]
        else separated ", " (fragmentsOfExprs d columns))
      (if columns.isEmpty then [.word .all]
        else [.comma].intercalate (atomsOfExprs close d columns)) := by
    split
    · exact .word rfl
    · exact spells_fragmentsOfExprs hcolumns spells_comma (by decide)
  have hselect : Spells close [.text "SELECT "] [.word (.clause .select)] := .word rfl
  have hhead := hselect.text_cons hlist (by decide)
  have htable : Spells close (.text "SELECT " :: (if columns.isEmpty then [.text "*"]
        else separated ", " (fragmentsOfExprs d columns)) ++ fragmentsOfTable table)
      (.word (.clause .select) :: (if columns.isEmpty then [.word .all]
        else [.comma].intercalate (atomsOfExprs close d columns)) ++ atomsOfTable table) := by
    cases table with
    | none => simpa [fragmentsOfTable, atomsOfTable] using hhead
    | some table =>
        have hfrom : Spells close [.text " FROM "] [.word (.clause .table)] := .word rfl
        exact hhead.join hfrom (by decide) (.name table)
  have hwhere := htable.clause hfilter " WHERE " .filter rfl (by decide)
  have hsorts : Spells close (if order.isEmpty then []
        else .text " ORDER BY " :: separated ", " (fragmentsOfSorts d order))
      (if order.isEmpty then []
        else .word (.clause .order) :: .word .by ::
          [.comma].intercalate (atomsOfSorts close d order)) := by
    split
    · exact .nil
    · have hlexemes : (Fragment.text " ORDER BY ").lexemes =
          [.word (.clause .order), .word .by] := rfl
      have hby : Spells close [.text " ORDER BY "] [.word (.clause .order), .word .by] :=
        ⟨.singleton _, fun _ _ _ => by simp [hlexemes, nest]⟩
      exact hby.text_cons (spells_fragmentsOfSorts horder) (by decide)
  have hfresh : ∀ fragment ∈ (if order.isEmpty then []
      else .text " ORDER BY " :: separated ", " (fragmentsOfSorts d order)).head?,
        fragment.Fresh := by
    split
    · simp
    · intro fragment hhead
      cases hhead
      decide
  have horderBy := hwhere.append hsorts hfresh
  exact (horderBy.clause hlimit " LIMIT " .limit rfl (by decide)).clause hoffset " OFFSET " .offset
    rfl (by decide)

end Parts

/-- The text of an expression nests to the expression's atoms. It is by induction on the tree, with
a case for each way in which a constructor puts its parentheses. -/
theorem Expr.spells (d : Dialect) {e : Expr} (h : e.Everywhere Elementary) :
    Spells close (e.fragments d) (e.atoms close d) := by
  induction e with
  | column qualifier name =>
      cases qualifier with
      | none => exact .name name
      | some qualifier =>
          have hdot : Spells close [.text "."] [.dot] := ⟨.singleton _, fun _ _ _ => rfl⟩
          exact (Spells.name qualifier).join hdot (by decide) (.name name)
  | value value => exact .bind value
  | compare left op right hleft hright =>
      have hleft := hleft (h.inside left (by simp [children]))
      have hright := hright (h.inside right (by simp [children]))
      have hboth := hleft.join (spells_comparison op) (fence_comparison op) hright
      simpa [fragments, atoms] using spells_parens hboth
  | group op operands ih =>
      have hparts := spells_fragmentsOfExprs (fun e he => ih e he (h.inside e he))
        (spells_connective op) (fence_connective op)
      cases operands with
      | nil => exact .word (by cases op <;> rfl)
      | cons first rest => exact spells_parens hparts
  | not operand ih =>
      have hoperand := ih (h.inside operand (by simp [children]))
      have hnot : Spells close [.text "NOT "] [.word .not] := .word rfl
      rw [fragments, atoms]
      split
      · exact hnot.text_cons hoperand (by decide)
      · exact hnot.text_cons (spells_parens hoperand) (by decide)
  | inList operand values ih =>
      have hoperand := ih (h.inside operand (by simp [children]))
      have hvalues : Spells close (separated ", " (values.map fun value => [.bind value]))
          ([.comma].intercalate (values.map fun value => [.value (some value)])) :=
        .separated (fun value _ => .bind value) spells_comma (by decide)
      exact spells_among hoperand hvalues
  | inSelect operand select ih hselect =>
      have hoperand := ih (h.inside operand (by simp [children]))
      have hrows := spells_fragmentsOfSelect fun e he =>
        hselect e he (h.inside e (by simp [children, he]))
      exact spells_among hoperand hrows
  | subquery select ih =>
      exact spells_parens (spells_fragmentsOfSelect fun e he => ih e he (h.inside e he))
  | contains target value ih =>
      have htarget := ih (h.inside target (by simp [children]))
      cases d with
      | postgres =>
          have hcontains : Spells close [.text " @> "] [.word .contains] := .word rfl
          have hboth := htarget.join hcontains (by decide) (.bind value)
          simpa [fragments, atoms, Dialect.containsOpening, Dialect.containsSeparator] using
            spells_parens hboth
      | mysql =>
          have hboth := htarget.join spells_comma (by decide) (.bind value)
          have hopening (outer : List (List (Atom π))) (here : List (Atom π))
              (rest : List Lexeme) :
              nest close outer here ((Fragment.text "JSON_CONTAINS(").lexemes ++ rest) =
                nest close ((here ++ [.word .containment]) :: outer) [] rest := rfl
          simpa [fragments, atoms, Dialect.containsOpening, Dialect.containsSeparator] using
            hboth.enclose hopening (by decide)
  | call name args ih => exact h.here.elim
  | wildcard => exact h.here.elim

/-- A rendered expression is read as its atoms: its characters are cut into words, and these are
nested by their parentheses. -/
theorem Expr.atoms?_render (d : Dialect) {e : Expr} (h : e.Everywhere Elementary) :
    (e.render d).atoms? close d = some (e.atoms close d) := by
  have hspells : Spells close (e.fragments d) (e.atoms close d) := e.spells d h
  have hlegible := legible_fragments (h.imp fun _ helementary => helementary.quietCall d)
  have hnested := hspells.nested [] [] []
  rw [Statement.atoms?, lexemes?_render hlegible hspells.apart, Option.bind_some]
  simpa [nest] using hnested

end Nest

end Criteria.Sql
