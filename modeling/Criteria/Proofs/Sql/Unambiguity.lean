import Criteria.Proofs.Sql.Forms

/-!
Rendering is unambiguous. A text and its parameters nest to the same atoms whatever becomes of the
parentheses, so it is enough that atoms determine the expression, up to groups of one operand.
-/

namespace Criteria.Sql

open Criteria.Sql.Expr (Elementary)

/-- The expressions with the same atoms are the same up to groups of one. -/
def Expr.Told {π : Type} (close : List (Atom π) → π) (d : Dialect) (e : Expr) : Prop :=
  ∀ e' : Expr, e'.Everywhere Elementary → e.atoms close d = e'.atoms close d →
    e.normal = e'.normal

section Parts

variable {π : Type} {close : List (Atom π) → π} {d : Dialect}

theorem values_eq_of_intercalate {values values' : List Json}
    (h : ([.comma].intercalate (values.map fun value => [.value (some value)]) : List (Atom π)) =
      [.comma].intercalate (values'.map fun value => [.value (some value)])) :
    values = values' := by
  by_cases hvalues : values = []
  · subst hvalues
    rcases values' with _ | ⟨first, _ | ⟨second, rest⟩⟩
    · rfl
    · simp at h
    · simp at h
  by_cases hvalues' : values' = []
  · subst hvalues'
    rcases values with _ | ⟨first, _ | ⟨second, rest⟩⟩
    · rfl
    · simp at h
    · simp at h
  have hparts := map_eq_map_of_intercalate (p := Atom.isComma) rfl (by simp [Atom.isComma])
    (by simp [Atom.isComma]) hvalues hvalues' h
  exact List.map_injective_iff.mpr (fun _ _ heq => by simpa using heq) hparts

theorem normalExprs_eq {exprs exprs' : List Expr} (htold : ∀ e ∈ exprs, e.Told close d)
    (h' : ∀ e ∈ exprs', e.Everywhere Elementary)
    (h : exprs.map (Expr.atoms close d) = exprs'.map (Expr.atoms close d)) :
    normalExprs exprs = normalExprs exprs' := by
  induction exprs generalizing exprs' with
  | nil =>
      cases exprs' with
      | nil => rfl
      | cons first' rest' => cases h
  | cons first rest ih =>
      cases exprs' with
      | nil => cases h
      | cons first' rest' =>
          obtain ⟨hfirst, hrest⟩ := List.cons.inj h
          rw [normalExprs, normalExprs, htold first (by simp) first' (h' first' (by simp)) hfirst,
            ih (fun e he => htold e (by simp [he])) (fun e he => h' e (by simp [he])) hrest]

/-- The expressions of a list are told apart by what separates them: the separator has the property
`p`, and no piece of an elementary expression outside of its parentheses has it. -/
theorem normalExprs_eq_of_intercalate {p : Atom π → Bool} {separator : Atom π}
    (hseparator : p separator) (hp : ∀ atom : Atom π, atom.inTerm → p atom = false)
    {exprs exprs' : List Expr} (hne : exprs ≠ []) (hne' : exprs' ≠ [])
    (htold : ∀ e ∈ exprs, e.Told close d) (he : ∀ e ∈ exprs, e.Everywhere Elementary)
    (he' : ∀ e ∈ exprs', e.Everywhere Elementary)
    (h : [separator].intercalate (exprs.map (Expr.atoms close d)) =
      [separator].intercalate (exprs'.map (Expr.atoms close d))) :
    normalExprs exprs = normalExprs exprs' :=
  normalExprs_eq htold he' (map_eq_map_of_intercalate hseparator
    (fun e hmem atom hatom => hp atom (Expr.isTerm (he e hmem).here atom hatom))
    (fun e hmem atom hatom => hp atom (Expr.isTerm (he' e hmem).here atom hatom)) hne hne' h)

theorem normalClause_eq {clause clause' : Option Expr}
    (htold : ∀ e ∈ clause.toList, e.Told close d)
    (he' : ∀ e ∈ clause'.toList, e.Everywhere Elementary)
    (h : clause.map (Expr.atoms close d) = clause'.map (Expr.atoms close d)) :
    normalClause clause = normalClause clause' := by
  cases clause with
  | none =>
      cases clause' with
      | none => rfl
      | some expr' => cases h
  | some expr =>
      cases clause' with
      | none => cases h
      | some expr' =>
          rw [normalClause, normalClause,
            htold expr (by simp) expr' (he' expr' (by simp)) (Option.some.inj h)]

/-- Sorts with the same pieces have the same expressions up to groups of one, and the same
directions. The direction stands behind the expression, where no elementary expression goes on. -/
theorem normalSorts_eq {sorts sorts' : List OrderTerm}
    (htold : ∀ sort ∈ sorts, sort.expr.Told close d)
    (he : ∀ sort ∈ sorts, sort.expr.Everywhere Elementary)
    (he' : ∀ sort ∈ sorts', sort.expr.Everywhere Elementary)
    (h : sorts.map (atomsOfSort close d) = sorts'.map (atomsOfSort close d)) :
    normalSorts sorts = normalSorts sorts' := by
  induction sorts generalizing sorts' with
  | nil =>
      cases sorts' with
      | nil => rfl
      | cons first' rest' => cases h
  | cons first rest ih =>
      cases sorts' with
      | nil => cases h
      | cons first' rest' =>
          obtain ⟨hfirst, hrest⟩ := List.cons.inj h
          obtain ⟨expr, direction⟩ := first
          obtain ⟨expr', direction'⟩ := first'
          -- The direction is no part of a term, so the expression ends in front of it.
          obtain ⟨hexpr, hdirection⟩ := append_eq_append_of_head
            (Expr.isTerm (he ⟨expr, direction⟩ (by simp)).here)
            (Expr.isTerm (he' ⟨expr', direction'⟩ (by simp)).here)
            (by simp [Atom.inTerm, Atom.inOperand]) (by simp [Atom.inTerm, Atom.inOperand]) hfirst
          have hnormal : expr.normal = expr'.normal :=
            htold ⟨expr, direction⟩ (by simp) expr' (he' ⟨expr', direction'⟩ (by simp)) hexpr
          have hsame : direction = direction' := by simpa using hdirection
          rw [normalSorts, normalSorts, hnormal, hsame,
            ih (fun sort hsort => htold sort (by simp [hsort]))
              (fun sort hsort => he sort (by simp [hsort]))
              (fun sort hsort => he' sort (by simp [hsort])) hrest]

theorem normalSorts_eq_of_sortPieces {sorts sorts' : List OrderTerm}
    (htold : ∀ sort ∈ sorts, sort.expr.Told close d)
    (he : ∀ sort ∈ sorts, sort.expr.Everywhere Elementary)
    (he' : ∀ sort ∈ sorts', sort.expr.Everywhere Elementary)
    (h : sortPieces close d sorts = sortPieces close d sorts') :
    normalSorts sorts = normalSorts sorts' := by
  cases sorts with
  | nil =>
      cases sorts' with
      | nil => rfl
      | cons first' rest' => cases h
  | cons first rest =>
      cases sorts' with
      | nil => cases h
      | cons first' rest' =>
          have hsorts := (List.cons.inj (Option.some.inj h)).2
          rw [atomsOfSorts_eq_map, atomsOfSorts_eq_map] at hsorts
          have hparts := map_eq_map_of_intercalate (p := Atom.isComma) rfl
            (fun sort hsort => isComma_atomsOfSort (Expr.isTerm (he sort hsort).here))
            (fun sort hsort => isComma_atomsOfSort (Expr.isTerm (he' sort hsort).here)) (by simp)
            (by simp) hsorts
          exact normalSorts_eq htold he he' hparts

/-- The first clause is seen from the pieces, and so is where it ends: a clause that is left out
leaves no word behind, and the words of the clauses that follow are other words. -/
theorem clausePieces_append_inj {word : ClauseWord} {words : List ClauseWord} (hword : word ∉ words)
    {body body' : Option (List (Atom π))} {behind behind' : List (Atom π)}
    (hbody : ∀ pieces ∈ body, ∀ atom ∈ pieces, (!atom.isClause) = true)
    (hbody' : ∀ pieces ∈ body', ∀ atom ∈ pieces, (!atom.isClause) = true)
    (hbehind : Leads words behind) (hbehind' : Leads words behind')
    (h : clausePieces word body ++ behind = clausePieces word body' ++ behind') :
    body = body' ∧ behind = behind' := by
  have hlater {pieces rest : List (Atom π)} (hpieces : Leads words pieces) :
      pieces ≠ .word (.clause word) :: rest := by
    rintro rfl
    obtain ⟨found, hfound, heq⟩ := hpieces _ rfl
    cases heq
    exact hword hfound
  cases body with
  | none =>
      cases body' with
      | none => exact ⟨rfl, h⟩
      | some pieces' => exact absurd h (hlater hbehind)
  | some pieces =>
      cases body' with
      | none => exact absurd h.symm (hlater hbehind')
      | some pieces' =>
          obtain ⟨hpieces, hrest⟩ := append_eq_append_of_head (hbody pieces rfl)
            (hbody' pieces' rfl) hbehind.isClause hbehind'.isClause (List.cons.inj h).2
          exact ⟨congrArg some hpieces, hrest⟩

theorem normalExprs_eq_of_columnPieces {columns columns' : List Expr}
    (htold : ∀ e ∈ columns, e.Told close d) (he : ∀ e ∈ columns, e.Everywhere Elementary)
    (he' : ∀ e ∈ columns', e.Everywhere Elementary)
    (h : columnPieces close d columns = columnPieces close d columns') :
    normalExprs columns = normalExprs columns' := by
  have hall {exprs : List Expr} (hexprs : ∀ e ∈ exprs, e.Everywhere Elementary) :
      [.word .all] ≠ ([.comma].intercalate (atomsOfExprs close d exprs) : List (Atom π)) := by
    intro heq
    have hmem : .word .all ∈ [.comma].intercalate (atomsOfExprs close d exprs) := by simp [← heq]
    rcases Expr.mem_intercalate_atoms (fun e hmem => Expr.isTerm (hexprs e hmem).here) hmem with
      hcomma | hterm
    · cases hcomma
    · cases hterm
  cases columns with
  | nil =>
      cases columns' with
      | nil => rfl
      | cons first' rest' => exact absurd h (hall he')
  | cons first rest =>
      cases columns' with
      | nil => exact absurd h.symm (hall he)
      | cons first' rest' =>
          simp only [columnPieces, atomsOfExprs_eq_map] at h
          exact normalExprs_eq_of_intercalate (p := Atom.isComma) rfl
            (fun _ => Atom.isComma_of_inTerm) (by simp) (by simp) htold he he' h

/-- Statements with the same atoms have the same clauses, one by one from the front. What is in a
clause does not contain the word of another clause outside of parentheses. -/
theorem normalSelect_eq {select select' : Select} (htold : ∀ e ∈ select.exprs, e.Told close d)
    (he : ∀ e ∈ select.exprs, e.Everywhere Elementary)
    (he' : ∀ e ∈ select'.exprs, e.Everywhere Elementary)
    (h : atomsOfSelect close d select = atomsOfSelect close d select') :
    normalSelect select = normalSelect select' := by
  obtain ⟨columns, table, filter, order, limit, offset⟩ := select
  obtain ⟨columns', table', filter', order', limit', offset'⟩ := select'
  simp only [Clauses.exprs, List.forall_mem_append, List.forall_mem_map] at htold he he'
  obtain ⟨⟨⟨⟨tcolumns, tfilter⟩, torder⟩, tlimit⟩, toffset⟩ := htold
  obtain ⟨⟨⟨⟨hcolumns, hfilter⟩, horder⟩, hlimit⟩, hoffset⟩ := he
  obtain ⟨⟨⟨⟨hcolumns', hfilter'⟩, horder'⟩, hlimit'⟩, hoffset'⟩ := he'
  have hterm {e : Expr} (h : e.Everywhere Elementary) : e.IsTerm close d := Expr.isTerm h.here
  have hbodies := isClause_clauses table (fun e hmem => hterm (hfilter e hmem))
    (fun sort hmem => hterm (horder sort hmem)) (fun e hmem => hterm (hlimit e hmem))
    fun e hmem => hterm (hoffset e hmem)
  have hbodies' := isClause_clauses table' (fun e hmem => hterm (hfilter' e hmem))
    (fun sort hmem => hterm (horder' sort hmem)) (fun e hmem => hterm (hlimit' e hmem))
    fun e hmem => hterm (hoffset' e hmem)
  simp only [List.forall_mem_cons] at hbodies hbodies'
  obtain ⟨btable, bfilter, border, blimit, boffset, -⟩ := hbodies
  obtain ⟨btable', bfilter', border', blimit', boffset', -⟩ := hbodies'
  -- The clauses that may stand behind each other, from the last one on.
  have hend : Leads [] ([] : List (Atom π)) := by simp [Leads]
  have hskip (offset : Option Expr) := hend.clause .offset (offset.map (Expr.atoms close d))
  have hrows (limit offset : Option Expr) :=
    (hskip offset).clause .limit (limit.map (Expr.atoms close d))
  have hsorts (order : List OrderTerm) (limit offset : Option Expr) :=
    (hrows limit offset).clause .order (sortPieces close d order)
  have hwhere (filter : Option Expr) (order : List OrderTerm) (limit offset : Option Expr) :=
    (hsorts order limit offset).clause .filter (filter.map (Expr.atoms close d))
  have hfrom (table : Option String) (filter : Option Expr) (order : List OrderTerm)
      (limit offset : Option Expr) :=
    (hwhere filter order limit offset).clause .table (table.map fun table => [.name table])
  rw [atomsOfSelect_eq, atomsOfSelect_eq] at h
  obtain ⟨ecolumns, h⟩ := append_eq_append_of_head
    (isClause_columnPieces fun e hmem => hterm (hcolumns e hmem))
    (isClause_columnPieces fun e hmem => hterm (hcolumns' e hmem))
    (hfrom table filter order limit offset).isClause
    (hfrom table' filter' order' limit' offset').isClause (List.cons.inj h).2
  obtain ⟨etable, h⟩ := clausePieces_append_inj (by decide) btable btable'
    (hwhere filter order limit offset) (hwhere filter' order' limit' offset') h
  obtain ⟨efilter, h⟩ := clausePieces_append_inj (by decide) bfilter bfilter'
    (hsorts order limit offset) (hsorts order' limit' offset') h
  obtain ⟨eorder, h⟩ := clausePieces_append_inj (by decide) border border' (hrows limit offset)
    (hrows limit' offset') h
  obtain ⟨elimit, h⟩ := clausePieces_append_inj (by decide) blimit blimit' (hskip offset)
    (hskip offset') h
  obtain ⟨eoffset, -⟩ := clausePieces_append_inj (by decide) boffset boffset' hend hend h
  have hname : Function.Injective fun table : String => [(.name table : Atom π)] :=
    fun _ _ heq => by simpa using heq
  rw [normalSelect, normalSelect,
    normalExprs_eq_of_columnPieces tcolumns hcolumns hcolumns' ecolumns,
    Option.map_injective hname etable, normalClause_eq tfilter hfilter' efilter,
    normalSorts_eq_of_sortPieces torder horder horder' eorder,
    normalClause_eq tlimit hlimit' elimit, normalClause_eq toffset hoffset' eoffset]

end Parts

section Told

variable {π : Type} {close : List (Atom π) → π} {d : Dialect}

namespace Expr

theorem normal_group_congr {op : Connective} {operands operands' : List Expr}
    (h : normalExprs operands = normalExprs operands') :
    (group op operands).normal = (group op operands').normal := by
  rcases operands with _ | ⟨first, _ | ⟨second, rest⟩⟩ <;>
    rcases operands' with _ | ⟨first', _ | ⟨second', rest'⟩⟩ <;>
    simp_all [normalExprs, normal]

/-- Groups that go on behind their first operands go on with the same connective. Groups of one do
not go on, which is why their connective cannot be seen. -/
theorem eq_or_of_flatMap_connective {op op' : Connective} {parts parts' : List (List (Atom π))}
    (h : parts.flatMap (.word (.connective op) :: ·) =
      parts'.flatMap (.word (.connective op') :: ·)) : (parts = [] ∧ parts' = []) ∨ op = op' := by
  cases parts with
  | nil =>
      cases parts' with
      | nil => exact .inl ⟨rfl, rfl⟩
      | cons part' rest' => simp at h
  | cons part rest =>
      cases parts' with
      | nil => simp at h
      | cons part' rest' =>
          simp only [List.flatMap_cons, List.cons_append] at h
          exact .inr (by simpa using (List.cons.inj h).1)

/-- Only expressions of the same form, which hold the same in their parentheses, can have the same
atoms. -/
theorem told_of (hclose : Function.Injective close) {e : Expr} (he : e.Everywhere Elementary)
    (h : ∀ e' : Expr, e'.Everywhere Elementary → e.form = e'.form →
      e.held close d = e'.held close d → e.atoms close d = e'.atoms close d →
        e.normal = e'.normal) : e.Told close d :=
  fun e' he' heq => h e' he' (form_eq_of_atoms hclose he he' heq)
    (held_eq_of_atoms hclose he he' heq) heq

/-- A group is told from any other expression when its operands are. A group of one operand is told
as that operand, in the parentheses of the group. -/
theorem told_group (hclose : Function.Injective close) (op : Connective) {operands : List Expr}
    (h : ∀ e ∈ operands, e.Everywhere Elementary) (htold : ∀ e ∈ operands, e.Told close d) :
    (group op operands).Told close d := by
  have hgroup : (group op operands).Everywhere Elementary := .intro trivial h
  refine told_of hclose hgroup fun e' he' hform hheld heq => ?_
  cases e' with
  | group op' operands' =>
      cases operands with
      | nil =>
          cases operands' with
          | nil =>
              have hop : op = op' := by simpa [atoms] using heq
              rw [hop]
          | cons first' rest' => cases hheld
      | cons first rest =>
          cases operands' with
          | nil => cases hheld
          | cons first' rest' =>
              obtain ⟨hfirst, hrest⟩ := Prod.ext_iff.mp (Option.some.inj hheld)
              rcases eq_or_of_flatMap_connective hrest with ⟨hnil, hnil'⟩ | rfl
              · -- A group of one says nothing of its connective.
                obtain rfl := List.map_eq_nil_iff.mp hnil
                obtain rfl := List.map_eq_nil_iff.mp hnil'
                rw [normal, normal]
                exact htold first (by simp) first' (he'.inside first' (by simp [children])) hfirst
              · have hseparator : Atom.isConnective op (.word (.connective op) : Atom π) := by
                  simp [Atom.isConnective]
                refine normal_group_congr (normalExprs_eq_of_intercalate hseparator
                  (fun _ hterm => Atom.isConnective_of_inTerm hterm op) (by simp) (by simp) htold h
                  he'.inside ?_)
                rw [List.map_cons, List.map_cons, intercalate_cons_eq, intercalate_cons_eq]
                exact congrArg₂ _ hfirst hrest
  | _ => cases hform

/-- A list of values is no statement, so a list to test against is never mistaken for a subquery: a
statement begins with its first word, and no value is one. -/
theorem intercalate_values_ne (values : List Json) (select : Select) :
    [.comma].intercalate (values.map fun value => [.value (some value)]) ≠
      atomsOfSelect close d select := by
  obtain ⟨rest, hrest⟩ := atomsOfSelect_eq_cons close d select
  rw [hrest]
  rcases values with _ | ⟨first, _ | ⟨second, others⟩⟩ <;> simp

/-- An expression is seen from its atoms, up to groups of one. The induction is on the expression,
and for each form the expressions of that form which hold the same are compared. -/
theorem told (hclose : Function.Injective close) {e : Expr} (h : e.Everywhere Elementary) :
    e.Told close d := by
  induction e with
  | column qualifier name =>
      refine told_of hclose h fun e' he' hform _ heq => ?_
      cases e' with
      | column qualifier' name' =>
          cases qualifier <;> cases qualifier' <;> simp_all [atoms]
      | _ => cases hform
  | value value =>
      refine told_of hclose h fun e' he' hform _ heq => ?_
      cases e' with
      | value value' =>
          have hvalue : value = value' := by simpa [atoms] using heq
          rw [hvalue]
      | _ => cases hform
  | compare left op right hleft hright =>
      have hleft := hleft (h.inside left (by simp [children]))
      have hright := hright (h.inside right (by simp [children]))
      refine told_of hclose h fun e' he' hform hheld _ => ?_
      cases e' with
      | compare left' op' right' =>
          obtain ⟨hl, hop, hr⟩ : _ ∧ op = op' ∧ _ := by simpa [held] using hheld
          rw [normal, normal, hop, hleft left' (he'.inside left' (by simp [children])) hl,
            hright right' (he'.inside right' (by simp [children])) hr]
      | _ => cases hform
  | group op operands ih =>
      exact told_group hclose op h.inside fun e he => ih e he (h.inside e he)
  | not operand ih =>
      have hoperand := h.inside operand (by simp [children])
      have hnegand : operand.negand.Told close d := by
        unfold negand
        split
        · exact ih hoperand
        · exact told_group hclose .and (by simpa using hoperand) (by simpa using ih hoperand)
      refine told_of hclose h fun e' he' hform _ heq => ?_
      cases e' with
      | not operand' =>
          rw [atoms_not, atoms_not] at heq
          have hoperand' := he'.inside operand' (by simp [children])
          have hnormal := hnegand operand'.negand (everywhere_negand hoperand')
            (List.cons.inj heq).2
          rw [normal_negand, normal_negand] at hnormal
          rw [normal, normal, hnormal]
      | _ => cases hform
  | inList operand values ih =>
      have hoperand := ih (h.inside operand (by simp [children]))
      refine told_of hclose h fun e' he' hform hheld _ => ?_
      cases e' with
      | inList operand' values' =>
          obtain ⟨hfront, hvalues⟩ := Prod.ext_iff.mp (Option.some.inj hheld)
          have hsame : values = values' := values_eq_of_intercalate
            (by simpa [hclose.eq_iff] using hvalues)
          rw [normal, normal, hsame,
            hoperand operand' (he'.inside operand' (by simp [children])) hfront]
      | inSelect operand' select' =>
          have hvalues := (Prod.ext_iff.mp (Option.some.inj hheld)).2
          exact absurd (by simpa [hclose.eq_iff] using hvalues)
            (intercalate_values_ne values select')
      | _ => cases hform
  | inSelect operand select ih hselect =>
      have hoperand := ih (h.inside operand (by simp [children]))
      refine told_of hclose h fun e' he' hform hheld _ => ?_
      cases e' with
      | inSelect operand' select' =>
          obtain ⟨hfront, hrows⟩ := Prod.ext_iff.mp (Option.some.inj hheld)
          have hsame : normalSelect select = normalSelect select' := normalSelect_eq
            (fun e he => hselect e he (h.inside e (by simp [children, he])))
            (fun e he => h.inside e (by simp [children, he]))
            (fun e he => he'.inside e (by simp [children, he]))
            (by simpa [hclose.eq_iff] using hrows)
          rw [normal, normal, hsame,
            hoperand operand' (he'.inside operand' (by simp [children])) hfront]
      | inList operand' values' =>
          have hrows := (Prod.ext_iff.mp (Option.some.inj hheld)).2
          exact absurd (by simpa [hclose.eq_iff] using hrows.symm)
            (intercalate_values_ne values' select)
      | _ => cases hform
  | subquery select ih =>
      refine told_of hclose h fun e' he' hform hheld _ => ?_
      cases e' with
      | subquery select' =>
          have hrows := (Prod.ext_iff.mp (Option.some.inj hheld)).2
          rw [normal, normal, normalSelect_eq (fun e he => ih e he (h.inside e he)) h.inside
            he'.inside hrows]
      | _ => cases hform
  | contains target value ih =>
      have htarget := ih (h.inside target (by simp [children]))
      refine told_of hclose h fun e' he' hform hheld heq => ?_
      cases e' with
      | contains target' value' =>
          obtain ⟨hfront, hvalue⟩ :
              target.atoms close d = target'.atoms close d ∧ value = value' := by
            cases d with
            | postgres => simpa [held] using hheld
            | mysql =>
                have hinside : target.atoms close .mysql ++ [.comma, .value (some value)] =
                    target'.atoms close .mysql ++ [.comma, .value (some value')] := by
                  simpa [atoms, hclose.eq_iff] using heq
                simpa using List.append_inj' hinside rfl
          rw [normal, normal, hvalue,
            htarget target' (he'.inside target' (by simp [children])) hfront]
      | _ => cases hform
  | call name args ih => exact h.here.elim
  | wildcard => exact h.here.elim

end Expr

end Told

/-- What parentheses hold, closed without being read. -/
inductive Enclosed where
  | of (atoms : List (Atom Enclosed))

theorem Enclosed.of_injective : Function.Injective Enclosed.of :=
  fun _ _ h => Enclosed.of.inj h

/-- Expressions that are rendered alike are the same up to groups of one: their lexemes are the
same, and from the lexemes the atoms are read back. -/
theorem Expr.normal_eq_of_render (d : Dialect) {e e' : Expr} (he : e.Everywhere Elementary)
    (he' : e'.Everywhere Elementary) (h : e.render d = e'.render d) : e.normal = e'.normal := by
  have hatoms : (e.render d).atoms? Enclosed.of d = (e'.render d).atoms? Enclosed.of d := by rw [h]
  rw [atoms?_render d he, atoms?_render d he'] at hatoms
  exact told Enclosed.of_injective he e' he' (Option.some.inj hatoms)

/-- Rendering is unambiguous: expressions with the same text and the same parameters differ in
groups of one operand at most, whatever their names, and so do statements. -/
theorem render_unambiguous (d : Dialect) :
    (∀ e e' : Expr, e.Everywhere Elementary → e'.Everywhere Elementary →
      e.render d = e'.render d → e.normal = e'.normal) ∧
    ∀ select select' : Select, (∀ e ∈ select.exprs, e.Everywhere Elementary) →
      (∀ e ∈ select'.exprs, e.Everywhere Elementary) → select.render d = select'.render d →
      normalSelect select = normalSelect select' := by
  refine ⟨fun e e' => Expr.normal_eq_of_render d, fun select select' he he' h => ?_⟩
  have hrender : (Expr.subquery select).render d = (Expr.subquery select').render d := by
    rw [Expr.render_subquery, Expr.render_subquery, h]
  have hsubquery : (Expr.subquery select).Everywhere Elementary := .intro trivial he
  have hsubquery' : (Expr.subquery select').Everywhere Elementary := .intro trivial he'
  have hnormal := Expr.normal_eq_of_render d hsubquery hsubquery' hrender
  rw [Expr.normal, Expr.normal] at hnormal
  exact Expr.subquery.inj hnormal

/-- Names that hold quotes, operators and placeholders. -/
def confusing : Expr :=
  .column (some "a\" = \"b") "` IN (?, $1) AND NOT"

/-- A statement with a condition as its column and in its subquery. -/
def confusingSelect (condition : Expr) : Select where
  columns := [condition]
  table := some "t` LIMIT ?"
  filter := some (.inSelect confusing
    { columns := [.not condition], order := [⟨confusing, .desc⟩] })
  limit := some (.value (.str "$1"))

/-- The groups of one that differ here cannot be seen from the statements, whether a condition is
negated by itself or as a group, and whichever connective the group has. -/
theorem render_unambiguous_confusing :
    let negated := Expr.not confusing
    let grouped := Expr.not (.group .or [confusing])
    let one := confusingSelect (.group .and [confusing])
    let other := confusingSelect (.group .or [confusing])
    ((negated.Everywhere Elementary ∧ grouped.Everywhere Elementary ∧
      negated.render .postgres = grouped.render .postgres) ∧ negated.normal = grouped.normal) ∧
    ((∀ e ∈ one.exprs, e.Everywhere Elementary) ∧ (∀ e ∈ other.exprs, e.Everywhere Elementary) ∧
      one.render .mysql = other.render .mysql) ∧ normalSelect one = normalSelect other := by
  intro negated grouped one other
  have hname : confusing.Everywhere Elementary :=
    .intro trivial (by simp [confusing, Expr.children])
  have hgroup (op : Connective) : (Expr.group op [confusing]).Everywhere Elementary :=
    .intro trivial (by simpa [Expr.children] using hname)
  have hnot {e : Expr} (h : e.Everywhere Elementary) : (Expr.not e).Everywhere Elementary :=
    .intro trivial (by simpa [Expr.children] using h)
  have hselect {condition : Expr} (h : condition.Everywhere Elementary) :
      ∀ e ∈ (confusingSelect condition).exprs, e.Everywhere Elementary := by
    have hvalue : (Expr.value (.str "$1")).Everywhere Elementary :=
      .intro trivial (by simp [Expr.children])
    have hamong : (Expr.inSelect confusing
        { columns := [.not condition], order := [⟨confusing, .desc⟩] }).Everywhere Elementary :=
      .intro trivial (by simp [Expr.children, Clauses.exprs, hname, hnot h])
    simp [confusingSelect, Clauses.exprs, h, hamong, hvalue]
  have hrender : negated.render .postgres = grouped.render .postgres := by
    rw [Expr.render_eq, Expr.render_eq]
    rfl
  have hrenderSelect : one.render .mysql = other.render .mysql := by
    rw [Clauses.render_eq, Clauses.render_eq]
    rfl
  exact ⟨⟨⟨hnot hname, hnot (hgroup .or), hrender⟩,
      (render_unambiguous .postgres).1 negated grouped (hnot hname) (hnot (hgroup .or)) hrender⟩,
    ⟨hselect (hgroup .and), hselect (hgroup .or), hrenderSelect⟩,
    (render_unambiguous .mysql).2 one other (hselect (hgroup .and)) (hselect (hgroup .or))
      hrenderSelect⟩

end Criteria.Sql
