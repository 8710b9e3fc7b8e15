import Criteria.Proofs.Sql.Renumbering

/-!
A statement that is being written is only added to. Whatever text and parameters it has, a tree is
written behind them as it is from scratch, its placeholders counted on from the parameters in front;
written aside, it binds the same parameters and its text is handed back. So in a run of any steps
nothing that was written or bound is changed later, and each placeholder that a step makes bears the
place at which its own value stays bound.
-/

namespace Criteria.Sql

open Fragment (Legible textFrom binds)

/-- A tree that can be written by itself. -/
inductive Node where
  | expr (expr : Expr)
  | select (select : Select)
  | sort (sort : OrderTerm)

namespace Node

/-- The expressions of a tree that lie in no other expression. -/
def exprs : Node → List Expr
  | .expr e => [e]
  | .select q => q.exprs
  | .sort t => [t.expr]

def write (d : Dialect) (s : Statement) : Node → Statement
  | .expr e => e.write d s
  | .select q => q.write d s
  | .sort t => t.write d s

def render (d : Dialect) (node : Node) : Statement :=
  node.write d .empty

/-- The names of the tree's functions are read as themselves. -/
def QuietCalls (d : Dialect) (node : Node) : Prop :=
  ∀ e ∈ node.exprs, e.Everywhere (Expr.QuietCall d)

def fragments (d : Dialect) : Node → List Fragment
  | .expr e => e.fragments d
  | .select q => fragmentsOfSelect d q
  | .sort t => fragmentsOfSort d t

/-- Every node is written by writing its fragments, one after the other, behind what the statement
already holds. -/
theorem write_eq (d : Dialect) (s : Statement) (node : Node) :
    node.write d s = s.write d (node.fragments d) := by
  cases node with
  | expr e => exact e.writtenAs d s
  | select q => exact writeSelect_eq (fun e _ => e.writtenAs d) s
  | sort t => exact writeSort_eq (t.expr.writtenAs d) s

theorem render_eq (d : Dialect) (node : Node) :
    node.render d = .ofFragments d (node.fragments d) :=
  node.write_eq d .empty

theorem params_render (d : Dialect) (node : Node) :
    (node.render d).params = binds (node.fragments d) := by
  rw [render_eq, Statement.params_ofFragments]

/-- A sort by itself writes its expression and behind it the direction, and binds what the
expression does. -/
theorem render_sort (d : Dialect) (sort : OrderTerm) :
    (Node.sort sort).render d =
      ⟨(sort.expr.render d).sql ++ " " ++ directionText sort.direction,
        (sort.expr.render d).params⟩ := by
  have hfragments : (Node.sort sort).fragments d =
      sort.expr.fragments d ++ [.text (" " ++ directionText sort.direction)] := by
    rw [fragments, fragmentsOfSort]
  rw [render_eq, Expr.render_eq, hfragments, Statement.ofFragments_eq, Statement.ofFragments_eq]
  simp [Fragment.textFrom_append, Fragment.binds_append, String.append_assoc]

/-- A tree appends the text of its fragments, and the parameters that it has by itself. The state
only enters through the number of parameters in front. -/
theorem write_eq_append (d : Dialect) (s : Statement) (node : Node) :
    node.write d s =
      ⟨s.sql ++ textFrom d s.params.length (node.fragments d),
        s.params ++ (node.render d).params⟩ := by
  rw [params_render, write_eq]
  rfl

/-- Written aside, it only binds these parameters: the text is handed back and the text of the
statement stays what it was. -/
theorem aside_write (d : Dialect) (s : Statement) (node : Node) :
    s.aside (fun s => node.write d s) =
      (textFrom d s.params.length (node.fragments d),
        ⟨s.sql, s.params ++ (node.render d).params⟩) := by
  rw [params_render]
  exact s.aside_eq_detach d _ _ fun s => node.write_eq d s

theorem legible_fragments {d : Dialect} {node : Node} (h : node.QuietCalls d) :
    Legible d (node.fragments d) := by
  have hexprs : ∀ e ∈ node.exprs, Legible d (e.fragments d) :=
    fun e he => Expr.legible_fragments (h e he)
  cases node with
  | expr e => exact hexprs e (.head _)
  | select q => exact legible_fragmentsOfSelect hexprs
  | sort t =>
      -- A sort by itself is the only one of a list.
      have hsort : ∀ part ∈ fragmentsOfSorts d [t], Legible d part :=
        legible_fragmentsOfSorts (by simpa [exprs] using hexprs)
      exact hsort (fragmentsOfSort d t) (.head _)

/-- Behind other parameters a tree has the text that it has by itself, counted on by as many as
there are. Quoted names are skipped when it is counted. -/
theorem countOn?_render {d : Dialect} {node : Node} (h : node.QuietCalls d) (count : Nat) :
    d.countOn? count (node.render d).sql = some (textFrom d count (node.fragments d)) := by
  rw [render_eq, Statement.countOn?_ofFragments (legible_fragments h)]

/-- In the dialect whose placeholders are not numbered, nothing has to be counted on, and the text
is the one from scratch. -/
theorem textFrom_mysql {node : Node} (h : node.QuietCalls .mysql) (count : Nat) :
    textFrom .mysql count (node.fragments .mysql) = (node.render .mysql).sql := by
  have hsame := Statement.countOn?_ofFragments_mysql (legible_fragments h) count
  rw [← render_eq, countOn?_render h] at hsame
  exact Option.some.inj hsame

end Node

/-- What can be done with a statement that is being written. -/
inductive Step where
  /-- Appends a text as it is. -/
  | push (text : String)
  /-- Binds a value and writes its placeholder. -/
  | bind (value : Json)
  /-- Binds a value and hands its placeholder back. -/
  | reserve (value : Json)
  | write (node : Node)
  /-- Writes a tree beside the statement and hands its text back. -/
  | aside (node : Node)

namespace Step

/-- What a step hands back, and the statement behind it. -/
def take (d : Dialect) (s : Statement) : Step → Option String × Statement
  | .push text => (none, s.push text)
  | .bind value => (none, s.bind d value)
  | .reserve value =>
    let (mark, s) := s.reserve d value
    (some mark, s)
  | .write node => (none, node.write d s)
  | .aside node =>
    let (text, s) := s.aside fun s => node.write d s
    (some text, s)

/-- The text that the step makes is handed back and not written. -/
def isBeside : Step → Bool
  | .reserve _ | .aside _ => true
  | .push _ | .bind _ | .write _ => false

def QuietCalls (d : Dialect) : Step → Prop
  | .write node | .aside node => node.QuietCalls d
  | .push _ | .bind _ | .reserve _ => True

/-- The values that a step binds. -/
def values (d : Dialect) : Step → List Json
  | .push _ => []
  | .bind value | .reserve value => [value]
  | .write node | .aside node => (node.render d).params

/-- The step makes the text behind `bound` parameters, whatever else is written there. -/
def Makes (d : Dialect) (bound : Nat) (text : String) : Step → Prop
  | .push pushed => text = pushed
  | .bind _ | .reserve _ => text = d.placeholder bound
  | .write node | .aside node => d.countOn? bound (node.render d).sql = some text

/-- What a step comes to that makes a text and binds values: both are added, or the text is handed
back. -/
def outcome (step : Step) (s : Statement) (text : String) (values : List Json) :
    Option String × Statement :=
  if step.isBeside then (some text, ⟨s.sql, s.params ++ values⟩)
  else (none, ⟨s.sql ++ text, s.params ++ values⟩)

def fragments (d : Dialect) : Step → List Fragment
  | .push text => [.text text]
  | .bind value | .reserve value => [.bind value]
  | .write node | .aside node => node.fragments d

variable {d : Dialect}

theorem values_eq (d : Dialect) (step : Step) : step.values d = binds (step.fragments d) := by
  cases step with
  | push text => rfl
  | bind value => rfl
  | reserve value => rfl
  | write node => exact node.params_render d
  | aside node => exact node.params_render d

/-- A step adds the text of its fragments and its values, and nothing else. All that is said of a
step is derived from this equation, with no case split over the steps. -/
theorem take_eq (d : Dialect) (s : Statement) (step : Step) :
    step.take d s =
      step.outcome s (textFrom d s.params.length (step.fragments d)) (step.values d) := by
  cases step with
  | push text => simp [take, outcome, isBeside, fragments, values, Statement.push]
  | bind value =>
      rw [take, s.bind_eq_write d value]
      rfl
  | reserve value => simp [take, outcome, isBeside, fragments, values, Statement.reserve]
  | write node =>
      rw [take, node.write_eq_append d s]
      rfl
  | aside node =>
      rw [take, node.aside_write d s]
      rfl

theorem makes {step : Step} (h : step.QuietCalls d) (bound : Nat) :
    step.Makes d bound (textFrom d bound (step.fragments d)) := by
  cases step with
  | push text => simp [Makes, fragments]
  | bind value => simp [Makes, fragments]
  | reserve value => simp [Makes, fragments]
  | write node => exact Node.countOn?_render h bound
  | aside node => exact Node.countOn?_render h bound

theorem legible_fragments {step : Step} (h : step.QuietCalls d)
    (hpush : ∀ text, step ≠ .push text) : Legible d (step.fragments d) := by
  cases step with
  | push text => exact absurd rfl (hpush text)
  | bind value => exact ⟨trivial, trivial⟩
  | reserve value => exact ⟨trivial, trivial⟩
  | write node => exact Node.legible_fragments h
  | aside node => exact Node.legible_fragments h

end Step

namespace Statement

/-- The statement behind a run of steps. -/
def after (d : Dialect) (s : Statement) (steps : List Step) : Statement :=
  steps.foldl (fun s step => (step.take d s).2) s

/-- The text and the parameters stand at the beginning of a later statement's. -/
structure Begins (s later : Statement) : Prop where
  sql : s.sql.toList <+: later.sql.toList
  params : s.params <+: later.params

theorem Begins.refl (s : Statement) : s.Begins s :=
  ⟨List.prefix_refl _, List.prefix_refl _⟩

theorem Begins.trans {s t u : Statement} (hst : s.Begins t) (htu : t.Begins u) : s.Begins u :=
  ⟨hst.sql.trans htu.sql, hst.params.trans htu.params⟩

/-- The placeholders of a text are those of the given values, one for each and in their order, and
the statement has these values bound behind `bound` others. -/
structure Numbers (d : Dialect) (s : Statement) (bound : Nat) (values : List Json)
    (text : String) : Prop where
  placeholders : d.placeholders text = some ((List.range' bound values.length).map d.placeholder)
  params : ∀ i < values.length, s.params[bound + i]? = values[i]?

variable {d : Dialect}

/-- What a statement holds before a step, it holds after it, in front of what the step has added. -/
theorem begins_take (d : Dialect) (s : Statement) (step : Step) : s.Begins (step.take d s).2 := by
  rw [Step.take_eq, Step.outcome]
  split
  · exact ⟨List.prefix_refl _, List.prefix_append _ _⟩
  · exact ⟨by simp, List.prefix_append _ _⟩

/-- What every step keeps, a run of steps keeps, by induction on the run. -/
theorem begins_after (d : Dialect) (s : Statement) (steps : List Step) :
    s.Begins (s.after d steps) := by
  induction steps generalizing s with
  | nil => exact .refl s
  | cons step rest ih => exact (begins_take d s step).trans (ih (step.take d s).2)

theorem after_append_cons (d : Dialect) (s : Statement) (front back : List Step) (step : Step) :
    s.after d (front ++ step :: back) = (step.take d (s.after d front)).2.after d back := by
  rw [after, List.foldl_append, List.foldl_cons]
  rfl

theorem params_take (d : Dialect) (s : Statement) (step : Step) :
    (step.take d s).2.params = s.params ++ step.values d := by
  rw [Step.take_eq, Step.outcome]
  split <;> rfl

/-- The values of a step stay where they were bound: whatever is added later, the placeholders in
the text of the step are still those of its own values. -/
theorem numbers_of_begins {s later : Statement} {step : Step} (hcalls : step.QuietCalls d)
    (hpush : ∀ text, step ≠ .push text) (hlater : (step.take d s).2.Begins later) :
    later.Numbers d s.params.length (step.values d)
      (textFrom d s.params.length (step.fragments d)) where
  placeholders := by
    rw [Fragment.placeholders_textFrom (Step.legible_fragments hcalls hpush), Step.values_eq]
  -- The step's values stand behind those in front of it, and only more of them follow.
  params i hi := by
    obtain ⟨others, hothers⟩ := hlater.params
    rw [← hothers, params_take, List.append_assoc, List.getElem?_append_right (by omega),
      Nat.add_sub_cancel_left, List.getElem?_append_left hi]

end Statement

/-- Whatever a statement holds, a tree is written behind it as from scratch, its placeholders
counted on by the parameters in front, and written aside it binds the same and hands the same text
back. In any run of steps each statement begins those behind it, and the placeholders that a step
makes are numbered by where its values stand, up to the end of the run. A sort from scratch is its
expression and its direction, and a subquery the statement in it between parentheses. -/
theorem writing_only_appends (d : Dialect) :
    (∀ (node : Node) (s : Statement), node.QuietCalls d →
      ∃ text, d.countOn? s.params.length (node.render d).sql = some text ∧
        (d = .mysql → text = (node.render d).sql) ∧
        node.write d s = ⟨s.sql ++ text, s.params ++ (node.render d).params⟩ ∧
        s.aside (fun s => node.write d s) = (text, ⟨s.sql, s.params ++ (node.render d).params⟩)) ∧
    (∀ (s : Statement) (front : List Step) (step : Step) (back : List Step),
      let before := s.after d front
      let behind := (step.take d before).2
      let last := s.after d (front ++ step :: back)
      s.Begins before ∧ before.Begins behind ∧ behind.Begins last ∧
        (step.QuietCalls d →
          ∃ text, step.Makes d before.params.length text ∧
            step.take d before = step.outcome before text (step.values d) ∧
            ((∀ pushed, step ≠ .push pushed) →
              last.Numbers d before.params.length (step.values d) text))) ∧
    (∀ sort : OrderTerm, (Node.sort sort).render d =
      ⟨(sort.expr.render d).sql ++ " " ++ directionText sort.direction,
        (sort.expr.render d).params⟩) ∧
    ∀ select : Select, (Expr.subquery select).render d =
      ⟨"(" ++ ((Node.select select).render d).sql ++ ")",
        ((Node.select select).render d).params⟩ := by
  refine ⟨fun node s hcalls => ?_, fun s front step back => ?_, Node.render_sort d,
    Expr.render_subquery d⟩
  · refine ⟨_, Node.countOn?_render hcalls s.params.length, ?_, node.write_eq_append d s,
      node.aside_write d s⟩
    rintro rfl
    exact Node.textFrom_mysql hcalls s.params.length
  · intro before behind last
    have hlast : behind.Begins last := by
      have hrun : last = behind.after d back := s.after_append_cons d front back step
      rw [hrun]
      exact behind.begins_after d back
    refine ⟨s.begins_after d front, before.begins_take d step, hlast, fun hcalls => ?_⟩
    exact ⟨_, step.makes hcalls before.params.length, step.take_eq d before,
      fun hpush => Statement.numbers_of_begins hcalls hpush hlast⟩

/-- A statement that was begun with a text and with parameters of its own. -/
def begunStatement : Statement :=
  ⟨"? \"$7", [.bool true, .null]⟩

/-- The text of `hostileSelect` with the placeholders of its three values. -/
def hostileRows (first second third : String) : String :=
  "SELECT \"$1\".\"a\"\"?\" FROM \"\x60$2\" WHERE (LOWER(" ++ first ++ ") @> " ++ second
    ++ ") LIMIT " ++ third

/-- The text of `hostileCondition` with the placeholders of its four values. -/
def hostileText (first second third fourth : String) : String :=
  "(COALESCE(\"?\", " ++ first ++ ") IN (" ++ hostileRows second third fourth ++ "))"

/-- The condition, the statement in it and a sort by the condition are each written behind what is
there, with their placeholders counted on. -/
theorem writing_only_appends_begun :
    let node := Node.expr hostileCondition
    let rows := Node.select hostileSelect
    let sort := Node.sort ⟨hostileCondition, .desc⟩
    let values := [Json.str "$9", .str "x", .str "?", .null]
    let before := begunStatement.after .postgres [.reserve (.num (.int 5)), .push "$1 ?"]
    let last := begunStatement.after .postgres
      [.reserve (.num (.int 5)), .push "$1 ?", .aside node, .bind (.str "$1"), .write rows,
        .write sort]
    node.QuietCalls .postgres ∧
      node.write .postgres begunStatement =
        ⟨begunStatement.sql ++ hostileText "$3" "$4" "$5" "$6", begunStatement.params ++ values⟩ ∧
      rows.write .postgres begunStatement =
        ⟨begunStatement.sql ++ hostileRows "$3" "$4" "$5",
          begunStatement.params ++ values.drop 1⟩ ∧
      sort.write .postgres begunStatement =
        ⟨begunStatement.sql ++ (hostileText "$3" "$4" "$5" "$6" ++ " DESC"),
          begunStatement.params ++ values⟩ ∧
      begunStatement.Begins before ∧ before.Begins last ∧
      (Step.aside node).take .postgres before =
        (some (hostileText "$4" "$5" "$6" "$7"), ⟨before.sql, before.params ++ values⟩) ∧
      last.Numbers .postgres 3 values (hostileText "$4" "$5" "$6" "$7") := by
  intro node rows sort values before last
  have hcalls : node.QuietCalls .postgres := by
    simpa [node, Node.QuietCalls, Node.exprs] using everywhere_hostileCondition .postgres
  have hrowCalls : rows.QuietCalls .postgres :=
    fun e he => (everywhere_hostileCondition .postgres).inside e (.tail _ he)
  have hvalues : (node.render .postgres).params = values := hostileCondition.params_render .postgres
  have hrowValues : (rows.render .postgres).params = values.drop 1 :=
    hostileSelect.params_render .postgres
  have htexts :
      Dialect.postgres.countOn? 2 (node.render .postgres).sql =
          some (hostileText "$3" "$4" "$5" "$6") ∧
        Dialect.postgres.countOn? 3 (node.render .postgres).sql =
          some (hostileText "$4" "$5" "$6" "$7") ∧
        Dialect.postgres.countOn? 2 (rows.render .postgres).sql =
          some (hostileRows "$3" "$4" "$5") ∧
        Dialect.postgres.countOn? 2 (sort.render .postgres).sql =
          some (hostileText "$3" "$4" "$5" "$6" ++ " DESC") := by
    decide +kernel
  obtain ⟨htext, hmade, hrowText, hsortText⟩ := htexts
  obtain ⟨halone, hrun, hsort, -⟩ := writing_only_appends .postgres
  have hsortValues : (sort.render .postgres).params = values := by
    rw [hsort]
    exact hvalues
  obtain ⟨written, hwritten, -, hwrite, -⟩ := halone node begunStatement hcalls
  obtain ⟨writtenRows, hwrittenRows, -, hwriteRows, -⟩ := halone rows begunStatement hrowCalls
  obtain ⟨writtenSort, hwrittenSort, -, hwriteSort, -⟩ := halone sort begunStatement hcalls
  obtain ⟨hfront, hstep, hback, hmakes⟩ := hrun begunStatement
    [.reserve (.num (.int 5)), .push "$1 ?"] (.aside node)
    [.bind (.str "$1"), .write rows, .write sort]
  obtain ⟨made, hmakes, htake, hnumbers⟩ := hmakes hcalls
  obtain rfl := Option.some.inj (hwritten.symm.trans htext)
  obtain rfl := Option.some.inj (hwrittenRows.symm.trans hrowText)
  obtain rfl := Option.some.inj (hwrittenSort.symm.trans hsortText)
  obtain rfl := Option.some.inj (hmakes.symm.trans hmade)
  rw [hvalues] at hwrite
  rw [hrowValues] at hwriteRows
  rw [hsortValues] at hwriteSort
  have hlast := hnumbers nofun
  rw [Step.values, hvalues] at htake hlast
  exact ⟨hcalls, hwrite, hwriteRows, hwriteSort, hfront, hstep.trans hback, htake, hlast⟩

end Criteria.Sql
