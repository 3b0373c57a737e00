import Interlace.Proofs.OrderedExpressions
import Interlace.Proofs.StatementKinds

/-!
# Statements in source order

Statements, declarations and the items of a file are read in order, given that the recursive rules
are.

## Key results

- `Rules.simpleRest_lays`: a simple statement grows from the expressions it starts with
- `Rules.statementRule_lays`: statements are read in order
- `Rules.fileItems_lays`: the items of a file are read in order
-/

namespace Interlace.Syntax

open Reading HasTrees

variable {text : Text}

private theorem quiet_endsHere (clause : Bool) : Quiet (endsHere clause) := by
  refine (quiet_ahead false).bind fun ahead => ?_
  split
  · exact quiet_pure _
  · split
    · exact quiet_pure _
    · exact (quiet_aheadWord false).bind fun w => quiet_pure _

private theorem quiet_listEnds (clause : Bool) : Quiet (listEnds clause) := by
  refine (quiet_ahead true).bind fun ahead => ?_
  split
  · exact quiet_pure _
  · exact quiet_pure _
  · exact (quiet_aheadWord true).bind fun w => quiet_pure _

private theorem label_lays : Lays text [] label := by
  refine .bind (as_lays (word_lays true .labelName _ rfl) .label) fun name => ?_
  refine .look (quiet_sees false ":=") fun defined => .ite .fail ?_
  exact .bind (symbol_lays false ":" rfl) fun colon => .give (by simp)

private theorem label_ne_nil {s s' : Scan} {ts : List Tree} (read : label s = some (ts, s')) :
    ts ≠ [] := by
  obtain ⟨name, s₁, -, read⟩ := bind_eq_some.1 read
  obtain ⟨defined, s₂, -, read⟩ := bind_eq_some.1 read
  split at read
  · cases read
  · obtain ⟨colon, s₃, -, read⟩ := bind_eq_some.1 read
    obtain ⟨rfl, -⟩ := pure_eq_some.1 read
    exact List.cons_ne_nil _ _

namespace Rules

/-- Expressions are read as a list of them. -/
private theorem kind_of_expressions {rules : Rules} {follow : Follow} {s s' : Scan} {t : Tree}
    (read : rules.expressions follow s = some (t, s')) : t.kind = .expressionList := by
  obtain ⟨items, s₁, -, read⟩ := bind_eq_some.1 read
  cases read
  rfl

/-- The only one of several expressions lies where they do. -/
private theorem single_laid {left single : Tree} (list : left.kind = .expressionList)
    (only : left.children = [single]) {page : Page} (lo hi : Nat)
    (laid : Laid page true lo [left] hi) : Laid page true lo [single] hi :=
  laid.single (by rw [list]; rfl) only

variable {rules : Rules} (h : rules.Ordered text)

include h

/-! ## Simple statements -/

theorem simpleRest_lays (head value : Follow) {left : Tree} (list : left.kind = .expressionList) :
    Lays text [left] (rules.simpleRest head value left) := by
  have right := as_lays (expressions_lays h value) .right
  refine .look (quiet_ahead _) fun ahead => .ite ?_ ?_
  · refine .bind (symbol_lays _ ":=" rfl) fun operator => ?_
    exact .bind right fun right => .node (by simp) (by simp) rfl
  split
  · rename_i spelling found
    refine .bind (as_lays (symbol_lays _ spelling (isEmpty_assignmentOperator found)) .operator)
      fun operator => ?_
    exact .bind right fun right => .node (by simp) (by simp) rfl
  split
  · -- What is sent, counted up or down is a single expression, taken out of its list.
    rename_i single only
    refine .changeAll (single_laid list only) ?_
    refine .ite (.bind (symbol_lays _ "++" rfl) fun sign => .node (by simp) (by simp) rfl) ?_
    refine .ite (.bind (symbol_lays _ "--" rfl) fun sign => .node (by simp) (by simp) rfl) ?_
    refine .ite (.bind (symbol_lays _ "<-" rfl) fun arrow => ?_) (.node (by simp) (by simp) rfl)
    exact .bind (as_lays (h _) .value) fun sent => .node (by simp) (by simp) rfl
  · exact .fail

private theorem simple_lays (head value : Follow) : Lays text [] (rules.simple head value) :=
  .bindOf (expressions_lays h head) (fun _ _ _ => kind_of_expressions) fun _ list =>
    simpleRest_lays h head value list

/-! ## Lists of statements -/

omit h in
private theorem danglingLabel_lays (clause : Bool) : Lays text [] (danglingLabel clause) := by
  refine .bindOf label_lays (fun _ _ _ => label_ne_nil) fun parts given => ?_
  exact .look (quiet_listEnds clause) fun ends => .ite (.node (by simp) given rfl) .fail

private theorem statementsUpTo_lays (clause : Bool) (fuel : Nat) :
    Lays text [] (rules.statementsUpTo clause fuel) := by
  induction fuel with
  | zero => exact .give rfl
  | succ fuel ih =>
    refine .look (quiet_listEnds clause) fun ends => .ite (.give rfl) (.orElse ?_ ?_)
    · exact .bind (danglingLabel_lays clause) fun t => .give rfl
    · refine .bind (h _) fun statement => .orElse ?_ (.give rfl)
      exact .bind terminator_lays fun stop => ih.bind fun more => .give (by simp)

private theorem statements_lays (clause : Bool) : Lays text [] (rules.statements clause) :=
  .look quiet_get fun _ => statementsUpTo_lays h clause _

theorem blockRule_lays (kinds : rules.GiveStatements) : Lays text [] rules.blockRule := by
  refine .bindOf (symbol_lays true "\x7b" rfl) (symbol_gives true _) fun opening opens => ?_
  refine .bindOf (statements_lays h false) (statements_give kinds false) fun body items => ?_
  refine .bindOf (symbol_lays true "\x7d" rfl) (symbol_gives true _) fun closing closes => ?_
  refine .nodeOf (by simp) (by simp) (Kind.takes_block (List.forall_mem_cons.2 ⟨opens.isItem, ?_⟩))
  exact List.forall_mem_append.2 ⟨items, List.forall_mem_singleton.2 closes.isItem⟩

/-! ## Declarations -/

omit h in
private theorem grouped_lays {item : Reading Tree} (read : Lays text [] item) :
    Lays text [] (grouped item) := by
  refine .bind (symbol_lays true "(" rfl) fun opening => ?_
  refine .bind (many_lays (read.bind fun first => ?_)) fun items => ?_
  · exact .bind terminator_lays fun stop => .give (by simp)
  · exact .bind (symbol_lays true ")" rfl) fun closing => .give (by simp)

omit h in
private theorem grouped_ne_nil {item : Reading Tree} {s s' : Scan} {ts : List Tree}
    (read : grouped item s = some (ts, s')) : ts ≠ [] := by
  obtain ⟨opening, s₁, -, read⟩ := bind_eq_some.1 read
  obtain ⟨items, s₂, -, read⟩ := bind_eq_some.1 read
  obtain ⟨closing, s₃, -, read⟩ := bind_eq_some.1 read
  obtain ⟨rfl, -⟩ := pure_eq_some.1 read
  simp

private theorem initializer_lays (breaks : Bool) : Lays text [] (rules.initializer breaks) := by
  refine .bind (symbol_lays breaks "=" rfl) fun equals => ?_
  exact .bind (as_lays (expressions_lays h _) .value) fun value => .give (by simp)

private theorem constSpec_lays : Lays text [] rules.constSpec := by
  refine .bindOf (separated_lays (word_lays true .identifier [] rfl) false "," rfl)
    (fun _ _ _ => separated_ne_nil) fun names given => ?_
  refine .bind (opt_lays ?_) fun value => .node (by simp) (by simp [given]) rfl
  refine .look (quiet_sees false "=") fun equals => .ite (initializer_lays h false) ?_
  refine .look (quiet_ahead false) fun ahead => .ite .fail ?_
  refine .bind (as_lays (h _) .type) fun type => ?_
  exact .bind (initializer_lays h true) fun value => .give (by simp)

omit h in
/-- A value comes last in what declares it. -/
private theorem initializer_gives (breaks : Bool) :
    Gives (∀ t ∈ List.dropLast ·, Tree.field t ≠ some .value) (rules.initializer breaks) := by
  refine .bindOf (symbol_gives breaks "=") fun equals is => .bind fun value => .give ?_
  exact List.forall_mem_singleton.2 (by simp [is.2])

omit h in
private theorem forall_mem_dropLast_append {P : Tree → Prop} {ts us : List Tree}
    (front : ∀ t ∈ ts, P t) (back : ∀ t ∈ us.dropLast, P t) : ∀ t ∈ (ts ++ us).dropLast, P t := by
  by_cases none_behind : us = []
  · rw [none_behind, List.append_nil]
    exact fun t ht => front t (List.dropLast_subset _ ht)
  · rw [List.dropLast_append_of_ne_nil none_behind]
    exact List.forall_mem_append.2 ⟨front, back⟩

private theorem varSpec_lays : Lays text [] rules.varSpec := by
  have named : Gives (fun names => names ≠ [] ∧ ∀ t ∈ names, t.field ≠ some .value)
      (separated true "," (as .name (word true .identifier []))) := by
    intro s names s' read
    refine ⟨separated_ne_nil read, separated_gives true ?_ (fun t is => by simp [is.2]) s _ s' read⟩
    intro s t s' read
    simp [as_gives .name _ s t s' read]
  refine .bindOf (separated_lays (as_lays (word_lays true .identifier [] rfl) .name) true "," rfl)
    named fun names given => ?_
  obtain ⟨given, others⟩ := given
  refine .look (quiet_sees true "=") fun equals => .ite ?_ ?_
  · refine .bindOf (initializer_lays h true) (initializer_gives true) fun value last => ?_
    exact .nodeOf (by simp) (by simp [given])
      (Kind.takes_varSpec (forall_mem_dropLast_append others last))
  · refine .bindOf (as_lays (h _) .type) (as_gives .type _) fun type plays => ?_
    -- Neither the names nor the type play the part of the value, so that comes last.
    have front : ∀ t ∈ names ++ [type], t.field ≠ some .value :=
      List.forall_mem_append.2 ⟨others, List.forall_mem_singleton.2 (by simp [plays])⟩
    refine .bindOf (opt_lays (initializer_lays h false))
      (opt_gives (initializer_gives false) nofun) fun value last => ?_
    refine .nodeOf (by simp) (by simp) (Kind.takes_varSpec ?_)
    rw [← List.singleton_append, ← List.append_assoc]
    exact forall_mem_dropLast_append front last

private theorem typeSpec_lays : Lays text [] rules.typeSpec := by
  have type := as_lays (h (.type true)) .type
  refine .bind (as_lays (word_lays true .typeIdentifier [] rfl) .name) fun name => ?_
  refine .orElse ?_ (.orElse ?_ ?_)
  · refine .bind (symbol_lays true "=" rfl) fun equals => ?_
    exact .bind type fun type => .node (by simp) (by simp) rfl
  · refine .bind type fun type => .look (quiet_endsHere true) fun ends => ?_
    exact .ite (.node (by simp) (by simp) rfl) .fail
  · refine .bind (as_lays (typeParameterList_lays h) .typeParameters) fun parameters => ?_
    exact .bind type fun type => .node (by simp) (by simp) rfl

private theorem declaration_lays (w : Text) : Lays text [] (rules.declaration w) := by
  -- The cases are those of the keyword, each with a group in parentheses or a single spec.
  refine .ite ?_ (.ite ?_ ?_)
  · refine .bind (keyword_lays true "const" rfl) fun const => ?_
    refine .look (quiet_sees true "(") fun several => ?_
    dsimp only
    refine .ite (.bind (grouped_lays (constSpec_lays h)) fun specs =>
      .node (by simp) (by simp) rfl) ?_
    exact .bind (one_lays (constSpec_lays h)) fun spec => .node (by simp) (by simp) rfl
  · refine .bind (keyword_lays true "var" rfl) fun var => ?_
    refine .look (quiet_sees true "(") fun several => ?_
    dsimp only
    refine .ite ?_ (.bind (varSpec_lays h) fun spec => .node (by simp) (by simp) rfl)
    refine .bindOf (grouped_lays (varSpec_lays h)) (fun _ _ _ => grouped_ne_nil)
      fun specs given => ?_
    exact .grow (.node rfl given rfl) fun list => .node (by simp) (by simp) rfl
  · refine .bind (keyword_lays true "type" rfl) fun type => ?_
    refine .look (quiet_sees true "(") fun several => ?_
    dsimp only
    refine .ite (.bind (grouped_lays (typeSpec_lays h)) fun specs =>
      .node (by simp) (by simp) rfl) ?_
    exact .bind (one_lays (typeSpec_lays h)) fun spec => .node (by simp) (by simp) rfl

/-! ## Statements with bodies -/

theorem conditionalRule_lays : Lays text [] rules.conditionalRule := by
  refine .bind (keyword_lays true "if" rfl) fun word => ?_
  refine .bindOf (expressions_lays h _) (fun _ _ _ => kind_of_expressions) fun first list => ?_
  -- A statement may stand before the condition; without one the expressions are the condition.
  refine .grow (.orElse ?_ ?_) fun header => ?_
  · refine .growAll (.growAll (simpleRest_lays h _ _ list) fun t => .give (by simp))
      fun initial => ?_
    refine .bind (symbol_lays true ";" rfl) fun stop => ?_
    exact .bind (as_lays (h _) .condition) fun condition => .give (by simp)
  · split
    · rename_i condition only
      exact .changeAll (single_laid list only) (.give (by simp))
    · exact .fail
  refine .bind (as_lays (h _) .consequence) fun consequence => ?_
  refine .bind (opt_lays ?_) fun alternative => .node (by simp) (by simp) rfl
  refine .bind (keyword_lays false "else" rfl) fun otherwise => ?_
  refine .look (quiet_aheadWord true) fun w => ?_
  dsimp only
  exact .ite (.bind (h _) fun body => .give (by simp)) (.bind (h _) fun body => .give (by simp))

private theorem rangeClause_lays {done left : List Tree}
    (alike : done.map Tree.bare = left.map Tree.bare) :
    Lays text done (rules.rangeClause left) := by
  refine .bind (keyword_lays true "range" rfl) fun range => ?_
  exact .bind (as_lays (h _) .right) fun right => .node (by simp [alike]) (by simp) rfl

private theorem loopRest_lays (initial : List Tree) :
    Lays text initial (rules.loopRest initial) := by
  refine .bind (symbol_lays true ";" rfl) fun first => ?_
  refine .bind (opt_lays (one_lays (as_lays (h _) .condition))) fun condition => ?_
  refine .bind (symbol_lays true ";" rfl) fun second => ?_
  refine .look (quiet_sees true "\x7b") fun ends => ?_
  dsimp only
  refine .ite (.bind (.give rfl) fun update => .node (by simp) (by simp) rfl) ?_
  refine .bind (one_lays (as_lays (simple_lays h _ _) .update)) fun update => ?_
  exact .node (by simp) (by simp) rfl

private theorem loopHeader_lays : Lays text [] rules.loopHeader := by
  refine .look (quiet_sees true "\x7b") fun bare => .ite (.give rfl) ?_
  refine .look (quiet_sees true ";") fun noStart => .ite (one_lays (loopRest_lays h [])) ?_
  refine .look (quiet_aheadWord true) fun w => .ite (one_lays (rangeClause_lays h rfl)) ?_
  refine .bindOf (expressions_lays h _) (fun _ _ _ => kind_of_expressions) fun left list => ?_
  -- Behind expressions there may be a range, the parts of a counting loop, or nothing.
  refine .orElse ?_ (.orElse ?_ ?_)
  · refine .growAll ?_ fun clause => .give rfl
    refine .bind (.orElse (symbol_lays true ":=" rfl) (symbol_lays true "=" rfl)) fun operator => ?_
    exact rangeClause_lays h (by simp)
  · refine .growAll ?_ fun clause => .give rfl
    refine .growAll (.growAll (simpleRest_lays h _ _ list) fun t => .give (by simp))
      fun initial => ?_
    exact loopRest_lays h [initial]
  · split
    · rename_i condition only
      exact .changeAll (single_laid list only) (.give rfl)
    · exact .fail

private theorem loop_lays : Lays text [] rules.loop := by
  refine .bind (keyword_lays true "for" rfl) fun word => ?_
  refine .bind (loopHeader_lays h) fun header => ?_
  exact .bind (as_lays (h _) .body) fun body => .node (by simp) (by simp) rfl

omit h in
private theorem typeGuard_lays : Lays text [] typeGuard := by
  refine .bind (symbol_lays true "." rfl) fun dot => ?_
  refine .bind (symbol_lays true "(" rfl) fun opening => ?_
  refine .bind (keyword_lays true "type" rfl) fun type => ?_
  exact .bind (symbol_lays true ")" rfl) fun closing => .give (by simp)

private theorem communication_lays : Lays text [] rules.communication := by
  refine .bindOf (expressions_lays h _) (fun _ _ _ => kind_of_expressions) fun left list => ?_
  refine .orElse ?_ ?_
  · refine .bind (.orElse (symbol_lays true ":=" rfl) (symbol_lays true "=" rfl)) fun operator => ?_
    exact .bind (as_lays (h _) .right) fun right => .node (by simp) (by simp) rfl
  split
  · rename_i single only
    refine .changeAll (single_laid list only) (.orElse ?_ (.node (by simp) (by simp) rfl))
    refine .bind (symbol_lays true "<-" rfl) fun arrow => ?_
    exact .bind (as_lays (h _) .value) fun sent => .node (by simp) (by simp) rfl
  · exact .fail

section

variable (kinds : rules.GiveStatements)

include kinds

private theorem clause_lays {kind : Kind} (is : kind.isClause = true) {header : Reading (List Tree)}
    (read : Lays text [] header) (heads : Gives (∀ t ∈ ·, Tree.IsHead kind t) header) :
    Lays text [] (rules.clause kind header) := by
  refine .bindOf (keyword_lays true "case" rfl) (keyword_gives true _) fun word starts => ?_
  refine read.bindOf heads fun header heads => ?_
  refine .bindOf (symbol_lays true ":" rfl) (symbol_gives true _) fun colon ends => ?_
  refine .bindOf (statements_lays h true) (statements_give kinds true) fun body items => ?_
  refine .nodeOf (by simp) (by simp) (Kind.takes_clause is ⟨word :: header, colon, body, rfl, ?_⟩)
  exact ⟨List.forall_mem_cons.2 ⟨starts.isHead (by decide) kind, heads⟩, ends.isColon, items⟩

private theorem defaultClause_lays : Lays text [] rules.defaultClause := by
  refine .bindOf (keyword_lays true "default" rfl) (keyword_gives true _) fun word starts => ?_
  refine .bindOf (symbol_lays true ":" rfl) (symbol_gives true _) fun colon ends => ?_
  refine .bindOf (statements_lays h true) (statements_give kinds true) fun body items => ?_
  refine .nodeOf (by simp) (by simp) (Kind.takes_clause rfl ⟨[word], colon, body, rfl, ?_⟩)
  exact ⟨List.forall_mem_singleton.2 (starts.isHead (by decide) _), ends.isColon, items⟩

private theorem clauses_lays {kind : Kind} (is : kind.isClause = true)
    {header : Reading (List Tree)}
    (read : Lays text [] header) (heads : Gives (∀ t ∈ ·, Tree.IsHead kind t) header) :
    Lays text [] (rules.clauses kind header) := by
  refine .bind (symbol_lays true "\x7b" rfl) fun opening => ?_
  refine .bind (many_lays (one_lays (.orElse (clause_lays h kinds is read heads)
    (defaultClause_lays h kinds)))) fun items => ?_
  exact .bind (symbol_lays true "\x7d" rfl) fun closing => .give (by simp)

/-- Clauses with headers of one part. -/
private theorem singleClauses_lays {kind : Kind} (is : kind.isClause = true) {part : Field}
    (plays : kind.headerPart? = some part) {header : Reading Tree} (read : Lays text [] header) :
    Lays text [] (rules.clauses kind (one (as part header))) := by
  refine clauses_lays h kinds is (one_lays (as_lays read part)) ?_
  exact .bindOf (as_gives part header) fun t has =>
    .give (List.forall_mem_singleton.2 (Tree.isHead_of_field has plays))

private theorem valueClauses_lays : Lays text [] rules.valueClauses :=
  singleClauses_lays h kinds rfl rfl (expressions_lays h _)

private theorem typeClauses_lays : Lays text [] rules.typeClauses := by
  refine clauses_lays h kinds rfl
    (.bind (separated_lays (h _) true "," rfl) fun _ => .give (by simp)) ?_
  refine .bind fun types => .give fun t ht => ?_
  obtain ⟨t, -, rfl⟩ := List.mem_map.1 ht
  have plays : (t.withField .type).field = some .type := by cases t; rfl
  exact Tree.isHead_of_field plays rfl

private theorem switchRest_lays (word : Tree) (initial : List Tree) :
    Lays text (word :: initial) (rules.switchRest (word :: initial)) := by
  refine .look (quiet_sees true "\x7b") fun bare => .ite ?_ (.orElse ?_ ?_)
  · exact .bind (valueClauses_lays h kinds) fun clauses => .node (by simp) (by simp) rfl
  · refine .bind (opt_lays (.bind (as_lays (expressions_lays h _) .binding) fun names => ?_))
      fun aliases => ?_
    · exact .bind (symbol_lays true ":=" rfl) fun operator => .give (by simp)
    refine .bind (as_lays (h _) .value) fun value => ?_
    refine .bind typeGuard_lays fun guard => ?_
    exact .bind (typeClauses_lays h kinds) fun clauses => .node (by simp) (by simp) rfl
  · refine .bind (as_lays (h _) .value) fun value => ?_
    exact .bind (valueClauses_lays h kinds) fun clauses => .node (by simp) (by simp) rfl

private theorem switch_lays : Lays text [] rules.switch := by
  refine .bind (keyword_lays true "switch" rfl) fun word => ?_
  refine .look (quiet_sees true "\x7b") fun bare => .ite (switchRest_lays h kinds word []) ?_
  refine .orElse ?_ (switchRest_lays h kinds word [])
  refine .bind (as_lays (simple_lays h _ _) .initializer) fun initial => ?_
  exact .bind (symbol_lays true ";" rfl) fun stop => switchRest_lays h kinds word [initial, stop]

private theorem select_lays : Lays text [] rules.select := by
  refine .bind (keyword_lays true "select" rfl) fun word => ?_
  refine .bind (singleClauses_lays h kinds rfl rfl (communication_lays h)) fun clauses => ?_
  exact .node (by simp) (by simp) rfl

end

/-! ## Statements -/

omit h in
private theorem jump_lays (spelling : String) (given : (spelling : Text).isEmpty = false)
    {kind : Kind} (takes : kind.takesParts = true) (clause : Bool) :
    Lays text [] (jump spelling kind clause) := by
  refine .bind (keyword_lays true spelling given) fun word => ?_
  refine .look (quiet_endsHere clause) fun ends => .ite (.node (by simp) (by simp) takes) ?_
  exact .bind (word_lays true .labelName [] rfl) fun label => .node (by simp) (by simp) takes

private theorem keywordStatement_lays (kinds : rules.GiveStatements) (clause : Bool) (w : Text) :
    Lays text [] (rules.keywordStatement clause w) := by
  -- The cases are those of the keyword.
  refine .ite ?_ (.ite ?_ (.ite ?_ ?_))
  · refine .bind (keyword_lays true "return" rfl) fun word => ?_
    refine .look (quiet_endsHere clause) fun ends => .ite (.node (by simp) (by simp) rfl) ?_
    exact .bind (expressions_lays h _) fun values => .node (by simp) (by simp) rfl
  · refine .bind (keyword_lays true "go" rfl) fun word => ?_
    exact .bind (h _) fun call => .node (by simp) (by simp) rfl
  · refine .bind (keyword_lays true "defer" rfl) fun word => ?_
    exact .bind (h _) fun call => .node (by simp) (by simp) rfl
  refine .ite (h _) (.ite (loop_lays h) ?_)
  refine .ite (switch_lays h kinds) (.ite (select_lays h kinds) ?_)
  refine .ite (.bind (keyword_lays true "fallthrough" rfl) fun word =>
    .node (by simp) (by simp) rfl) ?_
  refine .ite (jump_lays "break" rfl rfl clause) ?_
  refine .ite (jump_lays "continue" rfl rfl clause) (.ite ?_ (declaration_lays h w))
  refine .bind (keyword_lays true "goto" rfl) fun word => ?_
  exact .bind (word_lays true .labelName [] rfl) fun label => .node (by simp) (by simp) rfl

theorem statementRule_lays (kinds : rules.GiveStatements) (clause : Bool) :
    Lays text [] (rules.statementRule clause) := by
  refine .look (quiet_ahead true) fun ahead => ?_
  split
  · exact .bind (symbol_lays true ";" rfl) fun stop => .node (by simp) (by simp) rfl
  · exact h _
  · refine .look (quiet_aheadWord true) fun w => ?_
    refine .ite (keywordStatement_lays h kinds clause w) (.ite .fail
      (.orElse ?_ (simple_lays h _ _)))
    refine .bind label_lays fun parts => ?_
    exact .bind (h _) fun statement => .node (by simp) (by simp) rfl

/-! ## Files -/

omit h in
private theorem importSpec_lays : Lays text [] importSpec := by
  refine .bind (opt_lays (one_lays (as_lays (.orElse ?_ ?_) .name))) fun name => ?_
  · exact .bind (symbol_lays true "." rfl) fun dot => .node (by simp) (by simp) rfl
  · refine .look (quiet_aheadWord true) fun w => ?_
    exact .ite (word_lays true .blankIdentifier [] rfl) (word_lays true .packageIdentifier [] rfl)
  · exact .bind (as_lays (Literal.string_lays true) .path) fun path => .node (by simp) (by simp) rfl

omit h in
private theorem importDeclaration_lays : Lays text [] importDeclaration := by
  refine .bind (keyword_lays true "import" rfl) fun word => ?_
  refine .look (quiet_sees true "(") fun several => .ite ?_ ?_
  · refine .bind (symbol_lays true "(" rfl) fun opening => ?_
    refine .bind (opt_lays (.bind importSpec_lays fun first => ?_)) fun items => ?_
    · refine .bind (many_lays (.bind terminator_lays fun stop => ?_)) fun more => ?_
      · exact .bind importSpec_lays fun spec => .give (by simp)
      · exact .bind (opt_lays terminator_lays) fun stop => .give (by simp)
    refine .bind (symbol_lays true ")" rfl) fun closing => ?_
    -- The list is a node over what follows the keyword.
    show Lays text ([word] ++ (opening :: items ++ [closing])) _
    exact .grow (.node rfl (by simp) rfl) fun list => .node (by simp) (by simp) rfl
  · exact .bind importSpec_lays fun spec => .node (by simp) (by simp) rfl

private theorem optionalBody_lays : Lays text [] rules.optionalBody :=
  .look (quiet_sees false "\x7b") fun _ => .ite (one_lays (as_lays (h _) .body)) (.give rfl)

private theorem functionDeclaration_lays : Lays text [] rules.functionDeclaration := by
  refine .bind (keyword_lays true "func" rfl) fun func => ?_
  refine .bind (as_lays (word_lays true .identifier [] rfl) .name) fun name => ?_
  refine .bind (opt_lays (one_lays (as_lays (typeParameterList_lays h) .typeParameters)))
    fun parameters => ?_
  refine .bind (signature_lays h true) fun signature => ?_
  exact .bind (optionalBody_lays h) fun body => .node (by simp) (by simp) rfl

private theorem methodDeclaration_lays : Lays text [] rules.methodDeclaration := by
  refine .bind (keyword_lays true "func" rfl) fun func => ?_
  refine .bind (as_lays (parameterList_lays h true) .receiver) fun receiver => ?_
  refine .bind (as_lays (word_lays true .fieldIdentifier [] rfl) .name) fun name => ?_
  refine .bind (signature_lays h true) fun signature => ?_
  exact .bind (optionalBody_lays h) fun body => .node (by simp) (by simp) rfl

private theorem fileDeclaration_lays : Lays text [] rules.fileDeclaration := by
  refine .look (quiet_aheadWord true) fun w => .ite ?_ ?_
  · refine .bind (keyword_lays true "package" rfl) fun word => ?_
    exact .bind (word_lays true .packageIdentifier [] rfl) fun name => .node (by simp) (by simp) rfl
  refine .ite importDeclaration_lays (.ite ?_ .fail)
  exact .orElse (methodDeclaration_lays h) (functionDeclaration_lays h)

omit h in
theorem itemEnd_lays : Lays text [] itemEnd :=
  .orElse terminator_lays (.look (quiet_ahead false) fun _ => .ite (.give rfl) .fail)

private theorem fileItem_lays : Lays text [] rules.fileItem :=
  .orElse (fileDeclaration_lays h)
    (.look (quiet_aheadWord true) fun _ => .ite .fail (h _))

/-- The items of a file are read in order. -/
theorem fileItems_lays (fuel : Nat) : Lays text [] (rules.fileItems fuel) := by
  induction fuel with
  | zero => exact .fail
  | succ fuel ih =>
    refine .look quiet_atEnd fun ended => .ite (.give rfl) ?_
    refine .bind (fileItem_lays h) fun item => ?_
    exact .bind itemEnd_lays fun stop => ih.bind fun more => .give (by simp)

end Rules

end Interlace.Syntax
