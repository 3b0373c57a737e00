import Interlace.Proofs.OrderedReading
import Interlace.Syntax.Statements

/-!
# What is read as a statement

The rules for statements give nodes of a few kinds, which play no part yet. So do the rules for
lists of statements, the semicolons apart.

## Key results

- `Reading.Gives`: what is true of everything that a parser gives
- `Rules.statementRule_gives`: what is read as a statement is one
- `Rules.statements_give`: what stands in a list of statements
-/

namespace Interlace.Syntax

/-- A symbol with a spelling, which plays no part yet. -/
def Tree.IsSymbol (spelling : String) (t : Tree) : Prop :=
  t.kind = .symbol spelling ∧ t.field = none

/-- A statement, which plays no part yet. -/
def Tree.IsStatement (t : Tree) : Prop :=
  t.field = none ∧ t.kind.isStatement = true

theorem Tree.IsSymbol.isItem {spelling : String} {t : Tree} (h : t.IsSymbol spelling) :
    t.IsItem :=
  ⟨h.2, .inr (by rw [isNamed, h.1]; rfl)⟩

theorem Tree.IsStatement.isItem {t : Tree} (h : t.IsStatement) : t.IsItem :=
  ⟨h.1, .inl h.2⟩

/-- A keyword stands before the colon of its clause. -/
theorem Tree.IsSymbol.isHead {spelling : String} {t : Tree} (h : t.IsSymbol spelling)
    (word : spelling ≠ ":") (clause : Kind) : t.IsHead clause := by
  refine ⟨?_, fun named => ?_⟩
  · simp [isColon, h.1, word]
  · rw [isNamed, h.1] at named
    cases named

theorem Tree.IsSymbol.isColon {t : Tree} (h : t.IsSymbol ":") : t.isColon = true := by
  simp [Tree.isColon, h.1, h.2]

/-- What plays the part of the header stands before the colon. -/
theorem Tree.isHead_of_field {clause : Kind} {t : Tree} {part : Field} (plays : t.field = some part)
    (header : clause.headerPart? = some part) : t.IsHead clause :=
  ⟨by simp [isColon, plays], fun _ => ⟨by simp [plays], plays.trans header.symm⟩⟩

namespace Reading

variable {α β : Type}

/-- Something is true of everything that the parser gives. -/
def Gives (P : α → Prop) (p : Reading α) : Prop :=
  ∀ s x s', p s = some (x, s') → P x

namespace Gives

variable {P : β → Prop}

theorem bindOf {Q : α → Prop} {p : Reading α} {f : α → Reading β} (hp : Gives Q p)
    (hf : ∀ x, Q x → Gives P (f x)) : Gives P (p >>= f) := by
  intro s y s' read
  obtain ⟨x, s₁, first, rest⟩ := bind_eq_some.1 read
  exact hf x (hp s x s₁ first) s₁ y s' rest

theorem bind {p : Reading α} {f : α → Reading β} (hf : ∀ x, Gives P (f x)) :
    Gives P (p >>= f) :=
  bindOf (Q := fun _ => True) (fun _ _ _ _ => trivial) fun x _ => hf x

theorem orElse {p q : Reading β} (hp : Gives P p) (hq : Gives P q) : Gives P (p <|> q) := by
  intro s x s' read
  rcases orElse_eq_some read with first | second
  · exact hp s x s' first
  · exact hq s x s' second

theorem ite {c : Prop} [Decidable c] {p q : Reading β} (hp : Gives P p) (hq : Gives P q) :
    Gives P (if c then p else q) := by
  split
  · exact hp
  · exact hq

theorem fail : Gives P (failure : Reading β) := by
  intro s x s' read
  cases read

theorem give {x : β} (h : P x) : Gives P (pure x) := by
  intro s y s' read
  obtain ⟨rfl, -⟩ := pure_eq_some.1 read
  exact h

/-- A node of a kind that can stand in a list of statements. -/
theorem node {kind : Kind} {children : List Tree} (is : kind.isStatement = true) :
    Gives Tree.IsStatement (Reading.node kind children) := by
  intro s t s' read
  cases read
  exact ⟨rfl, is⟩

end Gives

/-! ## Tokens -/

private theorem token_gives (breaks : Bool) (spelling : String) (width : Nat) :
    Gives (Tree.IsSymbol spelling) (token breaks (.symbol spelling) width) := by
  intro s t s' read
  cases read
  exact ⟨rfl, rfl⟩

theorem symbol_gives (breaks : Bool) (spelling : String) :
    Gives (Tree.IsSymbol spelling) (symbol breaks spelling) :=
  .bind fun _ => .ite (token_gives breaks spelling _) .fail

theorem keyword_gives (breaks : Bool) (spelling : String) :
    Gives (Tree.IsSymbol spelling) (keyword breaks spelling) :=
  .bind fun _ => .ite (token_gives breaks spelling _) .fail

/-- What ends a statement is a symbol, if it is anything. -/
private theorem terminator_gives : Gives (∀ t ∈ ·, Tree.IsItem t) terminator := by
  refine .bind fun s => ?_
  dsimp only
  split
  · exact .bind fun _ => .give nofun
  · exact .bindOf (symbol_gives false ";") fun t semicolon =>
      .give (List.forall_mem_singleton.2 semicolon.isItem)
  · exact .bindOf (token_gives false "\x00" 1) fun t zero =>
      .give (List.forall_mem_singleton.2 zero.isItem)
  · exact .fail

theorem as_gives (part : Field) (p : Reading Tree) :
    Gives (fun t => t.field = some part) (as part p) := by
  refine .bind fun t => .give ?_
  cases t
  rfl

/-! ## Lists -/

theorem opt_gives {P : List Tree → Prop} {p : Reading (List Tree)} (hp : Gives P p) (none : P []) :
    Gives P (opt p) :=
  .orElse hp (.give none)

private theorem many_gives {P : Tree → Prop} {p : Reading (List Tree)}
    (hp : Gives (∀ t ∈ ·, P t) p) : Gives (∀ t ∈ ·, P t) (many p) := by
  have upTo (fuel : Nat) : Gives (∀ t ∈ ·, P t) (manyUpTo p fuel) := by
    induction fuel with
    | zero => exact .give nofun
    | succ fuel ih =>
      refine .orElse (.bindOf hp fun first here => .bindOf ih fun more later => .give ?_)
        (.give nofun)
      exact List.forall_mem_append.2 ⟨here, later⟩
  exact .bind fun _ => upTo _

theorem separated_gives {P : Tree → Prop} (breaks : Bool) {separator : String} {item : Reading Tree}
    (hi : Gives P item) (between : ∀ t : Tree, t.IsSymbol separator → P t) :
    Gives (∀ t ∈ ·, P t) (separated breaks separator item) := by
  have next : Gives (∀ t ∈ ·, P t) (do
      let s ← symbol breaks separator
      return [s, ← item]) := by
    refine .bindOf (symbol_gives breaks separator) fun s is => .bindOf hi fun t ht => .give ?_
    exact List.forall_mem_cons.2 ⟨between s is, List.forall_mem_singleton.2 ht⟩
  refine .bindOf hi fun first here => .bindOf (many_gives next) fun more later => .give ?_
  exact List.forall_mem_cons.2 ⟨here, later⟩

end Reading

open Reading

/-- The recursive rules for statements. -/
def Rule.isStatement : Rule → Bool
  | block | conditional | statement _ => true
  | _ => false

/-- The recursive rules for statements give statements. -/
def Rules.GiveStatements (rules : Rules) : Prop :=
  ∀ rule, rule.isStatement = true → Gives Tree.IsStatement (rules rule)

namespace Rules

variable (rules : Rules)

/-! ## Statements -/

private theorem simpleRest_gives (head value : Follow) (left : Tree) :
    Gives Tree.IsStatement (rules.simpleRest head value left) := by
  refine .bind fun t => .ite (.bind fun _ => .bind fun _ => .node rfl) ?_
  split
  · exact .bind fun _ => .bind fun _ => .node rfl
  split
  · refine .ite (.bind fun _ => .node rfl) (.ite (.bind fun _ => .node rfl) (.ite ?_ (.node rfl)))
    exact .bind fun _ => .bind fun _ => .node rfl
  · exact .fail

private theorem simple_gives (head value : Follow) :
    Gives Tree.IsStatement (rules.simple head value) :=
  .bind fun left => rules.simpleRest_gives head value left

theorem blockRule_gives : Gives Tree.IsStatement rules.blockRule :=
  .bind fun _ => .bind fun _ => .bind fun _ => .node rfl

private theorem declaration_gives (w : Text) : Gives Tree.IsStatement (rules.declaration w) := by
  refine .ite (.bind fun _ => .bind fun several => ?_)
    (.ite (.bind fun _ => .bind fun several => ?_) (.bind fun _ => .bind fun several => ?_))
  · exact .ite (.bind fun _ => .node rfl) (.bind fun _ => .node rfl)
  · exact .ite (.bind fun _ => .bind fun _ => .node rfl) (.bind fun _ => .node rfl)
  · exact .ite (.bind fun _ => .node rfl) (.bind fun _ => .node rfl)

theorem conditionalRule_gives : Gives Tree.IsStatement rules.conditionalRule :=
  .bind fun _ => .bind fun _ => .bind fun _ => .bind fun _ => .bind fun _ => .node rfl

private theorem loop_gives : Gives Tree.IsStatement rules.loop :=
  .bind fun _ => .bind fun _ => .bind fun _ => .node rfl

private theorem switchRest_gives (before : List Tree) :
    Gives Tree.IsStatement (rules.switchRest before) := by
  refine .bind fun _ => .ite (.bind fun _ => .node rfl) (.orElse ?_ ?_)
  · exact .bind fun _ => .bind fun _ => .bind fun _ => .bind fun _ => .node rfl
  · exact .bind fun _ => .bind fun _ => .node rfl

private theorem switch_gives : Gives Tree.IsStatement rules.switch := by
  refine .bind fun word => .bind fun _ => .ite (rules.switchRest_gives _) (.orElse ?_ ?_)
  · exact .bind fun _ => .bind fun _ => rules.switchRest_gives _
  · exact rules.switchRest_gives _

private theorem select_gives : Gives Tree.IsStatement rules.select :=
  .bind fun _ => .bind fun _ => .node rfl

private theorem jump_gives (spelling : String) {kind : Kind} (is : kind.isStatement = true)
    (clause : Bool) : Gives Tree.IsStatement (jump spelling kind clause) :=
  .bind fun _ => .bind fun _ => .ite (.node is) (.bind fun _ => .node is)

variable {rules} (h : rules.GiveStatements)

include h

private theorem keywordStatement_gives (clause : Bool) (w : Text) :
    Gives Tree.IsStatement (rules.keywordStatement clause w) := by
  refine .ite ?_ (.ite (.bind fun _ => .bind fun _ => .node rfl) ?_)
  · exact .bind fun _ => .bind fun _ => .ite (.node rfl) (.bind fun _ => .node rfl)
  refine .ite (.bind fun _ => .bind fun _ => .node rfl) (.ite (h .conditional rfl) ?_)
  refine .ite rules.loop_gives (.ite rules.switch_gives (.ite rules.select_gives ?_))
  refine .ite (.bind fun _ => .node rfl) (.ite (jump_gives "break" rfl clause) ?_)
  refine .ite (jump_gives "continue" rfl clause) (.ite ?_ (rules.declaration_gives w))
  exact .bind fun _ => .bind fun _ => .node rfl

/-- What is read as a statement is one. -/
theorem statementRule_gives (clause : Bool) :
    Gives Tree.IsStatement (rules.statementRule clause) := by
  refine .bind fun ahead => ?_
  split
  · exact .bind fun _ => .node rfl
  · exact h .block rfl
  · refine .bind fun w => .ite (keywordStatement_gives h clause w) (.ite .fail (.orElse ?_ ?_))
    · exact .bind fun _ => .bind fun _ => .node rfl
    · exact rules.simple_gives _ _

/-! ## Lists of statements -/

private theorem statementsUpTo_give (clause : Bool) (fuel : Nat) :
    Gives (∀ t ∈ ·, Tree.IsItem t) (rules.statementsUpTo clause fuel) := by
  induction fuel with
  | zero => exact .give nofun
  | succ fuel ih =>
    refine .bind fun ends => .ite (.give nofun) (.orElse ?_ ?_)
    · have label : Gives Tree.IsStatement (danglingLabel clause) :=
        .bind fun _ => .bind fun _ => .ite (.node rfl) .fail
      exact .bindOf label fun t is => .give (List.forall_mem_singleton.2 is.isItem)
    · refine .bindOf (h (.statement clause) rfl) fun statement is => .orElse ?_ ?_
      · refine .bindOf terminator_gives fun stop symbols => .bindOf ih fun more items => .give ?_
        exact List.forall_mem_cons.2 ⟨is.isItem, List.forall_mem_append.2 ⟨symbols, items⟩⟩
      · exact .give (List.forall_mem_singleton.2 is.isItem)

/-- What stands in a list of statements. -/
theorem statements_give (clause : Bool) :
    Gives (∀ t ∈ ·, Tree.IsItem t) (rules.statements clause) :=
  .bind fun _ => statementsUpTo_give h clause _

end Rules

end Interlace.Syntax
