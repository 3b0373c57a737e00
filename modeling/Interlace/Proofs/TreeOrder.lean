import Interlace.Syntax.Expressions

/-!
# Trees in source order

In an orderly tree the parts of a node lie one behind the other within it, and all that are more
than pieces of a string start where a token could, in no comment, and are not empty. It has no
comments, its names have no parts, its blocks and clauses hold statements, the clauses behind a
colon, and the value of a variable comes last. Trees that are laid one behind the other stay so when
they are put together, given other parts to play or read as something else.

## Key results

- `Kind.HasClause`: what the parts of a clause are
- `Laid`: trees lie one behind the other between two offsets
- `Laid.recomment`: comments further behind do not matter
- `Laid.append`: what is laid behind what is laid
- `Laid.withKind`, `Laid.asTypeName`: what is read as something else stays where it is
- `Laid.single`: a single part lies where its node does
-/

namespace Interlace.Syntax

/-- A token could start at an offset: there is a byte, and it is no blank. -/
def Solid (text : Text) (offset : Nat) : Prop :=
  ∃ b, text[offset]? = some b ∧ Text.isBlank b = false

theorem Solid.le_length {text : Text} {offset : Nat} (h : Solid text offset) :
    offset ≤ text.length := by
  obtain ⟨b, found, -⟩ := h
  exact Nat.le_of_lt (List.getElem?_eq_some_iff.1 found).1

/-- A piece of a string, where blanks count. -/
def Kind.isPiece : Kind → Bool
  | interpretedStringLiteralContent | rawStringLiteralContent | escapeSequence => true
  | _ => false

/-- The parts of such a node all start where tokens could. -/
def Kind.isStrict : Kind → Bool
  | selectorExpression | expressionList => true
  | k => k.holdsStatements

/-- The clauses of switches and selects. -/
def Kind.isClause : Kind → Bool
  | expressionCase | typeCase | communicationCase | defaultCase => true
  | _ => false

/-- Tokens can be nodes of the kind. -/
def Kind.isToken : Kind → Bool
  | comment => false
  | k => ! k.isClause

/-- Nodes of the kind can have any parts. -/
def Kind.takesParts : Kind → Bool
  | identifier | comment | block | varSpec => false
  | k => ! k.isClause

/-- What can stand in a list of statements. -/
def Kind.isStatement : Kind → Bool
  | block | emptyStatement | expressionStatement | sendStatement | incStatement | decStatement
  | assignmentStatement | shortVarDeclaration | constDeclaration | varDeclaration | typeDeclaration
  | labeledStatement | fallthroughStatement | breakStatement | continueStatement | gotoStatement
  | returnStatement | goStatement | deferStatement | ifStatement | forStatement
  | expressionSwitchStatement | typeSwitchStatement | selectStatement => true
  | _ => false

/-- The part that the header of a clause plays in it. -/
def Kind.headerPart? : Kind → Option Field
  | expressionCase => some .value
  | typeCase => some .type
  | communicationCase => some .communication
  | _ => none

/-- A statement, which plays no part where it stands, or a symbol beside statements. -/
def Tree.IsItem (t : Tree) : Prop :=
  t.field = none ∧ (t.kind.isStatement = true ∨ t.isNamed = false)

/-- The colon of a clause. The commas of its header play a part. -/
def Tree.isColon (t : Tree) : Bool :=
  t.kind = .symbol ":" && t.field = none

/-- What stands before the colon of a clause: the keyword, or a part of the header. -/
def Tree.IsHead (clause : Kind) (t : Tree) : Prop :=
  t.isColon = false ∧ (t.isNamed = true → t.field ≠ none ∧ t.field = clause.headerPart?)

/-- The parts of a clause are its header, a colon, and statements. -/
def Kind.HasClause (k : Kind) (parts : List Tree) : Prop :=
  ∃ header colon body, parts = header ++ colon :: body ∧ (∀ t ∈ header, t.IsHead k) ∧
    colon.isColon = true ∧ ∀ t ∈ body, t.IsItem

/-- The parts can be those of a node of the kind: comments are no part of what is read, names have
no parts, those of blocks and clauses are statements with what stands around them, and nothing
stands behind the value of a variable. -/
structure Kind.Takes (k : Kind) (parts : List Tree) : Prop where
  read : k ≠ .comment
  bare : k = .identifier → parts = []
  block : k = .block → ∀ t ∈ parts, t.IsItem
  clause : k.isClause = true → k.HasClause parts
  value : k = .varSpec → ∀ t ∈ parts.dropLast, t.field ≠ some .value

theorem Kind.takes_nil {k : Kind} (token : k.isToken = true) : k.Takes [] where
  read := by
    rintro rfl
    cases token
  bare := fun _ => rfl
  block := fun _ => nofun
  clause := by
    intro clause
    unfold isToken at token
    split at token
    · cases clause
    · rw [clause] at token
      cases token
  value := fun _ => nofun

theorem Kind.takes {k : Kind} (takes : k.takesParts = true) (parts : List Tree) :
    k.Takes parts where
  read := by
    rintro rfl
    cases takes
  bare := by
    rintro rfl
    cases takes
  block := by
    rintro rfl
    cases takes
  clause := by
    -- The kinds whose parts have an order of their own are not among these.
    intro clause
    unfold takesParts at takes
    split at takes
    · cases clause
    · cases clause
    · cases clause
    · cases clause
    · rw [clause] at takes
      cases takes
  value := by
    rintro rfl
    cases takes

theorem Kind.takes_block {parts : List Tree} (items : ∀ t ∈ parts, t.IsItem) :
    Kind.block.Takes parts :=
  ⟨nofun, nofun, fun _ => items, nofun, nofun⟩

theorem Kind.takes_varSpec {parts : List Tree}
    (value : ∀ t ∈ parts.dropLast, t.field ≠ some .value) : Kind.varSpec.Takes parts :=
  ⟨nofun, nofun, nofun, nofun, fun _ => value⟩

theorem Kind.takes_clause {k : Kind} {parts : List Tree} (clause : k.isClause = true)
    (grouped : k.HasClause parts) : k.Takes parts := by
  refine ⟨?_, ?_, ?_, fun _ => grouped, ?_⟩ <;> rintro rfl <;> cases clause

/-- A text with the ranges of comments in it. -/
structure Page where
  text : Text
  comments : List (Nat × Nat)

/-- A text as it is, whatever the comments in it. -/
instance : Coe Text Page :=
  ⟨fun text => ⟨text, []⟩⟩

/-- The offset is not within a comment. -/
def Page.Clear (page : Page) (offset : Nat) : Prop :=
  ∀ c ∈ page.comments, c.2 ≤ offset ∨ offset ≤ c.1

/-- The tree starts where a token could and is not empty. -/
def Tree.Stands (page : Page) (t : Tree) : Prop :=
  Solid page.text t.start ∧ t.start < t.stop

mutual

/-- The node starts in no comment, and its parts lie one behind the other within it. -/
def Tree.Orderly (page : Page) : Tree → Prop
  | .node k _ s e cs => (k.Takes cs ∧ page.Clear s) ∧ Laid page k.isStrict s cs e

/-- Trees lie one behind the other between two offsets, each of them orderly. -/
def Laid (page : Page) (strict : Bool) (lo : Nat) : List Tree → (hi : Nat) → Prop
  | [], hi => lo ≤ hi
  | t :: ts, hi => lo ≤ t.start ∧ (t.Stands page ∨ strict = false ∧ t.kind.isPiece) ∧
    t.Orderly page ∧ Laid page strict t.stop ts hi

end

variable {page : Page} {strict : Bool} {lo mid hi : Nat} {t : Tree} {ts us : List Tree}

mutual

theorem Tree.Orderly.le : (t : Tree) → t.Orderly page → t.start ≤ t.stop
  | .node _ _ _ _ cs, h => Laid.le_of_laid cs h.2

theorem Laid.le_of_laid : (ts : List Tree) → {strict : Bool} → {lo hi : Nat} →
    Laid page strict lo ts hi → lo ≤ hi
  | [], _, _, _, h => h
  | t :: ts, _, _, _, ⟨low, _, inner, rest⟩ => by
    have := Tree.Orderly.le t inner
    have := Laid.le_of_laid ts rest
    omega

end

mutual

/-- Comments do not matter behind a tree, and some may be forgotten. -/
theorem Tree.Orderly.recomment : (t : Tree) → t.Orderly page → {comments : List (Nat × Nat)} →
    (∀ c ∈ comments, c ∈ page.comments ∨ t.stop ≤ c.1) → t.Orderly ⟨page.text, comments⟩
  | .node _ _ _ _ cs, ⟨⟨takes, clear⟩, inner⟩, _, same => by
    have le := Laid.le_of_laid cs inner
    refine ⟨⟨takes, fun c hc => ?_⟩, Laid.recomment cs inner same⟩
    exact (same c hc).elim (clear c) fun behind => .inr (Nat.le_trans le behind)

theorem Laid.recomment : (ts : List Tree) → {strict : Bool} → {lo hi : Nat} →
    Laid page strict lo ts hi → {comments : List (Nat × Nat)} →
    (∀ c ∈ comments, c ∈ page.comments ∨ hi ≤ c.1) → Laid ⟨page.text, comments⟩ strict lo ts hi
  | [], _, _, _, h, _, _ => h
  | t :: ts, _, _, _, ⟨low, stands, inner, rest⟩, _, same => by
    have high := Laid.le_of_laid ts rest
    exact ⟨low, stands,
      Tree.Orderly.recomment t inner fun c hc => (same c hc).imp_right (Nat.le_trans high),
      Laid.recomment ts rest same⟩

end

namespace Tree.Orderly

theorem takes (h : t.Orderly page) : t.kind.Takes t.children := by
  cases t
  exact h.1.1

theorem clear (h : t.Orderly page) : page.Clear t.start := by
  cases t
  exact h.1.2

theorem laid (h : t.Orderly page) : Laid page t.kind.isStrict t.start t.children t.stop := by
  cases t
  exact h.2

end Tree.Orderly

theorem laid_singleton :
    Laid page strict lo [t] hi ↔ lo ≤ t.start ∧
      (t.Stands page ∨ strict = false ∧ t.kind.isPiece) ∧ t.Orderly page ∧ t.stop ≤ hi :=
  Iff.rfl

namespace Laid

theorem lower (h : Laid page strict mid ts hi) (le : lo ≤ mid) : Laid page strict lo ts hi := by
  cases ts with
  | nil => exact Nat.le_trans le h
  | cons t ts => exact ⟨Nat.le_trans le h.1, h.2⟩

theorem raise (h : Laid page strict lo ts mid) (le : mid ≤ hi) : Laid page strict lo ts hi := by
  induction ts generalizing lo with
  | nil => exact Nat.le_trans h le
  | cons t ts ih => exact ⟨h.1, h.2.1, h.2.2.1, ih h.2.2.2⟩

/-- What lies behind what is laid is laid with it. -/
theorem append (first : Laid page strict lo ts mid) (second : Laid page strict mid us hi) :
    Laid page strict lo (ts ++ us) hi := by
  induction ts generalizing lo with
  | nil => exact second.lower first
  | cons t ts ih => exact ⟨first.1, first.2.1, first.2.2.1, ih first.2.2.2⟩

theorem weaken (h : Laid page true lo ts hi) : Laid page strict lo ts hi := by
  induction ts generalizing lo with
  | nil => exact h
  | cons t ts ih => exact ⟨h.1, .inl (h.2.1.resolve_right nofun), h.2.2.1, ih h.2.2.2⟩

theorem append_iff :
    Laid page strict lo (ts ++ us) hi ↔
      ∃ mid, Laid page strict lo ts mid ∧ Laid page strict mid us hi := by
  constructor
  · intro h
    induction ts generalizing lo with
    | nil => exact ⟨lo, Nat.le_refl _, h⟩
    | cons u ts ih =>
      obtain ⟨mid, first, last⟩ := ih h.2.2.2
      exact ⟨mid, ⟨h.1, h.2.1, h.2.2.1, first⟩, last⟩
  · rintro ⟨mid, first, last⟩
    exact first.append last

end Laid

/-! ## Other readings -/

/-- The tree without the part it plays. -/
def Tree.bare : Tree → Tree
  | .node k _ s e cs => .node k none s e cs

@[simp] theorem Tree.bare_withField (f : Field) (t : Tree) : (t.withField f).bare = t.bare := by
  cases t
  rfl

@[simp] theorem Tree.bare_comp_withField (f : Field) : Tree.bare ∘ Tree.withField f = Tree.bare :=
  funext (Tree.bare_withField f)

theorem Laid.map_bare_iff :
    Laid page strict lo (ts.map Tree.bare) hi ↔ Laid page strict lo ts hi := by
  induction ts generalizing lo with
  | nil => exact Iff.rfl
  | cons t ts ih =>
    cases t with
    | node k f s e cs =>
      show (_ ∧ _ ∧ _ ∧ Laid page strict e (ts.map Tree.bare) hi) ↔
        (_ ∧ _ ∧ _ ∧ Laid page strict e ts hi)
      rw [ih]
      exact Iff.rfl

/-- Trees that differ in the parts they play lie alike. -/
theorem Laid.of_bare (h : Laid page strict lo ts hi) (alike : ts.map Tree.bare = us.map Tree.bare) :
    Laid page strict lo us hi := by
  rwa [← map_bare_iff, ← alike, map_bare_iff]

theorem Laid.withField (h : Laid page strict lo [t] hi) (f : Field) :
    Laid page strict lo [t.withField f] hi :=
  h.of_bare (by simp)

/-- A kind that asks nothing of the parts can be given to any node. -/
theorem Tree.Orderly.withKind {k : Kind} (h : t.Orderly page) (free : k.isStrict = false)
    (takes : k.takesParts = true) : (t.withKind k).Orderly page := by
  cases t with
  | node k' f s e cs =>
    have h' : Laid page k'.isStrict s cs e := h.2
    refine ⟨⟨Kind.takes takes cs, h.1.2⟩, ?_⟩
    rw [free]
    cases strict : k'.isStrict with
    | true =>
      rw [strict] at h'
      exact h'.weaken
    | false => rwa [strict] at h'

theorem Laid.withKind {k : Kind} (h : Laid page true lo [t] hi) (free : k.isStrict = false)
    (takes : k.takesParts = true) : Laid page true lo [t.withKind k] hi := by
  obtain ⟨low, stands, inner, high⟩ := laid_singleton.1 h
  refine laid_singleton.2 ⟨?_, .inl ?_, inner.withKind free takes, ?_⟩
  · cases t
    exact low
  · cases t
    exact stands.resolve_right nofun
  · cases t
    exact high

/-- A name read as the name of a type lies where it did. -/
theorem Laid.asTypeName (h : Laid page true lo [t] hi) : Laid page true lo [t.asTypeName] hi := by
  unfold Tree.asTypeName
  split
  · rename_i f s e operand dot member
    obtain ⟨low, stands, inner, high⟩ := laid_singleton.1 h
    -- The parts of a selector start with tokens, so they can be read as others.
    have parts : Laid page true s ([operand, dot] ++ [member]) e := inner.2
    obtain ⟨behind, front, last⟩ := append_iff.1 parts
    have front' : Laid page true s ([operand] ++ [dot]) behind := front
    obtain ⟨between, first, second⟩ := append_iff.1 front'
    have parts' := ((first.withKind (k := .packageIdentifier) rfl rfl).withField .package).append
      (second.append ((last.withKind (k := .typeIdentifier) rfl rfl).withField .name))
    exact ⟨low, stands, ⟨⟨Kind.takes rfl _, inner.clear⟩, parts'.weaken⟩, high⟩
  · exact h.withKind rfl rfl

theorem Laid.asTypeName_cons (h : Laid page true lo (t :: ts) hi) :
    Laid page true lo (t.asTypeName :: ts) hi := by
  have parts : Laid page true lo ([t] ++ ts) hi := h
  obtain ⟨mid, first, rest⟩ := append_iff.1 parts
  exact first.asTypeName.append rest

/-- A single part lies where its node does. -/
theorem Laid.single {single : Tree} (h : Laid page true lo [t] hi) (kind : t.kind.isStrict = true)
    (only : t.children = [single]) : Laid page true lo [single] hi := by
  obtain ⟨low, -, inner, high⟩ := laid_singleton.1 h
  cases t with
  | node k f s e cs =>
    have parts : Laid page k.isStrict s cs e := inner.2
    rw [show k.isStrict = true from kind, show cs = [single] from only] at parts
    exact (parts.lower low).raise high

end Interlace.Syntax
