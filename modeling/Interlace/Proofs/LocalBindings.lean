import Interlace.Syntax.Tree

/-!
# Names that functions declare

The forms in which a name is declared inside a function, and the places where it is in scope. A
parameter is in scope in the body, and a name that a type switch binds is in its clauses. Any other
name is in scope from its declaration on, up to the end of the innermost scope around it; the name
of a type is so from itself on.

## Key results

- `BindingForm`: the forms of declarations
- `Site.binds`: the names that are declared at a place, by their form
- `Site.HasCode`: the places in the code of a file
- `Site.Covers`: where a declared name is in scope
-/

namespace Interlace.Syntax

/-- The forms in which functions declare names. -/
inductive BindingForm where
  /-- A parameter, the receiver or a named result. -/
  | parameter
  | typeParameter
  | var
  | const
  | type
  /-- The left side of a short variable declaration. -/
  | definition
  /-- The left side of a range clause that declares its names. -/
  | range
  /-- The left side of a receive clause that declares its names. -/
  | receive
  /-- The name that a type switch gives its value. -/
  | guard
  deriving DecidableEq, Repr

/-- The nodes that declare names in the form. -/
def BindingForm.isOf : BindingForm → Kind → Bool
  | parameter, k => k.isFunction
  | typeParameter, k => k.isFunction || k = .typeSpec || k = .typeAlias
  | var, k => k = .varSpec
  | const, k => k = .constSpec
  | type, k => k = .typeSpec || k = .typeAlias
  | definition, k => k = .shortVarDeclaration
  | range, k => k = .rangeClause
  | receive, k => k = .receiveStatement
  | guard, k => k = .typeSwitchStatement

namespace Kind

/-- The nodes that names are declared in, up to their end. -/
def opensScope : Kind → Bool
  | functionDeclaration | methodDeclaration | funcLiteral | block | ifStatement | forStatement
  | expressionSwitchStatement | typeSwitchStatement | selectStatement | expressionCase
  | defaultCase | typeCase | communicationCase => true
  | _ => false

end Kind

namespace Tree

/-- The identifiers in a list. -/
def identifiers (list : Tree) : List Tree :=
  list.children.filter (·.kind = .identifier)

/-- The names of parameters in parentheses. -/
def parameterNames (list : Tree) : List Tree :=
  if list.kind = .parameterList then
    (list.childrenOf .parameterDeclaration ++ list.childrenOf .variadicParameterDeclaration).flatMap
      (childrenIn .name)
  else []

/-- The names of type parameters in brackets. -/
def typeParameterNames (list : Tree) : List Tree :=
  (list.childrenOf .typeParameterDeclaration).flatMap (childrenIn .name)

/-- The left side is declared and not assigned to. -/
def isDefining (t : Tree) : Bool :=
  t.children.any (·.kind = .symbol ":=")

/-- The identifiers on the left. -/
def leftNames (t : Tree) : List Tree :=
  ((t.child? .left).map identifiers).getD []

/-- The names that a node declares in a form. -/
def namesOf (t : Tree) : BindingForm → List Tree
  | .parameter => ([.receiver, .parameters, .result].filterMap t.child?).flatMap parameterNames
  | .typeParameter => ((t.child? .typeParameters).map typeParameterNames).getD []
  | .var => t.childrenIn .name
  -- The commas between the names of constants stand with them.
  | .const => (t.childrenIn .name).filter (·.kind = .identifier)
  | .type => (t.child? .name).toList
  | .definition => t.leftNames
  | .range | .receive => if t.isDefining then t.leftNames else []
  | .guard => (t.childrenIn .binding).flatMap identifiers

/-- The clauses of a type switch. -/
def typeClauses (t : Tree) : List Tree :=
  t.children.filter fun c => c.field = none && (c.kind = .typeCase || c.kind = .defaultCase)

/-- A value or a side of an assignment. Statements stand in it only inside function literals. -/
def isOperand (t : Tree) : Bool :=
  t.field = some .value || t.field = some .left || t.field = some .right

/-- The parts of a node with code in them. There is none in names that are declared, in names of
fields, and in types and signatures of declarations. -/
def codeParts (t : Tree) : List Tree :=
  let part := fun (f : Field) => (t.child? f).toList.filter isNamed
  match t.kind with
  | .functionDeclaration | .methodDeclaration | .funcLiteral =>
    (t.child? .body).toList.filter (·.kind = .block)
  | .varSpec | .constSpec => part .value
  | .shortVarDeclaration => part .right
  | .rangeClause => part .right ++ if t.isDefining then [] else part .left
  | .typeSwitchStatement => part .initializer ++ part .value ++ t.typeClauses
  | .selectorExpression => part .operand
  | .keyedElement =>
    match t.namedChildren with
    | [] => []
    | key :: rest => if key.literalInner.kind = .identifier then rest else key :: rest
  | .typeSpec | .typeAlias | .identifier | .packageIdentifier | .comment | .importDeclaration
  | .packageClause => []
  | _ => t.namedChildren

end Tree

namespace Site

/-- The place is inside a function, or it is one. -/
def isInFunction (d : Site) : Bool :=
  d.node.kind.isFunction || d.ancestors.any (·.kind.isFunction)

/-- The second place is in the code of the first. -/
inductive HasCode : Site → Site → Prop
  | refl (s : Site) : HasCode s s
  | step {s d : Site} {c : Tree} : c ∈ s.node.codeParts → HasCode ⟨c, s.node :: s.ancestors⟩ d →
    HasCode s d

/-- The names that are declared at a place in a form, the blank name left out. -/
def binds (source : Text) (d : Site) (form : BindingForm) : List Tree :=
  if form.isOf d.node.kind && d.isInFunction then
    (d.node.namesOf form).filter fun name => name.text source ≠ "_"
  else []

/-- The innermost node around a statement that opens a scope, with all that is above it. There is
none for what stands in an operand. -/
def scopeAbove : (t : Tree) → (above : List Tree) → List Tree
  | _, [] => []
  | t, a :: above =>
    if t.isOperand then [] else if a.kind.opensScope then a :: above else scopeAbove a above

/-- The innermost scope around a place. -/
def scope (d : Site) : List Tree :=
  scopeAbove d.node d.ancestors

/-- The second place is in the innermost scope around the first. -/
def Shares (d u : Site) : Prop :=
  d.scope ≠ [] ∧ d.scope <:+ u.ancestors

/-- A name that is declared at the first place is in scope at the second. -/
def Covers (d : Site) (form : BindingForm) (name : Tree) (u : Site) : Prop :=
  match form with
  | .parameter =>
    ∃ body, d.node.child? .body = some body ∧ (body :: d.node :: d.ancestors) <:+ u.ancestors
  | .typeParameter => name.stop ≤ u.node.start ∧ (d.node :: d.ancestors) <:+ u.ancestors
  | .guard =>
    ∃ clause ∈ d.node.typeClauses, (clause :: d.node :: d.ancestors) <:+ u.ancestors
  | .type => d.Shares u ∧ name.start ≤ u.node.start
  | .var | .const | .definition | .range | .receive =>
    d.Shares u ∧ d.node.stop ≤ u.node.start

/-- The place is a name in the code. The name of the package of a qualified type is none that is
looked up in scopes. -/
structure IsOccurrence (u : Site) : Prop where
  kind : u.node.kind = .identifier
  apart : ∀ a ∈ u.ancestors, a.kind ≠ .comment ∧ a.kind ≠ .packageIdentifier

end Site

end Interlace.Syntax
