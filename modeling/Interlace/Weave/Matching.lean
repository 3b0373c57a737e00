import Interlace.Aspect.Basic
import Interlace.Typing.Package

/-!
# Where join points hold

Evaluates join points at the nodes of a checked file.
-/

namespace Interlace

open Syntax

/-- What is known of the package that is woven. -/
structure PackageInfo where
  importPath : Text
  packageName : Text
  /-- The package was made to run tests. -/
  testMain : Bool
  settings : Settings

/-- A checked file in its package. -/
structure Scene where
  file : SourceFile
  /-- The number of the file in the package. -/
  index : Nat
  types : PackageTypes
  package : PackageInfo

namespace Scene

/-- The text of a node. -/
def text (s : Scene) (node : Tree) : Text :=
  s.file.text node

/-- The type that a type expression comes to. -/
def resolve (s : Scene) (node : Tree) : TypeRef :=
  s.types.resolveType s.index s.file.source node

/-- What an identifier stands for. -/
def objectAt? (s : Scene) (node : Tree) : Option Object :=
  (s.types.file? s.index).bind (·.objectAt? node)

/-- The types of a list of parameters, one for every name that is declared. -/
def parameterTypes (s : Scene) (list : Tree) : List TypeRef :=
  list.namedChildren.flatMap fun declaration =>
    match declaration.child? .type with
    | none => []
    | some node =>
      let type :=
        if declaration.kind = .variadicParameterDeclaration then
          .other ("..." ++ (s.resolve node).render)
        else s.resolve node
      List.replicate (max 1 (declaration.childrenIn .name).length) type

/-- The types of the results of a function. -/
def resultTypes (s : Scene) (function : Tree) : List TypeRef :=
  match function.child? .result with
  | some result =>
    if result.kind = .parameterList then s.parameterTypes result else [s.resolve result]
  | none => []

/-- Types are the ones referred to, one by one. -/
def accepts (expected : List TypeMatch) (actual : List TypeRef) : Bool :=
  expected.length = actual.length && (expected.zip actual).all fun (m, t) => m.accepts t

/-- A node is a function that meets the demands. -/
def isFunction (s : Scene) (m : FunctionMatcher) (node : Tree) : Bool :=
  let parameters := ((node.child? .parameters).map s.parameterTypes).getD []
  let receiver := ((node.child? .receiver).map s.parameterTypes).bind List.head?
  node.kind.isFunction
    && (node.kind ≠ .funcLiteral || (m.name.isNone && m.receiver.isNone))
    && m.name.all (fun name => (node.child? .name).map s.text = some name)
    && m.receiver.all (fun wanted => receiver.any wanted.accepts)
    && m.parameter.all (fun wanted => parameters.any wanted.accepts)
    && m.signature.all fun signature =>
      accepts signature.args parameters && accepts signature.returns (s.resultTypes node)

/-- A node is a call of a function of a package. -/
def isCall (s : Scene) (path name : Text) (node : Tree) : Bool :=
  node.kind = .callExpression &&
    match node.child? .function with
    | none => false
    | some function =>
      match function.kind, function.child? .operand, function.child? .field with
      | .selectorExpression, some operand, some field =>
        s.text field = name && s.objectAt? operand = some (.package path)
      | .identifier, _, _ =>
        s.text function = name &&
          match s.objectAt? function with
          | some (.func declared _) => declared = path
          | _ => false
      | _, _, _ => false

/-- A node is an element that gives a field of a literal of some type a value. For a pointer the
address of the literal is taken. -/
def isLiteralField (s : Scene) (type : TypeMatch) (field : Text) (site : Site) : Bool :=
  site.node.kind = .keyedElement
    && site.node.namedChildren.head?.any (fun key => s.text key.literalInner = field)
    && match site.ancestors with
      | value :: literal :: above =>
        let addressed := above.head?.any fun parent =>
          parent.kind = .unaryExpression
            && (parent.child? .operator).any fun operator => s.text operator = "&"
        value.kind = .literalValue && literal.kind = .compositeLiteral
          && (literal.child? .type).any fun node =>
            addressed = type.pointer && type.value.accepts (s.resolve node)
      | _ => false

end Scene

/-- The only value of a declaration. -/
def Syntax.Tree.singleValue? (declaration : Tree) : Option Tree :=
  let part := if declaration.kind = .shortVarDeclaration then Field.right else Field.value
  match (declaration.child? part).map Tree.significant with
  | some [value] => some value
  | _ => none

namespace Scene

/-- The type of an expression that spells it out: a literal, the address of one, or a variable
of known type. `fuel` bounds the nesting. -/
def spelledType? (s : Scene) : (fuel : Nat) → Tree → Option TypeRef
  | 0, _ => none
  | fuel + 1, expression =>
    match expression.kind with
    | .compositeLiteral => (expression.child? .type).map s.resolve
    | .unaryExpression =>
      match expression.child? .operator, expression.child? .operand with
      | some operator, some operand =>
        if s.text operator = "&" then (spelledType? s fuel operand).map .pointer else none
      | _, _ => none
    | .identifier =>
      match s.objectAt? expression with
      | some (.var type) => type
      | _ => none
    | _ => none

/-- The only value of a declaration is of a type. -/
def hasValueOf (s : Scene) (type : TypeMatch) (declaration : Tree) : Bool :=
  (declaration.singleValue?.bind fun v => s.spelledType? (v.stop - v.start + 1) v).any
    type.accepts

/-- A node declares a variable of a type. -/
def isValueDeclaration (s : Scene) (type : TypeMatch) (node : Tree) : Bool :=
  match node.kind with
  | .varSpec =>
    match node.child? .type with
    | some declared => type.accepts (s.resolve declared)
    | none => s.hasValueOf type node
  | .shortVarDeclaration => s.hasValueOf type node
  | _ => false

/-- A place is directly below the root. -/
def isTopLevel (site : Site) : Bool :=
  site.parent?.any (·.kind = .sourceFile)

/-- A node declares a name of the package. -/
def isDeclarationOf (s : Scene) (path name : Text) (site : Site) : Bool :=
  s.package.importPath = path &&
    match site.node.kind with
    | .functionDeclaration =>
      isTopLevel site && (site.node.child? .name).any fun n => s.text n = name
    | .typeSpec | .typeAlias | .varSpec | .constSpec =>
      let declaration := (Site.chainOf site.ancestors).find? (·.node.kind.isDeclaration)
      declaration.any isTopLevel
        && (site.node.childrenIn .name).any fun n => s.text n = name
    | _ => false

/-- A directive stands before a node on a line of its own. Containers start where their first
child does, so they do not count. -/
def hasDirective (s : Scene) (name : Text) (node : Tree) : Bool :=
  node.isNamed && node.kind ≠ .sourceFile && node.kind ≠ .block
    && (s.file.decorations.leadingDirective? node name).isSome

end Scene

namespace JoinPoint

mutual

/-- The join point holds at a place. -/
def holdsAt (s : Scene) (site : Site) : JoinPoint → Bool
  | allOf points => allHoldAt s site points
  | oneOf points => someHoldsAt s site points
  | not point => ! holdsAt s site point
  | importPath path => s.package.importPath = path
  | packageName name => s.file.packageName = name
  | testMain flag => s.package.testMain = flag
  | configuration settings => s.package.settings.agree settings
  | sourceFile => site.node.kind = .sourceFile
  | functionDeclaration matcher => s.isFunction matcher site.node
  | functionCall path name => s.isCall path name site.node
  | structLiteralField type field => s.isLiteralField type field site
  | valueDeclaration type => s.isValueDeclaration type site.node
  | declarationOf path name => s.isDeclarationOf path name site
  | directive name => s.hasDirective name site.node

/-- All join points hold at a place. -/
def allHoldAt (s : Scene) (site : Site) : List JoinPoint → Bool
  | [] => true
  | p :: points => holdsAt s site p && allHoldAt s site points

/-- Some join point holds at a place. -/
def someHoldsAt (s : Scene) (site : Site) : List JoinPoint → Bool
  | [] => false
  | p :: points => holdsAt s site p || someHoldsAt s site points

end

end JoinPoint

end Interlace
