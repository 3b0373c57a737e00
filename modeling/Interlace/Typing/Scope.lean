import Interlace.Typing.Package

/-!
# Scopes

A walk through a file that keeps the names declared in the scopes around a place, and records
what each identifier stands for.
-/

namespace Interlace

open Syntax

/-- The state of the walk. -/
structure ScopeState where
  /-- The names of the scopes around the place, the innermost first; in a scope, of several
  entries for a name the first counts. -/
  scopes : List (List (Text × Object))
  /-- What identifiers stand for, by offset; of several entries the first counts. -/
  uses : List (Nat × Object)
  /-- The names declared inside functions. -/
  locals : TextSet

namespace ScopeState

/-- Nothing declared and nothing recorded. -/
def start : ScopeState := ⟨[], [], .empty⟩

/-- Records what the identifier at an offset stands for. -/
def record (s : ScopeState) (offset : Nat) (object : Object) : ScopeState :=
  { s with uses := (offset, object) :: s.uses }

/-- Runs a step inside a new scope. -/
def inScope (s : ScopeState) (step : ScopeState → ScopeState) : ScopeState :=
  { step { s with scopes := [] :: s.scopes } with scopes := s.scopes }

/-- The object of a name in the nearest scope that declares it. -/
def find? (s : ScopeState) (name : Text) : Option Object :=
  s.scopes.findSome? fun scope => (scope.find? (·.1 = name)).map Prod.snd

end ScopeState

/-- The file that is walked through, in its package. -/
structure ScopeWalk where
  package : PackageTypes
  index : Nat
  file : SourceFile

namespace ScopeWalk

variable (w : ScopeWalk)

/-- The imports of the file. -/
def imports : List ImportedPackage :=
  ((w.package.file? w.index).map FileTypes.imports).getD []

/-- The type that a type expression of the file comes to. -/
def resolve (node : Tree) : TypeRef :=
  w.package.resolveType w.index w.file.source node

/-- Declares a name in the innermost scope. The blank name declares nothing. -/
def declare (object : Object) (s : ScopeState) (name : Tree) : ScopeState :=
  let text := w.file.text name
  if text = "_" then s
  else
    let s := s.record name.start object
    match s.scopes with
    | [] => s
    | scope :: outer =>
      { s with scopes := ((text, object) :: scope) :: outer, locals := s.locals.add text }

/-- Declares the names of parameters. -/
def declareParameters (s : ScopeState) (list : Tree) : ScopeState :=
  list.namedChildren.foldl
    (fun s declaration =>
      let type := (declaration.child? .type).map w.resolve
      (declaration.childrenIn .name).foldl (w.declare (.var type)) s)
    s

/-- The object of a declaration of the package. -/
def declaredObject (name : Text) (d : Declaration) : Object :=
  match d.kind with
  | .func => .func w.package.importPath name
  | .type => .type w.package.importPath name
  | .var => .var d.type
  | .const => .const

/-- What a name stands for: in the scopes, then in the package, then among the imports, then in
the universe. -/
def lookup? (s : ScopeState) (name : Text) : Option Object :=
  match s.find? name with
  | some object => some object
  | none =>
    match w.package.declaration? name with
    | some d => some (w.declaredObject name d)
    | none =>
      match w.imports.find? fun i => i.localName = name && i.givenName ≠ some blankName with
      | some i => some (.package i.path)
      | none => if Universe.knows w.package.version name then some (.builtin name) else none

/-- The type of a value that spells it out: a literal, the address of one, or a variable of
known type. `fuel` bounds the nesting. -/
def inferType? (s : ScopeState) : (fuel : Nat) → Tree → Option TypeRef
  | 0, _ => none
  | fuel + 1, value =>
    match value.kind with
    | .compositeLiteral => (value.child? .type).map w.resolve
    | .unaryExpression =>
      match value.child? .operator, value.child? .operand with
      | some operator, some operand =>
        if w.file.text operator = "&" then (inferType? s fuel operand).map .pointer else none
      | _, _ => none
    | .identifier =>
      match w.lookup? s (w.file.text value) with
      | some (.var type) => type
      | _ => none
    | _ => none

/-- Declares the names on the left of a definition, with the types of the values where there are
as many. -/
def declarePairs (s : ScopeState) (names values : List Tree) : ScopeState :=
  let paired := names.length = values.length
  (names.zipIdx).foldl
    (fun s (name, i) =>
      let type :=
        if paired then values[i]?.bind fun v => w.inferType? s (v.stop - v.start + 1) v else none
      w.declare (.var type) s name)
    s

/-- Walks through a node; `fuel` bounds the nesting. -/
def walk : (fuel : Nat) → ScopeState → Tree → ScopeState
  | 0, s, _ => s
  | fuel + 1, s, node =>
    let all := fun (s : ScopeState) (nodes : List Tree) => nodes.foldl (walk fuel) s
    let part := fun (s : ScopeState) (f : Field) =>
      match node.child? f with
      | some child => walk fuel s child
      | none => s
    let inFunction := ! s.scopes.isEmpty
    match node.kind with
    | .functionDeclaration | .methodDeclaration | .funcLiteral =>
      -- Receiver, parameters and named results share the scope of the body.
      s.inScope fun s =>
        let s := ((node.child? .receiver).map (w.declareParameters s)).getD s
        let s := ((node.child? .parameters).map (w.declareParameters s)).getD s
        let s :=
          match node.child? .result with
          | some result => if result.kind = .parameterList then w.declareParameters s result else s
          | none => s
        match node.child? .body with
        | some body => all s body.namedChildren
        | none => s
    | .block | .ifStatement | .forStatement | .expressionSwitchStatement | .selectStatement
    | .expressionCase | .defaultCase | .typeCase | .communicationCase =>
      s.inScope fun s => all s node.namedChildren
    | .typeSwitchStatement =>
      s.inScope fun s =>
        let s := part (part s .initializer) .value
        -- The bound name has a type of its own in every clause, so none is known here.
        let names := (node.childrenIn .binding).flatMap fun a =>
          if a.namedChildren.isEmpty then [a] else a.namedChildren
        let s := names.foldl (w.declare (.var none)) s
        all s (node.namedChildren.filter fun c => c.kind = .typeCase || c.kind = .defaultCase)
    | .shortVarDeclaration =>
      -- The values are read before the names on the left come into scope.
      let s := part s .right
      let values := ((node.child? .right).map Tree.namedChildren).getD []
      match node.child? .left with
      | some left => w.declarePairs s left.namedChildren values
      | none => s
    | .rangeClause =>
      let s := part s .right
      match node.child? .left with
      | some left =>
        -- With a plain equals sign the left side assigns to what is in scope.
        if node.children.any (·.kind = .symbol ":=") then
          left.namedChildren.foldl (w.declare (.var none)) s
        else walk fuel s left
      | none => s
    -- The field name belongs to the operand's type, not to a scope.
    | .selectorExpression => part s .operand
    | .keyedElement =>
      match node.namedChildren with
      | [] => s
      | key :: rest =>
        -- A key that is a name is taken for a field.
        if key.literalInner.kind = .identifier then all s rest else all s (key :: rest)
    | .identifier =>
      match w.lookup? s (w.file.text node) with
      | some object => s.record node.start object
      | none => s
    | .packageIdentifier =>
      match w.imports.find? (·.localName = w.file.text node) with
      | some i => s.record node.start (.package i.path)
      | none => s
    | .comment | .importDeclaration | .packageClause => s
    | .varSpec =>
      -- Outside functions the names are those of the package, which are known already.
      if inFunction then
        let type := (node.child? .type).map w.resolve
        (node.childrenIn .name).foldl (w.declare (.var type)) (part s .value)
      else all s node.namedChildren
    | .constSpec =>
      if inFunction then (node.childrenIn .name).foldl (w.declare .const) (part s .value)
      else all s node.namedChildren
    | .typeSpec | .typeAlias =>
      if inFunction then
        match node.child? .name with
        | some name => w.declare (.type w.package.importPath (w.file.text name)) s name
        | none => s
      else all s node.namedChildren
    | _ => all s node.namedChildren

/-- What the identifiers of the file stand for. -/
def run : ScopeState :=
  w.walk (w.file.tree.preorder.length + 1) .start w.file.tree

end ScopeWalk

end Interlace
