import Interlace.Aspect.Builtin
import Interlace.Text.Quoted
import Interlace.Weave.Draft

/-!
# Applying advice

What each advice does to a draft at a place where its join point holds. Statements that carry
wrap markers and bodies that start with an instrument block were woven before and are left
alone, so weaving twice changes nothing more.
-/

namespace Interlace

open Syntax

/-- The result of applying an advice: whether it did anything, and the new draft. -/
abbrev Applied := Except AdviceFault (Bool × Draft)

namespace Scene

/-- The name of the declared function at or around a place. -/
def functionName (s : Scene) (site : Site) : Text :=
  let isDeclared := fun (t : Tree) =>
    decide (t.kind = .functionDeclaration ∨ t.kind = .methodDeclaration)
  match ((site.node :: site.ancestors).find? isDeclared).bind (·.child? .name) with
  | some name => s.text name
  | none => "func"

/-- What placeholders stand for at a place. -/
def values (s : Scene) (site : Site) (hole : Option Text) : Template.Values :=
  ⟨hole, Dict.ofList [("FuncName", s.functionName site), ("PackageName", s.file.packageName),
    ("ImportPath", s.package.importPath)]⟩

/-- The code of a template at a place. -/
def render (s : Scene) (site : Site) (t : Template) (hole : Option Text) :
    Except AdviceFault Text :=
  match t.render (s.values site hole) with
  | .ok text => .ok text
  | .error placeholder => .error (.noValue placeholder)

/-- The statement around a place. -/
def statement (site : Site) : Except AdviceFault Tree :=
  match site.enclosingStatement? with
  | some t => .ok t
  | none => .error (.noStatement site.node.kind.name)

/-- The fault of an advice at a node it cannot change. -/
def wrongNode {α : Type} (advice : Text) (node : Tree) : Except AdviceFault α :=
  .error (.wrongNode advice node.kind.name)

end Scene

namespace Draft

/-- A byte that stands for the hole while a template is rendered. -/
def holeMark : Text := [1]

/-- Puts a template around a node. -/
def wrapNode (d : Draft) (s : Scene) (site : Site) (target : Tree) (t : Template) :
    Except AdviceFault Draft := do
  if ! t.hasHole then throw (.noHole t.text)
  let rendered ← s.render site t (some holeMark)
  -- The template is rendered once and then cut where the hole was.
  match Text.splitOnce? holeMark rendered with
  | none => throw .holeLost
  | some (before, after) =>
    if Text.contains after holeMark then throw .manyHoles
    let (before, d) := d.localize s t before
    let (after, d) := d.localize s t after
    -- The two halves hug the node: markers of its statement stay outside.
    return (d.insert target.start before .right).insert target.stop after .left

/-- Changes a statement, unless an earlier run did, and puts wrap markers around it. -/
def inStatement (d : Draft) (s : Scene) (site : Site) (change : Draft → Except AdviceFault Draft) :
    Applied := do
  let statement ← Scene.statement site
  if s.wasWrapped statement then return (false, d)
  else
    let d ← change d
    return (true, d.wrapStatement s statement)

/-- Wraps an argument of a call. -/
def wrapCallArgument (d : Draft) (s : Scene) (site : Site) (index : Nat) (t : Template) :
    Applied :=
  if site.node.kind ≠ .callExpression then Scene.wrongNode "wrap-call-argument" site.node
  else
    d.inStatement s site fun d => do
      let arguments := ((site.node.child? .arguments).map Tree.significant).getD []
      match arguments[index]? with
      | none => throw (.noArgument arguments.length index)
      | some argument => return (← d.wrapNode s site argument t).useTemplate s t

/-- Wraps the value of a keyed field or of a declaration. -/
def wrapExpression (d : Draft) (s : Scene) (site : Site) (t : Template) : Applied := do
  let node := site.node
  let target ←
    match node.kind with
    | .keyedElement => pure (node.significant[1]?.map Tree.literalInner)
    | .varSpec | .shortVarDeclaration => pure node.singleValue?
    | _ => Scene.wrongNode "wrap-expression" node
  match target with
  | none => throw (.noSingleValue node.kind.name)
  | some target =>
    d.inStatement s site fun d => return (← d.wrapNode s site target t).useTemplate s t

/-- Gives a variable a value. -/
def giveValue (d : Draft) (s : Scene) (site : Site) (t : Template) : Applied :=
  let node := site.node
  if node.kind ≠ .varSpec then Scene.wrongNode "assign-value" node
  else
    d.inStatement s site fun d => do
      if (node.child? .value).isSome then throw (.initialized (s.text node))
      let value ← s.render site t none
      let (value, d) := d.localize s t value
      return (d.insert node.stop (" = " ++ value) .left).useTemplate s t

/-- Wraps a declared value, or gives a variable one. -/
def assignValue (d : Draft) (s : Scene) (site : Site) (t : Template) : Applied :=
  if t.hasHole then d.wrapExpression s site t else d.giveValue s site t

/-- Changes the body of a function, unless there is none or an earlier run changed it. -/
def inBody (d : Draft) (s : Scene) (advice : Text) (node : Tree)
    (change : Tree → Except AdviceFault Draft) : Applied :=
  if ! node.kind.isFunction then Scene.wrongNode advice node
  else
    match node.child? .body with
    | none => .ok (false, d)
    | some body => if s.wasInstrumented body then .ok (false, d) else (change body).map (true, ·)

/-- Puts statements at the start of a function. -/
def prependStatements (d : Draft) (s : Scene) (site : Site) (t : Template) : Applied :=
  d.inBody s "prepend-statements" site.node fun body => do
    let statements ← s.render site t none
    let (statements, d) := d.localize s t statements
    return (← d.prependToBody s body statements).useTemplate s t

/-- The named parameters of a function with their types. -/
def namedParameters (s : Scene) (function : Tree) : List (Text × TypeRef) :=
  let declarations := ((function.child? .parameters).map Tree.significant).getD []
  (declarations.filter (·.kind = .parameterDeclaration)).flatMap fun declaration =>
    match declaration.child? .type with
    | none => []
    | some node =>
      let type := s.resolve node
      let names := ((declaration.childrenIn .name).map s.text).filter (· ≠ blankName)
      names.map fun name => (name, type)

/-- The type of contexts. -/
def contextType : TypeRef := .named "context" "Context"

/-- The type of requests. -/
def requestType : TypeRef := .pointer (.named "net/http" "Request")

/-- The tags of a span: the function's name, those of the directive before the function, and
further ones. -/
def spanTags (s : Scene) (site : Site) (tags : Dict Text) : Text :=
  let directive := s.file.decorations.leadingDirective? site.node spanDirective
  let pairs : List (Text × Text) := ("function-name", s.functionName site)
    :: ((directive.map Directive.keyValues).getD [] ++ tags.entries)
  Text.join ", " (pairs.flatMap fun (key, value) => [Text.quote key, Text.quote value])

/-- Reports a span of a function. The context is the function's own if it has one, that of its
request, or a new one. -/
def spanStatements (d : Draft) (s : Scene) (site : Site) (tool tags : Text) : Text × Draft :=
  let parameters := namedParameters s site.node
  let ofType := fun (type : TypeRef) => (parameters.find? (·.2 = type)).map Prod.fst
  let report := fun (context event : Text) =>
    tool ++ ".Report(" ++ context ++ ", " ++ tool ++ "." ++ event ++ ", " ++ tags ++ ")"
  match ofType contextType, ofType requestType with
  | some name, _ =>
    (name ++ " = " ++ report name "EventStart" ++ "\ndefer " ++ report name "EventEnd", d)
  | none, some name =>
    (name ++ " = " ++ name ++ ".WithContext(" ++ report (name ++ ".Context()") "EventStart"
      ++ ")\ndefer " ++ report (name ++ ".Context()") "EventEnd", d)
  | none, none =>
    let (context, d) := d.bind s "context" "context"
    ("__toolCtx := " ++ report (context ++ ".Background()") "EventStart" ++ "\ndefer "
      ++ report "__toolCtx" "EventEnd", d.addImport "context" context)

/-- Reports the execution of a function as a span. -/
def reportSpan (d : Draft) (s : Scene) (site : Site) (tags : Dict Text) : Applied :=
  d.inBody s "report-span" site.node fun body => do
    let (tool, d) := d.bind s toolPath toolAlias
    let (statements, d) := d.spanStatements s site tool (spanTags s site tags)
    return (← d.prependToBody s body statements).addImport toolPath tool

/-- Calls the function of the same name in another package. The old package stays in use. -/
def replaceCallTarget (d : Draft) (s : Scene) (site : Site) (source target wanted : Text) :
    Applied := do
  let node := site.node
  if node.kind ≠ .callExpression then Scene.wrongNode "replace-call-target" node
  else
    match (node.child? .function).filter (·.kind = .selectorExpression) with
    | none => throw .unqualified
    | some function =>
      match function.child? .operand, function.child? .field with
      | some operand, some field =>
        let qualifier := s.text operand
        if s.objectAt? operand ≠ some (.package source) then
          throw (.otherPackage qualifier source)
        else
          d.inStatement s site fun d =>
            let (bound, d) := d.bind s target wanted
            let d := { d with buffer := d.buffer.replace operand.start operand.stop bound }
            let d := d.addImport target bound
            .ok { d with references := d.references.keep (qualifier ++ "." ++ s.text field) }
      | _, _ => throw .malformedSelector

/-- Adds declarations at the end of a file, unless the file holds their text. -/
def injectDeclarations (d : Draft) (s : Scene) (site : Site) (t : Template)
    (links : List Text) : Applied := do
  if site.node.kind ≠ .sourceFile then Scene.wrongNode "inject-declarations" site.node
  else
    let rendered ← s.render site t none
    let (rendered, d) := d.localize s t rendered
    let source := s.file.source
    -- A second run finds what the first one added.
    if Text.contains source (Text.trim rendered) then return (false, d)
    else
      let separator : Text :=
        if source.isEmpty || Text.endsWith source "\n" then [] else [Text.newline]
      let block := separator ++ Marker.startInstrument.comment ++ "\n" ++ Text.trimEnd rendered
        ++ "\n" ++ Marker.endInstrument.comment ++ "\n"
      let d := d.insert source.length block .left
      let references := links.foldl ReferenceMap.addRelocation d.references
      return (true, { d with references := references }.useTemplate s t)

end Draft

/-- Applies an advice at a place. -/
def Advice.apply (s : Scene) (site : Site) (d : Draft) : Advice → Applied
  | wrapCallArgument index template => d.wrapCallArgument s site index template
  | wrapExpression template => d.wrapExpression s site template
  | assignValue template => d.assignValue s site template
  | prependStatements template => d.prependStatements s site template
  | reportSpan tags => d.reportSpan s site tags
  | addBlankImport path => .ok (true, d.addImport path blankName)
  | replaceCallTarget source target wanted => d.replaceCallTarget s site source target wanted
  | injectDeclarations template links => d.injectDeclarations s site template links

end Interlace
