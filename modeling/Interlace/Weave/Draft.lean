import Interlace.Edit.Buffer
import Interlace.Weave.Matching
import Interlace.Weave.References

/-!
# Drafts

What weaving a file has collected so far: the edits, the packages that added code refers to and
their names in this file, and the language version that added code needs.

Added code stands between markers, so that it can be told apart and taken out again.
-/

namespace Interlace

open Syntax

/-- The state of weaving a file. -/
structure Draft where
  buffer : Buffer
  references : ReferenceMap
  version : Option Version
  /-- The statements that were given wrap markers, by their offsets. -/
  wrapped : List Nat
  /-- The names that added code uses for packages, by import path. -/
  names : Dict Text

namespace Draft

/-- Nothing collected. -/
def ofSource (source : Text) : Draft :=
  ⟨.ofSource source, .empty, none, [], .empty⟩

/-- Inserts text. -/
def insert (d : Draft) (offset : Nat) (text : Text) (bias : Bias) : Draft :=
  { d with buffer := d.buffer.insert offset text bias }

/-- Refers to a package by a name. -/
def addImport (d : Draft) (path wanted : Text) : Draft :=
  { d with references := d.references.addImport path wanted }

/-- The draft needs a language version. -/
def needVersion (d : Draft) : Option Version → Draft
  | some v => { d with version := Version.raise d.version v }
  | none => d

/-! ## Names of packages -/

/-- The `attempt`-th name to try for a package. -/
def candidate (wanted : Text) : (attempt : Nat) → Text
  | 0 => wanted
  | 1 => "__" ++ wanted
  | attempt => "__" ++ wanted ++ Text.ofNat attempt

/-- A name means something else in the file than the package. -/
def isTaken (d : Draft) (s : Scene) (path name : Text) : Bool :=
  s.types.binds s.index name path
    || d.names.entries.any fun (other, bound) => bound = name && other ≠ path

/-- The first name from an attempt on that is not taken; `fuel` bounds the attempts. -/
def freeName (taken : Text → Bool) (wanted : Text) : (fuel attempt : Nat) → Text
  | 0, attempt => candidate wanted attempt
  | fuel + 1, attempt =>
    let name := candidate wanted attempt
    if taken name then freeName taken wanted fuel (attempt + 1) else name

/-- A bound on how many names are taken. -/
def nameCount (d : Draft) (s : Scene) : Nat :=
  let file := s.types.file? s.index
  s.types.declarations.size + ((file.map fun f => f.locals.size + f.imports.length).getD 0)
    + d.names.size

/-- The name of a package in added code: the given one unless it is taken, and the same for all
code in the file. -/
def bind (d : Draft) (s : Scene) (path wanted : Text) : Text × Draft :=
  if wanted = blankName || wanted = dotName then (wanted, d)
  else
    match d.names.get? path with
    -- A path keeps the name it got first.
    | some bound => (bound, d)
    | none =>
      let name := freeName (d.isTaken s path) wanted (d.nameCount s + 1) 0
      (name, { d with names := d.names.insert path name })

/-- Renames the qualifiers of a template's code to the names of the packages in the file. -/
def localize (d : Draft) (s : Scene) (t : Template) (text : Text) : Text × Draft :=
  t.imports.entries.foldl
    (fun (state : Text × Draft) (wanted, path) =>
      let (bound, d) := state.2.bind s path wanted
      (Qualifier.rename state.1 wanted bound, d))
    (text, d)

/-- Records what a template needs. -/
def useTemplate (d : Draft) (s : Scene) (t : Template) : Draft :=
  (t.imports.entries.foldl
    (fun (d : Draft) (wanted, path) =>
      let (bound, d) := d.bind s path wanted
      d.addImport path bound)
    d).needVersion t.version

/-! ## Markers -/

/-- Puts wrap markers around a statement, once. They stand on lines of their own where the
statement has its lines for itself. -/
def wrapStatement (d : Draft) (s : Scene) (statement : Tree) : Draft :=
  if statement.start ∈ d.wrapped then d
  else
    let source := s.file.source
    let start := statement.start
    let stop := statement.stop
    let indent := source.lineIndent start
    let d := { d with wrapped := statement.start :: d.wrapped }
    let d :=
      if source.isFirstOnLine start then
        d.insert (source.lineStart start) (indent ++ Marker.startWrap.comment ++ "\n") .right
      else d.insert start (Marker.startWrap.comment ++ "\n" ++ indent) .right
    -- A comment behind the statement stays on its line: the marker goes on the next one.
    if source.restIsTrivia stop then
      d.insert (source.lineEnd stop) ("\n" ++ indent ++ Marker.endWrap.comment) .left
    else d.insert stop (" " ++ Marker.endWrap.comment ++ "\n") .left

/-- Indents the lines of a text that are not blank. -/
def indentLines (indent text : Text) : Text :=
  (Text.lines text).flatMap fun line =>
    if Text.trim line = [] then [Text.newline] else indent ++ line ++ "\n"

/-- Puts statements at the start of a function's body, between instrument markers. -/
def prependToBody (d : Draft) (s : Scene) (body : Tree) (statements : Text) :
    Except AdviceFault Draft :=
  match body.childOf? (.symbol "\x7b") with
  | none => .error .noBrace
  | some brace =>
    let source := s.file.source
    let indent := source.lineIndent body.start ++ "\t"
    let block := Marker.startInstrument.comment ++ "\n" ++ indentLines indent statements
      ++ indent ++ Marker.endInstrument.comment ++ "\n"
    let lineEnd := source.lineEnd brace.stop
    -- A body that starts on the line of its brace gets the block on that line.
    if source.restIsTrivia brace.stop && lineEnd < source.length then
      .ok (d.insert (lineEnd + 1) (indent ++ block) .left)
    else .ok (d.insert brace.stop (" " ++ block) .left)

end Draft

namespace Scene

/-- An earlier run put wrap markers around the statement. -/
def wasWrapped (s : Scene) (statement : Tree) : Bool :=
  s.file.decorations.hasLeading statement .startWrap
    && s.file.decorations.hasTrailing statement .endWrap

/-- An earlier run put statements at the start of the body. -/
def wasInstrumented (s : Scene) (body : Tree) : Bool :=
  body.significant.head?.any fun first =>
    s.file.decorations.hasLeading first .startInstrument

end Scene

end Interlace
