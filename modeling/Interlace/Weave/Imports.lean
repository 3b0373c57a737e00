import Interlace.Text.Quoted
import Interlace.Typing.Check
import Interlace.Weave.References

/-!
# Reconciling imports

After all advice has been applied to a file, imports that occur twice are removed, and the
imports that added code needs are added in one block behind the last import.
-/

namespace Interlace

open Syntax

/-- An import of a file, with the nodes it comes from. -/
structure ExistingImport where
  spec : Tree
  declaration : Tree
  path : Text
  givenName : Option Text
  localName : Text

namespace ExistingImport

/-- Path and local name. -/
def pair (e : ExistingImport) : Text × Text :=
  (e.path, e.localName)

/-- The imports of a file in source order. -/
def ofFile (importer : Importer) (file : SourceFile) : Importing (List ExistingImport) :=
  let specs := (file.tree.childrenOf .importDeclaration).flatMap fun declaration =>
    declaration.importSpecs.filterMap fun spec =>
      (Check.specParts? file spec).map fun parts => (declaration, spec, parts)
  specs.mapM fun (declaration, spec, path, givenName) => do
    let localName ←
      match givenName with
      | some name => pure name
      | none => importer.packageName path
    return ⟨spec, declaration, path, givenName, localName⟩

/-- Of imports with one path and local name, the first that spells the name is kept, or the
first. The rest are given back. -/
def surplus (group : List ExistingImport) : List ExistingImport :=
  let kept := (group.findIdx? (·.givenName.isSome)).getD 0
  (group.zipIdx.filter fun (_, i) => i ≠ kept).map Prod.fst

/-- The imports that repeat others. -/
def repeated (existing : List ExistingImport) : List ExistingImport :=
  (distinct (existing.map pair)).flatMap fun p => surplus (existing.filter (·.pair = p))

end ExistingImport

namespace Imports

/-- Removes a node, with its line if it has it for itself. -/
def deleteNode (source : Text) (b : Buffer) (node : Tree) : Buffer :=
  if source.isFirstOnLine node.start && source.restIsTrivia node.stop then
    b.delete (source.lineStart node.start) (min (source.lineEnd node.stop + 1) source.length)
  else b.delete node.start node.stop

/-- Removes repeated imports. Declarations that are left without any are removed as a whole. -/
def collapse (file : SourceFile) (existing : List ExistingImport) (b : Buffer) : Buffer :=
  let repeated := ExistingImport.repeated existing
  (file.tree.childrenOf .importDeclaration).foldl
    (fun b declaration =>
      let doomed := repeated.filter (·.declaration.start = declaration.start)
      -- This removes declarations that were empty from the start, too.
      if declaration.importSpecs.length = doomed.length then
        deleteNode file.source b declaration
      else doomed.foldl (fun b e => deleteNode file.source b e.spec) b)
    b

/-- The requested imports; one without a name is dropped if the path is also requested by
name. -/
def requests (references : ReferenceMap) : List (Text × Text) :=
  let all := references.imports
  all.filter fun (path, wanted) =>
    wanted ≠ blankName || ! all.any fun (other, name) => other = path && name ≠ blankName

/-- The file imports the path, by the requested name if there is one. -/
def isSatisfied (existing : List ExistingImport) (path wanted : Text) : Bool :=
  existing.any fun e => e.path = path && (wanted = blankName || e.localName = wanted)

/-- The import of another path that has the requested name. -/
def clash? (existing : List ExistingImport) (path wanted : Text) : Option ExistingImport :=
  if wanted = blankName then none
  else existing.find? fun e => e.localName = wanted && e.path ≠ path

/-- The line of an import; the name is left out if the package declares it. -/
def specLine (path wanted : Text) (declared : Option Text) : Text :=
  if declared = some wanted then Text.quote path else wanted ++ " " ++ Text.quote path

/-- The lines of the imports to add, or why one cannot be added. -/
def missing (importer : Importer) (existing : List ExistingImport) :
    List (Text × Text) → Importing (Except AdviceFault (List Text))
  | [] => return .ok []
  | (path, wanted) :: rest => do
    if isSatisfied existing path wanted then missing importer existing rest
    else
      match clash? existing path wanted with
      | some holder => return .error (.nameTaken path wanted holder.path)
      | none =>
        -- Asked for only now: a path that is imported already is never looked up.
        let info ← importer.import? path
        let line := specLine path wanted (info.bind ArchiveInfo.packageName)
        return (← missing importer existing rest).map (line :: ·)

/-- A line of the import block. -/
def importLine (line : Text) : Text :=
  "\t" ++ line ++ "\n"

/-- A declaration that keeps an expression in use. -/
def keepAliveLine (expression : Text) : Text :=
  "var _ = " ++ expression ++ "\n"

/-- The import declaration of some lines, if there are any. -/
def declaration (lines : List Text) : Text :=
  if lines.isEmpty then [] else ("import (\n" : Text) ++ lines.flatMap importLine ++ ")\n"

/-- The block of imports and kept expressions. -/
def block (lines keepAlive : List Text) : Text :=
  Marker.startInstrument.comment ++ "\n" ++ declaration lines
    ++ keepAlive.flatMap keepAliveLine ++ Marker.endInstrument.comment ++ "\n"

/-- The node behind which imports are added. -/
def anchor? (root : Tree) : Option Tree :=
  (root.childrenOf .importDeclaration).getLast?.or (root.childOf? .packageClause)

/-- Inserts a block behind the line of the anchor. -/
def insertBlock (source : Text) (anchor : Tree) (block : Text) (b : Buffer) : Buffer :=
  let lineEnd := source.lineEnd anchor.stop
  -- The file ends with the anchor's line, so the line break is added first.
  if source.length ≤ lineEnd then b.insert source.length ("\n" ++ block) .left
  else b.insert (lineEnd + 1) block .left

/-- Reconciles the imports of a file. -/
def reconcile (importer : Importer) (file : SourceFile) (references : ReferenceMap)
    (b : Buffer) : Importing (Except AdviceFault Buffer) := do
  let existing ← ExistingImport.ofFile importer file
  let b := collapse file existing b
  match ← missing importer existing (requests references) with
  | .error fault => return .error fault
  | .ok lines =>
    let keepAlive := references.keepAlive.toList
    if lines.isEmpty && keepAlive.isEmpty then return .ok b
    else
      match anchor? file.tree with
      | none => return .error .noPackageClause
      | some anchor => return .ok (insertBlock file.source anchor (block lines keepAlive) b)

end Imports

end Interlace
