import Interlace.Syntax.Walk
import Interlace.Weave.Applying
import Interlace.Weave.Imports
import Interlace.Weave.Margin
import Interlace.Weave.Positions

/-!
# Weaving a file

Walks through a checked file, applies the advice of every aspect wherever its join point holds,
reconciles the imports and renders the result.
-/

namespace Interlace

open Syntax

/-- The result of weaving a file. -/
structure WovenFile where
  /-- The new text, if anything changed. -/
  text : Option Text
  references : ReferenceMap
  version : Option Version

/-- The failure of an advice. -/
structure AdviceFailure where
  aspect : Text
  index : Nat
  fault : AdviceFault

namespace Weave

/-- A draft, and how many advices have done something. -/
abbrev Progress := Draft × Nat

/-- A marker asks to leave the node and everything below it alone. A file starts where its first
declaration does, so the root does not count. -/
def isIgnored (file : SourceFile) (node : Tree) : Bool :=
  node.kind ≠ .sourceFile && file.decorations.hasLeading node .ignore

/-- A marker says that the statement around the place is instrumented. -/
def isInstrumented (file : SourceFile) (site : Site) : Bool :=
  site.enclosingStatement?.any fun statement =>
    file.decorations.hasLeading statement .instrumented

/-- Applies advices in order. -/
def applyAll (s : Scene) (site : Site) (aspect : Text) :
    (index : Nat) → List Advice → Progress → Except AdviceFailure Progress
  | _, [], p => .ok p
  | index, a :: advice, (d, applied) =>
    match a.apply s site d with
    | .error fault => .error ⟨aspect, index, fault⟩
    | .ok (changed, d) =>
      applyAll s site aspect (index + 1) advice (d, if changed then applied + 1 else applied)

/-- Applies the advice of every aspect that matches at a place. -/
def applyAt (s : Scene) (site : Site) (aspects : List Aspect) (p : Progress) :
    Except AdviceFailure Progress :=
  aspects.foldlM
    (fun p aspect =>
      if aspect.joinPoint.holdsAt s site then applyAll s site aspect.id 0 aspect.advice p
      else .ok p)
    p

/-- The walk that applies advice, children before parents. -/
def walk (s : Scene) (aspects : List Aspect) : Walk Progress AdviceFailure where
  enter p site := (if isIgnored s.file site.node then .prune else .descend, p)
  leave p site :=
    if ! site.node.isNamed || isInstrumented s.file site then .ok p
    else
      match applyAt s site aspects p with
      | .ok p => .ok p
      | .error failure => .error (failure, p)

/-- The name under which import reconciliation fails. -/
def reconciler : Text := "import-reconciler"

/-- The name under which rendering fails. -/
def annotator : Text := "position-annotator"

/-- The failure of an advice in a file. -/
def failed (file : SourceFile) (aspect : Text) (index : Nat) (fault : AdviceFault) : Failure :=
  .advice file.path aspect index fault

/-- The text of an edited file, with `//line` directives if asked for. -/
def render (file : SourceFile) (lines : Bool) (b : Buffer) : Except AdviceFault Text :=
  if lines then Positions.annotate file b
  else
    match b.render with
    | .ok rendered => .ok rendered.text
    | .error fault => .error (.edit fault)

/-- Weaves a file. -/
def file (s : Scene) (aspects : List Aspect) (importer : Importer) (lines : Bool) :
    Importing WovenFile := do
  match (walk s aspects).run (.ofSource s.file.source, 0) s.file.tree with
  | .error (failure, _) => throw (failed s.file failure.aspect failure.index failure.fault)
  | .ok (d, applied) =>
    let buffer ←
      if 0 < applied || ! d.references.isEmpty then
        match ← Imports.reconcile importer s.file d.references d.buffer with
        | .ok b => pure b
        | .error fault => throw (failed s.file reconciler 0 fault)
      else pure d.buffer
    if buffer.isEmpty then return ⟨none, d.references, d.version⟩
    else
      match render s.file lines buffer with
      | .ok text => return ⟨some (atMargin text), d.references, d.version⟩
      | .error fault => throw (failed s.file annotator 0 fault)

end Weave

end Interlace
