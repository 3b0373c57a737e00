import Interlace.Aspect.Basic
import Interlace.Edit.Splice
import Interlace.Typing.Check
import Interlace.Weave.Matching

/-!
# Removing woven code

Takes everything that weaving added out of a text. Blocks between instrument markers are removed
as they are. Inside a statement between wrap markers every advice is taken back where it may
have been applied: one application of a template is taken off each value it matches, calls get
their old target back, and added values are dropped. Then the markers go. All else is left as
it is written.
-/

namespace Interlace

open Syntax

/-- A range of a text, the end not included. -/
structure Range where
  start : Nat
  stop : Nat
  deriving DecidableEq, Repr

namespace Range

/-- The range of a node. -/
def ofTree (t : Tree) : Range := ⟨t.start, t.stop⟩

/-- The range holds nothing. -/
def isEmpty (r : Range) : Bool :=
  r.stop ≤ r.start

/-- Two ranges have a part in common. -/
def overlaps (a b : Range) : Bool :=
  a.start < b.stop && b.start < a.stop

/-- A node lies within the range. -/
def holds (r : Range) (t : Tree) : Bool :=
  r.start ≤ t.start && t.stop ≤ r.stop

/-- The removal of the range. -/
def removal (r : Range) : Splice := ⟨r.start, r.stop, []⟩

end Range

namespace Removal

/-! ## Markers -/

/-- Start and end markers of a kind, each end with the nearest start that is still open. -/
def pairs (opening closing : Marker) : (stack : List Trivia) → List Trivia →
    List (Trivia × Trivia)
  | _, [] => []
  | stack, t :: rest =>
    if t.marker = some opening then pairs opening closing (t :: stack) rest
    else if t.marker = some closing then
      match stack with
      | start :: stack => (start, t) :: pairs opening closing stack rest
      | [] => pairs opening closing [] rest
    else pairs opening closing stack rest

/-- The pairs of markers of a kind in a file. -/
def pairMarkers (file : SourceFile) (opening : Marker) : List (Trivia × Trivia) :=
  match opening.partner? with
  | some closing => pairs opening closing [] file.decorations.markers
  | none => []

/-- The offset behind the line break of a line. -/
def afterLine (source : Text) (offset : Nat) : Nat :=
  min (source.lineEnd offset + 1) source.length

/-- The offset of a comment, or of the space before it. -/
def withSpace (source : Text) (start : Nat) : Nat :=
  if Text.endsWith (source.take start) " " then start - 1 else start

/-- What is removed for a block of added lines. -/
def blockRange (source : Text) (opening closing : Trivia) : Range :=
  -- A block that follows code on its line takes the space before it along.
  ⟨if opening.ownLine then source.lineStart opening.start else withSpace source opening.start,
    afterLine source closing.stop⟩

/-- What is removed for a start marker of a statement. -/
def openingRange (source : Text) (t : Trivia) : Range :=
  if t.ownLine then ⟨source.lineStart t.start, afterLine source t.stop⟩
  else ⟨t.start, source.skipBlanks (afterLine source t.stop)⟩

/-- What is removed for an end marker of a statement. -/
def closingRange (source : Text) (t : Trivia) : Range :=
  -- The line break before the marker was added with it.
  if t.ownLine then ⟨source.lineStart t.start - 1, t.stop⟩
  else
    ⟨withSpace source t.start,
      if Text.startsWith (source.drop t.stop) "\n" then t.stop + 1 else t.stop⟩

/-! ## Names of packages -/

/-- The named imports inside added blocks: local names by import path. -/
def addedImports (file : SourceFile) (blocks : List Range) : Dict Text :=
  let declarations := (file.tree.childrenOf .importDeclaration).filter fun d =>
    blocks.any fun b => b.start ≤ d.start && d.start < b.stop
  Dict.ofList ((declarations.flatMap Tree.importSpecs).filterMap fun spec =>
    match Check.specParts? file spec with
    | some (path, some name) => some (path, name)
    | _ => none)

/-- Both dictionaries; for a key of both, the first counts. -/
def merged (known found : Dict Text) : Dict Text :=
  found.entries.foldl (fun d (path, name) => d.alter path (·.getD name)) known

/-- The name that weaving gave a package in the file. -/
def nameOf (added : Dict Text) (path wanted : Text) : Text :=
  (added.get? path).getD wanted

/-- The shape that a template leaves in the file. -/
def pattern? (added : Dict Text) (t : Template) : Option WrapPattern :=
  t.wrapPattern?.map fun p =>
    t.imports.entries.foldl
      (fun p (wanted, path) => p.requalify wanted (nameOf added path wanted)) p

/-- The text that a template without placeholders leaves in the file. -/
def literal? (added : Dict Text) (t : Template) : Option Text :=
  t.literal?.map fun text =>
    t.imports.entries.foldl
      (fun text (wanted, path) => Qualifier.rename text wanted (nameOf added path wanted)) text

/-- The name that a file imports a path by. -/
def importedName? (file : SourceFile) (path : Text) : Option Text :=
  (Check.importSpecs file).findSome? fun spec =>
    match Check.specParts? file spec with
    | some (p, name) =>
      if p = path then some (name.getD (PackageName.guess path)) else none
    | none => none

/-! ## Taking advice back -/

/-- A place where a wrapping advice may have been applied. -/
structure Wrapped where
  node : Tree
  site : WrapSite

/-- Places by start; of those, the longer first. -/
def Wrapped.before (a b : Wrapped) : Bool :=
  a.node.start < b.node.start || (a.node.start = b.node.start && b.node.stop ≤ a.node.stop)

/-- A node lies within a marked statement. -/
def isInside (statements : List Range) (t : Tree) : Bool :=
  statements.any (·.holds t)

/-- The calls in marked statements. -/
def calls (file : SourceFile) (statements : List Range) : List Tree :=
  (file.tree.ofKind .callExpression).filter (isInside statements)

/-- The places in marked statements where wrapping advice may have been applied, outer ones
first. -/
def wrapSites (file : SourceFile) (statements : List Range) : List Wrapped :=
  let arguments := (calls file statements).flatMap fun call =>
    (((call.child? .arguments).map Tree.significant).getD []).zipIdx.map fun (a, i) =>
      (⟨a, .callArgument i⟩ : Wrapped)
  let elements := (file.tree.ofKind .keyedElement).filterMap fun e =>
    e.significant[1]?.map fun v => (⟨v.literalInner, .value⟩ : Wrapped)
  let declared := (file.tree.ofKind .varSpec ++ file.tree.ofKind .shortVarDeclaration).filterMap
    fun d => d.singleValue?.map fun v => (⟨v, .value⟩ : Wrapped)
  sortBy Wrapped.before
    ((arguments ++ elements ++ declared).filter fun w => isInside statements w.node)

/-- Takes patterns off a range, each at most once, the first that matches first; `fuel` bounds
how many. -/
def peel (source : Text) : (fuel : Nat) → List WrapPattern → Range → Range
  | 0, _, window => window
  | fuel + 1, patterns, window =>
    let text := source.slice window.start window.stop
    let found := patterns.zipIdx.findSome? fun (p, i) => (p.hole? text).map fun hole => (i, hole)
    match found with
    | none => window
    | some (i, hole) =>
      peel source fuel (patterns.eraseIdx i) ⟨window.start + hole.1, window.start + hole.2⟩

/-- What is removed to take wrappings off; inside text that is removed nothing more is looked
for. -/
def unwrap (source : Text) (patterns : List (WrapSite × WrapPattern)) (sites : List Wrapped) :
    List Range :=
  sites.foldl
    (fun removed w =>
      let range := Range.ofTree w.node
      if removed.any (·.overlaps range) then removed
      else
        let here := (patterns.filter (·.1 = w.site)).map Prod.snd
        let window := peel source here.length here range
        -- Nothing was peeled off.
        if window = range then removed
        else removed ++ [⟨range.start, window.start⟩, ⟨window.stop, range.stop⟩])
    []

/-- The operand of a call through a qualifier. -/
def callOperand? (call : Tree) : Option Tree :=
  ((call.child? .function).filter (·.kind = .selectorExpression)).bind (·.child? .operand)

/-- Gives calls their old target back, except where something is removed or given back
already. -/
def retarget (file : SourceFile) (calls : List Tree) (removed : List Range) (bound old : Text)
    (edits : List Splice) : List Splice :=
  calls.foldl
    (fun edits call =>
      match callOperand? call with
      | none => edits
      | some operand =>
        let range := Range.ofTree operand
        let taken := removed.any (·.overlaps range)
          || edits.any fun e => e.start = range.start && e.stop = range.stop
        if file.text operand = bound && ! taken then
          edits ++ [⟨range.start, range.stop, old⟩]
        else edits)
    edits

/-- The end of the child before the equals sign. -/
def declaredEnd? : List Tree → Option Nat
  | before :: t :: rest =>
    if t.kind = .symbol "=" then some before.stop else declaredEnd? (t :: rest)
  | _ => none

/-- Drops a value from a variable in a marked statement. -/
def unassign (file : SourceFile) (statements : List Range) (value : Text) : List Splice :=
  ((file.tree.ofKind .varSpec).filter (isInside statements)).filterMap fun spec =>
    match spec.child? .value, declaredEnd? spec.children with
    | some given, some start =>
      if file.text given = value then some ⟨start, given.stop, []⟩ else none
    | _, _ => none

/-- Takes all advice in marked statements back. -/
def revertStatements (file : SourceFile) (statements : List Range) (reverts : List Revert)
    (added : Dict Text) : List Splice :=
  if statements.isEmpty then []
  else
    let calls := calls file statements
    let patterns := reverts.filterMap fun r =>
      match r with
      | .unwrap site template => (pattern? added template).map fun p => (site, p)
      | _ => none
    let removed := (unwrap file.source patterns (wrapSites file statements)).filter
      (! ·.isEmpty)
    reverts.foldl
      (fun edits r =>
        match r with
        | .unwrap .. => edits
        | .retarget wanted source target =>
          -- The old package has to be imported for its name to be known.
          let bound := nameOf added target wanted
          match importedName? file source with
          | none => edits
          | some old =>
            if old = bound then edits else retarget file calls removed bound old edits
        | .unassign template =>
          match literal? added template with
          | none => edits
          | some value => edits ++ unassign file statements value)
      (removed.map Range.removal)

/-! ## Passes -/

/-- One pass: the new text, or nothing if there was nothing to remove, and the added imports
known so far. -/
def pass (path text : Text) (reverts : List Revert) (added : Dict Text) :
    Except Failure (Option Text × Dict Text) := do
  let file ← SourceFile.parse path text
  let source := file.source
  let lead := text.take (text.length - source.length)
  let blocks := (pairMarkers file .startInstrument).map fun (a, b) => blockRange source a b
  let added := merged added (addedImports file blocks)
  let wraps := (pairMarkers file .startWrap).map fun (a, b) =>
    (openingRange source a, closingRange source b)
  -- A statement is what is left between the removed parts of its markers.
  let statements := (wraps.filter fun (a, b) => a.stop ≤ b.start).map fun (a, b) =>
    (⟨a.stop, b.start⟩ : Range)
  let edits := blocks.map Range.removal
    ++ wraps.flatMap (fun (a, b) => [a.removal, b.removal])
    ++ revertStatements file statements reverts added
  if edits.isEmpty then return (none, added)
  else return (some (lead ++ Splice.applyAll source edits), added)

/-- Passes until nothing is left to remove, or `fuel` passes. -/
def passes (path : Text) (reverts : List Revert) :
    (fuel : Nat) → Dict Text → Text → Except Failure Text
  | 0, _, text => .ok text
  | fuel + 1, added, text => do
    match ← pass path text reverts added with
    | (some text, added) => passes path reverts fuel added text
    | (none, _) => return text

/-- How many passes are made at most. -/
def passLimit : Nat := 16

/-- The ways to take the advice of aspects back, each once. -/
def reverts (aspects : List Aspect) : List Revert :=
  distinct ((aspects.flatMap Aspect.advice).filterMap Advice.revert?)

end Removal

/-- Removes everything that weaving with the aspects added to a text. -/
def uninstrument (text : Text) (aspects : List Aspect) : Except Failure Text :=
  Removal.passes "<source>" (Removal.reverts aspects) Removal.passLimit .empty text

end Interlace
