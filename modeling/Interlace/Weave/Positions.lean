import Interlace.SourceFile
import Interlace.Edit.Buffer

/-!
# Reported positions

Puts `//line` directives into woven text, so that the compiler reports the positions of the
source for the code of the source, and a file of its own for added code.
-/

namespace Interlace

open Syntax

/-- What the compiler takes a line of the woven text for. -/
structure Reported where
  file : Text
  /-- The line reported for the line `since` of the woven text. -/
  line : Nat
  since : Nat
  deriving DecidableEq, Repr

namespace Reported

/-- The line reported for a line of the woven text. -/
def lineAt (r : Reported) (line : Nat) : Nat :=
  r.line + (line - r.since)

end Reported

namespace Positions

/-- The file that is reported for added code. -/
def generatedFile : Text := "<generated>"

/-- The package clause, the declarations of the file and the statements, in source order. -/
def anchors (root : Tree) : List Tree :=
  (root.sites.filter fun s =>
    s.node.isNamed && (s.node.kind = .packageClause || s.isStatementLevel)).map Site.node

/-- The text ends in a line break, perhaps with blanks behind it. -/
def breaksLine (t : Text) : Bool :=
  (t.reverse.dropWhile Text.isBlank).head? = some Text.newline

/-- Moves a statement that shares a changed line to a line of its own. -/
def separate (source : Text) (b : Buffer) (anchor : Tree) : Buffer :=
  let start := anchor.start
  -- Lines that no edit touches keep their layout.
  if source.isFirstOnLine start || ! b.touches (source.lineStart start) (source.lineEnd start)
      || breaksLine (b.insertedAt start) then b
  else b.insert start ("\n" ++ source.lineIndent start) .left

/-- Moves all statements that share changed lines to lines of their own. -/
def canonical (file : SourceFile) (b : Buffer) : Buffer :=
  (anchors file.tree).foldl (separate file.source) b

/-- The state of placing directives. -/
structure State where
  /-- Directives by offset, the latest first. -/
  placed : List (Nat × LineDirective)
  reported : Reported
  /-- The start of the last line that was looked at. -/
  lastLine : Option Nat

/-- The position that should be reported for the code at an offset of the woven text, unless
it follows added code and is added too. -/
def wanted? (file : SourceFile) (rendered : Rendered) (reported : Reported) (offset : Nat) :
    Option Reported :=
  let line := rendered.text.lineOf offset
  match rendered.sourceOffset? offset with
  | some source => some ⟨file.origin, file.source.lineOf source + file.lineBase, line⟩
  -- Lines of added code count on from one another.
  | none => if reported.file = generatedFile then none else some ⟨generatedFile, 1, line⟩

/-- Places a directive for a position. At the very start it replaces the one that is there. -/
def place (s : State) (offset : Nat) (r : Reported) : State :=
  if offset = 0 then
    { s with placed := s.placed.dropLast ++ [(0, ⟨r.file, some r.line, some 1⟩)], reported := r }
  else { s with placed := (offset, ⟨r.file, some r.line, none⟩) :: s.placed, reported := r }

/-- Looks at a statement of the woven text. -/
def step (file : SourceFile) (rendered : Rendered) (s : State) (anchor : Tree) : State :=
  let output := rendered.text
  let lineStart := output.lineStart anchor.start
  -- A directive needs a line of its own, so only the first statement of a line counts.
  if ! output.isFirstOnLine anchor.start || s.lastLine = some lineStart then s
  else
    let s := { s with lastLine := some lineStart }
    match wanted? file rendered s.reported anchor.start with
    | none => s
    | some r =>
      -- Where the compiler counts right by itself no directive is needed.
      if s.reported.file = r.file && s.reported.lineAt r.since = r.line then s
      else place s lineStart r

/-- The directives of a woven text, by offset. -/
def directives (file : SourceFile) (rendered : Rendered) (tree : Tree) :
    List (Nat × LineDirective) :=
  let start : State :=
    ⟨[(0, ⟨file.origin, some file.lineBase, some 1⟩)], ⟨file.origin, file.lineBase, 0⟩, none⟩
  ((anchors tree).foldl (step file rendered) start).placed.reverse

/-- Inserts directives as lines of their own, `offset` being that of the text. -/
def insertLines : (offset : Nat) → List (Nat × LineDirective) → Text → Text
  | _, [], t => t
  | offset, (place, d) :: rest, t =>
    t.take (place - offset) ++ d.render ++ "\n" ++ insertLines place rest (t.drop (place - offset))

/-- The woven text with directives. -/
def annotate (file : SourceFile) (b : Buffer) : Except AdviceFault Text :=
  match (canonical file b).render with
  | .error fault => .error (.edit fault)
  | .ok rendered =>
    match parse? rendered.text with
    | none => .error .notValid
    | some tree => .ok (insertLines 0 (directives file rendered tree) rendered.text)

end Positions

end Interlace
