import Interlace.Comment.Directive
import Interlace.Comment.Marker
import Interlace.Failure
import Interlace.Syntax.Parse
import Interlace.Text.Alphanumeric

/-!
# Source files

A parsed file: its text, its tree, and its comments as decorations of the nodes they stand
before or after. A comment on a line of its own decorates what follows, unless a blank line
comes between; a comment behind other text decorates what precedes it. Start and end markers
decorate what they enclose, wherever they stand.
-/

namespace Interlace

open Syntax

/-- A comment with what it means. -/
structure Trivia where
  text : Text
  start : Nat
  stop : Nat
  /-- Nothing but blanks precede the comment on its line. -/
  ownLine : Bool
  marker : Option Marker
  directive : Option Directive
  deriving Repr

/-- Comments by the offsets of what they decorate. -/
structure Decorations where
  /-- Comments before the nodes that start at an offset. -/
  before : List (Nat × Trivia)
  /-- Comments after the nodes that end at an offset. -/
  after : List (Nat × Trivia)
  /-- All markers of the file, in source order. -/
  markers : List Trivia

/-- A comment among its named siblings, the nearest first on both sides. -/
structure CommentSite where
  comment : Tree
  preceding : List Tree
  following : List Tree

mutual

/-- The comments below a node, in source order. -/
def commentsBelow : Tree → List CommentSite
  | .node _ _ _ _ cs => commentsAmong [] cs

/-- The comments among siblings and below them; `preceding` are the named siblings already
passed, the nearest first. -/
def commentsAmong (preceding : List Tree) : List Tree → List CommentSite
  | [] => []
  | .node k f s e cs :: ts =>
    let t : Tree := .node k f s e cs
    let here :=
      if k = .comment then [⟨t, preceding, ts.filter Tree.isNamed⟩] else commentsBelow t
    here ++ commentsAmong (if k.isNamed then t :: preceding else preceding) ts

end

namespace CommentSite

/-- The nearest preceding sibling that is no comment. -/
def previous? (s : CommentSite) : Option Tree :=
  s.preceding.find? (·.kind ≠ .comment)

/-- The first sibling that is no comment, reached from the offset `stop` without a blank
line. -/
def reach (source : Text) : (stop : Nat) → List Tree → Option Tree
  | _, [] => none
  | stop, t :: ts =>
    -- Two line breaks make a blank line.
    if 1 < source.newlinesBetween stop t.start then none
    else if t.kind ≠ .comment then some t
    else reach source t.stop ts

/-- The next sibling that is no comment, unless a blank line comes between. -/
def next? (source : Text) (s : CommentSite) : Option Tree :=
  reach source s.comment.stop s.following

end CommentSite

namespace Decorations

/-- The meaning of a comment. -/
def trivia (source : Text) (comment : Tree) : Trivia :=
  let text := comment.text source
  ⟨text, comment.start, comment.stop, source.isFirstOnLine comment.start,
    Marker.parse? text, Directive.parse? text⟩

/-- The comment decorates what precedes it. -/
def pointsBack (t : Trivia) : Bool :=
  match t.marker with
  -- Start and end markers point where they belong, whatever line they stand on.
  | some m => if m.isEnd then true else if m.isStart then false else ! t.ownLine
  | none => ! t.ownLine

/-- The decorations with one more comment. -/
def attach (source : Text) (d : Decorations) (site : CommentSite) : Decorations :=
  let t := trivia source site.comment
  let d := if t.marker.isSome then { d with markers := d.markers ++ [t] } else d
  if pointsBack t then
    match site.previous? with
    | some target => { d with after := d.after ++ [(target.stop, t)] }
    | none => d
  else
    match site.next? source with
    | some target => { d with before := d.before ++ [(target.start, t)] }
    | none => d

/-- The decorations of a tree. -/
def ofTree (source : Text) (tree : Tree) : Decorations :=
  (commentsBelow tree).foldl (attach source) ⟨[], [], []⟩

/-- The comments before a node. -/
def leading (d : Decorations) (node : Tree) : List Trivia :=
  (d.before.filter (·.1 = node.start)).map Prod.snd

/-- The comments after a node. -/
def trailing (d : Decorations) (node : Tree) : List Trivia :=
  (d.after.filter (·.1 = node.stop)).map Prod.snd

/-- A marker stands before the node. -/
def hasLeading (d : Decorations) (node : Tree) (m : Marker) : Bool :=
  (d.leading node).any (·.marker = some m)

/-- A marker stands after the node. -/
def hasTrailing (d : Decorations) (node : Tree) (m : Marker) : Bool :=
  (d.trailing node).any (·.marker = some m)

/-- The first directive of a name before the node, on a line of its own. -/
def leadingDirective? (d : Decorations) (node : Tree) (name : Text) : Option Directive :=
  (((d.leading node).filter Trivia.ownLine).filterMap Trivia.directive).find? (·.name = name)

end Decorations

/-- A parsed file. -/
structure SourceFile where
  /-- Where the file lies, or the name it was given. -/
  path : Text
  /-- The file that positions are reported in: another one if the text starts with
  a `//line` directive. -/
  origin : Text
  /-- The line in `origin` of the first line of `source`. -/
  lineBase : Nat
  /-- The text without a leading `//line` directive. -/
  source : Text
  tree : Tree
  decorations : Decorations
  /-- The name in the package clause, empty if there is none. -/
  packageName : Text

namespace SourceFile

/-- The text of a node. -/
def text (f : SourceFile) (node : Tree) : Text :=
  node.text f.source

/-- A `//line` directive at the very start, and the text after its line. -/
def leadingLine? (t : Text) : Option (LineDirective × Text) :=
  if Text.startsWith t "//line " then
    let line := t.takeWhile (· ≠ Text.newline)
    (LineDirective.parse? line).map fun d => (d, t.drop (line.length + 1))
  else none

/-- The package name that a tree declares. -/
def declaredPackage (source : Text) (root : Tree) : Text :=
  match (root.childOf? .packageClause).bind (·.namedChildren.head?) with
  | some name => name.text source
  | none => []

/-- Parses a text that is known to be UTF-8. -/
def ofText (path text : Text) : Except Failure SourceFile :=
  let (origin, lineBase, source) :=
    match leadingLine? text with
    | some (d, rest) => (d.file, d.line.getD 1, rest)
    | none => (path, 1, text)
  match parse? source with
  | none => .error (.parse path none)
  | some tree =>
    .ok ⟨path, origin, lineBase, source, tree, .ofTree source tree, declaredPackage source tree⟩

/-- Parses the bytes of a file. -/
def parse (path bytes : Text) : Except Failure SourceFile :=
  match bytes.illFormedAt? with
  | some offset => .error (.parse path (some (bytes.lineOf offset + 1, 1)))
  | none => ofText path bytes

/-! ## The package name without parsing -/

/-- What is left of a line after the comments it starts with, and whether a block comment
is still open at its end; `fuel` bounds how many comments. -/
def passComments : (fuel : Nat) → (inComment : Bool) → Text → Bool × Text
  | 0, inComment, rest => (inComment, rest)
  | fuel + 1, true, rest =>
    match Text.find? "*/" rest with
    | some i => passComments fuel false (Text.trimStart (rest.drop (i + 2)))
    | none => (true, rest)
  | fuel + 1, false, rest =>
    match Text.stripPrefix? "/*" rest with
    | some after => passComments fuel true after
    | none => (false, rest)

/-- The name after the word `package`. -/
def packageWord? (rest : Text) : Option Text := do
  let tail ← Text.stripPrefix? "package" rest
  if Text.startsWhite tail then
    let name := Text.ofChars ((Text.chars (Text.trimStart tail)).takeWhile Text.isWordChar)
    if name = [] then none else return name
  else none

/-- The package name in the first of the lines that holds more than comments. -/
def scanLines : (inComment : Bool) → List Text → Option Text
  | _, [] => none
  | inComment, line :: lines =>
    let (inComment, rest) := passComments (line.length + 1) inComment (Text.trim line)
    if inComment || rest = [] || Text.startsWith rest "//" then scanLines inComment lines
    else packageWord? rest

/-- The package name of a file, found line by line. Nothing if the package clause is not where
it is looked for. -/
def scanPackage? (bytes : Text) : Option Text :=
  scanLines false (Text.lines (Text.mended bytes))

end SourceFile

end Interlace
