import Interlace.Edit.Splice
import Interlace.Syntax.Parse

/-!
# Line directives at the margin

A `//line` directive counts only at the start of a line. `atMargin` drops the blanks in front
of indented ones. Only real comments are moved: the same bytes inside a string stay as they
are.
-/

namespace Interlace.Weave

open Syntax

/-- The ranges of blanks between the start of a line and `//line `, for every line that has
them; the first argument is the offset of the line. -/
def indentedFrom : (offset : Nat) → List Text → List (Nat × Nat)
  | _, [] => []
  | offset, line :: lines =>
    let blanks := (line.takeWhile Text.isBlank).length
    let rest := indentedFrom (offset + line.length + 1) lines
    if 0 < blanks && Text.startsWith (line.drop blanks) "//line " then
      (offset, offset + blanks) :: rest
    else rest

/-- The ranges of blanks in front of indented `//line ` texts. -/
def indented (t : Text) : List (Nat × Nat) :=
  indentedFrom 0 (Text.splitWhere (· = Text.newline) t)

/-- The number of bytes of a string or character literal up to its closing mark, escapes
passed over, given what follows its opening mark. -/
def literalWidth (mark : UInt8) : Text → Nat
  | [] => 0
  | b :: t =>
    if b = mark then 1
    else if b = Text.newline && mark ≠ 0x60 then 0
    else if b = 0x5C && mark ≠ 0x60 then
      match t with
      | _ :: t => literalWidth mark t + 2
      | [] => 1
    else literalWidth mark t + 1

/-- The offsets of comments found by looking at comments and literals only, after passing over
`skip` bytes; for texts that do not follow the grammar. -/
def looseComments (offset : Nat) : (skip : Nat) → Text → List Nat
  | _, [] => []
  | skip + 1, _ :: t => looseComments (offset + 1) skip t
  | 0, b :: t =>
    match Scan.commentWidth? (b :: t) with
    | some width => offset :: looseComments (offset + 1) (width - 1) t
    | none =>
      if b = 0x22 || b = 0x27 || b = 0x60 then
        looseComments (offset + 1) (literalWidth b t) t
      else looseComments (offset + 1) 0 t

/-- The offsets of the comments of a text. -/
def commentStarts (t : Text) : List Nat :=
  match parse? t with
  | some tree => (tree.ofKind .comment).map Tree.start
  | none => looseComments 0 0 t

/-- The text with every `//line` directive at the start of its line; nothing if all are. -/
def atMargin? (t : Text) : Option Text :=
  match indented t with
  | [] => none
  | candidates =>
    let comments := commentStarts t
    match candidates.filter fun (_, stop) => comments.contains stop with
    | [] => none
    | found => some (Splice.applyAll t (found.map fun (start, stop) => ⟨start, stop, []⟩))

/-- The text with every `//line` directive at the start of its line. -/
def atMargin (t : Text) : Text :=
  (atMargin? t).getD t

end Interlace.Weave
