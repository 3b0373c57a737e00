import Interlace.Text.Basic

/-!
# Lines and offsets

Where the lines of a text begin and end. Offsets past the end count as the end where the
whole line is asked for.
-/

namespace Interlace.Text

/-- The line break byte. -/
def newline : UInt8 := 0x0A

/-- The lines of a text, without their line breaks; a carriage return before a line break is
part of the break, and a text that ends in a line break has no empty last line. -/
def lines (t : Text) : List Text :=
  let pieces := splitWhere (· = newline) t
  let trimmed := fun (piece : Text) => (stripSuffix? [0x0D] piece).getD piece
  match pieces.getLast? with
  | some [] => pieces.dropLast.map trimmed
  | some last => pieces.dropLast.map trimmed ++ [last]
  | none => []

/-- The offset of the first byte of the line that holds `offset`. -/
def lineStart (t : Text) (offset : Nat) : Nat :=
  match findLast? newline (t.take offset) with
  | some i => i + 1
  | none => 0

/-- The offset of the line break that ends the line that holds `offset`, or the end. -/
def lineEnd (t : Text) (offset : Nat) : Nat :=
  let offset := min offset t.length
  offset + ((t.drop offset).takeWhile (· ≠ newline)).length

/-- The spaces and tabs that start the line that holds `offset`. -/
def lineIndent (t : Text) (offset : Nat) : Text :=
  (t.drop (lineStart t offset)).takeWhile isBlank

/-- Only spaces and tabs precede `offset` on its line. -/
def isFirstOnLine (t : Text) (offset : Nat) : Bool :=
  (slice t (lineStart t offset) offset).all isBlank

/-- From `offset` to the end of its line there is nothing but blanks and perhaps a line
comment. -/
def restIsTrivia (t : Text) (offset : Nat) : Bool :=
  let rest := (slice t offset (lineEnd t offset)).dropWhile fun b => isBlank b || b = 0x0D
  rest.isEmpty || startsWith rest "//"

/-- The offset of the first byte from `offset` on that is neither a space nor a tab. -/
def skipBlanks (t : Text) (offset : Nat) : Nat :=
  offset + ((t.drop offset).takeWhile isBlank).length

/-- The number of line breaks in a range; an improper range has none. -/
def newlinesBetween (t : Text) (start stop : Nat) : Nat :=
  if start ≤ stop ∧ stop ≤ t.length then (slice t start stop).count newline else 0

/-- The number of line breaks before `offset`. -/
def lineOf (t : Text) (offset : Nat) : Nat :=
  (t.take offset).count newline

end Interlace.Text
