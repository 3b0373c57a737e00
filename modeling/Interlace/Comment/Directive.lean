import Interlace.Text.White
import Interlace.Text.Decimal

/-!
# Directive comments

Comments of the form `//namespace:name arguments`, and `//line` comments, which say what file
and line the next line comes from.
-/

namespace Interlace

/-- A comment `//namespace:name arguments`. -/
structure Directive where
  /-- Namespace and name with the colon between them. -/
  name : Text
  args : List Text
  deriving DecidableEq, Repr

namespace Directive

/-- A byte of the namespace. -/
def isSpaceByte (b : UInt8) : Bool :=
  Text.isLower b || Text.isDigit b

/-- A byte of the name. -/
def isNameByte (b : UInt8) : Bool :=
  isSpaceByte b || b = 0x5F || b = 0x2D

/-- The namespace with its colon and the name, and what follows. -/
def splitName? (t : Text) : Option (Text × Text) :=
  let space := t.takeWhile isSpaceByte
  match t.dropWhile isSpaceByte with
  | 0x3A :: rest =>
    let name := rest.takeWhile isNameByte
    if space = [] || name = [] then none
    else some (space ++ ":" ++ name, rest.dropWhile isNameByte)
  | _ => none

/-- The directive of a comment. -/
def parse? (comment : Text) : Option Directive := do
  let body ← Text.stripPrefix? "//" (Text.trimEnd comment)
  let (name, rest) ← splitName? body
  if rest = [] then return ⟨name, []⟩
  else if Text.startsWhite rest && (Text.trimStart rest).all (· ≠ 0x0A) then
    return ⟨name, Text.words rest⟩
  else none

/-- The arguments that have a key and a value with a colon between them. -/
def keyValues (d : Directive) : List (Text × Text) :=
  d.args.filterMap (Text.splitOnce? ":")

end Directive

/-- A comment `//line file:line:column`, the numbers optional. -/
structure LineDirective where
  file : Text
  line : Option Nat
  column : Option Nat
  deriving DecidableEq, Repr

namespace LineDirective

/-- A text with the number after its last colon taken off. Nothing if it does not end in
a colon and digits; a number too large is an error. -/
def peel? (t : Text) : Option (Text × Option Nat) :=
  match Text.splitLast? 0x3A t with
  | some (head, tail) =>
    if tail ≠ [] && tail.all Text.isDigit then some (head, Text.decimal? Text.bound64 tail)
    else none
  | none => none

/-- The directive of a comment. File names may hold colons, so at most two numbers are taken
off the end. -/
def parse? (comment : Text) : Option LineDirective := do
  let body ← Text.stripPrefix? "//line " (Text.trimEnd comment)
  let (file, numbers) ←
    match peel? body with
    | none => some (body, [])
    | some (_, none) => none
    | some (head, some last) =>
      match peel? head with
      | none => some (head, [last])
      | some (_, none) => none
      | some (file, some first) => some (file, [first, last])
  if file = [] then none else return ⟨file, numbers[0]?, numbers[1]?⟩

/-- The comment as it is written. -/
def render (d : LineDirective) : Text :=
  match d.line, d.column with
  | some line, some column =>
    "//line " ++ d.file ++ ":" ++ Text.ofNat line ++ ":" ++ Text.ofNat column
  | some line, none => "//line " ++ d.file ++ ":" ++ Text.ofNat line
  | none, _ => "//line " ++ d.file

end LineDirective

end Interlace
