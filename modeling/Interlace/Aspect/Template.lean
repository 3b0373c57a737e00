import Interlace.Dict
import Interlace.Text.Alphanumeric
import Interlace.Text.White
import Interlace.Version

/-!
# Templates

Code with placeholders. A placeholder is a name in double braces; a dot in their place is the
hole, where an expression goes. Which packages the code refers to, and by what names, stands
beside it.

`requalify` renames the qualifiers of code.
-/

namespace Interlace

/-- Code with placeholders. -/
structure Template where
  text : Text
  /-- Import paths by the names that the code uses. -/
  imports : Dict Text
  /-- The language version that the code needs. -/
  version : Option Version
  deriving DecidableEq

/-- A part of a template. -/
inductive TemplatePart where
  | literal (text : Text)
  | hole
  | named (name : Text)
  deriving DecidableEq, Repr

namespace Template

/-- An ASCII letter. -/
def isLetter (b : UInt8) : Bool :=
  Text.isLower b || (0x41 ≤ b && b ≤ 0x5A)

/-- The name of a placeholder at the start of a text, and what follows. -/
def placeholderName? : Text → Option (TemplatePart × Text)
  | 0x2E :: t => some (.hole, t)
  | b :: t =>
    let isRest := fun (c : UInt8) => isLetter c || Text.isDigit c
    if isLetter b then some (.named (b :: t.takeWhile isRest), t.dropWhile isRest) else none
  | [] => none

/-- The placeholder at the start of a text, and what follows. -/
def placeholder? (t : Text) : Option (TemplatePart × Text) := do
  let t ← Text.stripPrefix? "\x7b\x7b" t
  let (part, t) ← placeholderName? (Text.trimStart t)
  let t ← Text.stripPrefix? "\x7d\x7d" (Text.trimStart t)
  return (part, t)

/-- The parts with one more byte of literal text before them. -/
def pushByte (b : UInt8) : List TemplatePart → List TemplatePart
  | .literal t :: parts => .literal (b :: t) :: parts
  | parts => .literal [b] :: parts

/-- The parts of a text behind its first `skip` bytes. -/
def partsFrom : (skip : Nat) → Text → List TemplatePart
  | _, [] => []
  | skip + 1, _ :: t => partsFrom skip t
  | 0, b :: t =>
    match placeholder? (b :: t) with
    | some (part, rest) => part :: partsFrom (t.length - rest.length) t
    | none => pushByte b (partsFrom 0 t)

/-- The literal texts and the placeholders of a template. -/
def parts (t : Template) : List TemplatePart :=
  partsFrom 0 t.text

/-- The template has a hole. -/
def hasHole (t : Template) : Bool :=
  t.parts.contains .hole

/-- The text of a template without placeholders. -/
def literal? (t : Template) : Option Text :=
  if t.parts.all fun p => match p with | .literal _ => true | _ => false then some t.text
  else none

/-- What placeholders stand for. -/
structure Values where
  hole : Option Text
  named : Dict Text

/-- What a part stands for, or the placeholder that stands for nothing. -/
def Values.fill (v : Values) : TemplatePart → Except Text Text
  | .literal t => .ok t
  | .hole =>
    match v.hole with
    | some t => .ok t
    | none => .error "."
  | .named name =>
    match v.named.get? name with
    | some t => .ok t
    | none => .error name

/-- The text with every placeholder filled in, or the first that stands for nothing. -/
def render (t : Template) (values : Values) : Except Text Text :=
  (t.parts.mapM values.fill).map List.flatten

end Template

/-! ## Qualifiers -/

namespace Qualifier

/-- The last character of the text whose bytes are given from the last to the first. -/
def lastChar? (reversed : Text) : Option Char :=
  let tail := (reversed.takeWhile Text.isContinuation).reverse
  match reversed.drop tail.length with
  | lead :: _ => (Text.chars (lead :: tail)).getLast?
  | [] => (Text.chars tail).getLast?

/-- An identifier that follows the text would be part of a longer one, or of a selector. The
bytes are given from the last to the first. -/
def continues (reversed : Text) : Bool :=
  (lastChar? reversed).any fun c => Text.isWordChar c || c = '.'

/-- Renames qualifiers behind `before`, whose bytes are given from the last to the first, and
behind the first `skip` bytes; tells also whether there was any. -/
def renameFrom (qualifier renamed : Text) :
    (before : Text) → (skip : Nat) → Text → Text × Bool
  | _, _, [] => ([], false)
  | before, skip + 1, b :: t => renameFrom qualifier renamed (b :: before) skip t
  | before, 0, b :: t =>
    if Text.startsWith (b :: t) qualifier then
      let (rest, changed) := renameFrom qualifier renamed (b :: before) (qualifier.length - 1) t
      if continues before then (qualifier ++ rest, changed) else (renamed ++ rest, true)
    else
      let (rest, changed) := renameFrom qualifier renamed (b :: before) 0 t
      (b :: rest, changed)

/-- The text with the qualifier `old` renamed to `new`, where `old` starts an identifier.
Nothing if there is no such place. -/
def rename? (t old new : Text) : Option Text :=
  if old = new then none
  else
    match renameFrom (old ++ ".") (new ++ ".") [] 0 t with
    | (renamed, true) => some renamed
    | (_, false) => none

/-- The text with the qualifier `old` renamed to `new`, where `old` starts an identifier. -/
def rename (t old new : Text) : Text :=
  (rename? t old new).getD t

end Qualifier

end Interlace
