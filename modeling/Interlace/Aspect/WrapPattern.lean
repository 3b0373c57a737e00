import Interlace.Aspect.Template

/-!
# Wrap patterns

The shape that a template with one hole leaves around an expression, and how the expression is
found again. Of the ways to take a text apart, the one is chosen whose pieces end earliest, from
left to right.
-/

namespace Interlace

/-- A piece of a wrap pattern. -/
inductive WrapPiece where
  | literal (text : Text)
  /-- The wrapped expression. -/
  | hole
  /-- What some placeholder stood for. -/
  | any
  deriving DecidableEq, Repr

/-- The shape of wrapped expressions. -/
structure WrapPattern where
  pieces : List WrapPiece
  deriving DecidableEq, Repr

namespace WrapPiece

/-- The piece that a part of a template leaves. -/
def ofPart : TemplatePart → WrapPiece
  | .literal t => literal t
  | .hole => hole
  | .named _ => any

/-- The piece with a qualifier renamed in its literal text. -/
def requalify (old new : Text) : WrapPiece → WrapPiece
  | literal t => literal (Qualifier.rename t old new)
  | piece => piece

end WrapPiece

/-- The shape that one application of the template leaves; only templates with exactly one hole
wrap. -/
def Template.wrapPattern? (t : Template) : Option WrapPattern :=
  if t.parts.count .hole = 1 then some ⟨t.parts.map .ofPart⟩ else none

/-! ## Balanced texts -/

/-- What a byte is a part of. -/
inductive QuoteState where
  | code
  /-- A literal that the given byte ends. -/
  | quoted (mark : UInt8)
  /-- The byte behind a backslash in such a literal. -/
  | escaped (mark : UInt8)
  deriving DecidableEq, Repr

namespace Balance

/-- An opening bracket. -/
def isOpening (b : UInt8) : Bool :=
  b = 0x28 || b = 0x5B || b = 0x7B

/-- A closing bracket. -/
def isClosing (b : UInt8) : Bool :=
  b = 0x29 || b = 0x5D || b = 0x7D

/-- A byte that opens and closes literals. -/
def isQuote (b : UInt8) : Bool :=
  b = 0x22 || b = 0x27 || b = 0x60

/-- The state behind a byte of a literal. -/
def afterQuoted (mark b : UInt8) : QuoteState :=
  if b = mark then .code
  else if b = 0x5C && mark ≠ 0x60 then .escaped mark
  else .quoted mark

/-- The offsets at which the text so far is balanced, `offset` bytes and `depth` open brackets
having been passed. Stops at a closing bracket that was never opened. -/
def endsFrom : (offset depth : Nat) → QuoteState → Text → List Nat
  | offset, depth, _, [] => if depth = 0 && 0 < offset then [offset] else []
  | offset, depth, .quoted mark, b :: t => endsFrom (offset + 1) depth (afterQuoted mark b) t
  | offset, depth, .escaped mark, _ :: t => endsFrom (offset + 1) depth (.quoted mark) t
  | offset, depth, .code, b :: t =>
    let here := if depth = 0 && 0 < offset && ! Text.isContinuation b then [offset] else []
    if isOpening b then here ++ endsFrom (offset + 1) (depth + 1) .code t
    else if isClosing b then
      if depth = 0 then here else here ++ endsFrom (offset + 1) (depth - 1) .code t
    else if isQuote b then here ++ endsFrom (offset + 1) depth (.quoted b) t
    else here ++ endsFrom (offset + 1) depth .code t

/-- The lengths of the leading parts of a text that are balanced and not empty. -/
def ends (t : Text) : List Nat :=
  endsFrom 0 0 .code t

end Balance

/-! ## Matching -/

namespace WrapPattern

/-- The pattern with a qualifier renamed in its literal texts. -/
def requalify (p : WrapPattern) (old new : Text) : WrapPattern :=
  ⟨p.pieces.map (.requalify old new)⟩

/-- The offsets at which characters of a text start or end. -/
def boundaries (offset : Nat) : Text → List Nat
  | [] => [offset]
  | b :: t =>
    if Text.isContinuation b then boundaries (offset + 1) t
    else offset :: boundaries (offset + 1) t

/-- Takes a text, which starts at `offset`, apart by pieces. The result is the range of the
hole, if there is one among the pieces. -/
def matchFrom : List WrapPiece → (offset : Nat) → Text → Option (Option (Nat × Nat))
  | [], _, t => if t = [] then some none else none
  | .literal lead :: pieces, offset, t =>
    match Text.stripPrefix? lead t with
    | some rest => matchFrom pieces (offset + lead.length) rest
    | none => none
  | .hole :: pieces, offset, t =>
    (Balance.ends t).findSome? fun n =>
      (matchFrom pieces (offset + n) (t.drop n)).map fun _ => some (offset, offset + n)
  | .any :: pieces, offset, t =>
    (boundaries 0 t).findSome? fun n => matchFrom pieces (offset + n) (t.drop n)

/-- The range of the wrapped expression when the whole text is one application of the
pattern. -/
def hole? (p : WrapPattern) (t : Text) : Option (Nat × Nat) :=
  (matchFrom p.pieces 0 t).join

end WrapPattern

end Interlace
