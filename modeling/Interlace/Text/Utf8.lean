import Interlace.Text.Basic

/-!
# Characters of a text

Reading a text as UTF-8. A well-formed sequence gives its character; anything else gives the
replacement character, once for each longest run of bytes that starts a well-formed sequence.
-/

namespace Interlace.Text

/-- The character that stands for bytes that are not UTF-8. -/
def replacement : Char := Char.ofNat 0xFFFD

/-- A byte that continues a sequence. -/
def isContinuation (b : UInt8) : Bool :=
  0x80 ≤ b && b ≤ 0xBF

/-- How many continuation bytes a leading byte calls for, and the bounds of the first one.
Bytes that lead nothing call for none, with empty bounds. -/
def demand (lead : UInt8) : Nat × UInt8 × UInt8 :=
  if lead < 0xC2 then (0, 1, 0)
  else if lead < 0xE0 then (1, 0x80, 0xBF)
  else if lead = 0xE0 then (2, 0xA0, 0xBF)
  else if lead = 0xED then (2, 0x80, 0x9F)
  else if lead < 0xF0 then (2, 0x80, 0xBF)
  else if lead = 0xF0 then (3, 0x90, 0xBF)
  else if lead < 0xF4 then (3, 0x80, 0xBF)
  else if lead = 0xF4 then (3, 0x80, 0x8F)
  else (0, 1, 0)

/-- The payload bits of a leading byte that calls for `n` continuation bytes. -/
def leadBits (n : Nat) (lead : UInt8) : Nat :=
  match n with
  | 1 => lead.toNat % 32
  | 2 => lead.toNat % 16
  | _ => lead.toNat % 8

/-- Appends the payload of a continuation byte. -/
def shiftIn (value : Nat) (b : UInt8) : Nat :=
  value * 64 + b.toNat % 64

/-- The code point that starts with `lead` and continues in the text, with the number of
bytes read; no code point when the sequence is ill formed, and then the number of bytes is
that of the longest run that could have started one. -/
def readPoint (lead : UInt8) (t : Text) : Option Nat × Nat :=
  if lead < 0x80 then (some lead.toNat, 1)
  else
    let (n, low, high) := demand lead
    match n, t with
    | 1, b :: _ =>
      if low ≤ b && b ≤ high then (some (shiftIn (leadBits 1 lead) b), 2) else (none, 1)
    | 2, b :: c :: _ =>
      if low ≤ b && b ≤ high then
        if isContinuation c then (some (shiftIn (shiftIn (leadBits 2 lead) b) c), 3)
        else (none, 2)
      else (none, 1)
    | 3, b :: c :: d :: _ =>
      if low ≤ b && b ≤ high then
        if isContinuation c then
          if isContinuation d then
            (some (shiftIn (shiftIn (shiftIn (leadBits 3 lead) b) c) d), 4)
          else (none, 3)
        else (none, 2)
      else (none, 1)
    | 3, [b, c] =>
      if low ≤ b && b ≤ high then if isContinuation c then (none, 3) else (none, 2)
      else (none, 1)
    | 2, [b] => if low ≤ b && b ≤ high then (none, 2) else (none, 1)
    | 3, [b] => if low ≤ b && b ≤ high then (none, 2) else (none, 1)
    | _, _ => (none, 1)

/-- The characters of a text with their offsets, counted from `offset`, after passing over
`skip` bytes that belong to a character already read. -/
def charsFrom (offset : Nat) : (skip : Nat) → Text → List (Nat × Char)
  | _, [] => []
  | skip + 1, _ :: t => charsFrom (offset + 1) skip t
  | 0, b :: t =>
    match readPoint b t with
    | (some point, width) => (offset, Char.ofNat point) :: charsFrom (offset + 1) (width - 1) t
    | (none, width) => (offset, replacement) :: charsFrom (offset + 1) (width - 1) t

/-- The characters of a text with the offsets at which they start. -/
def charOffsets (t : Text) : List (Nat × Char) :=
  charsFrom 0 0 t

/-- The characters of a text. -/
def chars (t : Text) : List Char :=
  (charOffsets t).map Prod.snd

/-- The UTF-8 bytes of a list of characters. -/
def ofChars (cs : List Char) : Text :=
  cs.flatMap String.utf8EncodeChar

/-- The offset of the first byte that is not part of a well-formed sequence, after passing
over `skip` bytes of a sequence already read. -/
def firstIllFormed (offset : Nat) : (skip : Nat) → Text → Option Nat
  | _, [] => none
  | skip + 1, _ :: t => firstIllFormed (offset + 1) skip t
  | 0, b :: t =>
    match readPoint b t with
    | (some _, width) => firstIllFormed (offset + 1) (width - 1) t
    | (none, _) => some offset

/-- The offset up to which the text is UTF-8, when it is not UTF-8 to its end. -/
def illFormedAt? (t : Text) : Option Nat :=
  firstIllFormed 0 0 t

/-- The text with every ill-formed run replaced by the replacement character. -/
def mended (t : Text) : Text :=
  ofChars (chars t)

/-- The text as a string. -/
def toStr (t : Text) : String :=
  String.ofList (chars t)

end Interlace.Text
