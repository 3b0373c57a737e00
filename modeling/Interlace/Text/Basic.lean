/-!
# Texts

A text is a list of bytes, UTF-8 wherever it is well formed. Every offset in this library
counts bytes from the start of a text, so cutting and joining texts is `List.take`,
`List.drop` and `++`, and an offset needs no proof that it lies on a character boundary.

String literals stand for their UTF-8 bytes through a coercion.
-/

namespace Interlace

/-- A sequence of bytes. -/
abbrev Text := List UInt8

namespace Text

/-- The UTF-8 bytes of a string. -/
def ofString (s : String) : Text :=
  s.toByteArray.data.toList

instance : Coe String Text := ⟨ofString⟩

/-- The decimal digits of a number. -/
def ofNat (n : Nat) : Text :=
  (Nat.toDigits 10 n).map Char.toUInt8

/-- The bytes from offset `start` up to, not including, offset `stop`. -/
def slice (t : Text) (start stop : Nat) : Text :=
  (t.drop start).take (stop - start)

/-- What follows `lead` when the text starts with it. -/
def stripPrefix? : (lead t : Text) → Option Text
  | [], t => some t
  | _ :: _, [] => none
  | a :: lead, b :: t => if a = b then stripPrefix? lead t else none

/-- What precedes `tail` when the text ends with it. -/
def stripSuffix? (tail t : Text) : Option Text :=
  (stripPrefix? tail.reverse t.reverse).map List.reverse

/-- The text starts with `lead`. -/
def startsWith (t lead : Text) : Bool :=
  (stripPrefix? lead t).isSome

/-- The text ends with `tail`. -/
def endsWith (t tail : Text) : Bool :=
  (stripSuffix? tail t).isSome

/-- The offset of the first occurrence of `pattern`. -/
def find? (pattern : Text) : Text → Option Nat
  | [] => if pattern = [] then some 0 else none
  | b :: t => if startsWith (b :: t) pattern then some 0 else (find? pattern t).map (· + 1)

/-- `pattern` occurs somewhere in the text. -/
def contains (t pattern : Text) : Bool :=
  (find? pattern t).isSome

/-- The offset of the last occurrence of the byte `b`. -/
def findLast? (b : UInt8) : Text → Option Nat
  | [] => none
  | c :: t =>
    match findLast? b t with
    | some i => some (i + 1)
    | none => if c = b then some 0 else none

/-- The parts before and after the first occurrence of `separator`. -/
def splitOnce? (separator t : Text) : Option (Text × Text) :=
  (find? separator t).map fun i => (t.take i, t.drop (i + separator.length))

/-- The parts before and after the last occurrence of the byte `separator`. -/
def splitLast? (separator : UInt8) (t : Text) : Option (Text × Text) :=
  (findLast? separator t).map fun i => (t.take i, t.drop (i + 1))

/-- The pieces between the bytes on which `cut` holds; always at least one piece. -/
def splitWhere (cut : UInt8 → Bool) : Text → List Text
  | [] => [[]]
  | b :: t =>
    match splitWhere cut t with
    | [] => [[b]]
    | piece :: pieces => if cut b then [] :: piece :: pieces else (b :: piece) :: pieces

/-- The texts in order with `separator` between neighbours. -/
def join (separator : Text) : List Text → Text
  | [] => []
  | [t] => t
  | t :: u :: rest => t ++ separator ++ join separator (u :: rest)

/-- Byte order: the order of a dictionary over bytes. -/
def le (s t : Text) : Bool :=
  decide (s ≤ t)

/-- An ASCII decimal digit. -/
def isDigit (b : UInt8) : Bool :=
  0x30 ≤ b && b ≤ 0x39

/-- An ASCII lower-case letter. -/
def isLower (b : UInt8) : Bool :=
  0x61 ≤ b && b ≤ 0x7A

/-- A space or a tab. -/
def isBlank (b : UInt8) : Bool :=
  b = 0x20 || b = 0x09

/-- Repeats a text a number of times. -/
def replicate (n : Nat) (t : Text) : Text :=
  (List.replicate n t).flatten

end Text

end Interlace
