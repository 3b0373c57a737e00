import Interlace.Double
import Interlace.Json.Basic
import Interlace.Text.White

/-!
# Reading JSON

From a text to a value. Reading goes on to the first fault of the text; the value then holds
what was read and the fault in its place.
-/

namespace Interlace.Json

/-- Without the blanks, tabs and line breaks at the start. -/
def dropSpace (t : Text) : Text :=
  t.dropWhile fun b => b = 0x20 || b = 0x09 || b = 0x0A || b = 0x0D

/-! ## Strings -/

/-- The value of a hexadecimal digit. -/
def hexValue? (b : UInt8) : Option Nat :=
  if 0x30 ≤ b && b ≤ 0x39 then some (b.toNat - 0x30)
  else if 0x61 ≤ b && b ≤ 0x66 then some (b.toNat - 0x57)
  else if 0x41 ≤ b && b ≤ 0x46 then some (b.toNat - 0x37)
  else none

/-- The value of four hexadecimal digits, and what follows. -/
def hexUnit : Text → Except JsonFault (Nat × Text)
  | a :: b :: c :: d :: t =>
    match hexValue? a, hexValue? b, hexValue? c, hexValue? d with
    | some a, some b, some c, some d => .ok (((a * 16 + b) * 16 + c) * 16 + d, t)
    | _, _, _, _ => .error .invalidEscape
  | _ => .error .eofString

/-- The character of a `\u` escape, two of them for a character beyond the first plane, and
what follows. -/
def unicodeEscape (t : Text) : Except JsonFault (Char × Text) :=
  match hexUnit t with
  | .error fault => .error fault
  | .ok (unit, t) =>
    if 0xDC00 ≤ unit && unit ≤ 0xDFFF then .error .loneSurrogate
    else if 0xD800 ≤ unit && unit ≤ 0xDBFF then
      match t with
      | 0x5C :: 0x75 :: t =>
        match hexUnit t with
        | .error fault => .error fault
        | .ok (low, t) =>
          if 0xDC00 ≤ low && low ≤ 0xDFFF then
            .ok (Char.ofNat ((unit - 0xD800) * 0x400 + (low - 0xDC00) + 0x10000), t)
          else .error .loneSurrogate
      | [] => .error .eofString
      | [0x5C] => .error .eofString
      | _ => .error .endOfEscape
    else .ok (Char.ofNat unit, t)

/-- The text of a simple escape. -/
def simpleEscape? (b : UInt8) : Option Text :=
  if b = 0x22 || b = 0x5C || b = 0x2F then some [b]
  else if b = 0x62 then some [0x08]
  else if b = 0x66 then some [0x0C]
  else if b = 0x6E then some [0x0A]
  else if b = 0x72 then some [0x0D]
  else if b = 0x74 then some [0x09]
  else none

/-- Reads a string behind its opening quote; `read` is what has been read of it, and `fuel`
bounds the number of characters. -/
def readString : (fuel : Nat) → (read : Text) → Text → Except JsonFault (Text × Text)
  | 0, _, _ => .error .eofString
  | fuel + 1, read, t =>
    match t with
    | [] => .error .eofString
    | 0x22 :: t =>
      if (Text.illFormedAt? read.reverse).isSome then .error .invalidCodePoint
      else .ok (read.reverse, t)
    | 0x5C :: 0x75 :: t =>
      match unicodeEscape t with
      | .error fault => .error fault
      | .ok (c, t) => readString fuel ((String.utf8EncodeChar c).reverse ++ read) t
    | 0x5C :: b :: t =>
      match simpleEscape? b with
      | some piece => readString fuel (piece ++ read) t
      | none => .error .invalidEscape
    | [0x5C] => .error .eofString
    | b :: t => if b < 0x20 then .error .controlCharacter else readString fuel (b :: read) t

/-! ## Numbers -/

/-- The digits at the start of a text, at least one, and what follows. -/
def someDigits (t : Text) : Except JsonFault (Text × Text) :=
  match t with
  | [] => .error .eofValue
  | _ =>
    let digits := t.takeWhile Text.isDigit
    if digits = [] then .error .invalidNumber else .ok (digits, t.dropWhile Text.isDigit)

/-- The value of decimal digits. -/
def digitsValue (digits : Text) : Nat :=
  digits.foldl (fun n b => n * 10 + (b.toNat - 0x30)) 0

/-- The exponent of a number, if one follows, and what follows it. -/
def exponentPart (t : Text) : Except JsonFault (Option Int × Text) :=
  match t with
  | e :: t' =>
    if e = 0x65 || e = 0x45 then
      let (sign, digits) : Int × Text :=
        match t' with
        | 0x2B :: t => (1, t)
        | 0x2D :: t => (-1, t)
        | t => (1, t)
      match someDigits digits with
      | .ok (digits, rest) => .ok (some (sign * digitsValue digits), rest)
      | .error fault => .error fault
    else .ok (none, t)
  | [] => .ok (none, t)

/-- The fraction of a number, if one follows, and what follows it. -/
def fractionPart (t : Text) : Except JsonFault (Option Text × Text) :=
  match t with
  | 0x2E :: t =>
    match someDigits t with
    | .ok (digits, rest) => .ok (some digits, rest)
    | .error fault => .error fault
  | _ => .ok (none, t)

/-- Appends decimal digits to a number as long as it fits 64 bits; gives also how many digits
were taken. -/
def takeDigits : (value : Nat) → Text → Nat × Nat
  | value, [] => (value, 0)
  | value, b :: t =>
    let next := value * 10 + (b.toNat - 0x30)
    if next < 0x10000000000000000 then
      let (value, taken) := takeDigits next t
      (value, taken + 1)
    else (value, 0)

/-- A double scaled by a power of ten, rounded. Powers beyond the range of doubles are applied
in steps; `steps` bounds how many. -/
def scale? : (steps : Nat) → Double → (exponent : Int) → Option Double
  | 0, _, _ => none
  | steps + 1, x, exponent =>
    if x.mantissa = 0 then some x
    else if 308 < exponent then none
    else if 0 ≤ exponent then (Double.powerOfTen? exponent.toNat).bind x.mul?
    else if -308 ≤ exponent then (Double.powerOfTen? (-exponent).toNat).bind x.div?
    else
      ((Double.powerOfTen? 308).bind x.div?).bind fun x => scale? steps x (exponent + 308)

/-- The text of the double that a number with a fraction or an exponent, or with too many
digits, is read as: the leading digits that fit 64 bits, scaled. Nothing if it is too large. -/
def doubleText? (whole fraction : Text) (exponent : Int) : Option Text := do
  let (value, taken) := takeDigits 0 whole
  let (value, more) := takeDigits value fraction
  let x ← Double.ofRatio? value 1
  let x ← scale? 8 x ((whole.length : Int) - taken - more + exponent)
  return x.render

/-- The value of a number with its sign taken off. -/
def numberValue (negative : Bool) (whole : Text) (fraction : Option Text)
    (exponent : Option Int) : Json :=
  let n := digitsValue whole
  let isWhole := fraction.isNone && exponent.isNone
  if isWhole && ! negative && n < 0x10000000000000000 then .nat n
  else if isWhole && negative && 0 < n && n ≤ 0x8000000000000000 then .neg n
  else
    match doubleText? whole (fraction.getD []) (exponent.getD 0) with
    | some digits => .float ((if negative then [0x2D] else []) ++ digits)
    | none => .broken .numberRange

/-- Reads a number behind its sign. -/
def readNumber (negative : Bool) (t : Text) : Except JsonFault (Json × Text) := do
  let (whole, t) ← someDigits t
  if 1 < whole.length && whole.head? = some 0x30 then .error .invalidNumber
  else
    let (fraction, t) ← fractionPart t
    let (exponent, t) ← exponentPart t
    .ok (numberValue negative whole fraction exponent, t)

/-! ## Values -/

/-- Reads the letters of a word that is known by its first letter. -/
def readWord (value : Json) : (letters : Text) → Text → Json × Option Text
  | [], t => (value, some t)
  | _ :: _, [] => (.broken .eofValue, none)
  | a :: letters, b :: t =>
    if a = b then readWord value letters t else (.broken .expectedIdent, none)

/-- The result of reading, from one that may have failed. -/
def settle : Except JsonFault (Json × Text) → Json × Option Text
  | .ok (j, t) => (j, some t)
  | .error fault => (.broken fault, none)

mutual

/-- Reads a value; what follows is given if the value is whole. `levels` is the number of
lists and objects that may still be opened, `fuel` bounds the steps. -/
def readValue : (fuel levels : Nat) → Text → Json × Option Text
  | 0, _, _ => (.broken .eofValue, none)
  | fuel + 1, levels, t =>
    match dropSpace t with
    | [] => (.missing, none)
    | 0x6E :: t => readWord .null "ull" t
    | 0x74 :: t => readWord (.bool true) "rue" t
    | 0x66 :: t => readWord (.bool false) "alse" t
    | 0x2D :: t => settle (readNumber true t)
    | 0x22 :: t =>
      settle ((readString (t.length + 1) [] t).map fun (s, t) => (.string s, t))
    | 0x5B :: t =>
      if levels ≤ 1 then (.broken .recursionLimit, none)
      else
        let (items, fault, rest) := readItems fuel (levels - 1) true t
        (.array items fault, rest)
    | 0x7B :: t =>
      if levels ≤ 1 then (.broken .recursionLimit, none)
      else readMembers fuel (levels - 1) [] t
    | b :: t =>
      if Text.isDigit b then settle (readNumber false (b :: t))
      else (.broken .expectedValue, none)

/-- Reads the items of a list up to its closing bracket. -/
def readItems : (fuel levels : Nat) → (first : Bool) → Text →
    List Json × Option JsonFault × Option Text
  | 0, _, _, _ => ([], some .eofList, none)
  | fuel + 1, levels, first, t =>
    let item := fun (t : Text) =>
      match readValue fuel levels t with
      | (j, none) => ([j], none, none)
      | (j, some t) =>
        let (items, fault, rest) := readItems fuel levels false t
        (j :: items, fault, rest)
    match dropSpace t with
    | [] => ([], some .eofList, none)
    | 0x5D :: t => ([], none, some t)
    | 0x2C :: t =>
      -- A comma before the first item is read as an item, which it is not.
      if first then item (0x2C :: t)
      else
        match dropSpace t with
        | [] => ([], some .eofValue, none)
        | 0x5D :: _ => ([], some .trailingComma, none)
        | t => item t
    | t => if first then item t else ([], some .expectedListComma, none)

/-- Reads the members of an object up to its closing brace; `read` are those already read, the
latest first. -/
def readMembers : (fuel levels : Nat) → (read : List (Text × Json)) → Text →
    Json × Option Text
  | 0, _, read, _ => (.object read.reverse (some .eofObject), none)
  | fuel + 1, levels, read, t =>
    let stop := fun (fault : JsonFault) => (Json.object read.reverse (some fault), none)
    let badKey := fun (t : Text) =>
      (Json.badKey read.reverse (readValue fuel levels t).1, (none : Option Text))
    let member := fun (t : Text) =>
      match readString (t.length + 1) [] t with
      | .error fault => stop fault
      | .ok (key, t) =>
        let whole := fun (value : Json) =>
          (Json.object ((key, value) :: read).reverse none, (none : Option Text))
        match dropSpace t with
        | [] => whole (.broken .eofObject)
        | 0x3A :: t =>
          match readValue fuel levels t with
          | (value, none) => whole value
          | (value, some t) => readMembers fuel levels ((key, value) :: read) t
        | _ => whole (.broken .expectedColon)
    match dropSpace t with
    | [] => stop .eofObject
    | 0x7D :: t => (.object read.reverse none, some t)
    | 0x2C :: t =>
      -- So is a comma before the first key.
      if read.isEmpty then badKey (0x2C :: t)
      else
        match dropSpace t with
        | [] => stop .eofValue
        | 0x22 :: t => member t
        | 0x7D :: _ => stop .trailingComma
        | t => badKey t
    | 0x22 :: t => if read.isEmpty then member t else stop .expectedObjectComma
    | t => if read.isEmpty then badKey t else stop .expectedObjectComma

end

/-- Lists and objects may be nested 127 deep. -/
def levelLimit : Nat := 128

/-- Reads a text that holds one value; tells also whether something follows the value. -/
def parse (t : Text) : Json × Bool :=
  match readValue (2 * t.length + 2) levelLimit t with
  | (j, none) => (j, false)
  | (j, some rest) => (j, dropSpace rest ≠ [])

end Interlace.Json
