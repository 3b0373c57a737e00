import Interlace.Text.Hidden

/-!
# Quoted texts

Two ways to put a text between double quotes: `shown`, which error messages use and which
spells out every hidden character by number, and `quote`, a string literal of the language the
weaver works on, with its partner `unquote`.
-/

namespace Interlace.Text

/-- A hexadecimal digit, in lower case. -/
def hexDigit (n : Nat) : UInt8 :=
  if n < 10 then UInt8.ofNat (0x30 + n) else UInt8.ofNat (0x57 + n)

/-- The hexadecimal digits of a number, without leading zeros. -/
def hex (n : Nat) : Text :=
  (Nat.toDigits 16 n).map fun c => UInt8.ofNat c.toNat

/-- Two hexadecimal digits for a byte. -/
def hexByte (b : UInt8) : Text :=
  [hexDigit (b.toNat / 16), hexDigit (b.toNat % 16)]

/-- A character as it appears between the quotes of an error message. -/
def shownChar (c : Char) : Text :=
  if c = '"' then "\\\""
  else if c = '\\' then "\\\\"
  else if c = '\n' then "\\n"
  else if c = '\r' then "\\r"
  else if c = '\t' then "\\t"
  else if c.toNat = 0 then "\\0"
  else if isHidden c then "\\u\x7b" ++ hex c.toNat ++ "\x7d"
  else String.utf8EncodeChar c

/-- A text between quotes, as error messages show it. -/
def shown (t : Text) : Text :=
  "\"" ++ (chars t).flatMap shownChar ++ "\""

/-- A byte of a string literal. -/
def quoteByte (b : UInt8) : Text :=
  if b = 0x22 then "\\\""
  else if b = 0x5C then "\\\\"
  else if b = 0x0A then "\\n"
  else if b = 0x09 then "\\t"
  else if b = 0x0D then "\\r"
  else [b]

/-- A string literal for a text. -/
def quote (t : Text) : Text :=
  "\"" ++ t.flatMap quoteByte ++ "\""

/-- What stands between a pair of the byte `mark`. -/
def between? (mark : UInt8) (t : Text) : Option Text :=
  (stripPrefix? [mark] t).bind (stripSuffix? [mark])

/-- The contents of a string literal, escapes kept as written; any other text as it is. -/
def unquote (literal : Text) : Text :=
  ((between? 0x22 literal).orElse fun _ => between? 0x60 literal).getD literal

end Interlace.Text
