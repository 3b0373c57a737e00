import Interlace.Text.Quoted

/-!
# JSON values

JSON as it is read and written here. A value keeps the members of its objects in the order of
the text, and it keeps the place where its text went wrong: a decoder that looks at the parts of
a value from left to right meets a fault of the text exactly when it comes to it, after any
fault in the parts before.

`Json.render` writes a value without white space.
-/

namespace Interlace

/-- What is wrong with a JSON text or with the value it holds. -/
inductive JsonFault where
  | eofValue
  | eofObject
  | eofList
  | eofString
  | expectedValue
  | expectedIdent
  | expectedColon
  | expectedObjectComma
  | expectedListComma
  | trailingComma
  | trailingCharacters
  | keyNotString
  | invalidEscape
  | controlCharacter
  | loneSurrogate
  | endOfEscape
  | invalidCodePoint
  | invalidNumber
  | numberRange
  | recursionLimit
  | invalidType (found wanted : Text)
  | invalidValue (found wanted : Text)
  | invalidLength (length : Nat) (wanted : Text)
  | missingField (name : Text)
  | unknownField (name : Text) (known : List Text)
  | duplicateField (name : Text)
  | unknownVariant (name : Text) (known : List Text)
  | custom (text : Text)
  deriving DecidableEq, Repr

namespace JsonFault

/-- A text between backquotes. -/
def ticked (t : Text) : Text :=
  "\x60" ++ t ++ "\x60"

/-- The names that would have been right. -/
def expectedNames : List Text → Text
  | [a] => "expected " ++ ticked a
  | [a, b] => "expected " ++ ticked a ++ " or " ++ ticked b
  | l => "expected one of " ++ Text.join ", " (l.map ticked)

/-- The wording of a fault. -/
def message : JsonFault → Text
  | eofValue => "EOF while parsing a value"
  | eofObject => "EOF while parsing an object"
  | eofList => "EOF while parsing a list"
  | eofString => "EOF while parsing a string"
  | expectedValue => "expected value"
  | expectedIdent => "expected ident"
  | expectedColon => "expected \x60:\x60"
  | expectedObjectComma => "expected \x60,\x60 or \x60\x7d\x60"
  | expectedListComma => "expected \x60,\x60 or \x60]\x60"
  | trailingComma => "trailing comma"
  | trailingCharacters => "trailing characters"
  | keyNotString => "key must be a string"
  | invalidEscape => "invalid escape"
  | controlCharacter => "control character (\\u0000-\\u001F) found while parsing a string"
  | loneSurrogate => "lone leading surrogate in hex escape"
  | endOfEscape => "unexpected end of hex escape"
  | invalidCodePoint => "invalid unicode code point"
  | invalidNumber => "invalid number"
  | numberRange => "number out of range"
  | recursionLimit => "recursion limit exceeded"
  | invalidType found wanted => "invalid type: " ++ found ++ ", expected " ++ wanted
  | invalidValue found wanted => "invalid value: " ++ found ++ ", expected " ++ wanted
  | invalidLength length wanted =>
    "invalid length " ++ Text.ofNat length ++ ", expected " ++ wanted
  | missingField name => "missing field " ++ ticked name
  | unknownField name known => "unknown field " ++ ticked name ++ ", " ++ expectedNames known
  | duplicateField name => "duplicate field " ++ ticked name
  | unknownVariant name known => "unknown variant " ++ ticked name ++ ", " ++ expectedNames known
  | custom text => text

end JsonFault

/-- A JSON value, perhaps cut short by a fault of its text. -/
inductive Json where
  | null
  | bool (b : Bool)
  /-- A whole number from zero up. -/
  | nat (n : Nat)
  /-- A whole number below zero, by its absolute value. -/
  | neg (n : Nat)
  /-- Any other number, by its decimal digits. -/
  | float (digits : Text)
  | string (t : Text)
  /-- The items, and the fault that follows them, if any. -/
  | array (items : List Json) (fault : Option JsonFault)
  /-- The members in the order of the text, and what follows them. -/
  | object (members : List (Text × Json)) (fault : Option JsonFault)
  /-- An object with a key that is no string. -/
  | badKey (members : List (Text × Json)) (key : Json)
  /-- Text that is no value. -/
  | broken (fault : JsonFault)
  /-- The end of the text in place of a value. -/
  | missing
  deriving Inhabited

namespace Json

/-- A list of values. -/
def list (items : List Json) : Json := array items none

/-- An object with the given members. -/
def record (members : List (Text × Json)) : Json := object members none

/-- What a fault calls the value. -/
def describe : Json → Text
  | null => "null"
  | bool b => "boolean \x60" ++ (if b then "true" else "false") ++ "\x60"
  | nat n => "integer \x60" ++ Text.ofNat n ++ "\x60"
  | neg n => "integer \x60-" ++ Text.ofNat n ++ "\x60"
  | float digits => "floating point \x60" ++ digits ++ "\x60"
  | string t => "string " ++ Text.shown t
  | array .. => "sequence"
  | object .. | badKey .. => "map"
  | broken _ | missing => []

/-! ## Writing -/

/-- A byte of a string. -/
def escapeByte (b : UInt8) : Text :=
  if b = 0x22 then "\\\""
  else if b = 0x5C then "\\\\"
  else if b = 0x08 then "\\b"
  else if b = 0x09 then "\\t"
  else if b = 0x0A then "\\n"
  else if b = 0x0C then "\\f"
  else if b = 0x0D then "\\r"
  else if b < 0x20 then "\\u00" ++ Text.hexByte b
  else [b]

/-- A string in quotes. -/
def renderString (t : Text) : Text :=
  "\"" ++ t.flatMap escapeByte ++ "\""

mutual

/-- The text of a value. -/
def render : Json → Text
  | null => "null"
  | bool b => if b then "true" else "false"
  | nat n => Text.ofNat n
  | neg n => "-" ++ Text.ofNat n
  | float digits => digits
  | string t => renderString t
  | array items _ => "[" ++ Text.join "," (renderItems items) ++ "]"
  | object members _ => "\x7b" ++ Text.join "," (renderMembers members) ++ "\x7d"
  | badKey members _ => "\x7b" ++ Text.join "," (renderMembers members) ++ "\x7d"
  | broken _ => []
  | missing => []

/-- The texts of several values. -/
def renderItems : List Json → List Text
  | [] => []
  | j :: rest => render j :: renderItems rest

/-- The texts of the members of an object. -/
def renderMembers : List (Text × Json) → List Text
  | [] => []
  | (key, j) :: rest => (renderString key ++ ":" ++ render j) :: renderMembers rest

end

mutual

/-- The number of values inside one another. -/
def depth : Json → Nat
  | array items _ => depthItems items + 1
  | object members _ => depthMembers members + 1
  | badKey members _ => depthMembers members + 1
  | _ => 1

/-- The greatest depth of several values. -/
def depthItems : List Json → Nat
  | [] => 0
  | j :: rest => max (depth j) (depthItems rest)

/-- The greatest depth of the members of an object. -/
def depthMembers : List (Text × Json) → Nat
  | [] => 0
  | (_, j) :: rest => max (depth j) (depthMembers rest)

end

end Json

end Interlace
