import Interlace.Dict
import Interlace.Json.Parse

/-!
# Decoding JSON

From JSON values to the values they stand for. A decoder looks at the parts of a value in the
order of the text and reports the first fault it meets, be it a fault of the text or of what
the text says.

Records are objects or, for short, lists of their fields in order. A choice is an object whose
only key names the alternative, or the name alone when the alternative holds nothing.
-/

namespace Interlace.Json

/-- The result of decoding. -/
abbrev Decoded := Except JsonFault

/-- Whether a value is decoded while its text is being read, or after. It matters only to the
wording of some faults. -/
inductive Origin where
  | text
  | value
  deriving DecidableEq, Repr

/-- The fault of a value of the wrong type. -/
def mismatch {α : Type} (wanted : Text) : Json → Decoded α
  | broken fault => .error fault
  | missing => .error .eofValue
  | j => .error (.invalidType j.describe wanted)

/-- Decodes a string. -/
def asText : Json → Decoded Text
  | string t => .ok t
  | j => mismatch "a string" j

/-- Decodes a truth value. -/
def asBool : Json → Decoded Bool
  | bool b => .ok b
  | j => mismatch "a boolean" j

/-- Decodes a whole number from zero up. -/
def asNat : Json → Decoded Nat
  | nat n => .ok n
  | neg n => .error (.invalidValue (neg n).describe "usize")
  | j => mismatch "usize" j

/-- Decodes the value that says nothing. -/
def asUnit : Json → Decoded Unit
  | null => .ok ()
  | j => mismatch "unit" j

/-- Decodes something that may be absent. -/
def asOption {α : Type} (decode : Json → Decoded α) : Json → Decoded (Option α)
  | null => .ok none
  | j => (decode j).map some

/-- Succeeds unless there is a fault. -/
def unlessFault : Option JsonFault → Decoded Unit
  | none => .ok ()
  | some fault => .error fault

/-- Decodes a list. -/
def asList {α : Type} (decode : Json → Decoded α) : Json → Decoded (List α)
  | array items fault => do
    let decoded ← items.mapM decode
    unlessFault fault
    return decoded
  | j => mismatch "a sequence" j

/-- Decodes the members of an object into a dictionary; of several members with one key the last
counts. -/
def asEntries {α : Type} (decode : Json → Decoded α) (members : List (Text × Json)) :
    Decoded (Dict α) :=
  members.foldlM
    (fun d (key, value) => do
      let a ← decode value
      return d.insert key a)
    Dict.empty

/-- Decodes a dictionary. -/
def asDict {α : Type} (decode : Json → Decoded α) : Json → Decoded (Dict α)
  | object members fault => do
    let decoded ← asEntries decode members
    unlessFault fault
    return decoded
  | badKey members _ => do
    let _ ← asEntries decode members
    .error .keyNotString
  | j => mismatch "a map" j

/-- Decodes a set of texts. -/
def asTextSet (j : Json) : Decoded TextSet :=
  (asList asText j).map TextSet.ofList

mutual

/-- The first fault of the text of a value that is passed over. Of a number that is passed over
the size does not matter. -/
def fault? : Json → Option JsonFault
  | broken fault => if fault = .numberRange then none else some fault
  | missing => some .eofValue
  | array items fault =>
    itemFault? items <|> fault.map fun f => if f = .trailingComma then .expectedValue else f
  | object members fault =>
    memberFault? members <|> fault.map fun f =>
      if f = .trailingComma then .keyNotString else if f = .eofValue then .eofObject else f
  | badKey members _ => memberFault? members <|> some .keyNotString
  | _ => none

/-- The first fault in several values that are passed over. -/
def itemFault? : List Json → Option JsonFault
  | [] => none
  | j :: rest => fault? j <|> itemFault? rest

/-- The first fault in members that are passed over. -/
def memberFault? : List (Text × Json) → Option JsonFault
  | [] => none
  | (_, j) :: rest => fault? j <|> memberFault? rest

end

/-! ## Records -/

/-- When a field has to be given. -/
inductive Presence where
  | always
  /-- It may be left out of an object, but not of a list of fields. -/
  | inLists
  | optional
  deriving DecidableEq, Repr

/-- A field of a record of type `σ`. -/
structure FieldShape (σ : Type) where
  name : Text
  presence : Presence
  /-- The record with the field decoded from a value. -/
  set : Json → σ → Decoded σ

/-- How a record of type `σ` is written. -/
structure RecordShape (σ : Type) where
  /-- What faults call the record. -/
  title : Text
  /-- Members that are no fields are faults. -/
  strict : Bool
  fields : List (FieldShape σ)
  /-- The record before any field is set. -/
  blank : σ

namespace RecordShape

variable {σ : Type}

/-- The names of the fields. -/
def names (shape : RecordShape σ) : List Text :=
  shape.fields.map FieldShape.name

/-- Sets fields from members; `seen` are the fields that were set before. -/
def setMembers (shape : RecordShape σ) :
    (seen : List Text) → σ → List (Text × Json) → Decoded (List Text × σ)
  | seen, s, [] => .ok (seen, s)
  | seen, s, (key, value) :: rest =>
    match shape.fields.find? (·.name = key) with
    | some field =>
      if key ∈ seen then .error (.duplicateField key)
      else do
        let s ← field.set value s
        setMembers shape (key :: seen) s rest
    | none =>
      if shape.strict then .error (.unknownField key shape.names)
      else do
        -- The value is passed over, but it has to be well formed.
        unlessFault value.fault?
        setMembers shape seen s rest

/-- The first field that had to be given and was not. -/
def absent? (shape : RecordShape σ) (seen : List Text) : Option Text :=
  (shape.fields.find? fun f => f.presence = .always && ! seen.contains f.name).map
    FieldShape.name

/-- Decodes the members of an object. -/
def ofMembers (shape : RecordShape σ) (members : List (Text × Json))
    (fault : Option JsonFault) : Decoded σ := do
  -- Faults of the text come before fields that are absent: those show at the end.
  let (seen, s) ← shape.setMembers [] shape.blank members
  unlessFault fault
  match shape.absent? seen with
  | some name => .error (.missingField name)
  | none => .ok s

/-- What a list of fields that is too short should have been. -/
def wantedLength (shape : RecordShape σ) : Text :=
  let count := shape.fields.length
  shape.title ++ " with " ++ Text.ofNat count ++ (if count = 1 then " element" else " elements")

/-- Sets the fields from number `index` on from items, and gives the items left over. -/
def setItems (shape : RecordShape σ) (fault : Option JsonFault) :
    (index : Nat) → List (FieldShape σ) → σ → List Json → Decoded (σ × List Json)
  | _, [], s, items => .ok (s, items)
  | index, field :: fields, s, item :: items => do
    let s ← field.set item s
    setItems shape fault (index + 1) fields s items
  | index, field :: fields, s, [] => do
    unlessFault fault
    if field.presence = .optional then setItems shape fault (index + 1) fields s []
    else .error (.invalidLength index shape.wantedLength)

/-- The fault of a list that goes on behind the last field. -/
def leftOver (o : Origin) (length : Nat) (rest : List Json) :
    Option JsonFault → Option JsonFault
  | none =>
    if rest.isEmpty then none
    else
      match o with
      | .text => some .trailingCharacters
      | .value => some (.invalidLength length "fewer elements in array")
  | some fault =>
    if rest.isEmpty && (fault = .trailingComma || fault = .eofList) then some fault
    else some .trailingCharacters

/-- Decodes a list of fields. -/
def ofItems (o : Origin) (shape : RecordShape σ) (items : List Json)
    (fault : Option JsonFault) : Decoded σ := do
  let (s, rest) ← shape.setItems fault 0 shape.fields shape.blank items
  unlessFault (leftOver o items.length rest fault)
  return s

/-- Decodes a record. -/
def decode (o : Origin) (shape : RecordShape σ) : Json → Decoded σ
  | object members fault => shape.ofMembers members fault
  | badKey members _ => shape.ofMembers members (some .keyNotString)
  | array items fault => shape.ofItems o items fault
  | j => mismatch shape.title j

/-- Decodes the fields of an alternative. -/
def decodeContent (o : Origin) (shape : RecordShape σ) (j : Json) : Decoded σ :=
  match o, j with
  | .text, j => shape.decode o j
  | .value, object members fault => shape.ofMembers members fault
  | .value, j => mismatch "struct variant" j

end RecordShape

/-! ## Choices -/

/-- What an alternative holds. -/
inductive Content (α : Type) where
  | nothing (value : α)
  | single (decode : Json → Decoded α)
  | fields (decode : Json → Decoded α)

/-- An alternative of a choice. -/
structure Variant (α : Type) where
  name : Text
  content : Content α

namespace Variant

variable {α : Type}

/-- The alternative of a name. -/
def named (variants : List (Variant α)) (name : Text) : Decoded (Content α) :=
  match variants.find? (·.name = name) with
  | some a => .ok a.content
  | none => .error (.unknownVariant name (variants.map Variant.name))

/-- An alternative that is given by its name alone. -/
def bare : Content α → Decoded α
  | .nothing value => .ok value
  | .single _ => .error (.invalidType "unit variant" "newtype variant")
  | .fields _ => .error (.invalidType "unit variant" "struct variant")

/-- An alternative with what it holds. -/
def held (j : Json) : Content α → Decoded α
  | .nothing value => (asUnit j).map fun _ => value
  | .single decode => decode j
  | .fields decode => decode j

/-- A fault of a word or of a number. A choice is neither, so its first character is as far as
it is read. -/
def isScalar : JsonFault → Bool
  | .expectedValue | .expectedIdent | .invalidNumber | .numberRange | .eofValue => true
  | _ => false

/-- Decodes a choice while its text is being read: behind what the alternative holds, nothing
but the closing brace is looked for. -/
def ofText (variants : List (Variant α)) : Json → Decoded α
  | string name => named variants name >>= bare
  | object ((name, j) :: rest) fault => do
    let a ← named variants name >>= held j
    if rest.isEmpty && fault = none then return a
    else if rest.isEmpty && fault = some .eofObject then .error .eofObject
    else .error .expectedValue
  | badKey ((name, j) :: _) _ => do
    let _ ← named variants name >>= held j
    .error .expectedValue
  | object [] none => .error .expectedValue
  | object [] (some fault) => .error (if fault = .eofObject then .eofValue else fault)
  | badKey [] key => mismatch "variant identifier" key
  | missing => .error .eofValue
  | broken fault => .error (if isScalar fault then .expectedValue else fault)
  | _ => .error .expectedValue

/-- Decodes a choice from a value that has been read. -/
def ofValue (variants : List (Variant α)) : Json → Decoded α
  | string name => named variants name >>= bare
  | object [(name, j)] _ => named variants name >>= held j
  | object members fault =>
    .error (.invalidValue (object members fault).describe "map with a single key")
  | j => mismatch "string or map" j

/-- Decodes a choice. -/
def decode (o : Origin) (variants : List (Variant α)) (j : Json) : Decoded α :=
  match o with
  | .text => ofText variants j
  | .value => ofValue variants j

end Variant

/-- Decodes a text that holds one value. -/
def decodeText {α : Type} (decode : Json → Decoded α) (t : Text) : Decoded α := do
  let (j, more) := parse t
  let a ← decode j
  if more then .error .trailingCharacters else return a

end Interlace.Json
