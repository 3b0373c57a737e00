import Interlace.Syntax.Grammar

/-!
# Types, parameters and fields

The rules for types. The argument `closed` tells whether a line break ends the type: then no
optional part is looked for on the next line.
-/

namespace Interlace.Syntax

open Reading

namespace Rules

variable (rules : Rules)

/-- Types joined by bars. -/
def typeElem (closed : Bool) : Reading Tree := do
  node .typeElem (← separated (! closed) "|" (rules.typeOf closed))

/-- Type arguments in brackets. -/
def typeArguments (breaks : Bool) : Reading Tree := do
  let opening ← symbol breaks "["
  let items ← separated true "," (rules.typeElem false)
  let comma ← opt (one (symbol true ","))
  let closing ← symbol true "]"
  node .typeArguments (opening :: items ++ comma ++ [closing])

/-- A type as a generic type, if type arguments follow. -/
def instantiated (closed : Bool) (type : Tree) : Reading Tree :=
  (do
    let arguments ← rules.typeArguments (! closed)
    node .genericType [type.withField .type, arguments.withField .typeArguments])
  <|> return type

/-- A type name, perhaps qualified by a package. -/
def typeName (closed : Bool) (reserved : List Text) : Reading Tree := do
  let name ← word true .typeIdentifier reserved
  (do
    let dot ← symbol (! closed) "."
    let member ← word true .typeIdentifier []
    node .qualifiedType
      [(name.withKind .packageIdentifier).withField .package, dot, member.withField .name])
  <|> return name

/-- A parameter: names that share a type, a type alone, or a variadic parameter. -/
def parameter : Reading Tree :=
  (do
    let name ← opt (one (as .name (word true .identifier typeWords)))
    let dots ← symbol true "..."
    let type ← as .type (rules.typeOf false)
    node .variadicParameterDeclaration (name ++ [dots, type]))
  <|> (do
    let names ← separated true "," (as .name (word true .identifier typeWords))
    let type ← as .type (rules.typeOf false)
    -- Names are taken greedily: in a list of names and one type, all share the type.
    if (← sees true ",") || (← sees true ")") then
      node .parameterDeclaration (names ++ [type])
    else failure)
  <|> (do
    let type ← as .type (rules.typeOf false)
    node .parameterDeclaration [type])

/-- Parameters in parentheses. -/
def parameterList (breaks : Bool) : Reading Tree := do
  let opening ← symbol breaks "("
  let items ← opt (separated true "," rules.parameter)
  let comma ← opt (one (symbol true ","))
  let closing ← symbol true ")"
  node .parameterList (opening :: items ++ comma ++ [closing])

/-- The result of a function: parameters in parentheses or a type without parentheses. -/
def result (closed : Bool) : Reading Tree := do
  if ← sees (! closed) "(" then rules.parameterList (! closed)
  else if closed && (← ahead false).head? = some Text.newline then failure
  else rules.typeOf closed

/-- Parameters and result of a function. -/
def signature (closed : Bool) : Reading (List Tree) := do
  let parameters ← as .parameters (rules.parameterList true)
  let result ← opt (one (as .result (rules.result closed)))
  return parameters :: result

/-- A method of an interface. -/
def methodElem : Reading Tree := do
  let name ← as .name (word true .fieldIdentifier [])
  if ← sees false "(" then
    node .methodElem (name :: (← rules.signature true))
  else failure

/-- Items in braces, ended by line breaks or semicolons; the last one need not be. -/
def bracedItems (item : Reading Tree) : Reading (List Tree) := do
  let opening ← symbol true "\x7b"
  let items ← opt do
    let first ← item
    let more ← many do
      let stop ← terminator
      return stop ++ [← item]
    let stop ← opt terminator
    return first :: more ++ stop
  let closing ← symbol true "\x7d"
  return opening :: items ++ [closing]

/-- A tag after a field. -/
def fieldTag : Reading (List Tree) :=
  opt (one (as .tag (Literal.string false)))

/-- A field ends here. -/
def fieldEnds : Reading Bool := do
  match ← ahead false with
  | b :: _ => return b = Text.newline || b = 0x3B || b = 0x7D || b = 0x00
  | [] => return false

/-- A field of a struct: an embedded type, or names that share a type. -/
def fieldDeclaration : Reading Tree :=
  (do
    let star ← opt (one (symbol true "*"))
    let name ← typeName true []
    let type ← rules.instantiated true name
    let tag ← fieldTag
    if ← fieldEnds then node .fieldDeclaration (star ++ [type.withField .type] ++ tag)
    else failure)
  <|> (do
    let names ← separated true "," (as .name (word true .fieldIdentifier []))
    let type ← as .type (rules.typeOf true)
    let tag ← fieldTag
    node .fieldDeclaration (names ++ [type] ++ tag))

/-- A struct type. -/
def structType : Reading Tree := do
  let struct ← keyword true "struct"
  let fields ← node .fieldDeclarationList (← bracedItems rules.fieldDeclaration)
  node .structType [struct, fields]

/-- An interface type. -/
def interfaceType : Reading Tree := do
  let interface ← keyword true "interface"
  let items ← bracedItems (rules.methodElem <|> rules.typeElem true)
  node .interfaceType (interface :: items)

/-- A map type. -/
def mapType (closed : Bool) : Reading Tree := do
  let map ← keyword true "map"
  let opening ← symbol true "["
  let key ← as .key (rules.typeOf false)
  let closing ← symbol true "]"
  let value ← as .value (rules.typeOf closed)
  node .mapType [map, opening, key, closing, value]

/-- A channel type; an arrow after the word belongs to the element type if that is a channel to
receive from. -/
def channelType (closed : Bool) : Reading Tree :=
  (do
    let arrow ← symbol true "<-"
    let chan ← keyword true "chan"
    let value ← as .value (rules.typeOf closed)
    node .channelType [arrow, chan, value])
  <|> (do
    let chan ← keyword true "chan"
    let value ← as .value (rules.typeOf closed)
    node .channelType [chan, value])
  <|> (do
    let chan ← keyword true "chan"
    let arrow ← symbol true "<-"
    let value ← as .value (rules.typeOf closed)
    node .channelType [chan, arrow, value])

/-- A function type. -/
def functionType (closed : Bool) : Reading Tree := do
  let func ← keyword true "func"
  node .functionType (func :: (← rules.signature closed))

/-- A slice or array type. -/
def sequenceType (closed : Bool) : Reading Tree := do
  let opening ← symbol true "["
  if ← sees true "]" then
    let closing ← symbol true "]"
    let element ← as .element (rules.typeOf closed)
    node .sliceType [opening, closing, element]
  else
    let length ← as .length (rules.expression .inner)
    let closing ← symbol true "]"
    let element ← as .element (rules.typeOf closed)
    node .arrayType [opening, length, closing, element]

/-- The type of an array literal that counts its elements itself. -/
def countedArrayType : Reading Tree := do
  let opening ← symbol true "["
  let dots ← symbol true "..."
  let closing ← symbol true "]"
  let element ← as .element (rules.typeOf false)
  node .implicitLengthArrayType [opening, dots, closing, element]

/-- A type. -/
def typeRule (closed : Bool) : Reading Tree := do
  match ← ahead true with
  | 0x2A :: _ =>
    let star ← symbol true "*"
    node .pointerType [star, ← rules.typeOf closed]
  | 0x28 :: _ =>
    let opening ← symbol true "("
    let type ← rules.typeOf false
    let closing ← symbol true ")"
    node .parenthesizedType [opening, type, closing]
  | 0x5B :: _ => rules.sequenceType closed
  | 0x7E :: _ =>
    let tilde ← symbol true "~"
    let negated ← node .negatedType [tilde, ← rules.typeOf closed]
    rules.instantiated closed negated
  | 0x3C :: _ => rules.channelType closed
  | _ =>
    let w ← aheadWord true
    if w = "func" then rules.functionType closed
    else if w = "map" then rules.mapType closed
    else if w = "chan" then rules.channelType closed
    else if w = "struct" then rules.structType
    else if w = "interface" then rules.interfaceType
    else rules.instantiated closed (← typeName closed [])

/-- A type parameter: names that share a constraint. -/
def typeParameter : Reading Tree := do
  let names ← separated true "," (as .name (word true .identifier []))
  let constraint ← rules.typeElem false
  node .typeParameterDeclaration (names ++ [(constraint.withKind .typeConstraint).withField .type])

/-- Type parameters in brackets. -/
def typeParameterList : Reading Tree := do
  let opening ← symbol true "["
  let items ← separated true "," rules.typeParameter
  let comma ← opt (one (symbol true ","))
  let closing ← symbol true "]"
  node .typeParameterList (opening :: items ++ comma ++ [closing])

end Rules

end Interlace.Syntax
