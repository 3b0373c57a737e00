import Interlace.Syntax.Types

/-!
# Expressions

The rules for expressions. Operands take suffixes (selectors, indices, calls, literal values)
as far as they go; binary operators are read by precedence, each level to the left.

Some texts have several readings as an expression or a type. The reading that is chosen here:
a name followed by bracketed types and one argument in parentheses converts that argument to
the generic type; with any other arguments it is a call with type arguments; brackets that hold
an expression and are not followed by arguments are an index.
-/

namespace Interlace.Syntax

open Reading

/-- A binary operator with its precedence; the longest spellings come first. -/
def binaryOperators : List (String × Nat) :=
  [("<<", 5), (">>", 5), ("&^", 5), ("&&", 2), ("||", 1), ("==", 3), ("!=", 3), ("<=", 3),
    (">=", 3), ("*", 5), ("/", 5), ("%", 5), ("&", 5), ("+", 4), ("-", 4), ("|", 4), ("^", 4),
    ("<", 3), (">", 3)]

/-- The operators that assign, the longest spellings first. -/
def assignmentOperators : List String :=
  ["<<=", ">>=", "&^=", "*=", "/=", "%=", "&=", "+=", "-=", "|=", "^=", "="]

/-- The assignment operator that a text starts with. -/
def assignmentOperator? (t : Text) : Option String :=
  if Text.startsWith t "==" then none
  else assignmentOperators.find? fun spelling => Text.startsWith t spelling

/-- The binary operator that a text starts with, with its precedence. -/
def binaryOperator? (follow : Follow) (t : Text) : Option (String × Nat) :=
  if (assignmentOperator? t).isSome then none
  else if follow.step &&
      (Text.startsWith t "++" || Text.startsWith t "--" || Text.startsWith t "<-") then none
  else binaryOperators.find? fun (spelling, _) => Text.startsWith t spelling

/-- The operators that stand before their operand. -/
def unaryOperators : List String := ["<-", "+", "-", "!", "^", "*", "&"]

/-- A name, or a name qualified by a name: what can also be read as the name of a type. -/
def Tree.isTypeName (t : Tree) : Bool :=
  t.kind = .identifier ||
    (t.kind = .selectorExpression && (t.child? .operand).any (·.kind = .identifier))

/-- A name read as the name of a type. -/
def Tree.asTypeName (t : Tree) : Tree :=
  match t with
  | .node .selectorExpression f s e [operand, dot, member] =>
    .node .qualifiedType f s e
      [(operand.withKind .packageIdentifier).withField .package, dot,
        (member.withKind .typeIdentifier).withField .name]
  | .node _ f s e cs => .node .typeIdentifier f s e cs

/-- A type that cannot be read as an expression: under pointers and parentheses there is
something else than a name. -/
def Tree.isSpelledOut (t : Tree) : Bool :=
  let bare := t.preorder.find? fun n =>
    n.isNamed && n.kind ≠ .pointerType && n.kind ≠ .parenthesizedType
  bare.any fun n =>
    n.kind ≠ .typeIdentifier && n.kind ≠ .qualifiedType && n.kind ≠ .genericType

namespace Rules

variable (rules : Rules)

/-- An argument, perhaps spread over variadic parameters. -/
def argument : Reading Tree := do
  let value ← rules.expression .inner
  (do node .variadicArgument [value, ← symbol true "..."]) <|> return value

/-- Arguments in parentheses. -/
def argumentList (breaks : Bool) : Reading Tree := do
  let opening ← symbol breaks "("
  let items ← opt do
    let items ← separated true "," rules.argument
    return items ++ (← opt (one (symbol true ",")))
  let closing ← symbol true ")"
  node .argumentList (opening :: items ++ [closing])

/-- The arguments of a built-in allocation: a type, then expressions. -/
def allocationArguments (breaks : Bool) : Reading Tree := do
  let opening ← symbol breaks "("
  let items ← opt do
    let type ← rules.typeOf false
    let more ← many do
      let comma ← symbol true ","
      return [comma, ← rules.expression .inner]
    return type :: more ++ (← opt (one (symbol true ",")))
  let closing ← symbol true ")"
  node .argumentList (opening :: items ++ [closing])

/-- An element of a composite literal. -/
def literalElement : Reading Tree := do
  if ← sees true "\x7b" then node .literalElement [← rules .literalValue]
  else node .literalElement [← rules.expression .inner]

/-- An element of a composite literal, perhaps with a key. -/
def keyedElement : Reading Tree := do
  let first ← rules.literalElement
  (do
    let colon ← symbol true ":"
    let value ← as .value rules.literalElement
    node .keyedElement [first.withField .key, colon, value])
  <|> return first

/-- The braces of a composite literal. -/
def literalValueRule : Reading Tree := do
  let opening ← symbol true "\x7b"
  let items ← opt (separated true "," rules.keyedElement)
  let comma ← opt (one (symbol true ","))
  let closing ← symbol true "\x7d"
  node .literalValue (opening :: items ++ comma ++ [closing])

/-- A composite literal of a type that has been read. -/
def composite (type : Tree) : Reading Tree := do
  let body ← as .body (rules .literalValue)
  node .compositeLiteral [type.withField .type, body]

/-- A conversion to a type that has been read. -/
def conversion (type : Tree) : Reading Tree := do
  let opening ← symbol true "("
  let value ← as .operand (rules.expression .inner)
  let comma ← opt (one (symbol true ","))
  let closing ← symbol true ")"
  node .typeConversionExpression ([type.withField .type, opening, value] ++ comma ++ [closing])

/-- An expression that starts with a type spelled out: a literal of it or a conversion. -/
def typeLed (type : Tree) : Reading Tree := do
  if ← sees true "\x7b" then rules.composite type else rules.conversion type

/-- A function literal. -/
def functionLiteral : Reading Tree := do
  let func ← keyword true "func"
  let signature ← rules.signature false
  let body ← as .body (rules .block)
  node .funcLiteral (func :: signature ++ [body])

/-- An expression in parentheses, or a conversion to a type in parentheses. -/
def parenthesized : Reading Tree :=
  (do
    let opening ← symbol true "("
    let value ← rules.expression .inner
    let closing ← symbol true ")"
    node .parenthesizedExpression [opening, value, closing])
  <|> (do
    let opening ← symbol true "("
    let type ← rules.typeOf false
    let closing ← symbol true ")"
    rules.conversion (← node .parenthesizedType [opening, type, closing]))

/-- An operand that starts with a word. -/
def wordOperand (follow : Follow) (w : Text) : Reading Tree := do
  if w = "func" then rules.functionLiteral <|> (do rules.conversion (← rules.functionType false))
  else if w = "map" then rules.typeLed (← rules.mapType false)
  else if w = "struct" then rules.typeLed (← rules.structType)
  else if w = "interface" then rules.conversion (← rules.interfaceType)
  else if w = "chan" then rules.conversion (← rules.channelType false)
  else if w = "nil" then word true .nilLiteral []
  else if w = "true" then word true .trueLiteral []
  else if w = "false" then word true .falseLiteral []
  else if w = "iota" then word true .iotaLiteral []
  else if w = "new" || w = "make" then
    let name ← word true .identifier []
    if ← sees follow.breaks "(" then
      let arguments ← as .arguments (rules.allocationArguments follow.breaks)
      node .callExpression [name.withField .function, arguments]
    else return name
  else word true .identifier []

/-- An operand without suffixes. -/
def operand (follow : Follow) : Reading Tree := do
  let t ← ahead true
  match t with
  | 0x28 :: _ => rules.parenthesized
  | 0x5B :: _ => do
    let type ← rules.countedArrayType <|> rules.sequenceType false
    rules.typeLed type
  | 0x22 :: _ => Literal.string true
  | 0x60 :: _ => Literal.string true
  | 0x27 :: _ =>
    match Literal.rune? t with
    | some width => token true .runeLiteral width
    | none => failure
  | _ =>
    match Literal.number? t with
    | some (kind, width) => token true kind width
    | none =>
      let w ← aheadWord true
      if w = [] then failure else rules.wordOperand follow w

/-- A selector or a type assertion after an operand. -/
def selection (follow : Follow) (left : Tree) : Reading Tree := do
  let dot ← symbol follow.breaks "."
  if ← sees true "(" then
    let opening ← symbol true "("
    if follow.typeGuard && (← aheadWord true) = "type" then failure
    else
      let type ← as .type (rules.typeOf false)
      let closing ← symbol true ")"
      node .typeAssertionExpression [left.withField .operand, dot, opening, type, closing]
  else
    let member ← as .field (word true .fieldIdentifier [])
    node .selectorExpression [left.withField .operand, dot, member]

/-- Type arguments after an operand, with what they are for: a conversion, a call or a
literal. -/
def instantiation (follow : Follow) (left : Tree) : Reading Tree := do
  let arguments ← do
    let s ← get
    let opening := s.skip follow.breaks
    let first := (opening.drop 1).skip true
    let w := first.rest.take (Text.identifierWidth first.rest)
    -- Words that are operands of their own are no types here.
    if operandWords.contains w then failure else rules.typeArguments follow.breaks
  if ← sees follow.breaks "(" then
    let generic ← node .genericType
      [left.asTypeName.withField .type, arguments.withField .typeArguments]
    (if left.isTypeName then rules.conversion generic else failure)
      <|> (do
        let values ← as .arguments (rules.argumentList follow.breaks)
        node .callExpression
          [left.withField .function, arguments.withField .typeArguments, values])
  else if ! follow.block && left.isTypeName && (← sees follow.breaks "\x7b") then
    let generic ← node .genericType
      [left.asTypeName.withField .type, arguments.withField .typeArguments]
    rules.composite generic
  else failure

/-- An index or a slice of an operand. -/
def subscript (follow : Follow) (left : Tree) : Reading Tree := do
  let opening ← symbol follow.breaks "["
  let first ← opt (one (rules.expression .inner))
  if ← sees true "]" then
    match first with
    | [index] =>
      let closing ← symbol true "]"
      node .indexExpression [left.withField .operand, opening, index.withField .index, closing]
    | _ => failure
  else
    let start := first.map (Tree.withField .start)
    let colon ← symbol true ":"
    let stop ← opt (one (as .stop (rules.expression .inner)))
    let capacity ← opt do
      let colon ← symbol true ":"
      if stop = [] then failure else return [colon, ← as .capacity (rules.expression .inner)]
    let closing ← symbol true "]"
    node .sliceExpression
      ([left.withField .operand, opening] ++ start ++ [colon] ++ stop ++ capacity ++ [closing])

/-- A generic function with its type arguments, not called. -/
def namedInstance (follow : Follow) (left : Tree) : Reading Tree := do
  if left.isTypeName then
    let opening ← symbol follow.breaks "["
    let types ← separated true "," (rules.typeOf false)
    let comma ← opt (one (symbol true ","))
    let closing ← symbol true "]"
    node .typeInstantiationExpression
      ([left.asTypeName.withField .type, opening] ++ types ++ comma ++ [closing])
  else failure

/-- One suffix of an operand. -/
def suffix (follow : Follow) (left : Tree) : Reading Tree := do
  match ← ahead follow.breaks with
  -- Dots that spread an argument.
  | 0x2E :: 0x2E :: _ => failure
  | 0x2E :: _ => rules.selection follow left
  | 0x28 :: _ =>
    let arguments ← as .arguments (rules.argumentList follow.breaks)
    node .callExpression [left.withField .function, arguments]
  | 0x5B :: _ =>
    rules.instantiation follow left <|> rules.subscript follow left
      <|> rules.namedInstance follow left
  | 0x7B :: _ =>
    -- Where a block may follow, the brace is the block's.
    if ! follow.block && left.isTypeName then rules.composite left.asTypeName else failure
  | _ => failure

/-- All suffixes of an operand, `fuel` at most. -/
def suffixes (follow : Follow) : (fuel : Nat) → Tree → Reading Tree
  | 0, left => return left
  | fuel + 1, left =>
    (do suffixes follow fuel (← rules.suffix follow left)) <|> return left

/-- A conversion to a pointer or channel type, whose first symbol could be an operator. The
symbol belongs to the type if an operator could not be followed by the rest of it. -/
def signedConversion : Reading Tree := do
  let type ← rules.typeOf false
  if type.isSpelledOut then rules.conversion type else failure

/-- An expression without binary operators. -/
def unaryRule (follow : Follow) : Reading Tree := do
  let t ← ahead true
  match unaryOperators.find? fun (spelling : String) => Text.startsWith t spelling with
  | some spelling =>
    (do
      let left ← rules.signedConversion
      rules.suffixes follow (← get).rest.length left)
    <|> (do
      let operator ← as .operator (symbol true spelling)
      let value ← as .operand (rules (.unary follow))
      node .unaryExpression [operator, value])
  | none =>
    let left ← rules.operand follow
    rules.suffixes follow (← get).rest.length left

/-- Binary operators that bind at least as tightly as `minimum`, `fuel` at most. -/
def operations (minimum : Nat) (follow : Follow) : (fuel : Nat) → Tree → Reading Tree
  | 0, left => return left
  | fuel + 1, left => do
    match binaryOperator? follow (← ahead follow.breaks) with
    | none => return left
    | some (spelling, precedence) =>
      if precedence < minimum then return left
      else
        let operator ← as .operator (symbol follow.breaks spelling)
        let right ← as .right (rules (.binary (precedence + 1) follow))
        operations minimum follow fuel
          (← node .binaryExpression [left.withField .left, operator, right])

/-- An expression whose binary operators bind at least as tightly as `minimum`. -/
def binaryRule (minimum : Nat) (follow : Follow) : Reading Tree := do
  let left ← rules (.unary follow)
  rules.operations minimum follow (← get).rest.length left

end Rules

end Interlace.Syntax
