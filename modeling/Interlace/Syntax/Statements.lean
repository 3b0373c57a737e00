import Interlace.Syntax.Expressions

/-!
# Statements and declarations

The rules for statements, the clauses of switches and selects, declarations and whole files.
Statements are separated by line breaks or semicolons; a clause keeps the line break after its
last statement.
-/

namespace Interlace.Syntax

open Reading

/-- The words that start a statement. -/
def statementWords : List Text :=
  ["var", "const", "type", "return", "go", "defer", "if", "for", "switch", "select",
    "fallthrough", "break", "continue", "goto"]

/-- The words that start a clause. -/
def clauseWords : List Text := ["case", "default"]

/-- The statement read so far may end here: a line break, a semicolon, a closing brace or the
end follows. -/
def endsHere (clause : Bool) : Reading Bool := do
  match ← ahead false with
  | [] => return true
  | b :: _ =>
    if b = Text.newline || b = 0x3B || b = 0x7D || b = 0x00 then return true
    else return clause && clauseWords.contains (← aheadWord false)

/-- A list of statements ends here. -/
def listEnds (clause : Bool) : Reading Bool := do
  match ← ahead true with
  | [] => return true
  | 0x7D :: _ => return true
  | _ => return clause && clauseWords.contains (← aheadWord true)

/-- A label and its colon. -/
def label : Reading (List Tree) := do
  let name ← as .label (word true .labelName (statementWords ++ typeWords ++ operandWords))
  -- A definition starts like a label.
  if ← sees false ":=" then failure
  else return [name, ← symbol false ":"]

namespace Rules

variable (rules : Rules)

/-! ## Simple statements -/

/-- The rest of a simple statement that starts with `left`; `value` says what may follow the
right side. -/
def simpleRest (head value : Follow) (left : Tree) : Reading Tree := do
  let t ← ahead head.breaks
  if Text.startsWith t ":=" then
    let operator ← symbol head.breaks ":="
    let right ← as .right (rules.expressions value)
    node .shortVarDeclaration [left.withField .left, operator, right]
  else
    match assignmentOperator? t with
    | some spelling =>
      let operator ← as .operator (symbol head.breaks spelling)
      let right ← as .right (rules.expressions value)
      node .assignmentStatement [left.withField .left, operator, right]
    | none =>
      match left.children with
      | [single] =>
        if Text.startsWith t "++" then
          node .incStatement [single, ← symbol head.breaks "++"]
        else if Text.startsWith t "--" then
          node .decStatement [single, ← symbol head.breaks "--"]
        else if Text.startsWith t "<-" then
          let arrow ← symbol head.breaks "<-"
          let sent ← as .value (rules.expression value)
          node .sendStatement [single.withField .channel, arrow, sent]
        else node .expressionStatement [single]
      | _ => failure

/-- A simple statement. -/
def simple (head value : Follow) : Reading Tree := do
  rules.simpleRest head value (← rules.expressions head)

/-! ## Lists of statements -/

/-- A label with nothing to label, at the end of a list. -/
def danglingLabel (clause : Bool) : Reading Tree := do
  let parts ← label
  if ← listEnds clause then node .labeledStatement parts else failure

/-- Statements and the semicolons between them, `fuel` at most. -/
def statementsUpTo (clause : Bool) : (fuel : Nat) → Reading (List Tree)
  | 0 => return []
  | fuel + 1 => do
    if ← listEnds clause then return []
    else
      -- A label without a statement is possible only at the end, so it is tried first.
      (do return [← danglingLabel clause])
      <|> (do
        let statement ← rules (.statement clause)
        (do
          let stop ← terminator
          return statement :: stop ++ (← statementsUpTo clause fuel))
        <|> return [statement])

/-- Statements and the semicolons between them. -/
def statements (clause : Bool) : Reading (List Tree) := do
  rules.statementsUpTo clause ((← get).rest.length + 1)

/-- A block. -/
def blockRule : Reading Tree := do
  let opening ← symbol true "\x7b"
  let body ← rules.statements false
  let closing ← symbol true "\x7d"
  node .block (opening :: body ++ [closing])

/-! ## Declarations -/

/-- Items in parentheses, each ended by a line break or a semicolon. -/
def grouped (item : Reading Tree) : Reading (List Tree) := do
  let opening ← symbol true "("
  let items ← many do
    let first ← item
    return first :: (← terminator)
  let closing ← symbol true ")"
  return opening :: items ++ [closing]

/-- A value with its equals sign. -/
def initializer (breaks : Bool) : Reading (List Tree) := do
  let equals ← symbol breaks "="
  return [equals, ← as .value (rules.expressions .statement)]

/-- A constant specification. The commas between its names belong to the names. -/
def constSpec : Reading Tree := do
  let names ← separated false "," (word true .identifier [])
  let value ← opt do
    if ← sees false "=" then rules.initializer false
    -- A name alone repeats the value before it.
    else if (← ahead false).head? = some Text.newline then failure
    else
      let type ← as .type (rules.typeOf false)
      return type :: (← rules.initializer true)
  node .constSpec (names.map (Tree.withField .name) ++ value)

/-- A variable specification. -/
def varSpec : Reading Tree := do
  let names ← separated true "," (as .name (word true .identifier []))
  if ← sees true "=" then node .varSpec (names ++ (← rules.initializer true))
  else
    let type ← as .type (rules.typeOf true)
    let value ← opt (rules.initializer false)
    node .varSpec (names ++ type :: value)

/-- A type specification or an alias. -/
def typeSpec : Reading Tree := do
  let name ← as .name (word true .typeIdentifier [])
  (do
    let equals ← symbol true "="
    let type ← as .type (rules.typeOf true)
    node .typeAlias [name, equals, type])
  <|> (do
    let type ← as .type (rules.typeOf true)
    -- Brackets after the name are a length first and type parameters only if that fails.
    if ← endsHere true then node .typeSpec [name, type] else failure)
  <|> (do
    let parameters ← as .typeParameters rules.typeParameterList
    let type ← as .type (rules.typeOf true)
    node .typeSpec [name, parameters, type])

/-- A declaration of constants, variables or types. -/
def declaration (w : Text) : Reading Tree := do
  if w = "const" then
    let const ← keyword true "const"
    let specs ← if ← sees true "(" then grouped rules.constSpec else one rules.constSpec
    node .constDeclaration (const :: specs)
  else if w = "var" then
    let var ← keyword true "var"
    let specs ←
      if ← sees true "(" then do node .varSpecList (← grouped rules.varSpec) else rules.varSpec
    node .varDeclaration [var, specs]
  else
    let type ← keyword true "type"
    let specs ← if ← sees true "(" then grouped rules.typeSpec else one rules.typeSpec
    node .typeDeclaration (type :: specs)

/-! ## Statements with bodies -/

/-- A conditional statement. -/
def conditionalRule : Reading Tree := do
  let word ← keyword true "if"
  let first ← rules.expressions .headerHead
  let header ←
    (do
      let initial ← as .initializer (rules.simpleRest .headerHead .inner first)
      let stop ← symbol true ";"
      let condition ← as .condition (rules.expression .header)
      return [initial, stop, condition])
    <|> (match first.children with
      | [condition] => return [condition.withField .condition]
      | _ => failure)
  let consequence ← as .consequence (rules .block)
  let alternative ← opt do
    -- A line break here would end the statement.
    let otherwise ← keyword false "else"
    let body ← if (← aheadWord true) = "if" then rules .conditional else rules .block
    return [otherwise, body.withField .alternative]
  node .ifStatement (word :: header ++ consequence :: alternative)

/-- A range clause whose left side has been read. -/
def rangeClause (left : List Tree) : Reading Tree := do
  let range ← keyword true "range"
  let right ← as .right (rules.expression .header)
  node .rangeClause (left ++ [range, right])

/-- The rest of a loop clause after its initial statement. -/
def loopRest (initial : List Tree) : Reading Tree := do
  let first ← symbol true ";"
  let condition ← opt (one (as .condition (rules.expression .inner)))
  let second ← symbol true ";"
  let update ←
    if ← sees true "\x7b" then pure []
    else one (as .update (rules.simple .headerHead .header))
  node .forClause (initial ++ [first] ++ condition ++ [second] ++ update)

/-- The header of a loop. -/
def loopHeader : Reading (List Tree) := do
  if ← sees true "\x7b" then return []
  else if ← sees true ";" then one (rules.loopRest [])
  else if (← aheadWord true) = "range" then one (rules.rangeClause [])
  else
    let left ← rules.expressions .headerHead
    -- Three readings of what has been read: names to range over, a statement, a condition.
    one (do
      let operator ← symbol true ":=" <|> symbol true "="
      rules.rangeClause [left.withField .left, operator])
    <|> one (do
      let initial ← as .initializer (rules.simpleRest .headerHead .inner left)
      rules.loopRest [initial])
    <|> (match left.children with
      | [condition] => return [condition]
      | _ => failure)

/-- A loop. -/
def loop : Reading Tree := do
  let word ← keyword true "for"
  let header ← rules.loopHeader
  let body ← as .body (rules .block)
  node .forStatement (word :: header ++ [body])

/-- The mark of a type switch. -/
def typeGuard : Reading (List Tree) := do
  let dot ← symbol true "."
  let opening ← symbol true "("
  let type ← keyword true "type"
  let closing ← symbol true ")"
  return [dot, opening, type, closing]

/-- A clause of a switch or select, given what stands between `case` and the colon. -/
def clause (kind : Kind) (header : Reading (List Tree)) : Reading Tree := do
  let word ← keyword true "case"
  let header ← header
  let colon ← symbol true ":"
  let body ← rules.statements true
  node kind (word :: header ++ colon :: body)

/-- The clause for all other cases. -/
def defaultClause : Reading Tree := do
  let word ← keyword true "default"
  let colon ← symbol true ":"
  let body ← rules.statements true
  node .defaultCase (word :: colon :: body)

/-- Clauses in braces. -/
def clauses (kind : Kind) (header : Reading (List Tree)) : Reading (List Tree) := do
  let opening ← symbol true "\x7b"
  let items ← many (one (rules.clause kind header <|> rules.defaultClause))
  let closing ← symbol true "\x7d"
  return opening :: items ++ [closing]

/-- The clauses of a switch on values. -/
def valueClauses : Reading (List Tree) :=
  rules.clauses .expressionCase (one (as .value (rules.expressions .inner)))

/-- The clauses of a switch on types. The commas between the types belong to them. -/
def typeClauses : Reading (List Tree) :=
  rules.clauses .typeCase do
    let types ← separated true "," (rules.typeOf false)
    return types.map (Tree.withField .type)

/-- The rest of a switch after its initial statement. -/
def switchRest (before : List Tree) : Reading Tree := do
  if ← sees true "\x7b" then
    node .expressionSwitchStatement (before ++ (← rules.valueClauses))
  else
    (do
      -- A switch on types is one if the mark is found; otherwise the value is read again.
      let aliases ← opt do
        let names ← as .binding (rules.expressions .switchHead)
        return [names, ← symbol true ":="]
      let value ← as .value (rules.expression .switchHead)
      let guard ← typeGuard
      node .typeSwitchStatement (before ++ aliases ++ value :: guard ++ (← rules.typeClauses)))
    <|> (do
      let value ← as .value (rules.expression .header)
      node .expressionSwitchStatement (before ++ value :: (← rules.valueClauses)))

/-- A switch on values or types. -/
def switch : Reading Tree := do
  let word ← keyword true "switch"
  if ← sees true "\x7b" then rules.switchRest [word]
  else
    (do
      let initial ← as .initializer (rules.simple .headerHead .inner)
      let stop ← symbol true ";"
      rules.switchRest [word, initial, stop])
    <|> rules.switchRest [word]

/-- The communication of a select clause. -/
def communication : Reading Tree := do
  let left ← rules.expressions .communicationHead
  (do
    let operator ← symbol true ":=" <|> symbol true "="
    let right ← as .right (rules.expression .inner)
    node .receiveStatement [left.withField .left, operator, right])
  <|> (match left.children with
    | [single] =>
      (do
        let arrow ← symbol true "<-"
        let sent ← as .value (rules.expression .inner)
        node .sendStatement [single.withField .channel, arrow, sent])
      <|> node .receiveStatement [single.withField .right]
    | _ => failure)

/-- A select statement. -/
def select : Reading Tree := do
  let word ← keyword true "select"
  let clauses ← rules.clauses .communicationCase (one (as .communication rules.communication))
  node .selectStatement (word :: clauses)

/-! ## Statements -/

/-- A jump to an optional label. -/
def jump (spelling : String) (kind : Kind) (clause : Bool) : Reading Tree := do
  let word ← keyword true spelling
  if ← endsHere clause then node kind [word]
  else node kind [word, ← Reading.word true .labelName []]

/-- A statement that starts with a keyword. -/
def keywordStatement (clause : Bool) (w : Text) : Reading Tree := do
  if w = "return" then
    let word ← keyword true "return"
    if ← endsHere clause then node .returnStatement [word]
    else node .returnStatement [word, ← rules.expressions .statement]
  else if w = "go" then
    let word ← keyword true "go"
    node .goStatement [word, ← rules.expression .statement]
  else if w = "defer" then
    let word ← keyword true "defer"
    node .deferStatement [word, ← rules.expression .statement]
  else if w = "if" then rules .conditional
  else if w = "for" then rules.loop
  else if w = "switch" then rules.switch
  else if w = "select" then rules.select
  else if w = "fallthrough" then node .fallthroughStatement [← keyword true "fallthrough"]
  else if w = "break" then jump "break" .breakStatement clause
  else if w = "continue" then jump "continue" .continueStatement clause
  else if w = "goto" then
    let word ← keyword true "goto"
    node .gotoStatement [word, ← Reading.word true .labelName []]
  else rules.declaration w

/-- A statement. -/
def statementRule (clause : Bool) : Reading Tree := do
  match ← ahead true with
  | 0x3B :: _ => node .emptyStatement [← symbol true ";"]
  | 0x7B :: _ => rules .block
  | _ =>
    let w ← aheadWord true
    if statementWords.contains w then rules.keywordStatement clause w
    else if clause && clauseWords.contains w then failure
    else
      (do
        let parts ← label
        node .labeledStatement (parts ++ [← rules (.statement clause)]))
      <|> rules.simple .statementHead .statement

/-! ## Files -/

/-- An import specification. -/
def importSpec : Reading Tree := do
  let name ← opt (one (as .name
    ((do node .dot [← symbol true "."])
      <|> (do
        if (← aheadWord true) = "_" then word true .blankIdentifier []
        else word true .packageIdentifier []))))
  let path ← as .path (Literal.string true)
  node .importSpec (name ++ [path])

/-- An import declaration. -/
def importDeclaration : Reading Tree := do
  let word ← keyword true "import"
  if ← sees true "(" then
    let opening ← symbol true "("
    let items ← opt do
      let first ← importSpec
      let more ← many do
        let stop ← terminator
        return stop ++ [← importSpec]
      return first :: more ++ (← opt terminator)
    let closing ← symbol true ")"
    let list ← node .importSpecList (opening :: items ++ [closing])
    node .importDeclaration [word, list]
  else node .importDeclaration [word, ← importSpec]

/-- The body of a function, if it has one. -/
def optionalBody : Reading (List Tree) := do
  if ← sees false "\x7b" then one (as .body (rules .block)) else return []

/-- A function declaration. -/
def functionDeclaration : Reading Tree := do
  let func ← keyword true "func"
  let name ← as .name (word true .identifier [])
  let parameters ← opt (one (as .typeParameters rules.typeParameterList))
  let signature ← rules.signature true
  node .functionDeclaration
    (func :: name :: parameters ++ signature ++ (← rules.optionalBody))

/-- A method declaration. -/
def methodDeclaration : Reading Tree := do
  let func ← keyword true "func"
  let receiver ← as .receiver (rules.parameterList true)
  let name ← as .name (word true .fieldIdentifier [])
  let signature ← rules.signature true
  node .methodDeclaration
    (func :: receiver :: name :: signature ++ (← rules.optionalBody))

/-- A declaration that only a file can hold. -/
def fileDeclaration : Reading Tree := do
  let w ← aheadWord true
  if w = "package" then
    let word ← keyword true "package"
    node .packageClause [word, ← Reading.word true .packageIdentifier []]
  else if w = "import" then importDeclaration
  else if w = "func" then rules.methodDeclaration <|> rules.functionDeclaration
  else failure

/-- The end of an item of a file: what ends a statement, or the end of the file. -/
def itemEnd : Reading (List Tree) :=
  terminator <|> (do if (← ahead false) = [] then return [] else failure)

/-- An item of a file: a declaration that only a file can hold, or a statement. -/
def fileItem : Reading Tree :=
  rules.fileDeclaration <|> (do
    let w ← aheadWord true
    if w = "package" || w = "import" then failure else rules (.statement false))

/-- The items of a file, `fuel` at most. -/
def fileItems : (fuel : Nat) → Reading (List Tree)
  | 0 => failure
  | fuel + 1 => do
    if ← atEnd then return []
    else
      let item ← rules.fileItem
      let stop ← itemEnd
      return item :: stop ++ (← fileItems fuel)

end Rules

end Interlace.Syntax
