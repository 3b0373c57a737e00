/-!
# Kinds of syntax nodes

The named nodes of a syntax tree by kind, the names of the parts they play in their parents,
and the coarser classes that weaving distinguishes.
-/

namespace Interlace.Syntax

/-- What a node is. A `symbol` is a keyword, an operator or punctuation, which is a node
without a name; all other kinds are named. -/
inductive Kind where
  | symbol (text : String)
  | sourceFile
  | packageClause
  | importDeclaration
  | importSpec
  | importSpecList
  | dot
  | blankIdentifier
  | constDeclaration
  | constSpec
  | varDeclaration
  | varSpec
  | varSpecList
  | functionDeclaration
  | methodDeclaration
  | typeParameterList
  | typeParameterDeclaration
  | parameterList
  | parameterDeclaration
  | variadicParameterDeclaration
  | typeDeclaration
  | typeSpec
  | typeAlias
  | parenthesizedType
  | genericType
  | typeArguments
  | pointerType
  | arrayType
  | implicitLengthArrayType
  | sliceType
  | structType
  | negatedType
  | fieldDeclarationList
  | fieldDeclaration
  | interfaceType
  | methodElem
  | typeElem
  | typeConstraint
  | mapType
  | channelType
  | functionType
  | qualifiedType
  | block
  | emptyStatement
  | expressionStatement
  | sendStatement
  | receiveStatement
  | incStatement
  | decStatement
  | assignmentStatement
  | shortVarDeclaration
  | labeledStatement
  | labelName
  | fallthroughStatement
  | breakStatement
  | continueStatement
  | gotoStatement
  | returnStatement
  | goStatement
  | deferStatement
  | ifStatement
  | forStatement
  | forClause
  | rangeClause
  | expressionSwitchStatement
  | expressionCase
  | defaultCase
  | typeSwitchStatement
  | typeCase
  | selectStatement
  | communicationCase
  | expressionList
  | unaryExpression
  | binaryExpression
  | selectorExpression
  | indexExpression
  | sliceExpression
  | callExpression
  | typeAssertionExpression
  | typeConversionExpression
  | typeInstantiationExpression
  | parenthesizedExpression
  | compositeLiteral
  | funcLiteral
  | literalValue
  | literalElement
  | keyedElement
  | argumentList
  | variadicArgument
  | identifier
  | typeIdentifier
  | fieldIdentifier
  | packageIdentifier
  | rawStringLiteral
  | rawStringLiteralContent
  | interpretedStringLiteral
  | interpretedStringLiteralContent
  | escapeSequence
  | intLiteral
  | floatLiteral
  | imaginaryLiteral
  | runeLiteral
  | nilLiteral
  | trueLiteral
  | falseLiteral
  | iotaLiteral
  | comment
  deriving DecidableEq, Repr

namespace Kind

/-- The grammar's name of a kind. -/
def name : Kind → String
  | symbol text => text
  | sourceFile => "source_file"
  | packageClause => "package_clause"
  | importDeclaration => "import_declaration"
  | importSpec => "import_spec"
  | importSpecList => "import_spec_list"
  | dot => "dot"
  | blankIdentifier => "blank_identifier"
  | constDeclaration => "const_declaration"
  | constSpec => "const_spec"
  | varDeclaration => "var_declaration"
  | varSpec => "var_spec"
  | varSpecList => "var_spec_list"
  | functionDeclaration => "function_declaration"
  | methodDeclaration => "method_declaration"
  | typeParameterList => "type_parameter_list"
  | typeParameterDeclaration => "type_parameter_declaration"
  | parameterList => "parameter_list"
  | parameterDeclaration => "parameter_declaration"
  | variadicParameterDeclaration => "variadic_parameter_declaration"
  | typeDeclaration => "type_declaration"
  | typeSpec => "type_spec"
  | typeAlias => "type_alias"
  | parenthesizedType => "parenthesized_type"
  | genericType => "generic_type"
  | typeArguments => "type_arguments"
  | pointerType => "pointer_type"
  | arrayType => "array_type"
  | implicitLengthArrayType => "implicit_length_array_type"
  | sliceType => "slice_type"
  | structType => "struct_type"
  | negatedType => "negated_type"
  | fieldDeclarationList => "field_declaration_list"
  | fieldDeclaration => "field_declaration"
  | interfaceType => "interface_type"
  | methodElem => "method_elem"
  | typeElem => "type_elem"
  | typeConstraint => "type_constraint"
  | mapType => "map_type"
  | channelType => "channel_type"
  | functionType => "function_type"
  | qualifiedType => "qualified_type"
  | block => "block"
  | emptyStatement => "empty_statement"
  | expressionStatement => "expression_statement"
  | sendStatement => "send_statement"
  | receiveStatement => "receive_statement"
  | incStatement => "inc_statement"
  | decStatement => "dec_statement"
  | assignmentStatement => "assignment_statement"
  | shortVarDeclaration => "short_var_declaration"
  | labeledStatement => "labeled_statement"
  | labelName => "label_name"
  | fallthroughStatement => "fallthrough_statement"
  | breakStatement => "break_statement"
  | continueStatement => "continue_statement"
  | gotoStatement => "goto_statement"
  | returnStatement => "return_statement"
  | goStatement => "go_statement"
  | deferStatement => "defer_statement"
  | ifStatement => "if_statement"
  | forStatement => "for_statement"
  | forClause => "for_clause"
  | rangeClause => "range_clause"
  | expressionSwitchStatement => "expression_switch_statement"
  | expressionCase => "expression_case"
  | defaultCase => "default_case"
  | typeSwitchStatement => "type_switch_statement"
  | typeCase => "type_case"
  | selectStatement => "select_statement"
  | communicationCase => "communication_case"
  | expressionList => "expression_list"
  | unaryExpression => "unary_expression"
  | binaryExpression => "binary_expression"
  | selectorExpression => "selector_expression"
  | indexExpression => "index_expression"
  | sliceExpression => "slice_expression"
  | callExpression => "call_expression"
  | typeAssertionExpression => "type_assertion_expression"
  | typeConversionExpression => "type_conversion_expression"
  | typeInstantiationExpression => "type_instantiation_expression"
  | parenthesizedExpression => "parenthesized_expression"
  | compositeLiteral => "composite_literal"
  | funcLiteral => "func_literal"
  | literalValue => "literal_value"
  | literalElement => "literal_element"
  | keyedElement => "keyed_element"
  | argumentList => "argument_list"
  | variadicArgument => "variadic_argument"
  | identifier => "identifier"
  | typeIdentifier => "type_identifier"
  | fieldIdentifier => "field_identifier"
  | packageIdentifier => "package_identifier"
  | rawStringLiteral => "raw_string_literal"
  | rawStringLiteralContent => "raw_string_literal_content"
  | interpretedStringLiteral => "interpreted_string_literal"
  | interpretedStringLiteralContent => "interpreted_string_literal_content"
  | escapeSequence => "escape_sequence"
  | intLiteral => "int_literal"
  | floatLiteral => "float_literal"
  | imaginaryLiteral => "imaginary_literal"
  | runeLiteral => "rune_literal"
  | nilLiteral => "nil"
  | trueLiteral => "true"
  | falseLiteral => "false"
  | iotaLiteral => "iota"
  | comment => "comment"

/-- Not a symbol. -/
def isNamed : Kind → Bool
  | symbol _ => false
  | _ => true

/-- A function with a name, a method or a function literal. -/
def isFunction : Kind → Bool
  | functionDeclaration | methodDeclaration | funcLiteral => true
  | _ => false

/-- The nodes whose direct children are statements. -/
def holdsStatements : Kind → Bool
  | sourceFile | block | expressionCase | defaultCase | typeCase | communicationCase => true
  | _ => false

/-- The declarations that a file consists of, the package clause apart. -/
def isTopLevelDeclaration : Kind → Bool
  | functionDeclaration | methodDeclaration | typeDeclaration | varDeclaration
  | constDeclaration | importDeclaration => true
  | _ => false

/-- The kind's name ends in `_declaration`. -/
def isDeclaration : Kind → Bool
  | importDeclaration | constDeclaration | varDeclaration | functionDeclaration
  | methodDeclaration | typeParameterDeclaration | parameterDeclaration
  | variadicParameterDeclaration | typeDeclaration | fieldDeclaration
  | shortVarDeclaration => true
  | _ => false

end Kind

/-- The part a node plays in its parent. -/
inductive Field where
  | name
  | path
  | type
  | typeParameters
  | typeArguments
  | parameters
  | receiver
  | result
  | body
  | value
  | key
  | element
  | length
  | tag
  | package
  | channel
  | left
  | right
  | operator
  | operand
  | field
  | index
  | start
  | stop
  | capacity
  | function
  | arguments
  | label
  | initializer
  | condition
  | consequence
  | alternative
  | update
  | binding
  | communication
  deriving DecidableEq, Repr

/-- The classes of nodes that weaving distinguishes. -/
inductive NodeClass where
  | sourceFile
  | packageClause
  | importDeclaration
  | importSpec
  | functionDeclaration
  | methodDeclaration
  | functionLiteral
  | callExpression
  | selectorExpression
  | compositeLiteral
  | keyedElement
  | varDeclaration
  | varSpec
  | shortVarDeclaration
  | typeDeclaration
  | constDeclaration
  | block
  | comment
  /-- Any other statement that can carry wrap markers. -/
  | statement
  | other
  deriving DecidableEq, Repr

/-- The class of a kind. -/
def NodeClass.of : Kind → NodeClass
  | .sourceFile => .sourceFile
  | .packageClause => .packageClause
  | .importDeclaration => .importDeclaration
  | .importSpec => .importSpec
  | .functionDeclaration => .functionDeclaration
  | .methodDeclaration => .methodDeclaration
  | .funcLiteral => .functionLiteral
  | .callExpression => .callExpression
  | .selectorExpression => .selectorExpression
  | .compositeLiteral => .compositeLiteral
  | .keyedElement => .keyedElement
  | .varDeclaration => .varDeclaration
  | .varSpec => .varSpec
  | .shortVarDeclaration => .shortVarDeclaration
  | .typeDeclaration => .typeDeclaration
  | .constDeclaration => .constDeclaration
  | .block => .block
  | .comment => .comment
  | .expressionStatement | .sendStatement | .incStatement | .decStatement
  | .assignmentStatement | .returnStatement | .goStatement | .deferStatement
  | .ifStatement | .forStatement | .expressionSwitchStatement | .typeSwitchStatement
  | .selectStatement | .labeledStatement | .fallthroughStatement | .breakStatement
  | .continueStatement | .gotoStatement | .emptyStatement => .statement
  | _ => .other

/-- The functions among the classes. -/
def NodeClass.isFunction : NodeClass → Bool
  | functionDeclaration | methodDeclaration | functionLiteral => true
  | _ => false

end Interlace.Syntax
