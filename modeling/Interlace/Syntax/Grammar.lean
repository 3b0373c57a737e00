import Interlace.Syntax.Scan

/-!
# Grammar

The recursive rules of the grammar by name. Every rule is a parser over the parsers of the
recursive rules, `Rules`, and the knot is tied once for all of them, by the depth of the tree
(`Interlace.Syntax.Parse`).
-/

namespace Interlace.Syntax

/-- What may follow an expression, as far as it decides how the expression is read. -/
structure Follow where
  /-- A line break ends the expression. -/
  lineBreak : Bool
  /-- A block may follow, so an opening brace after a type name is the block's. -/
  block : Bool
  /-- `++`, `--` and `<-` may follow, so they are not read as operators of the expression. -/
  step : Bool
  /-- `.(type)` may follow. -/
  typeGuard : Bool

namespace Follow

/-- Nothing that matters: inside brackets of any kind. -/
def inner : Follow := ⟨false, false, false, false⟩

/-- The end of a statement. -/
def statement : Follow := ⟨true, false, false, false⟩

/-- The start of a simple statement. -/
def statementHead : Follow := ⟨true, false, true, false⟩

/-- The end of the header of a statement with a body. -/
def header : Follow := ⟨false, true, false, false⟩

/-- The start of a simple statement in a header. -/
def headerHead : Follow := ⟨false, true, true, false⟩

/-- The start of the header of a switch. -/
def switchHead : Follow := ⟨false, true, true, true⟩

/-- The start of the communication of a select case. -/
def communicationHead : Follow := ⟨false, false, true, false⟩

/-- Line breaks are white space. -/
def breaks (f : Follow) : Bool := ! f.lineBreak

end Follow

/-- The recursive rules. -/
inductive Rule where
  /-- An expression whose binary operators bind at least as tightly as `minimum`. -/
  | binary (minimum : Nat) (follow : Follow)
  /-- An expression without binary operators. -/
  | unary (follow : Follow)
  /-- A type; `closed` tells whether a line break ends it. -/
  | type (closed : Bool)
  /-- A block. -/
  | block
  /-- The braces of a composite literal. -/
  | literalValue
  /-- A conditional statement. -/
  | conditional
  /-- A statement; `clause` tells whether it stands in a clause of a switch or select. -/
  | statement (clause : Bool)

/-- Parsers for the recursive rules. -/
abbrev Rules := Rule → Reading Tree

/-- The words that start a type. -/
def typeWords : List Text := ["func", "map", "chan", "struct", "interface"]

/-- The words that are operands of their own. -/
def operandWords : List Text := ["nil", "true", "false", "iota", "new", "make"]

/-- An expression. -/
def Rules.expression (rules : Rules) (follow : Follow) : Reading Tree :=
  rules (.binary 1 follow)

/-- Expressions with commas between them, in a node of their own. -/
def Rules.expressions (rules : Rules) (follow : Follow) : Reading Tree := do
  let items ← Reading.separated follow.breaks "," (rules.expression follow)
  Reading.node .expressionList items

/-- A type. -/
def Rules.typeOf (rules : Rules) (closed : Bool) : Reading Tree :=
  rules (.type closed)

end Interlace.Syntax
