import Interlace.Proofs.OrderedTypes

/-!
# Expressions in source order

Expressions are read in order, given that the recursive rules are. An operand that has been read
grows by its suffixes and operators.

## Key results

- `Rules.suffix_lays`, `Rules.operations_lays`: an operand grows in order
- `Rules.unaryRule_lays`, `Rules.binaryRule_lays`: expressions are read in order
-/

namespace Interlace.Syntax

open Reading HasTrees

variable {text : Text}

/-! ## Operators -/

private theorem isEmpty_unaryOperator {t : Text} {spelling : String}
    (found : unaryOperators.find? (fun (spelling : String) => Text.startsWith t spelling) =
      some spelling) : (spelling : Text).isEmpty = false := by
  have all : ∀ spelling ∈ unaryOperators, (spelling : Text).isEmpty = false := by decide
  exact all spelling (List.mem_of_find?_eq_some found)

private theorem isEmpty_binaryOperator {follow : Follow} {t : Text} {spelling : String}
    {precedence : Nat} (found : binaryOperator? follow t = some (spelling, precedence)) :
    (spelling : Text).isEmpty = false := by
  have all : ∀ operator ∈ binaryOperators, (operator.1 : Text).isEmpty = false := by decide
  unfold binaryOperator? at found
  split at found
  · cases found
  · split at found
    · cases found
    · exact all _ (List.mem_of_find?_eq_some found)

theorem isEmpty_assignmentOperator {t : Text} {spelling : String}
    (found : assignmentOperator? t = some spelling) : (spelling : Text).isEmpty = false := by
  have all : ∀ spelling ∈ assignmentOperators, (spelling : Text).isEmpty = false := by decide
  unfold assignmentOperator? at found
  split at found
  · cases found
  · exact all _ (List.mem_of_find?_eq_some found)

namespace Rules

variable {rules : Rules} (h : rules.Ordered text)

include h

/-! ## Arguments and elements -/

private theorem argument_lays : Lays text [] rules.argument := by
  refine .bind (h _) fun value => .orElse ?_ (.give rfl)
  exact .bind (symbol_lays true "..." rfl) fun dots => .node (by simp) (by simp) rfl

private theorem argumentList_lays (breaks : Bool) : Lays text [] (rules.argumentList breaks) := by
  refine .bind (symbol_lays breaks "(" rfl) fun opening => ?_
  refine .bind (opt_lays (.bind (separated_lays (argument_lays h) true "," rfl) fun items => ?_))
    fun items => ?_
  · exact .bind (opt_lays (one_lays (symbol_lays true "," rfl))) fun comma => .give (by simp)
  · exact .bind (symbol_lays true ")" rfl) fun closing => .node (by simp) (by simp) rfl

private theorem allocationArguments_lays (breaks : Bool) :
    Lays text [] (rules.allocationArguments breaks) := by
  refine .bind (symbol_lays breaks "(" rfl) fun opening => ?_
  refine .bind (opt_lays (.bind (h _) fun type => ?_)) fun items => ?_
  · refine .bind (many_lays (.bind (symbol_lays true "," rfl) fun comma => ?_)) fun more => ?_
    · exact .bind (h _) fun value => .give (by simp)
    · exact .bind (opt_lays (one_lays (symbol_lays true "," rfl))) fun comma => .give (by simp)
  · exact .bind (symbol_lays true ")" rfl) fun closing => .node (by simp) (by simp) rfl

private theorem literalElement_lays : Lays text [] rules.literalElement := by
  refine .look (quiet_sees true "\x7b") fun braced => ?_
  split
  · exact .bind (h _) fun value => .node (by simp) (by simp) rfl
  · exact .bind (h _) fun value => .node (by simp) (by simp) rfl

private theorem keyedElement_lays : Lays text [] rules.keyedElement := by
  refine .bind (literalElement_lays h) fun first => .orElse ?_ (.give rfl)
  refine .bind (symbol_lays true ":" rfl) fun colon => ?_
  refine .bind (as_lays (literalElement_lays h) .value) fun value => ?_
  exact .node (by simp) (by simp) rfl

theorem literalValueRule_lays : Lays text [] rules.literalValueRule := by
  refine .bind (symbol_lays true "\x7b" rfl) fun opening => ?_
  refine .bind (opt_lays (separated_lays (keyedElement_lays h) true "," rfl)) fun items => ?_
  refine .bind (opt_lays (one_lays (symbol_lays true "," rfl))) fun comma => ?_
  refine .bind (symbol_lays true "\x7d" rfl) fun closing => ?_
  exact .node (by simp) (by simp) rfl

/-! ## Operands -/

private theorem composite_lays (type : Tree) : Lays text [type] (rules.composite type) :=
  .bind (as_lays (h _) .body) fun body => .node (by simp) (by simp) rfl

private theorem conversion_lays (type : Tree) : Lays text [type] (rules.conversion type) := by
  refine .bind (symbol_lays true "(" rfl) fun opening => ?_
  refine .bind (as_lays (h _) .operand) fun value => ?_
  refine .bind (opt_lays (one_lays (symbol_lays true "," rfl))) fun comma => ?_
  refine .bind (symbol_lays true ")" rfl) fun closing => ?_
  exact .node (by simp) (by simp) rfl

private theorem typeLed_lays (type : Tree) : Lays text [type] (rules.typeLed type) := by
  refine .look (quiet_sees true "\x7b") fun braced => ?_
  split
  · exact composite_lays h type
  · exact conversion_lays h type

private theorem functionLiteral_lays : Lays text [] rules.functionLiteral := by
  refine .bind (keyword_lays true "func" rfl) fun func => ?_
  refine .bind (signature_lays h false) fun signature => ?_
  refine .bind (as_lays (h _) .body) fun body => ?_
  exact .node (by simp) (by simp) rfl

private theorem parenthesized_lays : Lays text [] rules.parenthesized := by
  refine .orElse ?_ ?_
  · refine .bind (symbol_lays true "(" rfl) fun opening => ?_
    refine .bind (h _) fun value => ?_
    refine .bind (symbol_lays true ")" rfl) fun closing => ?_
    exact .node (by simp) (by simp) rfl
  · refine .bind (symbol_lays true "(" rfl) fun opening => ?_
    refine .bind (h _) fun type => ?_
    refine .bind (symbol_lays true ")" rfl) fun closing => ?_
    exact .growAll (.node (by simp) (by simp) rfl) fun type => conversion_lays h type

private theorem wordOperand_lays (follow : Follow) (w : Text) :
    Lays text [] (rules.wordOperand follow w) := by
  have leaf (kind : Kind) (plain : kind.isToken = true) : Lays text [] (word true kind []) :=
    word_lays true kind [] plain
  -- The cases are those of the keyword; any other word is a name.
  refine .ite (.orElse (functionLiteral_lays h) ?_) ?_
  · exact .bind (functionType_lays h false) fun type => conversion_lays h type
  refine .ite (.bind (mapType_lays h false) fun type => typeLed_lays h type) ?_
  refine .ite (.bind (structType_lays h) fun type => typeLed_lays h type) ?_
  refine .ite (.bind (interfaceType_lays h) fun type => conversion_lays h type) ?_
  refine .ite (.bind (channelType_lays h false) fun type => conversion_lays h type) ?_
  refine .ite (leaf .nilLiteral rfl) (.ite (leaf .trueLiteral rfl) ?_)
  refine .ite (leaf .falseLiteral rfl) (.ite (leaf .iotaLiteral rfl) ?_)
  refine .ite ?_ (leaf .identifier rfl)
  refine .bind (leaf .identifier rfl) fun name => ?_
  refine .look (quiet_sees _ "(") fun called => .ite ?_ (.give rfl)
  refine .bind (as_lays (allocationArguments_lays h _) .arguments) fun arguments => ?_
  exact .node (by simp) (by simp) rfl

private theorem operand_lays (follow : Follow) : Lays text [] (rules.operand follow) := by
  intro s
  -- The cases are those of the next byte.
  refine LaysAt.ahead ?_
  split
  · exact parenthesized_lays h s
  · exact Lays.bind (.orElse (countedArrayType_lays h) (sequenceType_lays h false))
      (fun type => typeLed_lays h type) s
  · exact Literal.string_lays true s
  · exact Literal.string_lays true s
  · split
    · rename_i width found
      exact token_laysAt .runeLiteral width rfl (Literal.rune?_fits _ _ found)
    · exact Lays.fail s
  · split
    · rename_i kind width found
      have number : kind.isToken = true := by
        rcases Literal.number?_kind found with rfl | rfl | rfl <;> rfl
      exact token_laysAt kind width number (Literal.number?_fits found)
    · refine Lays.look (quiet_aheadWord true) (fun w => ?_) s
      exact .ite .fail (wordOperand_lays h follow w)

/-! ## Suffixes -/

private theorem selection_lays (follow : Follow) (left : Tree) :
    Lays text [left] (rules.selection follow left) := by
  refine .bind (symbol_lays _ "." rfl) fun dot => ?_
  refine .look (quiet_sees true "(") fun asserted => .ite ?_ ?_
  · refine .bind (symbol_lays true "(" rfl) fun opening => ?_
    refine .look (quiet_aheadWord true) fun w => .ite .fail ?_
    refine .bind (as_lays (h _) .type) fun type => ?_
    refine .bind (symbol_lays true ")" rfl) fun closing => ?_
    exact .node (by simp) (by simp) rfl
  · refine .bind (as_lays (word_lays true .fieldIdentifier [] rfl) .field) fun member => ?_
    exact .node (by simp) (by simp) rfl

private theorem instantiation_lays (follow : Follow) (left : Tree) :
    Lays text [left] (rules.instantiation follow left) := by
  refine .look quiet_get fun s => .ite .fail_bind ?_
  refine .bind (typeArguments_lays h _) fun arguments => ?_
  refine .look (quiet_sees _ "(") fun called => .ite ?_ ?_
  · refine .bind_orElse (.typeName ?_) ?_
    · refine .growAll (.node (by simp) (by simp) rfl) fun generic => ?_
      exact .ite (conversion_lays h generic) .fail
    · refine .look (quiet_node _ _) fun generic => ?_
      refine .bind (as_lays (argumentList_lays h _) .arguments) fun values => ?_
      exact .node (by simp) (by simp) rfl
  · refine .look (quiet_sees _ "\x7b") fun braced => .ite (.typeName ?_) .fail
    exact .growAll (.node (by simp) (by simp) rfl) fun generic => composite_lays h generic

private theorem subscript_lays (follow : Follow) (left : Tree) :
    Lays text [left] (rules.subscript follow left) := by
  refine .bind (symbol_lays _ "[" rfl) fun opening => ?_
  refine .bind (opt_lays (one_lays (h _))) fun first => ?_
  -- Behind the first index it is an index or a slice with one or two colons.
  refine .look (quiet_sees true "]") fun closed => .ite ?_ ?_
  · split
    · refine .bind (symbol_lays true "]" rfl) fun closing => ?_
      exact .node (by simp) (by simp) rfl
    · exact .fail
  · refine .bind (symbol_lays true ":" rfl) fun colon => ?_
    refine .bind (opt_lays (one_lays (as_lays (h _) .stop))) fun stop => ?_
    refine .bind (opt_lays (.bind (symbol_lays true ":" rfl) fun colon => ?_)) fun capacity => ?_
    · exact .ite .fail (.bind (as_lays (h _) .capacity) fun value => .give (by simp))
    · exact .bind (symbol_lays true "]" rfl) fun closing => .node (by simp) (by simp) rfl

private theorem namedInstance_lays (follow : Follow) (left : Tree) :
    Lays text [left] (rules.namedInstance follow left) := by
  refine .ite (.typeName ?_) .fail
  refine .bind (symbol_lays _ "[" rfl) fun opening => ?_
  refine .bind (separated_lays (h _) true "," rfl) fun types => ?_
  refine .bind (opt_lays (one_lays (symbol_lays true "," rfl))) fun comma => ?_
  refine .bind (symbol_lays true "]" rfl) fun closing => ?_
  exact .node (by simp) (by simp) rfl

theorem suffix_lays (follow : Follow) (left : Tree) :
    Lays text [left] (rules.suffix follow left) := by
  refine .look (quiet_ahead _) fun ahead => ?_
  split
  · exact .fail
  · exact selection_lays h follow left
  · refine .bind (as_lays (argumentList_lays h _) .arguments) fun arguments => ?_
    exact .node (by simp) (by simp) rfl
  · exact .orElse (instantiation_lays h follow left)
      (.orElse (subscript_lays h follow left) (namedInstance_lays h follow left))
  · exact .ite (.typeName (composite_lays h left.asTypeName)) .fail
  · exact .fail

private theorem suffixes_lays (follow : Follow) (fuel : Nat) (left : Tree) :
    Lays text [left] (rules.suffixes follow fuel left) := by
  induction fuel generalizing left with
  | zero => exact .give rfl
  | succ fuel ih => exact .orElse (.growAll (suffix_lays h follow left) ih) (.give rfl)

/-! ## Operators -/

private theorem signedConversion_lays : Lays text [] rules.signedConversion :=
  .bind (h _) fun type => .ite (conversion_lays h type) .fail

theorem unaryRule_lays (follow : Follow) : Lays text [] (rules.unaryRule follow) := by
  refine .look (quiet_ahead true) fun ahead => ?_
  split
  · rename_i spelling found
    refine .orElse ?_ ?_
    · refine .bind (signedConversion_lays h) fun left => ?_
      exact .look quiet_get fun s => suffixes_lays h follow _ left
    · refine .bind (as_lays (symbol_lays true spelling (isEmpty_unaryOperator found)) .operator)
        fun operator => ?_
      exact .bind (as_lays (h _) .operand) fun value => .node (by simp) (by simp) rfl
  · refine .bind (operand_lays h follow) fun left => ?_
    exact .look quiet_get fun s => suffixes_lays h follow _ left

theorem operations_lays (minimum : Nat) (follow : Follow) (fuel : Nat) (left : Tree) :
    Lays text [left] (rules.operations minimum follow fuel left) := by
  -- The induction is on the fuel; every round takes an operator and grows the operand on its left.
  induction fuel generalizing left with
  | zero => exact .give rfl
  | succ fuel ih =>
    refine .look (quiet_ahead _) fun ahead => ?_
    split
    · exact .give rfl
    · rename_i spelling precedence found
      refine .ite (.give rfl) ?_
      refine .bind (as_lays (symbol_lays _ spelling (isEmpty_binaryOperator found)) .operator)
        fun operator => ?_
      refine .bind (as_lays (h _) .right) fun right => ?_
      exact .growAll (.node (by simp) (by simp) rfl) ih

theorem binaryRule_lays (minimum : Nat) (follow : Follow) :
    Lays text [] (rules.binaryRule minimum follow) := by
  refine .bind (h _) fun left => ?_
  exact .look quiet_get fun s => operations_lays h minimum follow _ left

end Rules

end Interlace.Syntax
