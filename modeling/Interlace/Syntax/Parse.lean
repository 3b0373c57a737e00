import Interlace.Syntax.Statements

/-!
# Parsing a file

The knot of the grammar's recursive rules, and the tree of a whole file with its comments in
place: a comment becomes a child of the smallest node that has something before and after it.
-/

namespace Interlace.Syntax

/-- The parsers of the recursive rules for trees up to a depth. -/
def rulesTo : (depth : Nat) → Rules
  | 0 => fun _ => failure
  | depth + 1 => fun rule =>
    let rules := rulesTo depth
    match rule with
    | .binary minimum follow => rules.binaryRule minimum follow
    | .unary follow => rules.unaryRule follow
    | .type closed => rules.typeRule closed
    | .block => rules.blockRule
    | .literalValue => rules.literalValueRule
    | .conditional => rules.conditionalRule
    | .statement clause => rules.statementRule clause

namespace Tree

mutual

/-- The tree with a comment in the smallest node around it. -/
def place (start stop : Nat) : Tree → Tree
  | node k f s e cs => node k f s e (placeAmong start stop cs)

/-- Siblings with a comment between them or inside one of them. -/
def placeAmong (start stop : Nat) : List Tree → List Tree
  | [] => [leaf .comment start stop]
  | node k f s e cs :: ts =>
    if start < s then leaf .comment start stop :: node k f s e cs :: ts
    else if start < e then place start stop (node k f s e cs) :: ts
    else node k f s e cs :: placeAmong start stop ts

end

end Tree

/-- Reads a whole file: its items, and the comments in source order. -/
def fileParser (depth : Nat) : Reading (List Tree × List (Nat × Nat)) := do
  let items ← (rulesTo depth).fileItems ((← get).rest.length + 1)
  let last := (← get).skip true
  return (items, last.comments.reverse)

/-- The tree of a source text, if it follows the grammar. The tree starts at the first token or
comment and ends with the text. -/
def parse? (source : Text) : Option Tree :=
  match (fileParser (2 * source.length + 8)).run' (Scan.ofSource source) with
  | none => none
  | some (items, comments) =>
    let bare := Tree.node .sourceFile none 0 source.length items
    let full := comments.foldl (fun t (start, stop) => t.place start stop) bare
    let start := (full.children.head?.map Tree.start).getD source.length
    some (.node .sourceFile none start source.length full.children)

end Interlace.Syntax
