import Interlace.Syntax.Kind
import Interlace.Text.Lines

/-!
# Syntax trees

A tree covers a range of its source text and holds its children in source order. Symbols and
comments are children too. A place in a tree is given by a `Site`: a node with the chain of
its ancestors, from which siblings can be found.
-/

namespace Interlace.Syntax

/-- A node with the part it plays in its parent, its range and its children. -/
inductive Tree where
  | node (kind : Kind) (field : Option Field) (start stop : Nat) (children : List Tree)

namespace Tree

/-- What the node is. -/
def kind : Tree → Kind
  | node k _ _ _ _ => k

/-- The part that the node plays in its parent. -/
def field : Tree → Option Field
  | node _ f _ _ _ => f

/-- The offset of the first byte. -/
def start : Tree → Nat
  | node _ _ s _ _ => s

/-- The offset behind the last byte. -/
def stop : Tree → Nat
  | node _ _ _ e _ => e

/-- The children in source order. -/
def children : Tree → List Tree
  | node _ _ _ _ cs => cs

instance : Inhabited Tree := ⟨node .sourceFile none 0 0 []⟩

/-- A node without children. -/
def leaf (kind : Kind) (start stop : Nat) : Tree :=
  node kind none start stop []

/-- The node in another part. -/
def withField (f : Field) : Tree → Tree
  | node k _ s e cs => node k (some f) s e cs

/-- The node as another kind. -/
def withKind (k : Kind) : Tree → Tree
  | node _ f s e cs => node k f s e cs

/-- Not a symbol. -/
def isNamed (t : Tree) : Bool :=
  t.kind.isNamed

/-- The source text of the node. -/
def text (source : Text) (t : Tree) : Text :=
  source.slice t.start t.stop

/-- The first child in a part. -/
def child? (f : Field) (t : Tree) : Option Tree :=
  t.children.find? (·.field = some f)

/-- All children in a part. -/
def childrenIn (f : Field) (t : Tree) : List Tree :=
  t.children.filter (·.field = some f)

/-- The first child of a kind. -/
def childOf? (k : Kind) (t : Tree) : Option Tree :=
  t.children.find? (·.kind = k)

/-- All children of a kind. -/
def childrenOf (k : Kind) (t : Tree) : List Tree :=
  t.children.filter (·.kind = k)

/-- The named children. -/
def namedChildren (t : Tree) : List Tree :=
  t.children.filter isNamed

/-- The named children that are no comments. -/
def significant (t : Tree) : List Tree :=
  t.children.filter fun c => c.isNamed && c.kind ≠ .comment

mutual

/-- The node and everything below it, parents before children. -/
def preorder : Tree → List Tree
  | node k f s e cs => node k f s e cs :: preorderAll cs

/-- The nodes of a list of trees, parents before children. -/
def preorderAll : List Tree → List Tree
  | [] => []
  | t :: ts => preorder t ++ preorderAll ts

end

/-- The node and everything below it of a kind, in source order. -/
def ofKind (k : Kind) (t : Tree) : List Tree :=
  t.preorder.filter (·.kind = k)

/-- The variable specifications of a declaration, groups taken apart. -/
def varSpecs (declaration : Tree) : List Tree :=
  declaration.childrenOf .varSpec
    ++ (declaration.childrenOf .varSpecList).flatMap (childrenOf .varSpec)

/-- The import specifications of a declaration, groups taken apart. -/
def importSpecs (declaration : Tree) : List Tree :=
  declaration.childrenOf .importSpec
    ++ (declaration.childrenOf .importSpecList).flatMap (childrenOf .importSpec)

/-- The expression or literal value inside an element of a composite literal. -/
def literalInner (t : Tree) : Tree :=
  if t.kind = .literalElement then t.namedChildren.headD t else t

end Tree

/-- A node with its ancestors, the nearest first. -/
structure Site where
  node : Tree
  ancestors : List Tree

namespace Site

/-- The node that holds this one. -/
def parent? (s : Site) : Option Tree :=
  s.ancestors.head?

/-- The places of the children. -/
def children (s : Site) : List Site :=
  s.node.children.map fun c => ⟨c, s.node :: s.ancestors⟩

/-- The places of all ancestors, the nearest first. -/
def chainOf : List Tree → List Site
  | [] => []
  | t :: above => ⟨t, above⟩ :: chainOf above

/-- The place itself and those of its ancestors, the nearest first. -/
def chain (s : Site) : List Site :=
  s :: chainOf s.ancestors

/-- A statement in a statement list, or a declaration of the file. -/
def isStatementLevel (s : Site) : Bool :=
  s.node.kind ≠ .comment &&
    match s.parent? with
    | none => false
    | some p =>
      p.kind.holdsStatements && (p.kind ≠ .sourceFile || s.node.kind.isTopLevelDeclaration)

/-- The nearest statement or declaration of the file at or around the place. -/
def enclosingStatement? (s : Site) : Option Tree :=
  (s.chain.find? isStatementLevel).map Site.node

/-- The nearest function around the place. -/
def enclosingFunction? (s : Site) : Option Tree :=
  s.ancestors.find? (·.kind.isFunction)

end Site

mutual

/-- The places of a node and of everything below it, parents first. -/
def Site.preorderAt (above : List Tree) : Tree → List Site
  | .node k f s e cs =>
    ⟨.node k f s e cs, above⟩ :: Site.preorderBelow (.node k f s e cs :: above) cs

/-- The places in a list of siblings, parents first. -/
def Site.preorderBelow (above : List Tree) : List Tree → List Site
  | [] => []
  | t :: ts => Site.preorderAt above t ++ Site.preorderBelow above ts

end

/-- The places of a tree, parents before children. -/
def Tree.sites (t : Tree) : List Site :=
  Site.preorderAt [] t

mutual

/-- The places of a node and of everything below it, children first. -/
def Site.postorderAt (above : List Tree) : Tree → List Site
  | .node k f s e cs =>
    Site.postorderBelow (.node k f s e cs :: above) cs ++ [⟨.node k f s e cs, above⟩]

/-- The places in a list of siblings, children first. -/
def Site.postorderBelow (above : List Tree) : List Tree → List Site
  | [] => []
  | t :: ts => Site.postorderAt above t ++ Site.postorderBelow above ts

end

/-- The places of a tree, children before parents. -/
def Tree.sitesUpward (t : Tree) : List Site :=
  Site.postorderAt [] t

end Interlace.Syntax
