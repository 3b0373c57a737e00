import Interlace.Syntax.Tree

/-!
# Walking a tree

A walk visits every node twice: before its children, when it may be cut off with everything
below it, and after its children, when the walk may be stopped. `Walk.run` moves a cursor and
keeps a stack of the nodes it is inside of; `Walk.visit` is the same walk by recursion on the tree.
-/

namespace Interlace.Syntax

/-- A node with the siblings that follow it. -/
structure Frame where
  node : Tree
  following : List Tree

/-- A node of a tree from which its neighbours can be reached. -/
structure Cursor extends Frame where
  /-- The nodes above, the nearest first. -/
  frames : List Frame

namespace Cursor

/-- At a root, which has no siblings. -/
def ofRoot (t : Tree) : Cursor :=
  ⟨⟨t, []⟩, []⟩

/-- At the first child. -/
def firstChild? (c : Cursor) : Option Cursor :=
  match c.node.children with
  | [] => none
  | t :: ts => some ⟨⟨t, ts⟩, c.toFrame :: c.frames⟩

/-- At the sibling that follows. -/
def nextSibling? (c : Cursor) : Option Cursor :=
  match c.following with
  | [] => none
  | t :: ts => some ⟨⟨t, ts⟩, c.frames⟩

/-- At the node above. -/
def parent? (c : Cursor) : Option Cursor :=
  match c.frames with
  | [] => none
  | frame :: frames => some ⟨frame, frames⟩

end Cursor

/-- Whether to go below a node. -/
inductive Visit where
  | descend
  /-- Leave out the children and the second visit of the node. -/
  | prune
  deriving DecidableEq, Repr

/-- What a walk does at a node, given the ancestors of the node, the nearest first. -/
structure Walk (σ ε : Type) where
  /-- Before the children. -/
  enter : σ → Site → Visit × σ
  /-- After the children. -/
  leave : σ → Site → Except (ε × σ) σ

namespace Walk

variable {σ ε : Type} (w : Walk σ ε)

mutual

/-- Walks a tree by recursion. -/
def visit (above : List Tree) : σ → Tree → Except (ε × σ) σ
  | state, .node k f s e cs =>
    let t : Tree := .node k f s e cs
    match w.enter state ⟨t, above⟩ with
    | (.prune, state) => .ok state
    | (.descend, state) =>
      match visitAll (t :: above) state cs with
      | .ok state => w.leave state ⟨t, above⟩
      | .error stop => .error stop

/-- Walks siblings by recursion. -/
def visitAll (above : List Tree) : σ → List Tree → Except (ε × σ) σ
  | state, [] => .ok state
  | state, t :: ts =>
    match visit above state t with
    | .ok state => visitAll above state ts
    | .error stop => .error stop

end

mutual

/-- Comes to the node of a cursor; `chain` are the nodes that the walk went below, the nearest
first. `fuel` bounds the number of steps. -/
def arrive : (fuel : Nat) → Cursor → (chain : List Tree) → σ → Except (ε × σ) σ
  | 0, _, _, state => .ok state
  | fuel + 1, cursor, chain, state =>
    match w.enter state ⟨cursor.node, chain⟩ with
    | (.prune, state) => climb fuel cursor chain state
    | (.descend, state) =>
      match cursor.firstChild? with
      | some child => arrive fuel child (cursor.node :: chain) state
      | none =>
        match w.leave state ⟨cursor.node, chain⟩ with
        | .ok state => climb fuel cursor chain state
        | .error stop => .error stop

/-- Goes on behind the node of a cursor: climbs until a sibling is found, and leaves each node of
the chain on the way up. -/
def climb : (fuel : Nat) → Cursor → (chain : List Tree) → σ → Except (ε × σ) σ
  | 0, _, _, state => .ok state
  | fuel + 1, cursor, chain, state =>
    match cursor.nextSibling? with
    | some sibling => arrive fuel sibling chain state
    | none =>
      match cursor.parent? with
      | none => .ok state
      | some parent =>
        match chain with
        | [] => climb fuel parent [] state
        | node :: chain =>
          match w.leave state ⟨node, chain⟩ with
          | .ok state => climb fuel parent chain state
          | .error stop => .error stop

end

/-- Walks a tree with a cursor. Every node is arrived at once at most, and climbed from once. -/
def run (state : σ) (t : Tree) : Except (ε × σ) σ :=
  arrive w (2 * t.preorder.length) (.ofRoot t) [] state

end Walk

end Interlace.Syntax
