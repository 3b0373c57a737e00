import Interlace.Text.Basic

/-!
# The extends graph

Which configuration document extends which. An edge that would close a circle is refused, with
a shortest circle as the reason: of the edges that leave a document, later ones are tried
first.
-/

namespace Interlace

/-- Documents and the edges between them. -/
structure ExtendsGraph where
  /-- The documents, in the order they were met. -/
  nodes : List Text
  /-- The edges, the latest first. -/
  edges : List (Text × Text)

namespace ExtendsGraph

/-- No documents. -/
def empty : ExtendsGraph := ⟨[], []⟩

/-- The graph with one more document, unless it is there. -/
def addNode (g : ExtendsGraph) (id : Text) : ExtendsGraph :=
  if id ∈ g.nodes then g else { g with nodes := g.nodes ++ [id] }

/-- The documents that a document extends, the latest first. -/
def targets (g : ExtendsGraph) (id : Text) : List Text :=
  (g.edges.filter fun e => e.1 = id).map Prod.snd

/-- Searches breadth first. `queue` holds walks, each from its last document back to the start,
and `seen` the documents that were ever queued; `fuel` bounds the number of walks. -/
def search (g : ExtendsGraph) (goal : Text) :
    (fuel : Nat) → (queue : List (List Text)) → (seen : List Text) → Option (List Text)
  | 0, _, _ => none
  | _, [], _ => none
  | fuel + 1, walk :: queue, seen =>
    let current := walk.headD []
    if current = goal then some walk.reverse
    else
      let fresh := (g.targets current).filter (! seen.contains ·)
      search g goal fuel (queue ++ fresh.map (· :: walk)) (seen ++ fresh)

/-- A shortest path between two documents, both ends included. -/
def path? (g : ExtendsGraph) (start goal : Text) : Option (List Text) :=
  g.search goal (g.nodes.length + 1) [[start]] [start]

/-- Records that one document extends another, or tells the circle that this would close. The
documents are recorded in any case. -/
def addEdge (g : ExtendsGraph) (id target : Text) : Option (List Text) × ExtendsGraph :=
  let g := (g.addNode id).addNode target
  match g.path? target id with
  | some path => (some (path ++ [target]), g)
  | none =>
    if (id, target) ∈ g.edges then (none, g)
    else (none, { g with edges := (id, target) :: g.edges })

end ExtendsGraph

end Interlace
