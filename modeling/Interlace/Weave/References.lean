import Interlace.Dict

/-!
# References of added code

The packages that added code depends on, whether they have to be imported or only linked, the
names they are imported by, and the expressions that have to stay in use.
-/

namespace Interlace

/-- How a package is made available. -/
inductive ReferenceKind where
  /-- At link time only. -/
  | relocationTarget
  /-- By an import. -/
  | importStatement
  deriving DecidableEq, Repr

namespace ReferenceKind

/-- The stronger of two demands: an import also links. -/
def max : ReferenceKind → ReferenceKind → ReferenceKind
  | relocationTarget, k => k
  | importStatement, _ => importStatement

end ReferenceKind

/-- What added code depends on. -/
structure ReferenceMap where
  /-- The demands by import path. -/
  entries : Dict ReferenceKind
  /-- The names to import each path by; `_` for an import without a name. -/
  aliases : Dict TextSet
  /-- Expressions that stay in use after a call was given another target. -/
  keepAlive : TextSet
  deriving DecidableEq

namespace ReferenceMap

/-- No dependencies. -/
def empty : ReferenceMap := ⟨.empty, .empty, .empty⟩

/-- Demands an import by a name. -/
def addImport (m : ReferenceMap) (path wanted : Text) : ReferenceMap :=
  { m with
    entries := m.entries.insert path .importStatement
    aliases := m.aliases.alter path fun names => (names.getD .empty).add wanted }

/-- Demands that a package is linked; a demand for an import stays. -/
def addRelocation (m : ReferenceMap) (path : Text) : ReferenceMap :=
  { m with entries := m.entries.alter path fun kind => kind.getD .relocationTarget }

/-- Keeps an expression in use. -/
def keep (m : ReferenceMap) (expression : Text) : ReferenceMap :=
  { m with keepAlive := m.keepAlive.add expression }

/-- The demand for a path. -/
def get? (m : ReferenceMap) (path : Text) : Option ReferenceKind :=
  m.entries.get? path

/-- The paths to import with their names, ascending. -/
def imports (m : ReferenceMap) : List (Text × Text) :=
  m.aliases.entries.flatMap fun (path, names) => names.toList.map fun name => (path, name)

/-- There is no demand and nothing to keep in use. -/
def isEmpty (m : ReferenceMap) : Bool :=
  m.entries.isEmpty && m.keepAlive.isEmpty

/-- The number of paths. -/
def size (m : ReferenceMap) : Nat :=
  m.entries.size

/-- Adds a demand, which does not weaken one that is there. -/
def raise (entries : Dict ReferenceKind) (path : Text) (kind : ReferenceKind) :
    Dict ReferenceKind :=
  entries.alter path fun present => (present.map (·.max kind)).getD kind

/-- The demands of both maps. -/
def merge (m other : ReferenceMap) : ReferenceMap where
  entries := other.entries.entries.foldl (fun d (path, kind) => raise d path kind) m.entries
  aliases := other.aliases.entries.foldl
    (fun d (path, names) => d.alter path fun present => (present.getD .empty).union names)
    m.aliases
  keepAlive := m.keepAlive.union other.keepAlive

end ReferenceMap

end Interlace
