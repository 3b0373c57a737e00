import Interlace.Aspect.Builtin
import Interlace.Config.Document
import Interlace.Config.Graph

/-!
# Loading configuration

Loads a document and everything it extends. A session reads every document once; the aspects
come in the order built-in ones, extended documents in the order they are listed, the document
itself.
-/

namespace Interlace

/-- Finds the document that a package ships, or says why there is none. -/
abbrev PackageLocator := Text → Except Text Text

/-- The locator of sessions without packages. -/
def noPackages : PackageLocator := fun path =>
  .error ("cannot resolve configuration package " ++ Text.shown path
    ++ ": no package locator")

/-- How documents are found. -/
structure Loader where
  disk : Disk
  locator : PackageLocator
  builtins : Bool

/-- What a session remembers. -/
structure LoaderState where
  graph : ExtendsGraph
  /-- The documents that were met. -/
  loaded : List Text

/-- A new session. -/
def LoaderState.fresh : LoaderState := ⟨.empty, []⟩

/-- Documents in the order they are merged, and their aspects. -/
structure LoadedConfig where
  documents : List (Text × Meta)
  aspects : List Aspect

/-- A step of a session. The memory outlives a failure. -/
abbrev Loading := ExceptT Failure (StateM LoaderState)

namespace Loader

/-- An entry that names a file and not a package. -/
def isFileReference (entry : Text) : Bool :=
  Text.endsWith entry ".json" || Text.startsWith entry "./" || Text.startsWith entry "../"
    || Text.startsWith entry "/"

/-- The canonical path of something that exists; any other path as it is. -/
def canonical (l : Loader) (path : Text) : Text :=
  ((l.disk.canonical path).toOption).getD path

/-- The text of a document. -/
def readText (l : Loader) (path : Text) : Except Failure Text :=
  let failed := fun (fault : DiskFault) =>
    Except.error (.config ("reading " ++ path ++ ": " ++ fault.message))
  match l.disk.read path with
  | .error fault => failed fault
  | .ok bytes => if bytes.illFormedAt?.isSome then failed .notUtf8 else .ok bytes

/-- The document that an entry of the document `id` refers to. -/
def target (l : Loader) (id entry : Text) : Except Failure Text :=
  if isFileReference entry then
    .ok (l.canonical (Path.join ((Path.parent? id).getD ".") entry))
  else
    match l.locator entry with
    | .ok path => .ok (l.canonical path)
    | .error cause =>
      .error (.config (id ++ ": extends " ++ Text.shown entry ++ ": " ++ cause))

/-- Adds a document and everything it extends, unless it was met before; `fuel` bounds how many
documents extend one another in a row. -/
def loadDocument (l : Loader) : (fuel : Nat) → (id : Text) → LoadedConfig → Loading LoadedConfig
  | 0, _, config => return config
  | fuel + 1, id, config => do
    if (← get).loaded.contains id then return config
    else
      modify fun s => { s with loaded := id :: s.loaded }
      let text ← liftExcept (l.readText id)
      let document ← liftExcept (Document.parse text id)
      let config ← document.extended.foldlM
        (fun config entry => do
          let target ← liftExcept (l.target id entry)
          let (circle, graph) := (← get).graph.addEdge id target
          modify fun s => { s with graph := graph }
          match circle with
          | some ids => throw (.cycle ids)
          | none => loadDocument l fuel target config)
        config
      return ⟨config.documents ++ [(id, document.about)], config.aspects ++ document.aspects⟩
where
  /-- A result as a step. -/
  liftExcept {α : Type} : Except Failure α → Loading α
    | .ok a => return a
    | .error failure => throw failure

/-- Loads a root document. Documents lie on the disk, so there are no more than it has
entries. -/
def load (l : Loader) (root : Text) : Loading LoadedConfig :=
  l.loadDocument (l.disk.entries.length + 2) (l.canonical root)
    ⟨[], if l.builtins then builtinAspects else []⟩

end Loader

end Interlace
