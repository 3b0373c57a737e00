import Interlace.Typing.Archive
import Interlace.Typing.ImportMap

/-!
# Importing dependencies

Access to the metadata of dependencies through a lookup, with a cache. What a lookup yields is
kept for the path, missing and unreadable archives included; failing lookups are not kept. An
archive by a compiler that is too new is an error each time it is asked for.
-/

namespace Interlace

/-- Finds the archive of an import path: its bytes, or nothing when only its name can be
guessed. -/
abbrev ArchiveLookup := Text → Except Failure (Option Text)

/-- The lookup that finds nothing. -/
def noArchives : ArchiveLookup := fun _ => .ok none

/-- What an importer remembers. -/
structure ImportState where
  /-- What the lookup yielded, by path. -/
  cache : Dict (Option ArchiveInfo)
  /-- The paths that the lookup was asked for, the latest first. -/
  asked : List Text

namespace ImportState

/-- Nothing cached and nothing asked. -/
def fresh : ImportState := ⟨.empty, []⟩

end ImportState

/-- A computation that may look dependencies up. The memory outlives a failure. -/
abbrev Importing := ExceptT Failure (StateM ImportState)

/-- How dependencies are found, and whether finding them has been cancelled. -/
structure Importer where
  lookup : ArchiveLookup
  cancelled : Bool

namespace Importer

/-- The paths that have no archive by nature. -/
def isBuiltIn (path : Text) : Bool :=
  path = "C" || path = "unsafe"

/-- What a lookup's answer comes to. -/
def interpret (path : Text) : Except Failure (Option Text) → Except Failure (Option ArchiveInfo)
  | .ok none => .ok none
  | .ok (some bytes) => .ok (Archive.read bytes).toOption
  | .error failure =>
    if failure.isFatal then .error failure
    else .error (.typeCheck path (.cannotImport path failure.message))

/-- Refuses archives by a compiler that is too new. -/
def vet (path : Text) (info : Option ArchiveInfo) : Except Failure (Option ArchiveInfo) :=
  match info.bind ArchiveInfo.version with
  | some found =>
    if found.le Version.supported then .ok info
    else .error (.toolchain path found Version.supported)
  | none => .ok info

/-- The metadata of a path, from the cache or the lookup. -/
def fetch (i : Importer) (path : Text) : Importing (Option ArchiveInfo) := do
  match (← get).cache.get? path with
  | some info => return info
  | none =>
    if i.cancelled then throw .cancelled
    modify fun s => { s with asked := path :: s.asked }
    match interpret path (i.lookup path) with
    | .error failure => throw failure
    | .ok info =>
      modify fun s => { s with cache := s.cache.insert path info }
      return info

/-- The metadata of a path, or nothing when only its name can be guessed. -/
def import? (i : Importer) (path : Text) : Importing (Option ArchiveInfo) := do
  if isBuiltIn path then return none
  else
    let info ← i.fetch path
    match vet path info with
    | .ok info => return info
    | .error failure => throw failure

/-- The name that the package of a path declares. -/
def packageName (i : Importer) (path : Text) : Importing Text := do
  let info ← i.import? path
  return (info.bind ArchiveInfo.packageName).getD (PackageName.guess path)

end Importer

end Interlace
