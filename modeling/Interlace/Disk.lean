import Interlace.Path
import Interlace.Dict

/-!
# A disk

A disk is a value: files and folders at absolute locations, and the working folder from which
relative paths are read. Operations give a new disk or the fault that the operating system
reports.
-/

namespace Interlace

/-- The names from the root folder down to a place on the disk. -/
abbrev Location := List Text

/-- What stands at a location. -/
inductive Entry where
  | file (contents : Text)
  | folder
  deriving DecidableEq, Repr

/-- Faults of the file system. -/
inductive DiskFault where
  | notFound
  | exists
  | notFolder
  | isFolder
  | notUtf8
  deriving DecidableEq, Repr

/-- The operating system's wording. -/
def DiskFault.message : DiskFault → Text
  | notFound => "No such file or directory (os error 2)"
  | .exists => "File exists (os error 17)"
  | notFolder => "Not a directory (os error 20)"
  | isFolder => "Is a directory (os error 21)"
  | notUtf8 => "stream did not contain valid UTF-8"

/-- Files and folders, and the working folder. -/
structure Disk where
  entries : List (Location × Entry)
  working : Location

namespace Disk

/-- A disk with a working folder and nothing else. -/
def scratch (working : Location) : Disk :=
  ⟨(List.range working.length).map fun i => (working.take (i + 1), .folder), working⟩

/-- What stands at a location; the root is always a folder. -/
def get? (d : Disk) (location : Location) : Option Entry :=
  if location = [] then some .folder
  else (d.entries.find? fun e => e.1 = location).map Prod.snd

/-- Puts an entry at a location. -/
def set (d : Disk) (location : Location) (entry : Entry) : Disk :=
  ⟨(location, entry) :: d.entries.filter fun e => e.1 ≠ location, d.working⟩

/-- Follows pieces of a path from a location. Every place that is passed has to be a folder;
the last name may be absent. -/
def follow (d : Disk) : (from_ : Location) → List Text → Except DiskFault Location
  | location, [] => .ok location
  | location, piece :: rest =>
    match d.get? location with
    | none => .error .notFound
    | some (.file _) => .error .notFolder
    | some .folder =>
      if Path.isIdle piece then follow d location rest
      else if piece = ".." then follow d location.dropLast rest
      else follow d (location ++ [piece]) rest

/-- The location that a path names. -/
def locate (d : Disk) (path : Text) : Except DiskFault Location :=
  if path = [] then .error .notFound
  else follow d (if Path.isAbsolute path then [] else d.working) (Path.pieces path)

/-- The location at which a path puts something new; slashes at its end do not count. -/
def place (d : Disk) (path : Text) : Except DiskFault Location :=
  if path = [] then .error .notFound
  else
    let pieces := ((Path.pieces path).reverse.dropWhile (· = [])).reverse
    follow d (if Path.isAbsolute path then [] else d.working) pieces

/-- The entry that a path names. -/
def lookup (d : Disk) (path : Text) : Except DiskFault (Location × Entry) := do
  let location ← d.locate path
  match d.get? location with
  | some entry => .ok (location, entry)
  | none => .error .notFound

/-- The contents of a file. -/
def read (d : Disk) (path : Text) : Except DiskFault Text := do
  match ← d.lookup path with
  | (_, .file contents) => .ok contents
  | (_, .folder) => .error .isFolder

/-- The path names something. -/
def has (d : Disk) (path : Text) : Bool :=
  (d.lookup path).toOption.isSome

/-- The absolute spelling of a location. -/
def spell (location : Location) : Text :=
  "/" ++ Text.join "/" location

/-- The absolute path without idle pieces and `..` of something that exists. -/
def canonical (d : Disk) (path : Text) : Except DiskFault Text := do
  let (location, _) ← d.lookup path
  return spell location

/-- Writes a file into a folder that exists. A path with a slash at its end is never a file's. -/
def write (d : Disk) (path contents : Text) : Except DiskFault Disk := do
  let location ← d.place path
  if Text.endsWith path "/" then .error .isFolder
  else
    match d.get? location with
    | some .folder => .error .isFolder
    | _ => .ok (d.set location (.file contents))

/-- Creates one folder. -/
def createFolder (d : Disk) (path : Text) : Except DiskFault Disk := do
  let location ← d.place path
  match d.get? location with
  | some _ => .error .exists
  | none => .ok (d.set location .folder)

/-- The path names a folder. -/
def isFolder (d : Disk) (path : Text) : Bool :=
  match d.lookup path with
  | .ok (_, .folder) => true
  | _ => false

/-- Creates a folder unless it exists. -/
def ensureFolder (d : Disk) (path : Text) : Except DiskFault Disk :=
  match d.createFolder path with
  | .ok d => .ok d
  | .error fault => if d.isFolder path then .ok d else .error fault

/-- Creates a folder and the missing ones above it; `fuel` bounds how many. -/
def createFolders : (fuel : Nat) → Disk → Text → Except DiskFault Disk
  | 0, d, path => d.ensureFolder path
  | fuel + 1, d, path =>
    if path = [] then .ok d
    else
      match d.ensureFolder path with
      | .ok d => .ok d
      -- Only an absent parent is created; other faults stand.
      | .error .notFound =>
        match Path.parent? path with
        | none => .error .notFound
        | some parent => do
          let d ← createFolders fuel d parent
          d.ensureFolder path
      | .error fault => .error fault

/-- Creates a folder and the missing ones above it. -/
def createAll (d : Disk) (path : Text) : Except DiskFault Disk :=
  createFolders (Path.components path).length d path

/-- Removes a file; nothing else can be removed. -/
def remove? (d : Disk) (path : Text) : Option Disk :=
  match d.lookup path with
  | .ok (location, .file _) => some ⟨d.entries.filter fun e => e.1 ≠ location, d.working⟩
  | _ => none

/-- The part of `path` below `root`. Both are made canonical first when both exist. -/
def relative (d : Disk) (path root : Text) : Except Path.Fault Text :=
  let (path, root) :=
    match d.canonical path, d.canonical root with
    | .ok p, .ok r => (p, r)
    | _, _ => (path, root)
  match Path.stripBase? root path with
  | some rest => .ok rest
  | none => .error (.notUnder path root)

/-- The part of `path` below `root`, or `path` as it is when it lies elsewhere. -/
def displayRelative (d : Disk) (path root : Text) : Text :=
  match d.relative path root with
  | .ok rest => rest
  | .error _ => path

end Disk

end Interlace
