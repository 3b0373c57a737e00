import Interlace.Dict
import Interlace.Failure
import Interlace.Text.Alphanumeric
import Interlace.Text.Lines
import Interlace.Text.White

/-!
# Import maps

Which archive holds which package, as the build tells the compiler, and the name that
a package most likely has when only its import path is known.
-/

namespace Interlace

/-- Archives by import path, and import paths that stand for others. -/
structure ImportMap where
  packages : Dict Text
  remaps : Dict Text

namespace ImportMap

/-- The map without entries. -/
def empty : ImportMap := ⟨.empty, .empty⟩

/-- The map with an archive for a package. -/
def insert (m : ImportMap) (path archive : Text) : ImportMap :=
  { m with packages := m.packages.insert path archive }

/-- The map with one path standing for another. -/
def remap (m : ImportMap) (path target : Text) : ImportMap :=
  { m with remaps := m.remaps.insert path target }

/-- The complaint about a line without an equals sign. -/
def missingEquals (line : Nat) : Text :=
  "importcfg line " ++ Text.ofNat line ++ ": missing '='"

/-- Reads one line; the number is that of the line. -/
def readLine (m : ImportMap) (number : Nat) (raw : Text) : Except Text ImportMap :=
  let line := Text.trim raw
  if line = [] || Text.startsWith line "#" then .ok m
  else
    let (verb, args) := (Text.splitOnce? " " line).getD (line, [])
    if verb = "packagefile" || verb = "importmap" then
      match Text.splitOnce? "=" args with
      | none => .error (missingEquals number)
      | some (key, value) =>
        if verb = "packagefile" then .ok (m.insert (Text.trim key) (Text.trim value))
        else .ok (m.remap (Text.trim key) (Text.trim value))
    else .ok m

/-- Reads lines, numbered from `number`. -/
def readLines : (number : Nat) → ImportMap → List Text → Except Text ImportMap
  | _, m, [] => .ok m
  | number, m, line :: lines =>
    match readLine m number line with
    | .ok m => readLines (number + 1) m lines
    | .error fault => .error fault

/-- Reads the text that the build hands to the compiler. Lines it does not know are passed
over. -/
def parse (text : Text) : Except Text ImportMap :=
  readLines 1 empty (Text.lines text)

/-- The path that a path stands for. -/
def resolve (m : ImportMap) (path : Text) : Text :=
  (m.remaps.get? path).getD path

/-- The archive of a package. -/
def archive? (m : ImportMap) (path : Text) : Option Text :=
  m.packages.get? (m.resolve path)

/-- The package has an archive. -/
def contains (m : ImportMap) (path : Text) : Bool :=
  (m.archive? path).isSome

/-- The packages with archives, ascending. -/
def paths (m : ImportMap) : List Text :=
  m.packages.keys

/-- No package has an archive. -/
def isEmpty (m : ImportMap) : Bool :=
  m.packages.isEmpty

/-- Looks archives up on a disk. A package without an archive is an error. -/
def lookup (m : ImportMap) (disk : Disk) (path : Text) : Except Failure (Option Text) :=
  match m.archive? path with
  | none => .error (.typeCheck path .notInImportMap)
  | some file =>
    match disk.read file with
    | .ok bytes => .ok (some bytes)
    | .error fault => .error (.ofDisk file fault)

end ImportMap

namespace PackageName

/-- A path element that only names a major version, such as `v2`. -/
def isMajorVersion (element : Text) : Bool :=
  match element with
  | 0x76 :: digits => ! digits.isEmpty && digits.all Text.isDigit
  | _ => false

/-- The path element that names the package. -/
def nameElement (path : Text) : Text :=
  match (Text.splitWhere (· = 0x2F) path).reverse with
  | last :: previous :: _ => if isMajorVersion last then previous else last
  | [last] => last
  | [] => path

/-- The name that the package of an import path most likely has: `gopkg.in/yaml.v3` is `yaml`,
`github.com/x/go-redis/v9` is `redis`. -/
def guess (path : Text) : Text :=
  let element := (nameElement path).takeWhile (· ≠ 0x2E)
  let element := (Text.stripPrefix? "go-" element).getD element
  let element := (Text.stripSuffix? "-go" element).getD element
  Text.ofChars ((Text.chars element).map fun c => if Text.isWordChar c then c else '_')

end PackageName

end Interlace
