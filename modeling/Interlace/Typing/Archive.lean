import Interlace.Dict
import Interlace.Text.Decimal
import Interlace.Text.Lines
import Interlace.Text.White
import Interlace.Version

/-!
# Archives of compiled packages

A compiled dependency is an `ar` archive. Of it only the member with the package definition is
read: the version of the compiler, the package's name and what the package exports.

`Archive.build` and `Archive.definition` write such archives, `Archive.members` writes archives
with any members.
-/

namespace Interlace

/-- What kind of thing a package exports under a name. -/
inductive ExportKind where
  | func
  | type
  | var
  | const
  deriving DecidableEq, Repr

/-- The keyword of an export. -/
def ExportKind.keyword : ExportKind → Text
  | func => "func"
  | type => "type"
  | var => "var"
  | const => "const"

/-- The kind that a keyword names. -/
def ExportKind.ofKeyword? (w : Text) : Option ExportKind :=
  [func, type, var, const].find? (·.keyword = w)

/-- What is known of a compiled dependency. -/
structure ArchiveInfo where
  version : Option Version
  packageName : Option Text
  exports : Dict ExportKind
  deriving DecidableEq

/-- Why an archive cannot be read. -/
inductive ArchiveFault where
  | notArchive
  | corruptHeader (offset : Nat)
  | corruptSize (offset : Nat) (cause : Text.DecimalError)
  | truncated (member : Text)
  | noMember (member : Text)
  deriving DecidableEq, Repr

/-- The wording of a fault. -/
def ArchiveFault.message : ArchiveFault → Text
  | notArchive => "not an ar archive"
  | corruptHeader offset => "corrupt ar header at byte " ++ Text.ofNat offset
  | corruptSize offset cause =>
    "corrupt member size at byte " ++ Text.ofNat offset ++ ": " ++ cause.message
  | truncated member => "truncated ar member " ++ Text.shown member
  | noMember member => "archive has no " ++ member ++ " member"

namespace Archive

/-- The first bytes of every archive. -/
def magic : Text := "!<arch>\n"

/-- The last bytes of every member header. -/
def headerEnd : Text := "\x60\n"

/-- The member that holds the package definition. -/
def definitionMember : Text := "__.PKGDEF"

/-- The text without slashes at its end. -/
def dropSlashes (t : Text) : Text :=
  (t.reverse.dropWhile (· = 0x2F)).reverse

/-- The name in a member header. -/
def headerName (header : Text) : Text :=
  dropSlashes (Text.trimEnd (Text.mended (header.take 16)))

/-- The body size in a member header. -/
def headerSize (header : Text) : Except Text.DecimalError Nat :=
  Text.decimal Text.bound64 (Text.trim (Text.mended (header.slice 48 58)))

/-- The body of the first member with the wanted name, in the members that start at `offset`;
`fuel` bounds how many. -/
def findFrom (wanted : Text) : (fuel offset : Nat) → Text → Except ArchiveFault (Option Text)
  | 0, _, _ => .ok none
  | fuel + 1, offset, t =>
    if t.length < 60 then .ok none
    else
      let header := t.take 60
      if header.drop 58 ≠ headerEnd then .error (.corruptHeader offset)
      else
        match headerSize header with
        | .error cause => .error (.corruptSize offset cause)
        | .ok size =>
          let name := headerName header
          let body := t.drop 60
          if body.length < size then .error (.truncated name)
          else if name = wanted then .ok (some (body.take size))
          else
            let padded := size + size % 2
            findFrom wanted fuel (offset + 60 + padded) (body.drop padded)

/-- The body of the first member with the wanted name. -/
def find (wanted bytes : Text) : Except ArchiveFault (Option Text) :=
  match Text.stripPrefix? magic bytes with
  | none => .error .notArchive
  | some members => findFrom wanted members.length magic.length members

/-! ## The package definition -/

/-- The version in the first line of a definition. -/
def headerVersion? (line : Text) : Option Version := do
  let rest ← Text.stripPrefix? "go object " line
  let word ← (Text.words rest)[2]?
  Version.parse? word

/-- Reads the lines of the export section up to its end. -/
def readExports : ArchiveInfo → List Text → ArchiveInfo
  | info, [] => info
  | info, line :: lines =>
    let line := Text.trimEnd line
    if line = "$$" then info
    else
      match Text.words line with
      | word :: name :: _ =>
        if word = "package" then readExports { info with packageName := some name } lines
        else
          match ExportKind.ofKeyword? word with
          | some kind => readExports { info with exports := info.exports.insert name kind } lines
          | none => readExports info lines
      | _ => readExports info lines

/-- Passes over the lines before the export section. Binary exports are not read. -/
def readBody (info : ArchiveInfo) : List Text → ArchiveInfo
  | [] => info
  | line :: lines =>
    let line := Text.trimEnd line
    if line = "$$" then readExports info lines
    else if Text.startsWith line "$$B" then info
    else readBody info lines

/-- Reads a package definition. -/
def readDefinition (body : Text) : ArchiveInfo :=
  match Text.lines (Text.mended body) with
  | [] => ⟨none, none, .empty⟩
  | header :: lines => readBody ⟨headerVersion? header, none, .empty⟩ lines

/-- Reads an archive. -/
def read (bytes : Text) : Except ArchiveFault ArchiveInfo :=
  match find definitionMember bytes with
  | .error fault => .error fault
  | .ok none => .error (.noMember definitionMember)
  | .ok (some body) => .ok (readDefinition body)

/-! ## Writing -/

/-- The text with spaces up to a width. -/
def padded (width : Nat) (t : Text) : Text :=
  t ++ List.replicate (width - t.length) 0x20

/-- A member with a name as it stands in the header. -/
def member (name body : Text) : Text :=
  padded 16 name ++ padded 12 "0" ++ padded 6 "0" ++ padded 6 "0" ++ padded 8 "644"
    ++ padded 10 (Text.ofNat body.length) ++ headerEnd ++ body
    ++ (if body.length % 2 = 1 then [0x0A] else [])

/-- An archive of members with the given names and bodies. -/
def members (l : List (Text × Text)) : Text :=
  magic ++ l.flatMap fun (name, body) => member name body

/-- An archive of a package definition. -/
def build (body : Text) : Text :=
  members [(definitionMember ++ "/", body)]

/-- A line of the export section. -/
def exportLine (e : Text × Text) : Text :=
  e.1 ++ " " ++ e.2 ++ "\n"

/-- A package definition in text form. -/
def definition (version packageName : Text) (exports : List (Text × Text)) : Text :=
  "go object linux amd64 " ++ version ++ "\n\n$$\npackage " ++ packageName ++ "\n"
    ++ exports.flatMap exportLine ++ "$$\n"

end Archive

end Interlace
