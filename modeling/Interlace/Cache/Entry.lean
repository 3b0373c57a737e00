import Interlace.Aspect.Codec
import Interlace.Weave.References

/-!
# Cache entries

What is kept of the result for a package, and how it is written: as JSON, which reads back as
the same entry.
-/

namespace Interlace

open Json

/-- A woven file. -/
structure CachedFile where
  contents : Text
  references : ReferenceMap
  deriving DecidableEq

/-- The result for a package. Files that were left as they are do not occur. -/
structure CacheEntry where
  /-- The woven files by the paths of their sources. -/
  files : Dict CachedFile
  /-- The language version that the woven files need. -/
  version : Option Version
  deriving DecidableEq

/-- A dictionary as JSON. -/
def Json.ofDict {α : Type} (encode : α → Json) (d : Dict α) : Json :=
  .record (d.entries.map fun (key, a) => (key, encode a))

/-- A set of texts as JSON. -/
def Json.ofTextSet (s : TextSet) : Json :=
  .list (s.toList.map .string)

namespace ReferenceKind

/-- The written form. -/
def render : ReferenceKind → Text
  | relocationTarget => "relocation-target"
  | importStatement => "import-statement"

/-- Decodes a kind. -/
def ofJson (o : Origin) (j : Json) : Decoded ReferenceKind :=
  Variant.decode o
    [⟨render relocationTarget, .nothing relocationTarget⟩,
      ⟨render importStatement, .nothing importStatement⟩] j

end ReferenceKind

namespace ReferenceMap

/-- The references as JSON. -/
def toJson (m : ReferenceMap) : Json :=
  .record (member "entries" (ofDict (fun k => .string (ReferenceKind.render k)) m.entries)
    :: (if m.aliases.isEmpty then [] else [member "aliases" (ofDict ofTextSet m.aliases)])
    ++ (if m.keepAlive.isEmpty then [] else [member "keep_alive" (ofTextSet m.keepAlive)]))

/-- How references are written. -/
def shape (o : Origin) : RecordShape ReferenceMap where
  title := "struct ReferenceMap"
  strict := false
  fields := [
    ⟨"entries", .always,
      fun j m => (asDict (ReferenceKind.ofJson o) j).map fun v => { m with entries := v }⟩,
    ⟨"aliases", .optional, fun j m => (asDict asTextSet j).map fun v => { m with aliases := v }⟩,
    ⟨"keep_alive", .optional, fun j m => (asTextSet j).map fun v => { m with keepAlive := v }⟩]
  blank := .empty

end ReferenceMap

namespace CachedFile

/-- The file as JSON. -/
def toJson (f : CachedFile) : Json :=
  .record [("contents", .string f.contents), ("references", f.references.toJson)]

/-- How files are written. -/
def shape (o : Origin) : RecordShape CachedFile where
  title := "struct CachedFile"
  strict := false
  fields := [
    ⟨"contents", .always, fun j f => (asText j).map fun v => { f with contents := v }⟩,
    ⟨"references", .always,
      fun j f => ((ReferenceMap.shape o).decode o j).map fun v => { f with references := v }⟩]
  blank := ⟨[], .empty⟩

end CachedFile

namespace CacheEntry

/-- The entry as JSON. -/
def toJson (e : CacheEntry) : Json :=
  .record [("files", ofDict CachedFile.toJson e.files),
    ("go_version", (e.version.map Version.toJson).getD .null)]

/-- How entries are written. -/
def shape (o : Origin) : RecordShape CacheEntry where
  title := "struct CacheEntry"
  strict := false
  fields := [
    ⟨"files", .always,
      fun j e => (asDict ((CachedFile.shape o).decode o) j).map fun v => { e with files := v }⟩,
    ⟨"go_version", .inLists,
      fun j e => (asOption Version.ofJson j).map fun v => { e with version := v }⟩]
  blank := ⟨.empty, none⟩

/-- The bytes of the entry. -/
def render (e : CacheEntry) : Text :=
  e.toJson.render

/-- Reads an entry. -/
def parse (bytes : Text) : Decoded CacheEntry :=
  decodeText ((shape .text).decode .text) bytes

end CacheEntry

end Interlace
