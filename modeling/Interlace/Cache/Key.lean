import Interlace.Dict
import Interlace.Digest
import Interlace.Version

/-!
# Cache keys

A key is the hash of everything that a result depends on. What is hashed is `KeyInputs.stream`:
every field is preceded by its length and every list by its count, so that no two inputs give
the same bytes. The order of the lists does not matter.
-/

namespace Interlace

/-- The version of this weaver. -/
def toolVersion : Text := "0.1.0"

/-- What the result for a package depends on. -/
structure KeyInputs where
  toolVersion : Text
  importPath : Text
  version : Option Version
  testMain : Bool
  /-- The hashes of the source files. -/
  sources : List Text
  /-- The hashes of the aspects. -/
  aspects : List Text
  /-- The import paths of the dependencies. -/
  imports : List Text

namespace KeyInputs

/-- A number in `width` bytes, the least significant first. -/
def littleEndian : (width : Nat) → Nat → Text
  | 0, _ => []
  | width + 1, n => UInt8.ofNat (n % 256) :: littleEndian width (n / 256)

/-- A number in eight bytes. -/
def word (n : Nat) : Text :=
  littleEndian 8 n

/-- Bytes preceded by their number. -/
def field (bytes : Text) : Text :=
  word bytes.length ++ bytes

/-- Texts in byte order, preceded by their number. -/
def listField (items : List Text) : Text :=
  field (word items.length) ++ (sortBy Text.le items).flatMap field

/-- The bytes that are hashed. -/
def stream (k : KeyInputs) : Text :=
  field k.toolVersion ++ field k.importPath ++ field ((k.version.map Version.render).getD [])
    ++ field [if k.testMain then 1 else 0]
    ++ listField k.sources ++ listField k.aspects ++ listField k.imports

/-- The key. -/
def key (k : KeyInputs) : Text :=
  Digest.hex k.stream

end KeyInputs

end Interlace
