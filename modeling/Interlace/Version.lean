import Interlace.Text.Decimal
import Interlace.Text.Quoted
import Interlace.Text.White

/-!
# Language versions

A language version has a major and a minor number. It is written `go1.22`, and read from that
and from the longer forms that toolchains print.
-/

namespace Interlace

/-- A language version. -/
structure Version where
  major : Nat
  minor : Nat
  deriving DecidableEq, Repr

namespace Version

/-- Newest version whose compiled metadata can be read. -/
def supported : Version := ⟨1, 24⟩

/-- Versions compare by major, then by minor number. -/
def le (a b : Version) : Bool :=
  a.major < b.major || (a.major = b.major && a.minor ≤ b.minor)

/-- The newer of a version and one that may be absent. -/
def raise (current : Option Version) (candidate : Version) : Option Version :=
  match current with
  | some v => if candidate.le v then some v else some candidate
  | none => some candidate

/-- The written form. -/
def render (v : Version) : Text :=
  "go" ++ Text.ofNat v.major ++ "." ++ Text.ofNat v.minor

/-- The two numbers of a text such as `1.22`, `1.22.3` or `1.23rc1`. -/
def readNumbers? (t : Text) : Option Version := do
  let parts := Text.splitWhere (· = 0x2E) t
  let major ← Text.decimal? Text.bound32 (parts.headD [])
  let minorPart : Text := (parts[1]?).getD "0"
  let minor ← Text.decimal? Text.bound32 (minorPart.takeWhile Text.isDigit)
  return ⟨major, minor⟩

/-- Reads `go1.22`, `1.22`, `go1.22.3`, `go1.23rc1` and `devel go1.23-abcdef`. -/
def parse? (t : Text) : Option Version :=
  let t := Text.trim t
  let t := (Text.stripPrefix? "devel " t).getD t
  readNumbers? ((Text.stripPrefix? "go" t).getD t)

/-- The complaint about a text that is no version. -/
def invalidMessage (t : Text) : Text :=
  "invalid Go version: " ++ Text.shown t

end Version

end Interlace
