import Interlace.Text.Alphanumeric
import Interlace.Text.Quoted
import Interlace.Text.White
import Interlace.Typing.Reference

/-!
# References to types

How aspects name the types they look for: `*net/http.Request`, `error`.
-/

namespace Interlace

/-- A named type or a pointer to one. -/
structure TypeMatch where
  pointer : Bool
  /-- The package, empty for types of the universe. -/
  path : Text
  name : Text
  deriving DecidableEq, Repr

namespace TypeMatch

/-- The type of a package. -/
def named (path name : Text) : TypeMatch := ⟨false, path, name⟩

/-- A pointer to the type of a package. -/
def pointerTo (path name : Text) : TypeMatch := ⟨true, path, name⟩

/-- The type without the pointer. -/
def value (m : TypeMatch) : TypeMatch := { m with pointer := false }

/-- The written form. -/
def render (m : TypeMatch) : Text :=
  let star : Text := if m.pointer then "*" else []
  star ++ (if m.path = [] then m.name else m.path ++ "." ++ m.name)

/-- The package and the name of a type: the name follows the last dot after the last slash. -/
def splitName (t : Text) : Text × Text :=
  let folder := ((Text.findLast? 0x2F t).map (· + 1)).getD 0
  match Text.findLast? 0x2E (t.drop folder) with
  | some dot => (t.take (folder + dot), t.drop (folder + dot + 1))
  | none => ([], t)

/-- Reads a reference to a type. -/
def parse? (t : Text) : Option TypeMatch :=
  let trimmed := Text.trim t
  let (pointer, rest) :=
    match Text.stripPrefix? "*" trimmed with
    | some rest => (true, rest)
    | none => (false, trimmed)
  let (path, name) := splitName rest
  if name = [] || ! (Text.chars name).all Text.isWordChar then none
  else some ⟨pointer, path, name⟩

/-- The complaint about a text that is no reference to a type. -/
def invalidMessage (t : Text) : Text :=
  "invalid type reference: " ++ Text.shown t

/-- A type is the named type itself. -/
def isNamed (m : TypeMatch) : TypeRef → Bool
  | .named path name => path = m.path && name = m.name
  | .builtin name => m.path = [] && name = m.name
  | _ => false

/-- A type is the one referred to. -/
def accepts (m : TypeMatch) (t : TypeRef) : Bool :=
  if m.pointer then
    match t with
    | .pointer target => m.isNamed target
    | _ => false
  else m.isNamed t

end TypeMatch

end Interlace
