import Interlace.Version

/-!
# Types and objects

What a type expression comes to, and what an identifier stands for, as far as it can be told
without the sources of dependencies.
-/

namespace Interlace

/-- A resolved type. -/
inductive TypeRef where
  /-- A defined type of a package. -/
  | named (path name : Text)
  /-- A type of the universe. -/
  | builtin (name : Text)
  | pointer (target : TypeRef)
  /-- Any other type, by its text. -/
  | other (text : Text)
  deriving DecidableEq, Repr

namespace TypeRef

/-- The written form. -/
def render : TypeRef → Text
  | named path name => if path = [] then name else path ++ "." ++ name
  | builtin name => name
  | pointer target => "*" ++ target.render
  | other text => text

/-- The number of pointers around the innermost type. -/
def depth : TypeRef → Nat
  | pointer target => target.depth + 1
  | _ => 0

end TypeRef

/-- What an identifier stands for. -/
inductive Object where
  /-- An imported package. -/
  | package (path : Text)
  | type (path name : Text)
  | func (path name : Text)
  | var (type : Option TypeRef)
  | const
  /-- A function, type or constant of the universe. -/
  | builtin (name : Text)
  deriving DecidableEq, Repr

namespace Universe

/-- The types that every file knows. -/
def types : List Text :=
  ["bool", "byte", "complex64", "complex128", "error", "float32", "float64", "int", "int8",
    "int16", "int32", "int64", "rune", "string", "uint", "uint8", "uint16", "uint32", "uint64",
    "uintptr", "comparable"]

/-- The functions that every file knows. -/
def functions : List Text :=
  ["append", "cap", "close", "complex", "copy", "delete", "imag", "len", "make", "new", "panic",
    "print", "println", "real", "recover"]

/-- The constants that every file knows. -/
def constants : List Text := ["true", "false", "nil", "iota"]

/-- Every file knows the name at a language version. -/
def knows (version : Version) (name : Text) : Bool :=
  if name = "any" || name = "comparable" then Version.le ⟨1, 18⟩ version
  else if name = "min" || name = "max" || name = "clear" then Version.le ⟨1, 21⟩ version
  else constants.contains name || types.contains name || functions.contains name

end Universe

end Interlace
