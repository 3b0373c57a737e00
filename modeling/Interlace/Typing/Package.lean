import Interlace.SourceFile
import Interlace.Typing.Importer
import Interlace.Typing.Reference

/-!
# Packages

What is known of a package after checking it: its declarations, the imports of its files, and
what the identifiers in them stand for. Type expressions are resolved against it, through
aliases of the package.
-/

namespace Interlace

open Syntax

/-- The name that binds nothing. -/
def blankName : Text := "_"

/-- The name of an import whose package is used without a qualifier. -/
def dotName : Text := "."

/-- What a declaration of a package declares. -/
inductive DeclarationKind where
  | func
  | type
  | var
  | const
  deriving DecidableEq, Repr

/-- A declaration at the level of the package. -/
structure Declaration where
  kind : DeclarationKind
  /-- The number of the declaring file. -/
  file : Nat
  /-- The offset of the declared name. -/
  start : Nat
  /-- The declared type of a variable. -/
  type : Option TypeRef
  /-- What an alias stands for. -/
  aliasOf : Option TypeRef
  deriving DecidableEq, Repr

/-- An import of a file. -/
structure ImportedPackage where
  path : Text
  /-- The name that the import gives, `_` and `.` included. -/
  givenName : Option Text
  /-- The name that the file refers to the package by. -/
  localName : Text
  deriving DecidableEq, Repr

/-- What is known of the identifiers of a file. -/
structure FileTypes where
  imports : List ImportedPackage
  /-- What the identifier at an offset stands for; of several entries the first counts. -/
  uses : List (Nat × Object)
  /-- The names declared inside functions. -/
  locals : TextSet

namespace FileTypes

/-- What the identifier that starts where the node does stands for. -/
def objectAt? (f : FileTypes) (node : Tree) : Option Object :=
  (f.uses.find? (·.1 = node.start)).map Prod.snd

/-- The import that the file refers to by a name. -/
def importNamed? (f : FileTypes) (name : Text) : Option ImportedPackage :=
  f.imports.find? (·.localName = name)

end FileTypes

/-- A checked package. -/
structure PackageTypes where
  importPath : Text
  packageName : Text
  version : Version
  declarations : Dict Declaration
  files : List FileTypes

namespace PackageTypes

/-- What is known of a file. -/
def file? (p : PackageTypes) (index : Nat) : Option FileTypes :=
  p.files[index]?

/-- The declaration of a name. -/
def declaration? (p : PackageTypes) (name : Text) : Option Declaration :=
  p.declarations.get? name

/-- In a file, the name means something other than the package of a path: a declaration of the
package, a name of some function, or another import. -/
def binds (p : PackageTypes) (index : Nat) (name path : Text) : Bool :=
  p.declarations.contains name ||
    (p.file? index).any fun f =>
      f.locals.contains name || f.imports.any fun i => i.localName = name && i.path ≠ path

/-! ## Types -/

/-- What an alias of this package stands for. -/
def aliasTarget? (p : PackageTypes) : TypeRef → Option TypeRef
  | .named path name =>
    if path = p.importPath then (p.declaration? name).bind Declaration.aliasOf else none
  | _ => none

/-- Follows aliases, at most `steps` in a row, and tells whether the end was reached. -/
def chase (p : PackageTypes) : (steps : Nat) → TypeRef → TypeRef × Bool
  | 0, t => (t, false)
  | steps + 1, t =>
    match p.aliasTarget? t with
    | some target => chase p steps target
    | none => (t, true)

/-- Follows aliases, at most eight in a row, and again below every pointer; `depth` bounds the
pointers gone through. -/
def follow (p : PackageTypes) : (depth : Nat) → TypeRef → TypeRef
  | 0, t => t
  | depth + 1, t =>
    match p.chase 8 t with
    | (.pointer target, true) => .pointer (follow p depth target)
    | (reached, _) => reached

/-- A bound on the pointers that following aliases can go through, unless aliases refer to
themselves. -/
def pointerBound (p : PackageTypes) : Nat :=
  p.declarations.entries.foldl (fun n e => n + ((e.2.aliasOf.map TypeRef.depth).getD 0)) 0

/-- The type behind aliases of the package, at most eight in a row. -/
def followAliases (p : PackageTypes) (t : TypeRef) : TypeRef :=
  p.follow (t.depth + p.pointerBound + 1) t

/-- The type that a type expression of a file comes to; `closed` says whether aliases are
followed at the top, as they are below. `fuel` bounds the nesting. -/
def resolveWith (p : PackageTypes) (index : Nat) (source : Text) :
    (fuel : Nat) → (closed : Bool) → Tree → TypeRef
  | 0, _, node => .other (node.text source)
  | fuel + 1, closed, node =>
    let inner := fun (t : Option Tree) (wrap : TypeRef → TypeRef) =>
      match t with
      | some t => wrap (resolveWith p index source fuel true t)
      | none => .other (node.text source)
    let raw : TypeRef :=
      match node.kind with
      | .pointerType => inner node.namedChildren.head? .pointer
      | .parenthesizedType => inner node.namedChildren.head? id
      | .genericType => inner (node.child? .type) id
      | .qualifiedType =>
        let package := (node.child? .package).map (·.text source)
        let name := (node.child? .name).map (·.text source)
        let imported := package.bind fun q => (p.file? index).bind (·.importNamed? q)
        match imported, name with
        | some i, some name => .named i.path name
        | _, _ => .other (node.text source)
      | .typeIdentifier =>
        let name := node.text source
        -- Types of the package come before built-in ones of the same name.
        if ((p.declaration? name).map Declaration.kind) = some .type then
          .named p.importPath name
        else if Universe.types.contains name || name = "any" then .builtin name
        else .other name
      | _ => .other (node.text source)
    if closed then p.followAliases raw else raw

/-- The type that a type expression of a file comes to. -/
def resolveType (p : PackageTypes) (index : Nat) (source : Text) (node : Tree) : TypeRef :=
  resolveWith p index source node.preorder.length true node

/-- The type that a type expression spells, an alias at the top not followed. -/
def resolveSpelled (p : PackageTypes) (index : Nat) (source : Text) (node : Tree) : TypeRef :=
  resolveWith p index source node.preorder.length false node

end PackageTypes

end Interlace
