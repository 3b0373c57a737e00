import Interlace.Disk
import Interlace.Edit.Buffer
import Interlace.Version

/-!
# Failures

What can go wrong, by cause, and the wording of every cause. Failures that the user's program
brings about (it does not parse or does not type-check) are told apart from those that stop
a run.
-/

namespace Interlace

/-- Why a package does not type-check. -/
inductive TypeFault where
  | mixedPackages (first second file : Text)
  | redeclared (file : Text) (line : Nat) (name : Text)
  | importTaken (file name path : Text)
  | cannotImport (path cause : Text)
  | notInImportMap
  | other (text : Text)
  deriving DecidableEq, Repr

/-- The wording of a type fault. -/
def TypeFault.message : TypeFault → Text
  | mixedPackages first second file =>
    "found packages " ++ first ++ " and " ++ second ++ " in " ++ file
  | redeclared file line name =>
    file ++ ":" ++ Text.ofNat line ++ ": " ++ name ++ " redeclared in this block"
  | importTaken file name path =>
    file ++ ": " ++ name ++ " already declared through import of package " ++ path
  | cannotImport path cause => "could not import " ++ path ++ ": " ++ cause
  | notInImportMap => "package is not in the import map"
  | other text => text

/-- Why an advice cannot be applied. -/
inductive AdviceFault where
  | wrongNode (advice kind : Text)
  | noStatement (kind : Text)
  | noArgument (count index : Nat)
  | noHole (template : Text)
  | manyHoles
  | holeLost
  | noValue (placeholder : Text)
  | noSingleValue (kind : Text)
  | initialized (declaration : Text)
  | unqualified
  | malformedSelector
  | otherPackage (qualifier path : Text)
  | noBrace
  | noPackageClause
  | nameTaken (path name holder : Text)
  | notValid
  | edit (fault : EditFault)
  | other (text : Text)
  deriving DecidableEq, Repr

/-- The wording of an advice fault. -/
def AdviceFault.message : AdviceFault → Text
  | wrongNode advice kind => advice ++ " cannot apply to a " ++ kind ++ " node"
  | noStatement kind => "no statement encloses the " ++ kind ++ " node"
  | noArgument count index =>
    "call has " ++ Text.ofNat count ++ " arguments, none at index " ++ Text.ofNat index
  | noHole template =>
    "template " ++ Text.shown template ++ " has no \x7b\x7b.\x7d\x7d hole to wrap with"
  | manyHoles => "template uses its hole more than once"
  | holeLost => "template hole was not rendered"
  | noValue placeholder => "template placeholder \x7b\x7b" ++ placeholder ++ "\x7d\x7d has no value"
  | noSingleValue kind => kind ++ " node has no single value to wrap"
  | initialized declaration => "variable " ++ declaration ++ " already has an initializer"
  | unqualified => "replace-call-target needs a qualified call"
  | malformedSelector => "malformed selector expression"
  | otherPackage qualifier path => qualifier ++ " does not refer to package " ++ path
  | noBrace => "function body has no opening brace"
  | noPackageClause => "file has no package clause"
  | nameTaken path name holder =>
    "injected import " ++ Text.shown path ++ " needs the name " ++ name
      ++ ", which already refers to " ++ Text.shown holder
  | notValid => "woven file is not valid Go"
  | edit fault => fault.message
  | other text => text

/-- A failure of any part of the weaver. -/
inductive Failure where
  /-- The configuration of the injector or of an aspect cannot be used. -/
  | validation (text : Text)
  /-- The file does not follow the grammar, or is no UTF-8; then its first bad line is known. -/
  | parse (file : Text) (position : Option (Nat × Nat))
  /-- The package does not type-check. -/
  | typeCheck (path : Text) (fault : TypeFault)
  /-- A dependency was compiled by a toolchain that is too new. -/
  | toolchain (path : Text) (found supported : Version)
  /-- An advice cannot be applied where its join point matched. -/
  | advice (file aspect : Text) (index : Nat) (fault : AdviceFault)
  /-- The file system refused. -/
  | io (path cause : Text)
  /-- A configuration document cannot be used. -/
  | config (text : Text)
  /-- Configuration documents extend one another in a circle. -/
  | cycle (ids : List Text)
  /-- The run was cancelled. -/
  | cancelled
  /-- Failures of several files of a package. -/
  | files (failures : List Failure)
  deriving Inhabited

namespace Failure

mutual

/-- The wording of a failure. -/
def message : Failure → Text
  | validation text => "invalid configuration: " ++ text
  | parse file none => file ++ ": syntax error"
  | parse file (some (line, column)) =>
    file ++ ": syntax error at " ++ Text.ofNat line ++ ":" ++ Text.ofNat column
  | typeCheck path fault => "type-checking " ++ path ++ " failed: " ++ fault.message
  | toolchain path found supported =>
    path ++ " was compiled with " ++ found.render ++ ", but this weaver only understands up to "
      ++ supported.render ++ "; reinstall the weaver with a newer toolchain"
  | advice file aspect index fault =>
    file ++ ": aspect " ++ Text.shown aspect ++ ", advice #" ++ Text.ofNat index ++ ": "
      ++ fault.message
  | io path cause => path ++ ": " ++ cause
  | config text => "configuration error: " ++ text
  | cycle ids => "cyclic extends: " ++ Text.join " -> " ids
  | cancelled => "operation cancelled"
  | files failures =>
    Text.ofNat failures.length ++ " file(s) failed: " ++ Text.join "; " (messages failures)

/-- The wordings of several failures. -/
def messages : List Failure → List Text
  | [] => []
  | f :: rest => message f :: messages rest

end

/-- The user's program brought the failure about. -/
def isUserSource : Failure → Bool
  | parse .. | typeCheck .. => true
  | _ => false

/-- The failure ends the whole run, not only the work on one file. -/
def isFatal : Failure → Bool
  | cancelled | toolchain .. => true
  | _ => false

/-- A failure of the file system at a path. -/
def ofDisk (path : Text) (fault : DiskFault) : Failure :=
  io path fault.message

end Failure

end Interlace
