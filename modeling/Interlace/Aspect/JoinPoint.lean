import Interlace.Aspect.TypeMatch
import Interlace.Aspect.Verdict
import Interlace.Typing.ImportMap

/-!
# Join points

Predicates over the nodes of checked files. Two estimates say what can be known of a join point
before a file is parsed: one from what is known of the package, one from the bytes of a file.
-/

namespace Interlace

/-- The types of the parameters and of the results of a function. -/
structure Signature where
  args : List TypeMatch
  returns : List TypeMatch
  deriving DecidableEq, Repr

/-- Demands on a function; without any, every function will do. -/
structure FunctionMatcher where
  name : Option Text
  receiver : Option TypeMatch
  signature : Option Signature
  /-- Some parameter has this type. -/
  parameter : Option TypeMatch
  deriving DecidableEq, Repr

namespace FunctionMatcher

/-- No demands. -/
def any : FunctionMatcher := ⟨none, none, none, none⟩

/-- The types that the demands name. -/
def types (m : FunctionMatcher) : List TypeMatch :=
  m.receiver.toList ++ m.parameter.toList
    ++ m.signature.toList.flatMap fun s => s.args ++ s.returns

end FunctionMatcher

/-- Values by the names of settings. -/
abbrev Settings := Dict Text

/-- A predicate over nodes. -/
inductive JoinPoint where
  | allOf (points : List JoinPoint)
  | oneOf (points : List JoinPoint)
  | not (point : JoinPoint)
  /-- The package has this import path. -/
  | importPath (path : Text)
  /-- The file declares this package name. -/
  | packageName (name : Text)
  /-- The package is, or is not, one that was made to run tests. -/
  | testMain (flag : Bool)
  /-- All these settings have the given values. -/
  | configuration (settings : Settings)
  /-- The root of a file. -/
  | sourceFile
  | functionDeclaration (matcher : FunctionMatcher)
  | functionCall (path name : Text)
  | structLiteralField (type : TypeMatch) (field : Text)
  | valueDeclaration (type : TypeMatch)
  | declarationOf (path name : Text)
  /-- A directive stands before the node on a line of its own. -/
  | directive (name : Text)

/-- All of some settings have the given values. -/
def Settings.agree (settings expected : Settings) : Bool :=
  expected.entries.all fun (key, value) => settings.get? key = some value

/-- What is known of a package before its files are read. -/
structure PackageFacts where
  importPath : Text
  /-- An empty map says nothing. -/
  importMap : ImportMap
  testMain : Bool
  settings : Settings

/-- What is known of a file before it is parsed. -/
structure FileFacts where
  bytes : Text
  packageName : Option Text
  importPath : Text

namespace PackageFacts

/-- Files of the package may refer to a package. -/
def reaches (facts : PackageFacts) (path : Text) : Bool :=
  path = facts.importPath || facts.importMap.isEmpty || facts.importMap.contains path

/-- Files of the package may refer to a type. -/
def reachesType (facts : PackageFacts) (type : TypeMatch) : Bool :=
  type.path = [] || facts.reaches type.path

end PackageFacts

namespace JoinPoint

mutual

/-- What is known of the join point at the nodes of a package. -/
def inPackage (facts : PackageFacts) : JoinPoint → Verdict
  | allOf points => allInPackage facts .always points
  | oneOf points => anyInPackage facts .never points
  | not point => (inPackage facts point).negate
  | importPath path => .ofBool (facts.importPath = path)
  | packageName name =>
    if name = "main" && facts.importPath = "main" then .always else .unknown
  | testMain flag => .ofBool (facts.testMain = flag)
  | configuration settings => .ofBool (facts.settings.agree settings)
  | sourceFile => .unknown
  | functionDeclaration matcher => .possible (matcher.types.all facts.reachesType)
  | functionCall path _ => .possible (facts.reaches path)
  | structLiteralField type _ => .possible (facts.reachesType type)
  | valueDeclaration type => .possible (facts.reachesType type)
  | declarationOf path _ => .possible (path = facts.importPath)
  | directive _ => .unknown

/-- The verdict on the conjunction of a verdict and several join points. -/
def allInPackage (facts : PackageFacts) (verdict : Verdict) : List JoinPoint → Verdict
  | [] => verdict
  | p :: points => allInPackage facts (verdict.and (inPackage facts p)) points

/-- The verdict on the disjunction of a verdict and several join points. -/
def anyInPackage (facts : PackageFacts) (verdict : Verdict) : List JoinPoint → Verdict
  | [] => verdict
  | p :: points => anyInPackage facts (verdict.or (inPackage facts p)) points

end

mutual

/-- What is known of the join point at the nodes of a file. Types may be spelled through aliases
that other files declare, so their names need not occur. -/
def inFile (facts : FileFacts) : JoinPoint → Verdict
  | allOf points => allInFile facts .always points
  | oneOf points => anyInFile facts .never points
  | not point => (inFile facts point).negate
  | packageName name =>
    match facts.packageName with
    | some declared => .ofBool (declared = name)
    | none => .unknown
  | importPath _ | testMain _ | configuration _ | sourceFile | valueDeclaration _ => .unknown
  | functionDeclaration matcher =>
    match matcher.name with
    | some name => .possible (Text.contains facts.bytes name)
    | none => .unknown
  | functionCall path name =>
    .possible (Text.contains facts.bytes name
      && (path = facts.importPath || Text.contains facts.bytes path))
  | structLiteralField _ field => .possible (Text.contains facts.bytes field)
  | declarationOf path name =>
    .possible (path = facts.importPath && Text.contains facts.bytes name)
  | directive name => .possible (Text.contains facts.bytes ("//" ++ name))

/-- The verdict on the conjunction of a verdict and several join points. -/
def allInFile (facts : FileFacts) (verdict : Verdict) : List JoinPoint → Verdict
  | [] => verdict
  | p :: points => allInFile facts (verdict.and (inFile facts p)) points

/-- The verdict on the disjunction of a verdict and several join points. -/
def anyInFile (facts : FileFacts) (verdict : Verdict) : List JoinPoint → Verdict
  | [] => verdict
  | p :: points => anyInFile facts (verdict.or (inFile facts p)) points

end

end JoinPoint

end Interlace
