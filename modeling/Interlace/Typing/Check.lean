import Interlace.Typing.Scope

/-!
# Checking a package

Collects the imports of all files, then the declarations of the package, then the types that
they declare, and last what every identifier stands for.
-/

namespace Interlace

open Syntax

namespace Check

/-- The path and the explicit name of an import specification. -/
def specParts? (file : SourceFile) (spec : Tree) : Option (Text × Option Text) :=
  (spec.child? .path).map fun path =>
    (Text.unquote (file.text path), (spec.child? .name).map file.text)

/-- The import specifications of a file. -/
def importSpecs (file : SourceFile) : List Tree :=
  (file.tree.childrenOf .importDeclaration).flatMap Tree.importSpecs

/-- The import of a specification. -/
def importOf (importer : Importer) (path : Text) (givenName : Option Text) :
    Importing ImportedPackage := do
  match givenName with
  | none => return ⟨path, none, ← importer.packageName path⟩
  | some name =>
    let _ ← importer.import? path
    return ⟨path, some name, name⟩

/-- The imports of a file. -/
def importsOf (importer : Importer) (file : SourceFile) : Importing (List ImportedPackage) :=
  ((importSpecs file).filterMap (specParts? file)).mapM fun (path, givenName) =>
    importOf importer path givenName

/-- The names that a declaration of a file declares, with their kinds. -/
def declaredNames (declaration : Tree) : List (Tree × DeclarationKind) :=
  match declaration.kind with
  | .functionDeclaration => (declaration.childrenIn .name).take 1 |>.map (·, .func)
  | .typeDeclaration =>
    (declaration.childrenOf .typeSpec ++ declaration.childrenOf .typeAlias).flatMap fun spec =>
      (spec.childrenIn .name).take 1 |>.map (·, .type)
  | .varDeclaration =>
    declaration.varSpecs.flatMap fun spec => (spec.childrenIn .name).map (·, .var)
  | .constDeclaration =>
    (declaration.childrenOf .constSpec).flatMap fun spec =>
      (spec.childrenIn .name).map (·, .const)
  | _ => []

/-- Adds a declared name. Blank names and initializer functions declare nothing. -/
def declare (index : Nat) (file : SourceFile) (d : Dict Declaration)
    (entry : Tree × DeclarationKind) : Except TypeFault (Dict Declaration) :=
  let (name, kind) := entry
  let text := file.text name
  if text = "_" || (kind = .func && text = "init") then .ok d
  else if d.contains text then
    .error (.redeclared file.path (file.source.lineOf name.start + 1) text)
  else .ok (d.insert text ⟨kind, index, name.start, none, none⟩)

/-- Adds the declarations of a file. -/
def declareFile (d : Dict Declaration) (entry : SourceFile × Nat) :
    Except TypeFault (Dict Declaration) :=
  let (file, index) := entry
  (file.tree.namedChildren.flatMap declaredNames).foldlM (declare index file) d

/-- What the types in declarations of a file come to: a change of one declaration each. -/
def typeUpdates (p : PackageTypes) (index : Nat) (file : SourceFile) :
    List (Text × (Declaration → Declaration)) :=
  let aliases := (file.tree.childrenOf .typeDeclaration).flatMap (Tree.childrenOf .typeAlias)
  let specs := (file.tree.childrenOf .varDeclaration).flatMap Tree.varSpecs
  let ofAlias := aliases.filterMap fun a => do
    let name ← a.child? .name
    let target ← a.child? .type
    let type := p.resolveSpelled index file.source target
    return (file.text name, fun (d : Declaration) => { d with aliasOf := some type })
  let ofSpec := specs.flatMap fun spec =>
    match spec.child? .type with
    | none => []
    | some node =>
      let type := p.resolveSpelled index file.source node
      (spec.childrenIn .name).map fun name =>
        (file.text name, fun (d : Declaration) => { d with type := some type })
  ofAlias ++ ofSpec

/-- Fills in the types of the declarations of a file. -/
def resolveDeclared (p : PackageTypes) (entry : SourceFile × Nat) : PackageTypes :=
  let (file, index) := entry
  (typeUpdates p index file).foldl
    (fun (p : PackageTypes) update =>
      match p.declarations.get? update.1 with
      | some d => { p with declarations := p.declarations.insert update.1 (update.2 d) }
      | none => p)
    p

/-- An import whose name is declared by the package. -/
def takenImport? (p : PackageTypes) (entry : SourceFile × Nat) : Option TypeFault :=
  let (file, index) := entry
  let imports := ((p.file? index).map FileTypes.imports).getD []
  (imports.find? fun i =>
    i.givenName ≠ some blankName && i.givenName ≠ some dotName
      && p.declarations.contains i.localName).map
    fun i => .importTaken file.path i.localName i.path

/-- Records what the identifiers of all files stand for. -/
def resolveUses (p : PackageTypes) (files : List SourceFile) : PackageTypes :=
  let walked := files.zipIdx.map fun (file, index) =>
    let s := ScopeWalk.run ⟨p, index, file⟩
    (⟨((p.file? index).map FileTypes.imports).getD [], s.uses, s.locals⟩ : FileTypes)
  { p with files := walked }

/-- The package that files belong to, or the first file that belongs to another. -/
def commonPackage (files : List SourceFile) : Except TypeFault Text :=
  let name := (files.head?.map SourceFile.packageName).getD []
  match files.find? (·.packageName ≠ name) with
  | some other => .error (.mixedPackages name other.packageName other.path)
  | none => .ok name

/-- Checks a package. -/
def package (importPath : Text) (version : Option Version) (files : List SourceFile)
    (importer : Importer) : Importing PackageTypes := do
  let lift := fun {α : Type} (r : Except TypeFault α) =>
    (match r with
    | .ok a => pure a
    | .error fault => throw (.typeCheck importPath fault) : Importing α)
  let name ← lift (commonPackage files)
  let imports ← files.mapM (importsOf importer)
  let numbered := files.zipIdx
  let declarations ← lift (numbered.foldlM declareFile .empty)
  let bare : PackageTypes :=
    ⟨importPath, name, version.getD Version.supported, declarations,
      imports.map fun i => ⟨i, [], .empty⟩⟩
  let typed := numbered.foldl resolveDeclared bare
  match numbered.findSome? (takenImport? typed) with
  | some fault => throw (.typeCheck importPath fault)
  | none => return resolveUses typed files

end Check

end Interlace
