import Interlace.Proofs.Matching
import Interlace.Proofs.Verdict

/-!
# The estimate from what is known of a package

A join point that looks for something of a package holds only in files that can refer to that
package: the package itself, or one that some file imports. The paths of all imports are in the
map of archives, with one exception: packages that have no archive by nature are let through
without a look at the map, and the estimate does not know of them. It is sound exactly where no
join point that looks for one of these holds.

## Key results

- `JoinPoint.Seeks`: the packages that a join point looks for
- `JoinPoint.reaches_of_seeks`: a join point holds only for packages within reach
- `JoinPoint.inPackage_sound_iff`: where the estimate is sound
-/

namespace Interlace

open Syntax Importing

/-! ## What a join point looks for -/

namespace JoinPoint

/-- The join point looks for something of a package. -/
def Seeks (path : Text) : JoinPoint → Prop
  | functionDeclaration matcher => path ≠ [] ∧ ∃ type ∈ matcher.types, type.path = path
  | functionCall called _ => called = path
  | structLiteralField type _ | valueDeclaration type => path ≠ [] ∧ type.path = path
  | _ => False

/-- A join point holds only where the packages that it looks for are within reach. -/
theorem reaches_of_seeks {R : Text → Prop} {s : Scene} (within : s.Within R) {site : Site}
    {path : Text} {point : JoinPoint} (h : point.Seeks path) (holds : point.holdsAt s site) :
    R path := by
  cases point with
  | functionDeclaration matcher =>
    obtain ⟨named, type, listed, rfl⟩ := h
    exact (Scene.isFunction_within within holds type listed).resolve_left named
  | functionCall called name =>
    cases h
    exact Scene.isCall_within within holds
  | structLiteralField type field =>
    obtain ⟨named, rfl⟩ := h
    exact (Scene.isLiteralField_within within holds).resolve_left named
  | valueDeclaration type =>
    obtain ⟨named, rfl⟩ := h
    exact (Scene.isValueDeclaration_within within holds).resolve_left named
  | allOf _ | oneOf _ | not _ | importPath _ | packageName _ | testMain _ | configuration _
  | sourceFile | declarationOf _ _ | directive _ => cases h

end JoinPoint

/-! ## Soundness -/

/-- Everything in a checked file is within a set of packages that has the package itself and the
ones that were let through. -/
private theorem Check.Stages.scene_within {P R : Text → Prop} {importPath : Text}
    {files : List SourceFile} {bare types : PackageTypes}
    (stages : Stages P importPath files bare types) (own : R importPath)
    (imported : ∀ path, P path → R path) {index : Nat} {file : SourceFile}
    (listed : files[index]? = some file) (package : PackageInfo) :
    Scene.Within R ⟨file, index, types, package⟩ where
  resolved := PackageTypes.resolveType_within (stages.types_within own imported) index _
  objects _ _ found := stages.object_within own imported listed found

namespace JoinPoint

variable {facts : PackageFacts} {s : Scene} {site : Site}

/-- A join point that looks for something of a package out of reach is ruled out. -/
private theorem inPackage_eq_never_of_seeks {path : Text} {point : JoinPoint} (h : point.Seeks path)
    (out : facts.reaches path = false) : point.inPackage facts = .never := by
  have ruled : ∀ type : TypeMatch, path ≠ [] → type.path = path →
      facts.reachesType type = false := by
    rintro type named rfl
    simp [PackageFacts.reachesType, named, out]
  -- A join point that seeks a path looks at types or calls of it, and these are out of reach.
  cases point with
  | functionDeclaration matcher =>
    obtain ⟨named, type, listed, eq⟩ := h
    have some_out : matcher.types.all facts.reachesType = false :=
      List.all_eq_false.2 ⟨type, listed, by simp [ruled type named eq]⟩
    rw [inPackage, some_out]
    rfl
  | functionCall called name =>
    cases h
    rw [inPackage, out]
    rfl
  | structLiteralField type _ | valueDeclaration type =>
    rw [inPackage, ruled type h.1 h.2]
    rfl
  | allOf _ | oneOf _ | not _ | importPath _ | packageName _ | testMain _ | configuration _
  | sourceFile | declarationOf _ _ | directive _ => cases h

/-- The estimate is sound for a join point without parts that holds only where the packages that it
looks for are known to be in reach. -/
private theorem inPackage_admits_of_isLeaf (path : facts.importPath = s.package.importPath)
    (test : facts.testMain = s.package.testMain) (settings : facts.settings = s.package.settings)
    (main : facts.importPath = "main" → s.file.packageName = "main") {point : JoinPoint}
    (leaf : point.IsLeaf)
    (known : ∀ path, point.Seeks path → point.holdsAt s site → facts.reaches path) :
    (point.inPackage facts).Admits (point.holdsAt s site) := by
  -- The empty path stands for the universe, which is always in reach.
  have reached : ∀ type : TypeMatch,
      (type.path ≠ [] → facts.reaches type.path) → facts.reachesType type := by
    intro type h
    by_cases anywhere : type.path = []
    · simp [PackageFacts.reachesType, anywhere]
    · simp [PackageFacts.reachesType, h anywhere]
  cases point with
  | allOf _ | oneOf _ | not _ => cases leaf
  | sourceFile | directive _ => exact Verdict.unknown_admits _
  | importPath _ =>
    rw [inPackage, holdsAt, path]
    exact Verdict.ofBool_admits _
  | testMain _ =>
    rw [inPackage, holdsAt, test]
    exact Verdict.ofBool_admits _
  | configuration _ =>
    rw [inPackage, holdsAt, settings]
    exact Verdict.ofBool_admits _
  | packageName name =>
    rw [inPackage]
    split
    -- Only for a command the name is known without reading a file.
    · rename_i both
      simp only [Bool.and_eq_true, decide_eq_true_eq] at both
      rw [holdsAt, both.1, main both.2]
      exact Verdict.ofBool_admits true
    · exact Verdict.unknown_admits _
  | functionDeclaration matcher =>
    refine Verdict.possible_admits fun holds => List.all_eq_true.2 fun type listed => ?_
    exact reached type fun named => known _ ⟨named, type, listed, rfl⟩ holds
  | functionCall called name =>
    exact Verdict.possible_admits fun holds => known _ rfl holds
  | structLiteralField type _ | valueDeclaration type =>
    exact Verdict.possible_admits fun holds => reached type fun named =>
      known _ ⟨named, rfl⟩ holds
  | declarationOf declared name =>
    refine Verdict.possible_admits fun holds => ?_
    have own := (Scene.isDeclarationOf_needs holds).1
    simp only [path, own, decide_true]

/-- The estimate from what is known of a package is sound at a place of a checked file, for the
join points that are ruled out and for those that are promised, exactly if no join point holds
there that looks for something of a package without an archive by nature which the import map
does not list. -/
theorem inPackage_sound_iff {m : ImportMap} {disk : Disk} {cancelled : Bool}
    {before after : ImportState} (fetched : before.Within m) {importPath : Text}
    {version : Option Version} {files : List SourceFile} {types : PackageTypes}
    (checked : (Check.package importPath version files
      ⟨m.lookup disk, cancelled⟩).Yields before types after)
    (main : importPath = "main" → types.packageName = "main") {index : Nat} {file : SourceFile}
    (listed : files[index]? = some file) (testMain : Bool) (settings : Settings) (site : Site) :
    (∀ point : JoinPoint,
        (point.inPackage ⟨importPath, m, testMain, settings⟩ = .never →
          point.holdsAt ⟨file, index, types, importPath, types.packageName, testMain, settings⟩ site
            = false) ∧
        (point.inPackage ⟨importPath, m, testMain, settings⟩ = .always →
          point.holdsAt ⟨file, index, types, importPath, types.packageName, testMain, settings⟩ site
            = true)) ↔
      ∀ (leaf : JoinPoint) (path : Text), leaf.Seeks path → Importer.isBuiltIn path →
        PackageFacts.reaches ⟨importPath, m, testMain, settings⟩ path = false →
        leaf.holdsAt ⟨file, index, types, importPath, types.packageName, testMain, settings⟩ site
          = false := by
  obtain ⟨-, bare, stages⟩ :=
    Check.package_ensures (Importer.import?_ensures_lookup m disk cancelled) importPath version
      files before types after fetched checked
  constructor
  · intro sound leaf path seeks _ out
    exact (sound leaf).1 (inPackage_eq_never_of_seeks seeks out)
  · intro silent
    refine (inPackage_estimate _).admits fun leaf isLeaf => ?_
    refine inPackage_admits_of_isLeaf rfl rfl rfl (fun same => ?_) isLeaf fun path seeks holds => ?_
    · exact (stages.packageName_eq (List.mem_of_getElem? listed)).trans (main same)
    · -- What the importer let through is all that the files can refer to.
      have within := stages.scene_within
        (R := fun path => Importer.isBuiltIn path ∨
          PackageFacts.reaches ⟨importPath, m, testMain, settings⟩ path)
        (.inr (by simp [PackageFacts.reaches]))
        (fun path => Or.imp_right fun contained => by simp [PackageFacts.reaches, contained])
        listed ⟨importPath, types.packageName, testMain, settings⟩
      by_contra out
      rw [Bool.not_eq_true] at out
      rcases reaches_of_seeks within seeks holds with builtIn | reached
      · exact absurd holds (by simp [silent leaf path seeks builtIn out])
      · exact absurd reached (by simp [out])

end JoinPoint

/-- A command that imports a package without an archive. -/
def sizing : Text :=
  "package main\nimport \"unsafe\"\nvar n = unsafe.Sizeof(1)\n"

/-- An import map that lists one archive. -/
def listing : ImportMap := ImportMap.empty.insert "fmt" "fmt.a"

/-- No join point that looks for something of a package holds at the root of a file, so the estimate
is sound there. -/
theorem JoinPoint.inPackage_sound_root :
    ∃ file types after,
      SourceFile.parse "main.go" sizing = .ok file ∧
      (Check.package "main" none [file] ⟨listing.lookup (.scratch []), false⟩).Yields
        .fresh types after ∧
      types.packageName = ("main" : Text) ∧
      ∀ point : JoinPoint,
        (point.inPackage ⟨"main", listing, false, .empty⟩ = .never →
          point.holdsAt ⟨file, 0, types, "main", types.packageName, false, .empty⟩ ⟨file.tree, []⟩
            = false) ∧
        (point.inPackage ⟨"main", listing, false, .empty⟩ = .always →
          point.holdsAt ⟨file, 0, types, "main", types.packageName, false, .empty⟩ ⟨file.tree, []⟩
            = true) := by
  have passed : ((SourceFile.parse "main.go" sizing).toOption.bind fun file =>
      ((Check.package "main" none [file] ⟨listing.lookup (.scratch []), false⟩).run.run
        .fresh).1.toOption.map fun types =>
          decide (file.tree.kind = .sourceFile ∧ types.packageName = ("main" : Text))) =
      some true := by decide +kernel
  obtain ⟨file, types, after, parsed, checked, test⟩ := Check.exists_of_test passed
  obtain ⟨root, name⟩ := of_decide_eq_true test
  refine ⟨file, types, after, parsed, checked, name, ?_⟩
  refine (inPackage_sound_iff (ImportState.fresh_within listing) checked (fun _ => name) rfl
    false .empty ⟨file.tree, []⟩).2 ?_
  intro leaf path seeks _ _
  -- The root is neither a function nor a call, an element or a declaration.
  cases leaf with
  | functionDeclaration matcher => simp [holdsAt, Scene.isFunction, root, Kind.isFunction]
  | functionCall called name => simp [holdsAt, Scene.isCall, root]
  | structLiteralField type field => simp [holdsAt, Scene.isLiteralField, root]
  | valueDeclaration type => simp [holdsAt, Scene.isValueDeclaration, root]
  | allOf _ | oneOf _ | not _ | importPath _ | packageName _ | testMain _ | configuration _
  | sourceFile | declarationOf _ _ | directive _ => cases seeks

/-- A call of a function of a package without an archive is ruled out, although the file has one. -/
theorem JoinPoint.inPackage_misses_call :
    ∃ file types after,
      SourceFile.parse "main.go" sizing = .ok file ∧
      (Check.package "main" none [file] ⟨listing.lookup (.scratch []), false⟩).Yields
        .fresh types after ∧
      types.packageName = ("main" : Text) ∧
      (JoinPoint.functionCall "unsafe" "Sizeof").inPackage ⟨"main", listing, false, .empty⟩
        = .never ∧
      ∃ site ∈ file.tree.sites, (JoinPoint.functionCall "unsafe" "Sizeof").holdsAt
        ⟨file, 0, types, "main", types.packageName, false, .empty⟩ site = true := by
  have passed : ((SourceFile.parse "main.go" sizing).toOption.bind fun file =>
      ((Check.package "main" none [file] ⟨listing.lookup (.scratch []), false⟩).run.run
        .fresh).1.toOption.map fun types =>
          decide (types.packageName = ("main" : Text)) &&
            file.tree.sites.any ((JoinPoint.functionCall "unsafe" "Sizeof").holdsAt
              ⟨file, 0, types, "main", types.packageName, false, .empty⟩)) = some true := by
    decide +kernel
  obtain ⟨file, types, after, parsed, checked, test⟩ := Check.exists_of_test passed
  simp only [Bool.and_eq_true, decide_eq_true_eq] at test
  refine ⟨file, types, after, parsed, checked, test.1, by decide +kernel, ?_⟩
  exact List.any_eq_true.1 test.2

end Interlace
