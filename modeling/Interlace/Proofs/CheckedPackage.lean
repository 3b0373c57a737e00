import Interlace.Proofs.Folds
import Interlace.Proofs.Importing
import Interlace.Proofs.ScopeObjects

/-!
# Checked packages

What is known of a package that was checked: where its imports come from, and what the
identifiers of its files stand for.

## Key results

- `Check.package_ensures`: the stages that checking a package goes through
- `Check.Stages.object_of_admits`: what the identifiers of a checked package stand for
- `Check.exists_of_test`: a package of one file, from a test that it passes
-/

namespace Interlace

open Syntax Importing

namespace Check

/-! ## Stages -/

/-- The stages of checking a package: `bare` knows the imports and the declared names, and filling
in the types and the uses of identifiers gives `p`. -/
structure Stages (P : Text → Prop) (importPath : Text) (files : List SourceFile)
    (bare p : PackageTypes) : Prop where
  path : bare.importPath = importPath
  name : ∀ file ∈ files, file.packageName = bare.packageName
  imports : List.Forall₂
    (fun file (f : FileTypes) => ∀ i ∈ f.imports, Spells file i.path ∧ P i.path) files bare.files
  /-- No types are known before they are filled in. -/
  plain : ∀ name d, bare.declaration? name = some d → d.type = none ∧ d.aliasOf = none
  result : p = resolveUses (files.zipIdx.foldl resolveDeclared bare) files

/-- All files of a package declare its name. -/
theorem packageName_of_commonPackage {files : List SourceFile} {name : Text}
    (h : commonPackage files = .ok name) : ∀ file ∈ files, file.packageName = name := by
  unfold commonPackage at h
  dsimp only at h
  split at h
  · cases h
  · rename_i none_differs
    cases h
    intro file hf
    have := List.find?_eq_none.1 none_differs file hf
    simpa using this

/-- A declared name has no types yet. -/
private theorem declare_plain {index : Nat} {file : SourceFile} {d d' : Dict Declaration}
    {entry : Tree × DeclarationKind} (h : declare index file d entry = .ok d')
    (plain : ∀ name e, d.get? name = some e → e.type = none ∧ e.aliasOf = none) :
    ∀ name e, d'.get? name = some e → e.type = none ∧ e.aliasOf = none := by
  unfold declare at h
  dsimp only at h
  split at h
  · cases h
    exact plain
  · split at h
    · cases h
    · cases h
      -- The entry that was added has neither type, and the others are as before.
      intro name e found
      rw [Dict.get?_insert] at found
      split at found
      · cases found
        exact ⟨rfl, rfl⟩
      · exact plain name e found

/-- The declarations of all files have no types yet. -/
theorem declareFiles_plain {files : List (SourceFile × Nat)} {d : Dict Declaration}
    (h : files.foldlM declareFile .empty = .ok d) :
    ∀ name e, d.get? name = some e → e.type = none ∧ e.aliasOf = none := by
  refine foldlM_keeps (K := fun (d : Dict Declaration) =>
    ∀ name e, d.get? name = some e → e.type = none ∧ e.aliasOf = none) ?_ h ?_
  -- One fold over the files, and one over the declarations of each.
  · intro before entry after declared plain
    exact foldlM_keeps (fun _ _ _ step plain => declare_plain step plain) declared plain
  · intro name e found
    cases found

/-- A result that is passed on gives its value. -/
private theorem ensures_of_result {I : ImportState → Prop} {α : Type} (importPath : Text)
    (r : Except TypeFault α) :
    Ensures I
      (match r with
        | .ok a => pure a
        | .error fault => throw (.typeCheck importPath fault) : Importing α)
      fun a => r = .ok a := by
  cases r with
  | ok a => exact ensures_pure rfl
  | error fault => exact ensures_throw

/-- Checking a package goes through the stages. -/
theorem package_ensures {I : ImportState → Prop} {P : Text → Prop} {importer : Importer}
    (h : ∀ path, Ensures I (importer.import? path) fun _ => P path) (importPath : Text)
    (version : Option Version) (files : List SourceFile) :
    Ensures I (package importPath version files importer)
      fun p => ∃ bare, Stages P importPath files bare p := by
  have imported : Ensures I (files.mapM (importsOf importer)) (List.Forall₂ _ files) :=
    ensures_mapM fun file _ => importsOf_ensures h file
  unfold package
  -- The stages in order: the common name, the imports of each file, and the declared names.
  refine ensures_bind (ensures_of_result importPath _) fun name common => ?_
  refine ensures_bind imported fun imports spelled => ?_
  refine ensures_bind (ensures_of_result importPath _) fun declarations declared => ?_
  dsimp only
  split
  · exact ensures_throw
  · refine ensures_pure ⟨_, rfl, packageName_of_commonPackage common, ?_, ?_, rfl⟩
    · exact List.forall₂_map_right_iff.2 spelled
    · exact declareFiles_plain declared

/-! ## What filling in keeps -/

/-- Two packages agree on everything but their declarations. -/
structure SameFrame (p q : PackageTypes) : Prop where
  importPath : q.importPath = p.importPath
  packageName : q.packageName = p.packageName
  files : q.files = p.files

/-- Filling in the types of declarations changes nothing else. -/
private theorem resolveDeclared_frame (p : PackageTypes) (entry : SourceFile × Nat) :
    SameFrame p (resolveDeclared p entry) := by
  refine foldl_keeps (K := SameFrame p) (fun q update _ hq => ?_) ⟨rfl, rfl, rfl⟩
  split
  · exact ⟨hq.importPath, hq.packageName, hq.files⟩
  · exact hq

/-- The package with the types of its declarations. -/
def typed (files : List SourceFile) (bare : PackageTypes) : PackageTypes :=
  files.zipIdx.foldl resolveDeclared bare

private theorem typed_frame (files : List SourceFile) (bare : PackageTypes) :
    SameFrame bare (typed files bare) := by
  refine foldl_keeps (K := SameFrame bare) (fun q entry _ hq => ?_) ⟨rfl, rfl, rfl⟩
  have step := resolveDeclared_frame q entry
  exact ⟨step.importPath.trans hq.importPath, step.packageName.trans hq.packageName,
    step.files.trans hq.files⟩

/-! ## The files of a checked package -/

namespace Stages

variable {P : Text → Prop} {importPath : Text} {files : List SourceFile} {bare p : PackageTypes}

/-- All files declare the name of the package. -/
theorem packageName_eq (h : Stages P importPath files bare p) {file : SourceFile}
    (hf : file ∈ files) : file.packageName = p.packageName := by
  rw [h.result, h.name file hf]
  exact (typed_frame files bare).packageName.symm

/-- The imports of a file are spelled in it and were let through. -/
theorem imports_of_walk (h : Stages P importPath files bare p) {index : Nat} {file : SourceFile}
    (hf : files[index]? = some file) :
    ∀ i ∈ (⟨typed files bare, index, file⟩ : ScopeWalk).imports,
      Spells file i.path ∧ P i.path := by
  intro i hi
  unfold ScopeWalk.imports PackageTypes.file? at hi
  rw [(typed_frame files bare).files] at hi
  -- The lists of files and of their imports have one length, so the index is good for both.
  obtain ⟨inFiles, rfl⟩ := List.getElem?_eq_some_iff.1 hf
  have inBare : index < bare.files.length := h.imports.length_eq ▸ inFiles
  rw [List.getElem?_eq_getElem inBare] at hi
  exact h.imports.get inFiles inBare i hi

/-- What an identifier of a file stands for has every property that the sources have. -/
theorem object_of_admits (h : Stages P importPath files bare p) {index : Nat}
    {file : SourceFile} (hf : files[index]? = some file) {Q : Object → Prop}
    (hw : (⟨typed files bare, index, file⟩ : ScopeWalk).Admits Q) {node : Tree}
    {object : Object} (found : (p.file? index).bind (·.objectAt? node) = some object) :
    Q object := by
  obtain ⟨f, hp, found⟩ := Option.bind_eq_some_iff.1 found
  -- The uses on record are those of the walk with all types filled in.
  have walked : f.uses = (⟨typed files bare, index, file⟩ : ScopeWalk).run.uses := by
    rw [h.result] at hp
    simp only [PackageTypes.file?, resolveUses, List.getElem?_map, List.getElem?_zipIdx, hf] at hp
    cases hp
    simp [typed]
  obtain ⟨u, hu, rfl⟩ := Option.map_eq_some_iff.1 found
  exact ScopeWalk.run_uses hw u (walked ▸ List.mem_of_find?_eq_some hu)

end Stages

/-! ## Packages and functions -/

/-- Packages that an identifier of a file stands for are spelled in the file, and functions are
those of the package. -/
def IsLocal (importPath : Text) (file : SourceFile) : Object → Prop
  | .package path => Spells file path
  | .func path _ => path = importPath
  | _ => True

/-- What an identifier of a checked file stands for is local to the file and its package. -/
theorem Stages.object_isLocal {P : Text → Prop} {importPath : Text} {files : List SourceFile}
    {bare p : PackageTypes} (h : Stages P importPath files bare p) {index : Nat}
    {file : SourceFile} (hf : files[index]? = some file) {node : Tree} {object : Object}
    (found : (p.file? index).bind (·.objectAt? node) = some object) :
    IsLocal importPath file object := by
  refine h.object_of_admits hf ⟨fun i hi => (h.imports_of_walk hf i hi).1, fun name d _ => ?_,
    fun _ => trivial, trivial, trivial, fun _ => trivial, fun _ => trivial,
    fun _ _ => trivial⟩ found
  -- Of what a package declares, only functions carry a path.
  unfold ScopeWalk.declaredObject
  cases d.kind with
  | func => exact (typed_frame files bare).importPath.trans h.path
  | type | var | const => trivial

/-! ## Packages of one file -/

/-- A test that succeeds on a parsed and checked file gives the file and what is known of it. -/
theorem exists_of_test {path source importPath : Text} {version : Option Version}
    {importer : Importer} {before : ImportState} {test : SourceFile → PackageTypes → Bool}
    (h : ((SourceFile.parse path source).toOption.bind fun file =>
      ((package importPath version [file] importer).run.run before).1.toOption.map
        (test file)) = some true) :
    ∃ file types after, SourceFile.parse path source = .ok file ∧
      (package importPath version [file] importer).Yields before types after ∧
      test file types = true := by
  obtain ⟨file, parsed, h⟩ := Option.bind_eq_some_iff.1 h
  obtain ⟨types, checked, passed⟩ := Option.map_eq_some_iff.1 h
  obtain ⟨after, run⟩ := exists_yields_iff.2 (toOption_eq_some_iff.1 checked)
  exact ⟨file, types, after, toOption_eq_some_iff.1 parsed, run, passed⟩

end Check

end Interlace
