import Interlace.Proofs.ImportMemory
import Interlace.Proofs.SpelledTypes

/-!
# What checking a package comes to

Checking asks that the files have a package in common, that their imports can be found, that no name
is declared twice and that no import takes a declared name. What it finds of this does not depend on
the order of the files: looking an import up changes no answer, and the other conditions are about
all files at once.

## Key results

- `Check.exists_yields_package_iff`: checking gives a package iff everything it asks is met
- `Check.exists_renumbers`: another order of files gives them other numbers
- `Check.Built.reorder`: files in another order meet the same
-/

namespace Interlace

open Syntax Importing

namespace Importing

/-! ## Imports -/

variable {α β : Type} {i : Importer}

theorem result_bind (x : Importing α) (f : α → Importing β) (s : ImportState) :
    ((x >>= f).run.run s).1 =
      (x.run.run s).1 >>= fun a => ((f a).run.run (x.run.run s).2).1 := by
  rw [ExceptT.run_bind, StateT.run_bind]
  rcases x.run.run s with ⟨failure | a, s'⟩ <;> rfl

/-- Transparent steps do not depend on each other. -/
theorem result_mapM {f : α → Importing β} (hf : ∀ a, Transparent i (f a)) (l : List α)
    (s : ImportState) :
    ((l.mapM f).run.run s).1 = l.mapM fun a => ((f a).run.run s).1 := by
  induction l with
  | nil => rfl
  | cons a l ih =>
    rw [List.mapM_cons, List.mapM_cons, result_bind]
    congr 1
    funext b
    -- The rest finds the answers that the first step found.
    have rest := (transparent_mapM (l := l) fun c _ => hf c).result _ s
      ((hf a).kept s).symm
    rw [result_bind, rest, ih]
    rfl

end Importing

namespace Check

/-- The imports of a file, given what the importer remembers. -/
def importsIn (importer : Importer) (s : ImportState) (file : SourceFile) :
    Except Failure (List ImportedPackage) :=
  ((importsOf importer file).run.run s).1

/-! ## What checking comes to -/

/-- Everything that checking asks of files is met, and `base` is the package before types are filled
in. -/
structure Built (importer : Importer) (before : ImportState) (importPath : Text)
    (version : Option Version) (files : List SourceFile) (base : PackageTypes) : Prop where
  name : commonPackage files = .ok base.packageName
  path : base.importPath = importPath
  version : base.version = version.getD Version.supported
  imports : List.Forall₂ (fun file f => ∃ imports, importsIn importer before file = .ok imports ∧
    f = ⟨imports, [], .empty⟩) files base.files
  declared : files.zipIdx.foldlM declareFile .empty = .ok base.declarations
  free : ∀ entry ∈ files.zipIdx, takenImport? (typed files base) entry = none

theorem mapM_eq_ok_iff {ε α β : Type} {f : α → Except ε β} {l : List α} {m : List β} :
    l.mapM f = .ok m ↔ List.Forall₂ (fun a b => f a = .ok b) l m := by
  refine ⟨forall₂_of_mapM, fun h => ?_⟩
  induction h with
  | nil => rfl
  | cons first _ ih => rw [List.mapM_cons, first, ih]; rfl

private theorem yields_result {α : Type} {importPath : Text} {r : Except TypeFault α} {a : α}
    {s s' : ImportState} :
    Yields
      (match r with
        | .ok a => pure a
        | .error fault => throw (.typeCheck importPath fault) : Importing α) s a s' ↔
      r = .ok a ∧ s = s' := by
  cases r with
  | ok b => simp [yields_pure]
  | error fault => simp [not_yields_throw]

/-- Checking gives a package iff everything it asks is met, and then it fills in the types and
records the uses of identifiers. -/
theorem exists_yields_package_iff {importer : Importer} {before : ImportState} {importPath : Text}
    {version : Option Version} {files : List SourceFile} {p : PackageTypes} :
    (∃ after, (package importPath version files importer).Yields before p after) ↔
      ∃ base, Built importer before importPath version files base ∧
        p = resolveUses (typed files base) files := by
  have imported (imports : List (List ImportedPackage)) :
      (∃ s', (files.mapM (importsOf importer)).Yields before imports s') ↔
        List.Forall₂ (fun file i => importsIn importer before file = .ok i) files imports := by
    rw [exists_yields_iff, result_mapM (importsOf_transparent importer), mapM_eq_ok_iff]
    rfl
  unfold package
  constructor
  · rintro ⟨after, run⟩
    obtain ⟨name, _, named, run⟩ := yields_bind.1 run
    obtain ⟨common, rfl⟩ := yields_result.1 named
    obtain ⟨imports, _, found, run⟩ := yields_bind.1 run
    obtain ⟨declarations, _, collected, run⟩ := yields_bind.1 run
    obtain ⟨declared, rfl⟩ := yields_result.1 collected
    dsimp only at run
    split at run
    · exact absurd run not_yields_throw
    · rename_i free
      obtain ⟨rfl, rfl⟩ := yields_pure.1 run
      refine ⟨_, ⟨common, rfl, rfl, ?_, declared, List.findSome?_eq_none_iff.1 free⟩, rfl⟩
      refine List.forall₂_map_right_iff.2 (((imported imports).1 ⟨_, found⟩).imp ?_)
      exact fun _ i known => ⟨i, known, rfl⟩
  · rintro ⟨⟨path, name, language, declarations, fileTypes⟩, built, rfl⟩
    -- The files know their imports and nothing else.
    have knows : fileTypes = (fileTypes.map FileTypes.imports).map fun i => ⟨i, [], .empty⟩ := by
      rw [List.map_map]
      refine (List.map_id _).symm.trans (List.map_congr_left fun f hf => ?_)
      obtain ⟨_, -, _, -, rfl⟩ := exists_of_forall₂ built.imports hf
      rfl
    have each : List.Forall₂ (fun file i => importsIn importer before file = .ok i) files
        (fileTypes.map FileTypes.imports) := by
      refine List.forall₂_map_right_iff.2 (built.imports.imp fun file f known => ?_)
      obtain ⟨i, known, rfl⟩ := known
      exact known
    obtain ⟨between, found⟩ := (imported _).2 each
    refine ⟨between, yields_bind.2 ⟨name, before, yields_result.2 ⟨built.name, rfl⟩, ?_⟩⟩
    refine yields_bind.2 ⟨_, between, found, ?_⟩
    refine yields_bind.2 ⟨declarations, between, yields_result.2 ⟨built.declared, rfl⟩, ?_⟩
    dsimp only
    have path_eq : path = importPath := built.path
    have version_eq : language = version.getD Version.supported := built.version
    have free := List.findSome?_eq_none_iff.2 built.free
    rw [typed] at free
    rw [← knows, ← path_eq, ← version_eq, free]
    exact yields_pure.2 ⟨rfl, rfl⟩

/-! ## The same files in another order -/

section

variable {ρ : Nat → Nat} {files files' : List SourceFile}

/-- Another order of files gives them other numbers. -/
theorem exists_renumbers (perm : files'.Perm files) :
    ∃ ρ, Renumbers ρ files.zipIdx files'.zipIdx := by
  have numbered : List.Forall₂ (fun file (entry : SourceFile × Nat) => entry.1 = file) files
      files.zipIdx := by
    have firsts : files = files.zipIdx.map Prod.fst := by simp
    conv => arg 2; rw [firsts]
    exact List.forall₂_map_left_iff.2 (List.forall₂_same.2 fun _ _ => rfl)
  -- The numbers of the files go along with the files into the other order.
  obtain ⟨moved, same, order⟩ := List.perm_comp_forall₂ perm numbered
  have firsts : moved.map Prod.fst = files' := by
    clear order numbered perm
    induction same with
    | nil => rfl
    | cons first _ ih => rw [List.map_cons, first, ih]
  refine ⟨fun j => (moved[j]?.map Prod.snd).getD 0, ?_⟩
  have entries : (files'.zipIdx.map fun entry =>
      (entry.1, (moved[entry.2]?.map Prod.snd).getD 0)) = moved := by
    refine List.ext_getElem? fun j => ?_
    rw [← firsts, List.getElem?_map, List.getElem?_zipIdx, List.getElem?_map]
    cases at_j : moved[j]? with
    | none => rfl
    | some entry => simp [at_j]
  unfold Renumbers
  rw [entries]
  exact order

theorem Renumbers.perm (order : Renumbers ρ files.zipIdx files'.zipIdx) : files'.Perm files := by
  have firsts := List.Perm.map Prod.fst order
  rw [List.map_map] at firsts
  simpa [Function.comp_def] using firsts

theorem Renumbers.mem (order : Renumbers ρ files.zipIdx files'.zipIdx) {file : SourceFile}
    {j : Nat} (h : (file, j) ∈ files'.zipIdx) : (file, ρ j) ∈ files.zipIdx :=
  (List.Perm.mem_iff order).1 (List.mem_map_of_mem h)

theorem Renumbers.getElem? (order : Renumbers ρ files.zipIdx files'.zipIdx) {j : Nat}
    {file : SourceFile} (h : files'[j]? = some file) : files[ρ j]? = some file :=
  List.mk_mem_zipIdx_iff_getElem?.1 (order.mem (List.mk_mem_zipIdx_iff_getElem?.2 h))

private theorem commonPackage_perm (perm : files'.Perm files) {name : Text}
    (h : commonPackage files = .ok name) : commonPackage files' = .ok name := by
  have all := packageName_of_commonPackage h
  cases files' with
  | nil => rwa [List.nil_perm.1 perm] at h
  | cons file rest =>
    have first : file.packageName = name := all file (perm.mem_iff.1 List.mem_cons_self)
    have same : (file :: rest).find? (·.packageName ≠ name) = none := by
      refine List.find?_eq_none.2 fun other ho => ?_
      simpa using all other (perm.mem_iff.1 ho)
    unfold commonPackage
    simp only [List.head?_cons, Option.map_some, Option.getD_some, first, same]

end

/-- Whether the name of an import is taken depends on the imports of the file and on the declared
names. -/
private theorem takenImport?_congr {p q : PackageTypes} {file : SourceFile} {i j : Nat}
    (imports : (q.file? j).map FileTypes.imports = (p.file? i).map FileTypes.imports)
    (names : ∀ name, (q.declaration? name).isSome = (p.declaration? name).isSome) :
    takenImport? q (file, j) = takenImport? p (file, i) := by
  have contains (name : Text) : q.declarations.contains name = p.declarations.contains name :=
    names name
  simp only [takenImport?, imports, contains]

/-- Filling in types declares no names. -/
theorem typed_erase {files : List SourceFile} {base : PackageTypes}
    (ready : Ready base files.zipIdx) (name : Text) :
    ((typed files base).declaration? name).map Declaration.erase =
      (base.declaration? name).map Declaration.erase :=
  ((typed_along ready).erase name).trans (spelled_erase base files.zipIdx name)

/-- Filling in types changes nothing about the files. -/
theorem file?_typed (files : List SourceFile) (base : PackageTypes) (index : Nat) :
    (typed files base).file? index = base.file? index := by
  obtain ⟨declarations, eq⟩ := typed_eq base files.zipIdx
  rw [typed, eq]
  rfl

/-- Filling in types takes no name of an import. -/
private theorem takenImport?_typed {files : List SourceFile} {base : PackageTypes}
    (ready : Ready base files.zipIdx) (entry : SourceFile × Nat) :
    takenImport? (typed files base) entry = takenImport? base entry := by
  refine takenImport?_congr (congrArg _ (file?_typed files base entry.2)) fun name => ?_
  have names := congrArg Option.isSome (typed_erase ready name)
  rwa [Option.isSome_map, Option.isSome_map] at names

namespace Built

variable {importer : Importer} {before : ImportState} {importPath : Text}
  {version : Option Version} {files files' : List SourceFile} {base base' : PackageTypes}
  {ρ : Nat → Nat}

theorem ready (built : Built importer before importPath version files base) :
    Ready base files.zipIdx :=
  ready_of_declareFiles built.declared

/-- What is known of a file are its imports. -/
theorem file?_eq (built : Built importer before importPath version files base) {index : Nat}
    {file : SourceFile} (h : files[index]? = some file) :
    ∃ imports, importsIn importer before file = .ok imports ∧
      base.file? index = some ⟨imports, [], .empty⟩ := by
  obtain ⟨inFiles, rfl⟩ := List.getElem?_eq_some_iff.1 h
  have inBase : index < base.files.length := built.imports.length_eq ▸ inFiles
  obtain ⟨imports, known, eq⟩ := built.imports.get inFiles inBase
  refine ⟨imports, known, ?_⟩
  rw [PackageTypes.file?, List.getElem?_eq_getElem inBase]
  exact congrArg some eq

/-- The same files in another order meet the same, and give the same package before types are
filled in. -/
theorem reorder (built : Built importer before importPath version files base)
    (order : Renumbers ρ files.zipIdx files'.zipIdx) :
    ∃ base', Built importer before importPath version files' base' ∧
      Alike ρ files'.zipIdx base base' ∧ base'.packageName = base.packageName := by
  obtain ⟨declarations, declared, same⟩ := declareFiles_renumber order built.declared
  let imports (file : SourceFile) : List ImportedPackage :=
    (importsIn importer before file).toOption.getD []
  let base' : PackageTypes := ⟨importPath, base.packageName, version.getD Version.supported,
    declarations, files'.map fun file => ⟨imports file, [], .empty⟩⟩
  -- The importer answers as it did, so every file has the imports that it had.
  have known (file : SourceFile) (hf : file ∈ files') :
      importsIn importer before file = .ok (imports file) := by
    obtain ⟨index, hi⟩ := List.mem_iff_getElem?.1 (order.perm.mem_iff.1 hf)
    obtain ⟨found, known, -⟩ := built.file?_eq hi
    simp [imports, known, Except.toOption]
  have alike : Alike ρ files'.zipIdx base base' := by
    refine ⟨built.path.symm, fun entry he => ?_, same⟩
    obtain ⟨file, j⟩ := entry
    have hj := List.mk_mem_zipIdx_iff_getElem?.1 he
    obtain ⟨found, known', inBase⟩ := built.file?_eq (order.getElem? hj)
    have here : base'.file? j = some ⟨imports file, [], .empty⟩ := by
      simp [base', PackageTypes.file?, hj]
    rw [here, inBase]
    have := known file (List.mem_of_getElem? hj)
    rw [known'] at this
    simp [Except.ok.inj this]
  refine ⟨base', ⟨commonPackage_perm order.perm built.name, rfl, rfl, ?_, declared, ?_⟩, alike,
    rfl⟩
  · refine List.forall₂_map_right_iff.2 (List.forall₂_same.2 fun file hf => ?_)
    exact ⟨imports file, known file hf, rfl⟩
  · intro entry he
    have free := built.free _ (order.mem he)
    rw [takenImport?_typed built.ready] at free
    rw [takenImport?_typed (alike.ready built.ready order), ← free]
    refine takenImport?_congr (alike.imports entry he) fun name => ?_
    rw [← alike.declarations name, Option.isSome_map]

end Built

end Check

end Interlace
