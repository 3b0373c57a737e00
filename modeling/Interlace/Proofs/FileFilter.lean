import Interlace.Proofs.FileEstimate
import Interlace.Proofs.Injecting
import Interlace.Proofs.Recognition
import Mathlib.Algebra.GroupWithZero.Nat

/-!
# Leaving aspects out

Before a package is parsed, the aspects that cannot match in a file are left out for that file.
An aspect whose join point holds nowhere contributes nothing to the walk over a file, so weaving
with and without it is the same step.

## Key results

- `Weave.file_filter`: idle aspects make no difference to weaving a file
- `Injector.work_fileAspects`: nor do the aspects that the estimate rules out to a worker
- `Injector.injectSources_of_ceiling`: a package comes out the same whether its bytes are looked
  at first or not
-/

namespace Interlace

open Syntax Injecting

/-! ## One file -/

/-- The join point of the aspect holds nowhere in the file. -/
def Aspect.Idle (s : Scene) (a : Aspect) : Prop :=
  ∀ site, a.joinPoint.holdsAt s site = false

namespace Weave

variable {s : Scene} {aspects : List Aspect} {keep : Aspect → Bool}

private theorem applyAt_filter (idle : ∀ a ∈ aspects, keep a = false → a.Idle s) (site : Site)
    (p : Progress) : applyAt s site (aspects.filter keep) p = applyAt s site aspects p := by
  induction aspects generalizing p with
  | nil => rfl
  | cons a aspects ih =>
    have rest := ih fun b hb => idle b (List.mem_cons_of_mem a hb)
    unfold applyAt at rest ⊢
    cases kept : keep a with
    | true =>
      rw [List.filter_cons_of_pos kept, List.foldlM_cons, List.foldlM_cons]
      exact congrArg _ (funext rest)
    | false =>
      have skipped := idle a List.mem_cons_self kept site
      rw [List.filter_cons_of_neg (Bool.eq_false_iff.1 kept), List.foldlM_cons, skipped, rest]
      rfl

/-- Idle aspects make no difference to the walk. -/
private theorem walk_filter (idle : ∀ a ∈ aspects, keep a = false → a.Idle s) :
    walk s (aspects.filter keep) = walk s aspects := by
  simp only [walk, applyAt_filter idle]

/-- Idle aspects make no difference to weaving a file. -/
theorem file_filter (idle : ∀ a ∈ aspects, keep a = false → a.Idle s) (importer : Importer)
    (lines : Bool) :
    file s (aspects.filter keep) importer lines = file s aspects importer lines := by
  unfold file
  rw [walk_filter idle]

/-- Without aspects a file is given back. -/
private theorem file_nil (s : Scene) (importer : Importer) (lines : Bool) :
    file s [] importer lines = pure ⟨none, .empty, none⟩ := by
  refine file_of_isSettled rfl ?_
  simp [isSettled, isSettledAt]

end Weave

namespace Injector

variable {i : Injector} {s : Scene} {aspects : List Aspect} {keep : Aspect → Bool}

/-- Weaving a file with aspects that are all idle does nothing. -/
private theorem weaveOne_of_filter_eq_nil (idle : ∀ a ∈ aspects, keep a = false → a.Idle s)
    (none_kept : aspects.filter keep = []) (lead : Text) :
    i.weaveOne false s aspects lead = pure .nothing := by
  unfold weaveOne
  split
  · rfl
  · have unwoven : Weave.file s aspects = Weave.file s [] := by
      funext importer lines
      rw [← Weave.file_filter idle, none_kept]
    refine ext_on fun w => ?_
    simp only [Bool.false_eq_true, if_false, unwoven, Weave.file_nil, importer, on_bind, on_get,
      on_importing, on_pure]
    rfl

/-- Idle aspects make no difference to weaving and writing a file. -/
private theorem weaveOne_filter (idle : ∀ a ∈ aspects, keep a = false → a.Idle s) (lead : Text) :
    i.weaveOne false s (aspects.filter keep) lead = i.weaveOne false s aspects lead := by
  by_cases kept : aspects.filter keep = []
  · rw [weaveOne_of_filter_eq_nil idle kept, kept]
    rfl
  · have given : aspects ≠ [] := by
      rintro rfl
      exact kept rfl
    unfold weaveOne
    rw [List.isEmpty_eq_false_iff.2 kept, List.isEmpty_eq_false_iff.2 given]
    simp only [Weave.file_filter idle]

/-! ## All files -/

section

variable {path bytes importPath : Text} {file : SourceFile} {files : List SourceFile}
  {types : PackageTypes} {index : Nat} {package : PackageInfo}

/-- The aspects that are left out for a parsed and checked file are idle in it. -/
private theorem idle_of_inFile_eq_never (parsed : SourceFile.parse path bytes = .ok file)
    {version : Option Version} {importer : Importer} {before after : ImportState}
    (checked : (Check.package importPath version files importer).Yields before types after)
    (listed : files[index]? = some file) (hi : package.importPath = importPath)
    (scanned : ∀ name ∈ SourceFile.scanPackage? bytes, name = file.packageName) {a : Aspect}
    (ruledOut : a.joinPoint.inFile ⟨bytes, SourceFile.scanPackage? bytes, importPath⟩ = .never) :
    a.Idle ⟨file, index, types, package⟩ := by
  have unconditional : ∀ path,
      Importing.Ensures (fun _ => True) (importer.import? path) fun _ => True :=
    fun _ _ _ _ _ _ => ⟨trivial, trivial⟩
  obtain ⟨-, bare, stages⟩ :=
    Check.package_ensures unconditional importPath version files before types after trivial checked
  intro site
  have leaves : ∀ point : JoinPoint, point.IsLeaf →
      (point.inFile ⟨bytes, SourceFile.scanPackage? bytes, importPath⟩).Admits
        (point.holdsAt ⟨file, index, types, package⟩ site) :=
    JoinPoint.inFile_admits_of_isLeaf parsed stages listed hi rfl rfl scanned site
  exact ((JoinPoint.inFile_estimate _).admits leaves a.joinPoint).1 ruledOut

end

/-- What the worker for one file does, given which aspects a source gets. -/
def workOn (i : Injector) (cancelled : Bool) (types : PackageTypes)
    (give : Text × Text → List Aspect) :
    (SourceFile × Text × Text) × Nat → Injecting Contribution
  | ((file, source), index) =>
    i.work cancelled
      ⟨file, index, types,
        ⟨i.config.importPath, types.packageName, i.config.testMain, i.config.settings⟩⟩
      (give source) (source.2.take (source.2.length - file.source.length))

/-- The outcome of contributions, unless one of them ends the run. -/
def conclude (contributions : List Contribution) : Injecting Outcome :=
  match fatal? (contributions.foldl Contribution.addTo .empty) with
  | some failure => throw failure
  | none => return contributions.foldl Contribution.addTo .empty

/-- Weaving all files is a worker for every file and its source. -/
private theorem weaveAll_map (cancelled : Bool) (sources : List (Text × Text))
    (files : List SourceFile) (types : PackageTypes) (give : Text × Text → List Aspect) :
    i.weaveAll cancelled sources files types (sources.map give) =
      (files.zip sources).zipIdx.mapM (i.workOn cancelled types give) >>= conclude := by
  unfold weaveAll
  dsimp only
  rw [← List.map_prod_left_eq_zip, List.zip_map_right, List.zipIdx_map, List.mapM_map]
  rfl

/-- A worker that was cancelled ends the run. -/
private theorem not_yields_conclude {contributions : List Contribution} {outcome : Outcome}
    {w w' : World} (h : Contribution.failed .cancelled ∈ contributions) :
    ¬ (conclude contributions).Yields w outcome w' := by
  have fatal : (fatal? (contributions.foldl Contribution.addTo .empty)).isSome := by
    unfold fatal?
    rw [failures_foldl_addTo, List.find?_isSome]
    exact ⟨.cancelled, List.mem_append_right _ (List.mem_filterMap.2 ⟨_, h, rfl⟩), rfl⟩
  obtain ⟨failure, found⟩ := Option.isSome_iff_exists.1 fatal
  unfold conclude
  rw [found]
  exact not_yields_throw

/-- A cancelled run weaves no file that it has aspects for. -/
private theorem work_cancelled (given : aspects ≠ []) (lead : Text) :
    i.work true s aspects lead = pure (.failed .cancelled) := by
  unfold work weaveOne
  rw [List.isEmpty_eq_false_iff.2 given]
  rfl

section

variable {sources : List (Text × Text)} {files : List SourceFile} {types : PackageTypes}
  {w w' : World} {outcome : Outcome} {cancelled : Bool}

/-- A cancelled run succeeds only if there is nothing to do. -/
private theorem eq_nil_of_weaveAll_cancelled
    (all : (i.weaveAll true sources files types (sources.map fun _ => aspects)).Yields
      w outcome w') : aspects = [] ∨ (files.zip sources).zipIdx = [] := by
  rw [or_iff_not_imp_left]
  intro given
  rw [weaveAll_map] at all
  have stopped : i.workOn true types (fun _ => aspects) = fun _ => pure (.failed .cancelled) := by
    funext job
    exact work_cancelled given _
  cases jobs : (files.zip sources).zipIdx with
  | nil => rfl
  | cons job rest =>
    rw [jobs, stopped, List.mapM_pure, pure_bind] at all
    exact absurd all (not_yields_conclude List.mem_cons_self)

/-- The worker for a parsed and checked file does the same with the aspects that may match in it as
with all aspects. -/
private theorem workOn_fileAspects {version : Option Version} {importer : Importer}
    {before after : ImportState}
    (parsed : sources.mapM (fun source => SourceFile.parse source.1 source.2) = .ok files)
    (checked : (Check.package i.config.importPath version files importer).Yields before types after)
    (scanned : ∀ source ∈ sources, ∀ file, SourceFile.parse source.1 source.2 = .ok file →
      ∀ name ∈ SourceFile.scanPackage? source.2, name = file.packageName)
    {job : (SourceFile × Text × Text) × Nat} (listed : job ∈ (files.zip sources).zipIdx) :
    i.workOn false types (fun source => i.fileAspects aspects source.2) job =
      i.workOn false types (fun _ => aspects) job := by
  obtain ⟨⟨file, source⟩, index⟩ := job
  obtain ⟨inFiles, inSources⟩ :=
    List.getElem?_zip_eq_some.1 (List.mk_mem_zipIdx_iff_getElem?.1 listed)
  -- The file of the job is what its own source was parsed to.
  have read : SourceFile.parse source.1 source.2 = .ok file := by
    obtain ⟨hf, file_eq⟩ := List.getElem?_eq_some_iff.1 inFiles
    obtain ⟨hs, source_eq⟩ := List.getElem?_eq_some_iff.1 inSources
    have here := (forall₂_of_mapM parsed).get hs hf
    rwa [List.get_eq_getElem, List.get_eq_getElem, file_eq, source_eq] at here
  unfold workOn work
  dsimp only
  rw [fileAspects, weaveOne_filter]
  intro a _ ruledOut
  refine idle_of_inFile_eq_never read checked inFiles rfl
    (scanned source (List.mem_of_getElem? inSources) file read) ?_
  simpa using ruledOut

/-- Weaving all files with all aspects gives what weaving each with the aspects that may match in
it gives. -/
private theorem weaveAll_fileAspects {version : Option Version} {importer : Importer}
    {before after : ImportState}
    (parsed : sources.mapM (fun source => SourceFile.parse source.1 source.2) = .ok files)
    (checked : (Check.package i.config.importPath version files importer).Yields before types after)
    (scanned : ∀ source ∈ sources, ∀ file, SourceFile.parse source.1 source.2 = .ok file →
      ∀ name ∈ SourceFile.scanPackage? source.2, name = file.packageName)
    (all : (i.weaveAll cancelled sources files types (sources.map fun _ => aspects)).Yields
      w outcome w') :
    (i.weaveAll cancelled sources files types
      (sources.map fun source => i.fileAspects aspects source.2)).Yields w outcome w' := by
  suffices same : ∀ job ∈ (files.zip sources).zipIdx,
      i.workOn cancelled types (fun source => i.fileAspects aspects source.2) job =
        i.workOn cancelled types (fun _ => aspects) job by
    rw [weaveAll_map] at all ⊢
    rwa [mapM_congr same]
  intro job listed
  cases cancelled with
  | false => exact workOn_fileAspects parsed checked scanned listed
  | true =>
    -- A cancelled worker that has aspects fails, so there are no aspects, or no files.
    rcases eq_nil_of_weaveAll_cancelled all with rfl | jobs
    · rfl
    · rw [jobs] at listed
      cases listed

/-- Without aspects nothing is woven. -/
private theorem weaveAll_nil (cancelled : Bool) (sources : List (Text × Text))
    (files : List SourceFile) (types : PackageTypes) {give : Text × Text → List Aspect}
    (nothing : (sources.map give).all List.isEmpty) :
    i.weaveAll cancelled sources files types (sources.map give) = pure .empty := by
  rw [weaveAll_map]
  -- Each worker does nothing, so their contributions add up to nothing.
  have idle : ∀ job ∈ (files.zip sources).zipIdx,
      i.workOn cancelled types give job = pure Contribution.nothing := by
    rintro ⟨⟨file, source⟩, index⟩ listed
    have mem := (List.of_mem_zip (List.fst_mem_of_mem_zipIdx listed)).2
    have none_given := List.all_eq_true.1 nothing _ (List.mem_map_of_mem mem)
    unfold workOn work weaveOne
    dsimp only
    rw [if_pos none_given]
    rfl
  rw [mapM_congr idle, List.mapM_pure, pure_bind]
  have sum : ∀ l : List ((SourceFile × Text × Text) × Nat),
      (l.map fun _ => Contribution.nothing).foldl Contribution.addTo .empty = .empty := by
    intro l
    induction l with
    | nil => rfl
    | cons _ l ih => exact ih
  unfold conclude
  rw [sum]
  rfl

/-! ## The ceiling -/

/-- The same injector with another ceiling. -/
def withCeiling (i : Injector) (ceiling : Nat) : Injector :=
  { i with config := { i.config with ceiling := ceiling } }

/-- The number of bytes of all sources. -/
def totalSize (sources : List (Text × Text)) : Nat :=
  (sources.map fun source => source.2.length).sum

private theorem foldl_length_eq_totalSize (sources : List (Text × Text)) :
    sources.foldl (fun n source => n + source.2.length) 0 = totalSize sources := by
  rw [totalSize, List.sum_eq_foldl, List.foldl_map]

/-- Sources that exceed the ceiling get all aspects. -/
private theorem perFile?_of_lt {ceiling : Nat} (exceeded : ceiling < totalSize sources) :
    (i.withCeiling ceiling).perFile? sources aspects = some (sources.map fun _ => aspects) := by
  unfold perFile?
  rw [foldl_length_eq_totalSize]
  exact if_pos exceeded

/-- Sources that fit under the ceiling get the aspects that may match in them, if there are any. -/
private theorem perFile?_of_le {ceiling : Nat} (fits : totalSize sources ≤ ceiling) :
    (i.withCeiling ceiling).perFile? sources aspects =
      if (sources.map fun source => i.fileAspects aspects source.2).all List.isEmpty then none
      else some (sources.map fun source => i.fileAspects aspects source.2) := by
  unfold perFile?
  rw [foldl_length_eq_totalSize]
  exact if_neg (Nat.not_lt.2 fits)

/-- Weaving sources with all aspects gives what weaving each with the aspects that may match in it
gives. -/
private theorem weaveGiven_fileAspects
    (scanned : ∀ source ∈ sources, ∀ file, SourceFile.parse source.1 source.2 = .ok file →
      ∀ name ∈ SourceFile.scanPackage? source.2, name = file.packageName)
    (all : (i.weaveGiven cancelled sources (sources.map fun _ => aspects)).Yields w outcome w') :
    (i.weaveGiven cancelled sources
      (sources.map fun source => i.fileAspects aspects source.2)).Yields w outcome w' := by
  rw [yields_weaveGiven_iff] at all ⊢
  rcases all with unparsed | ⟨files, between, parsed, unchecked | ⟨types, typed, all⟩⟩
  · exact .inl unparsed
  · exact .inr ⟨files, between, parsed, .inl unchecked⟩
  · have checked := (yields_typesOf typed).2 types rfl
    exact .inr ⟨files, between, parsed,
      .inr ⟨types, typed, weaveAll_fileAspects parsed checked scanned all⟩⟩

/-- Weaving sources without aspects leaves the disk as it is. -/
private theorem weaveGiven_nil {give : Text × Text → List Aspect}
    (nothing : (sources.map give).all List.isEmpty)
    (h : (i.weaveGiven cancelled sources (sources.map give)).Yields w outcome w') :
    .empty = outcome ∧ w.disk = w'.disk := by
  rcases yields_weaveGiven_iff.1 h with
    ⟨-, -, rfl, rfl⟩ | ⟨files, between, -, ⟨typed, rfl, rfl⟩ | ⟨types, typed, h⟩⟩
  · exact ⟨rfl, rfl⟩
  · exact ⟨rfl, (yields_typesOf typed).1.symm⟩
  · rw [weaveAll_nil cancelled sources files types nothing] at h
    obtain ⟨rfl, rfl⟩ := yields_pure.1 h
    exact ⟨rfl, (yields_typesOf typed).1.symm⟩

/-- A package comes out the same whether the bytes of its sources are looked at first or not: if
weaving it with all aspects for every file succeeds, then weaving each file with the aspects that
may match in it succeeds, with the same outcome and the same files on the disk. -/
theorem injectSources_of_ceiling {low high : Nat} {before after : World}
    (exceeded : low < totalSize sources) (fits : totalSize sources ≤ high)
    (scanned : ∀ source ∈ sources, ∀ file, SourceFile.parse source.1 source.2 = .ok file →
      ∀ name ∈ SourceFile.scanPackage? source.2, name = file.packageName)
    (all : ((i.withCeiling low).injectSources cancelled sources aspects).Yields
      before outcome after) :
    ∃ last, ((i.withCeiling high).injectSources cancelled sources aspects).Yields
        before outcome last ∧ last.disk = after.disk := by
  rw [injectSources_eq_weaveGiven, perFile?_of_lt exceeded] at all
  have chosen : (i.weaveGiven cancelled sources
      (sources.map fun source => i.fileAspects aspects source.2)).Yields before outcome after :=
    weaveGiven_fileAspects scanned all
  rw [injectSources_eq_weaveGiven, perFile?_of_le fits]
  by_cases nothing : (sources.map fun source => i.fileAspects aspects source.2).all List.isEmpty
  -- Then nothing is parsed, and parsing and checking had no other effect on the disk.
  · obtain ⟨rfl, same⟩ := weaveGiven_nil nothing chosen
    rw [if_pos nothing]
    exact ⟨before, yields_pure.2 ⟨rfl, rfl⟩, same⟩
  · rw [if_neg nothing]
    exact ⟨after, chosen, rfl⟩

end

/-- A package of two files, one with a handler that is woven and one without. -/
def mixedPackage : List (Text × Text) :=
  [("a.go", "package p\nimport \"net/http\"\nfunc f() \x7b\n\thttp.Handle(\"/\", h)\n\x7d\n"),
    ("b.go", "package p\nfunc g() int \x7b return 1 \x7d\n")]

/-- An injector of packages whose dependencies are not known. -/
def unaided : Injector :=
  ⟨{ InjectorConfig.standard with importPath := "p" }, fun _ => noArchives⟩

/-- A world with an empty folder to work in. -/
def emptyFolder : World :=
  ⟨.scratch [("work" : Text)], .fresh, .empty⟩

/-- In the mixed package the second file gets no aspect under a high ceiling, and the first is
woven as it is without. -/
theorem injectSources_of_ceiling_mixed :
    ∃ outcome after,
      ((unaided.withCeiling 0).injectSources false mixedPackage builtinAspects).Yields
        emptyFolder outcome after ∧
      outcome.files.entries.length = 1 ∧
      ∃ last, ((unaided.withCeiling 4096).injectSources false mixedPackage builtinAspects).Yields
        emptyFolder outcome last ∧ last.disk = after.disk := by
  have woven : (((unaided.withCeiling 0).injectSources false mixedPackage builtinAspects).on
      emptyFolder).1.toOption.map (fun o => o.files.entries.length) = some 1 := by decide +kernel
  -- The scanner finds the same package name as the parser in both files.
  have named : mixedPackage.all fun source =>
      (SourceFile.parse source.1 source.2).toOption.all fun file =>
        (SourceFile.scanPackage? source.2).all fun name => decide (name = file.packageName) := by
    decide +kernel
  obtain ⟨outcome, done, one⟩ := Option.map_eq_some_iff.1 woven
  obtain ⟨after, all⟩ := exists_yields_iff.2 (toOption_eq_some_iff.1 done)
  refine ⟨outcome, after, all, one,
    injectSources_of_ceiling (by decide +kernel) (by decide +kernel) ?_ all⟩
  intro source hs file parsed name scanned
  have here := List.all_eq_true.1 named source hs
  rw [parsed] at here
  simpa [Except.toOption, Option.mem_def.1 scanned] using here

end Injector

end Interlace
