import Interlace.Proofs.Interleaving
import Interlace.Proofs.SharedKeys

/-!
# Calls that weave the same

What weaving comes to is settled by the configuration but for the output directory, the files in
their order, the aspects in their order, and the answers about dependencies. Two calls that are the
same in these weave the same files to the same contents, wherever they write them and whatever else
is on their disks, as long as the files can be written.

## Key results

- `Injector.sole_repeats`: a worker of another run contributes the same file
- `Injector.weaveRead_repeats`: weaving on another disk comes to the same
- `CachedCall.woven_of_sameWork`: calls that are the same in all that weaving takes weave the same
-/

namespace Interlace

open Injecting

namespace Injector

variable {i j : Injector} {w v w' : World}

/-! ## Two runs -/

/-- Two injectors on two worlds take the same to weave: they differ in where they write, and in what
the disks hold beside the answers about dependencies. -/
structure Alike (i : Injector) (w : World) (j : Injector) (v : World) : Prop where
  config : j.config = { i.config with outputDir := j.config.outputDir }
  lookup : j.lookup v.disk = i.lookup w.disk
  agree : Importer.Agree ⟨i.lookup w.disk, false⟩ w.imports v.imports

/-- What checking does: it gives the types, or nothing if the fault is one of the source. -/
private theorem on_typesOf (i : Injector) (files : List SourceFile) (w : World) :
    on (i.typesOf false files) w =
      match (Check.package i.config.importPath i.config.version files
        ⟨i.lookup w.disk, false⟩).run.run w.imports with
      | (.ok types, imports) => (.ok (some types), { w with imports := imports })
      | (.error failure, imports) =>
        if failure.isUserSource then (.ok none, { w with imports := imports })
        else (.error failure, { w with imports := imports }) := by
  unfold typesOf importer
  rw [on_bind, on_bind, on_get]
  dsimp only [on_pure]
  rw [on_tryCatch, on_map, on_importing]
  rcases (Check.package i.config.importPath i.config.version files
    ⟨i.lookup w.disk, false⟩).run.run w.imports with ⟨failure | types, imports⟩
  · dsimp only [Except.map]
    split <;> rfl
  · rfl

/-- Two runs that are alike check alike, and are still alike. -/
private theorem Alike.typesOf (alike : Alike i w j v) {files : List SourceFile}
    {checked : Option PackageTypes} (h : (i.typesOf false files).Yields w checked w') :
    ∃ v', (j.typesOf false files).Yields v checked v' ∧ v'.disk = v.disk ∧ Alike i w' j v' := by
  have transparent := Check.package_transparent ⟨i.lookup w.disk, false⟩ i.config.importPath
    i.config.version files
  have same := transparent.result _ _ alike.agree
  have agree := transparent.agree alike.agree
  unfold Injecting.Yields at h ⊢
  rw [on_typesOf] at h ⊢
  rw [alike.config, alike.lookup]
  dsimp only
  -- Checking does not see more of the state than the names of packages, so both come to one result.
  generalize (Check.package i.config.importPath i.config.version files
    ⟨i.lookup w.disk, false⟩).run.run w.imports = r at h same agree
  generalize (Check.package i.config.importPath i.config.version files
    ⟨i.lookup w.disk, false⟩).run.run v.imports = r' at same agree ⊢
  obtain ⟨value, imports⟩ := r
  obtain ⟨value', imports'⟩ := r'
  cases same
  cases value with
  | ok types =>
    cases h
    exact ⟨_, rfl, rfl, alike.config, alike.lookup, agree⟩
  | error failure =>
    dsimp only at h ⊢
    -- A failure in the source leaves the package without types, any other ends the run.
    by_cases user : failure.isUserSource
    · rw [if_pos user] at h ⊢
      cases h
      exact ⟨_, rfl, rfl, alike.config, alike.lookup, agree⟩
    · rw [if_neg user] at h
      cases h

/-! ## The workers -/

/-- The same contribution, but for where the file is. -/
inductive Repeats : Contribution → Contribution → Prop
  | nothing : Repeats .nothing .nothing
  | woven (path target : Text) (file : InjectedFile) (version : Option Version) :
      Repeats (.woven path file version) (.woven path { file with target := target } version)

/-- A text can be written as the woven file of a path. -/
def Writable (j : Injector) (disk : Disk) (path text : Text) : Prop :=
  ∃ result, disk.writeWoven path j.config.outputDir text = .ok result

/-- What is delivered on another disk, where it can be written. -/
private theorem deliver_repeats {s : Scene} {lead : Text} {woven : WovenFile} {disk disk' : Disk}
    (config : j.config = { i.config with outputDir := j.config.outputDir })
    (clean : (i.deliver s lead woven disk).1.failure? = none)
    (writable : ∀ entry, (i.deliver s lead woven disk).1.added? = some entry →
      j.Writable disk' entry.1 entry.2.contents) :
    Repeats (i.deliver s lead woven disk).1 (j.deliver s lead woven disk').1 := by
  have contents : ∀ text, j.contentsOf lead text = i.contentsOf lead text := by
    intro text
    unfold contentsOf
    rw [config]
  unfold deliver at clean writable ⊢
  generalize woven.text = text at clean writable ⊢
  cases text with
  | none => exact .nothing
  | some text =>
    dsimp only at clean writable ⊢
    rw [contents]
    generalize disk.writeWoven s.file.path i.config.outputDir (i.contentsOf lead text) = r
      at clean writable ⊢
    cases r with
    | error failure => cases clean
    | ok result =>
      obtain ⟨result', written'⟩ := writable _ rfl
      dsimp only at written'
      rw [written']
      exact .woven s.file.path result'.1 ⟨result.1, woven.references, i.contentsOf lead text⟩
        woven.version

/-- A worker that contributes a file or nothing contributes the same in a run that is alike, if the
file can be written there. -/
theorem sole_repeats (alike : Alike i w j v) (types : PackageTypes) (job : Job)
    (clean : (i.sole types w job).failure? = none)
    (writable : ∀ entry, (i.sole types w job).added? = some entry →
      j.Writable v.disk entry.1 entry.2.contents) :
    Repeats (i.sole types w job) (j.sole types v job) := by
  obtain ⟨⟨file, ⟨path, bytes⟩, aspects⟩, index⟩ := job
  have settings : j.config.settings = i.config.settings := by rw [alike.config]
  have lines : j.config.lines = i.config.lines := by rw [alike.config]
  have importPath : j.config.importPath = i.config.importPath := by rw [alike.config]
  have testMain : j.config.testMain = i.config.testMain := by rw [alike.config]
  unfold sole workFor at *
  rw [on_work] at *
  rw [on_work, importPath, testMain, settings, lines, alike.lookup]
  by_cases idle : aspects.isEmpty
  · rw [if_pos idle, if_pos idle]
    exact .nothing
  · rw [if_neg idle] at *
    rw [if_neg idle]
    simp only [Bool.false_eq_true, ↓reduceIte] at *
    generalize (⟨file, index, types, _⟩ : Scene) = s at *
    generalize List.take _ bytes = lead at *
    -- The walk and the rendering come to the same, so the same text is delivered.
    have same := (Weave.file_transparent ⟨i.lookup w.disk, false⟩ s aspects i.config.lines).result
      w.imports v.imports alike.agree
    generalize (Weave.file s aspects ⟨i.lookup w.disk, false⟩ i.config.lines).run.run w.imports = r
      at same clean writable ⊢
    generalize (Weave.file s aspects ⟨i.lookup w.disk, false⟩ i.config.lines).run.run v.imports = r'
      at same ⊢
    obtain ⟨value, imports⟩ := r
    obtain ⟨value', imports'⟩ := r'
    cases same
    cases value with
    | error failure => cases clean
    | ok woven => exact deliver_repeats alike.config clean writable

/-! ## Sums -/

private theorem map_insert {α β : Type} (d : Dict α) (key : Text) (a : α) (f : α → β) :
    (d.insert key a).map f = (d.map f).insert key (f a) := by
  refine Dict.ext_get? fun other => ?_
  rw [Dict.get?_map, Dict.get?_insert, Dict.get?_insert, Dict.get?_map]
  split <;> rfl

/-- What is kept of a sum of contributions does not tell where the files are. -/
private theorem entryOf_foldl_addTo {cs cs' : List Contribution} (h : List.Forall₂ Repeats cs cs')
    {o o' : Outcome} (same : entryOf o' = entryOf o) :
    entryOf (cs'.foldl Contribution.addTo o') = entryOf (cs.foldl Contribution.addTo o) := by
  induction h generalizing o o' with
  | nil => exact same
  | cons first _ ih =>
    refine ih ?_
    cases first with
    | nothing => exact same
    | woven path target file version =>
      obtain ⟨files, newest⟩ := CacheEntry.mk.inj same
      unfold entryOf Contribution.addTo
      dsimp only
      rw [map_insert, map_insert, files, newest]

private theorem failure?_eq_none_of_repeats {cs cs' : List Contribution}
    (h : List.Forall₂ Repeats cs cs') : cs'.filterMap Contribution.failure? = [] := by
  induction h with
  | nil => rfl
  | cons first _ ih =>
    cases first with
    | nothing => exact ih
    | woven path target file version => exact ih

/-- The files of a sum of contributions are all kept, if no two are of one path. -/
private theorem mem_entryOf_of_added? {cs : List Contribution}
    (apart : ((cs.filterMap Contribution.added?).map Prod.fst).Nodup) {c : Contribution}
    (hc : c ∈ cs) {entry : Text × InjectedFile} (added : c.added? = some entry) :
    (entry.1, kept entry.2) ∈ (entryOf (cs.foldl Contribution.addTo .empty)).files.entries := by
  have listed := (mem_entries_foldl_addTo apart).2 (List.mem_filterMap.2 ⟨c, hc, added⟩)
  exact List.mem_map.2 ⟨entry, listed, rfl⟩

/-! ## Whole runs -/

variable {sources : List (Text × Text)}

/-- The sources can be read, no path is listed twice, and writing woven files does not change what
is known of dependencies. -/
structure Steady (i : Injector) (w : World) (sources : List (Text × Text)) : Prop where
  distinct : (sources.map Prod.fst).Nodup
  present : ∀ source ∈ sources, w.disk.read source.1 = .ok source.2
  lookup : ∀ disk, Grown (sources.map Prod.fst) i.config.outputDir w.disk disk →
    i.lookup disk = i.lookup w.disk

/-- A steady run is as steady on a world with the same disk. -/
private theorem Steady.of_disk_eq (h : Steady i w sources) (same : w'.disk = w.disk) :
    Steady i w' sources :=
  ⟨h.distinct, same ▸ h.present, same ▸ h.lookup⟩

/-- The files of a package that is woven without failures are woven the same in a run that is
alike, if they can be written there. -/
private theorem weaveAll_repeats (alike : Alike i w j v) (steady : Steady i w sources)
    (steady' : Steady j v sources) {files : List SourceFile} {types : PackageTypes}
    {lists : List (List Aspect)}
    (parsed : sources.mapM (fun source => SourceFile.parse source.1 source.2) = .ok files)
    {o : Outcome} (run : (i.weaveAll false sources files types lists).Yields w o w')
    (clean : o.failures = [])
    (writable : ∀ e ∈ (entryOf o).files.entries, j.Writable v.disk e.1 e.2.contents) :
    ∃ o' v', (j.weaveAll false sources files types lists).Yields v o' v' ∧ o'.failures = [] ∧
      entryOf o' = entryOf o := by
  rw [weaveAll_eq_finish] at run ⊢
  -- The contributions of both runs are those of the workers alone.
  obtain ⟨after, contributed⟩ := yields_mapM_of_perm types steady.present parsed steady.lookup
    (List.Perm.refl (jobs sources files lists))
  obtain ⟨after', contributed'⟩ := yields_mapM_of_perm types steady'.present parsed steady'.lookup
    (List.Perm.refl (jobs sources files lists))
  obtain ⟨-, rfl, -⟩ := (yields_finish_iff types contributed).1 run
  have apart := (steady.distinct.sublist (path_sublist_of_parse parsed lists)).sublist
    (path_sublist_of_yields contributed)
  rw [failures_foldl_addTo] at clean
  have repeated : List.Forall₂ Repeats ((jobs sources files lists).map (i.sole types w))
      ((jobs sources files lists).map (j.sole types v)) := by
    rw [List.forall₂_map_left_iff, List.forall₂_map_right_iff, List.forall₂_same]
    intro job hj
    have listed := List.mem_map_of_mem (f := i.sole types w) hj
    refine sole_repeats alike types job ?_ fun entry added => ?_
    · exact List.filterMap_eq_nil_iff.1 (List.append_eq_nil_iff.1 clean).2 _ listed
    · exact writable _ (mem_entryOf_of_added? apart listed added)
  have clean' := failure?_eq_none_of_repeats repeated
  have sum : (((jobs sources files lists).map (j.sole types v)).foldl Contribution.addTo
      .empty).failures = [] := by
    rw [failures_foldl_addTo, clean']
    rfl
  have going : fatal? (((jobs sources files lists).map (j.sole types v)).foldl
      Contribution.addTo .empty) = none := by
    rw [fatal?, sum]
    rfl
  exact ⟨_, after', (yields_finish_iff types contributed').2 ⟨going, rfl, rfl⟩, sum,
    entryOf_foldl_addTo repeated rfl⟩

/-- Sources that are woven without failures are woven the same in a run that is alike, if the files
can be written there. -/
theorem weaveRead_repeats (alike : Alike i w j v) (steady : Steady i w sources)
    (steady' : Steady j v sources) {aspects : List Aspect} {o : Outcome}
    (run : (i.weaveRead sources aspects).Yields w o w') (clean : o.failures = [])
    (writable : ∀ e ∈ (entryOf o).files.entries, j.Writable v.disk e.1 e.2.contents) :
    ∃ o' v', (j.weaveRead sources aspects).Yields v o' v' ∧ o'.failures = [] ∧
      entryOf o' = entryOf o := by
  have aspectsOf : j.packageAspects aspects = i.packageAspects aspects := by
    unfold packageAspects isInternal facts
    rw [alike.config]
  have listsOf : j.perFile? sources (i.packageAspects aspects) =
      i.perFile? sources (i.packageAspects aspects) := by
    unfold perFile? fileAspects
    rw [alike.config]
  unfold weaveRead at run ⊢
  rw [aspectsOf]
  split at run
  · rename_i idle
    rw [if_pos idle]
    obtain ⟨rfl, -⟩ := yields_pure.1 run
    exact ⟨_, v, yields_pure.2 ⟨rfl, rfl⟩, rfl, rfl⟩
  · rename_i given
    rw [if_neg given, injectSources_eq_weaveGiven, listsOf]
    rw [injectSources_eq_weaveGiven] at run
    cases lists : i.perFile? sources (i.packageAspects aspects) with
    | none =>
      rw [lists] at run
      obtain ⟨rfl, -⟩ := yields_pure.1 run
      exact ⟨_, v, yields_pure.2 ⟨rfl, rfl⟩, rfl, rfl⟩
    | some lists' =>
      rw [lists] at run
      dsimp only at run ⊢
      -- Both runs go the same way: they parse the same sources and check them alike.
      rcases yields_weaveGiven_iff.1 run with
        ⟨fault, unparsed, rfl, -⟩ | ⟨files, between, parsed, h⟩
      · exact ⟨_, v, yields_weaveGiven_iff.2 (.inl ⟨fault, unparsed, rfl, rfl⟩), rfl, rfl⟩
      rcases h with ⟨unchecked, rfl, -⟩ | ⟨types, checked, wove⟩
      · obtain ⟨v', unchecked', -, -⟩ := alike.typesOf unchecked
        exact ⟨_, v', yields_weaveGiven_iff.2
          (.inr ⟨files, v', parsed, .inl ⟨unchecked', rfl, rfl⟩⟩), rfl, rfl⟩
      · obtain ⟨v', checked', disk, alike'⟩ := alike.typesOf checked
        obtain ⟨o', last, wove', clean', same⟩ := weaveAll_repeats alike'
          (steady.of_disk_eq (yields_typesOf checked).1) (steady'.of_disk_eq disk) parsed wove clean
          (disk ▸ writable)
        exact ⟨o', last, yields_weaveGiven_iff.2
          (.inr ⟨files, v', parsed, .inr ⟨types, checked', wove'⟩⟩), clean', same⟩

/-! ## Restoring -/

/-- What is restored without failures can be written. -/
private theorem writable_of_restored {paths : List Text}
    (present : ∀ path ∈ paths, ∃ bytes, w.disk.read path = .ok bytes)
    {l : List (Text × CachedFile)} (listed : ∀ e ∈ l, e.1 ∈ paths)
    (grown : Grown paths i.config.outputDir w.disk v.disk) {cs : List Contribution}
    (run : (l.mapM i.restoreOne).Yields v cs w')
    (clean : cs.filterMap Contribution.failure? = []) :
    ∀ e ∈ l, i.Writable w.disk e.1 e.2.contents := by
  -- Each entry is written on a disk that other woven files have been written on.
  induction l generalizing v cs with
  | nil => exact fun _ he => absurd he List.not_mem_nil
  | cons e l ih =>
    obtain ⟨c, rest, between, first, others, rfl⟩ := yields_mapM_cons.1 run
    obtain ⟨here, there⟩ := List.forall_mem_cons.1 listed
    obtain ⟨path, file⟩ := e
    unfold restoreOne write Injecting.Yields at first
    dsimp only at first
    rw [on_tryCatch, on_bind, on_bind, on_get] at first
    dsimp only at first
    cases written : v.disk.writeWoven path i.config.outputDir file.contents with
    | error failure =>
      rw [written] at first
      cases first
      exact absurd clean (List.cons_ne_nil _ _)
    | ok result =>
      rw [written] at first
      cases first
      obtain ⟨bytes, read⟩ := present path here
      have same := grown.writeWoven read file.contents
      rw [written] at same
      refine List.forall_mem_cons.2 ⟨?_, ih there ?_ others clean⟩
      · unfold Writable
        cases written' : w.disk.writeWoven path i.config.outputDir file.contents with
        | error failure =>
          rw [written'] at same
          cases same
        | ok result' => exact ⟨result', rfl⟩
      · exact .write grown here written

/-- The entries of a result that is restored without failures can be written. -/
theorem writable_of_restore {paths : List Text}
    (present : ∀ path ∈ paths, ∃ bytes, w.disk.read path = .ok bytes) {entry : CacheEntry}
    (listed : ∀ e ∈ entry.files.entries, e.1 ∈ paths) {o : Outcome}
    (run : (i.restore entry).Yields w o w') (clean : o.failures = []) :
    ∀ e ∈ entry.files.entries, i.Writable w.disk e.1 e.2.contents := by
  obtain ⟨cs, last, restored, h⟩ := yields_bind.1 run
  obtain ⟨rfl, -⟩ := yields_pure.1 h
  rw [failures_foldl_addTo] at clean
  exact writable_of_restored present listed .start restored (List.append_eq_nil_iff.1 clean).2

end Injector

end Interlace
