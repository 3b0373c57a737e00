import Interlace.Proofs.DiskRecord
import Interlace.Proofs.ImportMemory
import Interlace.Proofs.Targets
import Mathlib.Data.List.Nodup

/-!
# The order of the workers

The workers of a package share the disk and the memory of the importer, and their contributions are
added up in the order in which they finish. A worker that runs after others contributes what it
would contribute alone: files that others wrote do not keep it from writing, and the memory of the
importer gives the answers that it gave before. So the outcome is a sum over the files of what each
worker contributes alone, and no order of the workers changes it.

## Key results

- `Injector.Grown`: the disks that come about while the files of a package are written
- `Injector.workFor_after`: a worker contributes after others what it contributes alone
- `Injector.yields_mapM_sole`: so do the workers of any number of jobs
- `Injector.finish_order`: the outcome does not depend on the order of the workers
-/

namespace Interlace

open Injecting

/-! ## Newest versions -/

namespace Version

theorem le_refl (v : Version) : v.le v := by simp [le]

theorem le_trans {a b c : Version} (h : a.le b) (h' : b.le c) : a.le c := by
  simp only [le, Bool.or_eq_true, Bool.and_eq_true, decide_eq_true_eq] at *
  omega

private theorem le_of_not_le {a b : Version} (h : ¬ a.le b) : b.le a := by
  simp only [le, Bool.or_eq_true, Bool.and_eq_true, decide_eq_true_eq] at *
  omega

theorem le_antisymm {a b : Version} (h : a.le b) (h' : b.le a) : a = b := by
  simp only [le, Bool.or_eq_true, Bool.and_eq_true, decide_eq_true_eq] at *
  obtain ⟨major, minor⟩ := a
  obtain ⟨major', minor'⟩ := b
  simp only [Version.mk.injEq]
  dsimp only at h h'
  omega

/-- The newest of some versions; nothing if there are none. -/
def IsNewest (versions : List Version) : Option Version → Prop
  | none => versions = []
  | some v => v ∈ versions ∧ ∀ u ∈ versions, u.le v

theorem IsNewest.perm {versions versions' : List Version} {v : Option Version}
    (h : IsNewest versions v) (same : versions.Perm versions') : IsNewest versions' v := by
  cases v with
  | none =>
    cases h
    exact List.nil_perm.1 same
  | some v => exact ⟨same.subset h.1, fun u hu => h.2 u (same.symm.subset hu)⟩

/-- There is one newest version. -/
theorem IsNewest.unique {versions : List Version} {v v' : Option Version}
    (h : IsNewest versions v) (h' : IsNewest versions v') : v = v' := by
  -- None is the newest only of no versions.
  cases v with
  | none =>
    cases h
    cases v' with
    | none => rfl
    | some v' => exact absurd h'.1 List.not_mem_nil
  | some v =>
    cases v' with
    | none =>
      cases h'
      exact absurd h.1 List.not_mem_nil
    | some v' => exact congrArg some (le_antisymm (h'.2 v h.1) (h.2 v' h'.1))

/-- Raising a version to others in turn gives the newest. -/
private theorem isNewest_foldl_raise (versions before : List Version) {current : Option Version}
    (h : IsNewest before current) :
    IsNewest (before ++ versions) (versions.foldl raise current) := by
  -- The induction is on the versions that are left; those before count as seen.
  induction versions generalizing before current with
  | nil => rwa [List.append_nil]
  | cons v versions ih =>
    have step : IsNewest (before ++ [v]) (raise current v) := by
      cases current with
      | none =>
        cases h
        exact ⟨List.mem_cons_self, by simp [le_refl]⟩
      | some u =>
        rw [raise]
        split
        · rename_i older
          refine ⟨List.mem_append_left _ h.1, fun other listed => ?_⟩
          rcases List.mem_append.1 listed with earlier | here
          · exact h.2 other earlier
          · rwa [List.mem_singleton.1 here]
        · rename_i newer
          refine ⟨List.mem_append_right _ List.mem_cons_self, fun other listed => ?_⟩
          rcases List.mem_append.1 listed with earlier | here
          · exact le_trans (h.2 other earlier) (le_of_not_le newer)
          · rw [List.mem_singleton.1 here]
            exact le_refl v
    rw [List.append_cons]
    exact ih _ step

end Version

namespace Injector

/-! ## Sums of contributions -/

/-- The version that a worker contributes with a woven file, if any. -/
def Contribution.version? : Contribution → Option Version
  | woven _ _ version => version
  | _ => none

private theorem version_foldl_addTo (contributions : List Contribution) (o : Outcome) :
    (contributions.foldl Contribution.addTo o).version =
      (contributions.filterMap Contribution.version?).foldl Version.raise o.version := by
  induction contributions generalizing o with
  | nil => rfl
  | cons c rest ih =>
    rw [List.foldl_cons, ih]
    cases c with
    | nothing | failed _ => rfl
    | woven path file version => cases version <;> rfl

/-- The version of a sum of contributions is the newest contributed. -/
private theorem isNewest_version (contributions : List Contribution) :
    Version.IsNewest (contributions.filterMap Contribution.version?)
      (contributions.foldl Contribution.addTo .empty).version := by
  rw [version_foldl_addTo]
  exact Version.isNewest_foldl_raise _ [] rfl

/-- A sum of contributions ends the run iff one of them does. -/
theorem fatal?_eq_none_iff (contributions : List Contribution) :
    fatal? (contributions.foldl Contribution.addTo .empty) = none ↔
      ∀ c ∈ contributions, ∀ failure ∈ c.failure?, failure.isFatal = false := by
  unfold fatal?
  rw [failures_foldl_addTo, List.find?_eq_none]
  simp only [Outcome.empty, List.nil_append, List.mem_filterMap, Bool.not_eq_true]
  constructor
  · intro h c hc failure failed
    exact h failure ⟨c, hc, failed⟩
  · rintro h failure ⟨c, hc, failed⟩
    exact h c hc failure failed

/-! ## Workers after others -/

variable {i : Injector} (types : PackageTypes) {w w' : World} {paths : List Text}

/-- The disks that come about while woven files of a package are written. -/
inductive Grown (paths : List Text) (outputDir : Option Text) (d : Disk) : Disk → Prop where
  | start : Grown paths outputDir d d
  | write {d' d'' : Disk} {path text target : Text} : Grown paths outputDir d d' → path ∈ paths →
      d'.writeWoven path outputDir text = .ok (target, d'') → Grown paths outputDir d d''

/-- Sources that can be read at first can be read all the time. -/
theorem Grown.read {outputDir : Option Text} {d d' : Disk} (h : Grown paths outputDir d d')
    {path bytes : Text} (found : d.read path = .ok bytes) : ∃ later, d'.read path = .ok later := by
  induction h with
  | start => exact ⟨bytes, found⟩
  | write _ _ written ih =>
    obtain ⟨between, found⟩ := ih
    obtain ⟨_, -, -, changes⟩ := Disk.writeWoven_changes written
    exact Disk.read_of_changes changes found

/-- Whether and where a woven file can be written does not depend on the other files that were. -/
theorem Grown.writeWoven {outputDir : Option Text} {d d' : Disk} (h : Grown paths outputDir d d')
    {path bytes : Text} (found : d.read path = .ok bytes) (text : Text) :
    (d'.writeWoven path outputDir text).map Prod.fst =
      (d.writeWoven path outputDir text).map Prod.fst := by
  cases outputDir with
  | none =>
    -- The source itself is overwritten, before as after.
    obtain ⟨later, found'⟩ := h.read found
    rw [Disk.writeWoven_of_read found, Disk.writeWoven_of_read found']
  | some directory =>
    induction h with
    | start => rfl
    | write _ _ written ih => rw [Disk.writeWoven_after written, ih]

/-- What is delivered depends on the disk through where it can be written. -/
private theorem deliver_congr {s : Scene} {d d' : Disk}
    (same : ∀ text, (d'.writeWoven s.file.path i.config.outputDir text).map Prod.fst =
      (d.writeWoven s.file.path i.config.outputDir text).map Prod.fst)
    (lead : Text) (woven : WovenFile) :
    (i.deliver s lead woven d').1 = (i.deliver s lead woven d).1 := by
  unfold deliver
  cases woven.text with
  | none => rfl
  | some text =>
    have here := same (i.contentsOf lead text)
    dsimp only
    generalize d.writeWoven s.file.path i.config.outputDir (i.contentsOf lead text) = r at here ⊢
    generalize d'.writeWoven s.file.path i.config.outputDir (i.contentsOf lead text) = r' at here ⊢
    rcases r with failure | ⟨target, later⟩ <;> rcases r' with failure' | ⟨target', later'⟩ <;>
      cases here <;> rfl

/-- What the worker of a job contributes if it is the only one that runs. -/
def sole (i : Injector) (types : PackageTypes) (w : World) (job : Job) : Contribution :=
  match (on (i.workFor false types job) w).1 with
  | .ok contribution => contribution
  | .error failure => .failed failure

/-- How a world looks to a worker when others have run before: some of the files are written, and
the importer gives the answers that it gave. -/
structure Later (i : Injector) (paths : List Text) (w w' : World) : Prop where
  grown : Grown paths i.config.outputDir w.disk w'.disk
  agree : Importer.Agree ⟨i.lookup w.disk, false⟩ w.imports w'.imports

/-- A worker contributes after others what it contributes alone, and the world looks to the next
worker as it did before. -/
theorem workFor_after (later : Later i paths w w')
    (steady : ∀ disk, Grown paths i.config.outputDir w.disk disk → i.lookup disk = i.lookup w.disk)
    (present : ∀ path ∈ paths, ∃ bytes, w.disk.read path = .ok bytes) {job : Job}
    (listed : job.path ∈ paths) :
    ∃ after, (i.workFor false types job).Yields w' (i.sole types w job) after ∧
      Later i paths w after := by
  obtain ⟨⟨file, ⟨path, bytes⟩, aspects⟩, index⟩ := job
  obtain ⟨found, read⟩ := present file.path listed
  unfold sole workFor Injecting.Yields
  rw [on_work, on_work]
  by_cases idle : aspects.isEmpty
  · rw [if_pos idle, if_pos idle]
    exact ⟨w', rfl, later⟩
  · rw [if_neg idle, if_neg idle, steady w'.disk later.grown]
    simp only [Bool.false_eq_true, ↓reduceIte]
    generalize hs : (⟨file, index, types, _⟩ : Scene) = s
    generalize List.take _ bytes = lead
    have located : s.file.path = file.path := by rw [← hs]
    have transparent := Weave.file_transparent ⟨i.lookup w.disk, false⟩ s aspects i.config.lines
    have same := transparent.result w.imports w'.imports later.agree
    have kept := later.agree.trans (transparent.kept w'.imports)
    generalize (Weave.file s aspects ⟨i.lookup w.disk, false⟩ i.config.lines).run.run w.imports = r
      at same ⊢
    generalize (Weave.file s aspects ⟨i.lookup w.disk, false⟩ i.config.lines).run.run w'.imports =
      r' at same kept ⊢
    obtain ⟨value, imports⟩ := r
    obtain ⟨value', imports'⟩ := r'
    cases same
    cases value with
    | error failure => exact ⟨_, rfl, later.grown, kept⟩
    | ok woven =>
      have contributed := deliver_congr (i := i) (s := s)
        (fun text => later.grown.writeWoven (located ▸ read) text) lead woven
      dsimp only
      rw [contributed]
      refine ⟨_, rfl, ?_, kept⟩
      -- The disk is as it was, or the file of this job was written.
      rcases deliver_cases i s lead woven w'.disk with ⟨-, unchanged⟩ | ⟨written, -, wrote⟩
      · dsimp only
        rw [unchanged]
        exact later.grown
      · exact .write later.grown (located ▸ listed) wrote

/-- The workers of any number of jobs contribute what each contributes alone. -/
theorem yields_mapM_sole (later : Later i paths w w')
    (steady : ∀ disk, Grown paths i.config.outputDir w.disk disk → i.lookup disk = i.lookup w.disk)
    (present : ∀ path ∈ paths, ∃ bytes, w.disk.read path = .ok bytes) {order : List Job}
    (listed : ∀ job ∈ order, job.path ∈ paths) :
    ∃ after, (order.mapM (i.workFor false types)).Yields w' (order.map (i.sole types w)) after := by
  induction order generalizing w' with
  | nil => exact ⟨w', yields_mapM_nil.2 ⟨rfl, rfl⟩⟩
  | cons job order ih =>
    obtain ⟨between, first, next⟩ :=
      workFor_after types later steady present (listed job List.mem_cons_self)
    obtain ⟨after, rest⟩ := ih next fun j hj => listed j (List.mem_cons_of_mem job hj)
    exact ⟨after, yields_mapM_cons.2 ⟨_, _, between, first, rest, rfl⟩⟩

/-! ## Any order -/

section

variable {sources : List (Text × Text)} {files : List SourceFile} {lists : List (List Aspect)}

/-- The outcome is the sum of the contributions, unless one of them ends the run. -/
theorem yields_finish_iff {cancelled : Bool} {order : List Job} {contributions : List Contribution}
    {after : World}
    (run : (order.mapM (i.workFor cancelled types)).Yields w contributions after) {o : Outcome} :
    (i.finish cancelled types order).Yields w o w' ↔
      fatal? (contributions.foldl Contribution.addTo .empty) = none ∧
        contributions.foldl Contribution.addTo .empty = o ∧ after = w' := by
  unfold finish Injecting.Yields
  rw [on_bind, run]
  exact yields_conclude

/-- The workers of a package contribute in any order what each contributes alone. -/
theorem yields_mapM_of_perm
    (present : ∀ source ∈ sources, w.disk.read source.1 = .ok source.2)
    (parsed : sources.mapM (fun source => SourceFile.parse source.1 source.2) = .ok files)
    (steady : ∀ disk, Grown (sources.map Prod.fst) i.config.outputDir w.disk disk →
      i.lookup disk = i.lookup w.disk)
    {order : List Job} (arranged : order.Perm (jobs sources files lists)) :
    ∃ after, (order.mapM (i.workFor false types)).Yields w (order.map (i.sole types w)) after := by
  have now : Later i (sources.map Prod.fst) w w := ⟨.start, fun _ => rfl⟩
  refine yields_mapM_sole types now steady ?_ ?_
  · intro path listed
    obtain ⟨source, hs, rfl⟩ := List.mem_map.1 listed
    exact ⟨source.2, present source hs⟩
  · intro job hj
    exact (path_sublist_of_parse parsed lists).subset (List.mem_map_of_mem (arranged.subset hj))

private theorem yields_sole (job : Job) :
    ∃ after, (i.workFor false types job).Yields w (i.sole types w job) after := by
  obtain ⟨⟨file, ⟨path, bytes⟩, aspects⟩, index⟩ := job
  unfold sole workFor Injecting.Yields
  rw [on_work]
  split
  · exact ⟨_, rfl⟩
  · simp only [Bool.false_eq_true, ↓reduceIte]
    split <;> exact ⟨_, rfl⟩

/-- A worker contributes no file but that of its job. -/
private theorem path_of_added?_sole {job : Job} {entry : Text × InjectedFile}
    (h : (i.sole types w job).added? = some entry) : entry.1 = job.path := by
  obtain ⟨after, run⟩ := yields_sole (i := i) types (w := w) job
  rcases yields_work run with ⟨nothing, -⟩ | ⟨file, found, -⟩
  · rw [nothing] at h
    cases h
  · rw [found] at h
    cases h
    rfl

/-- A job has the entry that its worker contributes, if any. -/
private theorem get?_files_sole {order : List Job} (distinct : (order.map Job.path).Nodup)
    (apart : (((order.map (i.sole types w)).filterMap Contribution.added?).map Prod.fst).Nodup)
    {job : Job} (hj : job ∈ order) :
    ((order.map (i.sole types w)).foldl Contribution.addTo .empty).files.get? job.path =
      (i.sole types w job).added?.map Prod.snd := by
  refine Option.ext fun file => ?_
  rw [← Dict.mem_entries_iff, mem_entries_foldl_addTo apart, Option.map_eq_some_iff]
  simp only [List.filterMap_map, List.mem_filterMap, Function.comp_apply]
  constructor
  · rintro ⟨other, ho, found⟩
    -- Jobs with one path are one job.
    have path : job.path = other.path := path_of_added?_sole types found
    have same := List.inj_on_of_nodup_map distinct hj ho path
    subst same
    exact ⟨_, found, rfl⟩
  · rintro ⟨entry, found, rfl⟩
    refine ⟨job, hj, ?_⟩
    rw [found, ← path_of_added?_sole types found]

/-- Contributions of distinct files make the same files in any order. -/
private theorem files_foldl_addTo_of_perm {contributions contributions' : List Contribution}
    (same : contributions.Perm contributions')
    (apart : ((contributions.filterMap Contribution.added?).map Prod.fst).Nodup) :
    (contributions.foldl Contribution.addTo .empty).files =
      (contributions'.foldl Contribution.addTo .empty).files := by
  have entries := same.filterMap Contribution.added?
  have apart' : ((contributions'.filterMap Contribution.added?).map Prod.fst).Nodup :=
    (entries.map Prod.fst).nodup_iff.1 apart
  refine Dict.ext_get? fun key => Option.ext fun file => ?_
  rw [← Dict.mem_entries_iff, ← Dict.mem_entries_iff, mem_entries_foldl_addTo apart,
    mem_entries_foldl_addTo apart']
  exact entries.mem_iff

/-- Two orders of the workers come to the same, and to what each worker contributes alone. -/
private theorem finish_perm (distinct : (sources.map Prod.fst).Nodup)
    (present : ∀ source ∈ sources, w.disk.read source.1 = .ok source.2)
    (parsed : sources.mapM (fun source => SourceFile.parse source.1 source.2) = .ok files)
    (steady : ∀ disk, Grown (sources.map Prod.fst) i.config.outputDir w.disk disk →
      i.lookup disk = i.lookup w.disk)
    {order order' : List Job} (arranged : order.Perm (jobs sources files lists))
    (arranged' : order'.Perm (jobs sources files lists)) :
    ((∃ o after, (i.finish false types order).Yields w o after) ↔
      ∃ o after, (i.finish false types order').Yields w o after) ∧
    ∀ o after o' after', (i.finish false types order).Yields w o after →
      (i.finish false types order').Yields w o' after' →
        (o.files = o'.files ∧ o.version = o'.version ∧ o.failures.Perm o'.failures) ∧
        Version.IsNewest ((jobs sources files lists).filterMap fun job =>
          (i.sole types w job).version?) o.version ∧
        (∀ job ∈ jobs sources files lists,
          o.files.get? job.path = (i.sole types w job).added?.map Prod.snd) ∧
        o.failures.Perm ((jobs sources files lists).filterMap fun job =>
          (i.sole types w job).failure?) := by
  -- In either order a worker contributes what it does alone, so the contributions are permuted.
  obtain ⟨last, run⟩ := yields_mapM_of_perm types present parsed steady arranged
  obtain ⟨last', run'⟩ := yields_mapM_of_perm types present parsed steady arranged'
  have same : (order.map (i.sole types w)).Perm (order'.map (i.sole types w)) :=
    (arranged.trans arranged'.symm).map _
  refine ⟨?_, ?_⟩
  · have fatal : fatal? ((order.map (i.sole types w)).foldl Contribution.addTo .empty) = none ↔
        fatal? ((order'.map (i.sole types w)).foldl Contribution.addTo .empty) = none := by
      rw [fatal?_eq_none_iff, fatal?_eq_none_iff]
      exact forall_congr' fun c => by rw [same.mem_iff]
    simp only [yields_finish_iff types run, yields_finish_iff types run', fatal]
    simp only [exists_and_left, exists_eq', and_true]
  · intro o after o' after' done done'
    obtain ⟨-, rfl, -⟩ := (yields_finish_iff types run).1 done
    obtain ⟨-, rfl, -⟩ := (yields_finish_iff types run').1 done'
    have paths : (order.map Job.path).Nodup :=
      (arranged.map _).nodup_iff.2 (distinct.sublist (path_sublist_of_parse parsed lists))
    have apart := paths.sublist (path_sublist_of_yields run)
    have newest := isNewest_version (order.map (i.sole types w))
    refine ⟨⟨files_foldl_addTo_of_perm same apart, ?_, ?_⟩, ?_, ?_, ?_⟩
    · exact (newest.perm (same.filterMap _)).unique (isNewest_version _)
    · rw [failures_foldl_addTo, failures_foldl_addTo]
      exact (same.filterMap _).append_left _
    · rw [List.filterMap_map] at newest
      exact newest.perm (arranged.filterMap _)
    · intro job hj
      exact get?_files_sole types paths apart (arranged.symm.subset hj)
    · rw [failures_foldl_addTo, List.filterMap_map]
      exact arranged.filterMap _

/-- The outcome of a package does not depend on the order in which its workers finish: whether the
run ends with a failure, the woven files, the version and the failures are the same up to the order
of the failures. The version is the newest of those contributed with files, and every file has the
entry or the failure that it has when its worker is the only one. So weaving the files one after the
other comes to what any order of the workers comes to. -/
theorem finish_order (distinct : (sources.map Prod.fst).Nodup)
    (present : ∀ source ∈ sources, w.disk.read source.1 = .ok source.2)
    (parsed : sources.mapM (fun source => SourceFile.parse source.1 source.2) = .ok files)
    (steady : ∀ disk, Grown (sources.map Prod.fst) i.config.outputDir w.disk disk →
      i.lookup disk = i.lookup w.disk)
    {order order' : List Job} (arranged : order.Perm (jobs sources files lists))
    (arranged' : order'.Perm (jobs sources files lists)) :
    (((∃ o after, (i.finish false types order).Yields w o after) ↔
      ∃ o after, (i.finish false types order').Yields w o after) ∧
    ∀ o after o' after', (i.finish false types order).Yields w o after →
      (i.finish false types order').Yields w o' after' →
        (o.files = o'.files ∧ o.version = o'.version ∧ o.failures.Perm o'.failures) ∧
        Version.IsNewest ((jobs sources files lists).filterMap fun job =>
          (i.sole types w job).version?) o.version ∧
        (∀ job ∈ jobs sources files lists,
          o.files.get? job.path = (i.sole types w job).added?.map Prod.snd) ∧
        o.failures.Perm ((jobs sources files lists).filterMap fun job =>
          (i.sole types w job).failure?)) ∧
    ((∃ o after, (i.weaveAll false sources files types lists).Yields w o after) ↔
      ∃ o after, (i.finish false types order).Yields w o after) ∧
    ∀ o after o' after', (i.weaveAll false sources files types lists).Yields w o after →
      (i.finish false types order).Yields w o' after' →
        o.files = o'.files ∧ o.version = o'.version ∧ o.failures.Perm o'.failures := by
  refine ⟨finish_perm types distinct present parsed steady arranged arranged', ?_⟩
  rw [weaveAll_eq_finish]
  obtain ⟨ends, same⟩ := finish_perm types distinct present parsed steady (.refl _) arranged
  exact ⟨ends, fun o after o' after' done done' => (same o after o' after' done done').1⟩

end

/-- The sources of two files that are both woven. -/
def twoSources : List (Text × Text) :=
  [("a/x.go", handling "f"), ("b/y.go", handling "g")]

/-- Two workers that finish in either order weave the same two files. -/
theorem finish_order_reversed :
    ∃ files types w o after o' after',
      (intoFolder.finish false types
        (jobs twoSources files [builtinAspects, builtinAspects])).Yields w o after ∧
      (intoFolder.finish false types
        (jobs twoSources files [builtinAspects, builtinAspects]).reverse).Yields w o' after' ∧
      o.files.entries.length = 2 ∧ o.files = o'.files := by
  have woven : ∃ outcome after,
      (intoFolder.weaveGiven false twoSources [builtinAspects, builtinAspects]).Yields
        (inFolders "x.go" "y.go") outcome after ∧ decide (outcome.files.entries.length = 2) :=
    exists_yields_of_any (by decide +kernel)
  have read : twoSources.all fun source =>
      decide (((inFolders "x.go" "y.go").disk.read source.1).toOption = some source.2) := by
    decide +kernel
  obtain ⟨o, after, run, two⟩ := woven
  have two := of_decide_eq_true two
  -- Something is woven, so the files were parsed and the types were found.
  rcases yields_weaveGiven_iff.1 run with ⟨_, -, rfl, -⟩ | ⟨files, w, parsed, checked⟩
  · cases two
  rcases checked with ⟨-, rfl, -⟩ | ⟨types, typed, run⟩
  · cases two
  have present : ∀ source ∈ twoSources, w.disk.read source.1 = .ok source.2 := by
    intro source hs
    rw [(yields_typesOf typed).1]
    exact toOption_eq_some_iff.1 (of_decide_eq_true (List.all_eq_true.1 read source hs))
  have order := finish_order types (i := intoFolder) (by decide) present parsed (fun _ _ => rfl)
    (List.Perm.refl (jobs twoSources files [builtinAspects, builtinAspects])) (List.reverse_perm _)
  obtain ⟨o', after', run'⟩ := order.1.1.1 ⟨o, after, run⟩
  exact ⟨files, types, w, o, after, o', after', run, run', two,
    (order.1.2 o after o' after' run run').1.1⟩

end Injector

end Interlace
