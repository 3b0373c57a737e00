import Interlace.Proofs.FileFilter
import Interlace.Proofs.Writing

/-!
# The workers of a package

Every file of a package has a worker, which contributes a woven file, nothing or a failure. A worker
that weaves its file writes it in one step, and any other leaves the disk as it is. The outcome of
the package is the sum of the contributions.

## Key results

- `Injector.on_work`: what a worker does
- `Injector.yields_work`: a worker changes the disk only by writing the file that it contributes
- `Injector.weaveAll_eq_finish`: weaving a package runs its workers and adds their contributions up
- `Injector.mem_entries_foldl_addTo`: the files of a sum of contributions are those contributed
-/

namespace Interlace

open Injecting

namespace Injecting

variable {α β : Type} {f : α → Injecting β} {w w' : World}

/-- What a run computes tells which value and world it comes to. -/
theorem exists_yields_of_any {x : Injecting α} {p : α → World → Bool}
    (h : (x.on w).1.toOption.any fun a => p a (x.on w).2) :
    ∃ a w', x.Yields w a w' ∧ p a w' := by
  obtain ⟨a, done, fact⟩ := (Option.any_eq_true _ _).1 h
  exact ⟨a, (x.on w).2, Prod.ext (toOption_eq_some_iff.1 done) rfl, fact⟩

theorem yields_mapM_nil {bs : List β} :
    Yields (([] : List α).mapM f) w bs w' ↔ bs = [] ∧ w' = w := by
  rw [List.mapM_nil, yields_pure]
  exact and_congr eq_comm eq_comm

/-- Steps for a list are a step for its head and then steps for its tail. -/
theorem yields_mapM_cons {a : α} {l : List α} {bs : List β} :
    Yields ((a :: l).mapM f) w bs w' ↔ ∃ b rest between, Yields (f a) w b between ∧
      Yields (l.mapM f) between rest w' ∧ bs = b :: rest := by
  rw [List.mapM_cons, yields_bind]
  constructor
  · rintro ⟨b, between, first, h⟩
    obtain ⟨rest, last, others, h⟩ := yields_bind.1 h
    obtain ⟨rfl, rfl⟩ := yields_pure.1 h
    exact ⟨b, rest, between, first, others, rfl⟩
  · rintro ⟨b, rest, between, first, others, rfl⟩
    exact ⟨b, between, first, yields_bind.2 ⟨rest, w', others, yields_pure.2 ⟨rfl, rfl⟩⟩⟩

end Injecting

/-- After distinct keys are set, they have their values, and the others are as before. -/
theorem Dict.get?_foldl_insert {α : Type} {l : List (Text × α)} (distinct : (l.map Prod.fst).Nodup)
    (d : Dict α) {key : Text} {value : α} :
    (l.foldl (fun d e => d.insert e.1 e.2) d).get? key = some value ↔
      (key, value) ∈ l ∨ key ∉ l.map Prod.fst ∧ d.get? key = some value := by
  induction l generalizing d with
  | nil => simp
  | cons e l ih =>
    obtain ⟨fresh, rest⟩ := List.nodup_cons.1 distinct
    rw [List.foldl_cons, ih rest, Dict.get?_insert]
    by_cases same : e.1 = key
    · -- The key is set here and nowhere later.
      subst same
      have absent : (e.1, value) ∉ l := fun h => fresh (List.mem_map.2 ⟨_, h, rfl⟩)
      simp only [absent, fresh, if_true, List.map_cons, List.mem_cons, true_or, not_true]
      constructor
      · rintro (h | ⟨-, h⟩)
        · exact h.elim
        · cases h
          exact .inl (.inl rfl)
      · rintro ((h | h) | ⟨h, -⟩)
        · exact .inr ⟨not_false, congrArg (fun e => some e.2) h.symm⟩
        · exact h.elim
        · exact h.elim
    · have other : (key, value) ≠ e := fun h => same (congrArg Prod.fst h).symm
      simp [same, other, Ne.symm same]

/-- A parsed file has the path that it was parsed for. -/
private theorem SourceFile.path_of_parse {path bytes : Text} {file : SourceFile}
    (h : SourceFile.parse path bytes = .ok file) : file.path = path := by
  unfold parse at h
  split at h
  · cases h
  · unfold ofText at h
    dsimp only at h
    split at h
    · cases h
    · cases h
      rfl

namespace Injector

/-! ## One worker -/

section

variable {i : Injector} {cancelled : Bool} {s : Scene} {aspects : List Aspect} {lead : Text}
  {w w' : World}

/-- The woven file that a worker contributes, if any, with the path of its source. -/
def Contribution.added? : Contribution → Option (Text × InjectedFile)
  | woven path file _ => some (path, file)
  | _ => none

/-- What is written for a woven text. -/
def contentsOf (i : Injector) (lead text : Text) : Text :=
  if i.config.lines then text else lead ++ text

/-- What a worker does with a woven text. -/
def deliver (i : Injector) (s : Scene) (lead : Text) (woven : WovenFile) (disk : Disk) :
    Contribution × Disk :=
  match woven.text with
  | none => (.nothing, disk)
  | some text =>
    match disk.writeWoven s.file.path i.config.outputDir (i.contentsOf lead text) with
    | .error failure => (.failed failure, disk)
    | .ok (target, disk') =>
      (.woven s.file.path ⟨target, woven.references, i.contentsOf lead text⟩ woven.version, disk')

/-- A woven text changes the disk only by being written. -/
theorem deliver_cases (i : Injector) (s : Scene) (lead : Text) (woven : WovenFile) (disk : Disk) :
    ((i.deliver s lead woven disk).1.added? = none ∧ (i.deliver s lead woven disk).2 = disk) ∨
      ∃ file, (i.deliver s lead woven disk).1.added? = some (s.file.path, file) ∧
        disk.writeWoven s.file.path i.config.outputDir file.contents =
          .ok (file.target, (i.deliver s lead woven disk).2) := by
  unfold deliver
  cases woven.text with
  | none => exact .inl ⟨rfl, rfl⟩
  | some text =>
    dsimp only
    cases written : disk.writeWoven s.file.path i.config.outputDir (i.contentsOf lead text) with
    | error failure => exact .inl ⟨rfl, rfl⟩
    | ok result => exact .inr ⟨_, rfl, written⟩

/-- What a worker does. It always contributes something. -/
theorem on_work (i : Injector) (cancelled : Bool) (s : Scene) (aspects : List Aspect) (lead : Text)
    (w : World) :
    on (i.work cancelled s aspects lead) w =
      if aspects.isEmpty then (.ok .nothing, w)
      else if cancelled then (.ok (.failed .cancelled), w)
      else
        match (Weave.file s aspects ⟨i.lookup w.disk, cancelled⟩ i.config.lines).run.run
          w.imports with
        | (.error failure, imports) => (.ok (.failed failure), { w with imports := imports })
        | (.ok woven, imports) =>
          (.ok (i.deliver s lead woven w.disk).1,
            { w with disk := (i.deliver s lead woven w.disk).2, imports := imports }) := by
  unfold work weaveOne
  by_cases idle : aspects.isEmpty
  · rw [if_pos idle, if_pos idle]
    rfl
  · rw [if_neg idle, if_neg idle]
    cases cancelled with
    | true => rfl
    | false =>
      simp only [Bool.false_eq_true, ↓reduceIte]
      rw [on_tryCatch, on_bind, importer, on_bind, on_get]
      dsimp only [on_pure]
      rw [on_bind, on_importing]
      -- What the walk and the rendering come to decides what there is to write.
      rcases (Weave.file s aspects ⟨i.lookup w.disk, false⟩ i.config.lines).run.run w.imports
        with ⟨failure | woven, imports⟩
      · rfl
      · dsimp only
        unfold deliver
        cases woven.text with
        | none => rfl
        | some text =>
          dsimp only
          rw [on_bind, write, on_bind, on_get]
          dsimp only
          unfold contentsOf
          rcases w.disk.writeWoven s.file.path i.config.outputDir
            (if i.config.lines then text else lead ++ text) with failure | ⟨target, disk'⟩
          · rfl
          · rfl

/-- A worker changes the disk only by writing the file that it contributes. -/
theorem yields_work {c : Contribution} (h : (i.work cancelled s aspects lead).Yields w c w') :
    (c.added? = none ∧ w'.disk = w.disk) ∨ ∃ file, c.added? = some (s.file.path, file) ∧
      w.disk.writeWoven s.file.path i.config.outputDir file.contents =
        .ok (file.target, w'.disk) := by
  unfold Injecting.Yields at h
  rw [on_work] at h
  split at h
  · cases h
    exact .inl ⟨rfl, rfl⟩
  split at h
  · cases h
    exact .inl ⟨rfl, rfl⟩
  split at h
  · cases h
    exact .inl ⟨rfl, rfl⟩
  · cases h
    exact deliver_cases i s lead _ w.disk

end

/-! ## All workers -/

/-- A file to weave: the file, its source, the aspects it gets, and its position. -/
abbrev Job := (SourceFile × (Text × Text) × List Aspect) × Nat

/-- The work on a package. -/
def jobs (sources : List (Text × Text)) (files : List SourceFile) (lists : List (List Aspect)) :
    List Job :=
  (files.zip (sources.zip lists)).zipIdx

/-- The worker of a job. -/
def workFor (i : Injector) (cancelled : Bool) (types : PackageTypes) :
    Job → Injecting Contribution
  | ((file, (_, bytes), aspects), index) =>
    i.work cancelled
      ⟨file, index, types,
        ⟨i.config.importPath, types.packageName, i.config.testMain, i.config.settings⟩⟩
      aspects (bytes.take (bytes.length - file.source.length))

/-- The outcome of a package whose workers finish in the given order. -/
def finish (i : Injector) (cancelled : Bool) (types : PackageTypes) (order : List Job) :
    Injecting Outcome :=
  order.mapM (i.workFor cancelled types) >>= conclude

theorem weaveAll_eq_finish (i : Injector) (cancelled : Bool) (sources : List (Text × Text))
    (files : List SourceFile) (types : PackageTypes) (lists : List (List Aspect)) :
    i.weaveAll cancelled sources files types lists =
      i.finish cancelled types (jobs sources files lists) :=
  rfl

/-- The sum of contributions, unless one of them ends the run. -/
theorem yields_conclude {contributions : List Contribution} {outcome : Outcome} {w w' : World} :
    (conclude contributions).Yields w outcome w' ↔
      fatal? (contributions.foldl Contribution.addTo .empty) = none ∧
        contributions.foldl Contribution.addTo .empty = outcome ∧ w = w' := by
  unfold conclude
  cases fatal? (contributions.foldl Contribution.addTo .empty) with
  | some failure => simp [not_yields_throw]
  | none => simp [yields_pure]

/-- The path of the file that a job is about. -/
def Job.path (job : Job) : Text :=
  job.1.1.path

/-- The files of a package have the paths of its sources. -/
private theorem map_path_of_parse {sources : List (Text × Text)} {files : List SourceFile}
    (parsed : sources.mapM (fun source => SourceFile.parse source.1 source.2) = .ok files) :
    files.map SourceFile.path = sources.map Prod.fst := by
  have each := forall₂_of_mapM parsed
  clear parsed
  induction each with
  | nil => rfl
  | cons first _ ih => rw [List.map_cons, List.map_cons, ih, SourceFile.path_of_parse first]

theorem path_sublist_of_parse {sources : List (Text × Text)} {files : List SourceFile}
    (parsed : sources.mapM (fun source => SourceFile.parse source.1 source.2) = .ok files)
    (lists : List (List Aspect)) :
    ((jobs sources files lists).map Job.path).Sublist (sources.map Prod.fst) := by
  -- Zipping may drop jobs at the end and keeps the order.
  have zipped : ∀ (files : List SourceFile) (more : List ((Text × Text) × List Aspect)),
      ((files.zip more).map fun job => job.1.path).Sublist (files.map SourceFile.path) := by
    intro files
    induction files with
    | nil => exact fun _ => .slnil
    | cons file files ih =>
      intro more
      cases more with
      | nil => exact List.nil_sublist _
      | cons m more => exact (ih more).cons_cons _
  have same : (jobs sources files lists).map Job.path =
      (files.zip (sources.zip lists)).map fun job => job.1.path := by
    have first := congrArg (List.map fun job => job.1.path)
      (List.zipIdx_map_fst 0 (files.zip (sources.zip lists)))
    rwa [List.map_map] at first
  rw [same, ← map_path_of_parse parsed]
  exact zipped files _

/-- The paths of contributed files are those of the jobs that contributed them. -/
theorem path_sublist_of_yields {i : Injector} {cancelled : Bool} {types : PackageTypes}
    {order : List Job} {contributions : List Contribution} {w w' : World}
    (h : (order.mapM (i.workFor cancelled types)).Yields w contributions w') :
    ((contributions.filterMap Contribution.added?).map Prod.fst).Sublist
      (order.map Job.path) := by
  induction order generalizing w contributions with
  | nil =>
    obtain ⟨rfl, -⟩ := yields_mapM_nil.1 h
    exact .slnil
  | cons job order ih =>
    obtain ⟨c, rest, between, first, others, rfl⟩ := yields_mapM_cons.1 h
    rw [List.map_cons]
    -- A job contributes nothing or the file of its path.
    rcases yields_work first with ⟨nothing, -⟩ | ⟨file, entry, -⟩
    · rw [List.filterMap_cons_none nothing]
      exact (ih others).cons _
    · rw [List.filterMap_cons_some entry, List.map_cons]
      exact (ih others).cons_cons _

/-! ## Sums of contributions -/

private theorem files_foldl_addTo (contributions : List Contribution) (o : Outcome) :
    (contributions.foldl Contribution.addTo o).files =
      (contributions.filterMap Contribution.added?).foldl (fun d e => d.insert e.1 e.2)
        o.files := by
  induction contributions generalizing o with
  | nil => rfl
  | cons c rest ih =>
    rw [List.foldl_cons, ih]
    cases c with
    | nothing | failed _ | woven _ _ _ => rfl

/-- The files of a sum of contributions are those contributed. -/
theorem mem_entries_foldl_addTo {contributions : List Contribution}
    (distinct : ((contributions.filterMap Contribution.added?).map Prod.fst).Nodup)
    {e : Text × InjectedFile} :
    e ∈ (contributions.foldl Contribution.addTo .empty).files.entries ↔
      e ∈ contributions.filterMap Contribution.added? := by
  obtain ⟨path, file⟩ := e
  rw [Dict.mem_entries_iff, files_foldl_addTo, Dict.get?_foldl_insert distinct]
  simp [Outcome.empty]

end Injector

end Interlace
