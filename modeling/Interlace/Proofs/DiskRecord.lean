import Interlace.Proofs.CachedCalls
import Interlace.Proofs.Workers

/-!
# The outcome and the disk

An outcome lists the woven files with their targets and contents. Every worker finds its target from
the path of its own file, so two targets may name one location, and then the later file replaces the
earlier one. Where targets name one location only if their contents are the same, the disk holds
every file that the outcome lists. Nothing else is touched in any case.

## Key results

- `Disk.Records`: what a disk holds after files were written one after another
- `Injector.records_of_yields`: what the disk holds after the workers of a package
- `Injector.inject_recorded_iff`: when the disk holds the files of an outcome
-/

namespace Interlace

open Injecting

namespace Disk

/-! ## Files written one after another -/

/-- After files were written one after another, every target names a location with the contents of
a file that went there, and only these locations are touched. -/
structure Records (d : Disk) (written : List InjectedFile) (d' : Disk) : Prop where
  changes : Changes (fun location => ∃ f ∈ written, d'.locate f.target = .ok location) d d'
  held : ∀ f ∈ written, ∃ g ∈ written, ∃ location, d'.locate f.target = .ok location ∧
    d'.locate g.target = .ok location ∧ d'.get? location = some (.file g.contents)

namespace Records

variable {d d' d'' : Disk} {written : List InjectedFile}

theorem nil (d : Disk) : Records d [] d :=
  ⟨.refl _ d, nofun⟩

/-- One file, and then others. -/
theorem cons {path : Text} {outputDir : Option Text} {f : InjectedFile}
    (first : d.writeWoven path outputDir f.contents = .ok (f.target, d'))
    (rest : Records d' written d'') : Records d (f :: written) d'' := by
  obtain ⟨location, located, stands, changed⟩ := writeWoven_changes first
  have located'' := locate_of_changes rest.changes located
  refine ⟨?_, ?_⟩
  · have before : Changes (fun l => ∃ g ∈ f :: written, d''.locate g.target = .ok l) d d' :=
      changed.mono fun l here => ⟨f, List.mem_cons_self, here ▸ located''⟩
    refine before.trans (rest.changes.mono fun l => ?_)
    rintro ⟨g, hg, here⟩
    exact ⟨g, List.mem_cons_of_mem f hg, here⟩
  · intro g hg
    rcases List.mem_cons.1 hg with rfl | hg
    · by_cases again : ∃ h ∈ written, d''.locate h.target = .ok location
      · -- A later file went to the same location.
        obtain ⟨h, hh, same⟩ := again
        obtain ⟨last, hlast, place, found, found', contents⟩ := rest.held h hh
        rw [same] at found
        cases found
        exact ⟨last, List.mem_cons_of_mem g hlast, location, located'', found', contents⟩
      · refine ⟨g, List.mem_cons_self, location, located'', located'', ?_⟩
        rcases rest.changes.frame location again with same | ⟨absent, -⟩
        · rw [same, stands]
        · rw [stands] at absent
          cases absent
    · obtain ⟨last, hlast, held⟩ := rest.held g hg
      exact ⟨last, List.mem_cons_of_mem f hlast, held⟩

/-- The disk holds every written file iff files that went to one location have one contents. -/
theorem holds_iff (h : Records d written d') :
    (∀ f ∈ written, d'.read f.target = .ok f.contents) ↔
      ∀ f ∈ written, ∀ g ∈ written, d'.locate f.target = d'.locate g.target →
        f.contents = g.contents := by
  constructor
  · intro holds f hf g hg same
    have here := holds f hf
    have there := holds g hg
    unfold read lookup at here there
    rw [same, there] at here
    exact (Except.ok.inj here).symm
  · intro agree f hf
    obtain ⟨g, hg, location, located, located', stands⟩ := h.held f hf
    rw [agree f hf g hg (located.trans located'.symm)]
    exact read_of_locate located stands

end Records

end Disk

namespace Injector

variable {i : Injector} {cancelled : Bool} {types : PackageTypes} {w w' : World}

/-! ## Workers -/

/-- What the disk holds after the workers of a package. -/
theorem records_of_yields {order : List Job} {contributions : List Contribution}
    (h : (order.mapM (i.workFor cancelled types)).Yields w contributions w') :
    w.disk.Records ((contributions.filterMap Contribution.added?).map Prod.snd) w'.disk := by
  induction order generalizing w contributions with
  | nil =>
    obtain ⟨rfl, rfl⟩ := yields_mapM_nil.1 h
    exact .nil _
  | cons job order ih =>
    obtain ⟨c, rest, between, first, others, rfl⟩ := yields_mapM_cons.1 h
    rcases yields_work first with ⟨nothing, same⟩ | ⟨file, entry, written⟩
    · rw [List.filterMap_cons_none nothing, ← same]
      exact ih others
    · rw [List.filterMap_cons_some entry, List.map_cons]
      exact .cons written (ih others)

/-! ## Packages -/

private theorem readings_sublist (disk : Disk) (paths : List Text) :
    ((readings disk paths).map Prod.fst).Sublist paths := by
  unfold readings
  induction paths with
  | nil => exact .slnil
  | cons path paths ih =>
    rw [List.map_cons]
    cases disk.read path with
    | error fault => exact ih.cons _
    | ok bytes => exact ih.cons_cons _

/-- Files are read without a change, and with their paths. -/
private theorem yields_readSources {paths : List Text}
    {read : Except (List Failure) (List (Text × Text))}
    (h : (readSources cancelled paths).Yields w read w') :
    w' = w ∧ ∀ sources, read = .ok sources → (sources.map Prod.fst).Sublist paths := by
  unfold readSources at h
  split at h
  · exact absurd h not_yields_throw
  · have run : (if (unreadable w.disk paths).isEmpty then return .ok (readings w.disk paths)
        else return .error (unreadable w.disk paths) : Injecting _).Yields w read w' := h
    split at run
    · obtain ⟨rfl, rfl⟩ := yields_pure.1 run
      refine ⟨rfl, fun sources given => ?_⟩
      cases given
      exact readings_sublist w.disk paths
    · obtain ⟨rfl, rfl⟩ := yields_pure.1 run
      exact ⟨rfl, nofun⟩

/-- A package is left alone, or its workers run. -/
theorem yields_inject {paths : List Text} {aspects : List Aspect} {outcome : Outcome}
    (h : (i.inject cancelled paths aspects).Yields w outcome w') :
    (outcome.files = .empty ∧ w'.disk = w.disk) ∨
      ∃ types order between, (order.map Job.path).Sublist paths ∧ between.disk = w.disk ∧
        (i.finish cancelled types order).Yields between outcome w' := by
  unfold inject at h
  dsimp only at h
  split at h
  · obtain ⟨rfl, rfl⟩ := yields_pure.1 h
    exact .inl ⟨rfl, rfl⟩
  · -- Up to the types nothing is written; only then are there workers.
    obtain ⟨read, _, reading, h⟩ := yields_bind.1 h
    obtain ⟨rfl, listed⟩ := yields_readSources reading
    cases read with
    | error failures =>
      obtain ⟨rfl, rfl⟩ := yields_pure.1 h
      exact .inl ⟨rfl, rfl⟩
    | ok sources =>
      dsimp only at h
      rw [injectSources_eq_weaveGiven] at h
      split at h
      · obtain ⟨rfl, rfl⟩ := yields_pure.1 h
        exact .inl ⟨rfl, rfl⟩
      · rename_i lists _
        rcases yields_weaveGiven_iff.1 h with ⟨fault, -, rfl, rfl⟩ | ⟨files, between, parsed, h⟩
        · exact .inl ⟨rfl, rfl⟩
        · rcases h with ⟨typed, rfl, rfl⟩ | ⟨types, typed, run⟩
          · exact .inl ⟨rfl, (yields_typesOf typed).1⟩
          · refine .inr
              ⟨types, jobs sources files lists, between, ?_, (yields_typesOf typed).1, run⟩
            exact (path_sublist_of_parse parsed lists).trans (listed sources rfl)

/-- The disk holds the files of an outcome exactly if targets that name one location have one
contents. Whatever no target names is as before, except for folders where there was nothing. -/
theorem inject_recorded_iff {paths : List Text} {aspects : List Aspect} {outcome : Outcome}
    (distinct : paths.Nodup) (h : (i.inject cancelled paths aspects).Yields w outcome w') :
    ((∀ entry ∈ outcome.files.entries,
        w'.disk.read entry.2.target = .ok entry.2.contents) ↔
      ∀ entry ∈ outcome.files.entries, ∀ other ∈ outcome.files.entries,
        w'.disk.locate entry.2.target = w'.disk.locate other.2.target →
          entry.2.contents = other.2.contents) ∧
    ∀ location,
      (∀ entry ∈ outcome.files.entries, w'.disk.locate entry.2.target ≠ .ok location) →
        w'.disk.get? location = w.disk.get? location ∨
          w.disk.get? location = none ∧ w'.disk.get? location = some .folder := by
  rcases yields_inject h with ⟨none_woven, same⟩ | ⟨types, order, between, listed, before, run⟩
  · rw [none_woven, same]
    exact ⟨⟨nofun, nofun⟩, fun _ _ => .inl rfl⟩
  · obtain ⟨contributions, after, workers, concluded⟩ := yields_bind.1 run
    obtain ⟨-, rfl, rfl⟩ := yields_conclude.1 concluded
    -- Each worker records where it wrote; the outcome has these records in a dictionary by path.
    have records := records_of_yields workers
    have apart : ((contributions.filterMap Contribution.added?).map Prod.fst).Nodup :=
      distinct.sublist ((path_sublist_of_yields workers).trans listed)
    simp only [mem_entries_foldl_addTo apart]
    refine ⟨?_, fun location untouched => ?_⟩
    · have holds := records.holds_iff
      simp only [List.forall_mem_map] at holds
      exact holds
    · rw [← before]
      refine records.changes.frame location ?_
      rintro ⟨f, hf, here⟩
      obtain ⟨entry, he, rfl⟩ := List.mem_map.1 hf
      exact untouched entry he here

/-- An injector that writes into a folder of its own. -/
def intoFolder : Injector :=
  ⟨{ InjectorConfig.standard with importPath := "p", outputDir := some "out" }, fun _ => noArchives⟩

/-- A source with a handler in a function of the given name. -/
def handling (function : Text) : Text :=
  "package p\nimport \"net/http\"\nfunc " ++ function ++
    "() \x7b\n\thttp.Handle(\"/\", h)\n\x7d\n"

/-- A world with a file in each of two folders. -/
def inFolders (first second : Text) : World :=
  ⟨⟨[(["a"], .folder), (["b"], .folder), (["a", first], .file (handling "f")),
    (["b", second], .file (handling "g"))], []⟩, .fresh, .empty⟩

/-- Files of different names are both on the disk. -/
theorem inject_recorded_two_names :
    ∃ outcome after, (intoFolder.inject false ["a/x.go", "b/y.go"] builtinAspects).Yields
        (inFolders "x.go" "y.go") outcome after ∧
      outcome.files.entries.length = 2 ∧ ∀ entry ∈ outcome.files.entries,
        after.disk.read entry.2.target = .ok entry.2.contents := by
  -- Both files are woven, and no two targets are one location with different contents.
  have woven : ∃ outcome after, (intoFolder.inject false ["a/x.go", "b/y.go"] builtinAspects).Yields
      (inFolders "x.go" "y.go") outcome after ∧
        (decide (outcome.files.entries.length = 2) &&
          outcome.files.entries.all fun e => outcome.files.entries.all fun e' =>
            decide ((after.disk.locate e.2.target).toOption =
              (after.disk.locate e'.2.target).toOption → e.2.contents = e'.2.contents)) :=
    exists_yields_of_any (by decide +kernel)
  obtain ⟨outcome, after, yields, facts⟩ := woven
  obtain ⟨two, agree⟩ := Bool.and_eq_true_iff.1 facts
  refine ⟨outcome, after, yields, of_decide_eq_true two,
    (inject_recorded_iff (by decide) yields).1.2 ?_⟩
  intro entry he other ho same
  have here := List.all_eq_true.1 (List.all_eq_true.1 agree entry he) other ho
  exact of_decide_eq_true here (congrArg Except.toOption same)

/-- Files of one name from two folders go to one location, and the outcome lists both. -/
theorem inject_recorded_one_name :
    ∃ outcome after, (intoFolder.inject false ["a/x.go", "b/x.go"] builtinAspects).Yields
        (inFolders "x.go" "x.go") outcome after ∧
      ∃ entry ∈ outcome.files.entries,
        after.disk.read entry.2.target ≠ .ok entry.2.contents := by
  have lost : ∃ outcome after, (intoFolder.inject false ["a/x.go", "b/x.go"] builtinAspects).Yields
      (inFolders "x.go" "x.go") outcome after ∧ outcome.files.entries.any fun e =>
        decide ((after.disk.read e.2.target).toOption ≠ some e.2.contents) :=
    exists_yields_of_any (by decide +kernel)
  obtain ⟨outcome, after, yields, facts⟩ := lost
  obtain ⟨entry, listed, differs⟩ := List.any_eq_true.1 facts
  refine ⟨outcome, after, yields, entry, listed, ?_⟩
  exact fun same => of_decide_eq_true differs (toOption_eq_some_iff.2 same)

end Injector

end Interlace
