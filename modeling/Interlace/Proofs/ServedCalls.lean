import Interlace.Proofs.SameWeaving

/-!
# What a served call is told apart by

A call is answered with the result of the first call before it that is the same in what keys cover
and was woven without failures, and it is woven if there is none. Keys cover the contents of the
files but not their paths, the aspects but not their order, and nothing of the settings, the line
directives, the internal packages and the archives. So an answer is what weaving gives exactly if
the first such call was woven to the same. It is if that call was the same in those too; otherwise
it need not be.

## Key results

- `CachedCall.Answers`: calls whose results a call can be answered with
- `CachedCall.woven_of_sameWork`: calls that are the same in all that weaving takes weave the same
- `CachedCall.serve_first_covered`: what a call is answered with
- `CachedCall.serve_confuses_names`: two files with the same contents
-/

namespace Interlace

open Injecting

/-- Files that can be read have their paths and contents. -/
private theorem Disk.sources?_eq_some {disk : Disk} {paths : List Text}
    {sources : List (Text × Text)} (h : disk.sources? paths = some sources) :
    sources.map Prod.fst = paths ∧ ∀ source ∈ sources, disk.read source.1 = .ok source.2 := by
  induction paths generalizing sources with
  | nil =>
    cases h
    exact ⟨rfl, nofun⟩
  | cons path paths ih =>
    unfold sources? at h ih
    rw [List.mapM_cons] at h
    obtain ⟨first, read, h⟩ := Option.bind_eq_some_iff.1 h
    obtain ⟨rest, others, h⟩ := Option.bind_eq_some_iff.1 h
    cases h
    obtain ⟨bytes, found, rfl⟩ := Option.map_eq_some_iff.1 read
    obtain ⟨listed, present⟩ := ih others
    exact ⟨congrArg (path :: ·) listed,
      List.forall_mem_cons.2 ⟨toOption_eq_some_iff.1 found, present⟩⟩

namespace CachedCall

variable {before : List CachedCall} {c d : CachedCall} {o : Outcome}

/-! ## What weaving takes -/

/-- Two calls are the same in all that weaving takes: in the configuration but for the output
directory, the files with their paths and in their order, the aspects in their order, and what they
are told of dependencies. -/
structure SameWork (c d : CachedCall) : Prop where
  config : d.injector.config =
    { c.injector.config with outputDir := d.injector.config.outputDir }
  sources : d.disk.sources? d.paths = c.disk.sources? c.paths
  aspects : d.aspects = c.aspects
  lookup : d.injector.lookup d.disk = c.injector.lookup c.disk
  remembered : Importer.Agree ⟨c.injector.lookup c.disk, false⟩ c.imports d.imports

/-- No file is given twice, and woven files are no archives. -/
structure Undisturbed (c : CachedCall) : Prop where
  distinct : c.paths.Nodup
  lookup : ∀ disk, Injector.Grown c.paths c.injector.config.outputDir c.disk disk →
    c.injector.lookup disk = c.injector.lookup c.disk

private theorem Undisturbed.steady (h : c.Undisturbed) (readable : c.Readable) (store : Dict Text) :
    Injector.Steady c.injector (c.world store) c.sources := by
  obtain ⟨listed, present⟩ := Disk.sources?_eq_some readable
  exact ⟨listed ▸ h.distinct, present, listed ▸ h.lookup⟩

/-- The files that a call weaves are among those it was given. -/
private theorem path_mem_of_woven (distinct : c.paths.Nodup) (woven : c.woven = .ok o) :
    ∀ e ∈ (Injector.entryOf o).files.entries, e.1 ∈ c.paths := by
  obtain ⟨w', run⟩ := exists_yields_iff.2 woven
  intro e he
  obtain ⟨entry, listed, rfl⟩ := List.mem_map.1 he
  rcases Injector.yields_inject run with ⟨none_woven, -⟩ | ⟨types, order, between, within, -, run⟩
  · rw [none_woven] at listed
    exact absurd listed List.not_mem_nil
  · -- Files come from contributions, and those from the jobs.
    obtain ⟨contributions, after, workers, concluded⟩ := yields_bind.1 run
    obtain ⟨-, rfl, -⟩ := Injector.yields_conclude.1 concluded
    have paths := (Injector.path_sublist_of_yields workers).trans within
    have added := (Injector.mem_entries_foldl_addTo (distinct.sublist paths)).1 listed
    exact paths.subset (List.mem_map_of_mem added)

/-- Calls that are the same in all that weaving takes weave the same, if the files can be written
for both. -/
theorem woven_of_sameWork (same : d.SameWork c) (readable : c.Readable)
    (undisturbed : d.Undisturbed) (undisturbed' : c.Undisturbed) (woven : d.woven = .ok o)
    (clean : o.failures = [])
    {served : Outcome}
    (restored : (on (c.injector.restore (Injector.entryOf o)) (c.world .empty)).1 = .ok served)
    (written : served.failures = []) :
    c.woven.map Injector.entryOf = .ok (Injector.entryOf o) := by
  have files : d.sources = c.sources := congrArg (·.getD []) same.sources.symm
  have readable' : d.Readable := by rw [Readable, files, ← same.sources, readable]
  have paths : d.paths = c.paths := by
    rw [← (Disk.sources?_eq_some readable').1, files, (Disk.sources?_eq_some readable).1]
  -- What is woven for `d` can be written for `c`, since it was when it was restored.
  obtain ⟨last, run⟩ := exists_yields_iff.2 restored
  have present : ∀ path ∈ c.paths, ∃ bytes, (c.world .empty).disk.read path = .ok bytes := by
    obtain ⟨listed, read⟩ := Disk.sources?_eq_some readable
    rw [← listed, List.forall_mem_map]
    exact fun source hs => ⟨source.2, read source hs⟩
  have writable := Injector.writable_of_restore present
    (paths ▸ path_mem_of_woven undisturbed.distinct woven) run written
  have alike : Injector.Alike d.injector (d.world .empty) c.injector (c.world .empty) :=
    ⟨same.config, same.lookup, same.remembered⟩
  obtain ⟨w', wove⟩ := exists_yields_iff.2 woven
  unfold Injecting.Yields at wove
  rw [Injector.on_inject (w := d.world .empty) readable', files] at wove
  obtain ⟨o', v', wove', -, kept⟩ := Injector.weaveRead_repeats alike
    (files ▸ undisturbed.steady readable' .empty) (undisturbed'.steady readable .empty) wove clean
    writable
  unfold CachedCall.woven
  rw [Injector.on_inject (w := c.world .empty) readable, same.aspects, wove']
  exact congrArg Except.ok kept

/-! ## What a call is answered with -/

/-- A call whose result another can be answered with: it can read its files, is the same in what
keys cover, and was woven without failures. -/
structure Answers (d c : CachedCall) (o : Outcome) : Prop where
  readable : d.Readable
  covered : d.Covered c
  woven : d.woven = .ok o
  clean : o.failures = []

/-- A call that can answer for another keeps its result under the key of the other. -/
private theorem Answers.keeps? (h : d.Answers c o) : d.keeps? c.inputs.key = some o := by
  have keyed := (key?_of_readable h.readable).trans (congrArg some h.covered.key_eq)
  rw [CachedCall.keeps?, if_pos keyed, h.woven]
  simp [Except.toOption, h.clean]

/-- The first call that can answer for another is the one whose result is kept under its key. -/
private theorem Answers.kept? (h : d.Answers c o) {earlier : List CachedCall}
    (first : ∀ e ∈ earlier, e.keeps? c.inputs.key = none) (later : List CachedCall) :
    CachedCall.kept? (earlier ++ d :: later) c.inputs.key = some o := by
  rw [CachedCall.kept?, List.findSome?_append, List.findSome?_eq_none_iff.2 first,
    List.findSome?_cons, h.keeps?]
  rfl

/-- A call keeps a result under the key of another exactly if it can answer for it. -/
private theorem keeps?_eq_some_iff (apart : HashesApart (before ++ [c]))
    (measured : ∀ d ∈ before ++ [c], d.Measured) (hd : d ∈ before) :
    d.keeps? c.inputs.key = some o ↔ d.Answers c o := by
  have listed : d ∈ before ++ [c] := List.mem_append_left _ hd
  have last : c ∈ before ++ [c] := List.mem_append_right _ List.mem_cons_self
  have keys := key_eq_iff_covered apart listed last (measured d listed) (measured c last)
  refine ⟨fun kept => ?_, Answers.keeps?⟩
  unfold CachedCall.keeps? at kept
  split at kept
  · rename_i keyed
    obtain ⟨readable, same⟩ := readable_of_key? keyed
    obtain ⟨woven, clean⟩ := Option.filter_eq_some_iff.1 kept
    exact ⟨readable, keys.1 same, toOption_eq_some_iff.1 woven, List.isEmpty_iff.1 clean⟩
  · cases kept

/-- What a call is answered with after any number of calls that start with an empty store. If no
earlier call is the same in what keys cover and was woven without failures, it is woven. Otherwise
it is answered with the result of the first that was: with the same files, contents, references and
version, so that the answer is what weaving gives exactly if that call was woven to the same. It is
if that call was the same in all that weaving takes. -/
theorem serve_first_covered (apart : HashesApart (before ++ [c]))
    (measured : ∀ d ∈ before ++ [c], d.Measured) (storable : AllStorable before)
    (readable : c.Readable) :
    ((∀ d ∈ before, ∀ o, ¬ d.Answers c o) → (c.serve (storeAfter before)).1 = c.woven) ∧
    ∀ earlier d later o, before = earlier ++ d :: later → d.Answers c o →
      (∀ e ∈ earlier, ∀ o', ¬ e.Answers c o') →
      ∃ served, (c.serve (storeAfter before)).1 = .ok served ∧
        (on (c.injector.restore (Injector.entryOf o)) (c.world .empty)).1 = .ok served ∧
        (served.failures = [] →
          Injector.entryOf served = Injector.entryOf o ∧
          (c.woven.map Injector.entryOf = .ok (Injector.entryOf served) ↔
            c.woven.map Injector.entryOf = d.woven.map Injector.entryOf) ∧
          (d.SameWork c → d.Undisturbed → c.Undisturbed →
            c.woven.map Injector.entryOf = .ok (Injector.entryOf served))) := by
  have keyed := key?_of_readable readable
  -- A call that does not answer this one has kept nothing under its key.
  have silent : ∀ e ∈ before, (∀ o', ¬ e.Answers c o') → e.keeps? c.inputs.key = none := by
    intro e he none_given
    refine Option.eq_none_iff_forall_ne_some.2 fun o' kept => ?_
    exact none_given o' ((keeps?_eq_some_iff apart measured he).1 kept)
  refine ⟨fun none_given => ?_, ?_⟩
  · refine serve_of_not_kept storable keyed (List.findSome?_eq_none_iff.2 fun e he => ?_)
    exact silent e he (none_given e he)
  · intro earlier d later o split answers first
    -- The first that answers it has, and entries are never replaced.
    have kept : kept? before c.inputs.key = some o := by
      rw [split]
      refine answers.kept? (fun e he => silent e ?_ (first e he)) later
      exact split ▸ List.mem_append_left _ he
    obtain ⟨served, restored, same⟩ := Injector.entryOf_restore (i := c.injector)
      (Injector.entryOf o) (c.world .empty)
    refine ⟨served, (serve_of_kept? storable keyed kept).trans restored, restored, ?_⟩
    intro written
    have back := same written
    refine ⟨back, ?_, fun work undisturbed undisturbed' => ?_⟩
    · rw [back, answers.woven]
      rfl
    · rw [back]
      exact woven_of_sameWork work readable undisturbed undisturbed' answers.woven answers.clean
        restored written

/-! ## Files with the same contents -/

/-- A text that two files hold. -/
def twinText : Text :=
  "package p\n//tool:span\nfunc f() \x7b\n\x7d\n"

/-- A call for one of two files with the same contents, with a folder for what is woven. -/
def twin (outputDir path : Text) : CachedCall where
  injector :=
    ⟨{ InjectorConfig.standard with importPath := "p", outputDir := some outputDir },
      fun _ => noArchives⟩
  paths := [path]
  aspects := [Builtin.spans]
  disk := ⟨[([("work" : Text)], .folder), ([("work" : Text), ("a.go" : Text)], .file twinText),
    ([("work" : Text), ("b.go" : Text)], .file twinText)], [("work" : Text)]⟩
  imports := .fresh

section

variable {outputDir outputDir' path path' : Text}

private theorem sources?_twin (h : path ∈ [("a.go" : Text), "b.go"]) :
    (twin outputDir path).disk.sources? [path] = some [(path, twinText)] := by
  have read : ∀ path ∈ [("a.go" : Text), "b.go"],
      (twin [] path).disk.sources? [path] = some [(path, twinText)] := by decide +kernel
  exact read path h

private theorem sources_twin (h : path ∈ [("a.go" : Text), "b.go"]) :
    (twin outputDir path).sources = [(path, twinText)] :=
  congrArg (·.getD []) (sources?_twin h)

private theorem readable_twin (h : path ∈ [("a.go" : Text), "b.go"]) :
    (twin outputDir path).Readable :=
  (sources?_twin h).trans (congrArg some (sources_twin h).symm)

/-- Keys do not cover where woven files go, nor which of the two files it is. -/
private theorem covered_twin (h : path ∈ [("a.go" : Text), "b.go"])
    (h' : path' ∈ [("a.go" : Text), "b.go"]) :
    (twin outputDir path).Covered (twin outputDir' path') := by
  refine ⟨rfl, rfl, rfl, ?_, .refl _, rfl⟩
  rw [sources_twin h, sources_twin h']
  exact .refl _

private theorem measured_twin (h : path ∈ [("a.go" : Text), "b.go"]) :
    (twin outputDir path).Measured where
  importPath := (by decide : KeyInputs.Short "p")
  version := nofun
  files := by
    rw [sources_twin h]
    exact Nat.one_lt_two_pow (by decide)
  packages := (by decide : KeyInputs.ShortList [])
  aspects := (by decide : [Builtin.spans].length < 2 ^ 64)
  legible := by
    refine List.forall_mem_singleton.2 ⟨⟨by decide, ?_, ?_⟩, by decide⟩
    · exact ⟨by rfl, ⟨nofun, nofun⟩, trivial⟩
    · exact List.forall_mem_singleton.2 fun _ he => absurd he List.not_mem_nil

/-- All the calls have the same texts hashed. -/
private theorem hashesApart_twins {calls : List CachedCall}
    (h : ∀ c ∈ calls, ∃ outputDir, c = twin outputDir "a.go") : HashesApart calls := by
  -- All calls read one file, so there is no second text that could be mistaken for the first.
  have sources (outputDir : Text) :
      (twin outputDir "a.go").sources = [(("a.go" : Text), twinText)] :=
    sources_twin List.mem_cons_self
  refine ⟨?_, ?_, ?_⟩
  · rintro s ⟨c, hc, hs⟩ t ⟨d, hd, ht⟩ -
    obtain ⟨_, rfl⟩ := h c hc
    obtain ⟨_, rfl⟩ := h d hd
    rw [sources] at hs ht
    exact (List.mem_singleton.1 hs).trans (List.mem_singleton.1 ht).symm
  · rintro s ⟨c, hc, hs⟩ t ⟨d, hd, ht⟩ -
    obtain ⟨_, rfl⟩ := h c hc
    obtain ⟨_, rfl⟩ := h d hd
    exact (List.mem_singleton.1 hs).trans (List.mem_singleton.1 ht).symm
  · rintro s ⟨c, hc, rfl⟩ t ⟨d, hd, rfl⟩ -
    obtain ⟨_, rfl⟩ := h c hc
    obtain ⟨_, rfl⟩ := h d hd
    unfold inputs
    rw [sources, sources]
    rfl

end

/-- The call weaves its file without failures, and what it keeps can be restored into either
folder. -/
private theorem exists_woven_twin :
    ∃ o, (twin "out" "a.go").woven = .ok o ∧ o.failures = [] ∧ (Injector.entryOf o).Storable ∧
      ∀ outputDir ∈ [("out" : Text), "more"], ∃ restored,
        (on ((twin outputDir "a.go").injector.restore (Injector.entryOf o))
          ((twin outputDir "a.go").world .empty)).1 = .ok restored ∧
        restored.failures = [] ∧ restored.files.keys = [("a.go" : Text)] := by
  have clean : (twin "out" "a.go").woven.toOption.all fun o => o.failures.isEmpty := by
    decide +kernel
  have kept : (twin "out" "a.go").woven.toOption.any fun o =>
      decide (Injector.entryOf o).Storable := by decide +kernel
  -- What was woven for one folder is restored for both.
  have written : ∀ outputDir ∈ [("out" : Text), "more"],
      (twin "out" "a.go").woven.toOption.any fun o =>
        (on ((twin outputDir "a.go").injector.restore (Injector.entryOf o))
          ((twin outputDir "a.go").world .empty)).1.toOption.any fun restored =>
            decide (restored.failures.length = 0 ∧ restored.files.keys = [("a.go" : Text)]) := by
    decide +kernel
  obtain ⟨o, woven, storable⟩ := (Option.any_eq_true _ _).1 kept
  rw [woven] at clean
  refine ⟨o, toOption_eq_some_iff.1 woven, List.isEmpty_iff.1 clean, of_decide_eq_true storable, ?_⟩
  intro outputDir hd
  obtain ⟨_, again, facts⟩ := (Option.any_eq_true _ _).1 (written outputDir hd)
  cases woven.symm.trans again
  obtain ⟨restored, done, facts⟩ := (Option.any_eq_true _ _).1 facts
  obtain ⟨clean, named⟩ := of_decide_eq_true facts
  exact ⟨restored, toOption_eq_some_iff.1 done, List.length_eq_zero_iff.1 clean, named⟩

/-- A file that could not be written at first is woven, and then once more into another folder:
there it is answered with what it was woven to before, which is what weaving gives. -/
theorem serve_first_covered_thrice :
    let before := [twin "a.go" "a.go", twin "out" "a.go"]
    let c := twin "more" "a.go"
    HashesApart (before ++ [c]) ∧ (∀ d ∈ before ++ [c], d.Measured) ∧ AllStorable before ∧
      c.Readable ∧
      ∃ served, (c.serve (storeAfter before)).1 = .ok served ∧ served.failures = [] ∧
        served.files.keys = [("a.go" : Text)] ∧
        c.woven.map Injector.entryOf = .ok (Injector.entryOf served) := by
  intro before c
  have here : ("a.go" : Text) ∈ [("a.go" : Text), "b.go"] := List.mem_cons_self
  have twins : ∀ d ∈ before ++ [c], ∃ outputDir, d = twin outputDir "a.go" :=
    List.forall_mem_cons.2 ⟨⟨_, rfl⟩, List.forall_mem_cons.2
      ⟨⟨_, rfl⟩, List.forall_mem_singleton.2 ⟨_, rfl⟩⟩⟩
  have measured : ∀ d ∈ before ++ [c], d.Measured := by
    intro d hd
    obtain ⟨outputDir, rfl⟩ := twins d hd
    exact measured_twin here
  -- The first folder is a file.
  have blocked : (twin "a.go" "a.go").woven.toOption.all fun o =>
      decide (o.failures.length = 1) := by decide +kernel
  have nothing : (twin "a.go" "a.go").woven.toOption.all fun o =>
      decide (Injector.entryOf o).Storable := by decide +kernel
  obtain ⟨o, woven, clean, storable, restored⟩ := exists_woven_twin
  have stored : AllStorable before := by
    intro d hd o' h
    rcases List.mem_cons.1 hd with rfl | hd
    · rw [h] at nothing
      exact of_decide_eq_true nothing
    · cases List.mem_singleton.1 hd
      cases woven.symm.trans h
      exact storable
  have readable : c.Readable := readable_twin here
  have answers : (twin "out" "a.go").Answers c o :=
    ⟨readable_twin here, covered_twin here here, woven, clean⟩
  -- What was not written is not kept.
  have first : ∀ e ∈ [twin "a.go" "a.go"], ∀ o', ¬ e.Answers c o' := by
    refine List.forall_mem_singleton.2 fun o' other => ?_
    rw [other.woven] at blocked
    have one := of_decide_eq_true blocked
    rw [other.clean] at one
    cases one
  obtain ⟨served, given, done, told⟩ := (serve_first_covered (hashesApart_twins twins) measured
    stored readable).2 [twin "a.go" "a.go"] (twin "out" "a.go") [] o rfl answers first
  obtain ⟨again, done', written, named⟩ := restored "more" (by decide)
  cases done.symm.trans done'
  -- Only the folder differs, which weaving does not depend on.
  have work : (twin "out" "a.go").SameWork c := ⟨rfl, rfl, rfl, rfl, fun _ => rfl⟩
  have undisturbed (outputDir : Text) : (twin outputDir "a.go").Undisturbed :=
    ⟨List.nodup_singleton _, fun _ _ => rfl⟩
  exact ⟨hashesApart_twins twins, measured, stored, readable, served, given, written, named,
    (told written).2.2 work (undisturbed _) (undisturbed _)⟩

/-- After a call for one file, a call for another with the same contents gives the first file in
place of its own. -/
theorem serve_confuses_names :
    ∃ served woven, ((twin "out" "b.go").serve (storeAfter [twin "out" "a.go"])).1 =
        .ok served ∧
      (twin "out" "b.go").woven = .ok woven ∧
      served.files.keys = [("a.go" : Text)] ∧ woven.files.keys = [("b.go" : Text)] := by
  have own : (twin "out" "b.go").woven.toOption.any fun o =>
      decide (o.files.keys = [("b.go" : Text)]) := by decide +kernel
  obtain ⟨other, woven, own⟩ := (Option.any_eq_true _ _).1 own
  obtain ⟨o, first, clean, storable, restored⟩ := exists_woven_twin
  obtain ⟨served, done, -, named⟩ := restored "out" List.mem_cons_self
  have answers : (twin "out" "a.go").Answers (twin "out" "b.go") o :=
    ⟨readable_twin (by decide), covered_twin (by decide) (by decide), first, clean⟩
  have stored : AllStorable [twin "out" "a.go"] := by
    intro c hc o' h
    cases List.mem_singleton.1 hc
    cases first.symm.trans h
    exact storable
  have kept : kept? [twin "out" "a.go"] (twin "out" "b.go").inputs.key = some o :=
    answers.kept? (fun _ he => absurd he List.not_mem_nil) []
  have readable : (twin "out" "b.go").Readable := readable_twin (by decide)
  have answered := serve_of_kept? stored (key?_of_readable readable) kept
  -- Both calls have one disk and one injector.
  have injector : (twin "out" "b.go").injector = (twin "out" "a.go").injector := rfl
  have world : (twin "out" "b.go").world .empty = (twin "out" "a.go").world .empty := rfl
  rw [injector, world] at answered
  exact ⟨served, other, answered.trans done,
    toOption_eq_some_iff.1 woven, named, of_decide_eq_true own⟩

end CachedCall

end Interlace
