import Interlace.Proofs.ImportMemory
import Interlace.Proofs.Recognition
import Interlace.Proofs.WovenEdits

/-!
# Weaving a text

A text that has places where nothing was woven yet is replaced by what the edits of its advice and
one for its imports are rendered to. At least one of the edits is that of an advice. Where every
declaration of imports has some, and nothing is imported twice under one name, reconciling removes
nothing, and all that it may do is add a block.

## Key results

- `SourceFile.ImportsOnce`: nothing is imported twice under one name
- `Imports.ofFile_pairs`: the local names of a file woven as a package of its own
- `Weave.settle_once`: what reconciling adds to the edits of a file that imports nothing twice
- `SourceOptions.Wove`: what was done to a file that was woven as a package of its own
- `exists_wove`: what is woven into a text was done to its file
-/

namespace Interlace

open Syntax Importing

/-! ## Files that import nothing twice -/

/-- The imports that are written in a file, by path and local name. An import without a name is
called by what its path suggests. -/
def SourceFile.importPairs (file : SourceFile) : List (Text × Text) :=
  (ExistingImport.writtenIn file).map fun (_, _, path, givenName) =>
    (path, givenName.getD (PackageName.guess path))

/-- Every import declaration imports something, and nothing is imported twice under one name. -/
structure SourceFile.ImportsOnce (file : SourceFile) : Prop where
  given : ∀ d ∈ file.tree.childrenOf .importDeclaration, d.importSpecs ≠ []
  distinct : file.importPairs.Nodup

instance (file : SourceFile) : Decidable file.ImportsOnce :=
  decidable_of_iff
    ((∀ d ∈ file.tree.childrenOf .importDeclaration, d.importSpecs.isEmpty = false) ∧
      file.importPairs.Nodup)
    ⟨fun ⟨given, distinct⟩ => ⟨fun d hd => by simpa using given d hd, distinct⟩,
      fun h => ⟨fun d hd => by simpa using h.given d hd, h.distinct⟩⟩

/-! ## Names without archives -/

/-- The importer of a file that is woven as a package of its own. -/
def Importer.alone : Importer := ⟨noArchives, false⟩

namespace Importer

/-- Without archives a package is called by what its path suggests. -/
private theorem packageName_alone (path : Text) :
    Ensures (alone.Agree .fresh) (alone.packageName path) (· = PackageName.guess path) := by
  intro s name s' agree run
  have transparent := packageName_transparent alone path
  have kept := agree.trans (transparent.kept s)
  rw [show ((alone.packageName path).run.run s).2 = s' from congrArg Prod.snd run] at kept
  refine ⟨kept, ?_⟩
  -- A memory that agrees with the empty one knows no archive.
  have fresh : ((alone.packageName path).run.run .fresh).1 = .ok (PackageName.guess path) := by
    unfold packageName import?
    by_cases builtIn : isBuiltIn path
    · rw [if_pos builtIn]
      rfl
    · rw [if_neg builtIn]
      rfl
  have value : ((alone.packageName path).run.run s).1 = .ok name := congrArg Prod.fst run
  rw [← transparent.result .fresh s agree, fresh] at value
  exact (Except.ok.inj value).symm

end Importer

open Importer

/-- A checked package leaves the importer as it was, as far as anyone can tell. -/
theorem agree_of_yields {α : Type} {x : Importing α} (transparent : Transparent alone x) {a : α}
    {s s' : ImportState} (agree : alone.Agree .fresh s) (run : x.Yields s a s') :
    alone.Agree .fresh s' := by
  have kept := transparent.kept s
  rw [show (x.run.run s).2 = s' from congrArg Prod.snd run] at kept
  exact agree.trans kept

namespace ExistingImport

variable {file : SourceFile} {existing : List ExistingImport}

/-- Without archives, the imports of a file have the names that they are written with. -/
private theorem pairs_of_ofFile {s s' : ImportState} (agree : alone.Agree .fresh s)
    (run : (ofFile alone file).Yields s existing s') : existing.map pair = file.importPairs := by
  have complete (w : Tree × Tree × Text × Option Text) : Ensures (alone.Agree .fresh)
      (complete alone w) fun e => e.pair = (w.2.2.1, w.2.2.2.getD (PackageName.guess w.2.2.1)) := by
    obtain ⟨declaration, spec, path, givenName⟩ := w
    cases givenName with
    | some name => exact ensures_pure rfl
    | none =>
      refine ensures_bind (packageName_alone path) fun name same => ensures_pure ?_
      rw [same]
      rfl
  rw [ofFile_eq] at run
  obtain ⟨-, all⟩ := ensures_mapM (fun w _ => complete w) s existing s' agree run
  have same : List.Forall₂ (fun p q => q = p) file.importPairs (existing.map pair) :=
    List.forall₂_map_right_iff.2 (List.forall₂_map_left_iff.2 all)
  exact (List.forall₂_eq_eq_eq ▸ same.flip : existing.map pair = file.importPairs)

/-- Where no path has a local name twice, no import repeats another. -/
private theorem repeated_eq_nil (distinct : (existing.map pair).Nodup) :
    repeated existing = [] := by
  refine List.eq_nil_iff_forall_not_mem.2 fun e repeats => ?_
  obtain ⟨listed, passed⟩ := (mem_repeated_iff (distinct.of_map _)).1 repeats
  refine passed ?_
  have group : e ∈ existing.filter (·.pair = e.pair) :=
    List.mem_filter.2 ⟨listed, decide_eq_true rfl⟩
  obtain ⟨f, survives⟩ := exists_survivor? (List.ne_nil_of_mem group)
  obtain ⟨other, same⟩ := List.mem_filter.1 (mem_of_survivor? survives)
  rw [survivorOf?, survives,
    List.inj_on_of_nodup_map distinct other listed (of_decide_eq_true same)]

end ExistingImport

namespace Imports

variable {file : SourceFile} {existing : List ExistingImport}

/-- Of a file that imports nothing twice, nothing is removed. -/
private theorem removed_eq_nil (once : file.ImportsOnce)
    (pairs : existing.map (·.pair) = file.importPairs) : removed file existing = [] := by
  have none_repeated := ExistingImport.repeated_eq_nil (pairs ▸ once.distinct)
  refine List.flatMap_eq_nil_iff.2 fun d hd => ?_
  have alive : d.importSpecs.length ≠ 0 := fun empty =>
    once.given d hd (List.eq_nil_of_length_eq_zero empty)
  rw [removedFrom, doomed, none_repeated, List.filter_nil, List.length_nil, if_neg alive]
  rfl

/-- The block of imports and kept expressions stands between instrument markers. -/
private theorem isBlock_insertion (source : Text) (anchor : Tree) (lines keepAlive : List Text) :
    Weave.IsBlock (insertion source anchor (block lines keepAlive)).text ∧
      (insertion source anchor (block lines keepAlive)).stop =
        (insertion source anchor (block lines keepAlive)).start := by
  have shape (lead : Text) : lead ++ block lines keepAlive =
      lead ++ Marker.startInstrument.comment ++ "\n" ++
        (declaration lines ++ keepAlive.flatMap keepAliveLine) ++ Marker.endInstrument.comment
        ++ "\n" := by
    simp only [block, List.append_assoc]
  unfold insertion
  split
  · exact ⟨⟨"\n", _, List.forall_mem_singleton.2 (.inr rfl), shape "\n"⟩, rfl⟩
  · exact ⟨⟨[], _, nofun, shape []⟩, rfl⟩

end Imports

namespace Weave

variable {s : Scene} {p : Progress} {before after : ImportState} {b : Buffer}

/-- All that reconciling adds to the edits of a file that imports nothing twice is a block. -/
theorem settle_once (once : s.file.ImportsOnce) (agree : alone.Agree .fresh before)
    (run : (settle s alone p).Yields before b after) :
    ∃ extra, b = ⟨p.1.buffer.source, p.1.buffer.edits ++ extra⟩ ∧ extra.length ≤ 1 ∧
      ∀ e ∈ extra, IsBlock e.text ∧ e.stop = e.start := by
  unfold settle at run
  split at run
  · obtain ⟨answer, between, reconciled, run⟩ := yields_bind.1 run
    cases answer with
    | error fault => exact absurd run not_yields_throw
    | ok b' =>
      obtain ⟨rfl, -⟩ := yields_pure.1 run
      obtain ⟨existing, added, ⟨_, read⟩, h⟩ := Imports.reconcile_yields reconciled
      obtain ⟨additions, adds, rfl⟩ := h.edits
      -- The imports that reconciling reads are those of the file, so none of them is removed.
      have pairs := ExistingImport.pairs_of_ofFile agree read
      rw [Imports.removed_eq_nil once pairs, List.map_nil, List.append_nil]
      refine ⟨additions, rfl, ?_⟩
      cases adds with
      | nothing noLines noneKept => exact ⟨Nat.zero_le _, List.forall_mem_nil _⟩
      | block something found =>
        exact ⟨Nat.le_refl _,
          List.forall_mem_singleton.2 (Imports.isBlock_insertion s.file.source _ _ _)⟩
  · obtain ⟨rfl, -⟩ := yields_pure.1 run
    exact ⟨[], by rw [List.append_nil], Nat.zero_le _, List.forall_mem_nil _⟩

end Weave

/-! ## Runs -/

variable {path source woven : Text} {aspects : List Aspect} {options : SourceOptions}
  {file : SourceFile} {types : PackageTypes} {log : List Weave.Entry} {extra : List Edit}
  {r : Rendered}

/-- The edits of a file, and what they are rendered to. -/
def Weave.editsOf (file : SourceFile) (log : List Weave.Entry) (extra : List Edit) : Buffer :=
  ⟨file.source, log.map Weave.Entry.edit ++ extra⟩

/-- The edits that weaving makes in a file as a package of its own. -/
def SourceOptions.edited (options : SourceOptions) (aspects : List Aspect) (file : SourceFile) :
    Importing (Draft × Buffer) := do
  let types ← Check.package options.importPath none [file] .alone
  Weave.edited (options.scene file types) aspects .alone

/-- What was done to a file that was woven as a package of its own: the advice that its log lists,
then what its imports needed. -/
structure SourceOptions.Wove (options : SourceOptions) (aspects : List Aspect) (file : SourceFile)
    (types : PackageTypes) (log : List Weave.Entry) (extra : List Edit) (r : Rendered) : Prop where
  checked : ∃ after, (Check.package options.importPath none [file] .alone).Yields .fresh types after
  logged : ∃ d, Weave.Logs (options.scene file types) (.ofSource file.source)
    (Weave.tasks (options.scene file types) aspects) d log
  run : ∃ d after,
    (options.edited aspects file).Yields .fresh (d, Weave.editsOf file log extra) after
  /-- Something was woven. -/
  given : log ≠ []
  forward : ∀ e ∈ extra, e.start ≤ e.stop
  /-- Where nothing is imported twice, all that the imports may need is a block. -/
  single : file.ImportsOnce →
    extra.length ≤ 1 ∧ ∀ e ∈ extra, Weave.IsBlock e.text ∧ e.stop = e.start
  rendered : (Weave.editsOf file log extra).render = .ok r

/-- Every edit replaces a range of the file. -/
theorem SourceOptions.Wove.forward_edits (h : options.Wove aspects file types log extra r)
    (parsed : SourceFile.parse path source = .ok file) :
    ∀ e ∈ (Weave.editsOf file log extra).edits, e.start ≤ e.stop := by
  obtain ⟨d, logged⟩ := h.logged
  have tree : parse? file.source = some file.tree := (SourceFile.tree_of_parse parsed).1
  exact List.forall_mem_append.2 ⟨List.forall_mem_map.2 (logged.forward tree), h.forward⟩

/-- Where advice that marks what it changes was carried out and nothing was written, all of it was
settled. -/
private theorem Weave.isSettled_of_logs_nil {s : Scene} {d : Draft} {applied : Nat}
    (marks : allMark aspects)
    (performed : Performs s (.ofSource s.file.source, 0) (tasks s aspects) (d, applied))
    (logged : Logs s (.ofSource s.file.source) (tasks s aspects) d []) : isSettled s aspects := by
  have walked :
      (walk s aspects).run (.ofSource s.file.source, 0) s.file.tree = .ok (d, applied) := by
    have whole := @run_eq_foldlM s aspects (.ofSource s.file.source, 0)
    rw [performed.foldlM_eq_ok] at whole
    revert whole
    cases (walk s aspects).run (.ofSource s.file.source, 0) s.file.tree with
    | error stop => exact nofun
    | ok p => exact fun same => Except.ok.inj same ▸ rfl
  rcases Walk.run_rising (walk_skips s aspects) (walk_leave_rising marks) s.file.tree _ _ walked
    with same | grown
  · exact (run_eq_self_iff marks).1 (same ▸ walked)
  · -- Without entries there are no edits, and the walk did not rise.
    have size : rank (d, applied) = 0 := by
      rw [rank, Draft.size, logged.buffer]
      rfl
    rw [size] at grown
    exact absurd grown (Nat.not_lt_zero _)

/-- What is woven into a text was done to its file, behind the leading directive that it may
have. -/
theorem exists_wove (marks : Weave.allMark aspects)
    (parsed : SourceFile.parse path source = .ok file)
    (first : instrument path source aspects options = .ok woven)
    (due : ¬ Recognized path source aspects options) :
    ∃ types log extra r, options.Wove aspects file types log extra r ∧
      woven = source.take (source.length - file.source.length) ++ Weave.atMargin r.text := by
  have bare := due
  rw [← wovenText?_eq_none_iff marks] at bare
  rw [instrument_eq_map_wovenText?] at first
  cases changed : wovenText? path source aspects options with
  | error failure =>
    rw [changed] at first
    cases first
  | ok text =>
    rw [changed] at first bare
    cases first
    obtain ⟨same, again, changed⟩ := bind_eq_ok_iff.1 changed
    cases parsed.symm.trans again
    obtain ⟨result, value, changed⟩ := bind_eq_ok_iff.1 changed
    cases changed
    obtain ⟨after, run⟩ := exists_yields_iff.2 value
    obtain ⟨types, before, checked, run⟩ := yields_bind.1 run
    -- Without a text nothing was due.
    obtain ⟨out, changed⟩ : ∃ out, result.text = some out := by
      refine Option.ne_none_iff_exists'.1 fun unchanged => bare ?_
      rw [unchanged]
      rfl
    obtain ⟨d, b, between, edited, published⟩ := Weave.file_yields run
    obtain ⟨applied, performed, settled⟩ := Weave.edited_performs edited
    obtain ⟨log, logged⟩ := performed.exists_logs
    obtain ⟨extra, settles, rfl⟩ := Weave.settle_yields settled
    obtain ⟨r, directives, rendered, rfl, bare⟩ := Weave.publish_yields published changed
    have tree := (SourceFile.tree_of_parse parsed).1
    have agree := agree_of_yields (Check.package_transparent .alone options.importPath none [file])
      (fun _ => rfl) checked
    have listed : (⟨d.buffer.source, d.buffer.edits ++ extra⟩ : Buffer) =
        Weave.editsOf file log extra := by
      rw [logged.buffer]
      rfl
    rw [listed] at edited rendered
    refine ⟨types, log, extra, r, ⟨⟨before, checked⟩, ⟨d, logged⟩,
      ⟨d, between, yields_bind.2 ⟨types, before, checked, edited⟩⟩, fun nothing => due ?_,
      settles.forward tree, fun once => ?_, rendered⟩, ?_⟩
    · subst nothing
      exact ⟨file, types, before, parsed, checked,
        Weave.isSettled_of_logs_nil marks performed logged⟩
    · obtain ⟨extra', same, single⟩ := Weave.settle_once once agree settled
      rw [Buffer.mk.injEq, List.append_right_inj] at same
      rw [same.2]
      exact single
    · rw [changed, bare rfl]
      rfl

end Interlace
