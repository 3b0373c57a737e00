import Interlace.Proofs.RepeatedImports

/-!
# Reconciling imports

A file keeps one import for every path and local name that it had, and gains those that added code
asks for and that it does not have.

## Key results

- `Imports.mem_requests_iff`: a request without a name counts if there is none with a name
- `Imports.missing_yields`: the lines that are added are those of requests that are not satisfied
- `Imports.reconcile_yields`: what becomes of a file
- `Imports.reconcile_complete`: no import is lost, repeated or added needlessly
-/

namespace Interlace

open Syntax

/-- An import that is added to a file. -/
structure AddedImport where
  path : Text
  /-- The name by which it is asked for. -/
  wanted : Text
  /-- The name that the package is known to declare. -/
  declared : Option Text

namespace AddedImport

/-- The path and the name that were asked for. -/
def request (a : AddedImport) : Text × Text :=
  (a.path, a.wanted)

/-- The name that is written; none if the package declares it. -/
def givenName (a : AddedImport) : Option Text :=
  if a.declared = some a.wanted then none else some a.wanted

/-- The local name: the written one, or what an import without a name is called by. -/
def localName (a : AddedImport) : Text :=
  match a.givenName with
  | some name => name
  | none => a.declared.getD (PackageName.guess a.path)

/-- Path and local name. -/
def pair (a : AddedImport) : Text × Text :=
  (a.path, a.localName)

/-- The import as it is written. -/
def line (a : AddedImport) : Text :=
  match a.givenName with
  | some name => name ++ " " ++ Text.quote a.path
  | none => Text.quote a.path

/-- The declared name is the one that the metadata of the package has. -/
def Known (importer : Importer) (a : AddedImport) : Prop :=
  ∃ s info s', (importer.import? a.path).Yields s info s' ∧
    a.declared = info.bind ArchiveInfo.packageName

/-- Whether the name is written or not, the import has the name that was asked for. -/
private theorem localName_eq (a : AddedImport) : a.localName = a.wanted := by
  unfold localName givenName
  by_cases known : a.declared = some a.wanted
  · rw [if_pos known, known]
    rfl
  · rw [if_neg known]

private theorem pair_eq (a : AddedImport) : a.pair = a.request :=
  congrArg (a.path, ·) a.localName_eq

private theorem line_eq (a : AddedImport) :
    a.line = Imports.specLine a.path a.wanted a.declared := by
  unfold line givenName Imports.specLine
  by_cases known : a.declared = some a.wanted
  · rw [if_pos known, if_pos known]
  · rw [if_neg known, if_neg known]

end AddedImport

/-! ## What is asked for -/

/-- No path is demanded under a name more than once. -/
private theorem ReferenceMap.nodup_imports (m : ReferenceMap) : m.imports.Nodup := by
  refine List.nodup_flatMap.2 ⟨fun (path, names) _ => ?_, ?_⟩
  · exact names.nodup_keys.map fun _ _ same => (Prod.mk.inj same).2
  · refine (List.pairwise_map.1 m.aliases.nodup_keys).imp fun {a b} other => ?_
    intro request first second
    obtain ⟨_, _, rfl⟩ := List.mem_map.1 first
    obtain ⟨_, _, same⟩ := List.mem_map.1 second
    exact other (Prod.mk.inj same).1.symm

namespace Imports

variable {importer : Importer} {file : SourceFile} {references : ReferenceMap}
  {existing : List ExistingImport} {path wanted : Text} {s s' : ImportState}

/-- A request without a name counts if the path is not asked for by name. -/
theorem mem_requests_iff : (path, wanted) ∈ requests references ↔
    (path, wanted) ∈ references.imports ∧
      (wanted = blankName → ∀ name, (path, name) ∈ references.imports → name = blankName) := by
  unfold requests
  dsimp only
  rw [List.mem_filter]
  refine and_congr_right fun _ => ?_
  simp only [ne_eq, decide_not, Bool.or_eq_true, Bool.not_eq_eq_eq_not, Bool.not_true,
    decide_eq_false_iff_not, List.any_eq_false, Bool.and_eq_true, decide_eq_true_eq, not_and,
    not_not, Prod.forall]
  rw [or_iff_not_imp_left, not_not]
  refine forall_congr' fun _ => ⟨fun h name listed => ?_, fun h other name listed same => ?_⟩
  · exact h path name listed rfl
  · exact h name (same ▸ listed)

/-- A request is satisfied by an import of its path that has its name, if it has one. -/
theorem isSatisfied_iff : isSatisfied existing path wanted ↔
    ∃ e ∈ existing, e.path = path ∧ (wanted = blankName ∨ e.localName = wanted) := by
  simp [isSatisfied]

/-- The lines that are added are those of the requests that are not satisfied, in their order; none
of their names is taken. -/
theorem missing_yields {demands : List (Text × Text)} {lines : List Text}
    (run : (missing importer existing demands).Yields s (.ok lines) s') :
    ∃ added : List AddedImport, lines = added.map AddedImport.line ∧
      added.map AddedImport.request = demands.filter (fun r => ! isSatisfied existing r.1 r.2) ∧
      ∀ a ∈ added, a.Known importer ∧ clash? existing a.path a.wanted = none := by
  induction demands generalizing s lines with
  | nil =>
    obtain ⟨eq, -⟩ := Importing.yields_pure.1 run
    cases eq
    exact ⟨[], rfl, rfl, nofun⟩
  | cons demand demands ih =>
    obtain ⟨path, wanted⟩ := demand
    unfold missing at run
    cases satisfied : isSatisfied existing path wanted with
    | true =>
      rw [if_pos satisfied] at run
      obtain ⟨added, spelled, asked, known⟩ := ih run
      exact ⟨added, spelled, by rw [asked, List.filter_cons_of_neg (by simp [satisfied])], known⟩
    | false =>
      rw [if_neg (by simp [satisfied])] at run
      -- A name that is taken ends the search without lines.
      cases taken : clash? existing path wanted with
      | some holder =>
        rw [taken] at run
        obtain ⟨eq, -⟩ := Importing.yields_pure.1 run
        cases eq
      | none =>
        rw [taken] at run
        obtain ⟨info, s₁, found, run⟩ := Importing.yields_bind.1 run
        obtain ⟨others, s₂, later, made⟩ := Importing.yields_bind.1 run
        obtain ⟨eq, rfl⟩ := Importing.yields_pure.1 made
        cases others with
        | error fault => cases eq
        | ok others =>
          cases eq
          obtain ⟨added, rfl, asked, known⟩ := ih later
          let first : AddedImport := ⟨path, wanted, info.bind ArchiveInfo.packageName⟩
          refine ⟨first :: added, ?_, ?_, ?_⟩
          · rw [List.map_cons, first.line_eq]
          · rw [List.map_cons, asked, List.filter_cons_of_pos (by simp [satisfied])]
            rfl
          · exact List.forall_mem_cons.2 ⟨⟨⟨s, info, s₁, found, rfl⟩, taken⟩, known⟩

/-! ## What becomes of a file -/

/-- The edit that inserts a block behind the line of the anchor. -/
def insertion (source : Text) (anchor : Tree) (block : Text) : Edit :=
  if source.length ≤ source.lineEnd anchor.stop then
    ⟨source.length, source.length, "\n" ++ block, .left⟩
  else ⟨source.lineEnd anchor.stop + 1, source.lineEnd anchor.stop + 1, block, .left⟩

private theorem insertBlock_eq (source : Text) (anchor : Tree) (block : Text) (b : Buffer) :
    insertBlock source anchor block b = b.push (insertion source anchor block) := by
  unfold insertBlock insertion
  dsimp only
  split <;> rfl

/-- The edits that add lines and kept expressions to a file. -/
inductive Adds (file : SourceFile) (lines keepAlive : List Text) : List Edit → Prop where
  | nothing (noLines : lines = []) (noneKept : keepAlive = []) : Adds file lines keepAlive []
  | block {anchor : Tree} (something : lines ≠ [] ∨ keepAlive ≠ [])
      (found : anchor? file.tree = some anchor) :
      Adds file lines keepAlive [insertion file.source anchor (block lines keepAlive)]

/-- What reconciling does to a file with certain imports: it removes nodes and adds imports. -/
structure Reconciles (importer : Importer) (file : SourceFile) (references : ReferenceMap)
    (b b' : Buffer) (existing : List ExistingImport) (added : List AddedImport) : Prop where
  /-- The imports are those of the file. -/
  written : existing.map ExistingImport.written = ExistingImport.writtenIn file
  named : ∀ e ∈ existing, e.Named importer
  /-- Those that are not satisfied are added. -/
  asked : added.map AddedImport.request =
    (requests references).filter fun r => ! isSatisfied existing r.1 r.2
  known : ∀ a ∈ added, a.Known importer ∧ clash? existing a.path a.wanted = none
  /-- Nothing else is edited. -/
  edits : ∃ additions,
    Adds file (added.map AddedImport.line) references.keepAlive.toList additions ∧
    b' = ⟨b.source, b.edits ++ (removed file existing).map (deletion file.source) ++ additions⟩

theorem reconcile_yields {b b' : Buffer}
    (run : (reconcile importer file references b).Yields s (.ok b') s') :
    ∃ existing added, (∃ s₁, (ExistingImport.ofFile importer file).Yields s existing s₁) ∧
      Reconciles importer file references b b' existing added := by
  unfold reconcile at run
  obtain ⟨existing, s₁, read, run⟩ := Importing.yields_bind.1 run
  obtain ⟨written, named⟩ := ExistingImport.ofFile_yields read
  obtain ⟨answer, s₂, asked, run⟩ := Importing.yields_bind.1 run
  rw [collapse_eq] at run
  cases answer with
  | error fault =>
    obtain ⟨eq, -⟩ := Importing.yields_pure.1 run
    cases eq
  | ok lines =>
    obtain ⟨added, rfl, requested, known⟩ := missing_yields asked
    refine ⟨existing, added, ⟨s₁, read⟩, written, named, requested, known, ?_⟩
    dsimp only at run
    split at run
    · rename_i nothing
      obtain ⟨noLines, noneKept⟩ := Bool.and_eq_true_iff.1 nothing
      obtain ⟨eq, -⟩ := Importing.yields_pure.1 run
      cases eq
      exact ⟨[], .nothing (List.isEmpty_iff.1 noLines) (List.isEmpty_iff.1 noneKept),
        by rw [List.append_nil]⟩
    · rename_i something
      cases found : anchor? file.tree with
      | none =>
        rw [found] at run
        obtain ⟨eq, -⟩ := Importing.yields_pure.1 run
        cases eq
      | some anchor =>
        rw [found] at run
        obtain ⟨eq, -⟩ := Importing.yields_pure.1 run
        rw [insertBlock_eq] at eq
        cases eq
        refine ⟨_, .block ?_ found, rfl⟩
        rwa [Bool.and_eq_true_iff, List.isEmpty_iff, List.isEmpty_iff, not_and_or] at something

/-- The edits that reconciling adds to those that are there. -/
theorem Reconciles.extra_eq {b : Buffer} {added : List AddedImport} {extra : List Edit}
    (h : Reconciles importer file references b ⟨b.source, b.edits ++ extra⟩ existing added) :
    ∃ additions, Adds file (added.map AddedImport.line) references.keepAlive.toList additions ∧
      extra = (removed file existing).map (deletion file.source) ++ additions := by
  obtain ⟨additions, adds, same⟩ := h.edits
  refine ⟨additions, adds, ?_⟩
  simpa [List.append_assoc] using same

/-! ## The imports of the outcome -/

/-- Some of the imports of a file are kept and some that were demanded are added, so that none is
lost, repeated or added needlessly. -/
structure Complete (references : ReferenceMap) (existing kept : List ExistingImport)
    (added : List AddedImport) : Prop where
  /-- No path is kept twice under one local name. -/
  distinct : (kept.map (·.pair)).Nodup
  /-- All paths are kept under all their local names. -/
  covers : ∀ p, p ∈ kept.map (·.pair) ↔ p ∈ existing.map (·.pair)
  survives : ∀ e ∈ kept, ExistingImport.survivorOf? existing e.pair = some e
  /-- What is demanded by name is there once under the name. -/
  named : ∀ path name, (path, name) ∈ references.imports → name ≠ blankName →
    (kept.map (·.pair) ++ added.map (·.pair)).count (path, name) = 1
  /-- What is demanded without a name is there. -/
  linked : ∀ path, (path, blankName) ∈ references.imports →
    (∀ name, (path, name) ∈ references.imports → name = blankName) →
    ∃ name, (path, name) ∈ kept.map (·.pair) ++ added.map (·.pair)
  needed : ∀ p ∈ added.map (·.pair), p ∈ references.imports ∧ p ∉ existing.map (·.pair)

section

variable {b b' : Buffer} {added : List AddedImport} {p : Text × Text}

/-- An import is added iff its request counts and is not satisfied. -/
theorem Reconciles.mem_added_iff (h : Reconciles importer file references b b' existing added) :
    p ∈ added.map (·.pair) ↔
      p ∈ requests references ∧ isSatisfied existing p.1 p.2 = false := by
  have asked : added.map (·.pair) = added.map (·.request) :=
    List.map_congr_left fun a _ => a.pair_eq
  rw [asked, h.asked, List.mem_filter, Bool.not_eq_true']

/-- An import that is there satisfies a request for it. -/
private theorem isSatisfied_of_mem (h : p ∈ existing.map (·.pair)) :
    isSatisfied existing p.1 p.2 := by
  obtain ⟨e, he, rfl⟩ := List.mem_map.1 h
  exact isSatisfied_iff.2 ⟨e, he, rfl, .inr rfl⟩

/-- Reconciling loses, repeats and needlessly adds no import. -/
theorem Reconciles.complete (h : Reconciles importer file references b b' existing added)
    (nodup : existing.Nodup) {kept : List ExistingImport} (fewer : kept.Sublist existing)
    (stays : ∀ e ∈ existing,
      e ∈ kept ↔ ExistingImport.survivorOf? existing e.pair = some e) :
    Complete references existing kept added := by
  have survives : ∀ e ∈ kept, ExistingImport.survivorOf? existing e.pair = some e :=
    fun e he => (stays e (fewer.subset he)).1 he
  have distinct : (kept.map (·.pair)).Nodup := by
    refine (nodup.sublist fewer).map_on fun e he f hf same => ?_
    have first := survives e he
    rw [same, survives f hf] at first
    exact (Option.some.inj first).symm
  have covers : ∀ p, p ∈ kept.map (·.pair) ↔ p ∈ existing.map (·.pair) := by
    refine fun p => ⟨fun listed => (fewer.map _).subset listed, fun listed => ?_⟩
    obtain ⟨e, he, rfl⟩ := List.mem_map.1 listed
    obtain ⟨f, survivor⟩ := ExistingImport.exists_survivor?
      (List.ne_nil_of_mem (List.mem_filter.2 ⟨he, decide_eq_true rfl⟩ :
        e ∈ existing.filter (·.pair = e.pair)))
    obtain ⟨hf, same⟩ := List.mem_filter.1 (ExistingImport.mem_of_survivor? survivor)
    have same : f.pair = e.pair := of_decide_eq_true same
    refine List.mem_map.2 ⟨f, (stays f hf).2 ?_, same⟩
    rw [same]
    exact survivor
  have fresh : ∀ p ∈ added.map (·.pair), p ∉ existing.map (·.pair) := by
    intro p listed present
    have satisfied := isSatisfied_of_mem present
    rw [(h.mem_added_iff.1 listed).2] at satisfied
    cases satisfied
  have once : (kept.map (·.pair) ++ added.map (·.pair)).Nodup := by
    refine List.nodup_append.2 ⟨distinct, ?_, ?_⟩
    · rw [List.map_congr_left fun a _ => a.pair_eq, h.asked]
      exact (references.nodup_imports.filter _).filter _
    · rintro p old _ new rfl
      exact fresh p new ((covers p).1 old)
  -- A request is satisfied by an import that is there, or it is added.
  refine ⟨distinct, covers, survives, fun path name demanded other => ?_,
    fun path demanded only => ?_, fun p listed => ?_⟩
  · refine List.count_eq_one_of_mem once (List.mem_append.2 ?_)
    have counts := mem_requests_iff.2 ⟨demanded, fun blank => absurd blank other⟩
    cases satisfied : isSatisfied existing path name with
    | true =>
      obtain ⟨e, he, rfl, local_⟩ := isSatisfied_iff.1 satisfied
      rw [← local_.resolve_left other]
      exact .inl ((covers _).2 (List.mem_map_of_mem he))
    | false => exact .inr (h.mem_added_iff.2 ⟨counts, satisfied⟩)
  · have counts := mem_requests_iff.2 ⟨demanded, fun _ => only⟩
    cases satisfied : isSatisfied existing path blankName with
    | true =>
      obtain ⟨e, he, rfl, -⟩ := isSatisfied_iff.1 satisfied
      exact ⟨e.localName, List.mem_append_left _ ((covers _).2 (List.mem_map_of_mem he))⟩
    | false => exact ⟨blankName, List.mem_append_right _ (h.mem_added_iff.2 ⟨counts, satisfied⟩)⟩
  · exact ⟨(mem_requests_iff.1 (h.mem_added_iff.1 listed).1).1, fresh p listed⟩

end

/-- Whenever reconciling the imports of a file succeeds, it removes the repeated ones and adds the
demanded ones that are missing. The imports whose nodes it does not remove and those that it adds
are what the file needs, once each. -/
theorem reconcile_complete {path text : Text} {b b' : Buffer}
    (parsed : SourceFile.parse path text = .ok file)
    (run : (reconcile importer file references b).Yields s (.ok b') s') :
    ∃ existing kept added, Reconciles importer file references b b' existing added ∧
      kept.Sublist existing ∧
      (∀ e ∈ existing, e ∈ kept ↔
        ¬ (e.spec ∈ removed file existing ∨ e.declaration ∈ removed file existing)) ∧
      Complete references existing kept added := by
  classical
  obtain ⟨existing, added, -, h⟩ := reconcile_yields run
  have tree := (SourceFile.tree_of_parse parsed).1
  let kept := existing.filter fun e => ExistingImport.survivorOf? existing e.pair = some e
  have stays : ∀ e ∈ existing,
      e ∈ kept ↔ ExistingImport.survivorOf? existing e.pair = some e := by
    intro e he
    rw [List.mem_filter, and_iff_right he, decide_eq_true_iff]
  refine ⟨existing, kept, added, h, List.filter_sublist, fun e he => ?_,
    h.complete (nodup_existing tree h.written) List.filter_sublist stays⟩
  rw [stays e he, removed_iff tree h.written he, not_not]

/-- A file that imports one package twice. -/
def repeating : Text :=
  "package p\n\nimport \"fmt\"\nimport (\n\tfmt \"fmt\"\n\t\"os\"\n)\n"

/-- The file with one import of each package, and those that were demanded. -/
def reconciled : Text :=
  ("package p\n\nimport (\n\tfmt \"fmt\"\n\t\"os\"\n)\n" : Text)
    ++ "//tool:startinstrument\nimport (\n\t_ \"net/http\"\n\to \"os\"\n)\n"
    ++ "//tool:endinstrument\n"

/-- A demand for a package that the file has, for one under another name, and for one without a
name. -/
def demanding : ReferenceMap :=
  ((ReferenceMap.empty.addImport "fmt" "fmt").addImport "os" "o").addImport "net/http" "_"

/-- Of the two imports of a package, the one that spells the name stays. -/
theorem reconcile_complete_repeating :
    ∃ file b' s' existing kept added, SourceFile.parse "p.go" repeating = .ok file ∧
      (reconcile ⟨noArchives, false⟩ file demanding (.ofSource file.source)).Yields .fresh (.ok b')
        s' ∧
      Reconciles ⟨noArchives, false⟩ file demanding (.ofSource file.source) b' existing added ∧
      Complete demanding existing kept added ∧
      b'.render.toOption.map Rendered.text = some reconciled := by
  -- The file imports the package twice, and the rendered result shows which import stayed.
  have passed : ((SourceFile.parse "p.go" repeating).toOption.bind fun file =>
      ((reconcile ⟨noArchives, false⟩ file demanding (.ofSource file.source)).run.run
        .fresh).1.toOption.bind fun answer => answer.toOption.map fun b =>
          decide (b.render.toOption.map Rendered.text = some reconciled)) = some true := by
    decide +kernel
  obtain ⟨file, parsed, passed⟩ := Option.bind_eq_some_iff.1 passed
  obtain ⟨answer, ran, passed⟩ := Option.bind_eq_some_iff.1 passed
  obtain ⟨b', done, rendered⟩ := Option.map_eq_some_iff.1 passed
  cases toOption_eq_some_iff.1 done
  have parsed := toOption_eq_some_iff.1 parsed
  obtain ⟨s', run⟩ := Importing.exists_yields_iff.2 (toOption_eq_some_iff.1 ran)
  obtain ⟨existing, kept, added, reconciles, -, -, complete⟩ := reconcile_complete parsed run
  exact ⟨file, b', s', existing, kept, added, parsed, run, reconciles, complete,
    of_decide_eq_true rendered⟩

end Imports

end Interlace
