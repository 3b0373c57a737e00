import Interlace.Proofs.Folds
import Interlace.Proofs.Matching
import Interlace.Proofs.Occurrence
import Interlace.Proofs.Verdict

/-!
# The estimate from the bytes of a file

What a join point looks for at a node of a checked file is written in the file: names are texts
of nodes, import paths are contents of literals, directives are comments. So a join point whose
name or path does not occur in the bytes of a file holds at no node of it.

## Key results

- `Decorations.ofTree_ofComments`: all decorations of a tree are meanings of comments
- `SourceFile.lead_isInfix_of_leadingDirective?`: a directive that is found is written in the file
- `JoinPoint.inFile_admits_of_isLeaf`: the estimate is sound for join points without parts
- `JoinPoint.inFile_sound`: the estimate from the bytes of a file is sound
-/

namespace Interlace

open Syntax Importing

/-! ## Where decorations come from -/

namespace Decorations

/-- The meaning of some comment of a source. -/
def IsMeaning (source : Text) (t : Trivia) : Prop :=
  ∃ comment, t = trivia source comment

/-- All decorations are meanings of comments of a source. -/
structure OfComments (source : Text) (d : Decorations) : Prop where
  before : ∀ e ∈ d.before, IsMeaning source e.2
  after : ∀ e ∈ d.after, IsMeaning source e.2

private theorem attach_ofComments {source : Text} {d : Decorations} (h : d.OfComments source)
    (site : CommentSite) : (attach source d site).OfComments source := by
  have extended : ∀ {l : List (Nat × Trivia)} (offset : Nat),
      (∀ e ∈ l, IsMeaning source e.2) →
      ∀ e ∈ l ++ [(offset, trivia source site.comment)], IsMeaning source e.2 := by
    intro l offset hl e he
    rcases List.mem_append.1 he with he | he
    · exact hl e he
    · cases List.mem_singleton.1 he
      exact ⟨site.comment, rfl⟩
  -- Being listed among the markers changes neither of the two lists.
  have marked : (if (trivia source site.comment).marker.isSome then
      { d with markers := d.markers ++ [trivia source site.comment] }
      else d).OfComments source := by
    split
    · exact ⟨h.before, h.after⟩
    · exact h
  unfold attach
  dsimp only
  split
  · split
    · exact ⟨marked.before, extended _ marked.after⟩
    · exact marked
  · split
    · exact ⟨extended _ marked.before, marked.after⟩
    · exact marked

/-- All decorations of a tree are meanings of comments. -/
theorem ofTree_ofComments (source : Text) (tree : Tree) :
    (ofTree source tree).OfComments source := by
  have empty : (⟨[], [], []⟩ : Decorations).OfComments source := ⟨by simp, by simp⟩
  exact foldl_keeps (K := OfComments source) (fun _ site _ h => attach_ofComments h site) empty

end Decorations

namespace SourceFile

variable {path bytes : Text} {file : SourceFile}

/-- A directive that decorates a node is written in the file. -/
theorem lead_isInfix_of_leadingDirective? (h : parse path bytes = .ok file) {node : Tree}
    {name : Text} (found : (file.decorations.leadingDirective? node name).isSome) :
    (("//" : Text) ++ name) <:+: bytes := by
  obtain ⟨d, found⟩ := Option.isSome_iff_exists.1 found
  have named : d.name = name := by simpa using List.find?_some found
  obtain ⟨t, ht, directive⟩ := List.mem_filterMap.1 (List.mem_of_find?_eq_some found)
  obtain ⟨e, he, rfl⟩ := List.mem_map.1 (List.mem_filter.1 ht).1
  rw [decorations_eq h] at he
  obtain ⟨comment, eq⟩ :=
    (Decorations.ofTree_ofComments _ _).before e (List.mem_filter.1 he).1
  rw [eq] at directive
  exact named ▸ (Directive.lead_isPrefix directive).isInfix.trans (text_isInfix h comment)

end SourceFile

/-! ## Join points -/

section

variable {path bytes : Text} {file : SourceFile} {importPath : Text} {files : List SourceFile}
  {bare types : PackageTypes} {index : Nat} {package : PackageInfo} {facts : FileFacts}

/-- The estimate is sound for join points without parts. -/
theorem JoinPoint.inFile_admits_of_isLeaf (parsed : SourceFile.parse path bytes = .ok file)
    (stages : Check.Stages (fun _ => True) importPath files bare types)
    (listed : files[index]? = some file) (hi : package.importPath = importPath)
    (hb : facts.bytes = bytes) (hp : facts.importPath = importPath)
    (hn : ∀ name ∈ facts.packageName, name = file.packageName) (site : Site)
    (point : JoinPoint) (leaf : point.IsLeaf) :
    (point.inFile facts).Admits (point.holdsAt ⟨file, index, types, package⟩ site) := by
  subst hb
  -- A text of a node is a text of the file, also behind a `//line` directive.
  have written : ∀ {name : Text},
      (∃ n, (⟨file, index, types, package⟩ : Scene).text n = name) →
        Text.contains facts.bytes name := by
    rintro name ⟨n, rfl⟩
    exact Text.contains_iff_isInfix.2 (SourceFile.text_isInfix parsed n)
  cases point with
  | allOf _ | oneOf _ | not _ => cases leaf
  | importPath _ | testMain _ | configuration _ | sourceFile | valueDeclaration _ =>
    exact Verdict.unknown_admits _
  | packageName name =>
    rw [inFile]
    cases scanned : facts.packageName with
    | none => exact Verdict.unknown_admits _
    | some declared =>
      cases hn declared (by rw [scanned]; rfl)
      exact Verdict.ofBool_admits _
  | functionDeclaration matcher =>
    rw [inFile]
    cases named : matcher.name with
    | none => exact Verdict.unknown_admits _
    | some name =>
      exact Verdict.possible_admits fun h => written (Scene.isFunction_needs h named)
  | functionCall called name =>
    refine Verdict.possible_admits fun h => ?_
    obtain ⟨text, source⟩ := Scene.isCall_needs h
    simp only [written text, Bool.true_and, Bool.or_eq_true, decide_eq_true_eq]
    -- A call through a package needs its import; without one, the package is the file's own.
    rcases source with ⟨n, object⟩ | ⟨n, declared, object⟩
    · obtain ⟨literal, rfl⟩ := stages.object_isLocal listed object
      refine .inr (Text.contains_iff_isInfix.2 ?_)
      exact (Text.unquote_isInfix _).trans (SourceFile.text_isInfix parsed literal)
    · exact .inl ((stages.object_isLocal listed object).trans hp.symm)
  | structLiteralField type field =>
    exact Verdict.possible_admits fun h => written (Scene.isLiteralField_needs h)
  | declarationOf declared name =>
    refine Verdict.possible_admits fun h => ?_
    obtain ⟨same, text⟩ := Scene.isDeclarationOf_needs h
    have own : declared = facts.importPath := same.symm.trans (hi.trans hp.symm)
    simp only [written text, own, decide_true, Bool.and_self]
  | directive name =>
    refine Verdict.possible_admits fun h => ?_
    simp only [holdsAt, Scene.hasDirective, Bool.and_eq_true] at h
    exact Text.contains_iff_isInfix.2 (SourceFile.lead_isInfix_of_leadingDirective? parsed h.2)

/-- The estimate from the bytes of a file is sound. At every place of a parsed and checked file, a
join point that was ruled out does not hold, and one that was promised holds. -/
theorem JoinPoint.inFile_sound (parsed : SourceFile.parse path bytes = .ok file)
    {version : Option Version} {importer : Importer} {before after : ImportState}
    (checked : (Check.package importPath version files importer).Yields before types after)
    (listed : files[index]? = some file) (hi : package.importPath = importPath)
    (hb : facts.bytes = bytes) (hp : facts.importPath = importPath)
    (hn : ∀ name ∈ facts.packageName, name = file.packageName)
    (point : JoinPoint) (site : Site) :
    (point.inFile facts = .never →
        point.holdsAt ⟨file, index, types, package⟩ site = false) ∧
      (point.inFile facts = .always →
        point.holdsAt ⟨file, index, types, package⟩ site = true) := by
  -- Nothing is asked of the importer here: only the spelling of imports matters.
  have unconditional : ∀ path, Ensures (fun _ => True) (importer.import? path) fun _ => True :=
    fun _ _ _ _ _ _ => ⟨trivial, trivial⟩
  obtain ⟨-, bare, stages⟩ :=
    Check.package_ensures unconditional importPath version files before types after trivial checked
  exact (inFile_estimate facts).admits
    (inFile_admits_of_isLeaf parsed stages listed hi hb hp hn site) point

end

/-- A file behind a `//line` directive, with an import and a call. -/
def calling : Text :=
  "//line app.tmpl:3\npackage app\nimport h \"net/http\"\nfunc f() \x7b h.Handle(a, b) \x7d\n"

/-- The file imports the package but does not call the function that is looked for, so a negated
join point holds at every place of it. -/
theorem JoinPoint.inFile_sound_calling :
    ∃ file types after,
      SourceFile.parse "app.go" calling = .ok file ∧
      (Check.package "app" none [file] ⟨noArchives, false⟩).Yields .fresh types after ∧
      (JoinPoint.not (.functionCall "net/http" "HandleFunc")).inFile
        ⟨calling, some ("app" : Text), "app"⟩ = .always ∧
      ∀ site, (JoinPoint.not (.functionCall "net/http" "HandleFunc")).holdsAt
        ⟨file, 0, types, ⟨"app", "app", false, .empty⟩⟩ site = true := by
  have passed : ((SourceFile.parse "app.go" calling).toOption.bind fun file =>
      ((Check.package "app" none [file] ⟨noArchives, false⟩).run.run .fresh).1.toOption.map
        fun _ => decide (file.packageName = "app")) = some true := by decide +kernel
  have estimate : (JoinPoint.not (.functionCall "net/http" "HandleFunc")).inFile
      ⟨calling, some ("app" : Text), "app"⟩ = .always := by decide +kernel
  obtain ⟨file, types, after, parsed, checked, named⟩ := Check.exists_of_test passed
  refine ⟨file, types, after, parsed, checked, estimate, fun site => ?_⟩
  refine (inFile_sound parsed checked rfl rfl rfl rfl ?_ _ site).2 estimate
  intro declared h
  cases h
  exact (of_decide_eq_true named).symm

end Interlace
