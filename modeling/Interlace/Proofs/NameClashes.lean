import Interlace.Proofs.AdviceOrder
import Interlace.Proofs.BoundNames
import Interlace.Proofs.BuiltReferences
import Interlace.Proofs.FileOrder
import Interlace.Proofs.ImportMemory
import Interlace.Proofs.WovenEdits

/-!
# Names that do not clash

All names under which added code asks for imports are names that packages were given, unless they
are blank. They mean nothing else in the file, and the imports that are reconciled are the ones that
the names were held against, so an import that is asked for never finds its name taken.

## Key results

- `Draft.Sound`: what is asked for goes by the names that packages were given
- `Advice.apply_sound`: every advice keeps this
- `Imports.reconcile_spares`: reconciling such imports finds no name taken
- `Weave.file_spares`: nor does weaving a file
- `Weave.file_names_clashFree`: the names of packages in a woven file
-/

namespace Interlace

open Syntax Importing

/-! ## What is asked for -/

namespace ReferenceMap

variable {m : ReferenceMap} {path wanted : Text}

private theorem imports_addRelocations (m : ReferenceMap) (links : List Text) :
    (links.foldl addRelocation m).imports = m.imports := by
  refine foldl_keeps (K := fun r : ReferenceMap => r.imports = m.imports)
    (fun r link _ same => ?_) rfl
  exact same

end ReferenceMap

/-- An import cannot be added because its name is taken. -/
def AdviceFault.isNameTaken : AdviceFault → Bool
  | nameTaken .. => true
  | _ => false

/-! ## Drafts -/

namespace Draft

/-- The names of packages are clash-free, and imports are asked for by these names only, or without
a name. -/
structure Sound (s : Scene) (d : Draft) : Prop where
  clashFree : ClashFree s d
  requested : ∀ path name, (path, name) ∈ d.references.imports →
    name = blankName ∨ d.names.get? path = some name

variable {s : Scene} {d d' : Draft} {site : Site}

private theorem sound_ofSource (s : Scene) (source : Text) : Sound s (ofSource source) :=
  ⟨clashFree_ofSource s source, nofun⟩

/-- Only the names and the requests count. -/
theorem Sound.congr (h : Sound s d) (names : d'.names = d.names)
    (imports : d'.references.imports = d.references.imports) : Sound s d' :=
  ⟨⟨fun path name => names ▸ h.clashFree.free path name,
    fun path other name => names ▸ h.clashFree.apart path other name⟩,
    fun path name => imports ▸ names ▸ h.requested path name⟩

private theorem references_bind (d : Draft) (s : Scene) (path wanted : Text) :
    (d.bind s path wanted).2.references = d.references := by
  unfold bind
  split
  · rfl
  · split <;> rfl

theorem references_localize (d : Draft) (s : Scene) (t : Template) (text : Text) :
    (d.localize s t text).2.references = d.references :=
  foldl_keeps (K := fun state : Text × Draft => state.2.references = d.references)
    (fun _ entry _ kept => (references_bind _ s entry.2 entry.1).trans kept) rfl

theorem Sound.bind (h : Sound s d) (path wanted : Text) : Sound s (d.bind s path wanted).2 := by
  refine ⟨h.clashFree.bind path wanted, fun other name asked => ?_⟩
  rw [references_bind] at asked
  exact (h.requested other name asked).imp_right (extends_bind d s path wanted other name)

/-- A package is asked for by the name that it was given. -/
theorem Sound.addImport {path name : Text} (h : Sound s d)
    (named : name = blankName ∨ d.names.get? path = some name) :
    Sound s (d.addImport path name) := by
  refine ⟨⟨h.clashFree.free, h.clashFree.apart⟩, fun other asked listed => ?_⟩
  rcases ReferenceMap.mem_imports_addImport.1 listed with ⟨rfl, rfl⟩ | before
  · exact named
  · exact h.requested other asked before

theorem Sound.request (h : Sound s d) (path : Text) {wanted : Text} (plain : wanted ≠ dotName) :
    Sound s ((d.bind s path wanted).2.addImport path (d.bind s path wanted).1) := by
  refine (h.bind path wanted).addImport ?_
  by_cases blank : wanted = blankName
  · -- Without a name, the package is not given one.
    rw [bind_of_unnamed fun named => named.1 blank]
    exact .inl blank
  · exact .inr (get?_bind d s path ⟨blank, plain⟩)

theorem Sound.localize (h : Sound s d) (t : Template) (text : Text) :
    Sound s (d.localize s t text).2 :=
  foldl_keeps (K := fun state : Text × Draft => Sound s state.2)
    (fun _ entry _ kept => kept.bind entry.2 entry.1) h

theorem Sound.useTemplate (h : Sound s d) {t : Template} (plain : dotName ∉ t.imports.keys) :
    Sound s (d.useTemplate s t) := by
  have kept := foldl_keeps (K := Sound s) (l := t.imports.entries)
    (fun (d : Draft) (entry : Text × Text) listed (kept : Sound s d) =>
      kept.request entry.2 fun dot => plain (dot ▸ List.mem_map_of_mem listed)) h
  unfold Draft.useTemplate
  cases t.version with
  | none => exact kept
  | some v => exact kept.congr rfl rfl

theorem Sound.wrapStatement (h : Sound s d) (statement : Tree) :
    Sound s (d.wrapStatement s statement) := by
  unfold Draft.wrapStatement
  split
  · exact h
  · dsimp only
    split <;> split <;> exact h.congr rfl rfl

/-! ## Outcomes -/

/-- An application gives a value with a property, or fails for another reason than a name that is
taken. -/
def Fares {α : Type} (Q : α → Prop) : Except AdviceFault α → Prop
  | .ok a => Q a
  | .error fault => fault.isNameTaken = false

variable {α β : Type} {Q : α → Prop} {R : β → Prop} {x : Except AdviceFault α}

private theorem fares_bind {f : α → Except AdviceFault β} (hx : Fares Q x)
    (hf : ∀ a, Q a → Fares R (f a)) : Fares R (x >>= f) := by
  cases x with
  | ok a => exact hf a hx
  | error fault => exact hx

private theorem fares_render (t : Template) (hole : Option Text) :
    Fares (fun _ => True) (s.render site t hole) := by
  unfold Scene.render
  split
  · trivial
  · rfl

private theorem fares_statement (site : Site) : Fares (fun _ => True) (Scene.statement site) := by
  unfold Scene.statement
  split
  · trivial
  · rfl

theorem Sound.prependToBody (h : Sound s d) (body : Tree) (statements : Text) :
    Fares (fun d' => Sound s d' ∧ d'.names = d.names) (d.prependToBody s body statements) := by
  unfold Draft.prependToBody
  split
  · rfl
  · dsimp only
    split <;> exact ⟨h.congr rfl rfl, rfl⟩

theorem Sound.wrapNode (h : Sound s d) (target : Tree) (t : Template) :
    Fares (Sound s) (d.wrapNode s site target t) := by
  unfold Draft.wrapNode
  split
  · rfl
  · refine fares_bind (fares_render t _) fun rendered _ => ?_
    split
    · rfl
    · rename_i before after _
      dsimp only
      split
      · rfl
      · exact ((h.localize t before).localize t after).congr rfl rfl

theorem Sound.inStatement (h : Sound s d) {change : Draft → Except AdviceFault Draft}
    (changes : Fares (Sound s) (change d)) :
    Fares (fun r => Sound s r.2) (d.inStatement s site change) := by
  unfold Draft.inStatement
  refine fares_bind (fares_statement site) fun statement _ => ?_
  split
  · exact h
  · exact fares_bind changes fun d' kept => kept.wrapStatement statement

theorem Sound.inBody (h : Sound s d) {advice : Text} {node : Tree}
    {change : Tree → Except AdviceFault Draft} (changes : ∀ body, Fares (Sound s) (change body)) :
    Fares (fun r => Sound s r.2) (d.inBody s advice node change) := by
  unfold Draft.inBody
  split
  · rfl
  · split
    · exact h
    · rename_i body _
      split
      · exact h
      · have changed := changes body
        cases done : change body with
        | ok d' =>
          rw [done] at changed
          exact changed
        | error fault =>
          rw [done] at changed
          exact changed

end Draft

/-! ## Advice -/

namespace Advice

open Draft

/-- The names that an advice asks for. -/
def wantedNames : Advice → List Text
  | wrapCallArgument _ template | wrapExpression template | assignValue template
  | prependStatements template | injectDeclarations template _ => template.imports.keys
  | reportSpan _ | addBlankImport _ => []
  | replaceCallTarget _ _ wanted => [wanted]

variable {s : Scene} {d : Draft} {site : Site}

private theorem wrapExpression_sound (h : Sound s d) {t : Template}
    (plain : dotName ∉ t.imports.keys) :
    Fares (fun r => Sound s r.2) (d.wrapExpression s site t) := by
  -- Whatever is wrapped, the names are those of the template.
  have change (target : Tree) : Fares (Sound s)
      (do return (← d.wrapNode s site target t).useTemplate s t : Except AdviceFault Draft) :=
    fares_bind (h.wrapNode target t) fun _ kept => kept.useTemplate plain
  unfold Draft.wrapExpression
  dsimp only
  split
  case h_1 | h_2 | h_3 =>
    rw [pure_bind]
    split
    · rfl
    · exact h.inStatement (change _)
  case h_4 => rfl

private theorem giveValue_sound (h : Sound s d) {t : Template} (plain : dotName ∉ t.imports.keys) :
    Fares (fun r => Sound s r.2) (d.giveValue s site t) := by
  unfold Draft.giveValue
  dsimp only
  split
  · rfl
  · refine h.inStatement ?_
    split
    · rfl
    · refine fares_bind (fares_render t none) fun value _ => ?_
      refine Sound.useTemplate ?_ plain
      exact (h.localize t value).congr rfl rfl

private theorem spanStatements_sound (h : Sound s d) (site : Site) (tool tags : Text) :
    Sound s (d.spanStatements s site tool tags).2 ∧
      d.Extends (d.spanStatements s site tool tags).2 := by
  unfold Draft.spanStatements
  dsimp only
  split
  · exact ⟨h, .refl d⟩
  · exact ⟨h, .refl d⟩
  · exact ⟨h.request "context" (by decide), extends_bind d s "context" "context"⟩

private theorem reportSpan_sound (h : Sound s d) (tags : Dict Text) :
    Fares (fun r => Sound s r.2) (d.reportSpan s site tags) := by
  refine h.inBody fun body => ?_
  have toolNamed := get?_bind d s toolPath (show IsName toolAlias from ⟨by decide, by decide⟩)
  obtain ⟨spanned, more⟩ := spanStatements_sound (h.bind toolPath toolAlias) site
    (d.bind s toolPath toolAlias).1 (spanTags s site tags)
  -- The package of the tool has its name while the block is written, and after.
  refine fares_bind (spanned.prependToBody body _) fun d' kept => kept.1.addImport (.inr ?_)
  rw [kept.2]
  exact more _ _ toolNamed

private theorem replaceCallTarget_sound (h : Sound s d) (source target : Text) {wanted : Text}
    (plain : wanted ≠ dotName) :
    Fares (fun r => Sound s r.2) (d.replaceCallTarget s site source target wanted) := by
  unfold Draft.replaceCallTarget
  dsimp only
  split
  · rfl
  · split
    · rfl
    · split
      · split
        · rfl
        · exact h.inStatement ((h.request target plain).congr rfl rfl)
      · rfl

private theorem injectDeclarations_sound (h : Sound s d) {t : Template} (links : List Text)
    (plain : dotName ∉ t.imports.keys) :
    Fares (fun r => Sound s r.2) (d.injectDeclarations s site t links) := by
  unfold Draft.injectDeclarations
  split
  · rfl
  · refine fares_bind (fares_render t none) fun rendered _ => ?_
    dsimp only
    split
    · exact h.localize t rendered
    · refine Sound.useTemplate ?_ plain
      exact (h.localize t rendered).congr rfl (ReferenceMap.imports_addRelocations _ links)

/-- An advice that asks for no dot keeps the names sound, and does not find a name taken. -/
theorem apply_sound (h : Sound s d) (site : Site) {a : Advice} (plain : dotName ∉ a.wantedNames) :
    Fares (fun r => Sound s r.2) (a.apply s site d) := by
  -- Each kind of advice binds the names of its template, and those are free of the dot.
  cases a with
  | wrapCallArgument index t =>
    show Fares _ (d.wrapCallArgument s site index t)
    unfold Draft.wrapCallArgument
    split
    · rfl
    · refine h.inStatement ?_
      dsimp only
      split
      · rfl
      · exact fares_bind (h.wrapNode _ t) fun _ kept => kept.useTemplate plain
  | wrapExpression t => exact wrapExpression_sound h plain
  | assignValue t =>
    show Fares _ (d.assignValue s site t)
    unfold Draft.assignValue
    split
    · exact wrapExpression_sound h plain
    · exact giveValue_sound h plain
  | prependStatements t =>
    refine h.inBody fun body => ?_
    refine fares_bind (fares_render t none) fun statements _ => ?_
    exact fares_bind ((h.localize t statements).prependToBody body _)
      fun _ kept => kept.1.useTemplate plain
  | reportSpan tags => exact reportSpan_sound h tags
  | addBlankImport path => exact h.addImport (.inl rfl)
  | replaceCallTarget source target wanted =>
    exact replaceCallTarget_sound h source target fun dot => plain (dot ▸ List.mem_singleton_self _)
  | injectDeclarations t links => exact injectDeclarations_sound h links plain

end Advice

/-! ## Runs -/

/-- The failure is that of an import whose name is taken. -/
def Failure.isClash : Failure → Bool
  | advice _ _ _ fault => fault.isNameTaken
  | _ => false

namespace Importing

/-- Runs keep `I`, and give values with a property or fail for another reason than a name that is
taken. -/
def Spares {α : Type} (I : ImportState → Prop) (x : Importing α) (Q : α → Prop) : Prop :=
  ∀ s, I s → I (x.run.run s).2 ∧
    match (x.run.run s).1 with
    | .ok a => Q a
    | .error failure => failure.isClash = false

variable {α β : Type} {I : ImportState → Prop} {x : Importing α} {Q : α → Prop} {R : β → Prop}

private theorem spares_pure {a : α} (h : Q a) : Spares I (pure a) Q :=
  fun _ hs => ⟨hs, h⟩

private theorem spares_throw {failure : Failure} (other : failure.isClash = false) :
    Spares I (throw failure : Importing α) Q :=
  fun _ hs => ⟨hs, other⟩

private theorem spares_bind {f : α → Importing β} (hx : Spares I x Q)
    (hf : ∀ a, Q a → Spares I (f a) R) : Spares I (x >>= f) R := by
  intro s hs
  obtain ⟨kept, first⟩ := hx s hs
  rw [run_bind]
  rcases ran : x.run.run s with ⟨failure | a, s'⟩ <;> rw [ran] at kept first
  · exact ⟨kept, first⟩
  · exact hf a first s' kept

private theorem spares_mono {Q' : α → Prop} (hx : Spares I x Q) (h : ∀ a, Q a → Q' a) :
    Spares I x Q' := by
  intro s hs
  obtain ⟨kept, first⟩ := hx s hs
  refine ⟨kept, ?_⟩
  rcases ran : (x.run.run s).1 with failure | a <;> rw [ran] at first
  · exact first
  · exact h a first

private theorem spares_mapM {f : α → Importing β} {T : α → β → Prop} {l : List α}
    (h : ∀ a ∈ l, Spares I (f a) (T a)) : Spares I (l.mapM f) (List.Forall₂ T l) := by
  induction l with
  | nil => exact spares_pure .nil
  | cons a l ih =>
    rw [List.mapM_cons]
    refine spares_bind (h a List.mem_cons_self) fun b hb => ?_
    refine spares_bind (ih fun c hc => h c (List.mem_cons_of_mem a hc)) fun bs hbs => ?_
    exact spares_pure (.cons hb hbs)

end Importing

/-! ## Looking up -/

namespace Importer

variable {importer : Importer} {before : ImportState} {path : Text}

private theorem interpret_isClash {answer : Except Failure (Option Text)} {failure : Failure}
    (h : interpret path answer = .error failure) : failure.isClash = false := by
  unfold interpret at h
  split at h
  · cases h
  · cases h
  · split at h
    · rename_i fatal
      cases h
      cases failure <;> first | rfl | cases fatal
    · cases h
      rfl

private theorem answer_isClash {failure : Failure}
    (h : importer.answer before path = .error failure) : failure.isClash = false := by
  unfold answer at h
  split at h
  · cases h
  · split at h
    · cases h
      rfl
    · exact interpret_isClash h

/-- What is looked up is the answer that was given before. -/
private theorem fetch_spares (importer : Importer) (before : ImportState) (path : Text) :
    Spares (importer.Agree before) (importer.fetch path) fun _ => True := by
  intro s same
  refine ⟨same.trans (fetch_agree importer path s), ?_⟩
  rw [fetch_eq_answer]
  rcases found : importer.answer s path with failure | info
  · exact answer_isClash found
  · trivial

private theorem import?_spares (importer : Importer) (before : ImportState) (path : Text) :
    Spares (importer.Agree before) (importer.import? path) fun _ => True := by
  unfold import?
  split
  · exact spares_pure trivial
  · refine spares_bind (fetch_spares importer before path) fun info _ => ?_
    split
    · exact spares_pure trivial
    · -- An import is refused for its archive, never for a name.
      rename_i failure refused
      refine spares_throw ?_
      unfold vet at refused
      split at refused
      · split at refused
        · cases refused
        · cases refused
          rfl
      · cases refused

/-- The name of a package is the one that was found before. -/
private theorem packageName_spares (importer : Importer) (before : ImportState) (path : Text) :
    Spares (importer.Agree before) (importer.packageName path)
      fun name => ((importer.packageName path).run.run before).1 = .ok name := by
  have found : Spares (importer.Agree before) (importer.packageName path) fun _ => True := by
    unfold packageName
    exact spares_bind (import?_spares importer before path) fun _ _ => spares_pure trivial
  intro s same
  obtain ⟨kept, first⟩ := found s same
  refine ⟨kept, ?_⟩
  rw [(packageName_transparent importer path).result before s same]
  rcases ran : ((importer.packageName path).run.run s).1 with failure | name
  · rwa [ran] at first
  · rfl

end Importer

/-! ## The imports of a checked file -/

namespace ExistingImport

/-- The local name of an import, as the importer had it before. -/
def Called (importer : Importer) (before : ImportState) (path : Text) (givenName : Option Text)
    (name : Text) : Prop :=
  match givenName with
  | some given => name = given
  | none => ((importer.packageName path).run.run before).1 = .ok name

variable {importer : Importer} {before : ImportState} {file : SourceFile}

private theorem ofFile_spares (importer : Importer) (before : ImportState) (file : SourceFile) :
    Spares (importer.Agree before) (ofFile importer file) fun existing =>
      ∀ e ∈ existing, e.written ∈ writtenIn file ∧
        Called importer before e.path e.givenName e.localName := by
  have one (w : Tree × Tree × Text × Option Text) :
      Spares (importer.Agree before) (complete importer w) fun e =>
        e.written = w ∧ Called importer before e.path e.givenName e.localName := by
    obtain ⟨declaration, spec, path, givenName⟩ := w
    cases givenName with
    | some name => exact spares_pure ⟨rfl, rfl⟩
    | none =>
      exact spares_bind (importer.packageName_spares before path)
        fun name named => spares_pure ⟨rfl, named⟩
  rw [ofFile_eq]
  refine spares_mono (spares_mapM fun w _ => one w) fun existing all e he => ?_
  obtain ⟨w, listed, rfl, called⟩ := exists_of_forall₂ all he
  exact ⟨listed, called⟩

end ExistingImport

namespace Check

open ExistingImport

variable {importer : Importer} {before : ImportState} {file : SourceFile}

/-- The imports that checking lists are those that are written in the file, with their names. -/
private theorem importsIn_eq_ok {imports : List ImportedPackage}
    (h : importsIn importer before file = .ok imports) {path : Text} {givenName : Option Text}
    {declaration spec : Tree} (written : (declaration, spec, path, givenName) ∈ writtenIn file) :
    ∃ i ∈ imports, i.path = path ∧ Called importer before path givenName i.localName := by
  -- The importer only looks names up, so the list is read as if it had no state.
  have transparent (part : Text × Option Text) :
      Transparent importer (importOf importer part.1 part.2) :=
    importOf_transparent importer part.1 part.2
  have listed : (path, givenName) ∈ (importSpecs file).filterMap (specParts? file) := by
    obtain ⟨above, top, here⟩ := List.mem_flatMap.1 written
    obtain ⟨node, below, parts⟩ := List.mem_filterMap.1 here
    obtain ⟨_, found, eq⟩ := Option.map_eq_some_iff.1 parts
    cases eq
    exact List.mem_filterMap.2 ⟨_, List.mem_flatMap.2 ⟨_, top, below⟩, found⟩
  unfold importsIn importsOf at h
  rw [result_mapM transparent, mapM_eq_ok_iff] at h
  obtain ⟨i, hi, found⟩ := exists_of_forall₂ h.flip listed
  refine ⟨i, hi, ?_⟩
  cases givenName with
  | some name =>
    rw [importOf, result_bind] at found
    obtain ⟨_, -, made⟩ := bind_eq_ok_iff.1 found
    cases made
    exact ⟨rfl, rfl⟩
  | none =>
    rw [importOf, result_bind] at found
    obtain ⟨name, named, made⟩ := bind_eq_ok_iff.1 found
    cases made
    exact ⟨rfl, named⟩

/-- In a checked package, the name of an import means something else than every other path. -/
private theorem binds_of_called {importPath : Text} {version : Option Version}
    {files : List SourceFile} {types : PackageTypes} {after : ImportState} {index : Nat}
    (checked : (package importPath version files importer).Yields before types after)
    (hf : files[index]? = some file) {e : ExistingImport} (written : e.written ∈ writtenIn file)
    (called : Called importer before e.path e.givenName e.localName) {path : Text}
    (other : e.path ≠ path) : types.binds index e.localName path = true := by
  obtain ⟨base, built, rfl⟩ := exists_yields_package_iff.1 ⟨after, checked⟩
  obtain ⟨imports, found, known⟩ := built.file?_eq hf
  obtain ⟨i, hi, same, named⟩ := importsIn_eq_ok found written
  -- What the importer says of a path is one name.
  have name : i.localName = e.localName := by
    cases given : e.givenName with
    | some name =>
      rw [given] at called named
      exact named.trans called.symm
    | none =>
      rw [given] at called named
      exact Except.ok.inj (named.symm.trans called)
  have walked := built.imports_resolveUses hf
  rw [file?_typed, known] at walked
  obtain ⟨f, there, eq⟩ := Option.map_eq_some_iff.1 walked
  unfold PackageTypes.binds
  rw [there]
  refine Bool.or_eq_true_iff.2 (.inr (Bool.or_eq_true_iff.2 (.inr ?_)))
  refine List.any_eq_true.2 ⟨i, eq ▸ hi, ?_⟩
  simp [name, same, other]

end Check

/-! ## Reconciling -/

namespace Imports

variable {importer : Importer} {before : ImportState} {file : SourceFile}
  {existing : List ExistingImport}

/-- Where no name is taken, the lines of all imports that are missing are found. -/
private theorem missing_spares {demands : List (Text × Text)}
    (free : ∀ demand ∈ demands, clash? existing demand.1 demand.2 = none) :
    Spares (importer.Agree before) (missing importer existing demands)
      fun lines => ∃ added, lines = .ok added := by
  -- The induction is on the imports that are asked for; none of them finds its name taken.
  induction demands with
  | nil => exact spares_pure ⟨[], rfl⟩
  | cons demand demands ih =>
    obtain ⟨path, wanted⟩ := demand
    obtain ⟨here, rest⟩ := List.forall_mem_cons.1 free
    rw [missing]
    split
    · exact ih rest
    · rw [here]
      refine spares_bind (importer.import?_spares before path) fun info _ => ?_
      refine spares_bind (ih rest) fun lines found => ?_
      obtain ⟨added, rfl⟩ := found
      exact spares_pure ⟨_, rfl⟩

/-- If requests go by names that mean nothing else in the checked file, reconciling finds no name
taken. -/
theorem reconcile_spares {importPath : Text} {version : Option Version} {files : List SourceFile}
    {types : PackageTypes} {after : ImportState} {index : Nat} {references : ReferenceMap}
    (checked : (Check.package importPath version files importer).Yields before types after)
    (hf : files[index]? = some file)
    (free : ∀ path name, (path, name) ∈ references.imports →
      name = blankName ∨ types.binds index name path = false) (b : Buffer) :
    Spares (importer.Agree before) (reconcile importer file references b)
      fun r => ∀ fault, r = .error fault → fault.isNameTaken = false := by
  unfold reconcile
  refine spares_bind (ExistingImport.ofFile_spares importer before file) fun existing known => ?_
  -- An import that has the name for another path would bind it in the checked file.
  have unclaimed : ∀ demand ∈ requests references, clash? existing demand.1 demand.2 = none := by
    intro (path, wanted) demanded
    unfold clash?
    split
    · rfl
    · rename_i named
      refine List.find?_eq_none.2 fun e he claims => ?_
      obtain ⟨rfl, other⟩ : e.localName = wanted ∧ e.path ≠ path := by simpa using claims
      obtain ⟨written, called⟩ := known e he
      have unbound := (free path e.localName (mem_requests_iff.1 demanded).1).resolve_left named
      rw [Check.binds_of_called checked hf written called other] at unbound
      cases unbound
  refine spares_bind (missing_spares unclaimed) fun lines found => ?_
  obtain ⟨added, rfl⟩ := found
  dsimp only
  split
  · exact spares_pure nofun
  · split
    · exact spares_pure fun fault eq => by cases eq; rfl
    · exact spares_pure nofun

end Imports

/-! ## Weaving -/

namespace Weave

open Draft

variable {s : Scene} {aspects : List Aspect} {importer : Importer}

/-- Tasks keep the names sound. -/
theorem Performs.sound {ts : List Task} {p q : Progress} (h : Performs s p ts q)
    (plain : ∀ t ∈ ts, dotName ∉ t.advice.wantedNames) (sound : Sound s p.1) : Sound s q.1 := by
  induction h with
  | nil p => exact sound
  | @cons d d' applied changed q t ts applies _ ih =>
    obtain ⟨first, rest⟩ := List.forall_mem_cons.1 plain
    have fares := Advice.apply_sound sound t.site first
    rw [applies] at fares
    exact ih rest fares

/-- The advice of a task is that of an aspect. -/
theorem advice_of_mem_tasks {t : Task} (h : t ∈ tasks s aspects) :
    ∃ aspect ∈ aspects, t.advice ∈ aspect.advice := by
  obtain ⟨site, -, here⟩ := List.mem_flatMap.1 h
  obtain ⟨aspect, matching, here⟩ := List.mem_flatMap.1 here
  obtain ⟨⟨advice, index⟩, listed, rfl⟩ := List.mem_map.1 here
  exact ⟨aspect, List.mem_of_mem_filter matching, List.fst_mem_of_mem_zipIdx listed⟩

private theorem render_isNameTaken {file : SourceFile} {lines : Bool} {b : Buffer}
    {fault : AdviceFault} (h : render file lines b = .error fault) : fault.isNameTaken = false := by
  unfold render Positions.annotate at h
  split at h
  · split at h
    · cases h
      rfl
    · split at h <;> cases h
      rfl
  · split at h <;> cases h
    rfl

/-- Rendering a file does not fail for a name that is taken. -/
private theorem publish_spares (K : ImportState → Prop) (s : Scene) (lines : Bool) (d : Draft)
    (b : Buffer) : Spares K (publish s lines d b) fun _ => True := by
  unfold publish
  split
  · exact spares_pure trivial
  · split
    · exact spares_pure trivial
    · rename_i faulty
      exact spares_throw (render_isNameTaken faulty)

/-- Weaving a checked file finds no name taken when reconciling its imports, if no aspect asks for a
dot. -/
theorem file_spares {importPath : Text} {version : Option Version} {files : List SourceFile}
    {before after : ImportState}
    (checked : (Check.package importPath version files importer).Yields before s.types after)
    (hf : files[s.index]? = some s.file)
    (plain : ∀ aspect ∈ aspects, ∀ a ∈ aspect.advice, dotName ∉ a.wantedNames) (lines : Bool) :
    Spares (importer.Agree before) (file s aspects importer lines) fun _ => True := by
  have plain : ∀ t ∈ tasks s aspects, dotName ∉ t.advice.wantedNames := by
    intro t ht
    obtain ⟨aspect, listed, here⟩ := advice_of_mem_tasks ht
    exact plain aspect listed t.advice here
  have start := sound_ofSource s s.file.source
  rcases (file_performs s aspects importer lines).1 with
    ⟨p, performs, eq⟩ | ⟨done, t, rest, d, applied, fault, split, performs, stops, eq⟩
  · have sound := performs.sound plain start
    rw [eq]
    unfold finish
    split
    · have reconciled := Imports.reconcile_spares checked hf
        (fun path name asked => (sound.requested path name asked).imp_right
          (sound.clashFree.free path name)) p.1.buffer
      refine spares_bind reconciled fun r fine => ?_
      cases r with
      | ok b => exact publish_spares _ s lines p.1 b
      | error fault => exact spares_throw (fine fault rfl)
    · exact publish_spares _ s lines p.1 p.1.buffer
  · -- An advice fails before the imports are reconciled, and not for a name that is taken.
    rw [eq]
    have before : ∀ u ∈ done, dotName ∉ u.advice.wantedNames :=
      fun u hu => plain u (split ▸ List.mem_append_left _ hu)
    have fares := Advice.apply_sound (performs.sound before start) t.site
      (plain t (split ▸ List.mem_append_right _ List.mem_cons_self))
    rw [stops] at fares
    exact spares_throw fares

/-- Whatever calls ask for names while a file is woven, they end, tell packages apart and give no
name that means anything else. So when a checked file is woven with aspects that ask for no dot,
reconciling its imports finds no name taken. -/
theorem file_names_clashFree (s : Scene) :
    (∀ source calls, (∀ call ∈ calls, IsName call.2) → TellsApart s (.ofSource source) calls) ∧
    ∀ importer importPath version files before after,
      (Check.package importPath version files importer).Yields before s.types after →
      files[s.index]? = some s.file →
      ∀ aspects : List Aspect,
        (∀ aspect ∈ aspects, ∀ a ∈ aspect.advice, dotName ∉ a.wantedNames) →
        ∀ lines state, importer.Agree before state →
          ∀ path aspect index request name holder,
            ((file s aspects importer lines).run.run state).1 ≠
              .error (.advice path aspect index (.nameTaken request name holder)) := by
  refine ⟨fun source calls asked => bindAll_tellsApart s source asked, ?_⟩
  intro importer importPath version files before after checked hf aspects plain lines state same
    path aspect index request name holder failed
  have spared := (file_spares checked hf plain lines state same).2
  rw [failed] at spared
  cases spared

/-- A file that imports one package as `tool` and declares `__tool`. -/
def takenNames : Text :=
  "package p\n\nimport \"a/tool\"\n\nfunc __tool() \x7b\n\ttool.Run()\n\x7d\n"

/-- An aspect that asks for another package as `tool`. -/
def askingAspect : Aspect :=
  ⟨"asking", false, .sourceFile,
    [.injectDeclarations ⟨"var x = tool.New()", .ofList [("tool", "b/tool")], none⟩ []]⟩

/-- The third name that is tried is free; another package gets the one after it. -/
theorem file_names_clashFree_taken :
    ∃ file types after, SourceFile.parse "p.go" takenNames = .ok file ∧
      (Check.package "p" none [file] ⟨noArchives, false⟩).Yields .fresh types after ∧
      let s : Scene := SourceOptions.standard.scene file types
      let calls : List (Text × Text) := [("b/tool", "tool"), ("c/tool", "tool"), ("b/tool", "kit")]
      (bindAll s (.ofSource file.source) calls).1 = ["__tool2", "__tool3", "__tool2"] ∧
      TellsApart s (.ofSource file.source) calls ∧
      ∀ path aspect index request name holder,
        ((Weave.file s [askingAspect] ⟨noArchives, false⟩ false).run.run .fresh).1 ≠
          .error (.advice path aspect index (.nameTaken request name holder)) := by
  -- The file has the name and its first variants, so these are passed over.
  have passed : ((SourceFile.parse "p.go" takenNames).toOption.bind fun file =>
      ((Check.package "p" none [file] ⟨noArchives, false⟩).run.run .fresh).1.toOption.map
        fun types =>
          decide ((bindAll (SourceOptions.standard.scene file types) (.ofSource file.source)
            [("b/tool", "tool"), ("c/tool", "tool"), ("b/tool", "kit")]).1 =
              ["__tool2", "__tool3", "__tool2"])) = some true := by decide +kernel
  obtain ⟨file, types, after, parsed, checked, names⟩ := Check.exists_of_test passed
  obtain ⟨told, spared⟩ := file_names_clashFree (SourceOptions.standard.scene file types)
  refine ⟨file, types, after, parsed, checked, of_decide_eq_true names,
    told file.source _ ?_, spared _ _ _ _ _ _ checked rfl [askingAspect] ?_ false .fresh
      fun _ => rfl⟩
  · intro call listed
    simp only [List.mem_cons, List.not_mem_nil, or_false] at listed
    rcases listed with rfl | rfl | rfl <;> exact ⟨by decide, by decide⟩
  · intro aspect listed a ha
    cases List.mem_singleton.1 listed
    cases List.mem_singleton.1 ha
    decide

end Weave

end Interlace
