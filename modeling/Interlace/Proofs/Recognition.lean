import Interlace.Package.Source
import Interlace.Proofs.CheckedPackage
import Interlace.Proofs.DraftGrowth
import Interlace.Proofs.Walking

/-!
# Recognizing woven code

Weaving finds nothing to do in a file exactly if every place where an aspect applies carries the
marks of an earlier run. Then the text is given back as it is.

## Key results

- `Weave.isSettled`: every place where an aspect applies carries the marks of an earlier run
- `Weave.run_eq_self_iff`: the walk over a file changes nothing iff the file is settled
- `Weave.file_unchanged_iff`: the same for weaving as a whole
- `wovenText?_eq_none_iff`: the same for a text
-/

namespace Interlace

open Syntax Importing

namespace Weave

/-! ## Settled files -/

/-- Weaving passes over the place: it is not a named node, it or a node above it is to be ignored,
or its statement is marked as instrumented by hand. -/
def isPassedOver (file : SourceFile) (site : Site) : Bool :=
  (site.node :: site.ancestors).any (isIgnored file) || ! site.node.isNamed
    || isInstrumented file site

/-- Every aspect that applies at a place was applied there by an earlier run. -/
def isSettledAt (s : Scene) (aspects : List Aspect) (site : Site) : Bool :=
  aspects.all fun aspect =>
    ! aspect.joinPoint.holdsAt s site || aspect.advice.all (·.isSettled s site)

/-- Every place where an aspect applies carries the marks of an earlier run. -/
def isSettled (s : Scene) (aspects : List Aspect) : Bool :=
  s.file.tree.sites.all fun site => isPassedOver s.file site || isSettledAt s aspects site

/-- All advice of the aspects puts markers around what it changes. -/
def allMark (aspects : List Aspect) : Bool :=
  aspects.all fun aspect => aspect.advice.all Advice.marks

/-! ## One place -/

variable {s : Scene} {site : Site} {aspects : List Aspect}

/-- The number of edits. -/
def rank (p : Progress) : Nat :=
  p.1.size

/-- Applies one advice of an aspect. -/
def applyOne (s : Scene) (site : Site) (aspect : Text) (p : Progress) :
    Advice × Nat → Except AdviceFailure Progress
  | (a, index) =>
    match a.apply s site p.1 with
    | .error fault => .error ⟨aspect, index, fault⟩
    | .ok (changed, d) => .ok (d, if changed then p.2 + 1 else p.2)

theorem applyAll_eq_foldlM (aspect : Text) (index : Nat) (advice : List Advice) (p : Progress) :
    applyAll s site aspect index advice p =
      (advice.zipIdx index).foldlM (applyOne s site aspect) p := by
  induction advice generalizing index p with
  | nil => rfl
  | cons a advice ih =>
    rw [applyAll, List.zipIdx_cons, List.foldlM_cons, applyOne]
    cases a.apply s site p.1 with
    | error fault => rfl
    | ok result => exact ih (index + 1) _

section

variable (aspect : Text) {a : Advice} (marks : a.marks) (index : Nat) {p q : Progress}

include marks

private theorem applyOne_of_isSettled (settled : a.isSettled s site) (p : Progress) :
    applyOne s site aspect p (a, index) = .ok p := by
  rw [applyOne, (Advice.apply_outcome s site p.1 marks).kept settled]
  rfl

private theorem rank_lt_of_applyOne (unsettled : a.isSettled s site = false)
    (h : applyOne s site aspect p (a, index) = .ok q) : rank p < rank q := by
  rw [applyOne] at h
  cases result : a.apply s site p.1 with
  | error fault =>
    rw [result] at h
    cases h
  | ok pair =>
    rw [result] at h
    cases h
    -- The count of applications does not enter the rank.
    exact (Advice.apply_outcome s site p.1 marks).added unsettled pair.1 pair.2 result

/-- Applying one advice is rising. -/
private theorem applyOne_rising : Rising rank (applyOne s site aspect · (a, index)) := by
  intro p q h
  cases settled : a.isSettled s site with
  | true =>
    have kept := applyOne_of_isSettled aspect marks index settled p
    exact .inl (Except.ok.inj (h.symm.trans kept))
  | false => exact .inr (rank_lt_of_applyOne aspect marks index settled h)

/-- One advice changes nothing iff the place is settled. -/
theorem applyOne_eq_self_iff :
    applyOne s site aspect p (a, index) = .ok p ↔ a.isSettled s site := by
  refine ⟨fun h => ?_, fun settled => applyOne_of_isSettled aspect marks index settled p⟩
  by_contra unsettled
  rw [Bool.not_eq_true] at unsettled
  exact Nat.lt_irrefl _ (rank_lt_of_applyOne aspect marks index unsettled h)

end

section

variable {aspect : Aspect} (marks : aspect.advice.all Advice.marks)

include marks

private theorem applyOne_rising_of_mem : ∀ entry ∈ aspect.advice.zipIdx,
    Rising rank (applyOne s site aspect.id · entry) := by
  intro entry he
  exact applyOne_rising aspect.id (List.all_eq_true.1 marks _ (List.fst_mem_of_mem_zipIdx he)) _

/-- Applying all advice of an aspect is rising. -/
private theorem applyAll_rising : Rising rank (applyAll s site aspect.id 0 aspect.advice) := by
  rw [funext (applyAll_eq_foldlM aspect.id 0 aspect.advice)]
  exact Rising.foldlM (applyOne_rising_of_mem marks)

/-- All advice of an aspect changes nothing iff the place is settled. -/
theorem applyAll_eq_self_iff {p : Progress} :
    applyAll s site aspect.id 0 aspect.advice p = .ok p ↔
      aspect.advice.all (·.isSettled s site) := by
  rw [applyAll_eq_foldlM, Rising.foldlM_eq_self_iff (applyOne_rising_of_mem marks),
    List.all_eq_true]
  -- The fold runs over advice with its index, on which settling does not depend.
  constructor
  · intro h a ha
    obtain ⟨index, _, rfl⟩ := List.getElem_of_mem ha
    refine (applyOne_eq_self_iff aspect.id (List.all_eq_true.1 marks _ ha) index).1 (h _ ?_)
    exact List.mk_mem_zipIdx_iff_getElem?.2 (List.getElem?_eq_getElem _)
  · intro h entry he
    have ha := List.fst_mem_of_mem_zipIdx he
    exact (applyOne_eq_self_iff aspect.id (List.all_eq_true.1 marks _ ha) _).2 (h _ ha)

end

/-- What an aspect does at a place: all its advice if its join point holds. -/
def applyAspect (s : Scene) (site : Site) (p : Progress) (aspect : Aspect) :
    Except AdviceFailure Progress :=
  if aspect.joinPoint.holdsAt s site then applyAll s site aspect.id 0 aspect.advice p else .ok p

section

variable (marks : allMark aspects)

include marks

private theorem applyAspect_rising :
    ∀ aspect ∈ aspects, Rising rank (applyAspect s site · aspect) := by
  intro aspect ha
  unfold applyAspect
  split
  · exact applyAll_rising (List.all_eq_true.1 marks aspect ha)
  · exact .pure

/-- Applying aspects at a place is rising. -/
private theorem applyAt_rising : Rising rank (applyAt s site aspects) :=
  Rising.foldlM (applyAspect_rising marks)

/-- Applying aspects at a place changes nothing iff the place is settled. -/
theorem applyAt_eq_self_iff {p : Progress} :
    applyAt s site aspects p = .ok p ↔ isSettledAt s aspects site := by
  have fold : applyAt s site aspects p = aspects.foldlM (applyAspect s site) p := rfl
  rw [fold, Rising.foldlM_eq_self_iff (applyAspect_rising marks), isSettledAt, List.all_eq_true]
  refine forall₂_congr fun aspect ha => ?_
  unfold applyAspect
  cases aspect.joinPoint.holdsAt s site with
  | true =>
    rw [if_pos rfl, applyAll_eq_self_iff (List.all_eq_true.1 marks aspect ha), Bool.not_true,
      Bool.false_or]
  | false => exact iff_of_true rfl rfl

/-! ## The walk -/

theorem walk_leave_rising (site : Site) : Rising rank ((walk s aspects).leave · site) := by
  intro p q h
  dsimp only [walk] at h
  split at h
  -- A place that is passed over is left as it is.
  · exact Rising.pure p q h
  · split at h
    · rename_i done
      cases h
      exact applyAt_rising marks p q done
    · cases h

theorem walk_leave_eq_self_iff {p : Progress} (site : Site) :
    (walk s aspects).leave p site = .ok p ↔
      (! site.node.isNamed || isInstrumented s.file site) = true ∨ isSettledAt s aspects site := by
  rw [← applyAt_eq_self_iff (p := p) marks]
  dsimp only [walk]
  split
  · rename_i passed
    exact iff_of_true rfl (.inl passed)
  · rename_i visited
    rw [or_iff_right visited]
    cases applyAt s site aspects p with
    | ok q => simp
    | error failure => simp

end

theorem walk_skips (s : Scene) (aspects : List Aspect) :
    (walk s aspects).Skips (isIgnored s.file) :=
  fun _ _ => rfl

/-- The walk over a file changes nothing iff the file is settled. -/
theorem run_eq_self_iff (marks : allMark aspects) {p : Progress} :
    (walk s aspects).run p s.file.tree = .ok p ↔ isSettled s aspects := by
  rw [Walk.run_eq_self_iff (walk_skips s aspects) (walk_leave_rising marks), isSettled,
    List.all_eq_true]
  refine forall₂_congr fun site _ => ?_
  -- The walk does not reach what is below an ignored node, and passes over unnamed nodes itself.
  have reached : Walk.Reaches (isIgnored s.file) site ↔
      (site.node :: site.ancestors).any (isIgnored s.file) = false := by
    simp only [Walk.Reaches, List.any_eq_false, Bool.not_eq_true]
  rw [walk_leave_eq_self_iff marks, reached, isPassedOver]
  cases (site.node :: site.ancestors).any (isIgnored s.file) with
  | true => exact iff_of_true nofun rfl
  | false => simp

end Weave

/-! ## The whole file -/

namespace Imports

private theorem length_le_deleteNode (source : Text) (b : Buffer) (node : Tree) :
    b.edits.length ≤ (deleteNode source b node).edits.length := by
  unfold deleteNode
  split <;> simp [Buffer.delete, Buffer.push]

/-- Removing repeated imports takes no edit back. -/
private theorem length_le_collapse (file : SourceFile) (existing : List ExistingImport)
    (b : Buffer) : b.edits.length ≤ (collapse file existing b).edits.length := by
  refine foldl_keeps (K := fun c : Buffer => b.edits.length ≤ c.edits.length)
    (fun c declaration _ hc => ?_) (Nat.le_refl _)
  dsimp only
  split
  -- The declaration goes as a whole, or its repeated specifications one by one.
  · exact Nat.le_trans hc (length_le_deleteNode _ _ _)
  · exact foldl_keeps (K := fun c : Buffer => b.edits.length ≤ c.edits.length)
      (fun _ _ _ hc => Nat.le_trans hc (length_le_deleteNode _ _ _)) hc

/-- Reconciling imports takes no edit back. -/
private theorem reconcile_ensures (importer : Importer) (file : SourceFile)
    (references : ReferenceMap) (b : Buffer) :
    Ensures (fun _ => True) (reconcile importer file references b) fun result =>
      ∀ c, result = .ok c → b.edits.length ≤ c.edits.length := by
  have anything : ∀ {α : Type} (x : Importing α), Ensures (fun _ => True) x fun _ => True :=
    fun _ _ _ _ _ _ => ⟨trivial, trivial⟩
  unfold reconcile
  refine ensures_bind (anything _) fun existing _ => ?_
  have collapsed := length_le_collapse file existing b
  dsimp only
  refine ensures_bind (anything _) fun lines _ => ?_
  cases lines with
  | error fault => exact ensures_pure nofun
  | ok lines =>
    dsimp only
    split
    -- Without lines to add, the collapsed buffer is the result.
    · refine ensures_pure fun c h => ?_
      cases h
      exact collapsed
    · split
      · exact ensures_pure nofun
      · refine ensures_pure fun c h => ?_
        cases h
        unfold insertBlock
        dsimp only
        split
        all_goals
          simp only [Buffer.insert, Buffer.push, List.length_append, List.length_singleton]
          omega

end Imports

namespace Weave

variable {s : Scene} {aspects : List Aspect} {importer : Importer} {lines : Bool}

/-- A settled file is given back. -/
theorem file_of_isSettled (marks : allMark aspects) (settled : isSettled s aspects) :
    file s aspects importer lines = pure ⟨none, .empty, none⟩ := by
  unfold file
  rw [(run_eq_self_iff marks).2 settled]
  rfl

/-- A buffer with edits gives a text. -/
private theorem rendered_ensures (d : Draft) {b : Buffer} (nonempty : 0 < b.edits.length) :
    Ensures (fun _ => True)
      (if b.isEmpty then pure ⟨none, d.references, d.version⟩
      else
        match render s.file lines b with
        | .ok text => pure ⟨some (atMargin text), d.references, d.version⟩
        | .error fault => throw (failed s.file annotator 0 fault) : Importing WovenFile)
      fun woven => woven.text ≠ none := by
  have full : b.isEmpty = false := by
    rw [Buffer.isEmpty, List.isEmpty_eq_false_iff]
    exact List.ne_nil_of_length_pos nonempty
  rw [full, if_neg Bool.false_ne_true]
  cases render s.file lines b with
  | ok text => exact ensures_pure nofun
  | error fault => exact ensures_throw

/-- A file with edits is not given back. -/
private theorem text_ne_none {d : Draft} {applied : Nat} (grown : 0 < d.size)
    (ran : (walk s aspects).run (.ofSource s.file.source, 0) s.file.tree = .ok (d, applied)) :
    Ensures (fun _ => True) (file s aspects importer lines) fun woven => woven.text ≠ none := by
  unfold file
  rw [ran]
  dsimp only
  split
  · refine ensures_bind (Imports.reconcile_ensures importer s.file _ _) fun result more => ?_
    cases result with
    | ok b => exact rendered_ensures d (Nat.lt_of_lt_of_le grown (more b rfl))
    | error fault => exact ensures_throw
  · exact rendered_ensures d grown

/-- Weaving finds nothing to do in a file iff the file is settled. -/
theorem file_unchanged_iff (marks : allMark aspects) {before : ImportState} :
    (∃ woven after, (file s aspects importer lines).Yields before woven after ∧
      woven.text = none) ↔ isSettled s aspects := by
  constructor
  · rintro ⟨woven, after, ran, unchanged⟩
    rw [← run_eq_self_iff (p := (.ofSource s.file.source, 0)) marks]
    cases walked : (walk s aspects).run (.ofSource s.file.source, 0) s.file.tree with
    | error stop =>
      unfold file at ran
      rw [walked] at ran
      exact absurd ran not_yields_throw
    | ok progress =>
      -- The walk added edits or nothing, and edits would show in the text.
      have rising := Walk.run_rising (walk_skips s aspects) (walk_leave_rising marks) s.file.tree
      rcases rising _ progress walked with same | grown
      · rw [same]
      · have text := (text_ne_none grown walked before woven after trivial ran).2
        exact absurd unchanged text
  · intro settled
    rw [file_of_isSettled marks settled]
    exact ⟨_, before, yields_pure.2 ⟨rfl, rfl⟩, rfl⟩

end Weave

/-! ## Texts -/

/-- A checked file as a package of its own. -/
def SourceOptions.scene (options : SourceOptions) (file : SourceFile) (types : PackageTypes) :
    Scene :=
  ⟨file, 0, types, options.importPath, types.packageName, options.testMain, options.settings⟩

/-- Weaves a file as a package of its own. -/
def SourceOptions.weave (options : SourceOptions) (aspects : List Aspect) (file : SourceFile) :
    Importing WovenFile := do
  let types ← Check.package options.importPath none [file] ⟨noArchives, false⟩
  Weave.file (options.scene file types) aspects ⟨noArchives, false⟩ false

/-- What weaving puts in place of a text; nothing if it finds nothing to do. -/
def wovenText? (path text : Text) (aspects : List Aspect) (options : SourceOptions) :
    Except Failure (Option Text) := do
  let file ← SourceFile.parse path text
  let woven ← ((options.weave aspects file).run.run .fresh).1
  return woven.text.map (text.take (text.length - file.source.length) ++ ·)

section

variable {path text : Text} {aspects : List Aspect} {options : SourceOptions}

theorem instrument_eq_map_wovenText? : instrument path text aspects options =
    (wovenText? path text aspects options).map (·.getD text) := by
  unfold instrument wovenText?
  cases SourceFile.parse path text with
  | error failure => rfl
  | ok file =>
    show (((options.weave aspects file).run.run .fresh).1 >>= _) = _
    dsimp only [bind, Except.bind]
    cases ((options.weave aspects file).run.run .fresh).1 with
    | error failure => rfl
    | ok woven =>
      dsimp only
      cases woven.text <;> rfl

/-- Every place of a text where an aspect applies carries the marks of an earlier run. -/
def Recognized (path text : Text) (aspects : List Aspect) (options : SourceOptions) : Prop :=
  ∃ file types after, SourceFile.parse path text = .ok file ∧
    (Check.package options.importPath none [file] ⟨noArchives, false⟩).Yields
      .fresh types after ∧
    Weave.isSettled (options.scene file types) aspects

/-- Weaving finds nothing to do in a text iff all of it is recognized as woven. -/
theorem wovenText?_eq_none_iff (marks : Weave.allMark aspects) :
    wovenText? path text aspects options = .ok none ↔ Recognized path text aspects options := by
  unfold wovenText? Recognized
  constructor
  · intro h
    obtain ⟨file, parsed, h⟩ := bind_eq_ok_iff.1 h
    obtain ⟨woven, value, h⟩ := bind_eq_ok_iff.1 h
    obtain ⟨after, run⟩ := exists_yields_iff.2 value
    obtain ⟨types, between, checked, run⟩ := yields_bind.1 run
    -- What stands before the source is put back only where there is a text.
    have unchanged : woven.text = none := Option.map_eq_none_iff.1 (Except.ok.inj h)
    exact ⟨file, types, between, parsed, checked,
      (Weave.file_unchanged_iff marks).1 ⟨woven, after, run, unchanged⟩⟩
  · rintro ⟨file, types, between, parsed, checked, settled⟩
    obtain ⟨woven, after, run, unchanged⟩ := (Weave.file_unchanged_iff marks).2 settled
    refine bind_eq_ok_iff.2 ⟨file, parsed, bind_eq_ok_iff.2 ⟨woven, ?_, ?_⟩⟩
    · exact exists_yields_iff.1 ⟨after, yields_bind.2 ⟨types, between, checked, run⟩⟩
    · rw [unchanged]
      rfl

end

end Interlace
