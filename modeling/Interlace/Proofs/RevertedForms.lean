import Interlace.Proofs.PatternReadings
import Interlace.Proofs.Sorting
import Interlace.Weave.Removal
import Mathlib.Data.List.Induction
import Mathlib.Data.List.Perm.Subperm

/-!
# What taking advice back touches

Reverting does not know what was woven. Inside marked statements it goes by the form of the text:
values that have the form of a wrapping template are unwrapped, calls through the name of an added
package get the old one back, and values that read like an assigned one are dropped. Which bytes
the edits touch is told here by these forms, without the order in which the edits are collected.

## Key results

- `Removal.Peels`: the layers that come off a value, of each template at most one
- `Removal.Peels.subperm`: no template is taken off twice
- `Removal.TakesBack`: the ranges that reverting takes back, by the form of the text
- `Removal.covered_revertStatements_iff`: the edits touch the bytes of these ranges and no others
-/

namespace Interlace

open Syntax

/-- The range that is replaced. -/
def Splice.range (e : Splice) : Range :=
  ⟨e.start, e.stop⟩

namespace Range

/-- An offset lies in the range. -/
def Has (r : Range) (i : Nat) : Prop :=
  r.start ≤ i ∧ i < r.stop

/-- What stands in a range around an inner one, before it and behind. -/
def around (outer inner : Range) : List Range :=
  [⟨outer.start, inner.start⟩, ⟨inner.stop, outer.stop⟩]

end Range

namespace Removal

/-! ## Offsets in ranges -/

/-- An offset lies in one of the ranges. -/
def Covered (ranges : List Range) (i : Nat) : Prop :=
  ∃ r ∈ ranges, r.Has i

section

variable {r s : Range} {rs ss : List Range} {i : Nat}

@[simp]
theorem covered_nil : ¬ Covered [] i := by
  simp [Covered]

@[simp]
theorem covered_cons : Covered (r :: rs) i ↔ r.Has i ∨ Covered rs i := by
  simp [Covered]

@[simp]
theorem covered_append : Covered (rs ++ ss) i ↔ Covered rs i ∨ Covered ss i := by
  simp [Covered, or_and_right, exists_or]

/-- Ranges that hold nothing play no part. -/
private theorem covered_filter_not_isEmpty :
    Covered (rs.filter (! ·.isEmpty)) i ↔ Covered rs i := by
  constructor
  · rintro ⟨r, hr, has⟩
    exact ⟨r, List.mem_of_mem_filter hr, has⟩
  · rintro ⟨r, hr, has⟩
    refine ⟨r, List.mem_filter.2 ⟨hr, ?_⟩, has⟩
    have := has.1
    have := has.2
    simp only [Range.isEmpty, Bool.not_eq_true', decide_eq_false_iff_not]
    omega

@[simp]
theorem not_covered_around_self : ¬ Covered (r.around r) i := by
  simp only [Range.around, Range.Has, covered_cons, covered_nil, or_false]
  omega

/-- What stands around a range of a range is what stands around the middle one, and within that
around the innermost. -/
theorem covered_around_iff {outer middle inner : Range} (low : outer.start ≤ middle.start)
    (low' : middle.start ≤ inner.start) (high' : inner.stop ≤ middle.stop)
    (high : middle.stop ≤ outer.stop) : Covered (outer.around inner) i ↔
      Covered (outer.around middle) i ∨ Covered (middle.around inner) i := by
  simp only [Range.around, Range.Has, covered_cons, covered_nil, or_false]
  omega

end

/-! ## Layers -/

/-- A part of a window of a text, as a range of the text. -/
def within (window : Range) (part : Nat × Nat) : Range :=
  ⟨window.start + part.1, window.start + part.2⟩

/-- One application of a pattern around an inner range. -/
structure Layer where
  pattern : WrapPattern
  outer : Range
  inner : Range

/-- The layers that come off a window of a text: that of the first pattern that matches, then those
of the other patterns, until none matches. -/
inductive Peels (source : Text) : List WrapPattern → Range → List Layer → Range → Prop where
  | bare {patterns : List WrapPattern} {window : Range}
      (missed : ∀ p ∈ patterns, p.hole? (source.slice window.start window.stop) = none) :
      Peels source patterns window [] window
  | layer {front behind : List WrapPattern} {p : WrapPattern} {window last : Range}
      {hole : Nat × Nat} {layers : List Layer}
      (missed : ∀ q ∈ front, q.hole? (source.slice window.start window.stop) = none)
      (found : p.hole? (source.slice window.start window.stop) = some hole)
      (rest : Peels source (front ++ behind) (within window hole) layers last) :
      Peels source (front ++ p :: behind) window (⟨p, window, within window hole⟩ :: layers) last

section

variable {source : Text} {patterns front behind : List WrapPattern} {p : WrapPattern}
  {window last : Range} {hole : Nat × Nat} {layers : List Layer} {fuel i : Nat}

private theorem peel_of_missed
    (missed : ∀ p ∈ patterns, p.hole? (source.slice window.start window.stop) = none) :
    peel source fuel patterns window = window := by
  have lost : (patterns.zipIdx.findSome? fun entry =>
      (entry.1.hole? (source.slice window.start window.stop)).map fun hole => (entry.2, hole)) =
        none := by
    refine List.findSome?_eq_none_iff.2 fun entry he => ?_
    exact Option.map_eq_none_iff.2 (missed _ (List.fst_mem_of_mem_zipIdx he))
  cases fuel with
  | zero => rfl
  | succ fuel =>
    rw [peel]
    split
    · rfl
    · rename_i given
      cases given.symm.trans lost

private theorem peel_of_found
    (missed : ∀ q ∈ front, q.hole? (source.slice window.start window.stop) = none)
    (found : p.hole? (source.slice window.start window.stop) = some hole) :
    peel source (fuel + 1) (front ++ p :: behind) window =
      peel source fuel (front ++ behind) (within window hole) := by
  -- The first pattern that fits is told by its index, and all before it do not fit.
  have here : ((front ++ p :: behind).zipIdx.findSome? fun entry =>
      (entry.1.hole? (source.slice window.start window.stop)).map fun hole => (entry.2, hole)) =
        some (front.length, hole) := by
    rw [List.findSome?_eq_some_iff]
    refine ⟨front.zipIdx, (p, front.length), behind.zipIdx (front.length + 1), ?_, ?_, ?_⟩
    · rw [List.zipIdx_append, List.zipIdx_cons, Nat.zero_add]
    · exact Option.map_eq_some_iff.2 ⟨hole, found, rfl⟩
    · intro entry he
      exact Option.map_eq_none_iff.2 (missed _ (List.fst_mem_of_mem_zipIdx he))
  have others : (front ++ p :: behind).eraseIdx front.length = front ++ behind := by
    rw [List.eraseIdx_append_of_length_le (Nat.le_refl _), Nat.sub_self, List.eraseIdx_cons_zero]
  rw [peel]
  split
  · rename_i lost
    cases lost.symm.trans here
  · rename_i given
    cases given.symm.trans here
    rw [others]
    rfl

/-- What is left in the end are the layers that come off, if there is fuel for all patterns. -/
theorem peels_peel (enough : patterns.length ≤ fuel) :
    ∃ layers, Peels source patterns window layers (peel source fuel patterns window) := by
  -- The induction is on the fuel; every layer uses one pattern up.
  induction fuel generalizing patterns window with
  | zero =>
    obtain rfl := List.eq_nil_of_length_eq_zero (Nat.le_zero.1 enough)
    exact ⟨[], .bare nofun⟩
  | succ fuel ih =>
    cases first : patterns.findSome? (·.hole? (source.slice window.start window.stop)) with
    | none =>
      have missed := List.findSome?_eq_none_iff.1 first
      rw [peel_of_missed missed]
      exact ⟨[], .bare missed⟩
    | some hole =>
      obtain ⟨front, p, behind, rfl, found, missed⟩ := List.findSome?_eq_some_iff.1 first
      rw [peel_of_found missed found]
      simp only [List.length_append, List.length_cons] at enough
      obtain ⟨layers, rest⟩ := @ih (front ++ behind) (within window hole)
        (by rw [List.length_append]; omega)
      exact ⟨_, .layer missed found rest⟩

/-- The layers that come off lead to one range. -/
private theorem Peels.peel_eq (h : Peels source patterns window layers last)
    (enough : patterns.length ≤ fuel) : peel source fuel patterns window = last := by
  induction h generalizing fuel with
  | bare missed => exact peel_of_missed missed
  | layer missed found rest ih =>
    simp only [List.length_append, List.length_cons] at enough
    cases fuel with
    | zero => omega
    | succ fuel =>
      rw [peel_of_found missed found]
      exact ih (by rw [List.length_append]; omega)

/-- No pattern is taken off twice. -/
theorem Peels.subperm (h : Peels source patterns window layers last) :
    (layers.map Layer.pattern).Subperm patterns := by
  induction h with
  | bare missed => exact List.nil_subperm
  | @layer front behind p window last hole layers missed found rest ih =>
    exact ((List.subperm_cons p).2 ih).trans List.perm_middle.symm.subperm

/-- What comes off a window are its layers. -/
theorem Peels.covered_around_iff (h : Peels source patterns window layers last) :
    window.start ≤ last.start ∧ last.stop ≤ window.stop ∧
      (Covered (window.around last) i ↔ ∃ l ∈ layers, Covered (l.outer.around l.inner) i) := by
  -- The induction is on the layers, each within what the one before it left.
  induction h with
  | bare missed =>
    exact ⟨Nat.le_refl _, Nat.le_refl _, by simp⟩
  | @layer front behind p window last hole layers missed found rest ih =>
    obtain ⟨low, high, layered⟩ := ih
    obtain ⟨given, inside⟩ := WrapPattern.hole?_bounds found
    simp only [Text.slice, List.length_drop, List.length_take] at inside
    have start : window.start ≤ (within window hole).start := Nat.le_add_right _ _
    have stop : (within window hole).stop ≤ window.stop := by
      show window.start + hole.2 ≤ window.stop
      omega
    refine ⟨start.trans low, high.trans stop, ?_⟩
    rw [Removal.covered_around_iff start low high stop, layered, List.exists_mem_cons_iff]

end

/-! ## Places of wrappings -/

/-- The patterns to take off at places of one kind. -/
def patternsFor (site : WrapSite) (patterns : List (WrapSite × WrapPattern)) : List WrapPattern :=
  (patterns.filter (·.1 = site)).map Prod.snd

/-- What is left of the value at a place. -/
def peeled (source : Text) (patterns : List (WrapSite × WrapPattern)) (w : Wrapped) : Range :=
  let here := patternsFor w.site patterns
  peel source here.length here (.ofTree w.node)

/-- Something is removed in a range. -/
def isCut (removed : List Range) (r : Range) : Bool :=
  removed.any (·.overlaps r)

section

variable {source : Text} {patterns : List (WrapSite × WrapPattern)} {sites : List Wrapped}
  {w : Wrapped} {i : Nat}

theorem unwrap_concat : unwrap source patterns (sites ++ [w]) =
    if isCut (unwrap source patterns sites) (.ofTree w.node) then unwrap source patterns sites
    else if peeled source patterns w = .ofTree w.node then unwrap source patterns sites
    else unwrap source patterns sites ++
      (Range.ofTree w.node).around (peeled source patterns w) := by
  rw [unwrap, List.foldl_append]
  rfl

/-- A place is reached if nothing was removed in it when it is its turn. -/
def Reached (source : Text) (patterns : List (WrapSite × WrapPattern)) (sites : List Wrapped)
    (w : Wrapped) : Prop :=
  ∃ before behind, sites = before ++ w :: behind ∧
    isCut (unwrap source patterns before) (.ofTree w.node) = false

theorem reached_concat_iff {v : Wrapped} : Reached source patterns (sites ++ [w]) v ↔
    Reached source patterns sites v ∨
      v = w ∧ isCut (unwrap source patterns sites) (.ofTree w.node) = false := by
  constructor
  · rintro ⟨before, behind, split, free⟩
    rcases List.eq_nil_or_concat' behind with rfl | ⟨behind, last, rfl⟩
    · obtain ⟨rfl, same⟩ := List.append_inj' split rfl
      obtain rfl := List.singleton_inj.1 same
      exact .inr ⟨rfl, free⟩
    · rw [← List.cons_append, ← List.append_assoc] at split
      exact .inl ⟨before, behind, (List.append_inj' split rfl).1, free⟩
  · rintro (⟨before, behind, rfl, free⟩ | ⟨rfl, free⟩)
    · exact ⟨before, behind ++ [w], by rw [List.append_assoc, List.cons_append], free⟩
    · exact ⟨sites, [], rfl, free⟩

/-- What is removed stands around what is left of the values at the places that are reached. -/
theorem covered_unwrap_iff : Covered (unwrap source patterns sites) i ↔
    ∃ w, Reached source patterns sites w ∧
      Covered ((Range.ofTree w.node).around (peeled source patterns w)) i := by
  -- The induction is from the back, as the sites are gone through by a left fold.
  induction sites using List.reverseRecOn with
  | nil =>
    refine iff_of_false covered_nil ?_
    rintro ⟨w, ⟨before, behind, split, -⟩, -⟩
    cases before <;> cases split
  | append_singleton sites w ih =>
    simp only [reached_concat_iff, or_and_right, exists_or, ← ih]
    rw [unwrap_concat]
    cases cut : isCut (unwrap source patterns sites) (.ofTree w.node) with
    | true => simp
    | false =>
      rw [if_neg Bool.false_ne_true]
      split
      · rename_i bare
        simp [bare]
      · simp

end

/-! ## Calls and values -/

section

variable {file : SourceFile} {statements removed : List Range} {bound old value : Text}
  {cs : List Tree} {edits : List Splice} {i : Nat}

/-- The operand of a call that gets its old target back. -/
def GivesBack (file : SourceFile) (removed : List Range) (bound : Text) (call operand : Tree) :
    Prop :=
  callOperand? call = some operand ∧ file.text operand = bound ∧
    isCut removed (.ofTree operand) = false

/-- Edits are collected one by one. -/
theorem covered_foldl_iff {α : Type} {step : List Splice → α → List Splice} {Q : α → Prop}
    (adds : ∀ edits a, Covered ((step edits a).map Splice.range) i ↔
      Covered (edits.map Splice.range) i ∨ Q a) {l : List α} :
    Covered ((l.foldl step edits).map Splice.range) i ↔
      Covered (edits.map Splice.range) i ∨ ∃ a ∈ l, Q a := by
  induction l generalizing edits with
  | nil => simp
  | cons a l ih => rw [List.foldl_cons, ih, adds, List.exists_mem_cons_iff, or_assoc]

/-- Calls get their old target back wherever they go through the name and nothing is removed. -/
theorem covered_retarget_iff :
    Covered ((retarget file cs removed bound old edits).map Splice.range) i ↔
      Covered (edits.map Splice.range) i ∨ ∃ call ∈ cs, ∃ operand,
        GivesBack file removed bound call operand ∧ (Range.ofTree operand).Has i := by
  refine covered_foldl_iff fun edits call => ?_
  unfold GivesBack
  cases callOperand? call with
  | none => simp
  | some operand =>
    simp only [Option.some.injEq, and_assoc, exists_eq_left']
    split
    · rename_i given
      simp only [Bool.and_eq_true, decide_eq_true_eq, Bool.not_eq_true', Bool.or_eq_false_iff]
        at given
      have free : isCut removed (.ofTree operand) = false := given.2.1
      have here : (⟨(Range.ofTree operand).start, (Range.ofTree operand).stop, old⟩ :
        Splice).range = .ofTree operand := rfl
      simp [here, free, given.1]
    · rename_i taken
      refine (or_iff_left_of_imp ?_).symm
      rintro ⟨same, free, has⟩
      -- Another edit has the range of the operand.
      unfold isCut at free
      simp only [same, free, Bool.false_or, decide_true, Bool.true_and, Bool.not_eq_true',
        Bool.not_eq_false, List.any_eq_true, Bool.and_eq_true, decide_eq_true_eq] at taken
      obtain ⟨e, he, start, stop⟩ := taken
      exact ⟨e.range, List.mem_map_of_mem he, by rwa [Splice.range, start, stop]⟩

/-- Values are dropped wherever they read like an assigned one, with the equals sign. -/
def Drops (value : Text) (file : SourceFile) (spec : Tree) (r : Range) : Prop :=
  ∃ given start, spec.child? .value = some given ∧ declaredEnd? spec.children = some start ∧
    file.text given = value ∧ r = ⟨start, given.stop⟩

theorem covered_unassign_iff : Covered ((unassign file statements value).map Splice.range) i ↔
    ∃ spec ∈ (file.tree.ofKind .varSpec).filter (isInside statements), ∃ r,
      Drops value file spec r ∧ r.Has i := by
  rw [unassign, Covered]
  simp only [List.mem_map, exists_exists_and_eq_and, List.mem_filterMap]
  constructor
  · rintro ⟨e, ⟨spec, marked, dropped⟩, has⟩
    refine ⟨spec, marked, e.range, ?_, has⟩
    split at dropped
    · rename_i given start value left
      rw [Option.ite_none_right_eq_some] at dropped
      obtain ⟨same, found⟩ := dropped
      cases found
      exact ⟨given, start, value, left, same, rfl⟩
    · cases dropped
  · rintro ⟨spec, marked, r, ⟨given, start, value, left, same, rfl⟩, has⟩
    refine ⟨⟨start, given.stop, []⟩, ⟨spec, marked, ?_⟩, has⟩
    simp only [value, left, same, if_pos]

end

/-! ## Reverting -/

/-- The patterns that a file is searched for. -/
def wrapPatterns (reverts : List Revert) (added : Dict Text) : List (WrapSite × WrapPattern) :=
  reverts.filterMap fun r =>
    match r with
    | .unwrap site template => (pattern? added template).map fun p => (site, p)
    | _ => none

section

variable (file : SourceFile) (statements : List Range) (reverts : List Revert) (added : Dict Text)

/-- What is removed to take wrappings off. -/
def unwrapped : List Range :=
  (unwrap file.source (wrapPatterns reverts added) (wrapSites file statements)).filter
    (! ·.isEmpty)

/-- The ranges that are taken back for advice that does not wrap. -/
inductive Restores (removed : List Range) : Revert → Range → Prop where
  /-- A call through the name of the package that calls were sent to. -/
  | target {wanted source target old : Text} {call operand : Tree}
      (imported : importedName? file source = some old) (other : old ≠ nameOf added target wanted)
      (marked : call ∈ calls file statements)
      (gives : GivesBack file removed (nameOf added target wanted) call operand) :
      Restores removed (.retarget wanted source target) (.ofTree operand)
  /-- A value that reads like an assigned one. -/
  | value {template : Template} {text : Text} {spec : Tree} {r : Range}
      (assigned : literal? added template = some text)
      (marked : spec ∈ (file.tree.ofKind .varSpec).filter (isInside statements))
      (drops : Drops text file spec r) : Restores removed (.unassign template) r

/-- The ranges that reverting takes back. -/
inductive TakesBack : Range → Prop where
  /-- What a layer has around the value in it. -/
  | layer {w : Wrapped} {layers : List Layer} {last r : Range} {l : Layer}
      (reached : Reached file.source (wrapPatterns reverts added) (wrapSites file statements) w)
      (peels : Peels file.source (patternsFor w.site (wrapPatterns reverts added))
        (.ofTree w.node) layers last)
      (listed : l ∈ layers) (part : r ∈ l.outer.around l.inner) : TakesBack r
  | restored {revert : Revert} {r : Range} (listed : revert ∈ reverts)
      (restores : Restores file statements added (unwrapped file statements reverts added)
        revert r) : TakesBack r

end

section

variable {file : SourceFile} {statements : List Range} {reverts : List Revert} {added : Dict Text}
  {i : Nat}

theorem isInside_of_mem_wrapSites {w : Wrapped} (h : w ∈ wrapSites file statements) :
    isInside statements w.node := by
  have listed := (sortBy_perm _ _).mem_iff.1 h
  exact (List.mem_filter.1 listed).2

theorem covered_unwrapped_iff : Covered (unwrapped file statements reverts added) i ↔
    ∃ w layers last,
      Reached file.source (wrapPatterns reverts added) (wrapSites file statements) w ∧
      Peels file.source (patternsFor w.site (wrapPatterns reverts added)) (.ofTree w.node)
        layers last ∧
      ∃ l ∈ layers, Covered (l.outer.around l.inner) i := by
  rw [unwrapped, covered_filter_not_isEmpty, covered_unwrap_iff]
  refine exists_congr fun w => ?_
  constructor
  · rintro ⟨reached, covered⟩
    have enough := Nat.le_refl (patternsFor w.site (wrapPatterns reverts added)).length
    obtain ⟨layers, peels⟩ := @peels_peel file.source _ (.ofTree w.node) _ enough
    exact ⟨layers, _, reached, peels, peels.covered_around_iff.2.2.1 covered⟩
  · rintro ⟨layers, last, reached, peels, layered⟩
    refine ⟨reached, ?_⟩
    rw [peeled, peels.peel_eq (Nat.le_refl _)]
    exact peels.covered_around_iff.2.2.2 layered

private theorem not_takesBack_of_nil {r : Range} : ¬ TakesBack file [] reverts added r := by
  intro takes
  cases takes with
  | layer reached peels listed part =>
    obtain ⟨before, behind, split, -⟩ := reached
    have marked := isInside_of_mem_wrapSites (split ▸ List.mem_append_cons_self)
    cases marked
  | restored listed restores =>
    cases restores with
    | target imported other marked gives => cases (List.mem_filter.1 marked).2
    | value assigned marked drops => cases (List.mem_filter.1 marked).2

/-- What an advice that does not wrap adds to the edits. -/
def restore (file : SourceFile) (statements : List Range) (added : Dict Text)
    (removed : List Range) (edits : List Splice) : Revert → List Splice
  | .unwrap .. => edits
  | .retarget wanted source target =>
    match importedName? file source with
    | none => edits
    | some old =>
      if old = nameOf added target wanted then edits
      else retarget file (calls file statements) removed (nameOf added target wanted) old edits
  | .unassign template =>
    match literal? added template with
    | none => edits
    | some value => edits ++ unassign file statements value

theorem subset_retarget {removed : List Range} {bound old : Text} {edits : List Splice}
    (cs : List Tree) : edits ⊆ retarget file cs removed bound old edits :=
  foldl_keeps (K := (edits ⊆ ·)) (fun later call _ kept => by
    split
    · exact kept
    · dsimp only
      split
      · exact List.subset_append_of_subset_left _ kept
      · exact kept) (List.Subset.refl _)

/-- Taking an advice back adds to the edits. -/
theorem subset_restore {removed : List Range} {edits : List Splice} (revert : Revert) :
    edits ⊆ restore file statements added removed edits revert := by
  -- What comes off values is not added here; the other two add to the edits.
  cases revert with
  | unwrap site template => exact List.Subset.refl _
  | retarget wanted source target =>
    rw [restore]
    split
    · exact List.Subset.refl _
    split
    · exact List.Subset.refl _
    · exact subset_retarget _
  | unassign template =>
    rw [restore]
    split
    · exact List.Subset.refl _
    · exact List.subset_append_left _ _

theorem revertStatements_eq (given : statements ≠ []) :
    revertStatements file statements reverts added =
      reverts.foldl (restore file statements added (unwrapped file statements reverts added))
        ((unwrapped file statements reverts added).map Range.removal) := by
  cases statements with
  | nil => exact absurd rfl given
  | cons s ss => rfl

theorem covered_restore_iff {removed : List Range} {edits : List Splice} {revert : Revert} :
    Covered ((restore file statements added removed edits revert).map Splice.range) i ↔
      Covered (edits.map Splice.range) i ∨
        ∃ r, Restores file statements added removed revert r ∧ r.Has i := by
  -- Where nothing is restored, there is nothing of the form either.
  cases revert with
  | unwrap site template =>
    refine (or_iff_left_of_imp ?_).symm
    rintro ⟨r, restores, -⟩
    cases restores
  | retarget wanted source target =>
    rw [restore]
    split
    · rename_i missing
      refine (or_iff_left_of_imp ?_).symm
      rintro ⟨r, restores, -⟩
      cases restores with
      | target imported other marked gives => cases missing.symm.trans imported
    · rename_i old imported
      split
      · rename_i same
        refine (or_iff_left_of_imp ?_).symm
        rintro ⟨r, restores, -⟩
        cases restores with
        | target imported' other marked gives =>
          cases imported.symm.trans imported'
          exact absurd same other
      · rename_i other
        rw [covered_retarget_iff]
        refine or_congr_right ⟨?_, ?_⟩
        · rintro ⟨call, marked, operand, gives, has⟩
          exact ⟨_, .target imported other marked gives, has⟩
        · rintro ⟨r, restores, has⟩
          cases restores with
          | target imported' other' marked gives => exact ⟨_, marked, _, gives, has⟩
  | unassign template =>
    rw [restore]
    split
    · rename_i missing
      refine (or_iff_left_of_imp ?_).symm
      rintro ⟨r, restores, -⟩
      cases restores with
      | value assigned marked drops => cases missing.symm.trans assigned
    · rename_i text assigned
      rw [List.map_append, covered_append, covered_unassign_iff]
      refine or_congr_right ⟨?_, ?_⟩
      · rintro ⟨spec, marked, r, drops, has⟩
        exact ⟨r, .value assigned marked drops, has⟩
      · rintro ⟨r, restores, has⟩
        cases restores with
        | value assigned' marked drops =>
          cases assigned.symm.trans assigned'
          exact ⟨_, marked, r, drops, has⟩

/-- The edits of reverting touch the bytes of what is taken back, by the form of the text, and no
others. -/
theorem covered_revertStatements_iff :
    Covered ((revertStatements file statements reverts added).map Splice.range) i ↔
      ∃ r, TakesBack file statements reverts added r ∧ r.Has i := by
  by_cases given : statements = []
  · subst given
    refine iff_of_false covered_nil ?_
    rintro ⟨r, takes, -⟩
    exact not_takesBack_of_nil takes
  · have removals (ranges : List Range) : (ranges.map Range.removal).map Splice.range = ranges := by
      rw [List.map_map]
      exact List.map_id ranges
    -- Each revert covers what it takes back, whatever was there before it.
    have step :=
      @covered_restore_iff file statements added i (unwrapped file statements reverts added)
    rw [revertStatements_eq given, covered_foldl_iff fun edits revert => @step edits revert,
      removals, covered_unwrapped_iff]
    constructor
    · rintro (⟨w, layers, last, reached, peels, l, listed, r, part, has⟩ |
        ⟨revert, listed, r, restores, has⟩)
      · exact ⟨r, .layer reached peels listed part, has⟩
      · exact ⟨r, .restored listed restores, has⟩
    · rintro ⟨r, takes, has⟩
      cases takes with
      | layer reached peels listed part =>
        exact .inl ⟨_, _, _, reached, peels, _, listed, r, part, has⟩
      | restored listed restores => exact .inr ⟨_, listed, r, restores, has⟩

end

end Removal

end Interlace
