import Interlace.Proofs.RemovalReach

/-!
# The edits of reverting

What comes off values is removed, and calls get the names of their old packages back. No two of
these edits meet unless they have one range: what is removed lies apart, and an operand in which
something is removed is left alone.

## Key results

- `Removal.unwrapped_apart`: what comes off values lies apart
- `Removal.SentBack`: a call gets the name of its old package back
- `Removal.mem_revertStatements`: all edits of reverting
- `Removal.exists_of_sentBack`: where a call is sent back, there is an edit for it
-/

namespace Interlace

open Syntax

/-- The ranges have no byte in common. -/
def Range.Clear (r s : Range) : Prop :=
  r.stop ≤ s.start ∨ s.stop ≤ r.start

theorem Range.overlaps_eq_false_iff {r s : Range} : r.overlaps s = false ↔ r.Clear s := by
  simp only [Range.overlaps, Range.Clear, Bool.and_eq_false_iff, decide_eq_false_iff_not,
    Nat.not_lt]
  exact Or.comm

theorem Range.Clear.not_has {r s : Range} (clear : r.Clear s) {i : Nat} (here : r.Has i) :
    ¬ s.Has i := by
  intro there
  unfold Range.Clear at clear
  unfold Range.Has at here there
  omega

namespace Removal

/-! ## What comes off values -/

section

variable {source : Text} {patterns : List (WrapSite × WrapPattern)} {sites : List Wrapped}
  {r s range : Range}

/-- What is not cut lies apart from what is in it. -/
private theorem clear_of_not_isCut {removed : List Range} (free : isCut removed range = false)
    (hr : r ∈ removed) (low : range.start ≤ s.start)
    (high : s.stop ≤ range.stop) : r.Clear s := by
  have apart := Range.overlaps_eq_false_iff.1 (Bool.not_eq_true _ ▸ List.any_eq_false.1 free r hr)
  unfold Range.Clear at apart ⊢
  omega

/-- What comes off values lies apart. -/
private theorem unwrap_apart :
    ∀ r ∈ unwrap source patterns sites, ∀ s ∈ unwrap source patterns sites, r = s ∨ r.Clear s := by
  induction sites using List.reverseRecOn with
  | nil => exact List.forall_mem_nil _
  | append_singleton sites w ih =>
    rw [unwrap_concat]
    split
    · exact ih
    rename_i free
    split
    · exact ih
    rename_i other
    rw [Bool.not_eq_true] at free
    obtain ⟨layers, peels⟩ := @peels_peel source (patternsFor w.site patterns) (.ofTree w.node) _
      (Nat.le_refl _)
    obtain ⟨low, high, -⟩ := peels.covered_around_iff (i := 0)
    have left := peels.proper.resolve_left other
    -- The new parts lie in the node, and nothing was removed there before.
    have inside : ∀ s ∈ (Range.ofTree w.node).around (peeled source patterns w),
        w.node.start ≤ s.start ∧ s.stop ≤ w.node.stop := by
      have wide : w.node.start ≤ w.node.stop := by
        have low : w.node.start ≤ _ := low
        have high : _ ≤ w.node.stop := high
        omega
      refine List.forall_mem_cons.2
        ⟨⟨Nat.le_refl _, ?_⟩, List.forall_mem_singleton.2 ⟨?_, Nat.le_refl _⟩⟩
      · exact Nat.le_trans (Nat.le_of_lt left) high
      · exact Nat.le_trans low (Nat.le_of_lt left)
    intro r hr s hs
    rcases List.mem_append.1 hr with before | here <;>
      rcases List.mem_append.1 hs with before' | here'
    · exact ih r before s before'
    · obtain ⟨low, high⟩ := inside s here'
      exact .inr (clear_of_not_isCut free before low high)
    · obtain ⟨low, high⟩ := inside r here
      exact .inr (clear_of_not_isCut free before' low high).symm
    · rcases List.mem_pair.1 here with rfl | rfl <;> rcases List.mem_pair.1 here' with rfl | rfl
      · exact .inl rfl
      · exact .inr (.inl (Nat.le_of_lt left))
      · exact .inr (.inr (Nat.le_of_lt left))
      · exact .inl rfl

end

section

variable {file : SourceFile} {statements : List Range} {reverts : List Revert} {added : Dict Text}
  {edits : List Splice} {call operand : Tree} {old : Text}

theorem unwrapped_apart : ∀ r ∈ unwrapped file statements reverts added,
    r.start < r.stop ∧ ∀ s ∈ unwrapped file statements reverts added, r = s ∨ r.Clear s := by
  have given : ∀ r ∈ unwrapped file statements reverts added, r ∈ unwrap file.source
      (wrapPatterns reverts added) (wrapSites file statements) ∧ r.start < r.stop := by
    intro r hr
    obtain ⟨listed, full⟩ := List.mem_filter.1 hr
    exact ⟨listed, by simpa [Range.isEmpty] using full⟩
  intro r hr
  obtain ⟨listed, wide⟩ := given r hr
  refine ⟨wide, fun s hs => ?_⟩
  exact unwrap_apart r listed s (given s hs).1

/-! ## Calls that are sent back -/

variable (file statements reverts added) in
/-- A call in a marked statement goes through the name of the package that calls were sent to, and
its operand gets the name of the old package back. -/
def SentBack (operand : Tree) (old : Text) : Prop :=
  ∃ wanted source target call, .retarget wanted source target ∈ reverts ∧
    importedName? file source = some old ∧ old ≠ nameOf added target wanted ∧
    call ∈ calls file statements ∧
    GivesBack file (unwrapped file statements reverts added) (nameOf added target wanted)
      call operand

/-- The edit that gives a call its old target back. -/
def sendBack (operand : Tree) (old : Text) : Splice :=
  ⟨operand.start, operand.stop, old⟩

private theorem retarget_append (front behind : List Tree) (removed : List Range) (bound : Text) :
    retarget file (front ++ call :: behind) removed bound old edits =
      retarget file behind removed bound old (retarget file [call] removed bound old
        (retarget file front removed bound old edits)) :=
  List.foldl_append

private theorem subset_foldl_restore (removed : List Range) (rs : List Revert) :
    edits ⊆ rs.foldl (restore file statements added removed) edits :=
  foldl_keeps (K := (edits ⊆ ·)) (fun _ revert _ kept =>
    List.Subset.trans kept (subset_restore revert)) (List.Subset.refl _)

theorem removal_mem {r : Range} (hr : r ∈ unwrapped file statements reverts added) :
    r.removal ∈ revertStatements file statements reverts added := by
  have given : statements ≠ [] := by
    rintro rfl
    have covered : Covered (unwrapped file [] reverts added) r.start :=
      ⟨r, hr, Nat.le_refl _, (unwrapped_apart r hr).1⟩
    obtain ⟨w, layers, last, ⟨before, behind, split, -⟩, -⟩ := covered_unwrapped_iff.1 covered
    cases isInside_of_mem_wrapSites (split ▸ List.mem_append_cons_self)
  rw [revertStatements_eq given]
  exact subset_foldl_restore _ _ (List.mem_map_of_mem hr)

/-- Where no value is dropped, the edits of reverting remove what comes off values and send calls
back. -/
theorem mem_revertStatements (plain : ∀ template, .unassign template ∉ reverts) :
    ∀ e ∈ revertStatements file statements reverts added,
      (∃ r ∈ unwrapped file statements reverts added, e = r.removal) ∨
        ∃ operand old, SentBack file statements reverts added operand old ∧
          e = sendBack operand old := by
  by_cases given : statements = []
  · subst given
    exact List.forall_mem_nil _
  rw [revertStatements_eq given]
  -- The values come first, and every revert that sends calls back adds to them.
  refine foldl_keeps (K := fun edits : List Splice => ∀ e ∈ edits,
    (∃ r ∈ unwrapped file statements reverts added, e = r.removal) ∨
      ∃ operand old, SentBack file statements reverts added operand old ∧ e = sendBack operand old)
    (fun edits revert listed kept => ?_) ?_
  · -- What comes off values is already there when the reverts are gone through.
    cases revert with
    | unwrap site template => exact kept
    | unassign template => exact absurd listed (plain template)
    | retarget wanted source target =>
      rw [restore]
      split
      · exact kept
      rename_i old imported
      split
      · exact kept
      rename_i other
      refine foldl_keeps (K := fun edits : List Splice => ∀ e ∈ edits,
        (∃ r ∈ unwrapped file statements reverts added, e = r.removal) ∨
          ∃ operand old, SentBack file statements reverts added operand old ∧
            e = sendBack operand old)
        (fun edits call marked kept => ?_) kept
      split
      · exact kept
      rename_i operand called
      dsimp only
      split
      · rename_i due
        simp only [Bool.and_eq_true, decide_eq_true_eq, Bool.not_eq_true',
          Bool.or_eq_false_iff] at due
        refine List.forall_mem_append.2 ⟨kept, List.forall_mem_singleton.2 (.inr ?_)⟩
        exact ⟨operand, old, ⟨wanted, source, target, call, listed, imported, other, marked, called,
          due.1, due.2.1⟩, rfl⟩
      · exact kept
  · exact List.forall_mem_map.2 fun r hr => .inl ⟨r, hr, rfl⟩

/-- For a call that is to be sent back there is an edit, unless another one has its range. -/
private theorem exists_of_givesBack {removed : List Range} {bound : Text} {cs : List Tree}
    (marked : call ∈ cs) (gives : GivesBack file removed bound call operand) :
    ∃ e ∈ retarget file cs removed bound old edits, e.range = .ofTree operand := by
  obtain ⟨front, behind, rfl⟩ := List.append_of_mem marked
  rw [retarget_append]
  -- What follows adds to the edits only.
  suffices ∃ e ∈ retarget file [call] removed bound old
      (retarget file front removed bound old edits), e.range = .ofTree operand by
    obtain ⟨e, he, range⟩ := this
    exact ⟨e, subset_retarget behind he, range⟩
  generalize retarget file front removed bound old edits = edits
  obtain ⟨called, same, free⟩ := gives
  rw [retarget, List.foldl_cons, List.foldl_nil, called]
  dsimp only
  split
  · exact ⟨_, List.mem_append_right _ List.mem_cons_self, rfl⟩
  · rename_i taken
    unfold isCut at free
    simp only [same, free, Bool.false_or, decide_true, Bool.true_and, Bool.not_eq_true',
      Bool.not_eq_false, List.any_eq_true, Bool.and_eq_true, decide_eq_true_eq] at taken
    obtain ⟨e, he, start, stop⟩ := taken
    exact ⟨e, he, by rw [Splice.range, start, stop]⟩

/-- Where a call is sent back, there is an edit that sends it or another call with the same operand
back. -/
theorem exists_of_sentBack (plain : ∀ template, .unassign template ∉ reverts)
    (sent : SentBack file statements reverts added operand old) :
    ∃ operand' old', SentBack file statements reverts added operand' old' ∧
      Range.ofTree operand' = .ofTree operand ∧
      sendBack operand' old' ∈ revertStatements file statements reverts added := by
  obtain ⟨wanted, source, target, call, listed, imported, other, marked, gives⟩ := sent
  have given : statements ≠ [] := by
    rintro rfl
    cases (List.mem_filter.1 marked).2
  obtain ⟨e, he, range⟩ : ∃ e ∈ revertStatements file statements reverts added,
      e.range = .ofTree operand := by
    obtain ⟨front, behind, split⟩ := List.append_of_mem listed
    rw [revertStatements_eq given]
    generalize unwrapped file statements reverts added = removed at gives ⊢
    rw [split, List.foldl_append, List.foldl_cons]
    obtain ⟨e, he, range⟩ : ∃ e ∈ restore file statements added removed
        (front.foldl (restore file statements added removed) (removed.map Range.removal))
        (.retarget wanted source target), e.range = .ofTree operand := by
      rw [restore, imported]
      dsimp only
      rw [if_neg other]
      exact exists_of_givesBack marked gives
    exact ⟨e, subset_foldl_restore removed behind he, range⟩
  rcases mem_revertStatements plain e he with ⟨r, hr, rfl⟩ | ⟨operand', old', sent, rfl⟩
  · -- Where the operand stands, nothing is removed.
    have free := List.any_eq_false.1 gives.2.2 r hr
    have wide := (unwrapped_apart r hr).1
    have same : r = .ofTree operand := range
    rw [← same, Range.overlaps, Bool.and_eq_true, decide_eq_true_eq] at free
    exact absurd ⟨wide, wide⟩ free
  · exact ⟨operand', old', sent, range, he⟩

end

end Removal

end Interlace
