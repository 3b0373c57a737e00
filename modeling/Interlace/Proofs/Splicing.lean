import Interlace.Edit.Splice
import Interlace.Proofs.LineFacts
import Interlace.Proofs.Sorting

/-!
# What splices leave in place

The splices that are kept lie one behind the other, so applying them from the back to the front is
the same as writing the text out from front to back: what stands between two splices, then the text
of the next one. A range that no splice meets stands in the result as it is, behind what the splices
before it leave and before what the others leave.

## Key results

- `Splice.keep_apart`: the splices that are kept lie apart
- `Splice.applyAll_eq_spliced`: the text written out from front to back
- `Splice.spliced_append`: a range that no splice meets
-/

namespace Interlace

open Text

/-- The text from one offset to another with splices that lie apart, written from front to back. -/
def Splice.spliced (source : Text) (lo hi : Nat) : List Splice → Text
  | [] => source.slice lo hi
  | s :: ss => source.slice lo s.start ++ s.text ++ spliced source s.stop hi ss

/-- The splices lie one behind the other between two offsets. -/
def Splice.Apart (lo hi : Nat) : List Splice → Prop
  | [] => lo ≤ hi
  | s :: ss => lo ≤ s.start ∧ s.start ≤ s.stop ∧ Apart s.stop hi ss

namespace Splice

variable {source : Text} {lo hi low high : Nat} {ss behind : List Splice}

theorem Apart.le (h : Apart lo hi ss) : lo ≤ hi := by
  induction ss generalizing lo with
  | nil => exact h
  | cons s ss ih => exact Nat.le_trans h.1 (Nat.le_trans h.2.1 (ih h.2.2))

theorem Apart.mem (h : Apart lo hi ss) :
    ∀ s ∈ ss, lo ≤ s.start ∧ s.start ≤ s.stop ∧ s.stop ≤ hi := by
  induction ss generalizing lo with
  | nil => exact List.forall_mem_nil _
  | cons s ss ih =>
    obtain ⟨low, wide, rest⟩ := h
    refine List.forall_mem_cons.2 ⟨⟨low, wide, rest.le⟩, fun t ht => ?_⟩
    have := ih rest t ht
    omega

theorem Apart.pairwise (h : Apart lo hi ss) : ss.Pairwise fun s t => s.stop ≤ t.start := by
  induction ss generalizing lo with
  | nil => exact .nil
  | cons s ss ih => exact List.pairwise_cons.2 ⟨fun t ht => (h.2.2.mem t ht).1, ih h.2.2⟩

/-- The splices that are kept are some of the given ones, and no two of them meet. -/
theorem keep_apart {length reached : Nat} {splices : List Splice} :
    (∀ s ∈ keep length reached splices, s ∈ splices ∧ reached ≤ s.start ∧ s.stop ≤ length) ∧
      (keep length reached splices).Pairwise fun s t => s.stop ≤ t.start := by
  -- The induction is on the splices that are left, from where the last kept one ended.
  induction splices generalizing reached with
  | nil => exact ⟨nofun, .nil⟩
  | cons s splices ih =>
    rw [keep]
    split
    · refine ⟨fun t ht => ?_, ih.2⟩
      obtain ⟨listed, low, high⟩ := ih.1 t ht
      exact ⟨List.mem_cons_of_mem _ listed, low, high⟩
    · rename_i fits
      simp only [Bool.or_eq_true, decide_eq_true_eq, not_or, Nat.not_lt] at fits
      refine ⟨List.forall_mem_cons.2 ⟨⟨List.mem_cons_self, fits⟩, fun t ht => ?_⟩,
        List.pairwise_cons.2 ⟨fun t ht => ?_, ih.2⟩⟩
      · obtain ⟨listed, low, high⟩ := ih.1 t ht
        exact ⟨List.mem_cons_of_mem _ listed, by omega, high⟩
      · have := (ih.1 t ht).2.1
        omega

/-- Proper splices lie apart if they do so two by two. -/
theorem Apart.of_pairwise (le : lo ≤ hi) (proper : ∀ s ∈ ss, s.start ≤ s.stop)
    (bounds : ∀ s ∈ ss, lo ≤ s.start ∧ s.stop ≤ hi)
    (apart : ss.Pairwise fun s t => s.stop ≤ t.start) : Apart lo hi ss := by
  induction ss generalizing lo with
  | nil => exact le
  | cons s ss ih =>
    obtain ⟨wide, proper⟩ := List.forall_mem_cons.1 proper
    obtain ⟨⟨low, high⟩, bounds⟩ := List.forall_mem_cons.1 bounds
    obtain ⟨first, apart⟩ := List.pairwise_cons.1 apart
    exact ⟨low, wide, ih high proper (fun t ht => ⟨first t ht, (bounds t ht).2⟩) apart⟩

/-- Splices behind an offset leave what stands before it, and give what is written from there on. -/
theorem foldr_apply (apart : Apart lo source.length ss) :
    ss.foldr (fun s t => apply t s) source =
      source.take lo ++ spliced source lo source.length ss := by
  induction ss generalizing lo with
  | nil =>
    have rest : source.slice lo source.length = source.drop lo := by
      rw [slice, ← List.length_drop, List.take_length]
    rw [spliced, rest, List.take_append_drop]
    rfl
  | cons s ss ih =>
    obtain ⟨low, wide, rest⟩ := apart
    -- The splices behind are made, so what stands before this one's end is still the source.
    have long : (source.take s.stop).length = s.stop := by
      rw [List.length_take, Nat.min_eq_left rest.le]
    have front : source.take lo ++ source.slice lo s.start = source.take s.start := by
      have whole := slice_split source (Nat.zero_le lo) low
      rw [slice, slice] at whole
      exact whole.symm
    rw [List.foldr_cons, ih rest, apply, List.take_append_of_le_length (by omega), List.take_take,
      Nat.min_eq_left wide, List.drop_append_of_le_length (by omega),
      List.drop_eq_nil_of_le (Nat.le_of_eq long), List.nil_append, spliced, ← front]
    simp only [List.append_assoc]

/-- Applying splices writes the text out with those of them that are kept. -/
theorem applyAll_eq_spliced {splices : List Splice} (proper : ∀ s ∈ splices, s.start ≤ s.stop) :
    ∃ kept, kept ⊆ splices ∧ Apart 0 source.length kept ∧
      applyAll source splices = spliced source 0 source.length kept := by
  obtain ⟨kept, apart⟩ := @keep_apart source.length 0 (sortBy before splices)
  have given : keep source.length 0 (sortBy before splices) ⊆ splices :=
    fun s hs => (sortBy_perm _ _).mem_iff.1 (kept s hs).1
  have bounds : Apart 0 source.length (keep source.length 0 (sortBy before splices)) :=
    .of_pairwise (Nat.zero_le _) (fun s hs => proper s (given hs)) (fun s hs => (kept s hs).2) apart
  refine ⟨_, given, bounds, ?_⟩
  rw [applyAll, List.foldl_reverse]
  exact foldr_apply bounds

/-- What stands in a range that no splice meets is written as it is. -/
theorem spliced_append (before : Apart lo low ss) (le : low ≤ high) (after : Apart high hi behind) :
    spliced source lo hi (ss ++ behind) =
      spliced source lo low ss ++ source.slice low high ++ spliced source high hi behind := by
  induction ss generalizing lo with
  | nil =>
    -- The range is cut out of what stands between the last splice before it and the first behind
    -- it.
    cases behind with
    | nil =>
      rw [List.append_nil, spliced, spliced, spliced,
        slice_split source before (Nat.le_trans le after), slice_split source le after,
        List.append_assoc]
    | cons s behind =>
      have before : lo ≤ low := before
      rw [List.nil_append, spliced, spliced, spliced,
        slice_split source before (Nat.le_trans le after.1), slice_split source le after.1]
      simp only [List.append_assoc]
  | cons s ss ih =>
    rw [List.cons_append, spliced, spliced, ih before.2.2]
    simp only [List.append_assoc]

/-- Splices that all avoid a range are split by it. -/
theorem Apart.split (apart : Apart lo hi ss) (inside : lo ≤ low ∧ high ≤ hi)
    (avoid : ∀ s ∈ ss, s.stop ≤ low ∨ high ≤ s.start) :
    ∃ front behind, ss = front ++ behind ∧ Apart lo low front ∧ Apart high hi behind := by
  induction ss generalizing lo with
  | nil => exact ⟨[], [], rfl, inside.1, inside.2⟩
  | cons s ss ih =>
    obtain ⟨here, others⟩ := List.forall_mem_cons.1 avoid
    rcases here with before | after
    · obtain ⟨front, behind, rfl, first, last⟩ := ih apart.2.2 ⟨before, inside.2⟩ others
      exact ⟨s :: front, behind, rfl, ⟨apart.1, apart.2.1, first⟩, last⟩
    · exact ⟨[], s :: ss, rfl, inside.1, after, apart.2⟩

end Splice

end Interlace
