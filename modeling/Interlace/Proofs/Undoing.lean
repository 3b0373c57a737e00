import Interlace.Proofs.KeptSplices

/-!
# Undoing splices

What splices made of a text is undone by other splices: each of them puts back what was replaced.
Where the source of the undoing is not the list of splices but the text that they led to, it need
not find them one by one. Splices that take out the same bytes and put the same texts back do.

## Key results

- `Splice.undo`: the splices that put back what was replaced
- `Splice.spliced_undo`: they lead back to the source
- `Splice.spliced_eq_of_gives`: what splices write depends on the bytes that they take out and on
  where they put texts in
- `Splice.applyAll_spliced_eq`: when splices lead back to the source
-/

namespace Interlace

open Text

namespace Splice

/-! ## Putting back what was replaced -/

/-- Things that are spliced in, each with the offset at which its text is written. -/
def spots {α : Type} (f : α → Splice) : (place lo : Nat) → List α → List (Nat × α)
  | _, _, [] => []
  | place, lo, a :: as =>
    (place + ((f a).start - lo), a) ::
      spots f (place + ((f a).start - lo) + (f a).text.length) (f a).stop as

/-- Puts back what was replaced by a splice whose text is written at an offset. -/
def back (source : Text) (place : Nat) (s : Splice) : Splice :=
  ⟨place, place + s.text.length, source.slice s.start s.stop⟩

/-- Puts back what was replaced, in a text that is written from an offset on. -/
def undo (source : Text) (place lo : Nat) (ss : List Splice) : List Splice :=
  (spots id place lo ss).map fun spot => back source spot.1 spot.2

variable {source w front : Text} {lo hi i : Nat} {s : Splice} {ss ss' : List Splice}

section

variable {α : Type} {f : α → Splice} {place : Nat} {as : List α}

@[simp] theorem spots_map_snd : (spots f place lo as).map Prod.snd = as := by
  induction as generalizing place lo with
  | nil => rfl
  | cons a as ih => rw [spots, List.map_cons, ih]

theorem undo_map : undo source place lo (as.map f) =
    (spots f place lo as).map fun spot => back source spot.1 (f spot.2) := by
  induction as generalizing place lo with
  | nil => rfl
  | cons a as ih => exact congrArg (List.cons _) ih

/-- What is spliced in is written at its spot. -/
theorem split_of_mem_spots (apart : Apart lo hi (as.map f)) (inside : hi ≤ source.length)
    (whole : w = front ++ spliced source lo hi (as.map f)) :
    ∀ spot ∈ spots f front.length lo as,
      ∃ front back, front.length = spot.1 ∧ w = front ++ (f spot.2).text ++ back := by
  -- The induction is on the splices, with all that is written before them in front.
  induction as generalizing lo front with
  | nil => exact List.forall_mem_nil _
  | cons a as ih =>
    obtain ⟨low, wide, apart⟩ := apart
    have size : (source.slice lo (f a).start).length = (f a).start - lo :=
      length_slice (Nat.le_trans wide (Nat.le_trans apart.le inside))
    have split : w = (front ++ source.slice lo (f a).start ++ (f a).text) ++
        spliced source (f a).stop hi (as.map f) := by
      rw [whole, List.map_cons, spliced]
      simp only [List.append_assoc]
    have later := ih apart split
    rw [List.length_append, List.length_append, size] at later
    refine List.forall_mem_cons.2 ⟨⟨_, _, ?_, split⟩, later⟩
    rw [List.length_append, size]

end

/-- Putting back what was replaced gives the source. -/
theorem spliced_undo (apart : Apart lo hi ss) (inside : hi ≤ source.length)
    (whole : w = front ++ spliced source lo hi ss) :
    Apart front.length w.length (undo source front.length lo ss) ∧
      spliced w front.length w.length (undo source front.length lo ss) = source.slice lo hi := by
  induction ss generalizing lo front with
  | nil =>
    have rest : w.slice front.length w.length = spliced source lo hi [] := by
      rw [whole, slice, List.drop_left, List.length_append, Nat.add_sub_cancel_left,
        List.take_length]
    refine ⟨?_, rest⟩
    show front.length ≤ w.length
    rw [whole, List.length_append]
    exact Nat.le_add_right _ _
  | cons s ss ih =>
    obtain ⟨low, wide, apart⟩ := apart
    have size : (source.slice lo s.start).length = s.start - lo :=
      length_slice (Nat.le_trans wide (Nat.le_trans apart.le inside))
    -- What stands before the rest is what was written so far, with the text of the splice.
    have split : w =
        (front ++ source.slice lo s.start ++ s.text) ++ spliced source s.stop hi ss := by
      rw [whole, spliced]
      simp only [List.append_assoc]
    obtain ⟨rest, behind⟩ := ih apart split
    have place : (front ++ source.slice lo s.start ++ s.text).length =
        front.length + (s.start - lo) + s.text.length := by
      rw [List.length_append, List.length_append, size]
    rw [place] at rest behind
    refine ⟨⟨Nat.le_add_right _ _, Nat.le_add_right _ _, rest⟩, ?_⟩
    have before :
        w.slice front.length (front.length + (s.start - lo)) = source.slice lo s.start := by
      rw [split, List.append_assoc, List.append_assoc, slice, List.drop_left,
        Nat.add_sub_cancel_left, List.take_append_of_le_length (Nat.le_of_eq size.symm), ← size,
        List.take_length]
    show w.slice front.length (front.length + (s.start - lo)) ++ source.slice s.start s.stop ++
      spliced w (front.length + (s.start - lo) + s.text.length) w.length
        (undo source (front.length + (s.start - lo) + s.text.length) s.stop ss) = _
    rw [before, behind, slice_split source low (Nat.le_trans wide apart.le),
      slice_split source wide apart.le, List.append_assoc]

/-! ## Byte by byte -/

/-- One of the splices takes the byte at the offset out. -/
def covers (ss : List Splice) (i : Nat) : Bool :=
  ss.any fun s => s.start ≤ i && i < s.stop

/-- What is written for an offset of a text: the texts that are put in there, and its byte unless
that is taken out. -/
def gives (w : Text) (ss : List Splice) (i : Nat) : Text :=
  (ss.filter (·.start = i)).flatMap Splice.text ++ if covers ss i then [] else w.slice i (i + 1)

theorem covers_iff : covers ss i ↔ ∃ s ∈ ss, s.start ≤ i ∧ i < s.stop := by
  simp [covers]

private theorem gives_cons_of_lt (apart : Apart lo hi (s :: ss))
    (proper : ∀ t ∈ s :: ss, t.start < t.stop)
    (before : i < s.start) : gives w (s :: ss) i = w.slice i (i + 1) := by
  -- All splices start behind the place, so its byte is kept.
  have later : ∀ t ∈ s :: ss, i < t.start := by
    refine List.forall_mem_cons.2 ⟨before, fun t ht => ?_⟩
    have := (apart.2.2.mem t ht).1
    have := proper s List.mem_cons_self
    omega
  have nothing : (s :: ss).filter (·.start = i) = [] :=
    List.filter_eq_nil_iff.2 fun t ht => by
      have := later t ht
      simpa using by omega
  have kept : covers (s :: ss) i = false := by
    rw [← Bool.not_eq_true, covers_iff]
    rintro ⟨t, ht, low, -⟩
    have := later t ht
    omega
  rw [gives, nothing, kept]
  rfl

private theorem gives_cons_of_le (proper : s.start < s.stop) (behind : s.stop ≤ i) :
    gives w (s :: ss) i = gives w ss i := by
  have other : ¬ (s.start = i) := by omega
  have outside : ¬ (i < s.stop) := by omega
  simp [gives, covers, other, outside]

private theorem gives_cons_of_within (apart : Apart lo hi (s :: ss)) (low : s.start ≤ i)
    (high : i < s.stop) : gives w (s :: ss) i = if s.start = i then s.text else [] := by
  have nothing : ss.filter (·.start = i) = [] :=
    List.filter_eq_nil_iff.2 fun t ht => by
      have := (apart.2.2.mem t ht).1
      simpa using by omega
  have out : covers (s :: ss) i = true := covers_iff.2 ⟨s, List.mem_cons_self, low, high⟩
  rw [gives, List.filter_cons, nothing, out, if_pos rfl, List.append_nil]
  by_cases here : s.start = i <;> simp [here]

/-- The text is written byte by byte. -/
private theorem spliced_eq_flatMap (apart : Apart lo hi ss) (proper : ∀ s ∈ ss, s.start < s.stop) :
    spliced w lo hi ss = (List.range' lo (hi - lo)).flatMap (gives w ss) := by
  induction ss generalizing lo with
  | nil => exact (Sweep.flatMap_slice w lo hi).symm
  | cons s ss ih =>
    obtain ⟨wide, others⟩ := List.forall_mem_cons.1 proper
    -- The text falls into what is before the first splice, its range, and what is behind.
    have before : (List.range' lo (s.start - lo)).flatMap (gives w (s :: ss)) =
        w.slice lo s.start := by
      rw [← Sweep.flatMap_slice]
      refine List.flatMap_congr fun i hi => gives_cons_of_lt apart proper ?_
      have := List.mem_range'_1.1 hi
      omega
    have here : (List.range' s.start (s.stop - s.start)).flatMap (gives w (s :: ss)) = s.text := by
      obtain ⟨n, size⟩ := Nat.exists_eq_add_of_lt wide
      -- Its text is given at its first byte, and nothing at the others.
      have rest : ∀ i ∈ List.range' (s.start + 1) n, gives w (s :: ss) i = [] := by
        intro i hi
        have := List.mem_range'_1.1 hi
        rw [gives_cons_of_within apart (by omega) (by omega), if_neg (by omega)]
      rw [show s.stop - s.start = n + 1 by omega, List.range'_succ, List.flatMap_cons,
        List.flatMap_eq_nil_iff.2 rest, gives_cons_of_within apart (Nat.le_refl _) wide, if_pos rfl,
        List.append_nil]
    have behind : (List.range' s.stop (hi - s.stop)).flatMap (gives w (s :: ss)) =
        spliced w s.stop hi ss := by
      rw [ih apart.2.2 others]
      refine List.flatMap_congr fun i hi => gives_cons_of_le wide ?_
      exact (List.mem_range'_1.1 hi).1
    rw [Sweep.range'_split apart.1 (Nat.le_trans apart.2.1 apart.2.2.le),
      Sweep.range'_split apart.2.1 apart.2.2.le, List.flatMap_append, List.flatMap_append, before,
      here, behind, spliced, List.append_assoc]

/-- At an offset at most one splice starts. -/
private theorem texts_at (apart : Apart lo hi ss) (proper : ∀ s ∈ ss, s.start < s.stop)
    (hs : s ∈ ss) : (ss.filter (·.start = s.start)).flatMap Splice.text = s.text := by
  induction ss generalizing lo with
  | nil => cases hs
  | cons t ss ih =>
    obtain ⟨wide, others⟩ := List.forall_mem_cons.1 proper
    -- Splices are not empty and lie apart, so the next one starts later.
    rcases List.mem_cons.1 hs with rfl | later
    · have nothing : ss.filter (·.start = s.start) = [] :=
        List.filter_eq_nil_iff.2 fun t ht => by
          have := (apart.2.2.mem t ht).1
          simpa using by omega
      simp [nothing]
    · have other : t.start ≠ s.start := by
        have := (apart.2.2.mem s later).1
        omega
      rw [List.filter_cons_of_neg (by simpa using other)]
      exact ih apart.2.2 others later

/-- Splices that take out the same bytes and put the same texts in write the same text. -/
theorem spliced_eq_of_gives (apart : Apart lo hi ss) (apart' : Apart lo hi ss')
    (proper : ∀ s ∈ ss, s.start < s.stop) (proper' : ∀ s ∈ ss', s.start < s.stop)
    (bytes : ∀ i, covers ss i = covers ss' i)
    (texts : ∀ s, s.text ≠ [] → (s ∈ ss ↔ s ∈ ss')) :
    spliced w lo hi ss = spliced w lo hi ss' := by
  -- Splices that put nothing in may differ, as long as they take out the same bytes.
  have nothing {ss : List Splice} {i : Nat} (none : ¬ ∃ s ∈ ss, s.start = i ∧ s.text ≠ []) :
      (ss.filter (·.start = i)).flatMap Splice.text = [] := by
    refine List.flatMap_eq_nil_iff.2 fun s hs => ?_
    obtain ⟨listed, start⟩ := List.mem_filter.1 hs
    by_contra given
    exact none ⟨s, listed, of_decide_eq_true start, given⟩
  rw [spliced_eq_flatMap apart proper, spliced_eq_flatMap apart' proper']
  refine List.flatMap_congr fun i _ => ?_
  rw [gives, gives, bytes i]
  refine congrArg (· ++ _) ?_
  by_cases some_there : ∃ s ∈ ss, s.start = i ∧ s.text ≠ []
  · obtain ⟨s, hs, rfl, given⟩ := some_there
    rw [texts_at apart proper hs, texts_at apart' proper' ((texts s given).1 hs)]
  · rw [nothing some_there, nothing]
    rintro ⟨s, hs, start, given⟩
    exact some_there ⟨s, (texts s given).2 hs, start, given⟩

/-! ## Leading back -/

/-- Where splices that meet are the same, all of them are kept. -/
theorem mem_kept_iff (proper : ∀ s ∈ ss, s.start < s.stop) (fit : ∀ s ∈ ss, s.stop ≤ w.length)
    (alone : ∀ s ∈ ss, ∀ t ∈ ss, s = t ∨ s.meets t = false) : s ∈ kept w ss ↔ s ∈ ss := by
  refine ⟨fun hs => (kept_apart proper).1 hs, fun hs => ?_⟩
  obtain ⟨dropped, perm, met⟩ := @exists_dropped_of_kept w ss proper
  rcases List.mem_append.1 (perm.mem_iff.2 hs) with listed | passed
  · exact listed
  · obtain ⟨k, hk, -, meets⟩ := met s passed (fit s hs)
    rcases alone k ((kept_apart proper).1 hk) s hs with rfl | apart
    · exact hk
    · rw [apart] at meets
      cases meets

/-- Splices of a spliced text lead back to the source if they take out what was put in and nothing
else, and put back what was replaced and nothing else. -/
theorem applyAll_spliced_eq {splices : List Splice} (apart : Apart 0 source.length ss)
    (given : ∀ s ∈ ss, s.text ≠ []) (whole : w = spliced source 0 source.length ss)
    (proper : ∀ s ∈ splices, s.start < s.stop)
    (alone : ∀ s ∈ splices, ∀ t ∈ splices, s = t ∨ s.meets t = false)
    (bytes : ∀ i, covers splices i = covers (undo source 0 0 ss) i)
    (texts : ∀ s, s.text ≠ [] → (s ∈ splices ↔ s ∈ undo source 0 0 ss)) :
    applyAll w splices = source := by
  obtain ⟨behind, restored⟩ :=
    spliced_undo apart (Nat.le_refl _) (whole.trans (List.nil_append _).symm)
  rw [List.length_nil] at behind restored
  -- Only what was put in is covered, so no splice reaches beyond the text.
  have fit : ∀ s ∈ splices, s.stop ≤ w.length := by
    intro s hs
    have last : covers splices (s.stop - 1) = true := by
      have := proper s hs
      exact covers_iff.2 ⟨s, hs, by omega, by omega⟩
    obtain ⟨t, ht, -, high⟩ := covers_iff.1 ((bytes _).symm.trans last)
    have := (behind.mem t ht).2.2
    omega
  -- The splices do not overlap, so all of them are kept.
  have same : ∀ s, s ∈ kept w splices ↔ s ∈ splices := fun s => mem_kept_iff proper fit alone
  have wide : ∀ s ∈ undo source 0 0 ss, s.start < s.stop := by
    refine List.forall_mem_map.2 fun spot hs => Nat.lt_add_of_pos_right (List.length_pos_iff.2 ?_)
    have listed := List.mem_map_of_mem (f := Prod.snd) hs
    rw [spots_map_snd] at listed
    exact given spot.2 listed
  rw [applyAll_eq_spliced_kept proper, spliced_eq_of_gives (kept_apart proper).2.1 behind
    (fun s hs => proper s ((same s).1 hs)) wide (fun i => ?_)
    (fun s put => (same s).trans (texts s put)), restored]
  · simp [slice]
  · rw [← bytes i, Bool.eq_iff_iff, covers_iff, covers_iff]
    exact exists_congr fun s => and_congr_left fun _ => same s

end Splice

end Interlace
