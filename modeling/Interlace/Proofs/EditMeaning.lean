import Interlace.Edit.Buffer
import Interlace.Proofs.Sorting
import Mathlib.Data.List.Basic
import Mathlib.Data.List.Pairwise

/-!
# What an edit buffer means

Rendering is one sweep over sorted edits with a cursor. Its meaning is said without either, offset
by offset: the insertions at the offset, the text of a range that is replaced from there, and the
byte of the source unless a range covers it.

The sweep and its meaning are compared on marked bytes, which carry the offset of the source that
they were copied from. The rendered text is what is left without the marks.

## Key results

- `Sweep.fits_iff`: when a sweep over edits in order comes to an end
- `Sweep.spread_eq_flatMap`: a sweep, read offset by offset
- `Buffer.render_meaning`: when rendering fails, and what it gives otherwise
-/

namespace Interlace

/-! ## Edits that get in each other's way -/

namespace Edit

/-- The edits both replace some byte. -/
def overlaps (a b : Edit) : Bool :=
  ! a.isInsertion && ! b.isInsertion && a.start < b.stop && b.start < a.stop

/-- The edit is an insertion strictly inside the range that the other replaces. -/
def splits (a b : Edit) : Bool :=
  a.isInsertion && ! b.isInsertion && b.start < a.start && a.start < b.stop

/-- The edits cannot be applied together. -/
def clashes (a b : Edit) : Bool :=
  a.overlaps b || a.splits b || b.splits a

/-- The edit replaces the byte at the offset. -/
def covers (e : Edit) (offset : Nat) : Bool :=
  e.start ≤ offset && offset < e.stop

private theorem clashes_symm {a b : Edit} (h : a.clashes b = false) : b.clashes a = false := by
  simp only [clashes, overlaps, splits, isInsertion, Bool.or_eq_false_iff,
    Bool.and_eq_false_iff, Bool.not_eq_false', decide_eq_true_eq, decide_eq_false_iff_not] at *
  omega

theorem before_iff {a b : Edit} :
    a.before b ↔ a.start < b.start ∨ a.start = b.start ∧ a.rank ≤ b.rank := by
  simp [before]

theorem before_trans (a b c : Edit) (hab : a.before b) (hbc : b.before c) : a.before c := by
  rw [before_iff] at *
  omega

theorem before_total (a b : Edit) : a.before b || b.before a := by
  rw [Bool.or_eq_true, before_iff, before_iff]
  omega

theorem rank_le (e : Edit) : e.rank ≤ 2 := by
  unfold rank
  split
  · split <;> omega
  · omega

theorem rank_eq_zero_iff {e : Edit} : e.rank = 0 ↔ e.isInsertion ∧ e.bias = .left := by
  unfold rank
  cases e.isInsertion <;> cases e.bias <;> simp

theorem rank_eq_one_iff {e : Edit} : e.rank = 1 ↔ e.isInsertion ∧ e.bias = .right := by
  unfold rank
  cases e.isInsertion <;> cases e.bias <;> simp

theorem rank_eq_two_iff {e : Edit} : e.rank = 2 ↔ e.start < e.stop := by
  unfold rank isInsertion
  cases e.bias <;> simp

/-- Edits in the order of their ranks, rank by rank. -/
private theorem eq_filter_ranks {edits : List Edit}
    (sorted : edits.Pairwise fun e f => e.rank ≤ f.rank) :
    edits = edits.filter (·.rank = 0) ++ edits.filter (·.rank = 1)
      ++ edits.filter (·.rank = 2) := by
  -- The list is cut at the first rank, and what is left at the second.
  have low := eq_filter_append_filter sorted 1
  have high := eq_filter_append_filter (sorted.filter fun e => 1 ≤ e.rank) 2
  have zero : edits.filter (fun e => e.rank < 1) = edits.filter (·.rank = 0) :=
    List.filter_congr fun e _ => by simp
  have one : (edits.filter fun e => 1 ≤ e.rank).filter (fun e => e.rank < 2) =
      edits.filter (·.rank = 1) := by
    rw [List.filter_filter]
    refine List.filter_congr fun e _ => Bool.eq_iff_iff.2 ?_
    simp only [Bool.and_eq_true, decide_eq_true_eq]
    omega
  have two : (edits.filter fun e => 1 ≤ e.rank).filter (fun e => 2 ≤ e.rank) =
      edits.filter (·.rank = 2) := by
    rw [List.filter_filter]
    refine List.filter_congr fun e _ => Bool.eq_iff_iff.2 ?_
    have := e.rank_le
    simp only [Bool.and_eq_true, decide_eq_true_eq]
    omega
  rw [zero, high, one, two, ← List.append_assoc] at low
  exact low

/-- Of two edits in order, the second starts behind the first, or they clash. -/
theorem clashes_eq_false_iff {a b : Edit} (ha : a.start ≤ a.stop) (hb : b.start ≤ b.stop)
    (order : a.before b) : a.clashes b = false ↔ a.stop ≤ b.start := by
  rw [before_iff] at order
  have ra := rank_eq_two_iff (e := a)
  have rb := rank_eq_two_iff (e := b)
  have lb := rank_le b
  simp only [clashes, overlaps, splits, isInsertion, Bool.or_eq_false_iff, Bool.and_eq_false_iff,
    Bool.not_eq_false', decide_eq_true_eq, decide_eq_false_iff_not]
  omega

end Edit

/-! ## The sweep -/

/-- A rendered byte, and the offset of the source that it was copied from, if it was. -/
abbrev Marked := UInt8 × Option Nat

namespace Sweep

/-- Edits in order can be applied from an offset on: none starts before the end of the one before,
and none ends behind the source. -/
def Fits (length : Nat) : (reached : Nat) → List Edit → Prop
  | _, [] => True
  | reached, e :: edits =>
    reached ≤ e.start ∧ e.stop ≤ length ∧ Fits length (max e.stop e.start) edits

/-- A sweep comes to an end iff its edits fit. -/
theorem exists_sweep_eq_ok_iff {source : Text} {reached : Nat} {out : Rendered}
    {edits : List Edit} :
    (∃ r, Buffer.sweep source reached out edits = .ok r) ↔
      Fits source.length reached edits := by
  induction edits generalizing reached out with
  | nil => exact iff_of_true ⟨_, rfl⟩ trivial
  | cons e edits ih =>
    rw [Buffer.sweep, Fits]
    split
    · rename_i early
      exact iff_of_false nofun fun h => Nat.not_lt.2 h.1 early
    · rename_i late
      split
      · rename_i far
        exact iff_of_false nofun fun h => Nat.not_lt.2 h.2.1 far
      · rename_i near
        rw [ih]
        exact ⟨fun h => ⟨Nat.not_lt.1 late, Nat.not_lt.1 near, h⟩, fun h => h.2.2⟩

/-- Edits fit iff they lie between the offset and the end of the source and none starts before the
end of an earlier one. -/
theorem fits_iff {length reached : Nat} {edits : List Edit}
    (ordered : ∀ e ∈ edits, e.start ≤ e.stop) : Fits length reached edits ↔
      (∀ e ∈ edits, reached ≤ e.start ∧ e.stop ≤ length) ∧
        edits.Pairwise fun a b => a.stop ≤ b.start := by
  induction edits generalizing reached with
  | nil => simp [Fits]
  | cons e edits ih =>
    obtain ⟨he, rest⟩ := List.forall_mem_cons.1 ordered
    rw [Fits, ih rest, List.forall_mem_cons, List.pairwise_cons, Nat.max_eq_left he]
    -- What bounds the rest is the end of this edit, so this one is apart from each of them.
    constructor
    · rintro ⟨low, high, between, apart⟩
      refine ⟨⟨⟨low, high⟩, fun a ha => ?_⟩, fun a ha => (between a ha).1, apart⟩
      have := between a ha
      omega
    · rintro ⟨⟨⟨low, high⟩, between⟩, behind, apart⟩
      exact ⟨low, high, fun a ha => ⟨behind a ha, (between a ha).2⟩, apart⟩

/-! ## The sweep offset by offset -/

/-- The bytes of a text that is put in. -/
def made (text : Text) : List Marked :=
  text.map fun byte => (byte, none)

/-- The byte at an offset of the source; none at the end. -/
def kept (source : Text) (offset : Nat) : List Marked :=
  (source.slice offset (offset + 1)).map fun byte => (byte, some offset)

/-- The bytes of a range of the source. -/
def copied (source : Text) (start stop : Nat) : List Marked :=
  (List.range' start (stop - start)).flatMap (kept source)

/-- What a sweep over edits gives from an offset on. -/
def spread (source : Text) : (reached : Nat) → List Edit → List Marked
  | reached, [] => copied source reached source.length
  | reached, e :: edits =>
    copied source reached e.start ++ made e.text ++ spread source (max e.stop e.start) edits

/-- What edits in order give for an offset. -/
def givesAt (source : Text) (edits : List Edit) (offset : Nat) : List Marked :=
  made ((edits.filter fun e => e.start = offset).flatMap Edit.text)
    ++ if edits.any (·.covers offset) then [] else kept source offset

variable {source : Text} {reached offset : Nat} {e : Edit} {edits : List Edit}

private theorem made_append (s t : Text) : made (s ++ t) = made s ++ made t :=
  List.map_append

theorem made_map_fst (t : Text) : (made t).map Prod.fst = t := by
  rw [made, List.map_map]
  exact List.map_id t

/-- The bytes before all edits are kept. -/
private theorem givesAt_of_lt (h : ∀ e ∈ edits, offset < e.start) :
    givesAt source edits offset = kept source offset := by
  have nothing : (edits.filter fun e => e.start = offset) = [] := by
    refine List.filter_eq_nil_iff.2 fun e he => ?_
    have := h e he
    simp only [decide_eq_true_eq]
    omega
  have bare : edits.any (·.covers offset) = false := by
    refine List.any_eq_false.2 fun e he => ?_
    have := h e he
    simp only [Edit.covers, Bool.and_eq_true, decide_eq_true_eq]
    omega
  simp [givesAt, nothing, bare, made]

/-- An edit says nothing of an offset where it does not start and that it does not cover. -/
private theorem givesAt_cons_of_ne (start : e.start ≠ offset) (outside : e.covers offset = false) :
    givesAt source (e :: edits) offset = givesAt source edits offset := by
  simp [givesAt, start, outside]

/-- An insertion comes before everything else at its offset. -/
private theorem givesAt_cons_of_insertion (h : e.stop ≤ e.start) :
    givesAt source (e :: edits) e.start =
      made e.text ++ givesAt source edits e.start := by
  simp [givesAt, Edit.covers, Nat.not_lt.2 h, made_append]

/-- A range gives its text where it starts and nothing more before it stops. -/
private theorem givesAt_cons_of_covers (h : e.covers offset)
    (behind : ∀ a ∈ edits, e.stop ≤ a.start) :
    givesAt source (e :: edits) offset = if e.start = offset then made e.text else [] := by
  have nothing : (edits.filter fun a => a.start = offset) = [] := by
    refine List.filter_eq_nil_iff.2 fun a ha => ?_
    have := behind a ha
    simp only [Edit.covers, Bool.and_eq_true, decide_eq_true_eq] at h ⊢
    omega
  by_cases here : e.start = offset <;> simp [givesAt, nothing, h, here, made]

theorem range'_split {start middle stop : Nat} (low : start ≤ middle) (high : middle ≤ stop) :
    List.range' start (stop - start) =
      List.range' start (middle - start) ++ List.range' middle (stop - middle) := by
  have sizes : stop - start = (middle - start) + (stop - middle) := by omega
  rw [sizes, ← List.range'_append_1, Nat.add_sub_cancel' low]

/-- What one edit and those behind it give from its start on. -/
private theorem flatMap_givesAt_cons {length : Nat} (he : e.start ≤ e.stop)
    (inside : e.stop ≤ length) (behind : ∀ a ∈ edits, e.stop ≤ a.start) :
    (List.range' e.start (length + 1 - e.start)).flatMap (givesAt source (e :: edits)) =
      made e.text
        ++ (List.range' e.stop (length + 1 - e.stop)).flatMap (givesAt source edits) := by
  -- Behind its end, the edit says nothing.
  have later : ∀ i, e.stop ≤ i → e.start ≠ i →
      givesAt source (e :: edits) i = givesAt source edits i := by
    intro i hi hne
    refine givesAt_cons_of_ne hne ?_
    simp only [Edit.covers, Bool.and_eq_false_iff, decide_eq_false_iff_not]
    omega
  have first : List.range' e.start (length + 1 - e.start) =
      e.start :: List.range' (e.start + 1) (length - e.start) := by
    rw [show length + 1 - e.start = (length - e.start) + 1 by omega, List.range'_succ]
  by_cases insertion : e.stop = e.start
  · rw [insertion, first, List.flatMap_cons, List.flatMap_cons,
      givesAt_cons_of_insertion (Nat.le_of_eq insertion), List.append_assoc]
    congr 2
    refine List.flatMap_congr fun i hi => ?_
    rw [List.mem_range'_1] at hi
    exact later i (by omega) (by omega)
  · -- The range gives its text at its start, and nothing while it lasts.
    have whole : List.range' (e.start + 1) (length - e.start) =
        List.range' (e.start + 1) (e.stop - (e.start + 1))
          ++ List.range' e.stop (length + 1 - e.stop) := by
      rw [← range'_split (by omega) (by omega), Nat.add_sub_add_right]
    have within : ∀ i, e.start ≤ i → i < e.stop → e.covers i := by
      intro i low high
      simp [Edit.covers, low, high]
    have silent : (List.range' (e.start + 1) (e.stop - (e.start + 1))).flatMap
        (givesAt source (e :: edits)) = [] := by
      refine List.flatMap_eq_nil_iff.2 fun i hi => ?_
      rw [List.mem_range'_1] at hi
      rw [givesAt_cons_of_covers (within i (by omega) (by omega)) behind, if_neg (by omega)]
    have after : (List.range' e.stop (length + 1 - e.stop)).flatMap
        (givesAt source (e :: edits)) =
          (List.range' e.stop (length + 1 - e.stop)).flatMap (givesAt source edits) := by
      refine List.flatMap_congr fun i hi => ?_
      rw [List.mem_range'_1] at hi
      exact later i (by omega) (by omega)
    rw [first, whole, List.flatMap_cons, List.flatMap_append,
      givesAt_cons_of_covers (within _ (Nat.le_refl _) (by omega)) behind, if_pos rfl, silent,
      after, List.nil_append]

/-- A sweep over edits that fit gives, offset by offset, what the edits give there. -/
theorem spread_eq_flatMap (ordered : ∀ e ∈ edits, e.start ≤ e.stop)
    (low : reached ≤ source.length) (fits : Fits source.length reached edits) :
    spread source reached edits =
      (List.range' reached (source.length + 1 - reached)).flatMap (givesAt source edits) := by
  induction edits generalizing reached with
  | nil =>
    have bare : givesAt source [] = kept source := funext fun i => givesAt_of_lt nofun
    -- The last offset has no byte.
    have whole := range'_split low (Nat.le_succ source.length)
    have last : kept source source.length = [] := by simp [kept, Text.slice]
    rw [Nat.succ_sub (Nat.le_refl _), Nat.sub_self, List.range'_one] at whole
    rw [spread, bare, whole, List.flatMap_append, List.flatMap_singleton, last, List.append_nil,
      copied]
  | cons e edits ih =>
    obtain ⟨he, rest⟩ := List.forall_mem_cons.1 ordered
    obtain ⟨between, apart⟩ := (fits_iff ordered).1 fits
    obtain ⟨here, -⟩ := List.forall_mem_cons.1 between
    have behind : ∀ a ∈ edits, e.stop ≤ a.start := (List.pairwise_cons.1 apart).1
    have fits' : Fits source.length e.stop edits := Nat.max_eq_left he ▸ fits.2.2
    have high : e.start ≤ source.length + 1 := by omega
    rw [spread, Nat.max_eq_left he, ih rest here.2 fits', range'_split here.1 high,
      List.flatMap_append, flatMap_givesAt_cons he here.2 behind, List.append_assoc, copied]
    congr 1
    -- No edit starts before the first one.
    refine List.flatMap_congr fun i hi => ?_
    rw [List.mem_range'_1] at hi
    refine (givesAt_of_lt fun a ha => ?_).symm
    rcases List.mem_cons.1 ha with rfl | ha
    · omega
    · have := behind a ha
      omega

/-! ## The rendered text -/

/-- The bytes of a range, one by one. -/
theorem copied_map_fst (source : Text) (start stop : Nat) :
    (copied source start stop).map Prod.fst = source.slice start stop := by
  have unmarked : ∀ i, (kept source i).map Prod.fst = source.slice i (i + 1) := by
    intro i
    simp [kept, Function.comp_def]
  rw [copied, List.map_flatMap]
  simp only [unmarked]
  unfold Text.slice
  generalize stop - start = count
  induction count generalizing start with
  | zero => simp
  | succ count ih =>
    rw [List.range'_succ, List.flatMap_cons, ih, Nat.add_sub_cancel_left, Nat.add_comm count 1,
      List.take_add, List.drop_drop]

/-- A range of a text, byte by byte. -/
theorem flatMap_slice (source : Text) (start stop : Nat) :
    (List.range' start (stop - start)).flatMap (fun i => source.slice i (i + 1)) =
      source.slice start stop := by
  rw [← copied_map_fst, copied, List.map_flatMap]
  exact List.flatMap_congr fun i _ => by simp [kept, Function.comp_def]

theorem append_text (r : Rendered) (piece : Text) (origin : Option Nat) :
    (r.append piece origin).text = r.text ++ piece := by
  unfold Rendered.append
  split
  · rename_i empty
    rw [empty, List.append_nil]
  · rfl

/-- A sweep adds the bytes that it gives to the text. -/
theorem text_of_sweep {out r : Rendered} (h : Buffer.sweep source reached out edits = .ok r) :
    r.text = out.text ++ (spread source reached edits).map Prod.fst := by
  induction edits generalizing reached out with
  | nil =>
    cases h
    rw [append_text, spread, copied_map_fst]
  | cons e edits ih =>
    rw [Buffer.sweep] at h
    split at h
    · cases h
    · split at h
      · cases h
      · have plain : (made e.text).map Prod.fst = e.text := by simp [made, Function.comp_def]
        rw [ih h, append_text, append_text, spread, List.map_append, List.map_append,
          copied_map_fst, plain]
        simp only [List.append_assoc]

end Sweep

/-! ## Buffers -/

namespace Buffer

/-- The texts inserted at an offset that stick to one side, in the order they were made. -/
def inserted (b : Buffer) (bias : Bias) (offset : Nat) : Text :=
  (b.edits.filter fun e => e.start = offset && e.isInsertion && e.bias = bias).flatMap Edit.text

/-- The text in place of the range that is replaced from an offset on, if there is one. -/
def replacement (b : Buffer) (offset : Nat) : Text :=
  ((b.edits.find? fun e => e.start = offset && ! e.isInsertion).map Edit.text).getD []

/-- Some range that is replaced covers the offset. -/
def covers (b : Buffer) (offset : Nat) : Bool :=
  b.edits.any (·.covers offset)

/-- The text that stands for an offset of the source, which may be its end: what is inserted there,
what is put in place of a range that starts there, and the byte there unless it is replaced. -/
def textAt (b : Buffer) (offset : Nat) : Text :=
  b.inserted .left offset ++ b.inserted .right offset ++ b.replacement offset
    ++ if b.covers offset then [] else b.source.slice offset (offset + 1)

/-- The text of a buffer, offset by offset. -/
def meaning (b : Buffer) : Text :=
  (List.range (b.source.length + 1)).flatMap b.textAt

/-- The same as `textAt`, with the bytes marked. -/
def markedAt (b : Buffer) (offset : Nat) : List Marked :=
  Sweep.made (b.inserted .left offset ++ b.inserted .right offset ++ b.replacement offset)
    ++ if b.covers offset then [] else Sweep.kept b.source offset

/-- The same as `meaning`, with the bytes marked. -/
def marked (b : Buffer) : List Marked :=
  (List.range (b.source.length + 1)).flatMap b.markedAt

/-- The edits cannot be applied together: one ends behind the source, two of them replace the same
byte, or one is an insertion inside a range that another replaces. -/
def Conflicts (b : Buffer) : Prop :=
  (∃ e ∈ b.edits, b.source.length < e.stop) ∨
    ¬ b.edits.Pairwise (fun e f => e.overlaps f = false) ∨
      ∃ e ∈ b.edits, ∃ f ∈ b.edits, e.splits f

instance (b : Buffer) : Decidable b.Conflicts :=
  inferInstanceAs (Decidable (_ ∨ _ ∨ _))

/-- The edits in the order in which they are applied. -/
def sorted (b : Buffer) : List Edit :=
  sortBy Edit.before b.edits

variable {b : Buffer}

theorem mem_sorted {e : Edit} : e ∈ b.sorted ↔ e ∈ b.edits :=
  (sortBy_perm _ _).mem_iff

theorem sorted_pairwise : b.sorted.Pairwise fun e f => e.before f :=
  sortBy_pairwise Edit.before_trans Edit.before_total _

private theorem marked_map_fst : b.marked.map Prod.fst = b.meaning := by
  rw [marked, meaning, List.map_flatMap]
  refine List.flatMap_congr fun offset _ => ?_
  rw [markedAt, textAt, List.map_append]
  split <;> simp [Sweep.made, Sweep.kept, Function.comp_def]

/-! ### Conflicts -/

/-- No two edits clash iff no ranges overlap and no insertion splits a range. -/
theorem pairwise_clashes_iff {edits : List Edit} :
    edits.Pairwise (fun e f => e.clashes f = false) ↔
      edits.Pairwise (fun e f => e.overlaps f = false) ∧
        ∀ e ∈ edits, ∀ f ∈ edits, e.splits f = false := by
  have parts : ∀ e f : Edit, e.clashes f = false ↔
      e.overlaps f = false ∧ e.splits f = false ∧ f.splits e = false := by
    intro e f
    rw [Edit.clashes, Bool.or_eq_false_iff, Bool.or_eq_false_iff, and_assoc]
  simp only [parts, List.pairwise_and_iff]
  -- An edit does not split itself, so splitting can be asked of any two members.
  have alone : ∀ e ∈ edits, e.splits e = false := by
    intro e _
    simp [Edit.splits]
  refine and_congr_right fun _ => ⟨fun h e he f hf => ?_, fun h => ⟨?_, ?_⟩⟩
  · exact h.1.forall_of_forall_of_flip alone h.2 he hf
  · exact List.pairwise_of_forall_mem_list fun e he f hf => h e he f hf
  · exact List.pairwise_of_forall_mem_list fun e he f hf => h f hf e he

section

variable (ordered : ∀ e ∈ b.edits, e.start ≤ e.stop)

include ordered

theorem pairwise_sorted_iff : b.sorted.Pairwise (fun e f => e.stop ≤ f.start) ↔
    b.edits.Pairwise fun e f => e.clashes f = false := by
  rw [← (sortBy_perm Edit.before b.edits).pairwise_iff Edit.clashes_symm]
  -- For edits in order, not to clash is that the first ends before the second starts.
  have each : ∀ {e f : Edit}, e ∈ b.sorted → f ∈ b.sorted → e.before f →
      (e.clashes f = false ↔ e.stop ≤ f.start) := by
    intro e f he hf order
    have he' := ordered e (mem_sorted.1 he)
    have hf' := ordered f (mem_sorted.1 hf)
    exact Edit.clashes_eq_false_iff he' hf' order
  constructor
  · intro h
    exact (h.and sorted_pairwise).imp_of_mem fun he hf p => (each he hf p.2).2 p.1
  · intro h
    exact (h.and sorted_pairwise).imp_of_mem fun he hf p => (each he hf p.2).1 p.1

/-- The sorted edits fit iff there is no conflict. -/
theorem fits_sorted_iff : Sweep.Fits b.source.length 0 b.sorted ↔ ¬ b.Conflicts := by
  have ordered' : ∀ e ∈ b.sorted, e.start ≤ e.stop := fun e he => ordered e (mem_sorted.1 he)
  rw [Sweep.fits_iff ordered', pairwise_sorted_iff ordered, pairwise_clashes_iff]
  simp only [Conflicts, mem_sorted, Nat.zero_le, true_and, not_or, not_exists, not_and, not_not,
    Nat.not_lt, Bool.not_eq_true]

end

/-! ### One offset -/

/-- The edits of one rank at an offset stay in the order they were made. -/
private theorem filter_sorted (offset rank : Nat) :
    (b.sorted.filter fun e => e.start = offset).filter (·.rank = rank) =
      b.edits.filter fun e => e.start = offset && e.rank = rank := by
  have stable : b.sorted.filter (fun e => e.start = offset && e.rank = rank) =
      b.edits.filter fun e => e.start = offset && e.rank = rank := by
    refine filter_sortBy Edit.before_trans Edit.before_total (fun e f he hf => ?_) _
    simp only [Bool.and_eq_true, decide_eq_true_eq] at he hf
    exact Edit.before_iff.2 (.inr ⟨by omega, by omega⟩)
  rw [List.filter_filter, ← stable]
  exact List.filter_congr fun e _ => Bool.and_comm _ _

theorem inserted_eq (bias : Bias) (offset rank : Nat)
    (h : ∀ e : Edit, e.rank = rank ↔ e.isInsertion ∧ e.bias = bias) :
    b.inserted bias offset =
      (b.edits.filter fun e => e.start = offset && e.rank = rank).flatMap Edit.text := by
  refine congrArg (·.flatMap Edit.text) (List.filter_congr fun e _ => Bool.eq_iff_iff.2 ?_)
  simp only [Bool.and_eq_true, decide_eq_true_eq, h e, and_assoc]

/-- At most one range starts at an offset, and its text is the replacement there. -/
theorem replacement_eq (apart : b.sorted.Pairwise fun e f => e.stop ≤ f.start) (offset : Nat) :
    b.replacement offset =
      (b.edits.filter fun e => e.start = offset && e.rank = 2).flatMap Edit.text := by
  have same : (fun e : Edit => e.start = offset && ! e.isInsertion) =
      fun e => e.start = offset && e.rank = 2 := by
    funext e
    have kind : (! e.isInsertion) = decide (e.rank = 2) := by
      rw [Bool.eq_iff_iff, decide_eq_true_iff, Edit.rank_eq_two_iff]
      simp only [Edit.isInsertion, Bool.not_eq_true', decide_eq_false_iff_not, Nat.not_le]
    rw [kind]
  rw [replacement, same, ← List.head?_filter, ← filter_sorted]
  have apart' := (apart.filter fun e => e.start = offset).filter (·.rank = 2)
  have ranges : ∀ e ∈ (b.sorted.filter fun e => e.start = offset).filter (·.rank = 2),
      e.start = offset ∧ e.rank = 2 := by
    intro e he
    simp only [List.mem_filter, decide_eq_true_eq] at he
    exact ⟨he.1.2, he.2⟩
  generalize (b.sorted.filter fun e => e.start = offset).filter (·.rank = 2) = l at apart' ranges
  match l with
  | [] => rfl
  | [e] => simp
  | e :: f :: l =>
    -- The second range would start inside the first.
    have he := ranges e (by simp)
    have hf := ranges f (by simp)
    have ahead := (List.pairwise_cons.1 apart').1 f (by simp)
    have wide := Edit.rank_eq_two_iff.1 he.2
    omega

/-- Sorted edits without conflict give for an offset what the buffer says. -/
private theorem givesAt_sorted (apart : b.sorted.Pairwise fun e f => e.stop ≤ f.start)
    (offset : Nat) : Sweep.givesAt b.source b.sorted offset = b.markedAt offset := by
  -- At one offset the order is by rank alone: left, right, then what replaces.
  have ranks : (b.sorted.filter fun e => e.start = offset).Pairwise fun e f =>
      e.rank ≤ f.rank := by
    refine (sorted_pairwise.filter _).imp_of_mem fun he hf order => ?_
    have he' := of_decide_eq_true (List.mem_filter.1 he).2
    have hf' := of_decide_eq_true (List.mem_filter.1 hf).2
    rw [Edit.before_iff] at order
    omega
  have texts : (b.sorted.filter fun e => e.start = offset).flatMap Edit.text =
      b.inserted .left offset ++ b.inserted .right offset ++ b.replacement offset := by
    rw [inserted_eq _ _ 0 fun _ => Edit.rank_eq_zero_iff,
      inserted_eq _ _ 1 fun _ => Edit.rank_eq_one_iff, replacement_eq apart,
      Edit.eq_filter_ranks ranks, List.flatMap_append, List.flatMap_append, filter_sorted,
      filter_sorted, filter_sorted]
  have same : b.sorted.any (·.covers offset) = b.covers offset :=
    (sortBy_perm Edit.before b.edits).any_eq
  rw [Sweep.givesAt, texts, same, markedAt]

/-! ### Rendering -/

section

variable (ordered : ∀ e ∈ b.edits, e.start ≤ e.stop)

include ordered

/-- A sweep over the sorted edits gives the marked bytes offset by offset. -/
theorem spread_sorted (fits : Sweep.Fits b.source.length 0 b.sorted) :
    Sweep.spread b.source 0 b.sorted = b.marked := by
  have ordered' : ∀ e ∈ b.sorted, e.start ≤ e.stop := fun e he => ordered e (mem_sorted.1 he)
  have apart := ((Sweep.fits_iff ordered').1 fits).2
  rw [Sweep.spread_eq_flatMap ordered' (Nat.zero_le _) fits, marked, List.range_eq_range']
  exact List.flatMap_congr fun offset _ => givesAt_sorted apart offset

/-- Rendering fails iff the edits conflict. Otherwise it gives, offset by offset, the insertions
that stick to the text before and those that stick to the text after, each in the order they were
made, the text in place of a range that starts there, and the byte unless a range covers it. -/
theorem render_meaning :
    ((∃ fault, b.render = .error fault) ↔ b.Conflicts) ∧
      (¬ b.Conflicts → ∃ r, b.render = .ok r ∧ r.text = b.meaning) := by
  have ends : (∃ r, b.render = .ok r) ↔ ¬ b.Conflicts := by
    rw [← fits_sorted_iff ordered]
    exact Sweep.exists_sweep_eq_ok_iff
  refine ⟨?_, fun calm => ?_⟩
  · rw [← not_iff_not, ← ends]
    cases b.render <;> simp
  · obtain ⟨r, rendered⟩ := ends.2 calm
    refine ⟨r, rendered, ?_⟩
    rw [Sweep.text_of_sweep rendered]
    show [] ++ (Sweep.spread b.source 0 b.sorted).map Prod.fst = _
    rw [spread_sorted ordered ((fits_sorted_iff ordered).2 calm), marked_map_fst, List.nil_append]

end

/-- Two insertions at the start of a range that is replaced, a range that is removed behind it, and
an insertion at the end. -/
def tangled : Buffer :=
  (((((ofSource "abcdef").insert 1 "R" .right).insert 1 "L" .left).replace 1 3 "X").delete 3 4)
    |>.insert 6 "!" .left

/-- The edits are applied in the order of their offsets and sides, and one more inside the replaced
range cannot be applied. -/
theorem render_meaning_tangled :
    (∃ r, tangled.render = .ok r ∧ r.text = ("aLRXef!" : Text)) ∧
      ∃ fault, (tangled.insert 2 "Y" .right).render = .error fault := by
  have ordered : ∀ e ∈ tangled.edits, e.start ≤ e.stop := by decide
  have ordered' : ∀ e ∈ (tangled.insert 2 "Y" .right).edits, e.start ≤ e.stop := by decide
  have calm : ¬ tangled.Conflicts := by decide +kernel
  have meant : tangled.meaning = ("aLRXef!" : Text) := by decide +kernel
  obtain ⟨r, rendered, text⟩ := (render_meaning ordered).2 calm
  exact ⟨⟨r, rendered, text.trans meant⟩, (render_meaning ordered').1.2 (by decide +kernel)⟩

end Buffer

end Interlace
