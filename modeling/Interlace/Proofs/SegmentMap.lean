import Interlace.Proofs.EditMeaning
import Interlace.Proofs.Folds
import Interlace.Text.Lemmas

/-!
# Where rendered text comes from

Rendering keeps a list of the pieces that the text consists of. The pieces tile the text, and read
as marked bytes they are what the sweep gives. The rest follows from what is known of the sweep:
copied bytes ascend in the source, they are the ones that no range covers, and looking an offset up
in the pieces finds the mark of its byte.

## Key results

- `Sweep.pieces_of_sweep`: the pieces of a rendered text tile it and carry the marks of the sweep
- `Rendered.sourceOffset?_eq`: looking up an offset finds its mark
- `Buffer.render_traces`: the segment map of every rendered text is right
-/

namespace Interlace

namespace Segment

/-- The number of bytes of a piece. -/
def size (s : Segment) : Nat :=
  s.stop - s.start

/-- The piece holds the byte at an offset of the text. -/
def Holds (s : Segment) (offset : Nat) : Prop :=
  s.start ≤ offset ∧ offset < s.stop

/-- The piece has the byte at an offset of the text from an offset of the source. -/
def Copies (s : Segment) (offset source : Nat) : Prop :=
  s.Holds offset ∧ ∃ origin, s.origin = some origin ∧ source = origin + (offset - s.start)

/-- Pieces follow one another from one offset to another without gaps, and none is empty. -/
def Tiles : (start : Nat) → List Segment → (stop : Nat) → Prop
  | start, [], stop => start = stop
  | start, s :: segments, stop => s.start = start ∧ s.start < s.stop ∧ Tiles s.stop segments stop

/-- Bytes copied in a row, or bytes from nowhere. -/
def mark (piece : Text) (origin : Option Nat) : List Marked :=
  piece.zipIdx.map fun (byte, k) => (byte, origin.map (· + k))

/-- The bytes of a piece of a text. -/
def marks (text : Text) (s : Segment) : List Marked :=
  mark (text.slice s.start s.stop) s.origin

/-! ## Tiles -/

variable {start stop : Nat} {s : Segment} {segments : List Segment}

private theorem tiles_concat (h : Tiles start segments stop) (hs : s.start = stop)
    (wide : s.start < s.stop) : Tiles start (segments ++ [s]) s.stop := by
  induction segments generalizing start with
  | nil => exact ⟨hs.trans h.symm, wide, rfl⟩
  | cons t segments ih => exact ⟨h.1, h.2.1, ih h.2.2⟩

theorem Tiles.le (h : Tiles start segments stop) : start ≤ stop := by
  induction segments generalizing start with
  | nil => exact Nat.le_of_eq h
  | cons t segments ih =>
    obtain ⟨rfl, wide, rest⟩ := h
    have := ih rest
    omega

/-- A piece is not empty and lies within the tiled range. -/
theorem Tiles.mem (h : Tiles start segments stop) (hs : s ∈ segments) :
    start ≤ s.start ∧ s.start < s.stop ∧ s.stop ≤ stop := by
  induction segments generalizing start with
  | nil => exact (List.not_mem_nil hs).elim
  | cons t segments ih =>
    obtain ⟨rfl, wide, rest⟩ := h
    rcases List.mem_cons.1 hs with rfl | hs
    · exact ⟨Nat.le_refl _, wide, rest.le⟩
    · have := ih rest hs
      omega

/-- Pieces end one after the other. -/
theorem Tiles.pairwise (h : Tiles start segments stop) :
    segments.Pairwise fun s t => s.stop < t.stop := by
  induction segments generalizing start with
  | nil => exact List.Pairwise.nil
  | cons t segments ih =>
    obtain ⟨rfl, wide, rest⟩ := h
    refine List.pairwise_cons.2 ⟨fun s hs => ?_, ih rest⟩
    have := rest.mem hs
    omega

/-- Every offset of the tiled range is in some piece. -/
private theorem Tiles.exists_mem (h : Tiles start segments stop) {offset : Nat}
    (low : start ≤ offset) (high : offset < stop) : ∃ s ∈ segments, s.Holds offset := by
  induction segments generalizing start with
  | nil =>
    have : start = stop := h
    omega
  | cons t segments ih =>
    obtain ⟨rfl, wide, rest⟩ := h
    by_cases here : offset < t.stop
    · exact ⟨t, List.mem_cons_self, low, here⟩
    · obtain ⟨s, hs, inside⟩ := ih rest (Nat.not_lt.1 here)
      exact ⟨s, List.mem_cons_of_mem t hs, inside⟩

/-- The piece that an offset is in is the first that ends behind it. -/
theorem Tiles.find? (h : Tiles start segments stop) (hs : s ∈ segments) {offset : Nat}
    (holds : s.Holds offset) : segments.find? (fun t => offset < t.stop) = some s := by
  induction segments generalizing start with
  | nil => exact (List.not_mem_nil hs).elim
  | cons t segments ih =>
    obtain ⟨rfl, wide, rest⟩ := h
    rcases List.mem_cons.1 hs with rfl | hs
    · simp [holds.2]
    · -- The piece stands further down, so the head ends before the offset.
      have passed : ¬ offset < t.stop := Nat.not_lt.2 (Nat.le_trans (rest.mem hs).1 holds.1)
      simp only [List.find?_cons, passed, decide_false]
      exact ih rest hs

/-! ## Marks -/

private theorem length_mark (piece : Text) (origin : Option Nat) :
    (mark piece origin).length = piece.length := by
  simp [mark]

private theorem getElem?_mark (piece : Text) (origin : Option Nat) (k : Nat) :
    (mark piece origin)[k]? = piece[k]?.map fun byte => (byte, origin.map (· + k)) := by
  simp [mark, List.getElem?_zipIdx, Function.comp_def]

/-- A byte of a copied piece comes from as far behind the origin as it is in the piece. -/
private theorem mem_marks {text : Text} {byte : UInt8} {source : Nat} :
    (byte, some source) ∈ marks text s ↔ ∃ origin k, s.origin = some origin ∧
      source = origin + k ∧ (text.slice s.start s.stop)[k]? = some byte := by
  rw [marks, List.mem_iff_getElem?]
  simp only [getElem?_mark, Option.map_eq_some_iff, Prod.mk.injEq]
  constructor
  · rintro ⟨k, c, hc, rfl, origin, ho, rfl⟩
    exact ⟨origin, k, ho, rfl, hc⟩
  · rintro ⟨origin, k, ho, rfl, hc⟩
    exact ⟨k, byte, hc, rfl, origin, ho, rfl⟩

end Segment

/-! ## The pieces of a sweep -/

private theorem Text.slice_append_left {t u : Text} {start stop : Nat} (h : stop ≤ t.length) :
    (t ++ u).slice start stop = t.slice start stop := by
  unfold Text.slice
  by_cases low : start ≤ t.length
  · have few : stop - start ≤ (t.drop start).length := by
      rw [List.length_drop]
      omega
    rw [List.drop_append_of_le_length low, List.take_append_of_le_length few]
  · rw [show stop - start = 0 by omega, List.take_zero, List.take_zero]

private theorem Text.slice_append_right (t u : Text) :
    (t ++ u).slice t.length (t.length + u.length) = u := by
  unfold Text.slice
  rw [List.drop_left, Nat.add_sub_cancel_left, List.take_length]

namespace Sweep

open Segment

variable {source : Text} {reached : Nat} {edits : List Edit} {out r : Rendered}

/-- Copied bytes in a row are the bytes of a range, one by one. -/
private theorem mark_slice (source : Text) (start stop : Nat) :
    mark (source.slice start stop) (some start) = copied source start stop := by
  unfold mark copied Text.slice
  generalize stop - start = count
  induction count generalizing start with
  | zero => simp
  | succ count ih =>
    rw [List.range'_succ, List.flatMap_cons, ← ih, kept, Text.slice, Nat.add_sub_cancel_left,
      ← List.drop_drop]
    cases source.drop start with
    | nil => simp
    | cons byte rest =>
      simp only [List.take_succ_cons, List.take_zero, List.zipIdx_cons, List.map_cons,
        List.map_nil, List.drop_succ_cons, List.drop_zero, List.cons_append, List.nil_append,
        Option.map_some, Nat.add_zero, Nat.zero_add, List.zipIdx_succ, List.map_map]
      refine congrArg _ (List.map_congr_left fun entry _ => ?_)
      exact Prod.ext rfl (congrArg some (by dsimp only; omega))

private theorem mark_none (text : Text) : mark text none = made text := by
  unfold mark made
  conv_rhs => rw [← List.zipIdx_map_fst 0 text, List.map_map]
  rfl

/-- The pieces tile the text, and these are their marks. -/
structure Pieces (r : Rendered) (marked : List Marked) : Prop where
  tiled : Tiles 0 r.segments r.text.length
  marks : r.segments.flatMap (marks r.text) = marked

/-- One more piece adds its marks. -/
theorem Pieces.append {marked : List Marked} (h : Pieces r marked) (piece : Text)
    (origin : Option Nat) : Pieces (r.append piece origin) (marked ++ mark piece origin) := by
  unfold Rendered.append
  split
  · -- An empty piece is left out, and has no marks.
    rename_i empty
    rw [empty]
    simpa [mark] using h
  · rename_i nonempty
    have wide : 0 < piece.length := List.length_pos_iff.2 nonempty
    constructor
    · have tiled := tiles_concat h.tiled
        (s := ⟨r.text.length, r.text.length + piece.length, origin⟩) rfl (by dsimp only; omega)
      simpa using tiled
    · -- The text grows behind the old pieces.
      have old : r.segments.flatMap (Segment.marks (r.text ++ piece)) = marked := by
        rw [← h.marks]
        refine List.flatMap_congr fun s hs => ?_
        rw [Segment.marks, Text.slice_append_left (h.tiled.mem hs).2.2, Segment.marks]
      rw [List.flatMap_append, old, List.flatMap_singleton, Segment.marks,
        Text.slice_append_right]

/-- The pieces of a rendered text carry the marks of the sweep. -/
theorem pieces_of_sweep {marked : List Marked} (h : Buffer.sweep source reached out edits = .ok r)
    (pieces : Pieces out marked) : Pieces r (marked ++ spread source reached edits) := by
  induction edits generalizing reached out marked with
  | nil =>
    cases h
    -- What is left of the source is the last piece.
    rw [spread, ← mark_slice]
    exact pieces.append _ _
  | cons e edits ih =>
    rw [Buffer.sweep] at h
    split at h
    · cases h
    · split at h
      · cases h
      · have next := ih h ((pieces.append _ _).append _ _)
        rw [mark_slice, mark_none] at next
        rw [spread]
        simpa only [List.append_assoc] using next

/-! ## What the sweep copies -/

variable {byte : UInt8} {offset : Nat}

/-- The second byte was copied from further on in the source than the first. -/
def Ascends (a b : Marked) : Prop :=
  ∀ o p, a.2 = some o → b.2 = some p → o < p

theorem slice_succ (source : Text) (offset : Nat) :
    source.slice offset (offset + 1) = source[offset]?.toList := by
  rw [Text.slice, Nat.add_sub_cancel_left, List.take_one, List.head?_drop]

/-- A byte is copied with a range iff it is in the range. -/
theorem mem_copied {start stop : Nat} : (byte, some offset) ∈ copied source start stop ↔
    start ≤ offset ∧ offset < stop ∧ source[offset]? = some byte := by
  -- Every offset of the range keeps its one byte.
  have each : ∀ i, (byte, some offset) ∈ kept source i ↔
      i = offset ∧ source[offset]? = some byte := by
    intro i
    rw [kept, slice_succ]
    constructor
    · intro h
      obtain ⟨c, hc, eq⟩ := List.mem_map.1 h
      cases eq
      exact ⟨rfl, Option.mem_toList.1 hc⟩
    · rintro ⟨rfl, h⟩
      exact List.mem_map.2 ⟨byte, Option.mem_toList.2 h, rfl⟩
  simp only [copied, List.mem_flatMap, List.mem_range'_1, each]
  constructor
  · rintro ⟨i, range, rfl, h⟩
    exact ⟨range.1, by omega, h⟩
  · rintro ⟨low, high, h⟩
    exact ⟨offset, ⟨low, by omega⟩, rfl, h⟩

theorem not_mem_made {text : Text} : (byte, some offset) ∉ made text := by
  simp [made]

/-- Edits that fit from an offset on cover nothing before it. -/
private theorem any_covers_eq_false {length : Nat} (fits : Fits length reached edits)
    (low : offset < reached) : edits.any (·.covers offset) = false := by
  induction edits generalizing reached with
  | nil => rfl
  | cons e edits ih =>
    obtain ⟨start, -, rest⟩ := fits
    have outside : e.covers offset = false := by
      simp only [Edit.covers, Bool.and_eq_false_iff, decide_eq_false_iff_not]
      omega
    rw [List.any_cons, outside, Bool.false_or]
    exact ih rest (by omega)

/-- The bytes that a sweep copies are those that no range covers. -/
theorem mem_spread (fits : Fits source.length reached edits) :
    (byte, some offset) ∈ spread source reached edits ↔
      reached ≤ offset ∧ source[offset]? = some byte ∧ edits.any (·.covers offset) = false := by
  induction edits generalizing reached with
  | nil =>
    rw [spread, mem_copied]
    constructor
    · rintro ⟨low, -, h⟩
      exact ⟨low, h, rfl⟩
    · rintro ⟨low, h, -⟩
      exact ⟨low, (List.getElem?_eq_some_iff.1 h).1, h⟩
  | cons e edits ih =>
    obtain ⟨start, -, rest⟩ := fits
    have outside : e.covers offset = false ↔ offset < e.start ∨ e.stop ≤ offset := by
      simp only [Edit.covers, Bool.and_eq_false_iff, decide_eq_false_iff_not]
      omega
    rw [spread, List.mem_append, List.mem_append, mem_copied, ih rest, List.any_cons,
      Bool.or_eq_false_iff, outside]
    constructor
    · rintro ((⟨low, high, h⟩ | h) | ⟨low, h, bare⟩)
      · exact ⟨low, h, .inl high, any_covers_eq_false rest (by omega)⟩
      · exact absurd h not_mem_made
      · exact ⟨by omega, h, .inr (by omega), bare⟩
    · -- What the first edit leaves is before it or behind it.
      rintro ⟨low, h, before | behind, bare⟩
      · exact .inl (.inl ⟨low, before, h⟩)
      · by_cases early : offset < e.start
        · exact .inl (.inl ⟨low, early, h⟩)
        · exact .inr ⟨by omega, h, bare⟩

private theorem copied_pairwise (source : Text) (start stop : Nat) :
    (copied source start stop).Pairwise Ascends := by
  have offsets : (List.range' start (stop - start)).Pairwise (· < ·) := List.pairwise_lt_range'
  refine List.pairwise_flatMap.2 ⟨fun i _ => ?_, ?_⟩
  · rw [kept, slice_succ]
    cases source[i]? <;> simp
  · refine offsets.imp fun less a ha b hb o p ho hp => ?_
    obtain ⟨_, -, rfl⟩ := List.mem_map.1 ha
    obtain ⟨_, -, rfl⟩ := List.mem_map.1 hb
    cases ho
    cases hp
    exact less

/-- A sweep copies in the order of the source. -/
private theorem spread_pairwise (fits : Fits source.length reached edits) :
    (spread source reached edits).Pairwise Ascends := by
  induction edits generalizing reached with
  | nil => exact copied_pairwise source reached source.length
  | cons e edits ih =>
    have put : (made e.text).Pairwise Ascends := by
      refine List.pairwise_map.2 (List.pairwise_of_forall fun _ _ o p ho => nomatch ho)
    rw [spread, List.append_assoc, List.pairwise_append, List.pairwise_append]
    refine ⟨copied_pairwise _ _ _, ⟨put, ih fits.2.2, ?_⟩, ?_⟩
    · intro a ha b _ o p ho
      obtain ⟨_, -, rfl⟩ := List.mem_map.1 ha
      cases ho
    · -- What is copied later starts behind the first edit.
      rintro ⟨a, x⟩ ha ⟨b, y⟩ hb o p rfl rfl
      rcases List.mem_append.1 hb with hb | hb
      · exact absurd hb not_mem_made
      · have first := mem_copied.1 ha
        have later := (mem_spread fits.2.2).1 hb
        omega

end Sweep

/-! ## Looking offsets up -/

namespace Rendered

open Segment Sweep

variable {r : Rendered} {marked : List Marked} {offset : Nat}

/-- The mark of an offset is found in tiles that start before it. -/
private theorem find?_bind_eq {text : Text} {segments : List Segment} {start : Nat}
    (tiled : Tiles start segments text.length) (low : start ≤ offset) :
    (match segments.find? fun s => offset < s.stop with
      | some s => if s.start ≤ offset then s.origin.map (· + (offset - s.start)) else none
      | none => none) =
      (segments.flatMap (marks text))[offset - start]?.bind Prod.snd := by
  induction segments generalizing start with
  | nil => simp
  | cons s segments ih =>
    obtain ⟨rfl, wide, rest⟩ := tiled
    have size : (marks text s).length = s.stop - s.start := by
      rw [marks, length_mark, Text.length_slice rest.le]
    rw [List.flatMap_cons, List.find?_cons]
    -- The offset is in the first piece, or in the pieces behind it.
    by_cases here : offset < s.stop
    · have inside : offset - s.start < (text.slice s.start s.stop).length := by
        rw [Text.length_slice rest.le]
        omega
      rw [List.getElem?_append_left (by omega), marks, getElem?_mark,
        List.getElem?_eq_getElem inside]
      simp [here, low]
    · rw [List.getElem?_append_right (by omega), size,
        show offset - s.start - (s.stop - s.start) = offset - s.stop by omega,
        ← ih rest (Nat.not_lt.1 here)]
      simp only [here, decide_false]

/-- Looking an offset up finds the mark of its byte. -/
theorem sourceOffset?_eq (pieces : Pieces r marked) (offset : Nat) :
    r.sourceOffset? offset = marked[offset]?.bind Prod.snd := by
  rw [← pieces.marks, sourceOffset?]
  exact find?_bind_eq pieces.tiled (Nat.zero_le offset)

/-- An offset is found exactly in a piece that was copied. -/
theorem sourceOffset?_eq_some_iff (tiled : Tiles 0 r.segments r.text.length) {source : Nat} :
    r.sourceOffset? offset = some source ↔ ∃ s ∈ r.segments, s.Copies offset source := by
  unfold sourceOffset?
  constructor
  · intro h
    split at h
    · rename_i s found
      split at h
      · rename_i low
        obtain ⟨origin, copied, rfl⟩ := Option.map_eq_some_iff.1 h
        have high : offset < s.stop := by simpa using List.find?_some found
        exact ⟨s, List.mem_of_find?_eq_some found, ⟨low, high⟩, origin, copied, rfl⟩
      · cases h
    · cases h
  · rintro ⟨s, hs, holds, origin, copied, rfl⟩
    -- The pieces are in order, so the first that ends behind the offset is the one that holds it.
    rw [tiled.find? hs holds]
    simp [holds.1, copied]

/-- An offset is not found exactly if it is behind the end or in a piece that was not copied. -/
theorem sourceOffset?_eq_none_iff (tiled : Tiles 0 r.segments r.text.length) :
    r.sourceOffset? offset = none ↔
      r.text.length ≤ offset ∨ ∃ s ∈ r.segments, s.Holds offset ∧ s.origin = none := by
  constructor
  · intro h
    by_cases high : offset < r.text.length
    · obtain ⟨s, hs, holds⟩ := tiled.exists_mem (Nat.zero_le offset) high
      refine .inr ⟨s, hs, holds, ?_⟩
      rw [Option.eq_none_iff_forall_ne_some]
      intro origin copied
      have found := (sourceOffset?_eq_some_iff tiled).2 ⟨s, hs, holds, origin, copied, rfl⟩
      rw [h] at found
      cases found
    · exact .inl (Nat.not_lt.1 high)
  · rw [Option.eq_none_iff_forall_ne_some]
    rintro outside source found
    obtain ⟨s, hs, holds, origin, copied, rfl⟩ := (sourceOffset?_eq_some_iff tiled).1 found
    rcases outside with far | ⟨t, ht, holds', made⟩
    · have := (tiled.mem hs).2.2
      have := holds.2
      omega
    · -- Only one piece holds the offset.
      have same := (tiled.find? hs holds).symm.trans (tiled.find? ht holds')
      cases same
      rw [made] at copied
      cases copied

/-! ## The segment map -/

/-- The segment map of a text that was rendered from a buffer is right. -/
structure Traces (r : Rendered) (b : Buffer) : Prop where
  /-- The pieces are not empty, follow one another without gaps, and make up the text. -/
  tiled : Tiles 0 r.segments r.text.length
  /-- A binary search for the first piece that ends behind an offset finds it. -/
  sorted : r.segments.Pairwise fun s t => s.stop < t.stop
  /-- A copied piece is the source from its origin on. -/
  slices : ∀ s ∈ r.segments, ∀ origin, s.origin = some origin →
    origin + s.size ≤ b.source.length ∧
      r.text.slice s.start s.stop = b.source.slice origin (origin + s.size)
  /-- Copied pieces are in the order of the source and do not overlap there. -/
  ascending : r.segments.Pairwise fun s t => ∀ origin later, s.origin = some origin →
    t.origin = some later → origin + s.size ≤ later
  /-- The bytes that are copied are those that no range covers. -/
  kept : ∀ offset, (∃ s ∈ r.segments, ∃ origin, s.origin = some origin ∧ origin ≤ offset ∧
      offset < origin + s.size) ↔ offset < b.source.length ∧ b.covers offset = false
  /-- An offset is found exactly if its byte was copied, and at the place it was copied from. -/
  found : ∀ offset source, r.sourceOffset? offset = some source ↔
    ∃ s ∈ r.segments, s.Copies offset source
  /-- Other offsets are those of generated bytes and those behind the end. -/
  notFound : ∀ offset, r.sourceOffset? offset = none ↔
    r.text.length ≤ offset ∨ ∃ s ∈ r.segments, s.Holds offset ∧ s.origin = none
  /-- A byte that was copied is the byte of the source. -/
  same : ∀ offset source, r.sourceOffset? offset = some source →
    ∃ byte, r.text[offset]? = some byte ∧ b.source[source]? = some byte
  /-- Copied bytes are in the order of the source. -/
  increasing : ∀ offset next source later, offset < next → r.sourceOffset? offset = some source →
    r.sourceOffset? next = some later → source < later
  /-- Said offset by offset of the source, these are the bytes and where they come from. -/
  marked : (∀ e ∈ b.edits, e.start ≤ e.stop) → r.text = b.marked.map Prod.fst ∧
    ∀ offset, r.sourceOffset? offset = b.marked[offset]?.bind Prod.snd

end Rendered

namespace Buffer

open Segment Sweep

section

variable {b : Buffer} {r : Rendered} (rendered : b.render = .ok r)

include rendered

private theorem fits_of_render : Fits b.source.length 0 b.sorted :=
  exists_sweep_eq_ok_iff.1 ⟨r, rendered⟩

private theorem pieces_of_render : Pieces r (spread b.source 0 b.sorted) :=
  pieces_of_sweep rendered ⟨rfl, rfl⟩

private theorem text_of_render : r.text = (spread b.source 0 b.sorted).map Prod.fst :=
  text_of_sweep rendered

/-- A byte is copied iff it is a byte of the source that no range covers. -/
private theorem mem_spread_sorted {byte : UInt8} {offset : Nat} :
    (byte, some offset) ∈ spread b.source 0 b.sorted ↔
      b.source[offset]? = some byte ∧ b.covers offset = false := by
  have same : b.sorted.any (·.covers offset) = b.covers offset :=
    (sortBy_perm Edit.before b.edits).any_eq
  rw [mem_spread (fits_of_render rendered), same]
  exact and_iff_right (Nat.zero_le offset)

variable {s : Segment} (hs : s ∈ r.segments)

include hs

private theorem length_slice_of_render : (r.text.slice s.start s.stop).length = s.size :=
  Text.length_slice ((pieces_of_render rendered).tiled.mem hs).2.2

/-- A byte of a copied piece is the byte of the source, and no range covers it. -/
private theorem copied_of_render {origin k : Nat} (ho : s.origin = some origin) (hk : k < s.size) :
    ∃ byte, (byte, some (origin + k)) ∈ marks r.text s ∧
      (r.text.slice s.start s.stop)[k]? = some byte ∧ b.source[origin + k]? = some byte ∧
        b.covers (origin + k) = false := by
  have inside : k < (r.text.slice s.start s.stop).length := by
    rw [length_slice_of_render rendered hs]
    exact hk
  -- The byte has a mark in its piece, and the marks of all pieces are those of the sweep.
  have byte := List.getElem?_eq_getElem inside
  have mine := mem_marks.2 ⟨origin, k, ho, rfl, byte⟩
  have given := List.mem_flatMap.2 ⟨s, hs, mine⟩
  rw [(pieces_of_render rendered).marks] at given
  exact ⟨_, mine, byte, (mem_spread_sorted rendered).1 given⟩

private theorem slice_of_render {origin : Nat} (ho : s.origin = some origin) :
    origin + s.size ≤ b.source.length ∧
      r.text.slice s.start s.stop = b.source.slice origin (origin + s.size) := by
  have wide : 0 < s.size := Nat.sub_pos_of_lt ((pieces_of_render rendered).tiled.mem hs).2.1
  -- The last byte of the piece is one of the source.
  have fits : origin + s.size ≤ b.source.length := by
    obtain ⟨_, -, -, byte, -⟩ := copied_of_render rendered hs ho (Nat.sub_one_lt_of_lt wide)
    have := (List.getElem?_eq_some_iff.1 byte).1
    omega
  refine ⟨fits, List.ext_getElem? fun k => ?_⟩
  by_cases hk : k < s.size
  · obtain ⟨_, -, byte, same, -⟩ := copied_of_render rendered hs ho hk
    rw [byte, Text.slice, Nat.add_sub_cancel_left, List.getElem?_take_of_lt hk,
      List.getElem?_drop, same]
  · -- Both slices end there.
    rw [List.getElem?_eq_none, List.getElem?_eq_none]
    · rw [Text.length_slice fits, Nat.add_sub_cancel_left]
      exact Nat.not_lt.1 hk
    · rw [length_slice_of_render rendered hs]
      exact Nat.not_lt.1 hk

end

section

variable {b : Buffer} {r : Rendered} (rendered : b.render = .ok r)

include rendered

/-- The last byte of a copied piece comes before the first byte of a later one. -/
private theorem ascending_of_render : r.segments.Pairwise fun s t => ∀ origin later,
    s.origin = some origin → t.origin = some later → origin + s.size ≤ later := by
  have pieces := pieces_of_render rendered
  have ascends := spread_pairwise (fits_of_render rendered)
  rw [← pieces.marks] at ascends
  refine (List.pairwise_flatMap.1 ascends).2.imp_of_mem ?_
  intro s t hs ht less origin later ho hl
  -- Pieces are not empty: take the last byte of the one and the first byte of the other.
  have wide : s.size - 1 < s.size :=
    Nat.sub_one_lt_of_lt (Nat.sub_pos_of_lt (pieces.tiled.mem hs).2.1)
  have wide' : 0 < t.size := Nat.sub_pos_of_lt (pieces.tiled.mem ht).2.1
  obtain ⟨_, last, -⟩ := copied_of_render rendered hs ho wide
  obtain ⟨_, first, -⟩ := copied_of_render rendered ht hl wide'
  have := less _ last _ first _ _ rfl rfl
  omega

/-- The bytes of copied pieces are those that no range covers. -/
private theorem kept_of_render (offset : Nat) :
    (∃ s ∈ r.segments, ∃ origin, s.origin = some origin ∧ origin ≤ offset ∧
      offset < origin + s.size) ↔ offset < b.source.length ∧ b.covers offset = false := by
  constructor
  · rintro ⟨s, hs, origin, ho, low, high⟩
    obtain ⟨k, rfl⟩ := Nat.exists_eq_add_of_le low
    have hk : k < s.size := by omega
    obtain ⟨_, -, -, byte, bare⟩ := copied_of_render rendered hs ho hk
    exact ⟨(List.getElem?_eq_some_iff.1 byte).1, bare⟩
  · rintro ⟨inside, bare⟩
    -- A byte that no edit covers was written, and only pieces of the source write it.
    have given := (mem_spread_sorted rendered).2 ⟨List.getElem?_eq_getElem inside, bare⟩
    rw [← (pieces_of_render rendered).marks] at given
    obtain ⟨s, hs, mine⟩ := List.mem_flatMap.1 given
    obtain ⟨origin, k, ho, rfl, byte⟩ := mem_marks.1 mine
    have hk := (List.getElem?_eq_some_iff.1 byte).1
    rw [length_slice_of_render rendered hs] at hk
    exact ⟨s, hs, origin, ho, by omega, by omega⟩

/-- The byte at an offset that is found is the byte of the source. -/
theorem same_of_render {offset source : Nat} (h : r.sourceOffset? offset = some source) :
    ∃ byte, r.text[offset]? = some byte ∧ b.source[source]? = some byte := by
  rw [Rendered.sourceOffset?_eq (pieces_of_render rendered)] at h
  obtain ⟨⟨byte, mark⟩, given, rfl⟩ := Option.bind_eq_some_iff.1 h
  refine ⟨byte, ?_, ((mem_spread_sorted rendered).1 (List.mem_of_getElem? given)).1⟩
  rw [text_of_render rendered, List.getElem?_map, given, Option.map_some]

/-- Offsets that are found ascend with the source. -/
private theorem increasing_of_render {offset next source later : Nat} (less : offset < next)
    (h : r.sourceOffset? offset = some source) (h' : r.sourceOffset? next = some later) :
    source < later := by
  rw [Rendered.sourceOffset?_eq (pieces_of_render rendered)] at h h'
  obtain ⟨a, ha, ho⟩ := Option.bind_eq_some_iff.1 h
  obtain ⟨c, hc, hl⟩ := Option.bind_eq_some_iff.1 h'
  obtain ⟨i, rfl⟩ := List.getElem?_eq_some_iff.1 ha
  obtain ⟨j, rfl⟩ := List.getElem?_eq_some_iff.1 hc
  have ascends := spread_pairwise (fits_of_render rendered)
  exact List.pairwise_iff_getElem.1 ascends offset next i j less _ _ ho hl

/-- The segment map of every rendered text is right: its pieces tile the text, the copied ones are
slices of the source in ascending order and make up exactly what no edit replaces, and an offset is
looked up where its byte was copied from. -/
theorem render_traces : r.Traces b where
  tiled := (pieces_of_render rendered).tiled
  sorted := (pieces_of_render rendered).tiled.pairwise
  slices _ hs _ ho := slice_of_render rendered hs ho
  ascending := ascending_of_render rendered
  kept := kept_of_render rendered
  found _ _ := Rendered.sourceOffset?_eq_some_iff (pieces_of_render rendered).tiled
  notFound _ := Rendered.sourceOffset?_eq_none_iff (pieces_of_render rendered).tiled
  same _ _ := same_of_render rendered
  increasing _ _ _ _ := increasing_of_render rendered
  marked ordered := by
    rw [← spread_sorted ordered (fits_of_render rendered)]
    exact ⟨text_of_render rendered, Rendered.sourceOffset?_eq (pieces_of_render rendered)⟩

end

/-- Behind the inserted and replaced text the offsets of the source go on where the removed range
ends. -/
theorem render_traces_tangled :
    ∃ r, tangled.render = .ok r ∧ r.Traces tangled ∧ r.sourceOffset? 3 = none ∧
      r.sourceOffset? 4 = some 4 ∧ r.sourceOffset? 7 = none := by
  have passed : (tangled.render.toOption.map fun r => decide (r.sourceOffset? 3 = none ∧
      r.sourceOffset? 4 = some 4 ∧ r.sourceOffset? 7 = none)) = some true := by decide +kernel
  obtain ⟨r, rendered, test⟩ := Option.map_eq_some_iff.1 passed
  rw [toOption_eq_some_iff] at rendered
  exact ⟨r, rendered, render_traces rendered, of_decide_eq_true test⟩

end Buffer

end Interlace
