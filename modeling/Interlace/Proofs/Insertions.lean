import Interlace.Edit.Splice
import Interlace.Proofs.LineFacts
import Interlace.Proofs.SegmentMap

/-!
# Texts with insertions

A text into which others were inserted is the source with the inserted texts between its parts.
Every inserted text stands at an offset that follows from the texts before it, and cutting all of
them out again gives the source back.

## Key results

- `Insertions.woven_append`: the text around one of the insertions
- `Insertions.sweep_eq`: a sweep over insertions gives the text, with a segment for each of them
- `Insertions.applyAll_places`: cutting the inserted texts out gives the source
- `Insertions.sourceOffset?_around`: what is copied stands before or behind an insertion as in the
  source
-/

namespace Interlace

/-! ## Sorted lists -/

section

variable {α : Type}

variable {le : α → α → Bool} (trans : ∀ a b c, le a b → le b c → le a c)
  (total : ∀ a b, le a b || le b a)

include trans total

/-- Elements that are not told apart keep their order. -/
theorem sortBy_stable {Q : α → α → Prop} {l : List α} (h : l.Pairwise Q) :
    (sortBy le l).Pairwise fun a b => le b a → Q a b := by
  have insert : ∀ (a : α) (l : List α), l.Pairwise (fun b c => le b c) → (∀ b ∈ l, Q b a) →
      l.Pairwise (fun b c => le c b → Q b c) →
        (insertBy le a l).Pairwise fun b c => le c b → Q b c := by
    intro a l
    induction l with
    | nil => exact fun _ _ _ => List.pairwise_singleton _ _
    | cons b l ih =>
      intro sorted before alike
      obtain ⟨first, rest⟩ := List.pairwise_cons.1 sorted
      obtain ⟨first', rest'⟩ := List.pairwise_cons.1 alike
      rw [insertBy]
      split
      · refine List.pairwise_cons.2 ⟨fun c hc back => ?_, ?_⟩
        · rcases List.mem_cons.1 ((insertBy_perm le a l).mem_iff.1 hc) with rfl | hc
          · exact before b List.mem_cons_self
          · exact first' c hc back
        · exact ih rest (fun c hc => before c (List.mem_cons_of_mem b hc)) rest'
      · rename_i stop
        -- Nothing from here on comes before what is inserted.
        refine List.pairwise_cons.2 ⟨fun c hc back => ?_, alike⟩
        rcases List.mem_cons.1 hc with rfl | hc
        · exact absurd back stop
        · exact absurd (trans b c a (first c hc) back) stop
  induction l using List.reverseRecOn with
  | nil => exact List.Pairwise.nil
  | append_singleton l a ih =>
    obtain ⟨old, -, last⟩ := List.pairwise_append.1 h
    rw [sortBy_concat]
    refine insert a _ (sortBy_pairwise trans total l) (fun b hb => ?_) (ih old)
    exact last b ((sortBy_perm le l).mem_iff.1 hb) a List.mem_cons_self

end

namespace Insertions

/-! ## The text -/

/-- Insertions of something, in the order of their offsets and from an offset on. -/
def Inserted (length : Nat) : (reached : Nat) → List Edit → Prop
  | _, [] => True
  | reached, e :: edits => (reached ≤ e.start ∧ e.start ≤ length) ∧ e.stop = e.start ∧ e.text ≠ [] ∧
    Inserted length e.start edits

/-- The source from one offset to another with insertions. -/
def woven (source : Text) : (reached : Nat) → List Edit → (stop : Nat) → Text
  | reached, [], stop => source.slice reached stop
  | reached, e :: edits, stop =>
    source.slice reached e.start ++ e.text ++ woven source e.start edits stop

/-- Where insertions stand in the text, if what is before the first offset ends at `position`. -/
def places : (position reached : Nat) → List Edit → List (Nat × Edit)
  | _, _, [] => []
  | position, reached, e :: edits =>
    let start := position + (e.start - reached)
    (start, e) :: places (start + e.text.length) e.start edits

variable {source : Text} {reached stop : Nat} {e : Edit} {edits before after : List Edit}

theorem inserted_append {length : Nat} (h : Inserted length reached (before ++ e :: after)) :
    Inserted length reached before ∧ (∀ b ∈ before, b.start ≤ e.start) ∧ reached ≤ e.start ∧
      e.start ≤ length ∧ e.text ≠ [] ∧ Inserted length e.start after := by
  induction before generalizing reached with
  | nil => exact ⟨trivial, nofun, h.1.1, h.1.2, h.2.2.1, h.2.2.2⟩
  | cons b before ih =>
    obtain ⟨range, plain, given, rest⟩ := h
    obtain ⟨first, below, low, high, nonempty, last⟩ := ih rest
    refine ⟨⟨range, plain, given, first⟩, ?_, by omega, high, nonempty, last⟩
    intro a ha
    rcases List.mem_cons.1 ha with rfl | ha
    · exact low
    · exact below a ha

/-- The text around one of the insertions. -/
theorem woven_append :
    woven source reached (before ++ e :: after) stop =
      woven source reached before e.start ++ e.text ++ woven source e.start after stop := by
  induction before generalizing reached with
  | nil => rfl
  | cons b before ih =>
    rw [List.cons_append, woven, ih, woven]
    simp only [List.append_assoc]

theorem length_places (position reached : Nat) (edits : List Edit) :
    (places position reached edits).length = edits.length := by
  induction edits generalizing position reached with
  | nil => rfl
  | cons e edits ih => rw [places, List.length_cons, List.length_cons, ih]

/-- An insertion stands behind the text before it. -/
theorem places_append {length : Nat} (h : Inserted length reached (before ++ e :: after))
    (inside : length ≤ source.length) (position : Nat) :
    places position reached (before ++ e :: after) = places position reached before ++
      (position + (woven source reached before e.start).length, e) ::
        places (position + (woven source reached before e.start).length + e.text.length)
          e.start after := by
  induction before generalizing reached position with
  | nil =>
    have size : (woven source reached [] e.start).length = e.start - reached := by
      have := h.1.2
      exact Text.length_slice (by omega)
    rw [List.nil_append, places, places, size]
    rfl
  | cons b before ih =>
    obtain ⟨range, plain, given, rest⟩ := h
    have split := ih rest (position + (b.start - reached) + b.text.length)
    have size : (woven source reached (b :: before) e.start).length =
        (b.start - reached) + b.text.length + (woven source b.start before e.start).length := by
      rw [woven, List.length_append, List.length_append, Text.length_slice (by omega)]
    rw [List.cons_append, places, split, size, places]
    simp only [List.cons_append, Nat.add_assoc]

/-- The text before an insertion ends with the source before it, down to the insertions before. -/
theorem exists_woven_eq_append {from_ : Nat} (low : reached ≤ from_) (high : from_ ≤ stop)
    (h : Inserted source.length reached edits) (far : ∀ b ∈ edits, b.start ≤ from_) :
    ∃ front, woven source reached edits stop = front ++ source.slice from_ stop := by
  induction edits generalizing reached with
  | nil =>
    refine ⟨source.slice reached from_, ?_⟩
    rw [woven, Text.slice_split source low high]
  | cons b edits ih =>
    obtain ⟨range, plain, given, rest⟩ := h
    obtain ⟨front, split⟩ := ih (far b List.mem_cons_self) rest fun a ha =>
      far a (List.mem_cons_of_mem b ha)
    refine ⟨source.slice reached b.start ++ b.text ++ front, ?_⟩
    rw [woven, split]
    simp only [List.append_assoc]

/-- The text behind an insertion starts with the source behind it, up to the next insertion. -/
theorem exists_woven_eq_slice_append {until_ : Nat} (low : reached ≤ until_)
    (high : until_ ≤ source.length) (far : ∀ b ∈ edits, until_ ≤ b.start) :
    ∃ back, woven source reached edits source.length = source.slice reached until_ ++ back := by
  cases edits with
  | nil =>
    refine ⟨source.slice until_ source.length, ?_⟩
    rw [woven, Text.slice_split source low high]
  | cons b edits =>
    refine ⟨source.slice until_ b.start ++ b.text ++ woven source b.start edits source.length, ?_⟩
    rw [woven, Text.slice_split source low (far b List.mem_cons_self)]
    simp only [List.append_assoc]

/-! ## The sweep -/

/-- The segment of an inserted text. -/
def segment (place : Nat × Edit) : Segment :=
  ⟨place.1, place.1 + place.2.text.length, none⟩

private theorem filter_append_copied (out : Rendered) (piece : Text) (origin : Nat) :
    (out.append piece (some origin)).segments.filter (·.origin.isNone) =
      out.segments.filter (·.origin.isNone) := by
  unfold Rendered.append
  split
  · rfl
  · simp

private theorem segments_append_of_ne_nil {piece : Text} (given : piece ≠ []) (out : Rendered) :
    (out.append piece none).segments =
      out.segments ++ [⟨out.text.length, out.text.length + piece.length, none⟩] := by
  unfold Rendered.append
  rw [if_neg given]

/-- A sweep over insertions gives the text, with a segment for each of them. -/
theorem sweep_eq (h : Inserted source.length reached edits) (out : Rendered) :
    ∃ r, Buffer.sweep source reached out edits = .ok r ∧
      r.text = out.text ++ woven source reached edits source.length ∧
      r.segments.filter (·.origin.isNone) = out.segments.filter (·.origin.isNone) ++
        (places out.text.length reached edits).map segment := by
  induction edits generalizing reached out with
  | nil =>
    refine ⟨_, rfl, ?_, ?_⟩
    · rw [Sweep.append_text, woven]
    · rw [filter_append_copied, places, List.map_nil, List.append_nil]
  | cons e edits ih =>
    obtain ⟨range, plain, given, rest⟩ := h
    rw [Buffer.sweep, if_neg (by omega), if_neg (by omega), plain, Nat.max_self]
    dsimp only
    obtain ⟨r, done, text, segments⟩ := ih rest
      ((out.append (source.slice reached e.start) (some reached)).append e.text none)
    -- The segment of the edit starts where the text copied before it ends.
    have position : (out.append (source.slice reached e.start) (some reached)).text.length =
        out.text.length + (e.start - reached) := by
      rw [Sweep.append_text, List.length_append, Text.length_slice range.2]
    have behind : ((out.append (source.slice reached e.start) (some reached)).append
        e.text none).text.length = out.text.length + (e.start - reached) + e.text.length := by
      rw [Sweep.append_text, List.length_append, position]
    refine ⟨r, done, ?_, ?_⟩
    · rw [text, Sweep.append_text, Sweep.append_text, woven]
      simp only [List.append_assoc]
    · rw [segments, segments_append_of_ne_nil given, List.filter_append, filter_append_copied,
        behind, position, places, List.append_assoc]
      rfl

/-! ## Cutting out -/

/-- The removal of an inserted text. -/
def removal (place : Nat × Edit) : Splice :=
  ⟨place.1, place.1 + place.2.text.length, []⟩

private theorem apply_append (front cut back : Text) :
    Splice.apply (front ++ cut ++ back) ⟨front.length, front.length + cut.length, []⟩ =
      front ++ back := by
  unfold Splice.apply
  rw [List.append_nil, ← List.length_append, List.drop_left, List.append_assoc, List.take_left]

/-- Cutting the inserted texts out, from the last to the first, gives the source. -/
private theorem foldl_apply_places (h : Inserted source.length reached edits) (front : Text) :
    ((places front.length reached edits).map removal).reverse.foldl Splice.apply
        (front ++ woven source reached edits source.length) =
      front ++ source.slice reached source.length := by
  induction edits generalizing reached front with
  | nil => rfl
  | cons e edits ih =>
    obtain ⟨range, plain, given, rest⟩ := h
    -- What is behind the first insertion is cut out before it.
    have later := ih rest (front ++ source.slice reached e.start ++ e.text)
    have position : (front ++ source.slice reached e.start).length =
        front.length + (e.start - reached) := by
      rw [List.length_append, Text.length_slice range.2]
    rw [List.length_append, position] at later
    rw [places, woven, List.map_cons, List.reverse_cons, List.foldl_append, ← List.append_assoc,
      ← List.append_assoc, later]
    have cut := apply_append (front ++ source.slice reached e.start) e.text
      (source.slice e.start source.length)
    rw [position] at cut
    rw [Text.slice_split source range.1 range.2, ← List.append_assoc]
    exact cut

private theorem places_le {position : Nat} {place : Nat × Edit}
    (listed : place ∈ places position reached edits) : position ≤ place.1 := by
  induction edits generalizing position reached with
  | nil => cases listed
  | cons e edits ih =>
    rw [places] at listed
    rcases List.mem_cons.1 listed with rfl | listed
    · exact Nat.le_add_right _ _
    · have := ih listed
      omega

/-- The inserted texts stand one behind the other, and none is empty. -/
private theorem places_pairwise (h : Inserted source.length reached edits) (position : Nat) :
    (places position reached edits).Pairwise fun a b => a.1 + a.2.text.length ≤ b.1 := by
  induction edits generalizing position reached with
  | nil => exact List.Pairwise.nil
  | cons e edits ih =>
    rw [places]
    exact List.pairwise_cons.2 ⟨fun b hb => places_le hb, ih h.2.2.2 _⟩

/-- Removals of texts that stand one behind the other within a text are all kept. -/
private theorem keep_places {length covered : Nat} {spots : List (Nat × Edit)}
    (apart : spots.Pairwise fun a b => a.1 + a.2.text.length ≤ b.1)
    (low : ∀ place ∈ spots, covered ≤ place.1)
    (high : ∀ place ∈ spots, place.1 + place.2.text.length ≤ length) :
    Splice.keep length covered (spots.map removal) = spots.map removal := by
  induction spots generalizing covered with
  | nil => rfl
  | cons place spots ih =>
    obtain ⟨first, rest⟩ := List.pairwise_cons.1 apart
    have here := low place List.mem_cons_self
    have inside := high place List.mem_cons_self
    -- Each starts where the one before has ended, and ends in the text.
    have kept : ¬ ((removal place).start < covered || length < (removal place).stop) := by
      simp only [Bool.or_eq_true, decide_eq_true_eq]
      simp only [removal]
      omega
    rw [List.map_cons, Splice.keep, if_neg kept, ih rest]
    · intro other ho
      have := first other ho
      simp only [removal]
      omega
    · exact fun other ho => high other (List.mem_cons_of_mem place ho)

private theorem mem_places (h : Inserted source.length reached edits) {position : Nat}
    {place : Nat × Edit} (listed : place ∈ places position reached edits) :
    place.2.text ≠ [] ∧ place.1 + place.2.text.length ≤
      position + (woven source reached edits source.length).length := by
  -- The induction is on the edits, from the offset and the place that were reached.
  induction edits generalizing position reached with
  | nil => cases listed
  | cons e edits ih =>
    obtain ⟨range, plain, given, rest⟩ := h
    rw [woven, List.length_append, List.length_append, Text.length_slice range.2]
    rw [places] at listed
    rcases List.mem_cons.1 listed with rfl | listed
    · refine ⟨given, ?_⟩
      dsimp only
      omega
    · obtain ⟨nonempty, high⟩ := ih rest listed
      exact ⟨nonempty, by omega⟩

theorem before_iff {a b : Splice} :
    Splice.before a b ↔ a.start < b.start ∨ a.start = b.start ∧ b.stop ≤ a.stop := by
  simp [Splice.before]

/-- Cutting all inserted texts out, in whatever order they are listed, gives the source. -/
theorem applyAll_places (h : Inserted source.length 0 edits) {splices : List Splice}
    (listed : splices.Perm ((places 0 0 edits).map removal)) :
    Splice.applyAll (woven source 0 edits source.length) splices = source := by
  have apart := places_pairwise h 0
  have ordered : ((places 0 0 edits).map removal).Pairwise fun a b => Splice.before a b := by
    refine List.pairwise_map.2 (apart.imp_of_mem fun ha _ behind => before_iff.2 (.inl ?_))
    have := List.length_pos_iff.2 (mem_places h ha).1
    simp only [removal]
    omega
  have sorted : sortBy Splice.before splices = (places 0 0 edits).map removal := by
    refine List.Perm.eq_of_pairwise ?_ (sortBy_pairwise ?_ ?_ splices) ordered
      ((sortBy_perm _ _).trans listed)
    · -- Removals with one range are one.
      intro a b ha hb ab ba
      have bare : ∀ c ∈ (places 0 0 edits).map removal, c.text = [] := by
        intro c hc
        obtain ⟨place, -, rfl⟩ := List.mem_map.1 hc
        rfl
      have ta := bare a (listed.subset ((sortBy_perm _ _).subset ha))
      have tb := bare b hb
      obtain ⟨start, stop, text⟩ := a
      obtain ⟨start', stop', text'⟩ := b
      rw [before_iff] at ab ba
      simp only [Splice.mk.injEq] at *
      exact ⟨by omega, by omega, ta.trans tb.symm⟩
    · intro a b c ab bc
      rw [before_iff] at *
      omega
    · intro a b
      rw [Bool.or_eq_true, before_iff, before_iff]
      omega
  unfold Splice.applyAll
  rw [sorted, keep_places apart (fun _ _ => Nat.zero_le _)]
  · have cut := foldl_apply_places h []
    simpa [Text.slice] using cut
  · intro place hp
    have := (mem_places h hp).2
    omega

/-! ## What is copied -/

private theorem fits_of_inserted {length : Nat} (h : Inserted length reached edits) :
    Sweep.Fits length reached edits := by
  induction edits generalizing reached with
  | nil => trivial
  | cons e edits ih =>
    obtain ⟨range, plain, -, rest⟩ := h
    refine ⟨range.1, by omega, ?_⟩
    rw [plain, Nat.max_self]
    exact ih rest

/-- The bytes around an insertion: those before it were copied from before it. -/
private theorem spread_append (h : Inserted source.length reached (before ++ e :: after)) :
    ∃ front, Sweep.spread source reached (before ++ e :: after) =
        front ++ Sweep.made e.text ++ Sweep.spread source e.start after ∧
      front.length = (woven source reached before e.start).length ∧
      ∀ byte offset, (byte, some offset) ∈ front → offset < e.start := by
  -- The induction is on the edits before this one, from the offset that was reached.
  induction before generalizing reached with
  | nil =>
    refine ⟨Sweep.copied source reached e.start, ?_, ?_, fun byte offset copied => ?_⟩
    · rw [List.nil_append, Sweep.spread, h.2.1, Nat.max_self]
    · rw [woven, ← Sweep.copied_map_fst, List.length_map]
    · exact (Sweep.mem_copied.1 copied).2.1
  | cons b before ih =>
    obtain ⟨range, plain, given, rest⟩ := h
    obtain ⟨front, split, size, low⟩ := ih rest
    have between := (inserted_append rest).2.2.1
    refine ⟨Sweep.copied source reached b.start ++ Sweep.made b.text ++ front, ?_, ?_, ?_⟩
    · rw [List.cons_append, Sweep.spread, plain, Nat.max_self, split]
      simp only [List.append_assoc]
    · rw [woven, List.length_append, List.length_append, List.length_append, List.length_append,
        size, ← Sweep.copied_map_fst, List.length_map, Sweep.made, List.length_map]
    · intro byte offset copied
      rcases List.mem_append.1 copied with first | later
      · rcases List.mem_append.1 first with first | made
        · have := (Sweep.mem_copied.1 first).2.1
          omega
        · exact absurd made Sweep.not_mem_made
      · exact low byte offset later

/-- What is copied stands before an insertion, or behind it, as in the source. -/
theorem sourceOffset?_around {r : Rendered}
    (rendered : Buffer.sweep source 0 ⟨[], []⟩ (before ++ e :: after) = .ok r)
    (h : Inserted source.length 0 (before ++ e :: after)) {position offset : Nat}
    (found : r.sourceOffset? position = some offset) :
    (position < (woven source 0 before e.start).length ∧ offset < e.start) ∨
      ((woven source 0 before e.start).length + e.text.length ≤ position ∧ e.start ≤ offset) := by
  have pieces : Sweep.Pieces r (Sweep.spread source 0 (before ++ e :: after)) :=
    Sweep.pieces_of_sweep rendered ⟨rfl, rfl⟩
  obtain ⟨front, split, size, low⟩ := spread_append h
  rw [Rendered.sourceOffset?_eq pieces, split] at found
  obtain ⟨⟨byte, origin⟩, here, copied⟩ := Option.bind_eq_some_iff.1 found
  cases copied
  have length : (Sweep.made e.text).length = e.text.length := List.length_map _
  by_cases first : position < front.length
  · rw [List.append_assoc, List.getElem?_append_left first] at here
    exact .inl ⟨by omega, low byte offset (List.mem_of_getElem? here)⟩
  · by_cases inside : position < front.length + e.text.length
    · -- The inserted bytes come from nowhere.
      rw [List.append_assoc, List.getElem?_append_right (by omega),
        List.getElem?_append_left (by omega)] at here
      exact absurd (List.mem_of_getElem? here) Sweep.not_mem_made
    · rw [List.getElem?_append_right (by rw [List.length_append]; omega)] at here
      have rest := (inserted_append h).2.2.2.2.2
      have behind := (Sweep.mem_spread (fits_of_inserted rest)).1 (List.mem_of_getElem? here)
      exact .inr ⟨by omega, behind.1⟩

end Insertions

end Interlace
