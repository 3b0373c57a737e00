import Interlace.Proofs.EditMeaning

/-!
# Where edits stand

The text of every edit stands at one place of the rendered text: behind all offsets before its own,
behind the edits of lower ranks at its offset, and behind those of its own rank that were made
before it.

## Key results

- `Edit.Ahead`: which of two edits comes first
- `Buffer.front`: what is rendered before an edit
- `Buffer.place_le_iff`: the places of two edits are in the order of the edits
- `Buffer.render_at`: the text of an edit stands at its place
-/

namespace Interlace

/-- What a range of numbers gives, up to and with one of them, is a beginning of what it gives. -/
private theorem prefix_flatMap_range {α : Type} (f : Nat → List α) {i n : Nat} (h : i < n) :
    (List.range i).flatMap f ++ f i <+: (List.range n).flatMap f := by
  have first : (List.range (i + 1)).flatMap f = (List.range i).flatMap f ++ f i := by
    simp [List.range_succ]
  obtain ⟨more, rfl⟩ := Nat.exists_eq_add_of_le (Nat.succ_le_of_lt h)
  have split : List.range (i.succ + more) = _ := List.range_add
  rw [← first, split, List.flatMap_append]
  exact List.prefix_append _ _

/-- The numbers up to a bound, around one of them. -/
theorem range_succ_eq_around {i n : Nat} (h : i ≤ n) :
    List.range (n + 1) = List.range i ++ i :: List.range' (i + 1) (n - i) := by
  have split := Sweep.range'_split (Nat.zero_le i) (Nat.le_succ_of_le h)
  rw [← List.range'_succ, List.range_eq_range', List.range_eq_range',
    show n - i + 1 = n + 1 - i by omega]
  simpa using split

namespace Edit

/-- The edits are of the same rank at the same offset. -/
def alike (e f : Edit) : Bool :=
  f.start = e.start && f.rank = e.rank

/-- The edit that was made as number `i` is applied before the one that was made as number `k`. -/
def Ahead (i : Nat) (e : Edit) (k : Nat) (f : Edit) : Prop :=
  e.start < f.start ∨ e.start = f.start ∧ (e.rank < f.rank ∨ e.rank = f.rank ∧ i < k)

private theorem ahead_or {i k : Nat} (other : i ≠ k) (e f : Edit) :
    Ahead i e k f ∨ Ahead k f i e := by
  unfold Ahead
  omega

end Edit

namespace Buffer

/-- The texts of one rank at an offset, in the order they were made. -/
def ranked (b : Buffer) (offset rank : Nat) : Text :=
  (b.edits.filter fun e => e.start = offset && e.rank = rank).flatMap Edit.text

/-- The byte of the source at an offset, unless it is replaced. -/
def keptAt (b : Buffer) (offset : Nat) : Text :=
  if b.covers offset then [] else b.source.slice offset (offset + 1)

/-- What is rendered before an edit. -/
def front (b : Buffer) (k : Nat) (e : Edit) : Text :=
  (List.range e.start).flatMap b.textAt ++ (List.range e.rank).flatMap (b.ranked e.start)
    ++ ((b.edits.take k).filter e.alike).flatMap Edit.text

/-- Where the text of an edit starts. -/
def place (b : Buffer) (k : Nat) (e : Edit) : Nat :=
  (b.front k e).length

/-- What is rendered behind an edit for its offset, without the byte of the source. -/
def follow (b : Buffer) (k : Nat) (e : Edit) : Text :=
  ((b.edits.drop (k + 1)).filter e.alike).flatMap Edit.text
    ++ (List.range' (e.rank + 1) (2 - e.rank)).flatMap (b.ranked e.start)

/-- What is rendered behind an edit. -/
def back (b : Buffer) (k : Nat) (e : Edit) : Text :=
  b.follow k e ++ b.keptAt e.start
    ++ (List.range' (e.start + 1) (b.source.length - e.start)).flatMap b.textAt

variable {b : Buffer} {i k : Nat} {e f : Edit}

/-- Nothing follows an edit that is the last of the highest rank at its offset. -/
theorem follow_eq_nil
    (last : ∀ (i : Nat) (f : Edit), b.edits[i]? = some f → f.start = e.start →
      i ≤ k ∧ f.rank ≤ e.rank) : b.follow k e = [] := by
  -- There is no edit of a higher rank at the offset, and none of this rank behind it.
  have quiet (rank : Nat) (higher : e.rank < rank) : b.ranked e.start rank = [] := by
    rw [ranked, List.filter_eq_nil_iff.2, List.flatMap_nil]
    intro f hf
    obtain ⟨i, here⟩ := List.mem_iff_getElem?.1 hf
    have := last i f here
    simp only [Bool.and_eq_true, decide_eq_true_eq]
    omega
  have later : (b.edits.drop (k + 1)).filter e.alike = [] := by
    refine List.filter_eq_nil_iff.2 fun f hf => ?_
    obtain ⟨i, here⟩ := List.mem_iff_getElem?.1 hf
    rw [List.getElem?_drop] at here
    have := last _ f here
    simp only [Edit.alike, Bool.and_eq_true, decide_eq_true_eq]
    omega
  rw [follow, later, List.flatMap_nil, List.nil_append, List.flatMap_eq_nil_iff]
  intro rank listed
  exact quiet rank (List.mem_range'_1.1 listed).1

theorem not_conflicts_of_render (ordered : ∀ e ∈ b.edits, e.start ≤ e.stop) {r : Rendered}
    (rendered : b.render = .ok r) : ¬ b.Conflicts := by
  intro conflict
  obtain ⟨fault, failed⟩ := (render_meaning ordered).1.2 conflict
  rw [failed] at rendered
  cases rendered

/-- Edits that can be applied together do not reach into one another. -/
theorem apart_of_render (ordered : ∀ e ∈ b.edits, e.start ≤ e.stop) {r : Rendered}
    (rendered : b.render = .ok r) :
    b.sorted.Pairwise (fun e f => e.stop ≤ f.start) ∧ (∀ e ∈ b.edits, e.stop ≤ b.source.length) ∧
      r.text = b.meaning := by
  have calm := not_conflicts_of_render ordered rendered
  have ordered' : ∀ e ∈ b.sorted, e.start ≤ e.stop := fun e he => ordered e (mem_sorted.1 he)
  have fits := (Sweep.fits_iff ordered').1 ((fits_sorted_iff ordered).2 calm)
  obtain ⟨r', rendered', meant⟩ := (render_meaning ordered).2 calm
  rw [rendered] at rendered'
  cases rendered'
  exact ⟨fits.2, fun e he => (fits.1 e (mem_sorted.2 he)).2, meant⟩

/-- The texts of an edit's rank, split at the edit. -/
theorem ranked_eq_split (found : b.edits[k]? = some e) :
    b.ranked e.start e.rank = ((b.edits.take k).filter e.alike).flatMap Edit.text ++ e.text
      ++ ((b.edits.drop (k + 1)).filter e.alike).flatMap Edit.text := by
  obtain ⟨inside, here⟩ := List.getElem?_eq_some_iff.1 found
  have split : b.edits = b.edits.take k ++ e :: b.edits.drop (k + 1) := by
    rw [← here, ← List.drop_eq_getElem_cons inside, List.take_append_drop]
  have itself : e.alike e = true := by simp [Edit.alike]
  show (b.edits.filter e.alike).flatMap Edit.text = _
  conv_lhs => rw [split]
  rw [List.filter_append, List.filter_cons_of_pos itself, List.flatMap_append, List.flatMap_cons,
    List.append_assoc]

section

variable (apart : b.sorted.Pairwise fun e f => e.stop ≤ f.start)

include apart

/-- The text for an offset, rank by rank. -/
private theorem textAt_eq_ranked (offset : Nat) :
    b.textAt offset = (List.range 3).flatMap (b.ranked offset) ++ b.keptAt offset := by
  rw [textAt, inserted_eq _ _ 0 fun _ => Edit.rank_eq_zero_iff,
    inserted_eq _ _ 1 fun _ => Edit.rank_eq_one_iff, replacement_eq apart]
  simp only [List.range_succ, List.range_zero, List.nil_append, List.flatMap_append,
    List.flatMap_singleton]
  rfl

/-- The text of an edit stands behind its front. -/
private theorem meaning_eq_front (found : b.edits[k]? = some e)
    (inside : e.start ≤ b.source.length) : b.meaning = b.front k e ++ e.text ++ b.back k e := by
  have ranks : List.range 3 = _ := range_succ_eq_around e.rank_le
  rw [meaning, range_succ_eq_around inside, List.flatMap_append, List.flatMap_cons,
    textAt_eq_ranked apart, ranks, List.flatMap_append, List.flatMap_cons, ranked_eq_split found]
  simp only [front, back, follow, List.append_assoc]

/-- What is rendered up to the end of an edit is rendered before all that come behind it. -/
private theorem prefix_front (found : b.edits[i]? = some e) (ahead : Edit.Ahead i e k f) :
    b.front i e ++ e.text <+: b.front k f := by
  have own : ((b.edits.take i).filter e.alike).flatMap Edit.text ++ e.text <+:
      b.ranked e.start e.rank := by
    rw [ranked_eq_split found]
    exact List.prefix_append _ _
  have behind {s t u : Text} (h : s <+: t) : s <+: t ++ u := h.trans (List.prefix_append t u)
  unfold front
  simp only [List.append_assoc]
  rcases ahead with before | ⟨here, lower | ⟨same, earlier⟩⟩
  · -- All ranks at the first offset come before the second offset.
    have low := prefix_flatMap_range (b.ranked e.start) (Nat.lt_succ_of_le e.rank_le)
    have whole := prefix_flatMap_range b.textAt before
    rw [textAt_eq_ranked apart] at whole
    have given := ((List.prefix_append_right_inj _).2 own).trans low
    have given := behind (u := b.keptAt e.start) given
    exact behind (((List.prefix_append_right_inj _).2 given).trans whole)
  · have low := prefix_flatMap_range (b.ranked e.start) lower
    rw [← here]
    refine (List.prefix_append_right_inj _).2 (behind ?_)
    exact ((List.prefix_append_right_inj _).2 own).trans low
  · have rank : e.alike = f.alike := by
      funext g
      rw [Edit.alike, Edit.alike, here, same]
    have upTo : b.edits.take (i + 1) <+: b.edits.take k :=
      List.take_prefix_take_left (Nat.succ_le_of_lt earlier)
    rw [List.take_add_one, found] at upTo
    obtain ⟨later, split⟩ := upTo
    rw [← here, ← same]
    refine (List.prefix_append_right_inj _).2 ((List.prefix_append_right_inj _).2 ?_)
    have itself : f.alike e = true := by simp [Edit.alike, here, same]
    rw [rank, ← split]
    simp [List.filter_append, itself]

/-- The places of edits that are more than nothing are in the order of the edits. -/
theorem place_le_iff (first : b.edits[i]? = some e) (second : b.edits[k]? = some f)
    (other : i ≠ k) (given : e.text ≠ []) :
    b.place i e + e.text.length ≤ b.place k f ↔ Edit.Ahead i e k f := by
  constructor
  · intro low
    -- One of the two is ahead, and what is ahead is written before the other.
    rcases Edit.ahead_or other e f with ahead | ahead
    · exact ahead
    · have high := (prefix_front apart second ahead).length_le
      have size := List.length_pos_iff.2 given
      rw [List.length_append] at high
      unfold place at low
      omega
  · intro ahead
    have low := (prefix_front apart first ahead).length_le
    rwa [List.length_append] at low

end

/-- The text of an edit stands at its place. -/
theorem render_at (ordered : ∀ e ∈ b.edits, e.start ≤ e.stop) {r : Rendered}
    (rendered : b.render = .ok r) (found : b.edits[k]? = some e) :
    r.text = b.front k e ++ e.text ++ b.back k e := by
  obtain ⟨apart, inside, meant⟩ := apart_of_render ordered rendered
  have listed := List.mem_of_getElem? found
  rw [meant]
  exact meaning_eq_front apart found (Nat.le_trans (ordered e listed) (inside e listed))

end Buffer

end Interlace
