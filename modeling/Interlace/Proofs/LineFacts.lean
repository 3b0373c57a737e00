import Interlace.Text.Lemmas
import Interlace.Text.Lines
import Mathlib.Data.List.Basic
import Mathlib.Data.Nat.Find

/-!
# Facts about lines

Where a line starts and ends, said byte by byte: a line starts at the beginning of the text or
behind a line break, ends at the end of the text or at a line break, and has none in between.

## Key results

- `Text.lineStart_eq_iff`, `Text.lineEnd_eq_iff`: the start and the end of a line
- `Text.isFirstOnLine_iff`: what it means to be first on a line
- `Text.exists_comment_of_restIsTrivia`: the rest of a line that is trivia but not blank has
  a comment
-/

namespace Interlace.Text

variable {t : Text} {offset : Nat}

private theorem getElem?_slice (t : Text) {start stop k : Nat} (h : k < stop - start) :
    (t.slice start stop)[k]? = t[start + k]? := by
  rw [slice, List.getElem?_take_of_lt h, List.getElem?_drop]

theorem mem_slice {start stop : Nat} {b : UInt8} :
    b ∈ t.slice start stop ↔ ∃ k, start ≤ k ∧ k < stop ∧ t[k]? = some b := by
  constructor
  · intro h
    obtain ⟨k, hk, eq⟩ := List.getElem_of_mem h
    -- The slice is as long as its range at most.
    have short : k < stop - start := by
      have := List.length_take_le (stop - start) (t.drop start)
      unfold slice at hk
      omega
    refine ⟨start + k, by omega, by omega, ?_⟩
    rw [← getElem?_slice t short, List.getElem?_eq_getElem hk, eq]
  · rintro ⟨k, low, high, found⟩
    have here : (t.slice start stop)[k - start]? = t[start + (k - start)]? :=
      getElem?_slice t (by omega)
    rw [show start + (k - start) = k by omega, found] at here
    exact List.mem_of_getElem? here

/-- A range can be cut anywhere. -/
theorem slice_split (t : Text) {start middle stop : Nat} (low : start ≤ middle)
    (high : middle ≤ stop) : t.slice start stop = t.slice start middle ++ t.slice middle stop := by
  unfold slice
  rw [show stop - start = (middle - start) + (stop - middle) by omega, List.take_add,
    List.drop_drop, show start + (middle - start) = middle by omega]

theorem head?_slice (t : Text) {start stop : Nat} (h : start < stop) :
    (t.slice start stop).head? = t[start]? := by
  rw [List.head?_eq_getElem?, getElem?_slice t (by omega), Nat.add_zero]

theorem slice_succ {k : Nat} {b : UInt8} (found : t[k]? = some b) : t.slice k (k + 1) = [b] := by
  obtain ⟨inside, rfl⟩ := List.getElem?_eq_some_iff.1 found
  unfold slice
  rw [Nat.add_sub_cancel_left, List.drop_eq_getElem_cons inside]
  rfl

/-- The indentation of a line is blank. -/
theorem lineIndent_blank (t : Text) (offset : Nat) : ∀ b ∈ t.lineIndent offset, isBlank b :=
  fun b hb => List.all_eq_true.1 List.all_takeWhile b hb

/-! ## Last occurrences -/

private theorem findLast?_eq_none {b : UInt8} (h : findLast? b t = none) (k : Nat) :
    t[k]? ≠ some b := by
  induction t generalizing k with
  | nil => simp
  | cons c t ih =>
    rw [findLast?] at h
    cases rest : findLast? b t with
    | some j =>
      rw [rest] at h
      cases h
    | none =>
      rw [rest] at h
      dsimp only at h
      split at h
      · cases h
      · rename_i other
        cases k with
        | zero => simpa using other
        | succ k => exact ih rest k

theorem findLast?_eq_some {b : UInt8} {i : Nat} (h : findLast? b t = some i) :
    t[i]? = some b ∧ ∀ k, i < k → t[k]? ≠ some b := by
  induction t generalizing i with
  | nil => cases h
  | cons c t ih =>
    rw [findLast?] at h
    -- A later one counts before this one.
    cases rest : findLast? b t with
    | some j =>
      rw [rest] at h
      cases h
      obtain ⟨here, later⟩ := ih rest
      refine ⟨here, fun k hk => ?_⟩
      cases k with
      | zero => omega
      | succ k => exact later k (by omega)
    | none =>
      rw [rest] at h
      dsimp only at h
      split at h
      · rename_i same
        cases h
        refine ⟨by rw [same]; rfl, fun k hk => ?_⟩
        cases k with
        | zero => omega
        | succ k => exact findLast?_eq_none rest k
      · cases h

/-! ## The start of a line -/

/-- What the start of a line is: no line break comes between it and the offset, and one or nothing
comes before it. -/
def StartsLine (t : Text) (start offset : Nat) : Prop :=
  start ≤ offset ∧ (start = 0 ∨ t[start - 1]? = some newline) ∧
    ∀ k, start ≤ k → k < offset → t[k]? ≠ some newline

theorem startsLine_lineStart (t : Text) (offset : Nat) :
    StartsLine t (lineStart t offset) offset := by
  unfold lineStart
  -- The line starts behind the last line break before the offset, or with the text.
  cases found : findLast? newline (t.take offset) with
  | none =>
    refine ⟨Nat.zero_le _, .inl rfl, fun k _ high => ?_⟩
    have absent := findLast?_eq_none found k
    rwa [List.getElem?_take_of_lt high] at absent
  | some i =>
    obtain ⟨here, later⟩ := findLast?_eq_some found
    have inside : i < offset := by
      have short := (List.getElem?_eq_some_iff.1 here).1
      rw [List.length_take] at short
      omega
    rw [List.getElem?_take_of_lt inside] at here
    refine ⟨inside, .inr here, fun k low high => ?_⟩
    have absent := later k low
    rwa [List.getElem?_take_of_lt high] at absent

theorem StartsLine.unique {start start' : Nat} (h : StartsLine t start offset)
    (h' : StartsLine t start' offset) : start = start' := by
  obtain ⟨le, first, none_between⟩ := h
  obtain ⟨le', first', none_between'⟩ := h'
  rcases Nat.lt_trichotomy start start' with less | same | more
  · rcases first' with zero | broken
    · omega
    · exact absurd broken (none_between _ (by omega) (by omega))
  · exact same
  · rcases first with zero | broken
    · omega
    · exact absurd broken (none_between' _ (by omega) (by omega))

theorem lineStart_eq_iff {start : Nat} : lineStart t offset = start ↔ StartsLine t start offset :=
  ⟨fun h => h ▸ startsLine_lineStart t offset, fun h => (startsLine_lineStart t offset).unique h⟩

theorem lineStart_le (t : Text) (offset : Nat) : lineStart t offset ≤ offset :=
  (startsLine_lineStart t offset).1

/-- Offsets with no line break between them are on one line. -/
theorem lineStart_eq_of_no_newline {other : Nat} (le : offset ≤ other)
    (same : ∀ k, offset ≤ k → k < other → t[k]? ≠ some newline) :
    lineStart t other = lineStart t offset := by
  obtain ⟨low, first, none_between⟩ := startsLine_lineStart t offset
  refine lineStart_eq_iff.2 ⟨by omega, first, fun k hk high => ?_⟩
  by_cases here : k < offset
  · exact none_between k hk here
  · exact same k (by omega) high

/-- Behind a line break there is another line. -/
theorem lt_lineStart {k : Nat} (broken : t[k]? = some newline) (h : k < offset) :
    k < lineStart t offset := by
  by_contra low
  exact (startsLine_lineStart t offset).2.2 k (by omega) h broken

/-! ## The end of a line -/

/-- What the end of a line is: no line break comes between the offset and it, and one or nothing
stands there. -/
def EndsLine (t : Text) (stop offset : Nat) : Prop :=
  offset ≤ stop ∧ stop ≤ t.length ∧ (stop = t.length ∨ t[stop]? = some newline) ∧
    ∀ k, offset ≤ k → k < stop → t[k]? ≠ some newline

theorem endsLine_lineEnd (h : offset ≤ t.length) : EndsLine t (lineEnd t offset) offset := by
  unfold lineEnd
  rw [Nat.min_eq_left h]
  dsimp only
  -- The rest of the text is the rest of the line, and then nothing or a line break.
  generalize taken : (t.drop offset).takeWhile (· ≠ newline) = row
  have whole : t.drop offset = row ++ (t.drop offset).dropWhile (· ≠ newline) := by
    rw [← taken, List.takeWhile_append_dropWhile]
  have plain : newline ∉ row := by
    intro inside
    rw [← taken] at inside
    have other := List.all_eq_true.1 List.all_takeWhile newline inside
    simp at other
  have size : row.length ≤ t.length - offset := by
    have := congrArg List.length whole
    rw [List.length_drop, List.length_append] at this
    omega
  refine ⟨Nat.le_add_right _ _, by omega, ?_, fun k low high => ?_⟩
  · rw [← List.getElem?_drop, whole, List.getElem?_append_right (Nat.le_refl _), Nat.sub_self]
    cases rest : (t.drop offset).dropWhile (· ≠ newline) with
    | nil =>
      left
      rw [rest, List.append_nil] at whole
      have := congrArg List.length whole
      rw [List.length_drop] at this
      omega
    | cons b rest' =>
      right
      have stopped := List.head?_dropWhile_not (· ≠ newline) (t.drop offset)
      rw [rest] at stopped
      simpa using stopped
  · have here : t[k]? = row[k - offset]? := by
      have : t[offset + (k - offset)]? = row[k - offset]? := by
        rw [← List.getElem?_drop, whole, List.getElem?_append_left (by omega)]
      rwa [show offset + (k - offset) = k by omega] at this
    rw [here]
    exact fun found => plain (List.mem_of_getElem? found)

theorem EndsLine.unique {stop stop' : Nat} (h : EndsLine t stop offset)
    (h' : EndsLine t stop' offset) : stop = stop' := by
  obtain ⟨le, inside, last, none_between⟩ := h
  obtain ⟨le', inside', last', none_between'⟩ := h'
  rcases Nat.lt_trichotomy stop stop' with less | same | more
  · rcases last with zero | broken
    · omega
    · exact absurd broken (none_between' _ (by omega) (by omega))
  · exact same
  · rcases last' with zero | broken
    · omega
    · exact absurd broken (none_between _ (by omega) (by omega))

theorem lineEnd_eq_iff (h : offset ≤ t.length) {stop : Nat} :
    lineEnd t offset = stop ↔ EndsLine t stop offset :=
  ⟨fun eq => eq ▸ endsLine_lineEnd h, fun ends => (endsLine_lineEnd h).unique ends⟩

/-! ## Blanks -/

/-- Blanks are passed over up to the next byte that is none. -/
theorem skipBlanks_le {k : Nat} {b : UInt8} (le : offset ≤ k) (found : t[k]? = some b)
    (solid : isBlank b = false) : skipBlanks t offset ≤ k := by
  have here : (t.drop offset)[k - offset]? = some b := by
    rw [List.getElem?_drop, Nat.add_sub_cancel' le, found]
  unfold skipBlanks
  generalize t.drop offset = rest at here
  have whole := @List.takeWhile_append_dropWhile _ isBlank rest
  by_contra long
  rw [← whole, List.getElem?_append_left (by omega)] at here
  have blank := List.all_eq_true.1 List.all_takeWhile b (List.mem_of_getElem? here)
  rw [solid] at blank
  cases blank

/-! ## The rest of a line -/

theorem isFirstOnLine_iff :
    isFirstOnLine t offset ↔ ∀ k b, lineStart t offset ≤ k → k < offset → t[k]? = some b →
      isBlank b := by
  unfold isFirstOnLine
  rw [List.all_eq_true]
  constructor
  · intro h k b low high found
    exact h b (mem_slice.2 ⟨k, low, high, found⟩)
  · intro h b listed
    obtain ⟨k, low, high, found⟩ := mem_slice.1 listed
    exact h k b low high found

/-- What is not first on its line has something before it that is no blank, and blanks alone behind
that. -/
theorem exists_last_of_not_isFirstOnLine (h : isFirstOnLine t offset = false) :
    ∃ k b, lineStart t offset ≤ k ∧ k < offset ∧ t[k]? = some b ∧ isBlank b = false ∧
      ∀ j c, k < j → j < offset → t[j]? = some c → isBlank c := by
  -- It is the last offset before this one that has something solid on the line.
  let solid := fun k =>
    lineStart t offset ≤ k ∧ k < offset ∧ ∃ b, t[k]? = some b ∧ isBlank b = false
  have some_solid : ∃ k, solid k := by
    have some_ := isFirstOnLine_iff.not.1 (Bool.eq_false_iff.1 h)
    simp only [not_forall] at some_
    obtain ⟨k, b, low, high, found, code⟩ := some_
    exact ⟨k, low, high, b, found, Bool.eq_false_iff.2 code⟩
  classical
  obtain ⟨k, here⟩ := some_solid
  have last : solid (Nat.findGreatest solid offset) :=
    Nat.findGreatest_spec (Nat.le_of_lt here.2.1) here
  obtain ⟨low, high, b, found, code⟩ := last
  refine ⟨_, b, low, high, found, code, fun j c above below there => ?_⟩
  have later := Nat.findGreatest_is_greatest above (Nat.le_of_lt below)
  by_contra other
  exact later ⟨by omega, below, c, there, Bool.eq_false_iff.2 other⟩

/-- A byte that `restIsTrivia` passes over. -/
def isSpacing (b : UInt8) : Bool :=
  isBlank b || b = 0x0D

private theorem isSpacing_newline : isSpacing newline = false := rfl

/-- Offsets with nothing but spacing between them have one end of the line. -/
theorem lineEnd_eq_of_isSpacing {other : Nat} (le : offset ≤ other) (inside : other ≤ t.length)
    (spaced : ∀ k b, offset ≤ k → k < other → t[k]? = some b → isSpacing b) :
    lineEnd t offset = lineEnd t other := by
  obtain ⟨low, high, last, none_between⟩ := endsLine_lineEnd inside
  refine (lineEnd_eq_iff (by omega)).2 ⟨by omega, high, last, fun k hk far broken => ?_⟩
  by_cases here : k < other
  · have spacing := spaced k newline hk here broken
    rw [isSpacing_newline] at spacing
    cases spacing
  · exact none_between k (by omega) far broken

/-- Spacing in front makes no difference to what is trivia. -/
theorem restIsTrivia_of_isSpacing {other : Nat} (le : offset ≤ other) (inside : other ≤ t.length)
    (spaced : ∀ k b, offset ≤ k → k < other → t[k]? = some b → isSpacing b) :
    restIsTrivia t offset = restIsTrivia t other := by
  have ends := (endsLine_lineEnd inside).1
  have passed : ∀ b ∈ t.slice offset other, isSpacing b := by
    intro b listed
    obtain ⟨k, low, high, found⟩ := mem_slice.1 listed
    exact spaced k b low high found
  -- What is in front is spacing, which is passed over anyway.
  have left : (t.slice offset (lineEnd t offset)).dropWhile isSpacing =
      (t.slice other (lineEnd t other)).dropWhile isSpacing := by
    rw [lineEnd_eq_of_isSpacing le inside spaced, slice_split t le ends,
      List.dropWhile_append_of_pos passed]
  show (((t.slice offset (lineEnd t offset)).dropWhile isSpacing).isEmpty ||
    startsWith ((t.slice offset (lineEnd t offset)).dropWhile isSpacing) "//") = _
  rw [left]
  rfl

theorem restIsTrivia_lineEnd (inside : offset ≤ t.length) : restIsTrivia t (lineEnd t offset) := by
  have ends := endsLine_lineEnd inside
  have same : lineEnd t (lineEnd t offset) = lineEnd t offset := by
    refine (lineEnd_eq_iff ends.2.1).2 ⟨Nat.le_refl _, ends.2.1, ends.2.2.1, fun k low high => ?_⟩
    omega
  unfold restIsTrivia
  rw [same]
  simp [slice]

/-- A rest of a line that is trivia has a comment before anything that is no spacing. -/
theorem exists_comment_of_restIsTrivia (inside : offset ≤ t.length) (h : restIsTrivia t offset)
    {k : Nat} {b : UInt8} (low : offset ≤ k) (high : k < lineEnd t offset) (found : t[k]? = some b)
    (solid : isSpacing b = false) :
    ∃ j, offset ≤ j ∧ j ≤ k ∧ startsWith (t.drop j) "//" := by
  have ends := endsLine_lineEnd inside
  -- The first byte that is no spacing is where the comment has to start.
  generalize passed : (t.slice offset (lineEnd t offset)).takeWhile isSpacing = spacing
  generalize left : (t.slice offset (lineEnd t offset)).dropWhile isSpacing = rest
  have whole : t.slice offset (lineEnd t offset) = spacing ++ rest := by
    rw [← passed, ← left, List.takeWhile_append_dropWhile]
  have here : (spacing ++ rest)[k - offset]? = some b := by
    rw [← whole, getElem?_slice t (by omega), show offset + (k - offset) = k by omega, found]
  have behind : spacing.length ≤ k - offset := by
    by_contra short
    rw [List.getElem?_append_left (by omega)] at here
    have listed := List.mem_of_getElem? here
    rw [← passed] at listed
    have spaced := List.all_eq_true.1 List.all_takeWhile b listed
    rw [solid] at spaced
    cases spaced
  have commented : startsWith rest "//" := by
    have h' : (rest.isEmpty || startsWith rest "//") = true := by
      rw [← left]
      exact h
    rcases Bool.or_eq_true_iff.1 h' with empty | starts
    · rw [List.isEmpty_iff.1 empty, List.append_nil, List.getElem?_eq_none (by omega)] at here
      cases here
    · exact starts
  refine ⟨offset + spacing.length, by omega, by omega, ?_⟩
  obtain ⟨more, split⟩ := startsWith_iff.1 commented
  have dropped : t.drop (offset + spacing.length) =
      rest ++ t.drop (lineEnd t offset) := by
    have all : t.drop offset = (spacing ++ rest) ++ t.drop (lineEnd t offset) := by
      have both := List.take_append_drop (lineEnd t offset - offset) (t.drop offset)
      rw [List.drop_drop, show offset + (lineEnd t offset - offset) = lineEnd t offset by omega]
        at both
      rw [← whole]
      exact both.symm
    rw [← List.drop_drop, all, List.append_assoc, List.drop_left]
  rw [dropped, split, List.append_assoc]
  exact startsWith_iff.2 ⟨_, rfl⟩

end Interlace.Text
