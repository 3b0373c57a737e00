import Interlace.Proofs.MarkerPairs
import Interlace.Weave.Draft
import Mathlib.Data.List.Pairwise

/-!
# The layout of wrap markers

Marks are inserted on lines of their own or beside the statement, as the lines of the source have
it. The offsets at which they are inserted keep the order of the statements, so the marks nest like
the statements do.

## Key results

- `Wrappable`: the statements that marks can be put around
- `Wrappable.offset_opening_lt`, `Wrappable.offset_closing_lt`, `Wrappable.offset_closing_le`: the
  offsets of marks keep the order of the statements
- `Wrappable.balanced_sorted`: the marks are balanced in the order in which they are inserted
- `Draft.render_wrapAll`: what is inserted for the statements
-/

namespace Interlace

open Syntax Text

namespace Mark

/-- What is inserted for a mark. -/
def edit (source : Text) : Mark → Edit
  | opening t =>
    if source.isFirstOnLine t.start then
      ⟨source.lineStart t.start, source.lineStart t.start,
        source.lineIndent t.start ++ Marker.startWrap.comment ++ "\n", .right⟩
    else ⟨t.start, t.start, Marker.startWrap.comment ++ "\n" ++ source.lineIndent t.start, .right⟩
  | closing t =>
    if source.restIsTrivia t.stop then
      ⟨source.lineEnd t.stop, source.lineEnd t.stop,
        "\n" ++ source.lineIndent t.start ++ Marker.endWrap.comment, .left⟩
    else ⟨t.stop, t.stop, " " ++ Marker.endWrap.comment ++ "\n", .left⟩

/-- Where a mark is inserted. -/
def offset (source : Text) (m : Mark) : Nat :=
  (m.edit source).start

/-- The mark is inserted no later than the other. -/
def before (source : Text) (m n : Mark) : Bool :=
  Edit.before (m.edit source) (n.edit source)

/-- The marks of statements in the order in which they are inserted. -/
def sorted (source : Text) (statements : List Tree) : List Mark :=
  sortBy (before source) (statements.flatMap both)

variable {source : Text} {t : Tree}

theorem edit_opening_of_first (first : source.isFirstOnLine t.start = true) :
    (opening t).edit source = ⟨source.lineStart t.start, source.lineStart t.start,
      source.lineIndent t.start ++ Marker.startWrap.comment ++ "\n", .right⟩ :=
  if_pos first

theorem edit_opening_of_not_first (first : source.isFirstOnLine t.start = false) :
    (opening t).edit source =
      ⟨t.start, t.start, Marker.startWrap.comment ++ "\n" ++ source.lineIndent t.start, .right⟩ :=
  if_neg (by rw [first]; exact Bool.false_ne_true)

theorem edit_closing_of_trivia (last : source.restIsTrivia t.stop = true) :
    (closing t).edit source = ⟨source.lineEnd t.stop, source.lineEnd t.stop,
      "\n" ++ source.lineIndent t.start ++ Marker.endWrap.comment, .left⟩ :=
  if_pos last

theorem edit_closing_of_not_trivia (last : source.restIsTrivia t.stop = false) :
    (closing t).edit source = ⟨t.stop, t.stop, " " ++ Marker.endWrap.comment ++ "\n", .left⟩ :=
  if_neg (by rw [last]; exact Bool.false_ne_true)

theorem offset_opening (source : Text) (t : Tree) :
    (source.isFirstOnLine t.start = true ∧ (opening t).offset source = source.lineStart t.start) ∨
      (source.isFirstOnLine t.start = false ∧ (opening t).offset source = t.start) := by
  unfold offset
  cases first : source.isFirstOnLine t.start with
  | true => exact .inl ⟨rfl, by rw [edit_opening_of_first first]⟩
  | false => exact .inr ⟨rfl, by rw [edit_opening_of_not_first first]⟩

theorem offset_closing (source : Text) (t : Tree) :
    (source.restIsTrivia t.stop = true ∧ (closing t).offset source = source.lineEnd t.stop) ∨
      (source.restIsTrivia t.stop = false ∧ (closing t).offset source = t.stop) := by
  unfold offset
  cases last : source.restIsTrivia t.stop with
  | true => exact .inl ⟨rfl, by rw [edit_closing_of_trivia last]⟩
  | false => exact .inr ⟨rfl, by rw [edit_closing_of_not_trivia last]⟩

theorem offset_opening_le (source : Text) (t : Tree) : (opening t).offset source ≤ t.start := by
  have start := lineStart_le source t.start
  rcases offset_opening source t with ⟨-, eq⟩ | ⟨-, eq⟩ <;> omega

private theorem lineStart_le_offset (source : Text) (t : Tree) :
    source.lineStart t.start ≤ (opening t).offset source := by
  have start := lineStart_le source t.start
  rcases offset_opening source t with ⟨-, eq⟩ | ⟨-, eq⟩ <;> omega

theorem le_offset_closing (inside : t.stop ≤ source.length) :
    t.stop ≤ (closing t).offset source ∧ (closing t).offset source ≤ source.length := by
  have ends := endsLine_lineEnd inside
  have low := ends.1
  have high := ends.2.1
  rcases offset_closing source t with ⟨-, eq⟩ | ⟨-, eq⟩ <;> omega

/-- A mark is inserted, and is more than nothing. -/
theorem edit_inserts (source : Text) (m : Mark) :
    (m.edit source).stop = m.offset source ∧ (m.edit source).text ≠ [] := by
  have marked : ∀ marker : Marker, marker.comment ≠ [] := by
    intro marker
    cases marker <;> decide
  unfold offset
  cases m with
  | opening t =>
    cases first : source.isFirstOnLine t.start with
    | true => simp [edit_opening_of_first first, marked]
    | false => simp [edit_opening_of_not_first first, marked]
  | closing t =>
    cases last : source.restIsTrivia t.stop with
    | true => simp [edit_closing_of_trivia last, marked]
    | false => simp [edit_closing_of_not_trivia last, marked]

/-- Of marks at one offset, those that close statements come first. -/
theorem before_iff {m n : Mark} :
    before source m n ↔ m.offset source < n.offset source ∨
      m.offset source = n.offset source ∧ (m.closed?.isSome ∨ n.closed? = none) := by
  -- An insertion that clings to the text before it goes first.
  have rank : ∀ m : Mark, (m.edit source).rank = if m.closed?.isSome then 0 else 1 := by
    intro m
    have plain : (m.edit source).isInsertion = true :=
      decide_eq_true (Nat.le_of_eq (edit_inserts source m).1)
    unfold Edit.rank
    rw [if_pos plain]
    cases m with
    | opening t =>
      cases first : source.isFirstOnLine t.start with
      | true => rw [edit_opening_of_first first]; rfl
      | false => rw [edit_opening_of_not_first first]; rfl
    | closing t =>
      cases last : source.restIsTrivia t.stop with
      | true => rw [edit_closing_of_trivia last]; rfl
      | false => rw [edit_closing_of_not_trivia last]; rfl
  unfold before Edit.before
  rw [rank, rank, Bool.or_eq_true, Bool.and_eq_true, decide_eq_true_iff, decide_eq_true_iff,
    decide_eq_true_iff]
  show _ ↔ (m.edit source).start < (n.edit source).start ∨
    (m.edit source).start = (n.edit source).start ∧ _
  cases m <;> cases n <;> simp [closed?]

theorem before_trans (a b c : Mark) (ab : before source a b) (bc : before source b c) :
    before source a c := by
  rw [before_iff] at *
  cases a <;> cases b <;> cases c <;> simp [closed?] at * <;> omega

theorem before_total (a b : Mark) : before source a b || before source b a := by
  rw [Bool.or_eq_true, before_iff, before_iff]
  cases a <;> cases b <;> simp [closed?] <;> omega

end Mark

/-! ## Statements that can be wrapped -/

/-- A byte that a statement can start or end with: neither spacing nor a line break. -/
def isSolid (b : UInt8) : Bool :=
  ! isSpacing b && b ≠ newline

private theorem isBlank_eq_false_of_isSolid {b : UInt8} (solid : isSolid b) :
    isBlank b = false ∧ b ≠ newline := by
  simp only [isSolid, isSpacing, Bool.and_eq_true, Bool.not_eq_true', Bool.or_eq_false_iff,
    decide_eq_true_eq] at solid
  exact ⟨solid.1.1, solid.2⟩

open Mark in
/-- Statements, in the order in which a walk leaves them, that marks can be put around. What is
blank is spacing throughout: a space, a tab or a carriage return, which is what is passed over where
the rest of a line is looked at. -/
structure Wrappable (source : Text) (statements : List Tree) : Prop where
  inside : ∀ t ∈ statements, t.start < t.stop ∧ t.stop ≤ source.length
  solid : ∀ t ∈ statements, (source[t.start]?).any isSolid ∧ (source[t.stop - 1]?).any isSolid
  /-- Statements are nested or apart, and start and end at offsets of their own. -/
  ordered : statements.Pairwise LeftBefore
  /-- Two statements on a line have more than spacing between them. -/
  separated : ∀ t ∈ statements, ∀ u ∈ statements, t.stop ≤ u.start →
    newline ∉ source.slice t.stop u.start → ∃ b ∈ source.slice t.stop u.start, isSpacing b = false
  /-- No statement starts or ends in a comment that follows one on its line. -/
  uncommented : ∀ t ∈ statements, ∀ k < source.lineEnd t.stop, t.stop ≤ k →
    startsWith (source.drop k) "//" → ∀ u ∈ statements, ∀ edge ∈ [u.start, u.stop],
      edge ≤ k ∨ source.lineEnd t.stop < edge

namespace Wrappable

open Mark

variable {source : Text} {statements : List Tree} {t u : Tree}

theorem start_solid (w : Wrappable source statements) (ht : t ∈ statements) :
    ∃ b, source[t.start]? = some b ∧ isBlank b = false ∧ b ≠ newline := by
  obtain ⟨b, here, solid⟩ := (Option.any_eq_true _ _).1 (w.solid t ht).1
  exact ⟨b, here, isBlank_eq_false_of_isSolid solid⟩

theorem stop_solid (w : Wrappable source statements) (ht : t ∈ statements) :
    ∃ b, source[t.stop - 1]? = some b ∧ isBlank b = false ∧ b ≠ newline := by
  obtain ⟨b, here, solid⟩ := (Option.any_eq_true _ _).1 (w.solid t ht).2
  exact ⟨b, here, isBlank_eq_false_of_isSolid solid⟩

private theorem leftBefore_or (w : Wrappable source statements) (ht : t ∈ statements)
    (hu : u ∈ statements) (other : t ≠ u) : LeftBefore t u ∨ LeftBefore u t := by
  have : Std.Symm fun t u => LeftBefore t u ∨ LeftBefore u t := ⟨fun _ _ => Or.symm⟩
  have either : statements.Pairwise fun t u => LeftBefore t u ∨ LeftBefore u t :=
    w.ordered.imp Or.inl
  exact either.forall ht hu other

theorem eq_of_start_eq (w : Wrappable source statements) (ht : t ∈ statements)
    (hu : u ∈ statements) (same : t.start = u.start) : t = u := by
  by_contra other
  have size := (w.inside t ht).1
  have size' := (w.inside u hu).1
  rcases w.leftBefore_or ht hu other with (h | h) | (h | h) <;> omega

theorem eq_of_stop_eq (w : Wrappable source statements) (ht : t ∈ statements)
    (hu : u ∈ statements) (same : t.stop = u.stop) : t = u := by
  by_contra other
  have size := (w.inside t ht).1
  have size' := (w.inside u hu).1
  rcases w.leftBefore_or ht hu other with (h | h) | (h | h) <;> omega

/-- What ends before a line starts ends before the line break. -/
private theorem lt_lineStart_of_stop_le (w : Wrappable source statements) (ht : t ∈ statements)
    {offset : Nat} (h : t.stop ≤ source.lineStart offset) : t.stop < source.lineStart offset := by
  obtain ⟨b, here, -, unbroken⟩ := w.stop_solid ht
  have size := (w.inside t ht).1
  rcases (startsLine_lineStart source offset).2.1 with zero | broken
  · omega
  · by_contra same
    rw [show source.lineStart offset = t.stop by omega, here] at broken
    exact unbroken (Option.some.inj broken)

/-- What starts before a statement that is first on its line starts on a line before. -/
private theorem start_lt_lineStart (w : Wrappable source statements) (ht : t ∈ statements)
    (first : source.isFirstOnLine u.start = true) (h : t.start < u.start) :
    t.start < source.lineStart u.start := by
  obtain ⟨b, here, solid, -⟩ := w.start_solid ht
  by_contra low
  have blank := isFirstOnLine_iff.1 first t.start b (by omega) h here
  rw [solid] at blank
  cases blank

/-- What ends before a statement that is first on its line ends on a line before. -/
private theorem stop_lt_lineStart (w : Wrappable source statements) (ht : t ∈ statements)
    (first : source.isFirstOnLine u.start = true) (h : t.stop ≤ u.start) :
    t.stop < source.lineStart u.start := by
  obtain ⟨b, here, solid, -⟩ := w.stop_solid ht
  have size := (w.inside t ht).1
  refine w.lt_lineStart_of_stop_le ht ?_
  by_contra low
  have blank := isFirstOnLine_iff.1 first (t.stop - 1) b (by omega) (by omega) here
  rw [solid] at blank
  cases blank

/-- Where nothing but trivia follows a statement on its line, what is solid behind it has a comment
before it, in which no other statement starts or ends. -/
private theorem lineEnd_lt_of_trivia (w : Wrappable source statements) (ht : t ∈ statements)
    (hu : u ∈ statements) (last : source.restIsTrivia t.stop = true) {k : Nat} {b : UInt8}
    (low : t.stop ≤ k) (found : source[k]? = some b) (solid : isSpacing b = false) :
    (k < u.start → source.lineEnd t.stop < u.start) ∧
      (k < u.stop → source.lineEnd t.stop < u.stop) := by
  by_cases near : k < source.lineEnd t.stop
  · obtain ⟨j, above, below, comment⟩ :=
      exists_comment_of_restIsTrivia (w.inside t ht).2 last low near found solid
    have edges := w.uncommented t ht j (by omega) above comment u hu
    have start := edges u.start (by simp)
    have stop := edges u.stop (by simp)
    omega
  · omega

/-! ## The order of offsets -/

/-- Statements are opened in the order of their starts. -/
theorem offset_opening_lt (w : Wrappable source statements) (ht : t ∈ statements)
    (h : t.start < u.start) : (opening t).offset source < (opening u).offset source := by
  have low := offset_opening_le source t
  rcases offset_opening source u with ⟨first, eq⟩ | ⟨-, eq⟩
  · have := w.start_lt_lineStart ht first h
    omega
  · omega

/-- A statement is closed before one that starts behind it is opened. -/
theorem offset_closing_lt (w : Wrappable source statements) (ht : t ∈ statements)
    (hu : u ∈ statements) (h : t.stop ≤ u.start) :
    (closing t).offset source < (opening u).offset source := by
  have inside := w.inside u hu
  obtain ⟨low, -, last, unbroken⟩ := endsLine_lineEnd (w.inside t ht).2
  have far := lineStart_le_offset source u
  by_cases broken : newline ∈ source.slice t.stop u.start
  · obtain ⟨k, above, below, here⟩ := mem_slice.1 broken
    have near : source.lineEnd t.stop ≤ k := by
      by_contra short
      exact unbroken k above (by omega) here
    have start := lt_lineStart here below
    rcases offset_closing source t with ⟨-, eq⟩ | ⟨-, eq⟩ <;> omega
  · obtain ⟨b, listed, solid⟩ := w.separated t ht u hu h broken
    obtain ⟨k, above, below, here⟩ := mem_slice.1 listed
    rcases offset_closing source t with ⟨trivia, -⟩ | ⟨-, eq⟩
    · -- A comment before the second statement would end before it, with the line.
      have near := (w.lineEnd_lt_of_trivia ht hu trivia above here solid).1 below
      have break_ : source[source.lineEnd t.stop]? = some newline :=
        last.resolve_left (by omega)
      exact absurd (mem_slice.2 ⟨_, low, near, break_⟩) broken
    · rcases offset_opening source u with ⟨first, eq'⟩ | ⟨-, eq'⟩
      · have := w.stop_lt_lineStart ht first h
        omega
      · omega

/-- Statements are closed in the order in which a walk leaves them, as far as their offsets are
told apart. -/
theorem offset_closing_le (w : Wrappable source statements) (ht : t ∈ statements)
    (hu : u ∈ statements) (h : LeftBefore t u) :
    (closing t).offset source ≤ (closing u).offset source := by
  have inside := w.inside u hu
  have behind := (le_offset_closing inside.2).1
  obtain ⟨-, -, last, unbroken⟩ := endsLine_lineEnd (w.inside t ht).2
  rcases h with ⟨-, nested⟩ | apart
  · rcases offset_closing source t with ⟨trivia, eq⟩ | ⟨-, eq⟩
    · by_cases spaced : ∀ k b, t.stop ≤ k → k < u.stop → source[k]? = some b → isSpacing b
      · -- Both end on one line, and nothing but trivia follows either of them.
        have ends := lineEnd_eq_of_isSpacing (by omega) inside.2 spaced
        have trivia' := restIsTrivia_of_isSpacing (by omega) inside.2 spaced
        rcases offset_closing source u with ⟨-, eq'⟩ | ⟨code, -⟩
        · omega
        · rw [← trivia', trivia] at code
          cases code
      · simp only [not_forall] at spaced
        obtain ⟨k, b, low, high, here, solid⟩ := spaced
        have := (w.lineEnd_lt_of_trivia ht hu trivia low here (Bool.eq_false_iff.2 solid)).2 high
        omega
    · omega
  · have before := w.offset_closing_lt ht hu apart
    have := offset_opening_le source u
    omega

/-! ## The order of marks -/

theorem opening_mem_both {ts : List Tree} : opening t ∈ ts.flatMap both ↔ t ∈ ts := by
  simp [both]

theorem closing_mem_both {ts : List Tree} : closing t ∈ ts.flatMap both ↔ t ∈ ts := by
  simp [both]

/-- Marks at different offsets stand in order, and so do those that were recorded in order. -/
theorem precedes (w : Wrappable source statements) {m n : Mark}
    (hm : m ∈ statements.flatMap both) (hn : n ∈ statements.flatMap both) (other : m ≠ n)
    (sorted : before source m n) (stable : before source n m → ∀ t ∈ m.closed?, ∀ u ∈ n.closed?,
      LeftBefore t u) : Precedes m n := by
  cases m with
  | opening t =>
    have ht := opening_mem_both.1 hm
    have low : (opening t).offset source ≤ n.offset source := by
      rcases before_iff.1 sorted with h | h <;> omega
    cases n with
    | opening u =>
      have hu := opening_mem_both.1 hn
      by_contra late
      have apart : u.start ≠ t.start := fun same => other (by rw [w.eq_of_start_eq hu ht same])
      have := w.offset_opening_lt hu (u := t) (by simp only [Precedes] at late; omega)
      omega
    | closing u =>
      by_contra late
      have := w.offset_closing_lt (closing_mem_both.1 hn) ht (Nat.le_of_not_lt late)
      omega
  | closing t =>
    have ht := closing_mem_both.1 hm
    have low : (closing t).offset source ≤ n.offset source := by
      rcases before_iff.1 sorted with h | h <;> omega
    cases n with
    | opening u =>
      have above := (le_offset_closing (w.inside t ht).2).1
      have below := offset_opening_le source u
      show t.stop ≤ u.start
      omega
    | closing u =>
      have hu := closing_mem_both.1 hn
      rcases w.leftBefore_or ht hu (fun same => other (by rw [same])) with h | h
      · exact h
      · -- Then both are closed at one offset, and kept the order in which they were recorded.
        have high := w.offset_closing_le hu ht h
        exact stable (before_iff.2 (.inr ⟨by omega, .inl rfl⟩)) t rfl u rfl

theorem nodup_both (w : Wrappable source statements) : (statements.flatMap both).Nodup := by
  refine List.nodup_flatMap.2 ⟨fun t _ => by simp [both], ?_⟩
  refine w.ordered.imp_of_mem fun {t u} ht hu h => ?_
  have other : t ≠ u := by
    intro same
    rw [same] at h
    have := (w.inside u hu).1
    rcases h with h | h <;> omega
  simp [Function.onFun, both, List.Disjoint, other]

theorem sorted_perm (source : Text) (statements : List Tree) :
    (sorted source statements).Perm (statements.flatMap both) :=
  sortBy_perm _ _

/-- Marks are inserted in order. -/
theorem sorted_precedes (w : Wrappable source statements) :
    (sorted source statements).Pairwise Precedes := by
  have nodup : (sorted source statements).Pairwise (· ≠ ·) :=
    (sorted_perm source statements).nodup_iff.2 w.nodup_both
  -- Ends at one offset stay in the order in which the statements were recorded.
  have recorded : (statements.flatMap both).Pairwise fun m n =>
      ∀ t ∈ m.closed?, ∀ u ∈ n.closed?, LeftBefore t u := by
    refine List.pairwise_flatMap.2 ⟨fun t _ => by simp [both, closed?], ?_⟩
    exact w.ordered.imp fun {t u} h => by simpa [both, closed?] using h
  have stable : (sorted source statements).Pairwise fun m n => before source n m →
      ∀ t ∈ m.closed?, ∀ u ∈ n.closed?, LeftBefore t u :=
    sortBy_stable before_trans before_total recorded
  have rising : (sorted source statements).Pairwise fun m n => before source m n :=
    sortBy_pairwise before_trans before_total _
  have all := nodup.and (rising.and stable)
  refine all.imp_of_mem fun hm hn h => ?_
  have hm' := (sorted_perm source statements).subset hm
  have hn' := (sorted_perm source statements).subset hn
  exact w.precedes hm' hn' h.1 h.2.1 h.2.2

/-- The marks are balanced in the order in which they are inserted. -/
theorem balanced_sorted (w : Wrappable source statements) :
    Balanced [] (sorted source statements) := by
  have perm := sorted_perm source statements
  refine balanced_of_precedes ⟨List.Pairwise.nil, nofun, nofun, ?_, ?_⟩
    (perm.nodup_iff.2 w.nodup_both) w.sorted_precedes ?_
  · intro t ht
    exact perm.mem_iff.2 (closing_mem_both.2 (opening_mem_both.1 (perm.mem_iff.1 ht)))
  · intro t ht
    exact .inr (perm.mem_iff.2 (opening_mem_both.2 (closing_mem_both.1 (perm.mem_iff.1 ht))))
  · intro t ht
    exact (w.inside t (closing_mem_both.1 (perm.mem_iff.1 ht))).1

private theorem closed_both (ts : List Tree) : (ts.flatMap both).filterMap closed? = ts := by
  induction ts with
  | nil => rfl
  | cons t ts ih =>
    rw [List.flatMap_cons, List.filterMap_append, ih]
    rfl

/-- Statements are closed in the order in which a walk leaves them. -/
theorem closed_sorted (w : Wrappable source statements) :
    (sorted source statements).filterMap closed? = statements := by
  have perm := (sorted_perm source statements).filterMap closed?
  rw [closed_both] at perm
  refine List.Perm.eq_of_pairwise ?_ ?_ w.ordered perm
  · intro t u ht hu ab ba
    have := w.inside t (perm.subset ht)
    have := w.inside u hu
    rcases ab with ab | ab <;> rcases ba with ba | ba <;> omega
  · refine List.pairwise_filterMap.2 (w.sorted_precedes.imp fun {m n} h t ht u hu => ?_)
    cases m <;> cases n <;> cases ht <;> cases hu
    exact h

/-- The marks are insertions into the source. -/
theorem inserted_sorted (w : Wrappable source statements) :
    Insertions.Inserted source.length 0 ((sorted source statements).map (edit source)) := by
  have rising : (sorted source statements).Pairwise fun m n => before source m n :=
    sortBy_pairwise before_trans before_total _
  have inside : ∀ m ∈ sorted source statements, m.offset source ≤ source.length := by
    intro m hm
    have hm' := (sorted_perm source statements).subset hm
    cases m with
    | opening t =>
      have := w.inside t (opening_mem_both.1 hm')
      have := offset_opening_le source t
      omega
    | closing t => exact (le_offset_closing (w.inside t (closing_mem_both.1 hm')).2).2
  -- The induction is on the marks that are left, from the offset that was reached.
  have ordered : ∀ (marks : List Mark) (reached : Nat), (∀ m ∈ marks, reached ≤ m.offset source) →
      (∀ m ∈ marks, m.offset source ≤ source.length) →
      marks.Pairwise (fun m n => before source m n) →
        Insertions.Inserted source.length reached (marks.map (edit source)) := by
    intro marks
    induction marks with
    | nil => exact fun _ _ _ _ => trivial
    | cons m marks ih =>
      intro reached low high rising
      obtain ⟨first, rest⟩ := List.pairwise_cons.1 rising
      obtain ⟨plain, given⟩ := edit_inserts source m
      refine ⟨⟨low m List.mem_cons_self, high m List.mem_cons_self⟩, plain, given,
        ih _ (fun n hn => ?_) (fun n hn => high n (List.mem_cons_of_mem m hn)) rest⟩
      show m.offset source ≤ n.offset source
      rcases before_iff.1 (first n hn) with h | h <;> omega
  exact ordered _ 0 (fun _ _ => Nat.zero_le _) inside rising

end Wrappable

/-! ## What is recorded -/

namespace Draft

open Mark

/-- A statement that starts at an offset of its own gets both marks. -/
theorem wrapStatement_edits {d : Draft} {s : Scene} {t : Tree} (fresh : t.start ∉ d.wrapped) :
    (d.wrapStatement s t).buffer.edits = d.buffer.edits ++ (both t).map (edit s.file.source) ∧
      (d.wrapStatement s t).buffer.source = d.buffer.source ∧
      (d.wrapStatement s t).wrapped = t.start :: d.wrapped := by
  unfold wrapStatement
  rw [if_neg fresh]
  dsimp only
  cases first : s.file.source.isFirstOnLine t.start <;>
    cases last : s.file.source.restIsTrivia t.stop <;>
    simp [insert, Buffer.insert, Buffer.push, both, edit, first, last]

/-- What is recorded for statements that start at offsets of their own. -/
private theorem foldl_wrapStatement {s : Scene} {statements : List Tree} {d : Draft}
    (fresh : ∀ t ∈ statements, t.start ∉ d.wrapped)
    (distinct : statements.Pairwise fun t u => t.start ≠ u.start) :
    (statements.foldl (fun d t => d.wrapStatement s t) d).buffer =
      ⟨d.buffer.source, d.buffer.edits ++ (statements.flatMap both).map (edit s.file.source)⟩ := by
  induction statements generalizing d with
  | nil => simp
  | cons t statements ih =>
    obtain ⟨first, rest⟩ := List.pairwise_cons.1 distinct
    obtain ⟨edits, source, wrapped⟩ := wrapStatement_edits (s := s) (fresh t List.mem_cons_self)
    rw [List.foldl_cons, ih ?_ rest, edits, source, List.flatMap_cons, List.map_append,
      List.append_assoc]
    intro u hu
    rw [wrapped, List.mem_cons, not_or]
    exact ⟨(first u hu).symm, fresh u (List.mem_cons_of_mem t hu)⟩

/-- The draft in which statements were wrapped one after the other. -/
def wrapAll (s : Scene) (statements : List Tree) : Draft :=
  statements.foldl (fun d t => wrapStatement d s t) (ofSource s.file.source)

/-- The marks of wrapped statements are inserted in their order. -/
theorem render_wrapAll {s : Scene} {statements : List Tree}
    (w : Wrappable s.file.source statements) :
    (wrapAll s statements).buffer.render = Buffer.sweep s.file.source 0 ⟨[], []⟩
      ((sorted s.file.source statements).map (edit s.file.source)) := by
  have distinct : statements.Pairwise fun t u => t.start ≠ u.start := by
    refine w.ordered.imp_of_mem fun {t u} ht hu h => ?_
    have := w.inside t ht
    rcases h with h | h <;> omega
  unfold wrapAll Buffer.render
  rw [foldl_wrapStatement (by simp [ofSource]) distinct]
  dsimp only [ofSource, Buffer.ofSource]
  rw [List.nil_append, sortBy_map]
  rfl

end Draft

end Interlace
