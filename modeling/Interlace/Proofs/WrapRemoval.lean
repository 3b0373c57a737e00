import Interlace.Proofs.WrapLayout

/-!
# Removing wrap markers

Removing looks at the lines of the woven text and finds just what was inserted: the text around
each mark still shows which layout was chosen.

## Key results

- `Rendered.insertedComments`: the comments of a rendered text that were inserted
- `Wrappable.found_marks`: what is removed for a mark is what was inserted for it
- `Removal.unwrap_wrapAll`: wrapped statements can be unwrapped exactly
-/

namespace Interlace

open Syntax Text

/-! ## Inserted comments -/

namespace Rendered

/-- The comment from an offset to the end of its line. -/
def commentAt (text : Text) (start : Nat) : Trivia :=
  Decorations.trivia text (.node .comment none start (text.lineEnd start) [])

/-- Spaces, tabs and line breaks before a comment. -/
def margin (t : Text) : Nat :=
  (t.takeWhile fun b => isBlank b || b = newline).length

/-- The comments in the inserted pieces of a text, one in each. -/
def insertedComments (r : Rendered) : List Trivia :=
  (r.segments.filter (·.origin.isNone)).map fun s =>
    commentAt r.text (s.start + margin (r.text.slice s.start s.stop))

/-- The text as a file, with the inserted comments as its markers. -/
def asFile (r : Rendered) (file : SourceFile) : SourceFile :=
  { file with source := r.text, decorations := ⟨[], [], r.insertedComments⟩ }

end Rendered

open Rendered

/-! ## Comments between other text -/

section

variable {front spacing word back : Text} {b : UInt8}

private theorem mem_of_getElem?_append {middle : Text} {k : Nat} (low : front.length ≤ k)
    (high : k < front.length + middle.length) (found : (front ++ middle ++ back)[k]? = some b) :
    b ∈ middle := by
  rw [List.append_assoc, List.getElem?_append_right low,
    List.getElem?_append_left (by omega)] at found
  exact List.mem_of_getElem? found

/-- What a comment ends with is the line. -/
theorem lineEnd_append (unbroken : newline ∉ word) (ended : back = [] ∨ back.head? = some newline) :
    (front ++ word ++ back).lineEnd front.length = front.length + word.length ∧
      (front ++ word ++ back).lineEnd (front.length + word.length) =
        front.length + word.length := by
  -- Behind the word the text or the line ends, and the word has no line break.
  have stop : front.length + word.length = (front ++ word ++ back).length ∨
      (front ++ word ++ back)[front.length + word.length]? = some newline := by
    rcases ended with rfl | head
    · left
      simp
    · right
      rw [← List.length_append, List.getElem?_append_right (Nat.le_refl _), Nat.sub_self,
        ← List.head?_eq_getElem?, head]
  have inside : front.length + word.length ≤ (front ++ word ++ back).length := by
    simp only [List.length_append]
    omega
  constructor
  · refine (lineEnd_eq_iff (by omega)).2 ⟨by omega, inside, stop, fun k low high broken => ?_⟩
    exact unbroken (mem_of_getElem?_append low high broken)
  · refine (lineEnd_eq_iff inside).2 ⟨Nat.le_refl _, inside, stop, fun k low high => ?_⟩
    omega

/-- The comment that a word is. -/
theorem commentAt_append (unbroken : newline ∉ word)
    (ended : back = [] ∨ back.head? = some newline) :
    commentAt (front ++ word ++ back) front.length =
      ⟨word, front.length, front.length + word.length,
        (front ++ word ++ back).isFirstOnLine front.length, Marker.parse? word,
        Directive.parse? word⟩ := by
  unfold commentAt Decorations.trivia
  simp only [Tree.text, Tree.start, Tree.stop, (lineEnd_append unbroken ended).1,
    slice_append_append]

/-- What follows a line break and blanks is first on its line. -/
theorem isFirstOnLine_append (back : Text) (first : front = [] ∨ front.getLast? = some newline)
    (blank : ∀ b ∈ spacing, isBlank b) :
    (front ++ spacing ++ back).lineStart (front.length + spacing.length) = front.length ∧
      (front ++ spacing ++ back).isFirstOnLine (front.length + spacing.length) = true := by
  -- From the line break on there are blanks only.
  have among : ∀ k c, front.length ≤ k → k < front.length + spacing.length →
      (front ++ spacing ++ back)[k]? = some c → isBlank c := by
    intro k c low high found
    exact blank c (mem_of_getElem?_append low high found)
  have start : (front ++ spacing ++ back).lineStart (front.length + spacing.length) =
      front.length := by
    refine lineStart_eq_iff.2 ⟨by omega, ?_, fun k low high broken => ?_⟩
    · rcases first with rfl | last
      · exact .inl rfl
      · right
        have given : front ≠ [] := by
          rintro rfl
          cases last
        have := List.length_pos_iff.2 given
        rw [List.append_assoc, List.getElem?_append_left (by omega), ← List.getLast?_eq_getElem?,
          last]
    · have := among k newline low high broken
      cases this
  exact ⟨start, isFirstOnLine_iff.2 fun k c low high found => among k c (by omega) high found⟩

/-- What follows something solid on its line is not first. -/
theorem isFirstOnLine_append_false (front spacing back : Text) (solid : isBlank b = false)
    (unbroken : b ≠ newline) (blank : ∀ b ∈ spacing, isBlank b) :
    (front ++ b :: spacing ++ back).isFirstOnLine (front ++ b :: spacing).length = false := by
  have here : (front ++ b :: spacing ++ back)[front.length]? = some b := by
    rw [List.append_assoc, List.getElem?_append_right (Nat.le_refl _), Nat.sub_self]
    rfl
  have size : (front ++ b :: spacing).length = front.length + (b :: spacing).length :=
    List.length_append
  -- No line break stands between the solid byte and the place, so both are on one line.
  have start : (front ++ b :: spacing ++ back).lineStart (front ++ b :: spacing).length ≤
      front.length := by
    have inside : front.length ≤ (front ++ b :: spacing).length := by omega
    rw [lineStart_eq_of_no_newline inside]
    · exact lineStart_le _ _
    · intro k low high broken
      rcases List.mem_cons.1 (mem_of_getElem?_append low (by omega) broken) with same | listed
      · exact unbroken same.symm
      · have := blank _ listed
        cases this
  rw [Bool.eq_false_iff]
  intro first
  have := isFirstOnLine_iff.1 first front.length b start (by simp [size]) here
  rw [solid] at this
  cases this

private theorem margin_append (spaced : ∀ b ∈ spacing, isBlank b ∨ b = newline)
    (stop : ∀ b, word.head? = some b → isBlank b = false ∧ b ≠ newline) :
    margin (spacing ++ word) = spacing.length := by
  unfold margin
  rw [List.takeWhile_append_of_pos (by simpa using spaced)]
  cases word with
  | nil => simp
  | cons b word =>
    obtain ⟨solid, unbroken⟩ := stop b rfl
    rw [List.takeWhile_cons_of_neg (by simp [solid, unbroken]), List.append_nil]

end

/-- A marker is a comment on one line. -/
theorem Marker.comment_line (m : Marker) :
    newline ∉ m.comment ∧ Marker.parse? m.comment = some m ∧ m.comment.head? = some 0x2F := by
  cases m <;> decide

/-- A marker behind spacing is found where it starts. -/
theorem Marker.margin_comment {spacing : Text} (m : Marker)
    (spaced : ∀ b ∈ spacing, isBlank b ∨ b = newline) (back : Text) :
    margin (spacing ++ (m.comment ++ back)) = spacing.length := by
  refine margin_append spaced fun b head => ?_
  rw [List.head?_append, m.comment_line.2.2] at head
  cases head
  decide

/-- The marker in an inserted text is a comment of its own. -/
theorem Marker.commentAt_inserted (m : Marker) (front back : Text) {lead trail x : Text}
    (inserted : x = lead ++ m.comment ++ trail) (spaced : ∀ b ∈ lead, isBlank b ∨ b = newline)
    (ended : trail ++ back = [] ∨ (trail ++ back).head? = some newline) :
    commentAt (front ++ x ++ back) (front.length + margin x) =
        ⟨m.comment, front.length + lead.length, front.length + lead.length + m.comment.length,
          (front ++ x ++ back).isFirstOnLine (front.length + lead.length), some m,
          Directive.parse? m.comment⟩ ∧
      (front ++ x ++ back).lineEnd (front.length + lead.length + m.comment.length) =
        front.length + lead.length + m.comment.length := by
  obtain ⟨unbroken, parsed, -⟩ := m.comment_line
  have whole : front ++ x ++ back = (front ++ lead) ++ m.comment ++ (trail ++ back) := by
    rw [inserted]
    simp only [List.append_assoc]
  have found : margin x = lead.length := by
    rw [inserted, List.append_assoc]
    exact m.margin_comment spaced trail
  rw [found, ← List.length_append, whole]
  refine ⟨?_, (lineEnd_append unbroken ended).2⟩
  rw [commentAt_append unbroken ended, parsed]

/-! ## The four layouts -/

namespace Removal

variable {front start spacing indent back x : Text} {b : UInt8}

/-- An opening mark on a line of its own. -/
private theorem openingRange_ownLine (inserted : x = indent ++ Marker.startWrap.comment ++ "\n")
    (blank : ∀ b ∈ indent, isBlank b) (first : front = [] ∨ front.getLast? = some newline) :
    (commentAt (front ++ x ++ back) (front.length + margin x)).marker = some .startWrap ∧
      openingRange (front ++ x ++ back)
          (commentAt (front ++ x ++ back) (front.length + margin x)) =
        ⟨front.length, front.length + x.length⟩ := by
  obtain ⟨comment, stop⟩ := Marker.startWrap.commentAt_inserted front back inserted
    (fun b hb => .inl (blank b hb)) (.inr rfl)
  obtain ⟨start, own⟩ :=
    isFirstOnLine_append (Marker.startWrap.comment ++ "\n" ++ back) first blank
  have whole : front ++ x ++ back =
      front ++ indent ++ (Marker.startWrap.comment ++ "\n" ++ back) := by
    rw [inserted]
    simp only [List.append_assoc]
  rw [← whole] at start own
  rw [comment]
  refine ⟨rfl, ?_⟩
  unfold openingRange afterLine
  dsimp only
  rw [if_pos own, start, stop]
  -- The range takes the blanks, the marker and the line break behind it.
  have size : x.length = indent.length + Marker.startWrap.comment.length + 1 := by
    rw [inserted, List.length_append, List.length_append]
    rfl
  simp only [Range.mk.injEq, true_and, List.length_append]
  omega

/-- An opening mark behind other code on its line. -/
private theorem openingRange_inline (inserted : x = Marker.startWrap.comment ++ "\n" ++ indent)
    (blank : ∀ b ∈ indent, isBlank b) (behind : ∃ c, back.head? = some c ∧ isBlank c = false)
    (before : front = start ++ b :: spacing) (code : isBlank b = false) (unbroken : b ≠ newline)
    (spaced : ∀ b ∈ spacing, isBlank b) :
    (commentAt (front ++ x ++ back) (front.length + margin x)).marker = some .startWrap ∧
      openingRange (front ++ x ++ back)
          (commentAt (front ++ x ++ back) (front.length + margin x)) =
        ⟨front.length, front.length + x.length⟩ := by
  have inserted' : x = [] ++ Marker.startWrap.comment ++ ("\n" ++ indent : Text) :=
    inserted.trans (List.append_assoc _ _ _)
  obtain ⟨comment, stop⟩ :=
    Marker.startWrap.commentAt_inserted front back inserted' nofun (.inr rfl)
  have own := isFirstOnLine_append_false start spacing (x ++ back) code unbroken spaced
  rw [← before, ← List.append_assoc] at own
  -- The indentation is skipped, and nothing behind it.
  have skipped : (front ++ x ++ back).skipBlanks
      (front.length + Marker.startWrap.comment.length + 1) = front.length + x.length := by
    obtain ⟨c, head, solid⟩ := behind
    have whole : front ++ x ++ back =
        (front ++ Marker.startWrap.comment ++ "\n") ++ (indent ++ back) := by
      rw [inserted]
      simp only [List.append_assoc]
    have place : front.length + Marker.startWrap.comment.length + 1 =
        (front ++ Marker.startWrap.comment ++ "\n").length := by
      rw [List.length_append, List.length_append]
      rfl
    have taken : (indent ++ back).takeWhile isBlank = indent := by
      rw [List.takeWhile_append_of_pos blank]
      cases back with
      | nil => cases head
      | cons c' back =>
        cases head
        rw [List.takeWhile_cons_of_neg (by rw [solid]; exact Bool.false_ne_true), List.append_nil]
    unfold skipBlanks
    rw [whole, place, List.drop_left, taken, inserted]
    simp only [List.length_append]
    omega
  rw [comment]
  refine ⟨rfl, ?_⟩
  unfold openingRange afterLine
  dsimp only
  rw [List.length_nil, Nat.add_zero] at stop ⊢
  have size : x.length = Marker.startWrap.comment.length + 1 + indent.length := by
    rw [inserted, List.length_append, List.length_append]
    rfl
  rw [if_neg (by rw [own]; exact Bool.false_ne_true), stop, Nat.min_eq_left, skipped]
  simp only [List.length_append]
  omega

/-- A closing mark on a line of its own. -/
private theorem closingRange_ownLine (inserted : x = "\n" ++ indent ++ Marker.endWrap.comment)
    (blank : ∀ b ∈ indent, isBlank b) (last : back = [] ∨ back.head? = some newline) :
    (commentAt (front ++ x ++ back) (front.length + margin x)).marker = some .endWrap ∧
      closingRange (front ++ x ++ back)
          (commentAt (front ++ x ++ back) (front.length + margin x)) =
        ⟨front.length, front.length + x.length⟩ := by
  have spaced : ∀ b ∈ ("\n" ++ indent : Text), isBlank b ∨ b = newline := by
    intro b hb
    rcases List.mem_append.1 hb with broken | listed
    · exact .inr (List.mem_singleton.1 broken)
    · exact .inl (blank b listed)
  have inserted' : x = ("\n" ++ indent : Text) ++ Marker.endWrap.comment ++ [] :=
    inserted.trans (List.append_nil _).symm
  -- The comment has the line that starts behind the added line break.
  have broken : (front ++ "\n").getLast? = some newline := List.getLast?_concat
  obtain ⟨comment, -⟩ := Marker.endWrap.commentAt_inserted front back inserted' spaced last
  obtain ⟨start, own⟩ := isFirstOnLine_append (Marker.endWrap.comment ++ back) (.inr broken) blank
  have whole : front ++ x ++ back =
      front ++ "\n" ++ indent ++ (Marker.endWrap.comment ++ back) := by
    rw [inserted]
    simp only [List.append_assoc]
  have place : front.length + ("\n" ++ indent : Text).length =
      (front ++ "\n").length + indent.length := by
    simp only [List.length_append]
    omega
  rw [← whole, ← place] at start own
  rw [comment]
  refine ⟨rfl, ?_⟩
  unfold closingRange
  dsimp only
  rw [if_pos own, start, inserted]
  simp only [Range.mk.injEq, List.length_append]
  have one : ("\n" : Text).length = 1 := rfl
  omega

/-- The space before a comment is removed with it. -/
theorem withSpace_append (front back : Text) :
    withSpace (front ++ " " ++ back) (front.length + (" " : Text).length) = front.length := by
  have spaced : Text.endsWith (front ++ " ") " " = true := by
    unfold Text.endsWith
    rw [stripSuffix?_eq_some_iff.2 rfl]
    rfl
  rw [withSpace, ← List.length_append, List.take_left, if_pos spaced, List.length_append]
  rfl

/-- A closing mark before other code on its line. -/
private theorem closingRange_inline (inserted : x = " " ++ Marker.endWrap.comment ++ "\n")
    (before : front = start ++ [b]) (code : isBlank b = false) (unbroken : b ≠ newline) :
    (commentAt (front ++ x ++ back) (front.length + margin x)).marker = some .endWrap ∧
      closingRange (front ++ x ++ back)
          (commentAt (front ++ x ++ back) (front.length + margin x)) =
        ⟨front.length, front.length + x.length⟩ := by
  have blank : ∀ b ∈ (" " : Text), isBlank b := fun b hb => by rw [List.mem_singleton.1 hb]; rfl
  obtain ⟨comment, -⟩ := Marker.endWrap.commentAt_inserted front back inserted
    (fun b hb => .inl (blank b hb)) (.inr rfl)
  have whole : front ++ x ++ back =
      start ++ b :: " " ++ (Marker.endWrap.comment ++ ("\n" ++ back)) := by
    rw [inserted, before]
    simp only [List.append_assoc, List.cons_append, List.nil_append]
  have own := isFirstOnLine_append_false start " " (Marker.endWrap.comment ++ ("\n" ++ back)) code
    unbroken blank
  have place : (start ++ b :: " ").length = front.length + (" " : Text).length := by
    rw [before, List.length_append, List.length_append]
    rfl
  rw [← whole, place] at own
  -- The space before the comment and the line break behind it are removed with it.
  have whole' : front ++ x ++ back =
      front ++ " " ++ (Marker.endWrap.comment ++ ("\n" ++ back)) := by
    rw [inserted]
    simp only [List.append_assoc]
  have low := withSpace_append front (Marker.endWrap.comment ++ ("\n" ++ back))
  rw [← whole'] at low
  have dropped : (front ++ x ++ back).drop
      (front.length + (" " : Text).length + Marker.endWrap.comment.length) = "\n" ++ back := by
    rw [← place, whole, ← List.append_assoc, ← List.length_append, List.drop_left]
  rw [comment]
  refine ⟨rfl, ?_⟩
  unfold closingRange
  dsimp only
  rw [if_neg (by rw [own]; exact Bool.false_ne_true), low, dropped,
    if_pos (startsWith_iff.2 ⟨back, rfl⟩), inserted]
  simp only [Range.mk.injEq, List.length_append, true_and]
  have one : (" " : Text).length = 1 := rfl
  have one' : ("\n" : Text).length = 1 := rfl
  omega

end Removal

/-- The range that is removed for the comment of a mark. -/
def Mark.range (text : Text) : Mark → Trivia → Range
  | opening _ => Removal.openingRange text
  | closing _ => Removal.closingRange text

/-- A mark stands in a text as its layout has it: on a line of its own, or beside code. -/
def Mark.stands (source front back : Text) : Mark → Bool
  | opening t =>
    if source.isFirstOnLine t.start then front = [] || front.getLast? = some newline
    else ! front.isFirstOnLine front.length && back.head?.any fun b => ! isBlank b
  | closing t =>
    if source.restIsTrivia t.stop then back = [] || back.head? = some newline
    else front.getLast?.any fun b => ! isBlank b && b ≠ newline

/-- Text that does not end at the start of a line ends with code, and blanks behind it. -/
private theorem exists_code_of_not_isFirstOnLine {front : Text}
    (behind : front.isFirstOnLine front.length = false) :
    ∃ start b spacing, front = start ++ b :: spacing ∧ isBlank b = false ∧ b ≠ newline ∧
      ∀ b ∈ spacing, isBlank b := by
  obtain ⟨k, b, low, high, here, solid, blanks⟩ := exists_last_of_not_isFirstOnLine behind
  have unbroken : b ≠ newline := by
    rintro rfl
    exact (startsLine_lineStart front front.length).2.2 k low high here
  refine ⟨front.take k, b, front.drop (k + 1), ?_, solid, unbroken, fun c hc => ?_⟩
  · obtain ⟨inside, rfl⟩ := List.getElem?_eq_some_iff.1 here
    rw [← List.drop_eq_getElem_cons inside, List.take_append_drop]
  · obtain ⟨j, there⟩ := List.mem_iff_getElem?.1 hc
    rw [List.getElem?_drop] at there
    have inside := (List.getElem?_eq_some_iff.1 there).1
    exact blanks (k + 1 + j) c (by omega) inside there

/-- For the comment of a mark that stands as its layout has it, what was inserted is removed. -/
theorem Mark.range_of_stands {source front back text : Text} {m : Mark} {comment : Trivia}
    (stands : m.stands source front back) (whole : text = front ++ (m.edit source).text ++ back)
    (found : comment = commentAt text (front.length + margin (m.edit source).text)) :
    comment.marker = some m.marker ∧
      m.range text comment = ⟨front.length, front.length + (m.edit source).text.length⟩ := by
  subst found whole
  have blank := Text.lineIndent_blank source
  -- The cases are those of the layout, and each has its own form of removal.
  cases m with
  | opening t =>
    cases first : source.isFirstOnLine t.start with
    | true =>
      simp only [Mark.stands, first, if_pos, Bool.or_eq_true, decide_eq_true_eq] at stands
      exact Removal.openingRange_ownLine (by rw [edit_opening_of_first first]) (blank t.start)
        stands
    | false =>
      simp only [Mark.stands, first, Bool.false_eq_true, if_false, Bool.and_eq_true,
        Bool.not_eq_true', Option.any_eq_true] at stands
      obtain ⟨behind, c, head, code⟩ := stands
      obtain ⟨start, b, spacing, eq, solid, unbroken, spaced⟩ :=
        exists_code_of_not_isFirstOnLine behind
      exact Removal.openingRange_inline (by rw [edit_opening_of_not_first first]) (blank t.start)
        ⟨c, head, code⟩ eq solid unbroken spaced
  | closing t =>
    cases trivia : source.restIsTrivia t.stop with
    | true =>
      simp only [Mark.stands, trivia, if_pos, Bool.or_eq_true, decide_eq_true_eq] at stands
      exact Removal.closingRange_ownLine (by rw [edit_closing_of_trivia trivia]) (blank t.start)
        stands
    | false =>
      simp only [Mark.stands, trivia, Bool.false_eq_true, if_false, Bool.and_eq_true,
        Bool.not_eq_true', Option.any_eq_true, decide_eq_true_eq] at stands
      obtain ⟨b, last, code, unbroken⟩ := stands
      obtain ⟨start, eq⟩ := List.getLast?_eq_some_iff.1 last
      exact Removal.closingRange_inline (by rw [edit_closing_of_not_trivia trivia]) eq code unbroken

/-! ## What surrounds a mark -/

namespace Wrappable

open Mark Insertions

variable {source : Text} {statements : List Tree} {before after : List Mark} {m n : Mark} {t : Tree}

/-- The marks around one of them. -/
theorem around (w : Wrappable source statements)
    (split : sorted source statements = before ++ m :: after) :
    m ∈ statements.flatMap both ∧
      (∀ n ∈ before, n ∈ statements.flatMap both ∧ n ≠ m ∧ Precedes n m) ∧
      (∀ n ∈ after, n ∈ statements.flatMap both ∧ Precedes m n) := by
  have perm := sorted_perm source statements
  have listed : ∀ n ∈ before ++ m :: after, n ∈ statements.flatMap both :=
    fun n hn => perm.subset (split ▸ hn)
  have nodup := perm.nodup_iff.2 w.nodup_both
  have ordered := w.sorted_precedes
  rw [split] at nodup ordered
  -- The marks are in order and none is there twice.
  obtain ⟨-, behind, across⟩ := List.pairwise_append.1 ordered
  refine ⟨listed m (by simp), fun n hn => ⟨listed n (by simp [hn]), ?_, ?_⟩, fun n hn =>
    ⟨listed n (by simp [hn]), ?_⟩⟩
  · rintro rfl
    exact (List.nodup_append.1 nodup).2.2 n hn n List.mem_cons_self rfl
  · exact across n hn m List.mem_cons_self
  · exact (List.pairwise_cons.1 behind).1 n hn

/-- Nothing is inserted where a statement is opened, but its mark. -/
private theorem offset_lt_opening (w : Wrappable source statements) (ht : t ∈ statements)
    (hn : n ∈ statements.flatMap both) (h : Precedes n (opening t)) :
    n.offset source < (opening t).offset source := by
  cases n with
  | opening u => exact w.offset_opening_lt (opening_mem_both.1 hn) h
  | closing u => exact w.offset_closing_lt (closing_mem_both.1 hn) ht h

private theorem opening_lt_offset (w : Wrappable source statements) (ht : t ∈ statements)
    (hn : n ∈ statements.flatMap both) (h : Precedes (opening t) n) :
    (opening t).offset source < n.offset source := by
  cases n with
  | opening u => exact w.offset_opening_lt ht h
  | closing u =>
    have low := offset_opening_le source t
    have high := (le_offset_closing (w.inside u (closing_mem_both.1 hn)).2).1
    have : t.start < u.stop := h
    omega

/-- What is inserted before a closing mark beside code is inserted inside the statement. -/
private theorem offset_lt_closing (w : Wrappable source statements) (ht : t ∈ statements)
    (code : source.restIsTrivia t.stop = false) (hn : n ∈ statements.flatMap both)
    (other : n ≠ closing t) (h : Precedes n (closing t)) : n.offset source < t.stop := by
  cases n with
  | opening u =>
    have low := offset_opening_le source u
    have : u.start < t.stop := h
    omega
  | closing u =>
    have hu := closing_mem_both.1 hn
    have below := w.offset_closing_le hu ht h
    rcases offset_closing source t with ⟨trivia, -⟩ | ⟨-, eq⟩
    · rw [trivia] at code
      cases code
    · rcases offset_closing source u with ⟨-, eq'⟩ | ⟨-, eq'⟩
      · -- The line of the other statement would end here.
        have trivia := restIsTrivia_lineEnd (w.inside u hu).2
        by_contra late
        rw [show source.lineEnd u.stop = t.stop by omega, code] at trivia
        cases trivia
      · have : u.stop ≠ t.stop := fun same => other (by rw [w.eq_of_stop_eq hu ht same])
        omega

/-- Behind blanks before a statement, nothing else is inserted. -/
private theorem offset_le_of_blanks (w : Wrappable source statements) (ht : t ∈ statements)
    {k : Nat} {b : UInt8} (here : source[k]? = some b) (unbroken : b ≠ newline)
    (blanks : ∀ j c, k < j → j < t.start → source[j]? = some c → isBlank c)
    (hn : n ∈ statements.flatMap both) (h : Precedes n (opening t))
    (low : n.offset source < t.start) : n.offset source ≤ k := by
  have plain : ∀ j, k ≤ j → j < t.start → source[j]? ≠ some newline := by
    intro j above below broken
    by_cases same : j = k
    · rw [same, here] at broken
      exact unbroken (Option.some.inj broken)
    · cases blanks j newline (by omega) below broken
  by_contra far
  cases n with
  | opening u =>
    have hu := opening_mem_both.1 hn
    rcases offset_opening source u with ⟨-, eq⟩ | ⟨-, eq⟩
    · rcases (startsLine_lineStart source u.start).2.1 with zero | broken
      · omega
      · exact plain _ (by omega) (by omega) broken
    · obtain ⟨c, there, solid, -⟩ := w.start_solid hu
      have blank := blanks u.start c (by omega) (by omega) there
      rw [solid] at blank
      cases blank
  | closing u =>
    have hu := closing_mem_both.1 hn
    have apart : u.stop ≤ t.start := h
    have inside := w.inside t ht
    obtain ⟨-, -, last, -⟩ := endsLine_lineEnd (w.inside u hu).2
    rcases offset_closing source u with ⟨-, eq⟩ | ⟨-, eq⟩
    · exact plain _ (by omega) (by omega) (last.resolve_left (by omega))
    · obtain ⟨c, there, solid, -⟩ := w.stop_solid hu
      have size := (w.inside u hu).1
      have same : u.stop - 1 = k := by
        by_contra later
        have blank := blanks (u.stop - 1) c (by omega) (by omega) there
        rw [solid] at blank
        cases blank
      -- The statements would have nothing but blanks between them.
      have one_line : newline ∉ source.slice u.stop t.start := by
        intro broken
        obtain ⟨j, above, below, broken⟩ := mem_slice.1 broken
        exact plain j (by omega) below broken
      obtain ⟨d, listed, spacing⟩ := w.separated u hu t ht apart one_line
      obtain ⟨j, above, below, there⟩ := mem_slice.1 listed
      have blank := blanks j d (by omega) below there
      rw [isSpacing, blank] at spacing
      cases spacing

/-! ## The text around a mark -/

/-- The text before a mark. -/
def front (source : Text) (before : List Mark) (m : Mark) : Text :=
  woven source 0 (before.map (edit source)) (m.offset source)

/-- The text behind a mark. -/
def back (source : Text) (m : Mark) (after : List Mark) : Text :=
  woven source (m.offset source) (after.map (edit source)) source.length

/-- The text behind a mark starts with the source, up to the marks behind. -/
private theorem exists_back_eq {high : Nat} (above : m.offset source ≤ high)
    (inside : high ≤ source.length) (far : ∀ n ∈ after, high ≤ n.offset source) :
    ∃ rest, back source m after = source.slice (m.offset source) high ++ rest := by
  refine exists_woven_eq_slice_append above inside fun e he => ?_
  obtain ⟨n, hn, rfl⟩ := List.mem_map.1 he
  exact far n hn

section

variable (w : Wrappable source statements)

include w

private theorem inserted_split (split : sorted source statements = before ++ m :: after) :
    Inserted source.length 0
      (before.map (edit source) ++ m.edit source :: after.map (edit source)) := by
  have inserted := w.inserted_sorted
  rwa [split, List.map_append, List.map_cons] at inserted

/-- The text before a mark ends with the source, down to the marks before. -/
private theorem exists_front_eq (split : sorted source statements = before ++ m :: after)
    (low : Nat) (below : low ≤ m.offset source) (far : ∀ n ∈ before, n.offset source ≤ low) :
    ∃ start, front source before m = start ++ source.slice low (m.offset source) := by
  refine exists_woven_eq_append (Nat.zero_le _) below
    (inserted_append (w.inserted_split split)).1 fun e he => ?_
  obtain ⟨n, hn, rfl⟩ := List.mem_map.1 he
  exact far n hn

/-- An opening mark on a line of its own has a line break before it, or nothing. -/
private theorem front_opening_of_first
    (split : sorted source statements = before ++ opening t :: after)
    (first : source.isFirstOnLine t.start = true) :
    front source before (opening t) = [] ∨
      (front source before (opening t)).getLast? = some newline := by
  obtain ⟨ht, earlier, -⟩ := w.around split
  -- The marks before this one were put in earlier in the source.
  have low : ∀ n ∈ before, n.offset source < (opening t).offset source :=
    fun n hn => w.offset_lt_opening (opening_mem_both.1 ht) (earlier n hn).1 (earlier n hn).2.2
  have eq : (opening t).offset source = source.lineStart t.start := by
    rw [offset, edit_opening_of_first first]
  have begins := (startsLine_lineStart source t.start).2.1
  by_cases zero : source.lineStart t.start = 0
  · left
    cases before with
    | nil =>
      unfold front
      rw [eq, zero]
      rfl
    | cons n before =>
      have := low n List.mem_cons_self
      omega
  · right
    obtain ⟨start, split⟩ := w.exists_front_eq split (source.lineStart t.start - 1) (by omega)
      fun n hn => by
        have := low n hn
        omega
    have last := slice_succ (begins.resolve_left zero)
    rw [show source.lineStart t.start - 1 + 1 = source.lineStart t.start by omega] at last
    rw [split, eq, last, List.getLast?_concat]

/-- An opening mark behind code has that before it, and blanks. -/
private theorem front_opening_of_not_first
    (split : sorted source statements = before ++ opening t :: after)
    (first : source.isFirstOnLine t.start = false) :
    ∃ start b spacing, front source before (opening t) = start ++ b :: spacing ∧
      isBlank b = false ∧ b ≠ newline ∧ ∀ b ∈ spacing, isBlank b := by
  obtain ⟨ht, earlier, -⟩ := w.around split
  obtain ⟨k, b, low, high, here, solid, blanks⟩ := exists_last_of_not_isFirstOnLine first
  have unbroken : b ≠ newline := by
    rintro rfl
    exact (startsLine_lineStart source t.start).2.2 k low high here
  have eq : (opening t).offset source = t.start := by
    rw [offset, edit_opening_of_not_first first]
  -- Marks between the last code and the statement would stand in blanks, where none is put.
  have far : ∀ n ∈ before, n.offset source ≤ k := by
    intro n hn
    obtain ⟨listed, -, precedes⟩ := earlier n hn
    have := w.offset_lt_opening (opening_mem_both.1 ht) listed precedes
    exact w.offset_le_of_blanks (opening_mem_both.1 ht) here unbroken blanks listed precedes
      (by omega)
  obtain ⟨start, split⟩ := w.exists_front_eq split k (by omega) far
  refine ⟨start, b, source.slice (k + 1) t.start, ?_, solid, unbroken, fun c hc => ?_⟩
  · rw [split, eq, slice_split source (Nat.le_succ k) high, slice_succ here]
    rfl
  · obtain ⟨j, above, below, there⟩ := mem_slice.1 hc
    exact blanks j c above below there

/-- An opening mark behind code has its statement behind it. -/
private theorem back_opening_of_not_first
    (split : sorted source statements = before ++ opening t :: after)
    (first : source.isFirstOnLine t.start = false) :
    ∃ b, (back source (opening t) after).head? = some b ∧ isBlank b = false := by
  obtain ⟨ht, -, later⟩ := w.around split
  have ht' := opening_mem_both.1 ht
  have inside := w.inside t ht'
  have eq : (opening t).offset source = t.start := by
    rw [offset, edit_opening_of_not_first first]
  have above : (opening t).offset source ≤ t.start + 1 := by omega
  -- The next mark comes behind the first byte of the statement.
  have far : ∀ n ∈ after, t.start + 1 ≤ n.offset source := by
    intro n hn
    have := w.opening_lt_offset ht' (later n hn).1 (later n hn).2
    omega
  obtain ⟨rest, split⟩ := exists_back_eq above (by omega) far
  obtain ⟨b, here, solid, -⟩ := w.start_solid ht'
  refine ⟨b, ?_, solid⟩
  rw [split, eq, slice_succ here]
  rfl

/-- A closing mark on a line of its own has a line break behind it, or nothing. -/
private theorem back_closing_of_trivia
    (split : sorted source statements = before ++ closing t :: after)
    (trivia : source.restIsTrivia t.stop = true) :
    back source (closing t) after = [] ∨ (back source (closing t) after).head? = some newline := by
  obtain ⟨ht, -, later⟩ := w.around split
  have ht' := closing_mem_both.1 ht
  have eq : (closing t).offset source = source.lineEnd t.stop := by
    rw [offset, edit_closing_of_trivia trivia]
  obtain ⟨-, -, last, -⟩ := endsLine_lineEnd (w.inside t ht').2
  have rest := (inserted_append (w.inserted_split split)).2.2.2.2.2
  unfold back
  rw [eq]
  cases after with
  | nil =>
    rw [List.map_nil, woven]
    rcases last with ends | broken
    · left
      rw [ends, slice, Nat.sub_self, List.take_zero]
    · right
      rw [head?_slice _ (List.getElem?_eq_some_iff.1 broken).1, broken]
  | cons n after =>
    obtain ⟨hn, precedes⟩ := later n List.mem_cons_self
    obtain ⟨⟨low, high⟩, -⟩ := rest
    right
    rw [List.map_cons, woven]
    by_cases same : n.offset source = source.lineEnd t.stop
    · rw [offset] at same
      rw [same, slice, Nat.sub_self, List.take_zero, List.nil_append]
      -- What else is inserted at the end of a line is a closing mark on a line of its own.
      cases n with
      | opening u =>
        have := w.offset_closing_lt ht' (opening_mem_both.1 hn) precedes
        rw [eq, ← same] at this
        exact absurd this (Nat.lt_irrefl _)
      | closing u =>
        have trivia' : source.restIsTrivia u.stop = true := by
          by_contra code
          rw [edit_closing_of_not_trivia (Bool.eq_false_iff.2 code)] at same
          have ends := restIsTrivia_lineEnd (w.inside t ht').2
          rw [← same] at ends
          exact code ends
        rw [edit_closing_of_trivia trivia']
        rfl
    · have less : source.lineEnd t.stop < (n.edit source).start := by
        rw [offset] at same eq
        omega
      rw [List.append_assoc, List.head?_append, head?_slice _ less, last.resolve_left (by omega)]
      rfl

/-- A closing mark before code has its statement before it. -/
private theorem front_closing_of_not_trivia
    (split : sorted source statements = before ++ closing t :: after)
    (trivia : source.restIsTrivia t.stop = false) :
    ∃ start b, front source before (closing t) = start ++ [b] ∧ isBlank b = false ∧
      b ≠ newline := by
  obtain ⟨ht, earlier, -⟩ := w.around split
  have ht' := closing_mem_both.1 ht
  have size := (w.inside t ht').1
  have eq : (closing t).offset source = t.stop := by
    rw [offset, edit_closing_of_not_trivia trivia]
  obtain ⟨b, here, solid, unbroken⟩ := w.stop_solid ht'
  -- All other marks come before the last byte of the statement.
  obtain ⟨start, split⟩ := w.exists_front_eq split (t.stop - 1) (by omega) fun n hn => by
    obtain ⟨listed, other, precedes⟩ := earlier n hn
    have := w.offset_lt_closing ht' trivia listed other precedes
    omega
  refine ⟨start, b, ?_, solid, unbroken⟩
  have last := slice_succ here
  rw [show t.stop - 1 + 1 = t.stop by omega] at last
  rw [split, eq, last]

/-- The marks of such statements stand as their layouts have them. -/
theorem stands (split : sorted source statements = before ++ m :: after) :
    m.stands source (front source before m) (back source m after) := by
  -- The cases are those of the layout, and the neighbours of the mark are as that needs.
  cases m with
  | opening t =>
    cases first : source.isFirstOnLine t.start with
    | true => simpa [Mark.stands, first] using w.front_opening_of_first split first
    | false =>
      obtain ⟨start, b, spacing, eq, solid, unbroken, spaced⟩ :=
        w.front_opening_of_not_first split first
      obtain ⟨c, head, code⟩ := w.back_opening_of_not_first split first
      have behind := isFirstOnLine_append_false start spacing [] solid unbroken spaced
      rw [List.append_nil, ← eq] at behind
      simp [Mark.stands, first, behind, head, code]
  | closing t =>
    cases trivia : source.restIsTrivia t.stop with
    | true => simpa [Mark.stands, trivia] using w.back_closing_of_trivia split trivia
    | false =>
      obtain ⟨start, b, eq, solid, unbroken⟩ := w.front_closing_of_not_trivia split trivia
      simp [Mark.stands, trivia, eq, solid, unbroken]

/-- Where the mark of an insertion stands. -/
private theorem exists_split_of_mem_zip {place : Nat × Edit}
    (listed : (m, place) ∈ (sorted source statements).zip
      (places 0 0 ((sorted source statements).map (edit source)))) :
    ∃ before after, sorted source statements = before ++ m :: after ∧
      place = ((front source before m).length, m.edit source) := by
  obtain ⟨i, here⟩ := List.mem_iff_getElem?.1 listed
  obtain ⟨mark, found⟩ := List.getElem?_zip_eq_some.1 here
  obtain ⟨inside, rfl⟩ := List.getElem?_eq_some_iff.1 mark
  have split : sorted source statements = (sorted source statements).take i ++
      (sorted source statements)[i] :: (sorted source statements).drop (i + 1) := by
    rw [← List.drop_eq_getElem_cons inside, List.take_append_drop]
  refine ⟨_, _, split, ?_⟩
  have placed := places_append (w.inserted_split split) (Nat.le_refl _) 0
  rw [← List.map_cons, ← List.map_append, ← split] at placed
  -- There is a place for each mark before it, so the places agree by their index.
  have size : (places 0 0 (((sorted source statements).take i).map (edit source))).length = i := by
    rw [length_places, List.length_map, List.length_take, Nat.min_eq_left (Nat.le_of_lt inside)]
  rw [placed, List.getElem?_append_right (by omega), size, Nat.sub_self,
    List.getElem?_cons_zero, Nat.zero_add] at found
  exact (Option.some.inj found).symm

end

end Wrappable

/-! ## Unwrapping -/

namespace Removal

open Mark Insertions

/-- What was inserted for a mark fills a range of a text, and the source around it was copied to
both sides. -/
structure InsertedFor (source : Text) (r : Rendered) (m : Mark) (range : Range) : Prop where
  text : r.text.slice range.start range.stop = (m.edit source).text
  around : ∀ position offset, r.sourceOffset? position = some offset →
    (position < range.start ∧ offset < m.offset source) ∨
      (range.stop ≤ position ∧ m.offset source ≤ offset)

/-- What is removed for a pair of comments was inserted for a statement. -/
def PairOf (source : Text) (r : Rendered) (t : Tree) (pair : Trivia × Trivia) : Prop :=
  InsertedFor source r (opening t) (openingRange r.text pair.1) ∧
    InsertedFor source r (closing t) (closingRange r.text pair.2)

/-- What is removed for pairs of comments. -/
def removals (text : Text) (pairs : List (Trivia × Trivia)) : List Splice :=
  pairs.flatMap fun pair =>
    [(openingRange text pair.1).removal, (closingRange text pair.2).removal]

/-- The comment in a text that was inserted. -/
def commentFor (text : Text) (place : Nat × Edit) : Trivia :=
  commentAt text (place.1 + margin (text.slice place.1 (place.1 + place.2.text.length)))

variable {source : Text} {statements : List Tree} {r : Rendered}

/-- The comment of a mark is a marker, and what is removed for it was inserted for the mark. -/
private theorem insertedFor_commentFor (w : Wrappable source statements)
    (rendered : Buffer.sweep source 0 ⟨[], []⟩ ((sorted source statements).map (edit source)) =
      .ok r)
    (text : r.text = woven source 0 ((sorted source statements).map (edit source)) source.length)
    (m : Mark) (place : Nat × Edit) (listed : (m, place) ∈ (sorted source statements).zip
      (places 0 0 ((sorted source statements).map (edit source)))) :
    (commentFor r.text place).marker = some m.marker ∧
      (m.range r.text (commentFor r.text place)).removal = removal place ∧
      InsertedFor source r m (m.range r.text (commentFor r.text place)) := by
  obtain ⟨before, after, split, rfl⟩ := w.exists_split_of_mem_zip listed
  have inserted := w.inserted_split split
  rw [split, List.map_append, List.map_cons] at rendered text
  rw [woven_append] at text
  -- The mark's text stands between what was written before it and behind it.
  have cut : r.text.slice (Wrappable.front source before m).length
      ((Wrappable.front source before m).length + (m.edit source).text.length) =
        (m.edit source).text := by
    rw [text]
    exact slice_append_append _ _ _
  have comment : commentFor r.text ((Wrappable.front source before m).length, m.edit source) =
      commentAt r.text
        ((Wrappable.front source before m).length + margin (m.edit source).text) := by
    rw [commentFor, cut]
  obtain ⟨marker, range⟩ := Mark.range_of_stands (w.stands split) text comment
  refine ⟨marker, by rw [range]; rfl, ?_, fun position offset found => ?_⟩
  · rw [range]
    exact cut
  · rw [range]
    exact sourceOffset?_around rendered inserted found

/-- The inserted comments are those of the marks, in their order. -/
private theorem exists_marked (w : Wrappable source statements)
    (rendered : Buffer.sweep source 0 ⟨[], []⟩ ((sorted source statements).map (edit source)) =
      .ok r)
    (text : r.text = woven source 0 ((sorted source statements).map (edit source)) source.length)
    (segments : r.segments.filter (·.origin.isNone) =
      (places 0 0 ((sorted source statements).map (edit source))).map segment) :
    ∃ marked : List (Mark × Trivia), marked.map Prod.fst = sorted source statements ∧
      marked.map Prod.snd = r.insertedComments ∧
      (∀ p ∈ marked, p.2.marker = some p.1.marker ∧
        InsertedFor source r p.1 (p.1.range r.text p.2)) ∧
      marked.map (fun p => (p.1.range r.text p.2).removal) =
        (places 0 0 ((sorted source statements).map (edit source))).map removal := by
  have found := insertedFor_commentFor w rendered text
  generalize spots : places 0 0 ((sorted source statements).map (edit source)) = placed at *
  have size : (sorted source statements).length = placed.length := by
    rw [← spots, length_places, List.length_map]
  -- Every mark has one place, so the lists can be taken together.
  have behind : ((sorted source statements).zip placed).map Prod.snd = placed :=
    List.map_snd_zip (Nat.le_of_eq size.symm)
  refine ⟨((sorted source statements).zip placed).map fun p => (p.1, commentFor r.text p.2),
    ?_, ?_, ?_, ?_⟩
  · rw [List.map_map]
    exact List.map_fst_zip (Nat.le_of_eq size)
  · unfold insertedComments
    rw [segments, List.map_map, List.map_map]
    nth_rewrite 2 [← behind]
    rw [List.map_map]
    rfl
  · intro p hp
    obtain ⟨⟨m, place⟩, listed, rfl⟩ := List.mem_map.1 hp
    obtain ⟨marker, -, inserted⟩ := found m place listed
    exact ⟨marker, inserted⟩
  · nth_rewrite 2 [← behind]
    rw [List.map_map, List.map_map]
    exact List.map_congr_left fun p hp => (found p.1 p.2 hp).2.1

theorem removals_map_snd (text : Text) (paired : List (Tree × Trivia × Trivia)) :
    removals text (paired.map Prod.snd) =
      (unpaired paired).map fun p => (p.1.range text p.2).removal := by
  unfold removals unpaired
  rw [List.flatMap_map, List.map_flatMap]
  rfl

/-- Wrapped statements can be unwrapped exactly: the inserted comments are paired statement by
statement, and removing them gives the source. -/
theorem unwrap_wrapAll {s : Scene} (w : Wrappable s.file.source statements) :
    ∃ r, (Draft.wrapAll s statements).buffer.render = .ok r ∧
      List.Forall₂ (PairOf s.file.source r) statements (pairMarkers (r.asFile s.file) .startWrap) ∧
      Splice.applyAll r.text (removals r.text (pairMarkers (r.asFile s.file) .startWrap)) =
        s.file.source := by
  have same : ∀ r : Rendered, pairMarkers (r.asFile s.file) .startWrap =
      pairs .startWrap .endWrap [] r.insertedComments := fun _ => rfl
  simp only [same]
  have render := Draft.render_wrapAll w
  generalize s.file.source = source at w render ⊢
  have inserted := w.inserted_sorted
  obtain ⟨r, done, text, segments⟩ := sweep_eq inserted ⟨[], []⟩
  rw [List.nil_append] at text
  obtain ⟨marked, marks, comments, each, removed⟩ := exists_marked w done text segments
  -- The marks nest like the statements, so pairing them finds the statements again.
  have balanced : Balanced (([] : List (Tree × Trivia)).map Prod.fst) (marked.map Prod.fst) := by
    rw [marks]
    exact w.balanced_sorted
  obtain ⟨paired, pairs_eq, order, all⟩ := pairs_of_balanced (fun p hp => (each p hp).1) balanced
  rw [List.map_nil, comments] at pairs_eq
  rw [marks, w.closed_sorted] at order
  rw [List.map_nil, List.nil_append] at all
  refine ⟨r, render.trans done, ?_, ?_⟩
  · rw [pairs_eq, ← order, List.forall₂_map_left_iff, List.forall₂_map_right_iff,
      List.forall₂_same]
    intro p hp
    -- Both comments of a pair are those that its statement got.
    have here : ∀ q ∈ [(opening p.1, p.2.1), (closing p.1, p.2.2)],
        InsertedFor source r q.1 (q.1.range r.text q.2) :=
      fun q hq => (each q (all.subset (List.mem_flatMap.2 ⟨p, hp, hq⟩))).2
    exact ⟨here (opening p.1, p.2.1) (by simp), here (closing p.1, p.2.2) (by simp)⟩
  · rw [pairs_eq, removals_map_snd, text]
    refine applyAll_places inserted ?_
    rw [← text, ← removed]
    exact all.map _

/-- A file of which nothing but the text is known. -/
def plainScene (source : Text) : Scene where
  file := ⟨"m.go", "m.go", 1, source, .node .sourceFile none 0 source.length [], ⟨[], [], []⟩, "p"⟩
  index := 0
  types := ⟨"m", "p", ⟨1, 0⟩, .empty, []⟩
  package := ⟨"m", "p", false, .empty⟩

/-- A statement of which nothing but the range is known. -/
def plainStatement (start stop : Nat) : Tree :=
  .node .expressionStatement none start stop []

/-- Two statements side by side in a third one with a comment behind it, and one on the line
below. -/
def plainStatements : List Tree :=
  [plainStatement 7 10, plainStatement 12 15, plainStatement 0 17, plainStatement 24 27]

theorem unwrap_wrapAll_nested :
    let s := plainScene "if x \x7b f(); g() \x7d // z\n\th()\n"
    ∃ r, (Draft.wrapAll s plainStatements).buffer.render = .ok r ∧
      List.Forall₂ (PairOf s.file.source r) plainStatements
        (pairMarkers (r.asFile s.file) .startWrap) ∧
      Splice.applyAll r.text (removals r.text (pairMarkers (r.asFile s.file) .startWrap)) =
        s.file.source :=
  unwrap_wrapAll ⟨by decide, by decide, by decide, by decide, by decide⟩

end Removal

end Interlace
