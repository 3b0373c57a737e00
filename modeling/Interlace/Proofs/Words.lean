import Interlace.Proofs.Decimals
import Interlace.Proofs.WhiteSpace
import Interlace.Text.Lines

/-!
# Words and lines

White space cuts a text into words, wherever it stands and however much of it there is. So the
words of a text are those before white space and those behind it, and trimming does not change
them, nor does a carriage return at the end of a line.

## Key results

- `Text.words_append`: the words of a text are those before white space and those behind it
- `Text.words_trimEnd`: trimming does not change the words
- `Text.exists_of_head?_words`: the first word stands behind white space and before the end or more
  white space
- `Text.lines_append_newline`: the lines of a text are those before a line break and those behind it
-/

namespace Interlace.Text

variable {b : UInt8} {s t : Text}

/-! ## Texts without white space -/

/-- White space starts nowhere in the text. -/
def Solid (t : Text) : Prop :=
  ∀ s ∈ t.tails, whiteWidth s = 0

instance (t : Text) : Decidable t.Solid :=
  inferInstanceAs (Decidable (∀ s ∈ t.tails, whiteWidth s = 0))

private theorem solid_nil : Solid [] := by
  decide

theorem solid_cons_iff : Solid (b :: t) ↔ whiteWidth (b :: t) = 0 ∧ t.Solid := by
  simp [Solid]

theorem Solid.suffix (h : (s ++ t).Solid) : t.Solid := by
  induction s with
  | nil => exact h
  | cons b s ih => exact ih (solid_cons_iff.1 h).2

theorem Solid.starts (h : t.Solid) : whiteWidth t = 0 :=
  h t (by simp)

/-- Behind ASCII without white space, white space starts only in what follows. -/
theorem Solid.append_ascii (h : s.Solid) (ascii : ∀ b ∈ s, b < 0x80) (ht : t.Solid) :
    (s ++ t).Solid := by
  induction s with
  | nil => exact ht
  | cons b s ih =>
    obtain ⟨here, later⟩ := solid_cons_iff.1 h
    obtain ⟨low, others⟩ := List.forall_mem_cons.1 ascii
    rw [whiteWidth_of_ascii low] at here
    exact solid_cons_iff.2 ⟨(whiteWidth_of_ascii low _).trans here, ih later others⟩

theorem solid_of_isVisible (h : ∀ b ∈ t, isVisible b) : t.Solid := by
  induction t with
  | nil => exact solid_nil
  | cons b t ih =>
    obtain ⟨first, others⟩ := List.forall_mem_cons.1 h
    exact solid_cons_iff.2 ⟨whiteWidth_of_isVisible first t, ih others⟩

/-- A byte of white space in ASCII does not stand in a text without white space. -/
theorem Solid.not_mem (h : t.Solid) (white : whiteWidth [b] ≠ 0) : b ∉ t := by
  intro hb
  obtain ⟨front, back, rfl⟩ := List.append_of_mem hb
  have here := h.suffix.starts
  rw [← List.singleton_append, (whiteWidth_append white back).1] at here
  exact white here

/-! ## Pieces -/

private theorem piecesFrom_ne_nil (skip : Nat) (t : Text) : piecesFrom skip t ≠ [] := by
  induction t generalizing skip with
  | nil => cases skip <;> exact List.cons_ne_nil _ _
  | cons b t ih =>
    cases skip with
    | succ skip => exact ih skip
    | zero =>
      rw [piecesFrom]
      split
      · split <;> exact List.cons_ne_nil _ _
      · exact List.cons_ne_nil _ _

/-- The pieces around white space are those before it and those behind it. -/
private theorem piecesFrom_append {skip : Nat} (within : skip ≤ s.length) {width : Nat}
    (white : whiteWidth (b :: t) = width + 1) :
    piecesFrom skip (s ++ b :: t) = piecesFrom skip s ++ piecesFrom width t := by
  induction s generalizing skip with
  | nil =>
    cases Nat.le_zero.1 within
    rw [List.nil_append]
    conv_lhs => rw [piecesFrom, white]
    rfl
  | cons c s ih =>
    cases skip with
    | succ skip => exact ih (Nat.le_of_succ_le_succ within)
    | zero =>
      rw [List.cons_append, piecesFrom, piecesFrom]
      cases first : whiteWidth (c :: s) with
      | zero =>
        have still : whiteWidth (c :: s ++ b :: t) = 0 :=
          whiteWidth_append_of_white first (List.cons_ne_nil c s) (by omega)
        rw [List.cons_append] at still
        -- There is a piece in progress before the white space, and the byte goes in front of it.
        obtain ⟨piece, pieces, split⟩ := List.exists_cons_of_ne_nil (piecesFrom_ne_nil 0 s)
        rw [still, ih (Nat.zero_le _), split]
        rfl
      | succ more =>
        -- White space that starts before the cut ends before it as well.
        obtain ⟨same, inside⟩ := whiteWidth_append (by omega : whiteWidth (c :: s) ≠ 0) (b :: t)
        rw [List.cons_append, first] at same
        rw [first, List.length_cons] at inside
        rw [same]
        dsimp only
        rw [ih (by omega), List.cons_append]

private theorem piecesFrom_of_solid (h : t.Solid) : piecesFrom 0 t = [t] := by
  induction t with
  | nil => rfl
  | cons b t ih =>
    obtain ⟨first, others⟩ := solid_cons_iff.1 h
    rw [piecesFrom, first, ih others]

/-- Passing over white space passes over no words. -/
private theorem words_skipped (skip : Nat) (t : Text) :
    (piecesFrom skip t).filter (· ≠ []) = words (dropWhite skip t) := by
  induction t generalizing skip with
  | nil => cases skip <;> rfl
  | cons b t ih =>
    cases skip with
    | succ skip => exact ih skip
    | zero =>
      rw [dropWhite]
      split
      · rfl
      · rename_i width white
        rw [piecesFrom, white, List.filter_cons_of_neg (by simp), ih]

/-! ## Words -/

private theorem words_trimStart (t : Text) : words (trimStart t) = words t :=
  (words_skipped 0 t).symm

theorem words_of_solid (h : t.Solid) (given : t ≠ []) : words t = [t] := by
  rw [words, piecesFrom_of_solid h]
  simp [given]

/-- The words of a text are those before white space and those behind it. -/
theorem words_append (ends : EndsWord t) (s : Text) : words (s ++ t) = words s ++ words t := by
  cases t with
  | nil => simp [words, piecesFrom]
  | cons b t =>
    obtain ⟨width, wide⟩ := Nat.exists_eq_succ_of_ne_zero
      (ends.resolve_left (List.cons_ne_nil b t))
    rw [words, piecesFrom_append (Nat.zero_le _) wide, List.filter_append, words_skipped width t,
      ← words, ← words_trimStart (b :: t), trimStart, dropWhite, wide]

/-- One byte of white space parts words. -/
theorem words_append_cons (white : whiteWidth (b :: t) = 1) (s : Text) :
    words (s ++ b :: t) = words s ++ words t := by
  rw [words, piecesFrom_append (Nat.zero_le _) white, List.filter_append]
  rfl

private theorem words_append_of_blank (blank : trimStart t = []) (s : Text) :
    words (s ++ t) = words s := by
  rw [words_append (endsWord_of_blank blank), ← words_trimStart t, blank]
  exact List.append_nil _

/-- Trimming does not change the words. -/
theorem words_trimEnd (t : Text) : words (trimEnd t) = words t := by
  obtain ⟨white, whole, blank⟩ := exists_eq_trimEnd_append t
  conv_rhs => rw [whole, words_append_of_blank blank]

/-! ## Words at the start -/

/-- Trimming leaves a text without white space that the text starts with. -/
theorem exists_trimEnd_append (solid : s.Solid) (ends : EndsWord t) :
    ∃ front, trimEnd (s ++ t) = s ++ front ∧ front <+: t := by
  obtain ⟨white, whole, blank⟩ := exists_eq_trimEnd_append (s ++ t)
  rcases List.append_eq_append_iff.1 whole with ⟨front, left, rest⟩ | ⟨back, left, rest⟩
  · exact ⟨front, left, white, rest.symm⟩
  · cases back with
    | nil =>
      rw [List.append_nil] at left
      exact ⟨[], by rw [← left, List.append_nil], List.nil_prefix⟩
    | cons c back =>
      -- What is trimmed off would start inside of the text, and there with white space.
      have inside : whiteWidth (c :: back) = 0 := (left ▸ solid).suffix.starts
      have start : whiteWidth (c :: back ++ t) = 0 := by
        rcases ends with rfl | behind
        · rwa [List.append_nil]
        · exact whiteWidth_append_of_white inside (List.cons_ne_nil c back) behind
      rw [rest, trimStart_eq_self start] at blank
      cases blank

theorem Solid.trimEnd (solid : t.Solid) : trimEnd t = t := by
  obtain ⟨front, trimmed, nothing⟩ := exists_trimEnd_append solid (t := []) (.inl rfl)
  rwa [List.prefix_nil.1 nothing, List.append_nil] at trimmed

/-- A text without white space is what is left of it and white space behind it. -/
theorem Solid.trim_append (solid : s.Solid) (blank : trimStart t = []) : trim (s ++ t) = s := by
  by_cases given : s = []
  · rw [given, List.nil_append, trim, blank]
    rfl
  · have start : trimStart s = s := trimStart_eq_self solid.starts
    have still : trimStart (s ++ t) = s ++ t := by
      have ends := endsWord_of_blank blank
      rw [trimStart, dropWhite_append_of_endsWord (by rwa [← trimStart, start]) ends, ← trimStart,
        start]
    rw [trim, still, trimEnd_append_of_blank blank, solid.trimEnd]

theorem Solid.trim (solid : t.Solid) : trim t = t := by
  have := solid.trim_append (t := []) rfl
  rwa [List.append_nil] at this

private theorem exists_first_piece (t : Text) :
    ∃ piece pieces rest, piecesFrom 0 t = piece :: pieces ∧
    t = piece ++ rest ∧ piece.Solid ∧ EndsWord rest := by
  induction t with
  | nil => exact ⟨[], [], [], rfl, rfl, solid_nil, .inl rfl⟩
  | cons b t ih =>
    rw [piecesFrom]
    split
    · rename_i first
      obtain ⟨piece, pieces, rest, split, rfl, solid, ends⟩ := ih
      rw [split]
      refine ⟨b :: piece, pieces, rest, rfl, rfl, solid_cons_iff.2 ⟨?_, solid⟩, ends⟩
      -- White space in the piece would be white space in the text.
      by_contra white
      rw [← List.cons_append, (whiteWidth_append white rest).1] at first
      exact white first
    · rename_i width white
      exact ⟨[], _, b :: t, rfl, rfl, solid_nil, .inr (by omega)⟩

/-- The first word stands behind white space, and before more of it or the end. -/
theorem exists_of_head?_words {w : Text} (h : (words t).head? = some w) :
    ∃ rest, trimStart t = w ++ rest ∧ w ≠ [] ∧ w.Solid ∧ EndsWord rest := by
  obtain ⟨piece, pieces, rest, split, whole, solid, ends⟩ := exists_first_piece (trimStart t)
  have given : piece ≠ [] := by
    rintro rfl
    -- The text starts with white space no longer, so there is nothing left.
    have start := whiteWidth_trimStart t
    rw [whole, List.nil_append] at start
    have bare := ends.resolve_right (not_not.2 start)
    rw [← words_trimStart, whole, bare] at h
    cases h
  rw [← words_trimStart, words, split, List.filter_cons_of_pos (by simpa using given)] at h
  cases h
  exact ⟨rest, whole, given, solid, ends⟩

/-! ## Lines -/

/-- The line without the carriage return that it may end in. -/
def dropReturn (line : Text) : Text :=
  (stripSuffix? [0x0D] line).getD line

private theorem dropReturn_concat (front : Text) (b : UInt8) :
    dropReturn (front ++ [b]) = if b = 0x0D then front else front ++ [b] := by
  split
  · rename_i last
    rw [dropReturn, stripSuffix?_eq_some_iff.2 (congrArg (front ++ [·]) last), Option.getD_some]
  · rename_i other
    have kept : stripSuffix? [0x0D] (front ++ [b]) = none := by
      refine Option.eq_none_iff_forall_ne_some.2 fun rest stripped => other ?_
      have whole := stripSuffix?_eq_some_iff.1 stripped
      exact (List.cons.inj (List.append_inj' whole rfl).2).1
    rw [dropReturn, kept, Option.getD_none]

theorem dropReturn_append (other : s.getLast? ≠ some 0x0D) (t : Text) :
    dropReturn (s ++ t) = s ++ dropReturn t := by
  rcases List.eq_nil_or_concat t with rfl | ⟨front, b, rfl⟩
  · have own : dropReturn [] = [] := rfl
    rw [own, List.append_nil]
    rcases List.eq_nil_or_concat s with rfl | ⟨start, c, rfl⟩
    · rfl
    · rw [List.concat_eq_append, List.getLast?_concat] at other
      rw [List.concat_eq_append, dropReturn_concat, if_neg fun same => other (congrArg some same)]
  · rw [List.concat_eq_append, ← List.append_assoc, dropReturn_concat, dropReturn_concat]
    split
    · rfl
    · rw [List.append_assoc]

theorem exists_eq_dropReturn_append (line : Text) :
    ∃ white, line = dropReturn line ++ white ∧ trimStart white = [] := by
  rcases List.eq_nil_or_concat line with rfl | ⟨front, b, rfl⟩
  · exact ⟨[], rfl, rfl⟩
  · rw [List.concat_eq_append, dropReturn_concat]
    split
    · rename_i last
      exact ⟨[b], rfl, by rw [last]; decide⟩
    · exact ⟨[], (List.append_nil _).symm, rfl⟩

/-- A carriage return at the end of a line is white space. -/
theorem words_dropReturn (line : Text) : words (dropReturn line) = words line := by
  obtain ⟨white, whole, blank⟩ := exists_eq_dropReturn_append line
  conv_rhs => rw [whole, words_append_of_blank blank]

theorem trimEnd_dropReturn (line : Text) : trimEnd (dropReturn line) = trimEnd line := by
  obtain ⟨white, whole, blank⟩ := exists_eq_dropReturn_append line
  conv_rhs => rw [whole, trimEnd_append_of_blank blank]

private theorem splitWhere_unbroken {line : Text} (one_line : newline ∉ line) :
    splitWhere (· = newline) line = [line] :=
  splitWhere_of_uncut fun _ hc => decide_eq_false fun same => one_line (same ▸ hc)

theorem splitWhere_line {line : Text} (one_line : newline ∉ line) (rest : Text) :
    splitWhere (· = newline) (line ++ newline :: rest) =
      line :: splitWhere (· = newline) rest :=
  splitWhere_append (fun _ hc => decide_eq_false fun same => one_line (same ▸ hc)) rfl

/-- The lines of a text are those before a line break and those behind it. -/
theorem lines_append_newline (s t : Text) :
    lines (s ++ newline :: t) = (splitWhere (· = newline) s).map dropReturn ++ lines t := by
  obtain ⟨pieces, last, split⟩ := (List.eq_nil_or_concat (splitWhere (· = newline) t)).resolve_left
    (splitWhere_ne_nil _ t)
  have behind (front : List Text) : front ++ pieces.concat last = (front ++ pieces) ++ [last] := by
    rw [List.concat_eq_append, List.append_assoc]
  unfold lines
  rw [splitWhere_append_cons (by decide), split, behind, ← List.nil_append (pieces.concat last),
    behind]
  simp only [List.getLast?_concat, List.dropLast_concat, List.nil_append, List.map_append]
  cases last with
  | nil => rfl
  | cons b last => exact List.append_assoc ..

theorem lines_line {line : Text} (one_line : newline ∉ line) (rest : Text) :
    lines (line ++ newline :: rest) = dropReturn line :: lines rest := by
  rw [lines_append_newline, splitWhere_unbroken one_line]
  rfl

/-- The end of a text is a line unless it is empty. -/
theorem lines_last {line : Text} (one_line : newline ∉ line) :
    lines line = if line = [] then [] else [line] := by
  rw [lines, splitWhere_unbroken one_line]
  cases line <;> rfl

end Interlace.Text
