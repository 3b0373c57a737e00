import Interlace.Proofs.CharacterCuts
import Interlace.Proofs.MendedTexts

/-!
# Characters of names

Names are cut from a text in two ways: the grammar takes the characters that identifiers are made
of, and other readers take those that words are made of. Both stop at white space.

## Key results

- `Text.WellFormed.chars_append`: the characters of a text are those of its parts
- `Text.identifierRestWidth_of_white`: an identifier ends at white space
- `Text.wellFormed_take_identifierWidth`: an identifier is cut between characters
- `Text.takeWhile_chars_append`: a word ends where something else follows
-/

namespace Interlace.Text

variable {b : UInt8} {s t : Text}

/-! ## Characters of parts -/

/-- Where a text is counted from does not matter to what its characters are. -/
private theorem map_snd_charsFrom (i j skip : Nat) (t : Text) :
    (charsFrom i skip t).map Prod.snd = (charsFrom j skip t).map Prod.snd := by
  induction t generalizing i j skip with
  | nil => rfl
  | cons b t ih =>
    cases skip with
    | succ skip => exact ih (i + 1) (j + 1) skip
    | zero =>
      rw [charsFrom, charsFrom]
      split <;> exact congrArg (List.cons _) (ih _ _ _)

private theorem charsFrom_append_of_firstIllFormed {i skip : Nat} (within : skip ≤ s.length)
    (h : firstIllFormed i skip s = none) (offset : Nat) (t : Text) :
    charsFrom offset skip (s ++ t) =
      charsFrom offset skip s ++ charsFrom (offset + s.length) 0 t := by
  induction s generalizing i offset skip with
  | nil =>
    cases Nat.le_zero.1 within
    rfl
  | cons b s ih =>
    have shift : offset + (b :: s).length = offset + 1 + s.length := by
      rw [List.length_cons, Nat.add_right_comm, Nat.add_assoc]
    cases skip with
    | succ skip =>
      rw [firstIllFormed] at h
      rw [List.cons_append, charsFrom, charsFrom, shift]
      exact ih (Nat.le_of_succ_le_succ within) h (offset + 1)
    | zero =>
      rw [firstIllFormed] at h
      split at h
      · -- A character that was read in the front is read there with more text behind it.
        rename_i point width read
        obtain ⟨same, inside⟩ := readPoint_append read t
        rw [List.cons_append, charsFrom, charsFrom, same, read, shift]
        exact congrArg (List.cons _) (ih (by omega) h (offset + 1))
      · cases h

/-- The characters of a text are those of its parts. -/
theorem WellFormed.chars_append (h : s.WellFormed) (t : Text) :
    chars (s ++ t) = chars s ++ chars t := by
  unfold chars charOffsets
  rw [charsFrom_append_of_firstIllFormed (Nat.zero_le _) h, List.map_append,
    map_snd_charsFrom (0 + s.length) 0]

/-- What ends a word starts with a whole character. -/
theorem startsWhole_of_endsWord (ends : EndsWord t) : WrapPattern.StartsWhole t := by
  rcases ends with rfl | white
  · nofun
  · obtain ⟨b, later, rest, rfl, -, whole, -⟩ := exists_white white
    rintro b ⟨⟩
    exact whole

/-! ## Identifiers -/

/-- An identifier ends where white space follows. -/
theorem identifierRestWidth_of_white (white : whiteWidth t ≠ 0) : identifierRestWidth 0 t = 0 := by
  cases t with
  | nil => rfl
  | cons b t =>
    obtain ⟨point, read, -, other⟩ := readPoint_of_white white
    rw [identifierRestWidth]
    split
    · rename_i found
      rw [found] at read
      cases read
      rw [if_neg (by simp [other])]
    · rfl

private theorem identifierRestWidth_skipped (s t : Text) :
    identifierRestWidth s.length (s ++ t) = identifierRestWidth 0 t + s.length := by
  induction s with
  | nil => rfl
  | cons b s ih =>
    rw [List.length_cons, List.cons_append, identifierRestWidth, ih]
    rfl

/-- A character and what is cut between characters behind it. -/
private theorem wellFormed_take_character {point width : Nat}
    (read : readPoint b t = (some point, width))
    (later : ∀ rest, rest <:+ t → WellFormed (rest.take (identifierRestWidth 0 rest))) :
    WellFormed ((b :: t).take (identifierRestWidth (width - 1) t + 1)) := by
  obtain ⟨tail, rest, rfl, rfl, -, -, alone⟩ := exists_of_readPoint read
  have character : WellFormed (b :: tail) := by
    have ended := firstIllFormed_skipped (0 + 1) tail []
    rw [List.append_nil] at ended
    rw [WellFormed, illFormedAt?, firstIllFormed, alone]
    exact ended
  rw [Nat.add_sub_cancel, identifierRestWidth_skipped, List.take_succ_cons, Nat.add_comm,
    List.take_length_add_append]
  exact character.append (later rest (List.suffix_append _ _))

/-- What continues an identifier is cut between characters. -/
private theorem wellFormed_take_identifierRestWidth (t : Text) :
    WellFormed (t.take (identifierRestWidth 0 t)) := by
  -- The induction is on the length, since a character takes several bytes at once.
  induction long : t.length using Nat.strongRecOn generalizing t with
  | _ n ih =>
    cases t with
    | nil => rfl
    | cons b t =>
      rw [identifierRestWidth]
      split
      · rename_i point width read
        split
        · refine wellFormed_take_character read fun rest part => ih rest.length ?_ rest rfl
          rw [← long, List.length_cons]
          exact Nat.lt_succ_of_le part.length_le
        · rfl
      · rfl

/-- An identifier is cut between characters. -/
theorem wellFormed_take_identifierWidth (t : Text) :
    WellFormed (t.take (identifierWidth t)) := by
  cases t with
  | nil => rfl
  | cons b t =>
    rw [identifierWidth]
    split
    · rename_i point width read
      split
      · exact wellFormed_take_character read fun rest _ => wellFormed_take_identifierRestWidth rest
      · rfl
    · rfl

/-! ## Words -/

/-- No character that words are made of starts the text. -/
def EndsName (t : Text) : Prop :=
  ∀ c ∈ (chars t).head?, isWordChar c = false

private theorem endsName_of_read {point : Nat} (read : (readPoint b t).1 = some point)
    (other : isWordChar (Char.ofNat point) = false) : EndsName (b :: t) := by
  intro c hc
  rw [chars, charOffsets, charsFrom] at hc
  split at hc
  · rename_i found
    rw [found] at read
    cases read
    cases hc
    exact other
  · rename_i found
    rw [found] at read
    cases read

theorem endsName_of_ascii (ascii : b < 0x80) (other : isWordChar (Char.ofNat b.toNat) = false) :
    EndsName (b :: t) :=
  endsName_of_read (by rw [readPoint, if_pos ascii]) other

theorem endsName_of_endsWord (ends : EndsWord t) : EndsName t := by
  rcases ends with rfl | white
  · nofun
  · cases t with
    | nil => exact absurd rfl white
    | cons b t =>
      obtain ⟨point, read, other, -⟩ := readPoint_of_white white
      exact endsName_of_read read other

/-- A word ends where something else follows. -/
theorem takeWhile_chars_append (hs : s.WellFormed) (ends : EndsName t) :
    (chars (s ++ t)).takeWhile isWordChar = (chars s).takeWhile isWordChar := by
  have none_behind : (chars t).takeWhile isWordChar = [] := by
    cases first : chars t with
    | nil => rfl
    | cons c cs =>
      exact List.takeWhile_cons_of_neg (by simp [ends c (by rw [first]; rfl)])
  rw [hs.chars_append, List.takeWhile_append, none_behind, List.append_nil]
  split
  · rename_i all
    exact ((List.takeWhile_prefix _).eq_of_length all).symm
  · rfl

/-- A word that is not empty starts with a character that is read to its end. -/
theorem exists_of_takeWhile_ne_nil (h : (chars t).takeWhile isWordChar ≠ []) :
    ∃ b rest point width, t = b :: rest ∧ readPoint b rest = (some point, width) ∧
      isWordChar (Char.ofNat point) := by
  cases t with
  | nil => exact absurd rfl h
  | cons b t =>
    rw [chars, charOffsets, charsFrom] at h
    split at h
    · rename_i point width read
      rw [List.map_cons, List.takeWhile_cons] at h
      split at h
      · rename_i word
        exact ⟨b, t, point, width, rfl, read, word⟩
      · exact absurd rfl h
    · rw [List.map_cons, List.takeWhile_cons_of_neg (by decide +kernel)] at h
      exact absurd rfl h

/-- All characters of a text are of a kind exactly if the front of that kind is the text. -/
theorem WellFormed.ofChars_takeWhile_eq_iff (h : t.WellFormed) (p : Char → Bool) :
    ofChars ((chars t).takeWhile p) = t ↔ ∀ c ∈ chars t, p c := by
  have whole : ofChars (chars t) = t := h.mended_eq
  constructor
  · intro same
    have parts : ofChars ((chars t).takeWhile p) ++ ofChars ((chars t).dropWhile p) = t := by
      rw [ofChars, ofChars, ← List.flatMap_append, List.takeWhile_append_dropWhile]
      exact whole
    -- What is behind the front has no bytes, so it has no characters.
    have nothing : ofChars ((chars t).dropWhile p) = [] :=
      List.append_right_eq_self.1 (parts.trans same.symm)
    have bare : (chars t).dropWhile p = [] := by
      cases left : (chars t).dropWhile p with
      | nil => rfl
      | cons c cs =>
        rw [left, ofChars, List.flatMap_cons] at nothing
        exact absurd (List.append_eq_nil_iff.1 nothing).1 String.utf8EncodeChar_ne_nil
    exact List.dropWhile_eq_nil_iff.1 bare
  · intro all
    rw [List.takeWhile_eq_self_iff.2 all, whole]

end Interlace.Text
