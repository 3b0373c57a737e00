import Interlace.Aspect.TypeMatch
import Interlace.Proofs.JsonReading
import Interlace.Proofs.LineReading
import Interlace.Proofs.WhiteSpace

/-!
# References to types and their texts

A reference to a type is read from a text with white space around it, and possibly with a dot that
says nothing (`.Name`). Its written form has neither, and is read as the same reference.

## Key results

- `Text.WellFormed.append`: UTF-8 put together is UTF-8
- `Text.mem_chars_of_ascii`: an ASCII byte is never part of a longer character
- `TypeMatch.parse?_render`: what was read is written so that it is read as it was
-/

namespace Interlace

namespace Text

variable {b : UInt8} {s t : Text}

/-! ## Characters -/

/-- A character that is read to its end is read alike when more text follows. -/
theorem readPoint_append {point width : Nat} (h : readPoint b s = (some point, width)) (t : Text) :
    readPoint b (s ++ t) = (some point, width) ∧ width ≤ s.length + 1 := by
  unfold readPoint at h ⊢
  by_cases ascii : b < 0x80
  · simp only [ascii, if_true, Prod.mk.injEq] at h ⊢
    exact ⟨h, by omega⟩
  · simp only [ascii, if_false] at h ⊢
    -- Each of the longer forms looks at as many bytes as it has.
    split at h
    · split at h <;> simp_all
      omega
    · split at h
      · split at h <;> simp_all
        omega
      · simp at h
    · split at h
      · split at h
        · split at h <;> simp_all
          omega
        · simp at h
      · simp at h
    -- What is cut off is no character.
    · repeat' split at h
      all_goals simp at h
    · split at h <;> simp at h
    · split at h <;> simp at h
    · simp at h

/-- What follows a well-formed text is looked at as if it stood alone. -/
theorem firstIllFormed_append {offset skip : Nat} (within : skip ≤ s.length)
    (h : firstIllFormed offset skip s = none) (t : Text) :
    firstIllFormed offset skip (s ++ t) = firstIllFormed (offset + s.length) 0 t := by
  induction s generalizing offset skip with
  | nil =>
    cases Nat.le_zero.1 within
    rfl
  | cons b s ih =>
    cases skip with
    | succ skip =>
      rw [firstIllFormed] at h
      rw [List.cons_append, firstIllFormed, ih (Nat.le_of_succ_le_succ within) h,
        List.length_cons, Nat.add_right_comm, Nat.add_assoc]
    | zero =>
      rw [firstIllFormed] at h
      split at h
      · rename_i point width read
        -- A character that is whole in the front is read there with more text behind it.
        obtain ⟨same, inside⟩ := readPoint_append read t
        rw [List.cons_append, firstIllFormed, same]
        dsimp only
        rw [ih (by omega) h, List.length_cons, Nat.add_right_comm, Nat.add_assoc]
      · cases h

/-- Where a text is counted from does not matter to whether it is well formed. -/
theorem firstIllFormed_eq_none_iff {offset skip : Nat} :
    firstIllFormed offset skip t = none ↔ firstIllFormed 0 skip t = none := by
  suffices shift : ∀ i j, firstIllFormed i skip t = none → firstIllFormed j skip t = none from
    ⟨shift _ _, shift _ _⟩
  induction t generalizing skip with
  | nil => exact fun _ _ _ => rfl
  | cons b t ih =>
    intro i j h
    cases skip with
    | succ skip => exact ih _ _ h
    | zero =>
      rw [firstIllFormed] at h ⊢
      split at h
      · exact ih _ _ h
      · cases h

theorem WellFormed.append (hs : s.WellFormed) (ht : t.WellFormed) : (s ++ t).WellFormed := by
  have behind := firstIllFormed_append (Nat.zero_le _) hs t
  exact behind.trans (firstIllFormed_eq_none_iff.2 ht)

/-- Behind its first byte, a character has no ASCII. -/
theorem le_of_mem_take_readPoint {c : UInt8} (hc : c ∈ t.take ((readPoint b t).2 - 1)) :
    0x80 ≤ c := by
  have later : ∀ {c}, isContinuation c = true → 0x80 ≤ c := by
    intro c h
    simp only [isContinuation, Bool.and_eq_true, decide_eq_true_eq] at h
    exact h.1
  -- The range of the first continuation byte may be narrowed but starts above ASCII.
  have bounds : 0x80 ≤ (demand b).2.1 ∨ (demand b).2.2 < (demand b).2.1 := by
    unfold demand
    repeat' split
    all_goals decide
  have first : ∀ {c}, (demand b).2.1 ≤ c → c ≤ (demand b).2.2 → 0x80 ≤ c := by
    intro c above below
    simp only [UInt8.le_iff_toNat_le, UInt8.lt_iff_toNat_lt] at *
    omega
  unfold readPoint at hc
  by_cases ascii : b < 0x80
  · simp [ascii] at hc
  · simp only [ascii, if_false] at hc
    generalize demand b = wanted at first hc
    obtain ⟨n, low, high⟩ := wanted
    dsimp only at first
    split at hc
    all_goals repeat' split at hc
    all_goals grind

/-- An ASCII byte of a text is a character of it. -/
theorem mem_chars_of_ascii (hb : b ∈ t) (ascii : b < 0x80) : Char.ofNat b.toNat ∈ chars t := by
  -- Bytes that are skipped belong to a character, so the byte is none of them.
  suffices found : ∀ offset skip, (∀ c ∈ t.take skip, 0x80 ≤ c) →
      Char.ofNat b.toNat ∈ (charsFrom offset skip t).map Prod.snd from found 0 0 (by simp)
  induction t with
  | nil => cases hb
  | cons c t ih =>
    intro offset skip skipped
    cases skip with
    | succ skip =>
      rcases List.mem_cons.1 hb with rfl | hb
      · have := skipped b (by simp)
        simp [UInt8.le_iff_toNat_le, UInt8.lt_iff_toNat_lt] at this ascii
        omega
      · exact ih hb _ _ fun d hd => skipped d (by simp [hd])
    | zero =>
      rcases List.mem_cons.1 hb with rfl | hb
      · simp [charsFrom, readPoint, ascii]
      · have rest := ih hb (offset + 1) ((readPoint c t).2 - 1) fun d hd =>
          le_of_mem_take_readPoint hd
        rw [charsFrom]
        split <;> simp_all

/-- White space is no character of words, and none of identifiers. -/
theorem readPoint_of_white (white : whiteWidth (b :: t) ≠ 0) :
    ∃ point, (readPoint b t).1 = some point ∧ isWordChar (Char.ofNat point) = false ∧
      isIdentifierRest (Char.ofNat point) = false := by
  generalize whole : b :: t = u at white
  unfold whiteWidth at white
  split at white
  -- Three characters of two or three bytes are white by themselves.
  iterate 3
    cases whole
    exact ⟨_, rfl, by decide +kernel⟩
  · -- A row of characters that share two bytes; the third is tested for all bytes.
    rename_i b rest
    have blank : ∀ b : UInt8, (b ≤ 0x8A && 0x80 ≤ b || b = 0xA8 || b = 0xA9 || b = 0xAF) = true →
        isContinuation b = true ∧
          isWordChar (Char.ofNat (shiftIn (shiftIn (leadBits 2 0xE2) 0x80) b)) = false ∧
          isIdentifierRest (Char.ofNat (shiftIn (shiftIn (leadBits 2 0xE2) 0x80) b)) = false :=
      forall_byte (by decide +kernel)
    split at white
    · rename_i wide
      obtain ⟨later, other⟩ := blank b wide
      cases whole
      refine ⟨_, ?_, other⟩
      simp [readPoint, demand, later]
    · exact absurd rfl white
  iterate 2
    cases whole
    exact ⟨_, rfl, by decide +kernel⟩
  · -- The white characters of one byte.
    rename_i b rest _ _ _ _ _ _
    have blank : ∀ b : UInt8, (0x09 ≤ b && b ≤ 0x0D || b = 0x20) = true →
        b < 0x80 ∧ isWordChar (Char.ofNat b.toNat) = false ∧
          isIdentifierRest (Char.ofNat b.toNat) = false :=
      forall_byte (by decide +kernel)
    split at white
    · rename_i wide
      obtain ⟨ascii, other⟩ := blank b wide
      cases whole
      exact ⟨b.toNat, by rw [readPoint, if_pos ascii], other⟩
    · exact absurd rfl white
  · exact absurd rfl white

/-- White space is no part of a word. -/
private theorem exists_not_isWordChar_of_white (white : whiteWidth t ≠ 0) :
    ∃ c ∈ chars t, isWordChar c = false := by
  cases t with
  | nil => exact absurd rfl white
  | cons b t =>
    obtain ⟨point, read, other, -⟩ := readPoint_of_white white
    refine ⟨Char.ofNat point, ?_, other⟩
    rw [chars, charOffsets, charsFrom]
    split <;> rename_i found <;> rw [found] at read <;> cases read
    exact List.mem_cons_self

end Text

/-! ## References -/

namespace TypeMatch

open Text

variable {t : Text} {m : TypeMatch}

/-- A dot parts the package from the name, if there is one behind the last slash. -/
private theorem splitName_cases (t : Text) :
    t = (splitName t).1 ++ "." ++ (splitName t).2 ∨ splitName t = ([], t) := by
  unfold splitName
  dsimp only
  generalize ((findLast? 0x2F t).map (· + 1)).getD 0 = folder
  cases found : findLast? 0x2E (t.drop folder) with
  | none => exact .inr rfl
  | some dot =>
    left
    -- The dot is looked for behind the last slash.
    have here : t[folder + dot]? = some 0x2E := by
      rw [← List.getElem?_drop]
      exact (findLast?_eq_some found).1
    obtain ⟨inside, there⟩ := List.getElem?_eq_some_iff.1 here
    calc t = t.take (folder + dot) ++ t.drop (folder + dot) := (List.take_append_drop ..).symm
      _ = t.take (folder + dot) ++ "." ++ t.drop (folder + dot + 1) := by
        rw [List.drop_eq_getElem_cons inside, there, List.append_assoc]
        rfl

private theorem splitName_of_no_dot (h : 0x2E ∉ t) : splitName t = ([], t) := by
  have absent : ∀ folder, findLast? 0x2E (t.drop folder) = none := by
    intro folder
    cases found : findLast? 0x2E (t.drop folder) with
    | none => rfl
    | some dot =>
      have here := List.mem_of_getElem? (findLast?_eq_some found).1
      exact absurd (List.mem_of_mem_drop here) h
  rw [splitName, absent]

/-- What a text that refers to a type looks like, the white space around it apart. -/
private theorem of_parse?_eq_some (h : parse? t = some m) :
    ∃ rest, trim t = (if m.pointer then ("*" : Text) else []) ++ rest ∧
      splitName rest = (m.path, m.name) ∧ m.name ≠ [] ∧ (chars m.name).all isWordChar := by
  -- With or without a star the rest is cut at its dot and tested in the same way.
  have named : ∀ star rest, (if (splitName rest).2 = []
      || ! (chars (splitName rest).2).all isWordChar then none
      else some ⟨star, (splitName rest).1, (splitName rest).2⟩) = some m →
      m.pointer = star ∧ splitName rest = (m.path, m.name) ∧ m.name ≠ [] ∧
        (chars m.name).all isWordChar := by
    intro star rest found
    split at found
    · cases found
    · rename_i good
      cases found
      exact ⟨rfl, rfl, by simpa using good⟩
  unfold parse? at h
  dsimp only at h
  cases star : stripPrefix? "*" (trim t) with
  | none =>
    rw [star] at h
    obtain ⟨value, parts⟩ := named _ _ h
    exact ⟨trim t, by simp [value], parts⟩
  | some rest =>
    rw [star] at h
    obtain ⟨pointer, parts⟩ := named _ _ h
    exact ⟨rest, by simp [pointer, stripPrefix?_eq_some_iff.1 star], parts⟩

private theorem parse?_trim (t : Text) : parse? (trim t) = parse? t := by
  rw [parse?, trim_trim]
  rfl

/-- Words have no other ASCII than letters, digits and underscores. -/
private theorem not_mem_of_word {b : UInt8} {name : Text} (word : (chars name).all isWordChar)
    (ascii : b < 0x80) (other : isWordChar (Char.ofNat b.toNat) = false) : b ∉ name := by
  intro found
  have := List.all_eq_true.1 word _ (mem_chars_of_ascii found ascii)
  rw [other] at this
  cases this

/-- A name alone refers to a type of that name, with a star to a pointer to it. -/
private theorem parse?_name (pointer : Bool) {name : Text} (given : name ≠ [])
    (word : (chars name).all isWordChar) (trimmed : trimEnd name = name) :
    parse? ((if pointer then ("*" : Text) else []) ++ name) = some ⟨pointer, [], name⟩ := by
  -- A character of a word is no dot, no star and not white, so nothing is cut off.
  have noDot : splitName name = ([], name) :=
    splitName_of_no_dot (not_mem_of_word word (by decide) (by decide +kernel))
  have noStar : stripPrefix? "*" name = none := by
    cases star : stripPrefix? "*" name with
    | none => rfl
    | some rest =>
      have there : 0x2A ∈ name := by
        rw [stripPrefix?_eq_some_iff.1 star]
        exact List.mem_append_left _ (by decide)
      exact absurd there (not_mem_of_word word (by decide) (by decide +kernel))
  have solid : whiteWidth name = 0 := by
    by_contra white
    obtain ⟨c, hc, other⟩ := exists_not_isWordChar_of_white white
    have := List.all_eq_true.1 word c hc
    rw [other] at this
    cases this
  cases pointer with
  | false =>
    have same : trim name = name := by rw [trim, trimStart_eq_self solid, trimmed]
    simp [parse?, same, noStar, noDot, given, word]
  | true =>
    have same : trim ("*" ++ name) = "*" ++ name := by
      have still : trimStart ("*" ++ name) = "*" ++ name :=
        trimStart_eq_self (whiteWidth_of_ascii (by decide) name)
      rw [trim, still]
      refine (if_neg ?_).trans (congrArg (_ :: ·) trimmed)
      exact still ▸ List.cons_ne_nil _ _
    have star : stripPrefix? "*" ("*" ++ name) = some name := stripPrefix?_eq_some_iff.2 rfl
    simp [parse?, same, star, noDot, given, word]

/-- What refers to a type is written so that it is read as it was. -/
theorem parse?_render (h : parse? t = some m) : parse? m.render = some m := by
  obtain ⟨rest, whole, parted, given, word⟩ := of_parse?_eq_some h
  rcases splitName_cases rest with cut | cut
  · rw [parted] at cut
    by_cases rooted : m.path = []
    -- The dot of `.Name` is not written.
    · have trimmed : trimEnd m.name = m.name := by
        have fixed : trimEnd (trim t) = trim t := trimEnd_trimEnd _
        rw [whole, cut] at fixed
        rw [← List.append_assoc] at fixed
        exact trimEnd_of_append fixed
      have read := parse?_name m.pointer given word trimmed
      rw [render, if_pos rooted, read, ← rooted]
    · have same : m.render = trim t := by rw [render, if_neg rooted, whole, cut]
      rw [same, parse?_trim, h]
  · rw [parted, Prod.mk.injEq] at cut
    have same : m.render = trim t := by rw [render, if_pos cut.1, whole, cut.2]
    rw [same, parse?_trim, h]

end TypeMatch
end Interlace
