import Interlace.Proofs.Qualifiers
import Interlace.Proofs.JsonReading
import Interlace.Proofs.WhiteSpace

/-!
# Texts that are UTF-8 already

Mending a text reads its characters and writes them again. A character is written with the bytes
that it was read from, so a text that is UTF-8 is mended to itself.

## Key results

- `Text.utf8EncodeChar_of_readPoint`: a character is written as it was read
- `Text.WellFormed.mended_eq`: a text that is UTF-8 needs no mending
-/

namespace Interlace.Text

variable {b c d e : UInt8} {t tail : Text} {point : Nat}

/-! ## Reading and writing a character -/

private theorem toNat_val_ofNat (point : Nat) (valid : point.isValidChar) :
    (Char.ofNat point).val.toNat = point := by
  have whole : Char.ofNat point = Char.ofNatAux point valid := dif_pos valid
  rw [whole]
  rfl

private theorem ofNat_eq_byte {n : Nat} (h : n = b.toNat) : UInt8.ofNat n = b := by
  rw [h, UInt8.ofNat_toNat]

/-- What a leading byte is like that calls for one more. -/
private theorem demand_one : ∀ b : UInt8, (demand b).1 = 1 →
    0xC2 ≤ b.toNat ∧ b.toNat < 0xE0 ∧
      0x80 ≤ (demand b).2.1.toNat ∧ (demand b).2.2.toNat ≤ 0xBF :=
  forall_byte (by decide +kernel)

private theorem demand_two : ∀ b : UInt8, (demand b).1 = 2 →
    0xE0 ≤ b.toNat ∧ b.toNat < 0xF0 ∧
      0x80 ≤ (demand b).2.1.toNat ∧ (demand b).2.2.toNat ≤ 0xBF ∧
      (b.toNat = 0xE0 → 0xA0 ≤ (demand b).2.1.toNat) ∧
      (b.toNat = 0xED → (demand b).2.2.toNat ≤ 0x9F) :=
  forall_byte (by decide +kernel)

private theorem demand_three : ∀ b : UInt8, (demand b).1 = 3 →
    0xF0 ≤ b.toNat ∧ b.toNat < 0xF5 ∧
      0x80 ≤ (demand b).2.1.toNat ∧ (demand b).2.2.toNat ≤ 0xBF ∧
      (b.toNat = 0xF0 → 0x90 ≤ (demand b).2.1.toNat) ∧
      (b.toNat = 0xF4 → (demand b).2.2.toNat ≤ 0x8F) :=
  forall_byte (by decide +kernel)

private theorem bounds_of_isContinuation (h : isContinuation b = true) :
    0x80 ≤ b.toNat ∧ b.toNat ≤ 0xBF := by
  simpa [isContinuation, UInt8.le_iff_toNat_le] using h

private theorem utf8EncodeChar_two (lead : 0xC2 ≤ b.toNat ∧ b.toNat < 0xE0)
    (hc : 0x80 ≤ c.toNat ∧ c.toNat ≤ 0xBF) :
    String.utf8EncodeChar (Char.ofNat (shiftIn (leadBits 1 b) c)) = [b, c] := by
  unfold shiftIn leadBits
  generalize point_eq : b.toNat % 32 * 64 + c.toNat % 64 = point
  have valid := toNat_val_ofNat point (.inl (by omega))
  simp only [String.utf8EncodeChar, valid]
  rw [if_neg (by omega), if_pos (by omega)]
  simp only [List.cons.injEq, and_true]
  exact ⟨ofNat_eq_byte (by omega), ofNat_eq_byte (by omega)⟩

private theorem utf8EncodeChar_three (lead : 0xE0 ≤ b.toNat ∧ b.toNat < 0xF0)
    (hc : 0x80 ≤ c.toNat ∧ c.toNat ≤ 0xBF) (long : b.toNat = 0xE0 → 0xA0 ≤ c.toNat)
    (surrogate : b.toNat = 0xED → c.toNat ≤ 0x9F) (hd : 0x80 ≤ d.toNat ∧ d.toNat ≤ 0xBF) :
    String.utf8EncodeChar (Char.ofNat (shiftIn (shiftIn (leadBits 2 b) c) d)) = [b, c, d] := by
  unfold shiftIn leadBits
  generalize point_eq : (b.toNat % 16 * 64 + c.toNat % 64) * 64 + d.toNat % 64 = point
  have valid := toNat_val_ofNat point (by unfold Nat.isValidChar; omega)
  simp only [String.utf8EncodeChar, valid]
  rw [if_neg (by omega), if_neg (by omega), if_pos (by omega)]
  simp only [List.cons.injEq, and_true]
  exact ⟨ofNat_eq_byte (by omega), ofNat_eq_byte (by omega), ofNat_eq_byte (by omega)⟩

private theorem utf8EncodeChar_four (lead : 0xF0 ≤ b.toNat ∧ b.toNat < 0xF5)
    (hc : 0x80 ≤ c.toNat ∧ c.toNat ≤ 0xBF) (long : b.toNat = 0xF0 → 0x90 ≤ c.toNat)
    (small : b.toNat = 0xF4 → c.toNat ≤ 0x8F) (hd : 0x80 ≤ d.toNat ∧ d.toNat ≤ 0xBF)
    (he : 0x80 ≤ e.toNat ∧ e.toNat ≤ 0xBF) :
    String.utf8EncodeChar
        (Char.ofNat (shiftIn (shiftIn (shiftIn (leadBits 3 b) c) d) e)) = [b, c, d, e] := by
  unfold shiftIn leadBits
  generalize point_eq :
    ((b.toNat % 8 * 64 + c.toNat % 64) * 64 + d.toNat % 64) * 64 + e.toNat % 64 = point
  have valid := toNat_val_ofNat point (by unfold Nat.isValidChar; omega)
  simp only [String.utf8EncodeChar, valid]
  rw [if_neg (by omega), if_neg (by omega), if_neg (by omega)]
  simp only [List.cons.injEq, and_true]
  exact ⟨ofNat_eq_byte (by omega), ofNat_eq_byte (by omega), ofNat_eq_byte (by omega),
    ofNat_eq_byte (by omega)⟩

/-- A character is written with the bytes that it was read from. -/
theorem utf8EncodeChar_of_readPoint (h : readPoint b tail = (some point, tail.length + 1)) :
    String.utf8EncodeChar (Char.ofNat point) = b :: tail := by
  unfold readPoint at h
  by_cases ascii : b < 0x80
  · simp only [ascii, if_true, Prod.mk.injEq, Option.some.injEq] at h
    obtain ⟨rfl, short⟩ := h
    obtain rfl := List.length_eq_zero_iff.1 (Nat.succ.inj short.symm)
    have small : b.toNat < 128 := UInt8.lt_iff_toNat_lt.1 ascii
    have valid := toNat_val_ofNat b.toNat (.inl (by omega))
    simp only [String.utf8EncodeChar, valid]
    rw [if_pos (by omega), ofNat_eq_byte rfl]
  · simp only [ascii, if_false] at h
    have one := demand_one b
    have two := demand_two b
    have three := demand_three b
    generalize demand b = wanted at h one two three
    obtain ⟨n, low, high⟩ := wanted
    dsimp only at h one two three
    split at h
    · rename_i c rest
      split at h
      · rename_i within
        obtain ⟨read, short⟩ := Prod.mk.inj h
        obtain rfl : rest = [] := by simpa using short
        cases read
        simp only [Bool.and_eq_true, decide_eq_true_eq, UInt8.le_iff_toNat_le] at within
        exact utf8EncodeChar_two (by omega) (by omega)
      · cases h
    · rename_i c d rest
      repeat' split at h
      · rename_i within goes
        obtain ⟨read, short⟩ := Prod.mk.inj h
        obtain rfl : rest = [] := by simpa using short
        cases read
        have goes := bounds_of_isContinuation goes
        simp only [Bool.and_eq_true, decide_eq_true_eq, UInt8.le_iff_toNat_le] at within
        exact utf8EncodeChar_three (by omega) (by omega) (by omega) (by omega) goes
      all_goals cases h
    · rename_i c d e rest
      repeat' split at h
      · rename_i within goes ends
        obtain ⟨read, short⟩ := Prod.mk.inj h
        obtain rfl : rest = [] := by simpa using short
        cases read
        have goes := bounds_of_isContinuation goes
        have ends := bounds_of_isContinuation ends
        simp only [Bool.and_eq_true, decide_eq_true_eq, UInt8.le_iff_toNat_le] at within
        exact utf8EncodeChar_four (by omega) (by omega) (by omega) (by omega) goes ends
      all_goals cases h
    -- The other forms read nothing.
    all_goals repeat' split at h
    all_goals cases h

/-! ## Texts -/

/-- A text that is UTF-8 is not changed by reading its characters and writing them again. -/
private theorem mended_of_firstIllFormed {offset start : Nat}
    (h : firstIllFormed offset 0 t = none) : ofChars ((charsFrom start 0 t).map Prod.snd) = t := by
  generalize len : t.length = n
  -- The induction is on the length, since a character takes several bytes at once.
  induction n using Nat.strongRecOn generalizing t offset start with
  | ind n ih =>
    cases t with
    | nil => rfl
    | cons b t =>
      rw [firstIllFormed] at h
      rw [charsFrom]
      rcases read : readPoint b t with ⟨_ | point, width⟩ <;> rw [read] at h
      · cases h
      · obtain ⟨tail, rest, rfl, rfl, -, -, alone⟩ := exists_of_readPoint read
        simp only [Nat.add_sub_cancel] at h ⊢
        rw [firstIllFormed_skipped] at h
        rw [charsFrom_append]
        have shorter : rest.length < n := by
          rw [← len, List.length_cons, List.length_append]
          omega
        have later : ofChars ((charsFrom (start + 1 + tail.length) 0 rest).map Prod.snd) = rest :=
          ih rest.length shorter h rfl
        rw [List.map_cons, ofChars, List.flatMap_cons, utf8EncodeChar_of_readPoint alone]
        rw [List.cons_append]
        congr 2

/-- A text that is UTF-8 needs no mending. -/
theorem WellFormed.mended_eq (h : t.WellFormed) : mended t = t :=
  mended_of_firstIllFormed h

end Interlace.Text
