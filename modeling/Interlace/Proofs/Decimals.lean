import Interlace.Text.Lemmas
import Interlace.Version
import Mathlib.Algebra.Group.Nat.Defs
import Mathlib.Data.List.TakeWhile

/-!
# Numbers and versions as texts

A number is written with its decimal digits, the last of which comes off the end. So the digits
read back as the number, and a version as its two numbers.

## Key results

- `Text.foldl_addDigit_ofNat`, `Text.decimal?_ofNat`: a number reads back from its digits
- `Text.decimal_lt`: a number has no more digits than the text that it is read from has bytes
- `Text.head?_ofNat_ne`: the digits of a number other than zero do not start with a zero
- `Version.parse?_render`: a version reads back from its written form
-/

namespace Interlace

namespace Text

/-! ## Digits -/

/-- The byte of a decimal digit. -/
def digit (d : Nat) : UInt8 :=
  UInt8.ofNat (0x30 + d)

private theorem toUInt8_digitChar : ∀ d < 10, (Nat.digitChar d).toUInt8 = digit d := by decide

theorem digit_facts : ∀ d < 10, isDigit (digit d) ∧ (digit d).toNat - 0x30 = d := by decide

/-- The last digit of a number comes off the end. -/
theorem ofNat_eq (n : Nat) :
    ofNat n = (if n < 10 then [] else ofNat (n / 10)) ++ [digit (n % 10)] := by
  have last := toUInt8_digitChar (n % 10) (Nat.mod_lt n (by decide))
  unfold ofNat
  rw [Nat.toDigits_eq_if (by decide)]
  split
  · rename_i small
    rw [Nat.mod_eq_of_lt small] at last ⊢
    simp [last]
  · simp [last]

theorem ofNat_ne_nil (n : Nat) : ofNat n ≠ [] := by
  rw [ofNat_eq]
  simp

/-- A number is written with digits only. -/
theorem isDigit_of_mem_ofNat {n : Nat} {b : UInt8} (h : b ∈ ofNat n) : isDigit b := by
  induction n using Nat.strongRecOn with
  | ind n ih =>
    rw [ofNat_eq, List.mem_append, List.mem_singleton] at h
    rcases h with h | rfl
    · split at h
      · cases h
      · exact ih (n / 10) (by omega) h
    · exact (digit_facts (n % 10) (Nat.mod_lt n (by decide))).1

/-- The digits of a number other than zero do not start with a zero. -/
theorem head?_ofNat_ne {n : Nat} (positive : 0 < n) : (ofNat n).head? ≠ some 0x30 := by
  induction n using Nat.strongRecOn with
  | ind n ih =>
    rw [ofNat_eq]
    split
    · have nonzero : ∀ d < 10, 0 < d → digit d ≠ 0x30 := by decide
      have := nonzero (n % 10) (Nat.mod_lt n (by decide)) (by omega)
      simpa using this
    · have more := ih (n / 10) (by omega) (by omega)
      obtain ⟨b, t, spelled⟩ := List.exists_cons_of_ne_nil (ofNat_ne_nil (n / 10))
      rw [spelled] at more ⊢
      exact more

theorem length_ofNat_of_lt {n : Nat} (small : n < 10) : (ofNat n).length = 1 := by
  rw [ofNat_eq, if_pos small]
  rfl

theorem length_ofNat_le {n width : Nat} (positive : 0 < width) (small : n < 10 ^ width) :
    (ofNat n).length ≤ width := by
  rw [ofNat, List.length_map]
  exact (Nat.length_toDigits_le_iff (by decide) positive).2 small

/-! ## Reading back -/

/-- Takes one more digit into a number. -/
def addDigit (value : Nat) (b : UInt8) : Nat :=
  value * 10 + (b.toNat - 0x30)

/-- A number reads back from its digits. -/
theorem foldl_addDigit_ofNat (n : Nat) : (ofNat n).foldl addDigit 0 = n := by
  induction n using Nat.strongRecOn with
  | ind n ih =>
    have last := (digit_facts (n % 10) (Nat.mod_lt n (by decide))).2
    rw [ofNat_eq, List.foldl_append, List.foldl_cons, List.foldl_nil, addDigit, last]
    split
    · rw [List.foldl_nil]
      omega
    · rw [ih (n / 10) (by omega)]
      omega

private theorem le_foldl_addDigit (value : Nat) (t : Text) : value ≤ t.foldl addDigit value := by
  induction t generalizing value with
  | nil => exact Nat.le_refl _
  | cons b t ih =>
    rw [List.foldl_cons]
    have := ih (addDigit value b)
    unfold addDigit at this ⊢
    omega

/-- Digits are read up to a bound that their value keeps. -/
private theorem readDigits_eq_ok {bound : Nat} (value : Nat) {t : Text}
    (digits : ∀ b ∈ t, isDigit b) (small : t.foldl addDigit value < bound) :
    readDigits bound value t = .ok (t.foldl addDigit value) := by
  induction t generalizing value with
  | nil => rfl
  | cons b t ih =>
    rw [List.foldl_cons] at small ⊢
    -- Digits further on do not make the value smaller, so the bound is kept on the way.
    have here : addDigit value b < bound := Nat.lt_of_le_of_lt (le_foldl_addDigit _ t) small
    have rest := ih (addDigit value b) (fun c hc => digits c (List.mem_cons_of_mem b hc)) small
    rw [readDigits, if_pos (digits b List.mem_cons_self)]
    exact (if_pos here).trans rest

/-- A number below the bound reads back from its digits. -/
theorem decimal?_ofNat {bound n : Nat} (small : n < bound) : decimal? bound (ofNat n) = some n := by
  have digits : ∀ b ∈ ofNat n, isDigit b := fun b hb => isDigit_of_mem_ofNat hb
  have value := foldl_addDigit_ofNat n
  have read : readDigits bound 0 (ofNat n) = .ok n := by
    have := readDigits_eq_ok 0 digits (by rwa [value])
    rwa [value] at this
  -- A digit is no sign, so all of the text is read as digits.
  have unsigned : ∀ t : Text, t ≠ [] → (∀ b ∈ t, isDigit b) →
      decimal bound t = readDigits bound 0 t := by
    intro t nonempty digits
    cases t with
    | nil => exact absurd rfl nonempty
    | cons b t =>
      have first := digits b List.mem_cons_self
      unfold decimal
      split
      · rename_i h
        cases h
      · rename_i h
        cases h
        cases first
      · rename_i h
        cases h
        cases first
      · rfl
  rw [decimal?, unsigned _ (ofNat_ne_nil n) digits, read]
  rfl

/-- What is read is the value of digits. -/
private theorem of_readDigits_eq_ok {bound value n : Nat} {t : Text}
    (h : readDigits bound value t = .ok n) :
    n = t.foldl addDigit value ∧ ∀ b ∈ t, isDigit b := by
  induction t generalizing value with
  | nil =>
    cases h
    exact ⟨rfl, nofun⟩
  | cons b t ih =>
    rw [readDigits] at h
    split at h
    · rename_i first
      dsimp only at h
      split at h
      · obtain ⟨read, others⟩ := ih h
        exact ⟨read, List.forall_mem_cons.2 ⟨first, others⟩⟩
      · cases h
    · cases h

private theorem lt_of_readDigits_eq_ok {bound value n : Nat} {t : Text} (small : value < bound)
    (h : readDigits bound value t = .ok n) : n < bound := by
  induction t generalizing value with
  | nil =>
    cases h
    exact small
  | cons b t ih =>
    rw [readDigits] at h
    split at h
    · dsimp only at h
      split at h
      · rename_i fits
        exact ih fits h
      · cases h
    · cases h

/-- A number that was read is below the bound. -/
theorem lt_of_decimal?_eq_some {bound n : Nat} {t : Text} (positive : 0 < bound)
    (h : decimal? bound t = some n) : n < bound := by
  -- Only a text that was read to its end gives a number.
  have read : decimal bound t = .ok n := by
    unfold decimal? at h
    cases whole : decimal bound t with
    | error fault =>
      rw [whole] at h
      cases h
    | ok m =>
      rw [whole] at h
      cases h
      rfl
  unfold decimal at read
  split at read
  · cases read
  · cases read
  · exact lt_of_readDigits_eq_ok positive read
  · exact lt_of_readDigits_eq_ok positive read

/-- A number has no more than ten times the values for each digit. -/
private theorem foldl_addDigit_lt (value : Nat) {t : Text} (digits : ∀ b ∈ t, isDigit b) :
    t.foldl addDigit value < (value + 1) * 10 ^ t.length := by
  induction t generalizing value with
  | nil => simp
  | cons b t ih =>
    obtain ⟨first, others⟩ := List.forall_mem_cons.1 digits
    -- The next digit is less than ten.
    have small : b.toNat - 0x30 < 10 := by
      simp only [isDigit, Bool.and_eq_true, decide_eq_true_eq, UInt8.le_iff_toNat_le] at first
      simp only [UInt8.reduceToNat] at first
      omega
    calc t.foldl addDigit (addDigit value b)
      _ < (addDigit value b + 1) * 10 ^ t.length := ih (addDigit value b) others
      _ ≤ (value + 1) * 10 * 10 ^ t.length :=
        Nat.mul_le_mul_right _ (by unfold addDigit; omega)
      _ = (value + 1) * 10 ^ (b :: t).length := by
        rw [List.length_cons, Nat.pow_succ', Nat.mul_assoc]

/-- A number that was read has no more digits than the text has bytes, all of them ASCII. -/
theorem decimal_lt {bound n : Nat} {t : Text} (h : decimal bound t = .ok n) :
    n < 10 ^ t.length ∧ ∀ b ∈ t, b < 0x80 := by
  have ascii {s : Text} (digits : ∀ b ∈ s, isDigit b) : ∀ b ∈ s, b < 0x80 := by
    intro b hb
    have := digits b hb
    simp only [isDigit, Bool.and_eq_true, decide_eq_true_eq, UInt8.le_iff_toNat_le] at this
    simp only [UInt8.lt_iff_toNat_lt]
    simp only [UInt8.reduceToNat] at this ⊢
    omega
  unfold decimal at h
  split at h
  · cases h
  · cases h
  · -- A sign is one more byte and adds no digit.
    rename_i s _
    obtain ⟨rfl, digits⟩ := of_readDigits_eq_ok h
    have small := foldl_addDigit_lt 0 digits
    refine ⟨?_, List.forall_mem_cons.2 ⟨by decide, ascii digits⟩⟩
    rw [List.length_cons, Nat.pow_succ]
    omega
  · obtain ⟨rfl, digits⟩ := of_readDigits_eq_ok h
    have small := foldl_addDigit_lt 0 digits
    exact ⟨by omega, ascii digits⟩

/-! ## Texts without white space -/

/-- Printed in ASCII, and no blank. -/
def isVisible (b : UInt8) : Bool :=
  0x21 ≤ b && b < 0x80

/-- A digit is visible, and no dot. -/
theorem isVisible_of_isDigit {b : UInt8} (h : isDigit b) : isVisible b ∧ b ≠ 0x2E := by
  simp only [isDigit, Bool.and_eq_true, decide_eq_true_eq, UInt8.le_iff_toNat_le] at h
  simp only [isVisible, Bool.and_eq_true, decide_eq_true_eq, UInt8.le_iff_toNat_le,
    UInt8.lt_iff_toNat_lt, ne_eq, ← UInt8.toNat_inj]
  simp only [UInt8.reduceToNat] at h ⊢
  omega

theorem whiteWidth_of_isVisible {b : UInt8} (h : isVisible b) (t : Text) :
    whiteWidth (b :: t) = 0 := by
  have inner : ¬ (0x09 ≤ b && b ≤ 0x0D || b = 0x20) = true := by
    simp only [isVisible, Bool.and_eq_true, decide_eq_true_eq, UInt8.le_iff_toNat_le,
      UInt8.lt_iff_toNat_lt] at h
    simp only [Bool.or_eq_true, Bool.and_eq_true, decide_eq_true_eq, UInt8.le_iff_toNat_le,
      ← UInt8.toNat_inj]
    simp only [UInt8.reduceToNat] at h ⊢
    omega
  unfold whiteWidth
  split
  -- White space beyond ASCII starts with a byte that is not visible.
  iterate 6
    · rename_i eq
      cases eq
      cases h
  · rename_i eq
    cases eq
    exact if_neg inner
  · rfl

/-- A text that is all visible has nothing to trim. -/
private theorem trim_of_isVisible {t : Text} (h : ∀ b ∈ t, isVisible b) : trim t = t := by
  -- A visible byte is not white, so nothing comes off the start of any end of the text.
  have start : ∀ s : Text, (∀ b ∈ s, isVisible b) → trimStart s = s := by
    intro s visible
    cases s with
    | nil => rfl
    | cons b s =>
      rw [trimStart, dropWhite, whiteWidth_of_isVisible (visible b List.mem_cons_self)]
  rw [trim, start t h]
  induction t with
  | nil => rfl
  | cons b t ih =>
    rw [trimEnd, start (b :: t) h, if_neg (List.cons_ne_nil b t),
      ih fun c hc => h c (List.mem_cons_of_mem b hc)]

end Text

namespace Version

/-- A version whose numbers fit 32 bits. -/
def Fits (v : Version) : Prop :=
  v.major < Text.bound32 ∧ v.minor < Text.bound32

instance (v : Version) : Decidable v.Fits :=
  inferInstanceAs (Decidable (_ ∧ _))

private theorem readNumbers?_spelled {v : Version} (fits : v.Fits) :
    readNumbers? (Text.ofNat v.major ++ 0x2E :: Text.ofNat v.minor) = some v := by
  have digits : ∀ (n : Nat), ∀ b ∈ Text.ofNat n, Text.isDigit b :=
    fun n b hb => Text.isDigit_of_mem_ofNat hb
  have uncut : ∀ (n : Nat), ∀ b ∈ Text.ofNat n, decide (b = 0x2E) = false := by
    intro n b hb
    exact decide_eq_false (Text.isVisible_of_isDigit (digits n b hb)).2
  unfold readNumbers?
  rw [Text.splitWhere_append (uncut v.major) rfl, Text.splitWhere_of_uncut (uncut v.minor)]
  have whole : (Text.ofNat v.minor).takeWhile Text.isDigit = Text.ofNat v.minor :=
    List.takeWhile_eq_self_iff.2 (digits v.minor)
  simp [Text.decimal?_ofNat fits.1, Text.decimal?_ofNat fits.2, whole]

theorem render_eq (v : Version) :
    v.render = 0x67 :: 0x6F :: (Text.ofNat v.major ++ 0x2E :: Text.ofNat v.minor) := by
  unfold render
  rw [List.append_assoc, List.append_assoc]
  rfl

/-- A version is written without blanks. -/
theorem isVisible_render (v : Version) : ∀ b ∈ v.render, Text.isVisible b := by
  have digits : ∀ (n : Nat), ∀ b ∈ Text.ofNat n, Text.isVisible b :=
    fun n b hb => (Text.isVisible_of_isDigit (Text.isDigit_of_mem_ofNat hb)).1
  intro b hb
  simp only [render_eq, List.mem_cons, List.mem_append] at hb
  rcases hb with rfl | rfl | hb | rfl | hb
  · rfl
  · rfl
  · exact digits v.major b hb
  · rfl
  · exact digits v.minor b hb

/-- A version reads back from its written form. -/
theorem parse?_render {v : Version} (fits : v.Fits) : parse? v.render = some v := by
  unfold parse?
  rw [Text.trim_of_isVisible v.isVisible_render, render_eq]
  exact readNumbers?_spelled fits

end Version

end Interlace
