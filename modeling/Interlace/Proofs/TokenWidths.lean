import Interlace.Syntax.Scan

/-!
# The widths of tokens

A token is at least one byte long and at most as long as the text that is left.

## Key results

- `Literal.number?_fits`, `Literal.rune?_fits`: numbers and character literals
- `Literal.escape?_fits`: escape sequences in strings
-/

namespace Interlace

private theorem Text.readPoint_le (b : UInt8) (t : Text) : (readPoint b t).2 ≤ t.length + 1 := by
  unfold readPoint
  split
  · simp
  · dsimp only
    split
    -- However a sequence ends, all bytes that were read were there.
    all_goals repeat' split
    all_goals simp only [List.length_cons, List.length_nil]
    all_goals omega

namespace Syntax.Literal

/-- A width, if there is one, is that of more than nothing and of what is left at most. -/
def Fits (t : Text) (width : Option Nat) : Prop :=
  ∀ n ∈ width, 0 < n ∧ n ≤ t.length

variable {t r : Text} {width : Option Nat} {digit : UInt8 → Bool}

private theorem fits_none : Fits t none := nofun

private theorem fits_some {n : Nat} (pos : 0 < n) (le : n ≤ t.length) : Fits t (some n) := by
  rintro k ⟨⟩
  exact ⟨pos, le⟩

theorem Fits.map (h : Fits r width) {f : Nat → Nat}
    (longer : ∀ n, 0 < n → n ≤ r.length → 0 < f n ∧ f n ≤ t.length) : Fits t (width.map f) := by
  rintro m found
  obtain ⟨n, hn, rfl⟩ := Option.map_eq_some_iff.1 found
  obtain ⟨pos, le⟩ := h n hn
  exact longer n pos le

private theorem Fits.getD_le (h : Fits r width) : width.getD 0 ≤ r.length := by
  cases width with
  | none => exact Nat.zero_le _
  | some n => exact (h n rfl).2

theorem Fits.wider {a b : Option Nat} (ha : Fits t a) (hb : Fits t b) : Fits t (wider a b) := by
  cases a with
  | none => exact hb
  | some m =>
    cases b with
    | none => exact ha
    | some n =>
      have := ha m rfl
      have := hb n rfl
      exact fits_some (by omega) (by omega)

/-! ## Numbers -/

private theorem moreDigits_le (digit : UInt8 → Bool) (t : Text) :
    moreDigits digit t ≤ t.length := by
  fun_induction moreDigits digit t <;> simp <;> omega

private theorem digits?_fits (digit : UInt8 → Bool) (t : Text) : Fits t (digits? digit t) := by
  unfold digits?
  split
  · split
    · exact fits_some (Nat.succ_pos _) (Nat.succ_le_succ (moreDigits_le digit _))
    · exact fits_none
  · exact fits_none

private theorem spacedDigits?_fits (digit : UInt8 → Bool) (t : Text) :
    Fits t (spacedDigits? digit t) := by
  unfold spacedDigits?
  split
  · exact (digits?_fits digit _).map fun n _ le => ⟨Nat.succ_pos n, Nat.succ_le_succ le⟩
  · exact digits?_fits digit t

private theorem exponent?_fits (low high : UInt8) (t : Text) : Fits t (exponent? low high t) := by
  unfold exponent?
  split
  · split
    · split
      all_goals refine (digits?_fits _ _).map fun n _ le => ⟨Nat.succ_pos _, ?_⟩
      all_goals simp only [List.length_cons] at le ⊢
      all_goals omega
    · exact fits_none
  · exact fits_none

private theorem withExponent_le {n : Nat} (le : n ≤ t.length) : withExponent t n ≤ t.length := by
  have more := (exponent?_fits 0x65 0x45 (t.drop n)).getD_le
  rw [List.length_drop] at more
  unfold withExponent
  omega

private theorem integer?_fits (t : Text) : Fits t (integer? t) := by
  unfold integer?
  split
  · -- Behind a zero there may be a prefix with digits, old octal digits, or nothing.
    rename_i r
    refine .wider ?_ (.wider ?_ (fits_some Nat.one_pos (Nat.succ_pos _)))
    · have marked : ∀ digit (r : Text) (b : UInt8),
          Fits (0x30 :: b :: r) ((spacedDigits? digit r).map (· + 2)) := fun digit r b =>
        (spacedDigits?_fits digit r).map fun n _ le => ⟨Nat.succ_pos _, Nat.add_le_add_right le 2⟩
      split
      · repeat' split
        · exact marked _ _ _
        · exact marked _ _ _
        · exact marked _ _ _
        · exact fits_none
      · exact fits_none
    · exact (spacedDigits?_fits isOctal r).map fun n _ le =>
        ⟨Nat.succ_pos n, Nat.succ_le_succ le⟩
  · split
    · exact fits_some (Nat.succ_pos _) (Nat.succ_le_succ (spacedDigits?_fits _ _).getD_le)
    · exact fits_none
  · exact fits_none

private theorem decimalFloat?_fits (t : Text) : Fits t (decimalFloat? t) := by
  unfold decimalFloat?
  split
  · rename_i n found
    obtain ⟨pos, le⟩ := digits?_fits _ t n found
    split
    · rename_i r left
      have size := congrArg List.length left
      rw [List.length_drop, List.length_cons] at size
      -- The digits before and behind the point and the point itself are all there.
      have more := (digits?_fits Text.isDigit r).getD_le
      exact fits_some (Nat.lt_of_lt_of_le (by omega) (Nat.le_add_right _ _))
        (withExponent_le (by omega))
    · refine (exponent?_fits _ _ _).map fun m _ more => ?_
      rw [List.length_drop] at more
      omega
  · split
    · refine (digits?_fits Text.isDigit _).map fun n _ le => ⟨?_, ?_⟩
      · exact Nat.lt_of_lt_of_le (Nat.succ_pos n) (Nat.le_add_right _ _)
      · exact withExponent_le (Nat.succ_le_succ le)
    · exact fits_none

private theorem hexFloat?_fits (t : Text) : Fits t (hexFloat? t) := by
  unfold hexFloat?
  split
  · rename_i x r
    split
    · intro n found
      obtain ⟨m, mantissa, found⟩ := Option.bind_eq_some_iff.1 found
      obtain ⟨k, exponent, rfl⟩ := Option.map_eq_some_iff.1 found
      -- The mantissa is read before the exponent and leaves it what it takes.
      have more := (exponent?_fits _ _ _ k exponent).2
      have le : m ≤ r.length := by
        -- The mantissa has digits before the point, and may have some behind it, or only those.
        split at mantissa
        · rename_i n found
          have le := (spacedDigits?_fits _ _ n found).2
          split at mantissa
          · rename_i r' left
            have size := congrArg List.length left
            rw [List.length_drop, List.length_cons] at size
            have := (digits?_fits isHex r').getD_le
            cases mantissa
            omega
          · cases mantissa
            exact le
        · split at mantissa
          · obtain ⟨n, digits, rfl⟩ := Option.map_eq_some_iff.1 mantissa
            exact Nat.succ_le_succ (digits?_fits _ _ n digits).2
          · cases mantissa
      rw [List.length_drop] at more
      simp only [List.length_cons]
      omega
    · exact fits_none
  · exact fits_none

private theorem imaginary?_fits (t : Text) : Fits t (imaginary? t) := by
  have closed : ∀ width : Option Nat, Fits t
      (width.bind fun n => if (t.drop n).head? = some 0x69 then some (n + 1) else none) := by
    intro width n found
    obtain ⟨m, -, found⟩ := Option.bind_eq_some_iff.1 found
    split at found
    · rename_i mark
      cases found
      rw [List.head?_drop] at mark
      exact ⟨Nat.succ_pos m, (List.getElem?_eq_some_iff.1 mark).1⟩
    · cases found
  exact (closed _).wider ((closed _).wider (closed _))

/-- A number has digits that are there. -/
theorem number?_fits {kind : Kind} {width : Nat} (found : number? t = some (kind, width)) :
    0 < width ∧ width ≤ t.length := by
  have float : Fits t (float? t) := (decimalFloat?_fits t).wider (hexFloat?_fits t)
  unfold number? at found
  split at found
  · rename_i n imaginary
    cases found
    exact imaginary?_fits t _ imaginary
  · split at found
    · -- Both readings fit, so the one that is taken does.
      rename_i f i hf hi
      split at found
      · cases found
        exact float _ hf
      · cases found
        exact integer?_fits t _ hi
    · rename_i f hf _
      cases found
      exact float _ hf
    · rename_i i _ hi
      cases found
      exact integer?_fits t _ hi
    · cases found

theorem number?_kind {kind : Kind} {width : Nat} (found : number? t = some (kind, width)) :
    kind = .imaginaryLiteral ∨ kind = .floatLiteral ∨ kind = .intLiteral := by
  unfold number? at found
  repeat' split at found
  all_goals cases found
  all_goals simp

/-! ## Characters -/

/-- A character literal has quotes on both sides. -/
theorem rune?_fits (t : Text) : Fits t (rune? t) := by
  unfold rune?
  split
  · -- An escape is measured by itself; any other character is one to four bytes.
    intro n found
    obtain ⟨m, -, found⟩ := Option.bind_eq_some_iff.1 found
    split at found
    · rename_i quote
      cases found
      rw [List.head?_drop] at quote
      have := (List.getElem?_eq_some_iff.1 quote).1
      simp only [List.length_cons]
      omega
    · cases found
  · dsimp only
    split
    · exact fits_none
    split
    · rename_i quote
      rw [List.head?_drop] at quote
      have := (List.getElem?_eq_some_iff.1 quote).1
      simp only [List.length_cons] at this
      exact fits_some (Nat.succ_pos _) (by simp only [List.length_cons]; omega)
    · exact fits_none
  · exact fits_none

private theorem le_of_hexRun {n : Nat} (h : hexRun n t) : n ≤ t.length := by
  have full := of_decide_eq_true (Bool.and_eq_true_iff.1 h).1
  rw [List.length_take] at full
  omega

/-- An escape sequence is one that is there. -/
theorem escape?_fits (t : Text) : Fits t (escape? t) := by
  unfold escape?
  -- The cases are those of the sequence: octal, two lengths of hexadecimal digits, a plain byte.
  split
  · rename_i r
    dsimp only
    split
    · refine fits_some (Nat.succ_pos _) ?_
      have := (List.takeWhile_sublist (l := r) isHex).length_le
      simp only [List.length_cons]
      omega
    · exact fits_none
  · split
    · rename_i run
      exact fits_some (by decide) (Nat.add_le_add_right (le_of_hexRun run) 2)
    · exact fits_none
  · split
    · rename_i run
      exact fits_some (by decide) (Nat.add_le_add_right (le_of_hexRun run) 2)
    · exact fits_none
  · rename_i b r _ _ _
    dsimp only
    split
    · refine fits_some (Nat.succ_pos _) ?_
      have few := (List.takeWhile_sublist (l := (b :: r).take 3) Text.isDigit).length_le
      have := (List.take_sublist 3 (b :: r)).length_le
      simp only [List.length_cons] at *
      omega
    · refine fits_some (Nat.succ_pos _) ?_
      have := Text.readPoint_le b r
      simp only [charWidth, List.length_cons]
      omega
  · exact fits_none

end Syntax.Literal

end Interlace
