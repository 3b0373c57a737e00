import Interlace.Proofs.Occurrence
import Interlace.Text.Utf8
import Mathlib.Data.List.Infix

/-!
# White space

White space is read off the bytes of its characters, one after the other. So where it is trimmed off
a text depends on what follows it only as far as that is white space itself.

## Key results

- `Text.exists_white`: white space at the start of a text is a character of it
- `Text.dropWhite_append_of_endsWord`: white space behind what is left stays
- `Text.exists_eq_append_trimStart`: what is trimmed has no ASCII but white space
- `Text.trim_trim`: what has been trimmed has nothing more to trim
- `Text.trim_isInfix_trimEnd`: trimming both ends leaves a part of what trimming one does
-/

namespace Interlace.Text

variable {b : UInt8} {s t : Text}

/-! ## Characters -/

/-- Bytes are few enough to look at all of them. -/
theorem forall_byte {p : UInt8 → Prop} (h : ∀ n < 256, p (UInt8.ofNat n)) (b : UInt8) : p b := by
  have := h b.toNat b.toNat_lt
  rwa [UInt8.ofNat_toNat] at this

theorem whiteWidth_of_ascii (ascii : b < 0x80) (t : Text) :
    whiteWidth (b :: t) = if 0x09 ≤ b && b ≤ 0x0D || b = 0x20 then 1 else 0 := by
  unfold whiteWidth
  split
  -- The other forms start with a byte beyond ASCII.
  iterate 6
    · rename_i eq
      cases eq
      exact absurd ascii (by decide)
  · rename_i eq
    cases eq
    rfl
  · rename_i eq
    cases eq

/-- White space at the start of a text is white space when more text follows. -/
theorem whiteWidth_append (white : whiteWidth s ≠ 0) (t : Text) :
    whiteWidth (s ++ t) = whiteWidth s ∧ whiteWidth s ≤ s.length := by
  have shown := white
  unfold whiteWidth at shown
  split at shown
  -- The forms of two and three bytes are read off the bytes themselves.
  iterate 3 exact ⟨rfl, by simp [whiteWidth]⟩
  · split at shown
    · rename_i wide
      exact ⟨by simp [whiteWidth, wide], by simp [whiteWidth, wide]⟩
    · exact absurd rfl shown
  iterate 2 exact ⟨rfl, by simp [whiteWidth]⟩
  · rename_i b rest _ _ _ _ _ _
    -- All other white characters are ASCII.
    have ascii : b < 0x80 := by
      split at shown
      · rename_i blank
        simp only [Bool.or_eq_true, Bool.and_eq_true, decide_eq_true_eq, UInt8.le_iff_toNat_le,
          ← UInt8.toNat_inj, UInt8.lt_iff_toNat_lt] at blank ⊢
        simp only [UInt8.reduceToNat] at blank ⊢
        omega
      · exact absurd rfl shown
    rw [List.cons_append, whiteWidth_of_ascii ascii, whiteWidth_of_ascii ascii]
    refine ⟨rfl, ?_⟩
    split <;> simp
  · exact absurd rfl shown

/-- The white space that starts a text is one character: a byte, and others that go on with it. -/
theorem exists_white (white : whiteWidth t ≠ 0) :
    ∃ b later rest, t = b :: later ++ rest ∧ whiteWidth (b :: later) ≠ 0 ∧
      isContinuation b = false ∧ ∀ c ∈ later, isContinuation c = true := by
  have wide : ∀ b : UInt8, (b ≤ 0x8A && 0x80 ≤ b || b = 0xA8 || b = 0xA9 || b = 0xAF) = true →
      isContinuation b = true := forall_byte (by decide +kernel)
  have ascii : ∀ b : UInt8, (0x09 ≤ b && b ≤ 0x0D || b = 0x20) = true →
      b < 0x80 ∧ isContinuation b = false := forall_byte (by decide +kernel)
  -- White space of more than one byte is told by its bytes, one case for each.
  unfold whiteWidth at white
  split at white
  · exact ⟨0xC2, [0x85], _, rfl, by decide, rfl, by simp [isContinuation]⟩
  · exact ⟨0xC2, [0xA0], _, rfl, by decide, rfl, by simp [isContinuation]⟩
  · exact ⟨0xE1, [0x9A, 0x80], _, rfl, by decide, rfl, by simp [isContinuation]⟩
  · rename_i b rest
    split at white
    · rename_i third
      refine ⟨0xE2, [0x80, b], rest, rfl, by simp [whiteWidth, third], rfl, ?_⟩
      simpa [isContinuation] using wide b third
    · exact absurd rfl white
  · exact ⟨0xE2, [0x81, 0x9F], _, rfl, by decide, rfl, by simp [isContinuation]⟩
  · exact ⟨0xE3, [0x80, 0x80], _, rfl, by decide, rfl, by simp [isContinuation]⟩
  · rename_i b rest _ _ _ _ _ _
    split at white
    · rename_i blank
      obtain ⟨low, lead⟩ := ascii b blank
      refine ⟨b, [], rest, rfl, ?_, lead, List.forall_mem_nil _⟩
      rw [whiteWidth_of_ascii low, if_pos blank]
      exact Nat.one_ne_zero
    · exact absurd rfl white
  · exact absurd rfl white

/-- A text that does not start with white space does not when white space follows. -/
theorem whiteWidth_append_of_white (solid : whiteWidth s = 0) (given : s ≠ [])
    (white : whiteWidth t ≠ 0) : whiteWidth (s ++ t) = 0 := by
  by_contra first
  obtain ⟨b, later, rest, split, wide, -, goes⟩ := exists_white first
  obtain ⟨lead, behind, rest', rfl, -, starts, -⟩ := exists_white white
  rcases List.append_eq_append_iff.1 split with ⟨d, whole, cut⟩ | ⟨d, whole, -⟩
  · -- The character would reach over the start of the white space behind.
    cases d with
    | nil =>
      rw [List.append_nil] at whole
      exact wide (whole ▸ solid)
    | cons c d =>
      obtain ⟨rfl, -⟩ := List.cons.inj cut
      obtain ⟨a, s, rfl⟩ := List.exists_cons_of_ne_nil given
      have inside : lead ∈ later := by simp [(List.cons.inj whole).2]
      rw [goes lead inside] at starts
      cases starts
  · rw [whole, (whiteWidth_append wide d).1] at solid
    exact wide solid

/-- What stands before the text ends there: nothing follows, or white space. -/
def EndsWord (t : Text) : Prop :=
  t = [] ∨ whiteWidth t ≠ 0

theorem EndsWord.append (hs : EndsWord s) (ht : EndsWord t) : EndsWord (s ++ t) := by
  rcases hs with rfl | white
  · exact ht
  · exact .inr (by rwa [(whiteWidth_append white t).1])

/-! ## Trimming -/

theorem dropWhite_isSuffix (skip : Nat) (t : Text) : dropWhite skip t <:+ t := by
  induction t generalizing skip with
  | nil => exact List.suffix_rfl
  | cons b t ih =>
    cases skip with
    | succ skip => exact (ih skip).trans (List.suffix_cons b t)
    | zero =>
      rw [dropWhite]
      split
      · exact List.suffix_rfl
      · exact (ih _).trans (List.suffix_cons b t)

/-- A text that is all white space can be passed over. -/
theorem dropWhite_append {skip : Nat} (h : dropWhite skip s = []) (within : skip ≤ s.length)
    (t : Text) :
    dropWhite skip (s ++ t) = dropWhite 0 t := by
  induction s generalizing skip with
  | nil =>
    cases Nat.le_zero.1 within
    rfl
  | cons b s ih =>
    cases skip with
    | succ skip => exact ih h (Nat.le_of_succ_le_succ within)
    | zero =>
      rw [dropWhite] at h
      split at h
      · cases h
      · rename_i width white
        have wide : whiteWidth (b :: s) ≠ 0 := by omega
        obtain ⟨same, inside⟩ := whiteWidth_append wide t
        rw [List.cons_append] at same ⊢
        rw [dropWhite, same, white]
        exact ih h (by simp at inside; omega)

theorem whiteWidth_trimStart (t : Text) : whiteWidth (trimStart t) = 0 := by
  have after : ∀ skip, whiteWidth (dropWhite skip t) = 0 := by
    induction t with
    | nil => exact fun _ => rfl
    | cons b t ih =>
      intro skip
      cases skip with
      | succ skip => exact ih skip
      | zero =>
        rw [dropWhite]
        split
        · rename_i solid
          exact solid
        · exact ih _
  exact after 0

theorem trimStart_eq_self (solid : whiteWidth t = 0) : trimStart t = t := by
  cases t with
  | nil => rfl
  | cons b t => rw [trimStart, dropWhite, solid]

theorem endsWord_of_blank (blank : trimStart t = []) : EndsWord t := by
  by_cases solid : whiteWidth t = 0
  · exact .inl (by rw [← trimStart_eq_self solid, blank])
  · exact .inr solid

/-- White space behind what is left stays. -/
theorem dropWhite_append_of_endsWord {skip : Nat} (solid : dropWhite skip s ≠ [])
    (ends : EndsWord t) : dropWhite skip (s ++ t) = dropWhite skip s ++ t := by
  induction s generalizing skip with
  | nil => cases skip <;> exact absurd rfl solid
  | cons b s ih =>
    cases skip with
    | succ skip => exact ih solid
    | zero =>
      cases first : whiteWidth (b :: s) with
      | zero =>
        -- The first byte is solid, and remains so with white space behind it.
        have still : whiteWidth (b :: s ++ t) = 0 := by
          rcases ends with rfl | white
          · rw [List.append_nil, first]
          · exact whiteWidth_append_of_white first (List.cons_ne_nil b s) white
        rw [List.cons_append] at still ⊢
        rw [dropWhite, dropWhite, first, still]
        rfl
      | succ width =>
        have wide : whiteWidth (b :: s) ≠ 0 := by omega
        have same := (whiteWidth_append wide t).1
        rw [List.cons_append, first] at same
        rw [dropWhite, first] at solid
        rw [List.cons_append, dropWhite, dropWhite, first, same]
        exact ih solid

/-- There is nothing to trim off the end exactly if no part at the end is white. -/
theorem trimEnd_eq_self_iff :
    trimEnd t = t ↔ ∀ front back, t = front ++ back → back ≠ [] → trimStart back ≠ [] := by
  induction t with
  | nil => simp [trimEnd]
  | cons b t ih =>
    rw [trimEnd]
    split
    · rename_i white
      refine iff_of_false (by simp) fun h => h [] (b :: t) rfl (by simp) white
    · -- The first byte starts what is solid, so only proper ends remain to be looked at.
      rename_i solid
      rw [List.cons_inj_right, ih]
      constructor
      · intro h front back whole given
        cases front with
        | nil =>
          rw [List.nil_append] at whole
          exact whole ▸ solid
        | cons c front => exact h front back (List.cons.inj whole).2 given
      · intro h front back whole given
        exact h (b :: front) back (by rw [whole, List.cons_append]) given

theorem trimEnd_of_append (h : trimEnd (s ++ t) = s ++ t) : trimEnd t = t :=
  trimEnd_eq_self_iff.2 fun front back whole =>
    trimEnd_eq_self_iff.1 h (s ++ front) back (by rw [whole, List.append_assoc])

theorem exists_eq_trimEnd_append (t : Text) :
    ∃ white, t = trimEnd t ++ white ∧ trimStart white = [] := by
  induction t with
  | nil => exact ⟨[], rfl, rfl⟩
  | cons b t ih =>
    rw [trimEnd]
    split
    · rename_i white
      exact ⟨b :: t, rfl, white⟩
    · obtain ⟨white, split, blank⟩ := ih
      exact ⟨white, by rw [List.cons_append, ← split], blank⟩

theorem trimStart_append_eq_nil_iff (blank : trimStart t = []) :
    trimStart (s ++ t) = [] ↔ trimStart s = [] := by
  refine ⟨fun whole => ?_, fun bare => (dropWhite_append bare (Nat.zero_le _) t).trans blank⟩
  by_contra solid
  rw [trimStart, dropWhite_append_of_endsWord solid (endsWord_of_blank blank)] at whole
  exact solid (List.append_eq_nil_iff.1 whole).1

/-- White space at the end comes off with what there is before it. -/
theorem trimEnd_append_of_blank (blank : trimStart t = []) (s : Text) :
    trimEnd (s ++ t) = trimEnd s := by
  induction s with
  | nil =>
    cases t with
    | nil => rfl
    | cons b t => exact if_pos blank
  | cons b s ih =>
    have bare := trimStart_append_eq_nil_iff (s := b :: s) blank
    rw [List.cons_append] at bare ⊢
    rw [trimEnd, trimEnd, ih]
    simp only [bare]

/-- What is left has nothing more to trim off its end. -/
theorem trimEnd_trimEnd (t : Text) : trimEnd (trimEnd t) = trimEnd t := by
  obtain ⟨white, cut, blank⟩ := exists_eq_trimEnd_append t
  have same := trimEnd_append_of_blank blank (trimEnd t)
  rw [← cut] at same
  exact same.symm

/-- Trimming a text twice is trimming it once. -/
theorem trim_trim (t : Text) : trim (trim t) = trim t := by
  have solid : whiteWidth (trimEnd (trimStart t)) = 0 := by
    obtain ⟨white, cut, -⟩ := exists_eq_trimEnd_append (trimStart t)
    by_contra blank
    have same := (whiteWidth_append blank white).1
    rw [← cut, whiteWidth_trimStart] at same
    exact blank same.symm
  unfold trim
  rw [trimStart_eq_self solid, trimEnd_trimEnd]

/-- Trimming the start, too, leaves a part of what trimming the end does. -/
theorem trim_isInfix_trimEnd (t : Text) : trim t <:+: trimEnd t := by
  obtain ⟨white, cut, blank⟩ := exists_eq_trimEnd_append t
  have part : trimStart (trimEnd t) <:+: trimEnd t := (dropWhite_isSuffix 0 _).isInfix
  refine List.IsInfix.trans ?_ part
  unfold trim
  -- A text of white space alone trims to nothing; otherwise both ends can be trimmed in either
  -- order.
  by_cases bare : trimStart (trimEnd t) = []
  · have nothing : trimStart t = [] := by
      rw [cut]
      exact (trimStart_append_eq_nil_iff blank).2 bare
    rw [nothing]
    exact List.nil_infix
  · have start : trimStart t = trimStart (trimEnd t) ++ white := by
      conv_lhs => rw [cut]
      exact dropWhite_append_of_endsWord bare (endsWord_of_blank blank)
    rw [start, trimEnd_append_of_blank blank]
    exact (trimEnd_isPrefix _).isInfix

/-! ## What is trimmed off -/

/-- A text starts with white space again and again, until it does not. -/
@[elab_as_elim]
theorem white_induction {P : Text → Prop} (t : Text)
    (solid : ∀ t, whiteWidth t = 0 → P t)
    (white : ∀ t width, whiteWidth t = width + 1 → P (t.drop (width + 1)) → P t) : P t := by
  induction long : t.length using Nat.strongRecOn generalizing t with
  | _ n ih =>
    cases wide : whiteWidth t with
    | zero => exact solid t wide
    | succ width =>
      have given : t ≠ [] := by
        rintro rfl
        cases wide
      have pos := List.length_pos_iff.2 given
      exact white t width wide (ih _ (by rw [List.length_drop]; omega) _ rfl)

private theorem dropWhite_eq (skip : Nat) (t : Text) :
    dropWhite skip t = trimStart (t.drop skip) := by
  induction t generalizing skip with
  | nil => cases skip <;> rfl
  | cons b t ih =>
    cases skip with
    | zero => rfl
    | succ skip => exact ih skip

theorem trimStart_of_white {width : Nat} (white : whiteWidth t = width + 1) :
    trimStart t = trimStart (t.drop (width + 1)) := by
  cases t with
  | nil => cases white
  | cons b t =>
    rw [trimStart, dropWhite, white]
    exact dropWhite_eq width t

/-- The bytes of white space are white space themselves or beyond ASCII. -/
private theorem bytes_of_white {b : UInt8} (hb : b ∈ t.take (whiteWidth t)) :
    0x80 ≤ b ∨ whiteWidth [b] ≠ 0 := by
  by_cases white : whiteWidth t = 0
  · rw [white] at hb
    cases hb
  obtain ⟨lead, later, rest, rfl, own, -, goes⟩ := exists_white white
  obtain ⟨same, inside⟩ := whiteWidth_append own rest
  rw [same, List.take_append_of_le_length inside] at hb
  -- The first byte is white by itself or starts a character beyond ASCII; the others continue one.
  rcases List.mem_cons.1 (List.mem_of_mem_take hb) with rfl | hb
  · by_cases ascii : b < 0x80
    · rw [whiteWidth_of_ascii ascii] at own ⊢
      exact .inr own
    · exact .inl (UInt8.not_lt.1 ascii)
  · have goes := goes b hb
    rw [isContinuation, Bool.and_eq_true] at goes
    exact .inl (of_decide_eq_true goes.1)

/-- What is trimmed off the start has no ASCII but white space. -/
theorem exists_eq_append_trimStart (t : Text) :
    ∃ lead, t = lead ++ trimStart t ∧ ∀ b ∈ lead, 0x80 ≤ b ∨ whiteWidth [b] ≠ 0 := by
  induction t using white_induction with
  | solid t solid => exact ⟨[], (trimStart_eq_self solid).symm, nofun⟩
  | white t width white ih =>
    obtain ⟨lead, split, bytes⟩ := ih
    refine ⟨t.take (width + 1) ++ lead, ?_, ?_⟩
    · rw [List.append_assoc, trimStart_of_white white, ← split, List.take_append_drop]
    · refine List.forall_mem_append.2 ⟨fun b hb => ?_, bytes⟩
      exact bytes_of_white (white ▸ hb)

/-- White space has no other ASCII. -/
theorem bytes_of_blank (blank : trimStart t = []) : ∀ b ∈ t, 0x80 ≤ b ∨ whiteWidth [b] ≠ 0 := by
  obtain ⟨lead, split, bytes⟩ := exists_eq_append_trimStart t
  rw [blank, List.append_nil] at split
  exact split ▸ bytes

theorem not_mem_of_bytes {a : UInt8} (bytes : ∀ b ∈ t, 0x80 ≤ b ∨ whiteWidth [b] ≠ 0)
    (ascii : a < 0x80) (solid : whiteWidth [a] = 0) : a ∉ t := fun ha =>
  (bytes a ha).elim (UInt8.not_le.2 ascii) fun white => white solid

/-- A byte of ASCII that is not white stays at the end of a text, and so does what is before it. -/
theorem trimEnd_concat (ascii : b < 0x80) (solid : whiteWidth [b] = 0) (s : Text) :
    trimEnd (s ++ [b]) = s ++ [b] := by
  refine trimEnd_eq_self_iff.2 fun front back whole given blank => ?_
  have behind : back <:+ s ++ [b] := ⟨front, whole.symm⟩
  obtain ⟨init, rfl, -⟩ := (List.suffix_concat_iff.1 behind).resolve_left given
  have last : b ∈ init ++ [b] := List.mem_append_right init (List.mem_singleton_self b)
  exact not_mem_of_bytes (bytes_of_blank blank) ascii solid last

end Interlace.Text
