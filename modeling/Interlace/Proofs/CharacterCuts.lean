import Interlace.Proofs.PatternReadings

/-!
# Cuts between characters

A text that is cut where a character starts is cut into two texts that are well formed. So are the
literal parts of a template, which start and end where its text does or at the braces of a
placeholder.

## Key results

- `Text.wellFormed_append_iff`: cut where a character starts, both sides are well formed
- `Template.wellFormed_of_mem_parts`: the literal parts of a template are well formed
-/

namespace Interlace

open WrapPattern (StartsWhole)

namespace Text

variable {b : UInt8} {s t : Text} {point width : Nat}

/-- A character is read from its own bytes. -/
private theorem readPoint_of_append (h : readPoint b (s ++ t) = (some point, width))
    (within : width ≤ s.length + 1) : readPoint b s = (some point, width) := by
  unfold readPoint at h ⊢
  by_cases ascii : b < 0x80
  · simpa only [ascii, if_true] using h
  · simp only [ascii, if_false] at h ⊢
    -- A longer form is read from a text that has as many bytes.
    match s, within with
    | [], within =>
      obtain rfl | rfl : width = 0 ∨ width = 1 := by
        rw [List.length_nil] at within
        omega
      all_goals grind
    | [c], within => grind
    | [c, d], within => grind
    | c :: d :: e :: s, within => grind

/-- Behind its first byte, a character has continuation bytes only. -/
private theorem isContinuation_of_mem_take_readPoint {c : UInt8}
    (h : readPoint b t = (some point, width)) (hc : c ∈ t.take (width - 1)) :
    isContinuation c = true := by
  -- The table narrows the range of the first continuation byte and never widens it.
  have bounds : (demand b).2.2 < (demand b).2.1 ∨
      0x80 ≤ (demand b).2.1 ∧ (demand b).2.2 ≤ 0xBF := by
    unfold demand
    repeat' split
    all_goals decide
  have first : ∀ {c}, (demand b).2.1 ≤ c → c ≤ (demand b).2.2 → isContinuation c = true := by
    intro c above below
    simp only [isContinuation, Bool.and_eq_true, decide_eq_true_eq]
    simp only [UInt8.le_iff_toNat_le, UInt8.lt_iff_toNat_lt] at *
    omega
  unfold readPoint at h
  by_cases ascii : b < 0x80
  · simp only [ascii, if_true, Prod.mk.injEq] at h
    simp [← h.2] at hc
  · simp only [ascii, if_false] at h
    generalize demand b = wanted at first h
    obtain ⟨n, low, high⟩ := wanted
    dsimp only at first
    split at h
    all_goals repeat' split at h
    all_goals cases h
    all_goals simp only [Nat.reduceSub, List.take_succ_cons, List.take_zero, List.mem_cons,
      List.not_mem_nil, or_false] at hc
    all_goals grind

/-- A text that is cut where a character starts is passed over up to there, and from there on. -/
private theorem firstIllFormed_cut {offset skip : Nat} (whole : StartsWhole t)
    (inside : skip ≤ (s ++ t).length) (skipped : ∀ c ∈ (s ++ t).take skip, isContinuation c = true)
    (h : firstIllFormed offset skip (s ++ t) = none) :
    skip ≤ s.length ∧ firstIllFormed offset skip s = none ∧ t.WellFormed := by
  induction s generalizing offset skip with
  | nil =>
    cases skip with
    | zero => exact ⟨Nat.le_refl 0, rfl, firstIllFormed_eq_none_iff.1 h⟩
    | succ skip =>
      cases t with
      | nil => cases inside
      | cons b t =>
        have later := skipped b (by simp)
        rw [whole b rfl] at later
        cases later
  | cons c s ih =>
    cases skip with
    | succ skip =>
      obtain ⟨le, front, back⟩ := ih (Nat.le_of_succ_le_succ inside)
        (fun d hd => skipped d (List.mem_cons_of_mem c hd)) h
      exact ⟨Nat.succ_le_succ le, front, back⟩
    | zero =>
      -- A character starts behind the cut, so the one that is read here ends before it.
      rw [List.cons_append, firstIllFormed] at h
      split at h
      · rename_i point width read
        obtain ⟨-, long⟩ := readPoint_append read []
        obtain ⟨le, front, back⟩ := ih (by omega)
          (fun d hd => isContinuation_of_mem_take_readPoint read hd) h
        refine ⟨Nat.zero_le _, ?_, back⟩
        rw [firstIllFormed, readPoint_of_append read (by omega)]
        exact front
      · cases h

theorem WellFormed.startsWhole (h : t.WellFormed) : StartsWhole t := by
  cases t with
  | nil => exact nofun
  | cons b t =>
    rintro c ⟨⟩
    exact isContinuation_of_firstIllFormed h

/-- Cut where a character starts, both sides of a text are well formed. -/
theorem wellFormed_append_iff (whole : StartsWhole t) :
    (s ++ t).WellFormed ↔ s.WellFormed ∧ t.WellFormed := by
  refine ⟨fun h => ?_, fun ⟨hs, ht⟩ => hs.append ht⟩
  exact (firstIllFormed_cut whole (Nat.zero_le _) nofun h).2

/-- What follows a well-formed part of a well-formed text is well formed. -/
theorem WellFormed.of_append_left (h : (s ++ t).WellFormed) (hs : s.WellFormed) :
    t.WellFormed := by
  have behind := firstIllFormed_append (Nat.zero_le _) hs t
  exact firstIllFormed_eq_none_iff.1 (behind.symm.trans h)

theorem wellFormed_flatten {us : List Text} (h : ∀ u ∈ us, u.WellFormed) :
    WellFormed us.flatten := by
  induction us with
  | nil => rfl
  | cons u us ih =>
    obtain ⟨first, rest⟩ := List.forall_mem_cons.1 h
    exact first.append (ih rest)

end Text

namespace Template

variable {parts : List TemplatePart} {t : Text}

/-- The text is made of the literal parts, at the end or before an opening brace, and for each
placeholder of something in braces. -/
inductive Braced : List TemplatePart → Text → Prop where
  | nil : Braced [] []
  | literal {parts : List TemplatePart} {t : Text} (text : Text) (last : ∀ b ∈ t.head?, b = 0x7B)
      (rest : Braced parts t) : Braced (.literal text :: parts) (text ++ t)
  | placeholder {part : TemplatePart} {parts : List TemplatePart} {t : Text} (inner : Text)
      (other : ∀ text, part ≠ .literal text) (rest : Braced parts t) :
      Braced (part :: parts) (0x7B :: (inner ++ 0x7D :: t))

private theorem braced_pushByte (h : Braced parts t) (b : UInt8) :
    Braced (pushByte b parts) (b :: t) := by
  cases h with
  | nil => exact .literal [b] nofun .nil
  | literal text last rest => exact .literal (b :: text) last rest
  | @placeholder part parts t inner other rest =>
    have alone : pushByte b (part :: parts) = .literal [b] :: part :: parts := by
      cases part with
      | literal text => exact absurd rfl (other text)
      | hole => rfl
      | named name => rfl
    rw [alone]
    exact .literal [b] (by simp) (.placeholder inner other rest)

/-- A placeholder stands in braces. -/
private theorem exists_inner_of_placeholder? {part : TemplatePart} {rest : Text}
    (h : placeholder? t = some (part, rest)) : ∃ inner, t = 0x7B :: (inner ++ 0x7D :: rest) := by
  obtain ⟨-, front, whole⟩ := placeholder?_eq_some h
  obtain ⟨u, opened, -⟩ := Option.bind_eq_some_iff.1 h
  have opened := Text.stripPrefix?_eq_some_iff.1 opened
  have opening : ("\x7b\x7b" : Text) = [0x7B, 0x7B] := by decide
  have closing : ("\x7d\x7d" : Text) = [0x7D, 0x7D] := by decide
  rw [closing] at whole
  rw [opening, whole] at opened
  -- The two braces that open are not those that close.
  cases front with
  | nil =>
    have same : (0x7D : UInt8) = 0x7B := (List.cons.inj opened).1
    exact absurd same (by decide)
  | cons c front =>
    obtain rfl : c = 0x7B := (List.cons.inj opened).1
    exact ⟨front ++ [0x7D], by simp [whole]⟩

private theorem braced_partsFrom (skip : Nat) (t : Text) :
    Braced (partsFrom skip t) (t.drop skip) := by
  induction t generalizing skip with
  | nil =>
    rw [partsFrom, List.drop_nil]
    exact .nil
  | cons b t ih =>
    cases skip with
    | succ skip => exact ih skip
    | zero =>
      rw [partsFrom]
      split
      · rename_i part rest found
        obtain ⟨other, -⟩ := placeholder?_eq_some found
        obtain ⟨inner, whole⟩ := exists_inner_of_placeholder? found
        obtain ⟨rfl, behind⟩ := List.cons.inj whole
        -- The scan skips the placeholder, so it goes on at what follows that.
        have passed : t.drop (t.length - rest.length) = rest := by
          have last : t = (inner ++ [0x7D]) ++ rest := by simp [behind]
          rw [last, List.length_append, Nat.add_sub_cancel, List.drop_left]
        have braced := ih (t.length - rest.length)
        rw [passed] at braced
        rw [List.drop_zero, whole]
        exact .placeholder inner other braced
      · exact braced_pushByte (ih 0) b

theorem Braced.wellFormed (h : Braced parts t) (whole : t.WellFormed) {u : Text}
    (hu : .literal u ∈ parts) : u.WellFormed := by
  induction h with
  | nil => cases hu
  | @literal parts t text last rest ih =>
    -- A literal ends where a brace starts, which is a character.
    have starts : StartsWhole t := fun b hb => by rw [last b hb]; decide
    obtain ⟨front, back⟩ := (Text.wellFormed_append_iff starts).1 whole
    rcases List.mem_cons.1 hu with same | later
    · cases same
      exact front
    · exact ih back later
  | @placeholder part parts t inner other rest ih =>
    have brace : (0x7D : UInt8) < 0x80 := by decide
    rw [← List.cons_append] at whole
    obtain ⟨offset, back⟩ := Text.exists_firstIllFormed_of_ascii brace (by simp) whole
    refine ih (Text.firstIllFormed_eq_none_iff.1 back) ?_
    exact (List.mem_cons.1 hu).resolve_left fun same => other u same.symm

/-- The literal parts of a template are well formed. -/
theorem wellFormed_of_mem_parts {t : Template} (whole : t.text.WellFormed) {u : Text}
    (hu : .literal u ∈ t.parts) : u.WellFormed :=
  (braced_partsFrom 0 t.text).wellFormed (by rwa [List.drop_zero]) hu

end Template

end Interlace
