import Interlace.Proofs.Folds
import Interlace.Proofs.Words

/-!
# Versions among other text

A version stands at the start of what it is read from, and only white space ends it. So what stands
behind it does not matter, except behind the word that announces a version of the next release.

## Key results

- `Version.readNumbers?_of_append`: what follows the numbers does not matter
- `Version.parse?_first`: a version is the first word of its text, unless that word announces it
-/

namespace Interlace

open Text

namespace Text

variable {b : UInt8} {s t : Text}

/-- Nothing that can be seen follows. -/
def Faint (t : Text) : Prop :=
  ∀ b ∈ t.head?, isVisible b = false

private theorem EndsWord.faint_of_prefix (h : EndsWord t) (front : s <+: t) : Faint s := by
  obtain ⟨back, rfl⟩ := front
  cases s with
  | nil => exact nofun
  | cons b s =>
    rintro c ⟨⟩
    refine Bool.eq_false_iff.2 fun visible => ?_
    exact h.resolve_left (List.cons_ne_nil _ _) (whiteWidth_of_isVisible visible (s ++ back))

/-- A visible prefix comes off the text in front. -/
private theorem stripPrefix?_append {lead : Text} (visible : ∀ b ∈ lead, isVisible b)
    (faint : Faint t)
    (s : Text) : stripPrefix? lead (s ++ t) = (stripPrefix? lead s).map (· ++ t) := by
  induction lead generalizing s with
  | nil => rfl
  | cons a lead ih =>
    obtain ⟨first, others⟩ := List.forall_mem_cons.1 visible
    cases s with
    | nil =>
      cases t with
      | nil => rfl
      | cons c t =>
        -- The prefix would have to go on with a byte that cannot be seen.
        have other : a ≠ c := by
          rintro rfl
          rw [faint a rfl] at first
          cases first
        simp [stripPrefix?, other]
    | cons c s =>
      rw [List.cons_append, stripPrefix?, stripPrefix?]
      split
      · exact ih others s
      · rfl

/-- A number is read from visible bytes only. -/
private theorem isVisible_of_readDigits {bound value n : Nat}
    (h : readDigits bound value t = .ok n) : ∀ b ∈ t, isVisible b := by
  induction t generalizing value with
  | nil => exact List.forall_mem_nil _
  | cons b t ih =>
    rw [readDigits] at h
    split at h
    · rename_i digit
      dsimp only at h
      split at h
      · exact List.forall_mem_cons.2 ⟨(isVisible_of_isDigit digit).1, ih h⟩
      · cases h
    · cases h

private theorem isVisible_of_decimal? {bound n : Nat} (h : decimal? bound t = some n) :
    ∀ b ∈ t, isVisible b := by
  have read : decimal bound t = .ok n := toOption_eq_some_iff.1 h
  unfold decimal at read
  split at read
  · cases read
  · cases read
  · exact List.forall_mem_cons.2 ⟨by decide, isVisible_of_readDigits read⟩
  · exact isVisible_of_readDigits read

/-- The digits that a text starts with are in its first piece. -/
private theorem takeWhile_isDigit_headD (t : Text) :
    ((splitWhere (· = 0x2E) t).headD []).takeWhile isDigit = t.takeWhile isDigit := by
  induction t with
  | nil => rfl
  | cons b t ih =>
    obtain ⟨piece, pieces, split⟩ := List.exists_cons_of_ne_nil (splitWhere_ne_nil (· = 0x2E) t)
    rw [split, List.headD_cons] at ih
    rw [splitWhere, split]
    dsimp only
    split
    · -- A dot is no digit, so the digits end where the piece does.
      rename_i dot
      obtain rfl : b = 0x2E := by simpa using dot
      rfl
    · rw [List.headD_cons, List.takeWhile_cons, List.takeWhile_cons, ih]

private theorem takeWhile_isDigit_append (faint : Faint t) (s : Text) :
    (s ++ t).takeWhile isDigit = s.takeWhile isDigit := by
  induction s with
  | nil =>
    cases t with
    | nil => rfl
    | cons b t =>
      have other : ¬ isDigit b := fun digit => by
        have visible := (isVisible_of_isDigit digit).1
        rw [faint b rfl] at visible
        cases visible
      simp [other]
  | cons b s ih => rw [List.cons_append, List.takeWhile_cons, List.takeWhile_cons, ih]

end Text

namespace Version

variable {s t w : Text} {v : Version}

/-- The numbers are what stands before the first dot, and the digits behind it. -/
private theorem readNumbers?_dotted {first rest : Text} (dotless : 0x2E ∉ first) :
    readNumbers? (first ++ 0x2E :: rest) = do
      let major ← decimal? bound32 first
      let minor ← decimal? bound32 (rest.takeWhile isDigit)
      return ⟨major, minor⟩ := by
  obtain ⟨piece, pieces, split⟩ := List.exists_cons_of_ne_nil (splitWhere_ne_nil (· = 0x2E) rest)
  have digits := takeWhile_isDigit_headD rest
  have uncut : ∀ c ∈ first, decide (c = 0x2E) = false := fun c hc =>
    decide_eq_false fun dot => dotless (dot ▸ hc)
  rw [split, List.headD_cons] at digits
  rw [readNumbers?, splitWhere_append uncut rfl, split, ← digits]
  rfl

/-- What stands behind the numbers does not matter. -/
theorem readNumbers?_of_append (faint : Faint t) (h : readNumbers? (s ++ t) = some v) :
    readNumbers? s = some v := by
  by_cases dotted : 0x2E ∈ s
  · obtain ⟨first, rest, rfl, dotless⟩ := List.eq_append_cons_of_mem dotted
    rw [List.append_assoc, List.cons_append, readNumbers?_dotted dotless,
      takeWhile_isDigit_append faint] at h
    rwa [readNumbers?_dotted dotless]
  · -- Before the first dot stands a number, which ends where the text does.
    have uncut : ∀ c ∈ s, decide (c = 0x2E) = false := fun c hc =>
      decide_eq_false fun dot => dotted (dot ▸ hc)
    cases t with
    | nil => rwa [List.append_nil] at h
    | cons b t =>
      have hidden := faint b rfl
      have other : ¬ decide (b = 0x2E) = true := by
        rw [decide_eq_true_eq]
        rintro rfl
        cases hidden
      obtain ⟨piece, pieces, split⟩ := List.exists_cons_of_ne_nil (splitWhere_ne_nil (· = 0x2E) t)
      have behind : splitWhere (· = 0x2E) (b :: t) = (b :: piece) :: pieces := by
        rw [splitWhere, split]
        exact if_neg other
      rw [readNumbers?, splitWhere_append_of_uncut uncut behind] at h
      obtain ⟨major, read, -⟩ := Option.bind_eq_some_iff.1 h
      rw [isVisible_of_decimal? read b (by simp)] at hidden
      cases hidden

/-- The word that announces a version stands alone, so it does not come off another word. -/
private theorem stripPrefix?_devel (solid : w.Solid) (other : w ≠ "devel") (faint : Faint t) :
    stripPrefix? "devel " (w ++ t) = none := by
  refine Option.eq_none_iff_forall_ne_some.2 fun rest stripped => ?_
  have spaced : ("devel " : Text) = ofString "devel" ++ [0x20] := by decide
  have whole := stripPrefix?_eq_some_iff.1 stripped
  rw [spaced, List.append_assoc] at whole
  -- The prefix would have to come off the word alone, since what follows starts with white space.
  have front := stripPrefix?_eq_some_iff.2 whole
  rw [stripPrefix?_append (by decide +kernel) faint] at front
  obtain ⟨back, own, behind⟩ := Option.map_eq_some_iff.1 front
  obtain rfl := stripPrefix?_eq_some_iff.1 own
  cases back with
  | nil => exact other (List.append_nil _)
  | cons c back =>
    obtain rfl : c = 0x20 := (List.cons.inj behind).1
    exact solid.not_mem (b := 0x20) (by decide) (by simp)

/-- A version is read from the word in front, unless that word announces it. -/
private theorem parse?_of_trim_eq (solid : w.Solid) (other : w ≠ "devel") (faint : Faint t)
    (trimmed : trim s = w ++ t) (h : parse? s = some v) : parse? w = some v := by
  have own := stripPrefix?_devel solid other (t := []) nofun
  rw [List.append_nil] at own
  rw [parse?, trimmed, stripPrefix?_devel solid other faint, Option.getD_none,
    stripPrefix?_append (by decide +kernel) faint] at h
  rw [parse?, solid.trim, own, Option.getD_none]
  cases stripped : stripPrefix? "go" w with
  | none =>
    rw [stripped] at h
    exact readNumbers?_of_append faint h
  | some back =>
    rw [stripped] at h
    exact readNumbers?_of_append faint h

/-- A version is read from the first word of a line, whatever stands around it, unless that word
announces it. -/
theorem parse?_first {line later : Text} (first : (words line).head? = some w)
    (other : w ≠ "devel") (ends : EndsWord later) (h : parse? (line ++ later) = some v) :
    parse? w = some v := by
  obtain ⟨rest, start, given, solid, stops⟩ := exists_of_head?_words first
  have left : trimStart line ≠ [] := by simp [start, given]
  have behind := stops.append ends
  obtain ⟨front, trimmed, prefix_⟩ := exists_trimEnd_append solid behind
  refine parse?_of_trim_eq solid other (behind.faint_of_prefix prefix_) ?_ h
  rw [trim, trimStart, dropWhite_append_of_endsWord left ends, ← trimStart, start,
    List.append_assoc, trimmed]

end Version

end Interlace
