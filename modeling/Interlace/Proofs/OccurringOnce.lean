import Interlace.Text.Basic
import Mathlib.Data.List.Infix

/-!
# Texts that occur once

A pattern of which no proper part both starts and ends it cannot overlap itself. So where it stands
in a text, it occurs elsewhere only in what stands before it or in what stands behind.

## Key results

- `Text.Unbordered.occursOnce_iff`: when a pattern that stands in a text occurs nowhere else
- `Text.infix_of_not_mem`: a pattern does not reach over a byte that it does not have
- `Text.infix_of_append`: patterns and texts that are cut off at their ends
-/

namespace Interlace.Text

/-- The pattern occurs at one place of the text and at no other. -/
def OccursOnce (pattern t : Text) : Prop :=
  ∃! before, ∃ behind, t = before ++ pattern ++ behind

/-- No proper part of the pattern both starts and ends it. -/
def Unbordered (pattern : Text) : Prop :=
  ∀ a b, pattern = a ++ b → b <+: pattern → a = [] ∨ b = []

variable {pattern a u v v' : Text}

/-- Behind one occurrence of a pattern that does not overlap itself, others start once it has
ended. -/
theorem Unbordered.apart (h : Unbordered pattern) (same : pattern ++ v = a ++ (pattern ++ v')) :
    a = [] ∨ ∃ b, a = pattern ++ b ∧ v = b ++ (pattern ++ v') := by
  rcases List.append_eq_append_iff.1 same with ⟨b, rfl, rest⟩ | ⟨b, whole, rest⟩
  · exact .inr ⟨b, rfl, rest⟩
  · have short : b.length ≤ pattern.length := by
      rw [whole, List.length_append]
      omega
    -- Otherwise the second would start within the first, and the pattern would overlap itself.
    have start : b <+: pattern :=
      List.prefix_of_prefix_length_le ⟨v, rest.symm⟩ (List.prefix_append pattern v') short
    rcases h a b whole start with none_before | none_behind
    · exact .inl none_before
    · rw [none_behind, List.append_nil] at whole
      rw [none_behind, List.nil_append] at rest
      exact .inr ⟨[], by rw [whole, List.append_nil], rest.symm⟩

/-- A pattern that does not overlap itself occurs once where it stands iff it occurs neither before
nor behind. -/
theorem Unbordered.occursOnce_iff (h : Unbordered pattern) (given : pattern ≠ []) :
    OccursOnce pattern (u ++ pattern ++ v) ↔ ¬ pattern <:+: u ∧ ¬ pattern <:+: v := by
  have size := List.length_pos_iff.2 given
  constructor
  · rintro ⟨w, -, only⟩
    have here : u = w := only u ⟨v, rfl⟩
    refine ⟨?_, ?_⟩
    · rintro ⟨a, b, rfl⟩
      have other : a = w := only a ⟨b ++ pattern ++ v, by simp⟩
      have long := congrArg List.length (other.trans here.symm)
      simp only [List.length_append] at long
      omega
    · rintro ⟨a, b, rfl⟩
      have other : u ++ pattern ++ a = w := only _ ⟨b, by simp⟩
      have long := congrArg List.length (other.trans here.symm)
      simp only [List.length_append] at long
      omega
  · rintro ⟨front, back⟩
    refine ⟨u, ⟨v, rfl⟩, ?_⟩
    rintro u' ⟨v', same⟩
    rw [List.append_assoc, List.append_assoc] at same
    rcases List.append_eq_append_iff.1 same with ⟨a, rfl, rest⟩ | ⟨a, rfl, rest⟩
    · -- The other one starts behind.
      rcases h.apart rest with rfl | ⟨b, -, rfl⟩
      · exact List.append_nil u
      · exact absurd ⟨b, v', by rw [List.append_assoc]⟩ back
    · rcases h.apart rest with rfl | ⟨b, rfl, -⟩
      · exact (List.append_nil u').symm
      · exact absurd ⟨u', b, by rw [List.append_assoc]⟩ front

/-- A pattern does not reach over a byte that it does not have. -/
theorem infix_of_not_mem {c : UInt8} (absent : c ∉ pattern) (h : pattern <:+: u ++ c :: v) :
    pattern <:+: u ∨ pattern <:+: v := by
  obtain ⟨a, b, whole⟩ := h
  rw [List.append_assoc] at whole
  -- The byte stands behind the pattern, in it, or before it.
  rcases List.append_eq_append_iff.1 whole with ⟨d, rfl, rest⟩ | ⟨d, rfl, rest⟩
  · rcases List.append_eq_append_iff.1 rest with ⟨e, rfl, -⟩ | ⟨e, split, rest⟩
    · exact .inl ⟨a, e, by rw [List.append_assoc]⟩
    · cases e with
      | nil => exact .inl ⟨a, [], by rw [split]; simp⟩
      | cons x e =>
        cases (List.cons.inj rest).1
        exact absurd (split ▸ by simp) absent
  · cases d with
    | nil =>
      cases pattern with
      | nil => exact .inl List.nil_infix
      | cons x pattern =>
        cases (List.cons.inj rest).1
        exact absurd List.mem_cons_self absent
    | cons x d =>
      obtain ⟨-, rfl⟩ := List.cons.inj rest
      exact .inr ⟨d, b, List.append_assoc d pattern b⟩

/-- A pattern that is cut off at its end is found in a text that is cut off no more. -/
theorem infix_of_append {behind : Text} (h : pattern ++ behind <:+: u ++ v)
    (short : v.length ≤ behind.length) : pattern <:+: u := by
  obtain ⟨a, b, whole⟩ := h
  rw [← List.append_assoc, List.append_assoc (a ++ pattern)] at whole
  rcases List.append_eq_append_iff.1 whole with ⟨d, rfl, -⟩ | ⟨d, cut, rfl⟩
  · exact ⟨a, d, rfl⟩
  · rw [List.length_append, List.length_append] at short
    have nothing : d = [] := List.eq_nil_of_length_eq_zero (by omega)
    exact ⟨a, [], by rw [cut, nothing, List.append_nil, List.append_nil]⟩

end Interlace.Text
