import Interlace.Dict
import Mathlib.Data.List.Induction

/-!
# Sorting

`sortBy` gives the elements of a list in order and keeps the order of elements that are not told
apart. The order has to be total and transitive, which is assumed throughout the second half.

## Key results

- `sortBy_perm`: nothing is lost and nothing is added
- `sortBy_pairwise`: the result is in order
- `filter_sortBy`: elements that are alike stay in their order
- `eq_filter_append_filter`: a list in the order of a key, cut at a value of the key
-/

namespace Interlace

variable {α : Type} {le : α → α → Bool}

theorem sortBy_concat (le : α → α → Bool) (l : List α) (a : α) :
    sortBy le (l ++ [a]) = insertBy le a (sortBy le l) := by
  simp [sortBy, List.foldl_append]

theorem insertBy_perm (le : α → α → Bool) (a : α) (l : List α) :
    (insertBy le a l).Perm (a :: l) := by
  induction l with
  | nil => exact List.Perm.refl _
  | cons b l ih =>
    rw [insertBy]
    split
    · exact (ih.cons b).trans (List.Perm.swap a b l)
    · exact List.Perm.refl _

/-- Sorting rearranges a list. -/
theorem sortBy_perm (le : α → α → Bool) (l : List α) : (sortBy le l).Perm l := by
  induction l using List.reverseRecOn with
  | nil => exact List.Perm.refl _
  | append_singleton l a ih =>
    rw [sortBy_concat]
    have grown : (insertBy le a (sortBy le l)).Perm (a :: l) :=
      (insertBy_perm le a _).trans (ih.cons a)
    exact grown.trans (List.perm_append_singleton a l).symm

private theorem insertBy_map {β : Type} (le : β → β → Bool) (f : α → β) (a : α) (l : List α) :
    insertBy le (f a) (l.map f) = (insertBy (fun x y => le (f x) (f y)) a l).map f := by
  induction l with
  | nil => rfl
  | cons b l ih =>
    rw [List.map_cons, insertBy, insertBy, ih]
    split <;> rfl

/-- Sorting by a key of the elements sorts the keys. -/
theorem sortBy_map {β : Type} (le : β → β → Bool) (f : α → β) (l : List α) :
    sortBy le (l.map f) = (sortBy (fun x y => le (f x) (f y)) l).map f := by
  induction l using List.reverseRecOn with
  | nil => rfl
  | append_singleton l a ih =>
    rw [List.map_append, List.map_singleton, sortBy_concat, sortBy_concat, ih, insertBy_map]

/-- A list in the order of a key is what is below a bound and then what is not. -/
theorem eq_filter_append_filter {key : α → Nat} {l : List α}
    (sorted : l.Pairwise fun a b => key a ≤ key b) (bound : Nat) :
    l = l.filter (fun a => key a < bound) ++ l.filter (fun a => bound ≤ key a) := by
  induction l with
  | nil => rfl
  | cons a l ih =>
    obtain ⟨first, rest⟩ := List.pairwise_cons.1 sorted
    by_cases low : key a < bound
    · simp only [List.filter_cons, low, Nat.not_le.2 low, decide_true, decide_false, if_true,
        Bool.false_eq_true, if_false, List.cons_append]
      rw [← ih rest]
    · -- Nothing comes back below the bound.
      have above : ∀ b ∈ a :: l, bound ≤ key b := by
        intro b hb
        rcases List.mem_cons.1 hb with rfl | hb
        · omega
        · have := first b hb
          omega
      have nothing : (a :: l).filter (fun b => key b < bound) = [] :=
        List.filter_eq_nil_iff.2 fun b hb => by simpa using above b hb
      have everything : (a :: l).filter (fun b => bound ≤ key b) = a :: l :=
        List.filter_eq_self.2 fun b hb => by simpa using above b hb
      rw [nothing, everything, List.nil_append]

/-! ## Orders -/

section

variable (trans : ∀ a b c, le a b → le b c → le a c)

include trans

/-- What is inserted comes last among the elements that are like it. -/
private theorem filter_insertBy {p : α → Bool} {a : α} (alike : ∀ b, p b → p a → le b a)
    {l : List α} (sorted : l.Pairwise fun b c => le b c) :
    (insertBy le a l).filter p = l.filter p ++ [a].filter p := by
  induction l with
  | nil => rfl
  | cons b l ih =>
    obtain ⟨first, rest⟩ := List.pairwise_cons.1 sorted
    rw [insertBy]
    split
    · rw [List.filter_cons, List.filter_cons, ih rest]
      split <;> rfl
    · rename_i stop
      cases ha : p a with
      | false => simp [ha]
      | true =>
        -- Everything from here on is above `b`, which is not below `a`, so nothing is like `a`.
        have unlike : ∀ c ∈ b :: l, p c = false := by
          intro c hc
          rw [Bool.eq_false_iff]
          intro hp
          have below : le c a := alike c hp ha
          rcases List.mem_cons.1 hc with rfl | hc
          · exact stop below
          · exact stop (trans b c a (first c hc) below)
        have none : (b :: l).filter p = [] :=
          List.filter_eq_nil_iff.2 fun c hc => by simp [unlike c hc]
        rw [List.filter_cons, if_pos ha, none, List.filter_cons, if_pos ha]
        rfl

variable (total : ∀ a b, le a b || le b a)

include total

private theorem insertBy_pairwise (a : α) {l : List α} (sorted : l.Pairwise fun b c => le b c) :
    (insertBy le a l).Pairwise fun b c => le b c := by
  induction l with
  | nil => simp [insertBy]
  | cons b l ih =>
    obtain ⟨first, rest⟩ := List.pairwise_cons.1 sorted
    rw [insertBy]
    -- It goes before the first that is not below it, and that is below all behind.
    split
    · rename_i below
      refine List.pairwise_cons.2 ⟨fun c hc => ?_, ih rest⟩
      rcases List.mem_cons.1 ((insertBy_perm le a l).mem_iff.1 hc) with rfl | hc
      · exact below
      · exact first c hc
    · rename_i stop
      have above : le a b := by simpa [stop] using total a b
      refine List.pairwise_cons.2 ⟨fun c hc => ?_, sorted⟩
      rcases List.mem_cons.1 hc with rfl | hc
      · exact above
      · exact trans a b c above (first c hc)

/-- A sorted list is in order. -/
theorem sortBy_pairwise (l : List α) : (sortBy le l).Pairwise fun b c => le b c := by
  induction l using List.reverseRecOn with
  | nil => exact List.Pairwise.nil
  | append_singleton l a ih =>
    rw [sortBy_concat]
    exact insertBy_pairwise trans total a ih

/-- Sorting keeps the order of elements that are not told apart. -/
theorem filter_sortBy {p : α → Bool} (alike : ∀ a b, p a → p b → le a b) (l : List α) :
    (sortBy le l).filter p = l.filter p := by
  induction l using List.reverseRecOn with
  | nil => rfl
  | append_singleton l a ih =>
    have sorted := sortBy_pairwise trans total l
    rw [sortBy_concat, filter_insertBy trans (fun b hb ha => alike b a hb ha) sorted, ih,
      List.filter_append]

end

end Interlace
