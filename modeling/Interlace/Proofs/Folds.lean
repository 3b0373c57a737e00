import Mathlib.Data.List.Forall2

/-!
# Folds and steps that may fail

A fold keeps what every step of it keeps, whether its steps may fail or not.

## Key results

- `bind_eq_ok_iff`: two steps in a row come to an end iff both do
- `foldl_keeps`, `foldlM_keeps`: what every step keeps, a fold keeps
- `forall₂_of_mapM`: the results of a step for every element of a list
-/

namespace Interlace

variable {ε α β : Type}

/-- A composed computation gives a value iff both parts do. -/
theorem bind_eq_ok_iff {x : Except ε α} {f : α → Except ε β} {b : β} :
    x >>= f = .ok b ↔ ∃ a, x = .ok a ∧ f a = .ok b := by
  cases x with
  | error fault => exact ⟨nofun, fun ⟨_, h, _⟩ => nomatch h⟩
  | ok a => exact ⟨fun h => ⟨a, rfl, h⟩, fun ⟨_, h, hf⟩ => Except.ok.inj h ▸ hf⟩

theorem toOption_eq_some_iff {x : Except ε α} {a : α} : x.toOption = some a ↔ x = .ok a := by
  cases x <;> simp [Except.toOption]

/-- A fold keeps what every step keeps. -/
theorem foldl_keeps {step : β → α → β} {K : β → Prop} {l : List α}
    (hstep : ∀ b, ∀ a ∈ l, K b → K (step b a)) {b : β} (hb : K b) : K (l.foldl step b) := by
  induction l generalizing b with
  | nil => exact hb
  | cons a l ih =>
    have first := hstep b a List.mem_cons_self hb
    exact ih (fun c d hd => hstep c d (List.mem_cons_of_mem a hd)) first

/-- A fold that may fail keeps what every step keeps. -/
theorem foldlM_keeps {step : β → α → Except ε β} {K : β → Prop}
    (hstep : ∀ b a b', step b a = .ok b' → K b → K b') {l : List α} {b b' : β}
    (h : l.foldlM step b = .ok b') (hb : K b) : K b' := by
  induction l generalizing b with
  | nil =>
    cases h
    exact hb
  | cons a l ih =>
    rw [List.foldlM_cons] at h
    obtain ⟨next, first, rest⟩ := bind_eq_ok_iff.1 h
    exact ih rest (hstep b a next first hb)

/-- Steps that agree on the elements of a list agree on the list. -/
theorem mapM_congr {m : Type → Type} [Monad m] [LawfulMonad m] {f g : α → m β} {l : List α}
    (h : ∀ a ∈ l, f a = g a) : l.mapM f = l.mapM g := by
  induction l with
  | nil => rfl
  | cons a l ih =>
    rw [List.mapM_cons, List.mapM_cons, h a List.mem_cons_self,
      ih fun b hb => h b (List.mem_cons_of_mem a hb)]

/-- Steps for all elements of a list give one result for each. -/
theorem forall₂_of_mapM {f : α → Except ε β} {l : List α} {m : List β} (h : l.mapM f = .ok m) :
    List.Forall₂ (fun a b => f a = .ok b) l m := by
  induction l generalizing m with
  | nil =>
    cases h
    exact .nil
  | cons a l ih =>
    rw [List.mapM_cons] at h
    obtain ⟨b, first, h⟩ := bind_eq_ok_iff.1 h
    obtain ⟨rest, others, h⟩ := bind_eq_ok_iff.1 h
    cases h
    exact .cons first (ih others)

end Interlace
