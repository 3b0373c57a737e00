import Interlace.Proofs.Insertions
import Interlace.Weave.Removal
import Mathlib.Data.List.Nodup

/-!
# Pairs of wrap markers

Statements that are nested or apart, in the order in which a walk leaves them, get an opening and a
closing mark each. When the marks stand in an order that respects the statements, every closing
mark meets the opening mark of its own statement as the nearest that is still open.

## Key results

- `Mark.Precedes`: what the order of two marks says of their statements
- `Mark.balanced_of_precedes`: marks in such an order are balanced
- `Removal.pairs_of_balanced`: balanced marks are paired statement by statement
- `Removal.pairs_filter`, `Removal.pairs_flatMap`: markers of other kinds, and markers side by side
-/

namespace Interlace

open Syntax

/-- A mark at one end of a statement. -/
inductive Mark where
  | opening (statement : Tree)
  | closing (statement : Tree)

namespace Mark

/-- The comment that is written for a mark. -/
def marker : Mark → Marker
  | opening _ => .startWrap
  | closing _ => .endWrap

/-- The statement that ends at a mark. -/
def closed? : Mark → Option Tree
  | opening _ => none
  | closing t => some t

/-- The marks of a statement. -/
def both (t : Tree) : List Mark :=
  [opening t, closing t]

/-- A walk leaves the first statement before the second: it is inside the second, or before it. -/
def LeftBefore (t u : Tree) : Prop :=
  (u.start < t.start ∧ t.stop < u.stop) ∨ t.stop ≤ u.start

instance : DecidableRel LeftBefore :=
  fun t u => inferInstanceAs (Decidable ((u.start < t.start ∧ t.stop < u.stop) ∨ t.stop ≤ u.start))

/-- What the order of two marks says of their statements. -/
def Precedes : Mark → Mark → Prop
  | opening t, opening u => t.start < u.start
  | opening t, closing u => t.start < u.stop
  | closing t, opening u => t.stop ≤ u.start
  | closing t, closing u => LeftBefore t u

/-- Every closing mark meets the opening mark of its own statement on top of those that are still
open, and none is left open. -/
def Balanced : (stack : List Tree) → List Mark → Prop
  | stack, [] => stack = []
  | stack, opening t :: marks => Balanced (t :: stack) marks
  | stack, closing t :: marks => ∃ rest, stack = t :: rest ∧ Balanced rest marks

private theorem closing_mem {t u : Tree} {marks : List Mark} (h : closing u ∈ opening t :: marks) :
    closing u ∈ marks := by
  simpa using h

private theorem opening_mem {t u : Tree} {marks : List Mark} (h : opening u ∈ closing t :: marks) :
    opening u ∈ marks := by
  simpa using h

/-- What holds of the open statements and the marks that are still to come. -/
structure Pending (stack : List Tree) (marks : List Mark) : Prop where
  /-- The statement that was opened last starts last. -/
  nested : stack.Pairwise fun t u => u.start < t.start
  /-- The opening marks of open statements stand before what is to come. -/
  behind : ∀ t ∈ stack, ∀ m ∈ marks, Precedes (opening t) m
  closes : ∀ t ∈ stack, closing t ∈ marks
  opens : ∀ t, opening t ∈ marks → closing t ∈ marks
  opened : ∀ t, closing t ∈ marks → t ∈ stack ∨ opening t ∈ marks

/-- An opening mark puts its statement on the stack. -/
theorem Pending.opening {stack : List Tree} {t : Tree} {marks : List Mark}
    (pending : Pending stack (.opening t :: marks))
    (first : ∀ m ∈ marks, Precedes (.opening t) m) : Pending (t :: stack) marks := by
  -- Its end comes before the ends of all on the stack, so it may go on top.
  refine ⟨?_, ?_, ?_, ?_, ?_⟩
  · refine List.pairwise_cons.2 ⟨fun u hu => ?_, pending.nested⟩
    exact pending.behind u hu (.opening t) List.mem_cons_self
  · intro u hu m hm
    rcases List.mem_cons.1 hu with rfl | hu
    · exact first m hm
    · exact pending.behind u hu m (List.mem_cons_of_mem _ hm)
  · intro u hu
    rcases List.mem_cons.1 hu with rfl | hu
    · exact closing_mem (pending.opens u List.mem_cons_self)
    · exact closing_mem (pending.closes u hu)
  · intro u hu
    exact closing_mem (pending.opens u (List.mem_cons_of_mem _ hu))
  · intro u hu
    rcases pending.opened u (List.mem_cons_of_mem _ hu) with open_ | later
    · exact .inl (List.mem_cons_of_mem t open_)
    · rcases List.mem_cons.1 later with same | later
      · cases same
        exact .inl List.mem_cons_self
      · exact .inr later

/-- A closing mark finds its statement on top of the stack. -/
theorem Pending.top {stack : List Tree} {t : Tree} {marks : List Mark}
    (pending : Pending stack (closing t :: marks)) (first : ∀ m ∈ marks, Precedes (closing t) m)
    (nonempty : t.start < t.stop) : ∃ rest, stack = t :: rest := by
  -- The statement was opened before, since nothing ends before it starts.
  have open_ : t ∈ stack := by
    rcases pending.opened t List.mem_cons_self with open_ | later
    · exact open_
    · have late : t.stop ≤ t.start := first _ (opening_mem later)
      omega
  obtain ⟨top, rest, rfl⟩ := List.exists_cons_of_ne_nil (List.ne_nil_of_mem open_)
  refine ⟨rest, ?_⟩
  rcases List.mem_cons.1 open_ with same | below
  · rw [same]
  · -- A statement above it would start inside and end behind it.
    have inside := (List.pairwise_cons.1 pending.nested).1 t below
    have started : top.start < t.stop :=
      pending.behind top List.mem_cons_self (closing t) List.mem_cons_self
    have later : closing top ∈ marks := by
      refine List.mem_of_ne_of_mem ?_ (pending.closes top List.mem_cons_self)
      intro same
      cases same
      exact absurd inside (Nat.lt_irrefl _)
    rcases first _ later with ⟨outside, -⟩ | apart <;> omega

/-- A closing mark takes its statement off the stack. -/
theorem Pending.closing {rest : List Tree} {t : Tree} {marks : List Mark}
    (pending : Pending (t :: rest) (.closing t :: marks)) (fresh : .closing t ∉ marks)
    (first : ∀ m ∈ marks, Precedes (.closing t) m) (nonempty : t.start < t.stop) :
    Pending rest marks := by
  obtain ⟨above, nested⟩ := List.pairwise_cons.1 pending.nested
  refine ⟨nested, ?_, ?_, ?_, ?_⟩
  · intro u hu m hm
    exact pending.behind u (List.mem_cons_of_mem t hu) m (List.mem_cons_of_mem _ hm)
  · intro u hu
    refine List.mem_of_ne_of_mem ?_ (pending.closes u (List.mem_cons_of_mem t hu))
    -- It cannot be one of those below, which end later.
    intro same
    cases same
    exact absurd (above _ hu) (Nat.lt_irrefl _)
  · intro u hu
    refine List.mem_of_ne_of_mem ?_ (pending.opens u (List.mem_cons_of_mem _ hu))
    intro same
    cases same
    have late : t.stop ≤ t.start := first _ hu
    omega
  · intro u hu
    rcases pending.opened u (List.mem_cons_of_mem _ hu) with open_ | later
    · rcases List.mem_cons.1 open_ with rfl | open_
      · exact absurd hu fresh
      · exact .inl open_
    · exact .inr (opening_mem later)

/-- Marks that stand in order are balanced. -/
theorem balanced_of_precedes {stack : List Tree} {marks : List Mark} (pending : Pending stack marks)
    (distinct : marks.Nodup) (ordered : marks.Pairwise Precedes)
    (given : ∀ t, closing t ∈ marks → t.start < t.stop) : Balanced stack marks := by
  -- The induction is on the marks that are left, with those open on the stack.
  induction marks generalizing stack with
  | nil =>
    cases stack with
    | nil => rfl
    | cons t stack => exact absurd (pending.closes t List.mem_cons_self) List.not_mem_nil
  | cons m marks ih =>
    obtain ⟨fresh, distinct'⟩ := List.nodup_cons.1 distinct
    obtain ⟨first, ordered'⟩ := List.pairwise_cons.1 ordered
    have given' : ∀ t, closing t ∈ marks → t.start < t.stop :=
      fun t ht => given t (List.mem_cons_of_mem m ht)
    cases m with
    | opening t => exact ih (pending.opening first) distinct' ordered' given'
    | closing t =>
      have nonempty := given t List.mem_cons_self
      obtain ⟨rest, rfl⟩ := pending.top first nonempty
      exact ⟨rest, rfl, ih (pending.closing fresh first nonempty) distinct' ordered' given'⟩

/-- As many statements are open as are closed by the marks, none too early, without regard to which
statements they are. -/
def levels : (opened : Nat) → List Mark → Bool
  | opened, [] => opened = 0
  | opened, opening _ :: marks => levels (opened + 1) marks
  | 0, closing _ :: _ => false
  | opened + 1, closing _ :: marks => levels opened marks

/-- The mark of some other statement. -/
def other (t : Tree) : Mark → Mark
  | opening _ => opening t
  | closing _ => closing t

@[simp] theorem marker_other (t : Tree) (m : Mark) : (m.other t).marker = m.marker := by
  cases m <;> rfl

theorem balanced_of_levels (t : Tree) {opened : Nat} {marks : List Mark}
    (h : levels opened marks = true) :
    Balanced (List.replicate opened t) (marks.map (other t)) := by
  induction marks generalizing opened with
  | nil =>
    cases of_decide_eq_true h
    rfl
  | cons m marks ih =>
    cases m with
    | opening _ => exact ih h
    | closing _ =>
      cases opened with
      | zero => cases h
      | succ opened => exact ⟨_, rfl, ih h⟩

end Mark

namespace Removal

open Mark

/-! ## Markers in a row -/

section

variable {opening closing : Marker} {stack ts : List Trivia}

private theorem pairs_cons (t : Trivia) : pairs opening closing stack (t :: ts) =
    if t.marker = some opening then pairs opening closing (t :: stack) ts
    else if t.marker = some closing then
      match stack with
      | start :: stack => (start, t) :: pairs opening closing stack ts
      | [] => pairs opening closing [] ts
    else pairs opening closing stack ts := by
  cases stack <;> rfl

/-- Markers of other kinds play no part. -/
theorem pairs_filter : pairs opening closing stack ts = pairs opening closing stack
    (ts.filter fun t => t.marker = some opening || t.marker = some closing) := by
  induction ts generalizing stack with
  | nil => rfl
  | cons t ts ih =>
    rw [pairs_cons, List.filter_cons]
    -- A comment opens, closes or is passed over, and only the last kind is filtered out.
    by_cases starts : t.marker = some opening
    · rw [if_pos starts, if_pos (by simp [starts]), pairs_cons, if_pos starts, ih]
    · rw [if_neg starts]
      by_cases ends : t.marker = some closing
      · rw [if_pos ends, if_pos (by simp [ends]), pairs_cons, if_neg starts, if_pos ends]
        cases stack with
        | nil => exact ih
        | cons start stack => exact congrArg (List.cons _) ih
      · rw [if_neg ends, if_neg (by simp [starts, ends]), ih]

/-- Where every start marker is followed by its end marker, these are the pairs. -/
theorem pairs_flatMap {l : List (Trivia × Trivia)} (other : opening ≠ closing)
    (starts : ∀ p ∈ l, p.1.marker = some opening) (ends : ∀ p ∈ l, p.2.marker = some closing) :
    pairs opening closing [] (l.flatMap fun p => [p.1, p.2]) = l := by
  induction l with
  | nil => rfl
  | cons p l ih =>
    obtain ⟨start, starts⟩ := List.forall_mem_cons.1 starts
    obtain ⟨ending, ends⟩ := List.forall_mem_cons.1 ends
    have further : p.2.marker ≠ some opening := by
      rw [ending]
      exact fun same => other (Option.some.inj same).symm
    rw [List.flatMap_cons, List.cons_append, pairs_cons, if_pos start, List.cons_append, pairs_cons,
      if_neg further, if_pos ending, List.nil_append]
    exact congrArg (List.cons p) (ih starts ends)

end

/-- The marks of paired comments. -/
def unpaired (pairs : List (Tree × Trivia × Trivia)) : List (Mark × Trivia) :=
  pairs.flatMap fun p => [(opening p.1, p.2.1), (closing p.1, p.2.2)]

/-- Balanced marks are paired statement by statement, in the order of their closing marks, and all
of them are. -/
theorem pairs_of_balanced {stack : List (Tree × Trivia)} {marked : List (Mark × Trivia)}
    (markers : ∀ m ∈ marked, m.2.marker = some m.1.marker)
    (balanced : Balanced (stack.map Prod.fst) (marked.map Prod.fst)) :
    ∃ paired : List (Tree × Trivia × Trivia),
      pairs .startWrap .endWrap (stack.map Prod.snd) (marked.map Prod.snd) =
        paired.map Prod.snd ∧
      paired.map Prod.fst = (marked.map Prod.fst).filterMap closed? ∧
      (unpaired paired).Perm (stack.map (fun s => (opening s.1, s.2)) ++ marked) := by
  -- An opening mark goes on the stack, and a closing one takes its partner from there.
  induction marked generalizing stack with
  | nil =>
    refine ⟨[], rfl, rfl, ?_⟩
    have none_open : stack = [] := List.map_eq_nil_iff.1 balanced
    rw [none_open]
    exact List.Perm.refl _
  | cons m marked ih =>
    obtain ⟨mark, comment⟩ := m
    have here : comment.marker = some mark.marker := markers _ List.mem_cons_self
    have others : ∀ m ∈ marked, m.2.marker = some m.1.marker :=
      fun m hm => markers m (List.mem_cons_of_mem _ hm)
    rw [List.map_cons, List.map_cons, pairs.eq_def]
    dsimp only
    rw [here]
    cases mark with
    | opening t =>
      obtain ⟨paired, found, order, all⟩ := @ih ((t, comment) :: stack) others balanced
      refine ⟨paired, found, order, all.trans ?_⟩
      exact (List.perm_middle (a := (opening t, comment))).symm
    | closing t =>
      obtain ⟨rest, top, balanced⟩ := balanced
      cases stack with
      | nil => cases top
      | cons first stack =>
        obtain ⟨t, start⟩ := first
        cases top
        obtain ⟨paired, found, order, all⟩ := ih others balanced
        refine ⟨(t, start, comment) :: paired, ?_, ?_, ?_⟩
        · show (start, comment) :: pairs .startWrap .endWrap (stack.map Prod.snd) _ = _
          rw [found]
          rfl
        · rw [List.map_cons, order]
          rfl
        · show ((opening t, start) :: (closing t, comment) :: unpaired paired).Perm _
          refine List.Perm.cons _ ?_
          exact (all.cons _).trans List.perm_middle.symm

end Removal

end Interlace
