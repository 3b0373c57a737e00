import Mathlib.Data.Fintype.Card
import Mathlib.Data.List.Nodup
import Mathlib.Data.Set.Finite.Basic
import Mathlib.Logic.Relation
import Mathlib.Order.WellFounded

/-!
# Depth-first orders

Two ways to list what hangs off nodes of a graph, everything below a node before the node. One
lists the whole forest, a node as often as it is reached; it exists where no node leads back to
itself. The other remembers what it has seen and enters every node once. The second is the first
with every node at its first place.

## Key results

- `DepthFirst.Visits.eq_eraseDups`: remembering what was seen leaves out the repetitions
- `DepthFirst.exists_unfolds`: without circles there is a whole forest
- `DepthFirst.Unfolds.grounded`: every node comes after everything it leads to
-/

namespace Interlace.DepthFirst

open Relation

variable {α : Type} (next : α → List α)

/-- One node is listed as a successor of another. -/
def Leads (a b : α) : Prop :=
  b ∈ next a

/-- The forest below a list of nodes, children before parents and nodes as often as they are
reached. -/
inductive Unfolds : List α → List α → Prop
  | nil : Unfolds [] []
  | cons {a : α} {as below rest : List α} :
      Unfolds (next a) below → Unfolds as rest → Unfolds (a :: as) (below ++ a :: rest)

/-- The nodes below a list of nodes, children before parents, that a search which has seen some
nodes enters. -/
inductive Visits : List α → List α → List α → Prop
  | nil {seen : List α} : Visits seen [] []
  | skip {seen : List α} {a : α} {as order : List α} :
      a ∈ seen → Visits seen as order → Visits seen (a :: as) order
  | enter {seen : List α} {a : α} {as below rest : List α} :
      a ∉ seen → Visits (a :: seen) (next a) below → Visits (below ++ a :: seen) as rest →
      Visits seen (a :: as) (below ++ a :: rest)

variable {next}

/-! ## Whole forests -/

namespace Unfolds

variable {as whole : List α}

/-- A forest holds what its roots lead to. -/
theorem mem_iff (h : Unfolds next as whole) {x : α} :
    x ∈ whole ↔ ∃ a ∈ as, ReflTransGen (Leads next) a x := by
  induction h with
  | nil => simp
  | @cons a as below rest _ _ first second =>
    rw [List.mem_append, List.mem_cons, first, second, List.exists_mem_cons_iff,
      ReflTransGen.cases_head_iff (a := a), ← or_assoc]
    refine or_congr_left ((or_comm).trans (or_congr eq_comm ?_))
    simp [Leads]

/-- There is one whole forest. -/
theorem unique {other : List α} (h : Unfolds next as whole) (h' : Unfolds next as other) :
    whole = other := by
  induction h generalizing other with
  | nil =>
    cases h'
    rfl
  | cons _ _ first second =>
    cases h' with
    | cons below rest => rw [first below, second rest]

/-- Every root of a forest has a forest of its own, which is no longer. -/
private theorem exists_of_mem (h : Unfolds next as whole) {x : α} (hx : x ∈ whole) :
    ∃ below, Unfolds next (next x) below ∧ below.length < whole.length := by
  induction h with
  | nil => cases hx
  | @cons a as below rest first _ inFirst inRest =>
    rw [List.length_append, List.length_cons]
    rcases List.mem_append.1 hx with hx | hx
    · obtain ⟨deeper, unfolds, shorter⟩ := inFirst hx
      exact ⟨deeper, unfolds, by omega⟩
    · rcases List.mem_cons.1 hx with rfl | hx
      · exact ⟨below, first, by omega⟩
      · obtain ⟨deeper, unfolds, shorter⟩ := inRest hx
        exact ⟨deeper, unfolds, by omega⟩

/-- No node is below itself. -/
private theorem not_mem_below {a : α} {below : List α} (h : Unfolds next (next a) below) :
    a ∉ below := by
  intro again
  obtain ⟨deeper, unfolds, shorter⟩ := h.exists_of_mem again
  rw [h.unique unfolds] at shorter
  exact Nat.lt_irrefl _ shorter

end Unfolds

/-- Without circles, nodes that lead to finitely many nodes have a whole forest. -/
theorem exists_unfolds (known : List α) {a : α} (ha : a ∈ known)
    (closed : ∀ x ∈ known, ∀ y, Leads next x y → y ∈ known)
    (acyclic : ∀ x ∈ known, ¬ TransGen (Leads next) x x) : ∃ whole, Unfolds next [a] whole := by
  let Below : {x // x ∈ known} → {x // x ∈ known} → Prop := fun x y => TransGen (Leads next) y x
  have : Std.Irrefl Below := ⟨fun x => acyclic x x.2⟩
  have : IsTrans _ Below := ⟨fun _ _ _ first second => second.trans first⟩
  have : Finite {x // x ∈ known} := known.finite_toSet
  have wellFounded := Finite.wellFounded_of_trans_of_irrefl Below
  -- Well-founded induction on the nodes, and below a node induction on the list of successors.
  suffices all : ∀ x : {x // x ∈ known}, ∃ below, Unfolds next (next x) below by
    obtain ⟨below, unfolds⟩ := all ⟨a, ha⟩
    exact ⟨below ++ [a], .cons unfolds .nil⟩
  intro x
  induction x using wellFounded.induction with
  | _ x ih =>
    suffices some : ∀ l : List α, (∀ y ∈ l, Leads next x y) → ∃ below, Unfolds next l below from
      some _ fun _ hy => hy
    intro l successors
    induction l with
    | nil => exact ⟨[], .nil⟩
    | cons y l rest =>
      obtain ⟨first, others⟩ := List.forall_mem_cons.1 successors
      obtain ⟨below, hb⟩ := ih ⟨y, closed x x.2 y first⟩ (.single first)
      obtain ⟨after, hr⟩ := rest others
      exact ⟨below ++ y :: after, .cons hb hr⟩

/-! ## Searches -/

namespace Visits

variable {seen seen' as bs order order' : List α}

/-- Only which nodes were seen counts, not in which order. -/
theorem congr (h : Visits next seen as order) (same : ∀ x, x ∈ seen ↔ x ∈ seen') :
    Visits next seen' as order := by
  induction h generalizing seen' with
  | nil => exact .nil
  | skip old _ ih => exact .skip ((same _).1 old) (ih same)
  | enter new _ _ below rest =>
    refine .enter (fun old => new ((same _).2 old)) (below fun x => ?_) (rest fun x => ?_)
    · rw [List.mem_cons, List.mem_cons, same]
    · rw [List.mem_append, List.mem_append, List.mem_cons, List.mem_cons, same]

/-- After a search, all nodes that it was asked for have been seen. -/
theorem mem (h : Visits next seen as order) {a : α} (ha : a ∈ as) : a ∈ order ∨ a ∈ seen := by
  -- The induction is on the search: a node was seen before, or is entered and then listed.
  induction h with
  | nil => cases ha
  | skip old _ ih =>
    rcases List.mem_cons.1 ha with rfl | ha
    · exact .inr old
    · exact ih ha
  | @enter seen b as below rest _ _ _ _ ih =>
    rcases List.mem_cons.1 ha with rfl | ha
    · exact .inl (List.mem_append_right _ List.mem_cons_self)
    · have := ih ha
      simp only [List.mem_append, List.mem_cons] at this ⊢
      grind

/-- A search goes on with what it has entered. -/
theorem append (h : Visits next seen as order) (h' : Visits next (order ++ seen) bs order') :
    Visits next seen (as ++ bs) (order ++ order') := by
  induction h with
  | nil => exact h'
  | skip old _ ih => exact .skip old (ih h')
  | @enter seen a as below rest new first _ _ ih =>
    rw [List.append_assoc, List.cons_append]
    refine .enter new first (ih (h'.congr fun x => ?_))
    simp only [List.mem_append, List.mem_cons]
    grind

end Visits

variable [BEq α] [LawfulBEq α]

private theorem mem_removeAll {l seen : List α} {x : α} :
    x ∈ l.removeAll seen ↔ x ∈ l ∧ x ∉ seen := by
  simp [List.removeAll]

omit [LawfulBEq α] in
private theorem append_removeAll (l m seen : List α) :
    (l ++ m).removeAll seen = l.removeAll seen ++ m.removeAll seen :=
  List.filter_append ..

/-- The new nodes of a tree and of what follows it: those below the root, the root, and of the
rest what is not among these. -/
private theorem eraseDups_tree {seen below rest : List α} {a : α} (new : a ∉ seen)
    (apart : a ∉ below) : ((below ++ a :: rest).removeAll seen).eraseDups =
      (below.removeAll seen).eraseDups ++
        a :: (rest.removeAll ((below.removeAll seen).eraseDups ++ a :: seen)).eraseDups := by
  have root : (a :: rest).removeAll seen = a :: rest.removeAll seen :=
    List.filter_cons_of_pos (by simpa using new)
  have kept : (a :: rest.removeAll seen).removeAll (below.removeAll seen) =
      a :: (rest.removeAll seen).removeAll (below.removeAll seen) :=
    List.filter_cons_of_pos (by simp [List.removeAll, apart])
  rw [append_removeAll, List.eraseDups_append, root, kept, List.eraseDups_cons]
  congr 3
  simp only [List.removeAll, List.filter_filter]
  refine List.filter_congr fun x _ => ?_
  by_cases hb : x ∈ below <;> by_cases hs : x ∈ seen <;> by_cases ha : x = a <;>
    simp_all

/-- Of the nodes of a list, those that were seen are seen with everything they lead to. -/
def Settled (next : α → List α) (seen whole : List α) : Prop :=
  ∀ a ∈ seen, a ∈ whole → ∀ b, ReflTransGen (Leads next) a b → b ∈ seen

omit [BEq α] [LawfulBEq α] in
theorem Settled.mono {seen whole part : List α} (h : Settled next seen whole)
    (inside : ∀ x ∈ part, x ∈ whole) : Settled next seen part :=
  fun a old ha => h a old (inside a ha)

omit [BEq α] [LawfulBEq α] in
/-- Entering a node does not unsettle what is below it. -/
theorem Settled.enter {seen below : List α} {a : α} (h : Settled next seen below)
    (unfolds : Unfolds next (next a) below) : Settled next (a :: seen) below := by
  intro x old inside b reached
  rcases List.mem_cons.1 old with rfl | old
  · exact absurd inside unfolds.not_mem_below
  · exact List.mem_cons_of_mem _ (h x old inside b reached)

/-- Once everything below a node was entered, the node is settled too. -/
theorem Settled.leave {seen below rest : List α} {a : α} (h : Settled next seen rest)
    (unfolds : Unfolds next (next a) below) :
    Settled next ((below.removeAll seen).eraseDups ++ a :: seen) rest := by
  have tree : Unfolds next [a] (below ++ [a]) := .cons unfolds .nil
  have known : ∀ x, x ∈ (below.removeAll seen).eraseDups ++ a :: seen ↔
      x ∈ below ++ [a] ∨ x ∈ seen := by
    intro x
    by_cases old : x ∈ seen <;> simp [mem_removeAll, old]
  intro x hx inside b reached
  rw [known] at hx ⊢
  rcases hx with hx | old
  · obtain ⟨root, hr, path⟩ := tree.mem_iff.1 hx
    exact .inl (tree.mem_iff.2 ⟨root, hr, path.trans reached⟩)
  · exact .inr (h x old inside b reached)

/-- A search enters the nodes of the forest that were not seen, each at its first place. -/
theorem Visits.eq_eraseDups {seen as order whole : List α} (visits : Visits next seen as order)
    (unfolds : Unfolds next as whole) (settled : Settled next seen whole) :
    order = (whole.removeAll seen).eraseDups := by
  induction visits generalizing whole with
  | nil =>
    cases unfolds
    rfl
  | @skip seen a as order old _ ih =>
    cases unfolds with
    | @cons _ _ below rest first second =>
      have done := settled a old (List.mem_append_right _ List.mem_cons_self)
      -- Nothing of what hangs off `a` is new.
      have nothing : (below ++ [a]).removeAll seen = [] := by
        refine List.filter_eq_nil_iff.2 fun x hx => ?_
        have reached : ReflTransGen (Leads next) a x := by
          simpa using (Unfolds.cons first .nil).mem_iff.1 hx
        simpa using done x reached
      rw [List.append_cons, append_removeAll, nothing, List.nil_append]
      exact ih second (settled.mono fun x hx =>
        List.mem_append_right _ (List.mem_cons_of_mem _ hx))
  | @enter seen a as below rest new _ _ inFirst inRest =>
    cases unfolds with
    | @cons _ _ wholeBelow wholeRest first second =>
      have apart : a ∉ wholeBelow := first.not_mem_below
      have isBelow := inFirst first
        ((settled.mono fun x hx => List.mem_append_left _ hx).enter first)
      -- Below `a`, nothing changes by having seen `a`.
      have same : wholeBelow.removeAll (a :: seen) = wholeBelow.removeAll seen := by
        refine List.filter_congr fun x hx => ?_
        have : x ≠ a := fun same => apart (same ▸ hx)
        simp [this]
      rw [same] at isBelow
      subst isBelow
      have isRest := inRest second
        ((settled.mono fun x hx => List.mem_append_right _ (List.mem_cons_of_mem _ hx)).leave
          first)
      rw [isRest, eraseDups_tree new apart]

/-! ## Every node after what it leads to -/

/-- Every node of the list comes after everything it leads to. -/
def Grounded (next : α → List α) (l : List α) : Prop :=
  ∀ before a after, l = before ++ a :: after → ∀ b, Leads next a b → b ∈ before

omit [BEq α] [LawfulBEq α] in
private theorem grounded_concat {l : List α} {a : α} :
    Grounded next (l ++ [a]) ↔ Grounded next l ∧ ∀ b, Leads next a b → b ∈ l := by
  constructor
  · intro h
    refine ⟨fun before x after eq => ?_, h l a [] rfl⟩
    exact h before x (after ++ [a]) (by rw [eq, List.append_assoc, List.cons_append])
  · rintro ⟨inside, last⟩ before x after eq
    rcases List.eq_nil_or_concat after with rfl | ⟨front, y, rfl⟩
    · obtain ⟨rfl, same⟩ := List.append_inj' eq rfl
      cases same
      exact last
    · rw [List.concat_eq_append, ← List.cons_append, ← List.append_assoc] at eq
      exact inside before x front (List.append_inj' eq rfl).1

omit [BEq α] [LawfulBEq α] in
/-- In a whole forest, every node comes after everything it leads to. -/
theorem Unfolds.grounded {as whole : List α} (h : Unfolds next as whole) {front : List α}
    (before : Grounded next front) : Grounded next (front ++ whole) := by
  induction h generalizing front with
  | nil => simpa using before
  | @cons a as below rest first _ inFirst inRest =>
    have here : Grounded next (front ++ below ++ [a]) := by
      refine grounded_concat.2 ⟨inFirst before, fun b leads => List.mem_append_right _ ?_⟩
      exact first.mem_iff.2 ⟨b, leads, .refl⟩
    have := inRest here
    simpa using this

private theorem eraseDups_concat (l : List α) (a : α) :
    (l ++ [a]).eraseDups = if a ∈ l then l.eraseDups else l.eraseDups ++ [a] := by
  rw [List.eraseDups_append]
  by_cases ha : a ∈ l <;> simp [List.removeAll, ha, List.eraseDups_cons]

/-- Leaving out repetitions keeps every node after what it leads to. -/
theorem Grounded.eraseDups {l : List α} (h : Grounded next l) : Grounded next l.eraseDups := by
  induction l using List.reverseRecOn with
  | nil => exact h
  | append_singleton l a ih =>
    obtain ⟨inside, last⟩ := grounded_concat.1 h
    rw [eraseDups_concat]
    split
    · exact ih inside
    · exact grounded_concat.2 ⟨ih inside, fun b leads => List.mem_eraseDups.2 (last b leads)⟩

theorem nodup_eraseDups (l : List α) : l.eraseDups.Nodup := by
  induction l using List.reverseRecOn with
  | nil => exact List.nodup_nil
  | append_singleton l a ih =>
    rw [eraseDups_concat]
    split
    · exact ih
    · rename_i new
      exact ih.append (List.nodup_singleton a) (by simpa using new)

end Interlace.DepthFirst
