import Interlace.Proofs.Folds
import Interlace.Syntax.Walk

/-!
# Walks

The walk with a cursor is the walk by recursion: the chain that it keeps beside the cursor always
holds the nodes above it. A walk that decides by the node alone where to go, and whose steps are
rising, gives its state back exactly if every step does: a step that may fail is rising if it leaves
the state as it is or raises its rank, so that no later step can undo an earlier one.

## Key results

- `Rising.foldlM_eq_self_iff`: rising steps in a row change nothing iff none of them does
- `Walk.exists_steps`: the walk with a cursor visits a node and then climbs, with the chain it had
- `Walk.run_eq_visit`: the two walks agree
- `Walk.run_eq_self_iff`: a whole walk changes nothing iff no step of it does
-/

namespace Interlace

/-! ## Steps that raise a rank -/

variable {ε σ α : Type}

/-- A step that comes to an end leaves the state as it is or raises its rank. -/
def Rising (rank : σ → Nat) (step : σ → Except ε σ) : Prop :=
  ∀ state after, step state = .ok after → after = state ∨ rank state < rank after

namespace Rising

variable {rank : σ → Nat} {first second : σ → Except ε σ}

theorem pure : Rising rank (Except.ok : σ → Except ε σ) := by
  intro state after h
  exact .inl (Except.ok.inj h).symm

theorem bind (hf : Rising rank first) (hs : Rising rank second) :
    Rising rank fun state => first state >>= second := by
  intro state after h
  obtain ⟨between, up, further⟩ := bind_eq_ok_iff.1 h
  -- Either step may leave the state as it is; the rank rises as soon as one of them raises it.
  rcases hf state between up with rfl | low
  · exact hs between after further
  · rcases hs between after further with rfl | high
    · exact .inr low
    · exact .inr (Nat.lt_trans low high)

/-- Two rising steps give the state back iff both do. -/
theorem bind_eq_self_iff (hf : Rising rank first) (hs : Rising rank second) {state : σ} :
    first state >>= second = .ok state ↔ first state = .ok state ∧ second state = .ok state := by
  rw [bind_eq_ok_iff]
  constructor
  · rintro ⟨between, up, back⟩
    -- Had the first step raised the rank, the second could not have lowered it again.
    have same : between = state := by
      rcases hf state between up with same | low
      · exact same
      · rcases hs between state back with same | high
        · exact same.symm
        · omega
    subst same
    exact ⟨up, back⟩
  · rintro ⟨up, back⟩
    exact ⟨state, up, back⟩

section

variable {step : σ → α → Except ε σ} {l : List α}

theorem foldlM (h : ∀ a ∈ l, Rising rank (step · a)) : Rising rank (l.foldlM step) := by
  induction l with
  | nil => exact pure
  | cons a l ih =>
    simp only [List.foldlM_cons]
    exact bind (h a List.mem_cons_self) (ih fun b hb => h b (List.mem_cons_of_mem a hb))

/-- A fold of rising steps gives the state back iff every step does. -/
theorem foldlM_eq_self_iff (h : ∀ a ∈ l, Rising rank (step · a)) {state : σ} :
    l.foldlM step state = .ok state ↔ ∀ a ∈ l, step state a = .ok state := by
  induction l with
  | nil => exact iff_of_true rfl fun _ ha => (List.not_mem_nil ha).elim
  | cons a l ih =>
    have rest : ∀ b ∈ l, Rising rank (step · b) := fun b hb => h b (List.mem_cons_of_mem a hb)
    rw [List.foldlM_cons, bind_eq_self_iff (h a List.mem_cons_self) (foldlM rest), ih rest,
      List.forall_mem_cons]

end

end Rising

end Interlace

namespace Interlace.Syntax

/-! ## Cursors -/

namespace Cursor

/-- The nodes above, the nearest first. -/
def above (c : Cursor) : List Tree :=
  c.frames.map Frame.node

variable {c d : Cursor}

/-- The first child stands before the other children and below the node. -/
private theorem firstChild?_eq_some (h : c.firstChild? = some d) :
    d.node :: d.following = c.node.children ∧ d.parent? = some c ∧ d.above = c.node :: c.above := by
  unfold firstChild? at h
  split at h
  · cases h
  · rename_i parts
    cases h
    exact ⟨parts.symm, rfl, rfl⟩

private theorem firstChild?_eq_none (h : c.firstChild? = none) : c.node.children = [] := by
  unfold firstChild? at h
  split at h
  · assumption
  · cases h

/-- A sibling has the same nodes above. -/
private theorem nextSibling?_eq_some (h : c.nextSibling? = some d) :
    d.node :: d.following = c.following ∧ d.parent? = c.parent? ∧ d.above = c.above := by
  unfold nextSibling? at h
  split at h
  · cases h
  · rename_i behind
    cases h
    exact ⟨behind.symm, rfl, rfl⟩

private theorem nextSibling?_eq_none (h : c.nextSibling? = none) : c.following = [] := by
  unfold nextSibling? at h
  split at h
  · assumption
  · cases h

/-- The node that is climbed to is the nearest of those above. -/
theorem parent?_eq_some (h : c.parent? = some d) : c.above = d.node :: d.above := by
  unfold parent? at h
  split at h
  · cases h
  · rename_i frames
    cases h
    exact congrArg (List.map Frame.node) frames

end Cursor

/-! ## The chain of a walk -/

namespace Walk

variable {σ ε : Type} (w : Walk σ ε)

/-- Behind a node with a sibling, the walk comes to the sibling. -/
private theorem climb_of_sibling {c d : Cursor} (next : c.nextSibling? = some d) (fuel : Nat)
    (state : σ) : w.climb (fuel + 1) c c.above state = w.arrive fuel d d.above state := by
  rw [climb, next, (Cursor.nextSibling?_eq_some next).2.2]

/-- Behind a last sibling, the walk leaves the node above. -/
private theorem climb_of_last {c parent : Cursor} (last : c.nextSibling? = none)
    (up : c.parent? = some parent) (fuel : Nat) (state : σ) :
    w.climb (fuel + 1) c c.above state =
      w.leave state ⟨parent.node, parent.above⟩ >>= w.climb fuel parent parent.above := by
  rw [climb, last, up, Cursor.parent?_eq_some up]
  dsimp only
  cases w.leave state ⟨parent.node, parent.above⟩ <;> rfl

mutual

/-- A walk whose chain holds the nodes above its cursor visits the node and goes on behind it with
the same chain. The steps for that do not depend on the fuel. -/
theorem exists_steps : (t : Tree) → (c : Cursor) → c.node = t → (state : σ) →
    ∃ used < 2 * t.preorder.length, ∀ fuel,
      w.arrive (used + fuel) c c.above state =
        w.visit c.above state t >>= w.climb fuel c c.above
  | .node k f s e cs, c, here, state => by
    have size : (Tree.node k f s e cs).preorder.length = 1 + (Tree.preorderAll cs).length := by
      rw [Tree.preorder, List.length_cons, Nat.add_comm]
    rw [visit]
    cases entered : w.enter state ⟨.node k f s e cs, c.above⟩ with
    | mk choice inside =>
      cases choice with
      -- A node that is pruned and one without parts take a single step.
      | prune =>
        refine ⟨1, by omega, fun fuel => ?_⟩
        rw [Nat.add_comm, arrive, here, entered]
        rfl
      | descend =>
        cases first : c.firstChild? with
        | none =>
          have bare := Cursor.firstChild?_eq_none first
          rw [here] at bare
          obtain rfl : cs = [] := bare
          refine ⟨1, by omega, fun fuel => ?_⟩
          rw [Nat.add_comm, arrive, here, entered]
          dsimp only [visitAll]
          rw [first]
          dsimp only
          cases w.leave inside ⟨.node k f s e [], c.above⟩ <;> rfl
        | some d =>
          obtain ⟨parts, up, chain⟩ := Cursor.firstChild?_eq_some first
          rw [here] at parts chain
          obtain ⟨below, few, steps⟩ := exists_steps_all cs d parts c up inside
          refine ⟨below + 1, by omega, fun fuel => ?_⟩
          rw [show below + 1 + fuel = below + fuel + 1 by omega, arrive, here, entered]
          dsimp only
          rw [first]
          dsimp only
          rw [← chain, steps fuel, here]
          cases w.visitAll d.above inside cs <;> rfl

/-- A walk at the first of siblings visits them all and leaves the node above them. -/
private theorem exists_steps_all : (ts : List Tree) → (c : Cursor) → c.node :: c.following = ts →
    (parent : Cursor) → c.parent? = some parent → (state : σ) →
    ∃ used ≤ 2 * (Tree.preorderAll ts).length, ∀ fuel,
      w.arrive (used + fuel) c c.above state =
        w.visitAll c.above state ts >>= fun state =>
          w.leave state ⟨parent.node, parent.above⟩ >>= w.climb fuel parent parent.above
  | [], c, here, _, _, _ => absurd here (List.cons_ne_nil _ _)
  | t :: ts, c, here, parent, up, state => by
    have size : (Tree.preorderAll (t :: ts)).length =
        t.preorder.length + (Tree.preorderAll ts).length := by
      rw [Tree.preorderAll, List.length_append]
    obtain ⟨node, behind⟩ := List.cons.inj here
    obtain ⟨first, few, steps⟩ := exists_steps t c node state
    rw [visitAll]
    cases visited : w.visit c.above state t with
    | error stop =>
      refine ⟨first, by omega, fun fuel => ?_⟩
      rw [steps fuel, visited]
      rfl
    | ok after =>
      -- One step goes on from a sibling, to the next one or to the node above.
      cases next : c.nextSibling? with
      | none =>
        have last : ts = [] := by rw [← behind, Cursor.nextSibling?_eq_none next]
        subst last
        refine ⟨first + 1, by omega, fun fuel => ?_⟩
        rw [show first + 1 + fuel = first + (fuel + 1) by omega, steps (fuel + 1), visited]
        exact w.climb_of_last next up fuel after
      | some d =>
        obtain ⟨others, beside, chain⟩ := Cursor.nextSibling?_eq_some next
        rw [behind] at others
        obtain ⟨more, fewer, rest⟩ := exists_steps_all ts d others parent (beside.trans up) after
        refine ⟨first + 1 + more, by omega, fun fuel => ?_⟩
        rw [show first + 1 + more + fuel = first + (more + fuel + 1) by omega, steps, visited]
        show w.climb (more + fuel + 1) c c.above after = _
        rw [w.climb_of_sibling next, rest fuel, chain]

end

/-- The walk with a cursor is the walk by recursion. -/
theorem run_eq_visit (state : σ) (t : Tree) : w.run state t = w.visit [] state t := by
  obtain ⟨used, few, steps⟩ := w.exists_steps t (.ofRoot t) rfl state
  -- The step that is left finds nothing beside the root and nothing above it.
  obtain ⟨rest, enough⟩ : ∃ rest, 2 * t.preorder.length = used + (rest + 1) :=
    ⟨2 * t.preorder.length - used - 1, by omega⟩
  have walked : w.run state t = w.visit [] state t >>= w.climb (rest + 1) (.ofRoot t) [] := by
    rw [run, enough]
    exact steps (rest + 1)
  rw [walked]
  cases w.visit [] state t <;> rfl

end Walk

/-! ## Walks that change nothing -/

mutual

/-- The nodes above the start of a walk are above every place of it. -/
private theorem Site.mem_ancestors_of_mem_preorderAt {above : List Tree} {n : Tree}
    (h : n ∈ above) : (t : Tree) → ∀ site ∈ Site.preorderAt above t, n ∈ site.ancestors
  | .node k f s e cs => by
    intro site hs
    rw [Site.preorderAt, List.mem_cons] at hs
    rcases hs with rfl | hs
    · exact h
    · exact Site.mem_ancestors_of_mem_preorderBelow (List.mem_cons_of_mem _ h) cs site hs

/-- The nodes above siblings are above every place below these. -/
theorem Site.mem_ancestors_of_mem_preorderBelow {above : List Tree} {n : Tree} (h : n ∈ above) :
    (ts : List Tree) → ∀ site ∈ Site.preorderBelow above ts, n ∈ site.ancestors
  | [] => fun _ hs => (List.not_mem_nil hs).elim
  | t :: ts => by
    have first := Site.mem_ancestors_of_mem_preorderAt h t
    have rest := Site.mem_ancestors_of_mem_preorderBelow h ts
    intro site hs
    rw [Site.preorderBelow, List.mem_append] at hs
    exact hs.elim (first site) (rest site)

end

namespace Walk

variable {σ ε : Type} {w : Walk σ ε}

/-- The walk leaves out exactly the nodes of a set, and going down changes nothing. -/
def Skips (w : Walk σ ε) (skipped : Tree → Bool) : Prop :=
  ∀ state site, w.enter state site = (if skipped site.node then .prune else .descend, state)

/-- No node at or above a place is left out. -/
def Reaches (skipped : Tree → Bool) (site : Site) : Prop :=
  ∀ n ∈ site.node :: site.ancestors, skipped n = false

theorem visitAll_cons (above : List Tree) (state : σ) (t : Tree) (ts : List Tree) :
    w.visitAll above state (t :: ts) = w.visit above state t >>= (w.visitAll above · ts) := by
  rw [visitAll]
  cases w.visit above state t <;> rfl

variable {skipped : Tree → Bool} {rank : σ → Nat} {k : Kind} {f : Option Field} {s e : Nat}
  {cs : List Tree}

theorem visit_of_skipped (skips : w.Skips skipped) (h : skipped (.node k f s e cs) = true)
    (above : List Tree) (state : σ) : w.visit above state (.node k f s e cs) = .ok state := by
  rw [visit, skips, h]
  rfl

theorem visit_of_not_skipped (skips : w.Skips skipped)
    (h : skipped (.node k f s e cs) = false) (above : List Tree) (state : σ) :
    w.visit above state (.node k f s e cs) =
      w.visitAll (.node k f s e cs :: above) state cs
        >>= (w.leave · ⟨.node k f s e cs, above⟩) := by
  rw [visit, skips, h]
  simp only [Bool.false_eq_true, if_false]
  cases w.visitAll (.node k f s e cs :: above) state cs <;> rfl

mutual

/-- A walk of rising steps is rising. -/
private theorem visit_rising (skips : w.Skips skipped)
    (rising : ∀ site, Rising rank (w.leave · site)) :
    (t : Tree) → (above : List Tree) → Rising rank (w.visit above · t)
  | .node k f s e cs, above => by
    cases here : skipped (.node k f s e cs) with
    | true =>
      simp only [visit_of_skipped skips here]
      exact .pure
    | false =>
      simp only [visit_of_not_skipped skips here]
      exact (visitAll_rising skips rising cs _).bind (rising _)

/-- A walk of rising steps over siblings is rising. -/
private theorem visitAll_rising (skips : w.Skips skipped)
    (rising : ∀ site, Rising rank (w.leave · site)) :
    (ts : List Tree) → (above : List Tree) → Rising rank (w.visitAll above · ts)
  | [], above => by
    simp only [visitAll]
    exact .pure
  | t :: ts, above => by
    simp only [visitAll_cons]
    exact (visit_rising skips rising t above).bind (visitAll_rising skips rising ts above)

end

mutual

/-- A walk of rising steps gives its state back iff every step at a place that it reaches does. -/
theorem visit_eq_self_iff (skips : w.Skips skipped)
    (rising : ∀ site, Rising rank (w.leave · site)) (state : σ) :
    (t : Tree) → (above : List Tree) → (∀ n ∈ above, skipped n = false) →
      (w.visit above state t = .ok state ↔
        ∀ site ∈ Site.preorderAt above t, Reaches skipped site → w.leave state site = .ok state)
  | .node k f s e cs, above, unskipped => by
    rw [Site.preorderAt, List.forall_mem_cons]
    cases here : skipped (.node k f s e cs) with
    | true =>
      -- Nothing below a node that is left out is reached.
      have unreached : ∀ site : Site, .node k f s e cs ∈ site.node :: site.ancestors →
          ¬ Reaches skipped site := by
        intro site inside reached
        have := reached _ inside
        rw [here] at this
        cases this
      refine iff_of_true (visit_of_skipped skips here above state)
        ⟨fun reached => ?_, fun site hs reached => ?_⟩
      · exact (unreached _ List.mem_cons_self reached).elim
      · refine (unreached site (List.mem_cons_of_mem _ ?_) reached).elim
        exact Site.mem_ancestors_of_mem_preorderBelow List.mem_cons_self cs site hs
    | false =>
      have inside : ∀ n ∈ Tree.node k f s e cs :: above, skipped n = false :=
        List.forall_mem_cons.2 ⟨here, unskipped⟩
      have below := visitAll_eq_self_iff skips rising state cs (.node k f s e cs :: above) inside
      -- The node itself is reached, so its own step is asked for without a condition.
      rw [visit_of_not_skipped skips here,
        Rising.bind_eq_self_iff (visitAll_rising skips rising cs _) (rising _), below, and_comm]
      exact and_congr_left fun _ => ⟨fun back _ => back, fun back => back inside⟩

/-- A walk of rising steps over siblings gives its state back iff every step at a place that it
reaches does. -/
theorem visitAll_eq_self_iff (skips : w.Skips skipped)
    (rising : ∀ site, Rising rank (w.leave · site)) (state : σ) :
    (ts : List Tree) → (above : List Tree) → (∀ n ∈ above, skipped n = false) →
      (w.visitAll above state ts = .ok state ↔
        ∀ site ∈ Site.preorderBelow above ts, Reaches skipped site →
          w.leave state site = .ok state)
  | [], above, _ => by simp [visitAll, Site.preorderBelow]
  | t :: ts, above, unskipped => by
    have first := visit_eq_self_iff skips rising state t above unskipped
    have rest := visitAll_eq_self_iff skips rising state ts above unskipped
    rw [visitAll_cons, Site.preorderBelow, List.forall_mem_append, ← first, ← rest]
    exact Rising.bind_eq_self_iff (visit_rising skips rising t above)
      (visitAll_rising skips rising ts above)

end

/-- A whole walk of rising steps gives its state back iff every step at a place that it reaches
does. -/
theorem run_eq_self_iff (skips : w.Skips skipped)
    (rising : ∀ site, Rising rank (w.leave · site)) {state : σ} (t : Tree) :
    w.run state t = .ok state ↔
      ∀ site ∈ t.sites, Reaches skipped site → w.leave state site = .ok state := by
  rw [run_eq_visit, Tree.sites]
  exact visit_eq_self_iff skips rising state t [] fun _ hn => (List.not_mem_nil hn).elim

/-- A whole walk of rising steps is rising. -/
theorem run_rising (skips : w.Skips skipped) (rising : ∀ site, Rising rank (w.leave · site))
    (t : Tree) : Rising rank (w.run · t) := by
  simp only [run_eq_visit]
  exact visit_rising skips rising t []

end Walk

end Interlace.Syntax
