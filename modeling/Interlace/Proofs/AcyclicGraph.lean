import Interlace.Proofs.Folds
import Interlace.Proofs.GraphSearch

/-!
# The extends graph has no circle

An edge is refused exactly if its ends are the same or lead back to each other along the recorded
edges, so that whatever the calls, no document ever extends itself through others.

## Key results

- `ExtendsGraph.addEdge_cases`: what one call does
- `ExtendsGraph.sound_after`: every graph made by calls is acyclic and has no parallel edges
- `ExtendsGraph.addEdge_after`: which calls fail, and with which circle
-/

namespace Interlace.ExtendsGraph

open Relation

/-- No document leads to itself. -/
def Acyclic (g : ExtendsGraph) : Prop :=
  ∀ a, ¬ TransGen g.Extends a a

/-- What holds of every graph that is made by calls. -/
structure Sound (g : ExtendsGraph) : Prop extends g.Tidy where
  acyclic : g.Acyclic

theorem sound_empty : empty.Sound where
  nodup := List.nodup_nil
  known := fun _ _ edge => absurd edge List.not_mem_nil
  acyclic := by
    intro a circle
    obtain ⟨b, edge, -⟩ := TransGen.head'_iff.1 circle
    exact List.not_mem_nil edge

/-! ## Documents -/

@[simp]
theorem edges_addNode (g : ExtendsGraph) (id : Text) : (g.addNode id).edges = g.edges := by
  unfold addNode
  split <;> rfl

private theorem mem_nodes_addNode {g : ExtendsGraph} {id a : Text} :
    a ∈ (g.addNode id).nodes ↔ a ∈ g.nodes ∨ a = id := by
  unfold addNode
  split
  · rename_i there
    exact ⟨.inl, fun h => h.elim (fun h => h) (fun same => same ▸ there)⟩
  · simp

@[simp]
theorem extends_addNode (g : ExtendsGraph) (id : Text) :
    (g.addNode id).Extends = g.Extends := by
  unfold Extends
  rw [edges_addNode]

/-- One more document changes nothing about the edges. -/
theorem Sound.addNode {g : ExtendsGraph} (h : g.Sound) (id : Text) : (g.addNode id).Sound where
  nodup := by simpa using h.nodup
  known := by
    intro a b edge
    rw [extends_addNode] at edge
    obtain ⟨ha, hb⟩ := h.known a b edge
    exact ⟨mem_nodes_addNode.2 (.inl ha), mem_nodes_addNode.2 (.inl hb)⟩
  acyclic := by
    unfold Acyclic
    rw [extends_addNode]
    exact h.acyclic

/-! ## Edges -/

/-- A walk that may use one more edge either does not use it, or reaches it and goes on from
it. -/
private theorem transGen_of_edge {R S : Text → Text → Prop} {id target : Text}
    (cases_edge : ∀ a b, S a b → R a b ∨ a = id ∧ b = target) {a b : Text} (h : TransGen S a b) :
    TransGen R a b ∨ ReflTransGen R a id ∧ ReflTransGen R target b := by
  induction h with
  | single edge =>
    rcases cases_edge _ _ edge with edge | ⟨rfl, rfl⟩
    · exact .inl (.single edge)
    · exact .inr ⟨.refl, .refl⟩
  | tail _ edge ih =>
    rcases cases_edge _ _ edge with edge | ⟨rfl, rfl⟩
    · exact ih.imp (·.tail edge) fun around => ⟨around.1, around.2.tail edge⟩
    · exact .inr ⟨ih.elim TransGen.to_reflTransGen And.left, .refl⟩

/-- An edge that closes no circle can be recorded. -/
theorem Sound.cons {g : ExtendsGraph} (h : g.Sound) {id target : Text} (from_mem : id ∈ g.nodes)
    (to_mem : target ∈ g.nodes) (new : (id, target) ∉ g.edges)
    (apart : ¬ ReflTransGen g.Extends target id) :
    ({ g with edges := (id, target) :: g.edges } : ExtendsGraph).Sound where
  nodup := List.nodup_cons.2 ⟨new, h.nodup⟩
  known := by
    intro a b edge
    rcases List.mem_cons.1 edge with same | edge
    · cases same
      exact ⟨from_mem, to_mem⟩
    · exact h.known a b edge
  acyclic := by
    intro a circle
    -- A circle either avoids the new edge or shows a way back from its end.
    have split : TransGen g.Extends a a ∨
        ReflTransGen g.Extends a id ∧ ReflTransGen g.Extends target a :=
      transGen_of_edge (fun _ _ edge => (List.mem_cons.1 edge).symm.imp_right Prod.mk.inj) circle
    rcases split with circle | ⟨there, back⟩
    · exact h.acyclic a circle
    · exact apart (back.trans there)

/-- A closed walk that an edge would complete: it starts and ends with the document that the edge
leads to, the document that the edge leaves comes just before the end, and all steps but the last
one are recorded. -/
def Closes (g : ExtendsGraph) (id target : Text) (circle : List Text) : Prop :=
  ∃ path, circle = path ++ [target] ∧ g.IsPath target id path

/-- What a call does. It fails with a shortest circle, and leaves the edges alone; or there is no
circle, and the edge is recorded unless it is there. -/
theorem addEdge_cases {g : ExtendsGraph} (h : g.Sound) (id target : Text) :
    (∃ path, g.Reports target id (some path) ∧
      (g.addEdge id target).1 = some (path ++ [target]) ∧
      (g.addEdge id target).2.edges = g.edges ∧ (g.addEdge id target).2.Sound) ∨
    (g.Reports target id none ∧ (g.addEdge id target).1 = none ∧
      (∀ e, e ∈ (g.addEdge id target).2.edges ↔ e ∈ g.edges ∨ e = (id, target)) ∧
      (g.addEdge id target).2.Sound) := by
  have sound := (h.addNode id).addNode target
  have known : target ∈ ((g.addNode id).addNode target).nodes := mem_nodes_addNode.2 (.inr rfl)
  have truth := path?_reports sound.toTidy known id
  -- Documents without edges change no path.
  have same : ((g.addNode id).addNode target).Reports = g.Reports := by
    unfold Reports
    have paths : ∀ a b path, ((g.addNode id).addNode target).IsPath a b path ↔
        g.IsPath a b path := by
      intro a b path
      constructor <;> rintro ⟨head, last, chain⟩ <;> exact ⟨head, last, by simpa using chain⟩
    funext a b found
    cases found <;> simp [paths]
  rw [same] at truth
  unfold addEdge
  dsimp only
  cases found : ((g.addNode id).addNode target).path? target id with
  | some path =>
    rw [found] at truth
    exact .inl ⟨path, truth, rfl, by simp, sound⟩
  | none =>
    rw [found] at truth
    refine .inr ⟨truth, ?_⟩
    dsimp only
    split
    · rename_i there
      refine ⟨rfl, fun e => ?_, sound⟩
      simp only [edges_addNode] at there ⊢
      exact ⟨.inl, fun he => he.elim (fun he => he) (fun same => same ▸ there)⟩
    · rename_i new
      have leaves : id ∈ ((g.addNode id).addNode target).nodes :=
        mem_nodes_addNode.2 (.inl (mem_nodes_addNode.2 (.inr rfl)))
      refine ⟨rfl, fun e => ?_, sound.cons leaves known new (by simpa [Reports] using truth)⟩
      simp [or_comm]

private theorem addEdge_sound {g : ExtendsGraph} (h : g.Sound) (id target : Text) :
    (g.addEdge id target).2.Sound := by
  rcases addEdge_cases h id target with ⟨_, _, _, _, sound⟩ | ⟨_, _, _, sound⟩ <;> exact sound

/-! ## Calls -/

/-- The graph after calls, each given by the document that extends and the one that is
extended. -/
def after (calls : List (Text × Text)) : ExtendsGraph :=
  calls.foldl (fun g call => (g.addEdge call.1 call.2).2) empty

/-- Whatever the calls, the graph is acyclic and records no edge twice. -/
theorem sound_after (calls : List (Text × Text)) : (after calls).Sound :=
  foldl_keeps (K := Sound) (fun _ call _ h => addEdge_sound h call.1 call.2) sound_empty

/-- After any calls, the next one leaves an acyclic graph without parallel edges. It fails exactly
if the edge leads from a document to itself or the recorded edges lead back; it then records no
edge, and the circle that it reports is a shortest one and repeats no document but the ends. -/
theorem addEdge_after (calls : List (Text × Text)) (id target : Text) :
    (((after calls).addEdge id target).2.Acyclic ∧
      ((after calls).addEdge id target).2.edges.Nodup) ∧
    (((after calls).addEdge id target).1.isSome ↔
      id = target ∨ TransGen (after calls).Extends target id) ∧
    (((after calls).addEdge id target).1 = none →
      ∀ e, e ∈ ((after calls).addEdge id target).2.edges ↔
        e ∈ (after calls).edges ∨ e = (id, target)) ∧
    ∀ circle, ((after calls).addEdge id target).1 = some circle →
      ((after calls).addEdge id target).2.edges = (after calls).edges ∧
      (after calls).Closes id target circle ∧ circle.dropLast.Nodup ∧
      ∀ other, (after calls).Closes id target other → circle.length ≤ other.length := by
  have sound := addEdge_sound (sound_after calls) id target
  have reaches : ReflTransGen (after calls).Extends target id ↔
      id = target ∨ TransGen (after calls).Extends target id := reflTransGen_iff_eq_or_transGen
  refine ⟨⟨sound.acyclic, sound.nodup⟩, ?_⟩
  rw [← reaches]
  -- The search finds a shortest way back, or there is none and the edge is recorded.
  rcases addEdge_cases (sound_after calls) id target with
    ⟨path, ⟨isPath, distinct, shortest⟩, failed, kept, -⟩ | ⟨apart, recorded, edges, -⟩
  · rw [failed]
    refine ⟨iff_of_true rfl isPath.reaches, nofun, fun circle same => ?_⟩
    cases same
    refine ⟨kept, ⟨path, rfl, isPath⟩, by simpa using distinct, ?_⟩
    rintro other ⟨rival, rfl, found⟩
    simpa using shortest rival found
  · rw [recorded]
    exact ⟨iff_of_false (by simp) apart, fun _ => edges, nofun⟩

example : (addEdge (after [("a", "b"), ("b", "c"), ("a", "d"), ("d", "c")]) "c" "a").1
    = some [("a" : Text), "d", "c", "a"] := by decide +kernel

end Interlace.ExtendsGraph
