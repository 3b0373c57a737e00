import Interlace.Proofs.Folds
import Interlace.Typing.Scope

/-!
# What identifiers can stand for

A walk through the scopes of a file records objects only from a few sources: the imports of the
file, the declarations of the package, the universe, and names declared along the way. A property
of objects that all of these have is therefore a property of every object that is recorded.

## Key results

- `ScopeWalk.Admits`: the sources of objects have a property
- `ScopeWalk.walk_all`: one walk keeps the property
- `ScopeWalk.run_uses`: what the identifiers of a file stand for has the property
-/

namespace Interlace

open Syntax

/-- All objects in scope and all recorded ones have a property. -/
structure ScopeState.All (Q : Object → Prop) (s : ScopeState) : Prop where
  scopes : ∀ scope ∈ s.scopes, ∀ e ∈ scope, Q e.2
  uses : ∀ u ∈ s.uses, Q u.2

/-- Everything that a walk takes objects from has a property. -/
structure ScopeWalk.Admits (w : ScopeWalk) (Q : Object → Prop) : Prop where
  imported : ∀ i ∈ w.imports, Q (.package i.path)
  declared : ∀ name d, w.package.declaration? name = some d → Q (w.declaredObject name d)
  builtin : ∀ name, Q (.builtin name)
  const : Q .const
  untyped : Q (.var none)
  localType : ∀ name, Q (.type w.package.importPath name)
  resolved : ∀ node, Q (.var (some (w.resolve node)))
  pointer : ∀ type, Q (.var (some type)) → Q (.var (some (.pointer type)))

variable {Q : Object → Prop}

namespace ScopeState

/-- At first there are no objects. -/
private theorem start_all : start.All Q :=
  ⟨fun _ h => (List.not_mem_nil h).elim, fun _ h => (List.not_mem_nil h).elim⟩

private theorem record_all {s : ScopeState} (h : s.All Q) (offset : Nat) {object : Object}
    (ho : Q object) : (s.record offset object).All Q := by
  refine ⟨h.scopes, fun u hu => ?_⟩
  rcases List.mem_cons.1 hu with rfl | hu
  · exact ho
  · exact h.uses u hu

private theorem inScope_all {s : ScopeState} (h : s.All Q) {step : ScopeState → ScopeState}
    (hstep : ∀ s : ScopeState, s.All Q → (step s).All Q) : (s.inScope step).All Q := by
  have opened : ({ s with scopes := [] :: s.scopes } : ScopeState).All Q := by
    refine ⟨fun scope hs e he => ?_, h.uses⟩
    rcases List.mem_cons.1 hs with rfl | hs
    · exact (List.not_mem_nil he).elim
    · exact h.scopes scope hs e he
  -- Scopes are given back as they were; only what was recorded inside stays.
  exact ⟨h.scopes, (hstep _ opened).uses⟩

private theorem find?_all {s : ScopeState} (h : s.All Q) {name : Text} {object : Object}
    (found : s.find? name = some object) : Q object := by
  obtain ⟨scope, hs, e⟩ := List.exists_of_findSome?_eq_some found
  obtain ⟨entry, he, rfl⟩ := Option.map_eq_some_iff.1 e
  exact h.scopes scope hs entry (List.mem_of_find?_eq_some he)

/-- A fold keeps the property if every step does. -/
private theorem foldl_all {α : Type} {step : ScopeState → α → ScopeState} {l : List α}
    (hstep : ∀ s a, s.All Q → (step s a).All Q) {s : ScopeState} (h : s.All Q) :
    (l.foldl step s).All Q :=
  foldl_keeps (fun s a _ hs => hstep s a hs) h

/-- A part of a node, if it is there, keeps the property if every step does. -/
private theorem part_all {step : ScopeState → Tree → ScopeState}
    (hstep : ∀ s t, s.All Q → (step s t).All Q) (part : Option Tree) {s : ScopeState}
    (h : s.All Q) :
    (match part with
      | some child => step s child
      | none => s).All Q := by
  cases part with
  | none => exact h
  | some child => exact hstep s child h

end ScopeState

namespace ScopeWalk

open ScopeState

variable {w : ScopeWalk}

/-! ## Names -/

private theorem declare_all {s : ScopeState} (h : s.All Q) {object : Object} (ho : Q object)
    (name : Tree) : (w.declare object s name).All Q := by
  unfold declare
  dsimp only
  split
  · exact h
  · -- The object is noted as a use, and put into the innermost scope if there is one.
    have recorded := record_all h name.start ho
    split
    · exact recorded
    · rename_i scope outer eq
      refine ⟨fun inner hi e he => ?_, recorded.uses⟩
      rcases List.mem_cons.1 hi with rfl | hi
      · rcases List.mem_cons.1 he with rfl | he
        · exact ho
        · exact recorded.scopes scope (eq ▸ List.mem_cons_self) e he
      · exact recorded.scopes inner (eq ▸ List.mem_cons_of_mem _ hi) e he

theorem Admits.typed (hw : w.Admits Q) (node : Option Tree) :
    Q (.var (node.map w.resolve)) := by
  cases node with
  | none => exact hw.untyped
  | some node => exact hw.resolved node

private theorem declareParameters_all (hw : w.Admits Q) {s : ScopeState} (h : s.All Q)
    (list : Tree) : (w.declareParameters s list).All Q :=
  foldl_all (fun _ _ hs => foldl_all (fun _ name hs => declare_all hs (hw.typed _) name) hs) h

private theorem lookup?_all (hw : w.Admits Q) {s : ScopeState} (h : s.All Q) {name : Text}
    {object : Object} (found : w.lookup? s name = some object) : Q object := by
  unfold lookup? at found
  -- From the inside out: the scopes, the package, the imports and the universe.
  split at found
  · rename_i found' eq
    cases found
    exact find?_all h eq
  · split at found
    · rename_i d eq
      cases found
      exact hw.declared name d eq
    · split at found
      · rename_i i eq
        cases found
        exact hw.imported i (List.mem_of_find?_eq_some eq)
      · split at found
        · cases found
          exact hw.builtin name
        · cases found

private theorem inferType?_all (hw : w.Admits Q) {s : ScopeState} (h : s.All Q) (fuel : Nat)
    (value : Tree) : Q (.var (w.inferType? s fuel value)) := by
  induction fuel generalizing value with
  | zero => exact hw.untyped
  | succ fuel ih =>
    rw [inferType?]
    split
    · exact hw.typed _
    · split
      · rename_i operator operand _ _
        split
        -- The address of a value.
        · have inner := ih operand
          cases inferred : w.inferType? s fuel operand with
          | none => exact hw.untyped
          | some type => exact hw.pointer type (inferred ▸ inner)
        · exact hw.untyped
      · exact hw.untyped
    · split
      · rename_i type eq
        exact lookup?_all hw h eq
      · exact hw.untyped
    · exact hw.untyped

private theorem declarePairs_all (hw : w.Admits Q) {s : ScopeState} (h : s.All Q)
    (names values : List Tree) : (w.declarePairs s names values).All Q := by
  unfold declarePairs
  dsimp only
  refine foldl_all (fun s (name, i) hs => declare_all hs ?_ name) h
  split
  · cases values[i]? with
    | none => exact hw.untyped
    | some value => exact inferType?_all hw hs _ value
  · exact hw.untyped

/-! ## The walk -/

/-- A walk through a node keeps the property. The induction is on the fuel, so that the walks
through the children are covered. -/
theorem walk_all (hw : w.Admits Q) (fuel : Nat) (s : ScopeState) (node : Tree)
    (h : s.All Q) : (w.walk fuel s node).All Q := by
  induction fuel generalizing s node with
  | zero => exact h
  | succ fuel ih =>
    have each : ∀ (nodes : List Tree) (s : ScopeState), s.All Q →
        (nodes.foldl (w.walk fuel) s).All Q :=
      fun nodes s hs => foldl_all (fun s node hs => ih s node hs) hs
    have part := fun (f : Field) (s : ScopeState) (hs : s.All Q) =>
      part_all ih (node.child? f) hs
    have parameters : ∀ (list : Option Tree) (s : ScopeState), s.All Q →
        ((list.map (w.declareParameters s)).getD s).All Q := by
      intro list s hs
      cases list with
      | none => exact hs
      | some list => exact declareParameters_all hw hs list
    rw [walk]
    dsimp only
    split
    -- Functions: parameters, then the body.
    case h_1 | h_2 | h_3 =>
      refine inScope_all h fun s hs => ?_
      have declared :=
        parameters (node.child? .parameters) _ (parameters (node.child? .receiver) s hs)
      split
      · split
        · split
          · exact each _ _ (declareParameters_all hw declared _)
          · exact each _ _ declared
        · exact each _ _ declared
      · split
        · split
          · exact declareParameters_all hw declared _
          · exact declared
        · exact declared
    -- Blocks and clauses.
    case h_4 | h_5 | h_6 | h_7 | h_8 | h_9 | h_10 | h_11 | h_12 =>
      exact inScope_all h fun s hs => each _ s hs
    -- Type switches: the bound names have no type.
    case h_13 =>
      refine inScope_all h fun s hs => each _ _ (foldl_all (fun s name hs => ?_) ?_)
      · exact declare_all hs hw.untyped name
      · exact part .value _ (part .initializer s hs)
    -- Definitions and ranges, whose right side comes first.
    case h_14 =>
      have read := part .right s h
      split
      · exact declarePairs_all hw read _ _
      · exact read
    case h_15 =>
      have read := part .right s h
      split
      · split
        · exact foldl_all (fun s name hs => declare_all hs hw.untyped name) read
        · exact ih _ _ read
      · exact read
    -- Selectors and keyed elements.
    case h_16 => exact part .operand s h
    case h_17 =>
      split
      · exact h
      · split
        · exact each _ s h
        · exact each _ s h
    -- Identifiers.
    case h_18 =>
      split
      · rename_i object found
        exact record_all h node.start (lookup?_all hw h found)
      · exact h
    case h_19 =>
      split
      · rename_i i found
        exact record_all h node.start (hw.imported i (List.mem_of_find?_eq_some found))
      · exact h
    case h_20 | h_21 | h_22 => exact h
    -- Declarations, which bind names only inside functions.
    case h_23 =>
      split
      · exact foldl_all (fun s name hs => declare_all hs (hw.typed _) name) (part .value s h)
      · exact each _ s h
    case h_24 =>
      split
      · exact foldl_all (fun s name hs => declare_all hs hw.const name) (part .value s h)
      · exact each _ s h
    case h_25 | h_26 =>
      split
      · split
        · rename_i name _
          exact declare_all h (hw.localType _) name
        · exact h
      · exact each _ s h
    case h_27 => exact each _ s h

/-- What the identifiers of a file stand for has every property that the sources have. -/
theorem run_uses (hw : w.Admits Q) : ∀ u ∈ w.run.uses, Q u.2 :=
  (walk_all hw _ _ _ start_all).uses

end ScopeWalk

end Interlace
