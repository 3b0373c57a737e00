import Interlace.Proofs.Folds
import Interlace.Proofs.LocalBindings
import Interlace.Typing.Scope

/-!
# What the walk through the scopes does at a node

The walk does a few things at each node, one after the other: it goes through parts of the node,
declares names, or looks a name up. Which, and in which order, depends on the node and on whether a
scope is open, and not on what is known of any name.

## Key results

- `Tree.walkSteps`: what the walk does at a node
- `ScopeWalk.Performs`: a list of steps is done
- `ScopeWalk.walk_performs`: the walk does the steps of the node, in a scope of its own if the node
  opens one
-/

namespace Interlace

open Syntax

namespace Syntax

/-- One thing that the walk does at a node. -/
inductive WalkStep where
  /-- Goes through a node. It is a child if nothing lies between, and otherwise further down. -/
  | visit (between : List Tree) (t : Tree)
  | declare (name : Tree)
  /-- Looks the node up as a name. -/
  | look
  /-- Looks the node up among the imports. -/
  | qualify

namespace Tree

/-- The walk goes through nodes. -/
def visits (ts : List Tree) : List WalkStep :=
  ts.map (.visit [])

/-- The names in declarations of parameters. -/
def listedNames (list : Tree) : List Tree :=
  list.namedChildren.flatMap (childrenIn .name)

/-- The parameters of a function, all kinds of them. -/
def parameterLists (node : Tree) : List Tree :=
  (node.child? .receiver).toList ++ (node.child? .parameters).toList ++
    ((node.child? .result).filter (·.kind = .parameterList)).toList

/-- The names that a type switch binds. -/
def guardNames (node : Tree) : List Tree :=
  (node.childrenIn .binding).flatMap fun a =>
    if a.namedChildren.isEmpty then [a] else a.namedChildren

/-- What the walk does at a node. -/
def walkSteps (inFunction : Bool) (node : Tree) : List WalkStep :=
  let part := fun (f : Field) => visits (node.child? f).toList
  let left := ((node.child? .left).map namedChildren).getD []
  match node.kind with
  | .functionDeclaration | .methodDeclaration | .funcLiteral =>
    (node.parameterLists.flatMap listedNames).map .declare ++
      (node.child? .body).toList.flatMap fun body => body.namedChildren.map (.visit [body])
  | .typeSwitchStatement =>
    part .initializer ++ part .value ++ node.guardNames.map .declare ++
      visits (node.namedChildren.filter fun c => c.kind = .typeCase || c.kind = .defaultCase)
  | .shortVarDeclaration => part .right ++ left.map .declare
  | .rangeClause =>
    part .right ++ if node.isDefining then left.map .declare else part .left
  | .selectorExpression => part .operand
  | .keyedElement =>
    match node.namedChildren with
    | [] => []
    | key :: rest =>
      if key.literalInner.kind = .identifier then visits rest else visits (key :: rest)
  | .identifier => [.look]
  | .packageIdentifier => [.qualify]
  | .comment | .importDeclaration | .packageClause => []
  | .varSpec | .constSpec =>
    if inFunction then part .value ++ (node.childrenIn .name).map .declare
    else visits node.namedChildren
  | .typeSpec | .typeAlias =>
    if inFunction then (node.child? .name).toList.map .declare else visits node.namedChildren
  | _ => visits node.namedChildren

end Tree

end Syntax

/-- The object is an imported package. -/
def Object.isPackage : Object → Bool
  | .package _ => true
  | _ => false

namespace ScopeWalk

variable {w : ScopeWalk} {fuel : Nat} {node : Tree} {s s' s'' : ScopeState}
  {steps steps' : List WalkStep}

/-- Records what a name stands for, if it is known. -/
def look (w : ScopeWalk) (s : ScopeState) (node : Tree) : ScopeState :=
  match w.lookup? s (w.file.text node) with
  | some object => s.record node.start object
  | none => s

/-- Records the import that a name stands for, if there is one. -/
def qualify (w : ScopeWalk) (s : ScopeState) (node : Tree) : ScopeState :=
  match w.imports.find? (·.localName = w.file.text node) with
  | some i => s.record node.start (.package i.path)
  | none => s

/-- The steps are done one after the other. -/
inductive Performs (w : ScopeWalk) (fuel : Nat) (node : Tree) :
    List WalkStep → ScopeState → ScopeState → Prop
  | nil (s : ScopeState) : Performs w fuel node [] s s
  | visit {between : List Tree} {t : Tree} {steps : List WalkStep} {s s' : ScopeState} :
      Performs w fuel node steps (w.walk fuel s t) s' →
      Performs w fuel node (.visit between t :: steps) s s'
  | declare {name : Tree} {object : Object} {steps : List WalkStep} {s s' : ScopeState} :
      object.isPackage = false → Performs w fuel node steps (w.declare object s name) s' →
      Performs w fuel node (.declare name :: steps) s s'
  | look {steps : List WalkStep} {s s' : ScopeState} :
      Performs w fuel node steps (w.look s node) s' →
      Performs w fuel node (.look :: steps) s s'
  | qualify {steps : List WalkStep} {s s' : ScopeState} :
      Performs w fuel node steps (w.qualify s node) s' →
      Performs w fuel node (.qualify :: steps) s s'

namespace Performs

theorem append (first : w.Performs fuel node steps s s')
    (second : w.Performs fuel node steps' s' s'') :
    w.Performs fuel node (steps ++ steps') s s'' := by
  induction first with
  | nil => exact second
  | visit _ ih => exact .visit (ih second)
  | declare other _ ih => exact .declare other (ih second)
  | look _ ih => exact .look (ih second)
  | qualify _ ih => exact .qualify (ih second)

theorem visits (between : List Tree) (ts : List Tree) (s : ScopeState) :
    w.Performs fuel node (ts.map (.visit between)) s (ts.foldl (w.walk fuel) s) := by
  induction ts generalizing s with
  | nil => exact .nil s
  | cons t ts ih => exact .visit (ih _)

/-- A part of the node is gone through, if it is there. -/
theorem part (f : Field) (s : ScopeState) :
    w.Performs fuel node (Tree.visits (node.child? f).toList) s
      (match node.child? f with
        | some child => w.walk fuel s child
        | none => s) := by
  cases node.child? f with
  | none => exact .nil s
  | some child => exact .visit (.nil _)

/-- Names are declared one after the other, each as anything but a package. -/
theorem declares {α : Type} {step : ScopeState → α → ScopeState} {name : α → Tree} (l : List α)
    (h : ∀ s, ∀ a ∈ l, ∃ object, object.isPackage = false ∧
      step s a = w.declare object s (name a)) (s : ScopeState) :
    w.Performs fuel node ((l.map name).map .declare) s (l.foldl step s) := by
  induction l generalizing s with
  | nil => exact .nil s
  | cons a l ih =>
    obtain ⟨object, other, eq⟩ := h s a List.mem_cons_self
    rw [List.foldl_cons, eq]
    exact .declare other (ih (fun s a ha => h s a (List.mem_cons_of_mem _ ha)) _)

private theorem declareAll {object : Object} (other : object.isPackage = false) (names : List Tree)
    (s : ScopeState) :
    w.Performs fuel node (names.map .declare) s (names.foldl (w.declare object) s) := by
  have all : w.Performs fuel node ((names.map id).map .declare) s
      (names.foldl (w.declare object) s) :=
    declares names (fun s name _ => ⟨object, other, rfl⟩) s
  rwa [List.map_id] at all

theorem parameters (list : Tree) (s : ScopeState) :
    w.Performs fuel node (list.listedNames.map .declare) s (w.declareParameters s list) := by
  unfold declareParameters Tree.listedNames
  induction list.namedChildren generalizing s with
  | nil => exact .nil s
  | cons declaration rest ih =>
    rw [List.flatMap_cons, List.map_append, List.foldl_cons]
    exact (declareAll rfl _ _).append (ih _)

/-- Parameters are declared if the function has them. -/
private theorem anyParameters (list : Option Tree) (s : ScopeState) :
    w.Performs fuel node ((list.toList.flatMap Tree.listedNames).map .declare) s
      ((list.map (w.declareParameters s)).getD s) := by
  cases list with
  | none => exact .nil s
  | some list =>
    rw [Option.toList_some, List.flatMap_singleton]
    exact parameters list s

theorem pairs (names values : List Tree) (s : ScopeState) :
    w.Performs fuel node (names.map .declare) s (w.declarePairs s names values) := by
  have all : w.Performs fuel node ((names.zipIdx.map Prod.fst).map .declare) s
      (w.declarePairs s names values) :=
    declares names.zipIdx (fun s a _ => ⟨_, rfl, rfl⟩) s
  rwa [List.zipIdx_map_fst] at all

end Performs

/-- Results are declared if they have names. -/
private theorem declareResults_eq (result : Option Tree) (s : ScopeState) :
    (match result with
      | some result => if result.kind = .parameterList then w.declareParameters s result else s
      | none => s) =
      (((result.filter (·.kind = .parameterList)).map (w.declareParameters s)).getD s) := by
  cases result with
  | none => rfl
  | some result => by_cases list : result.kind = .parameterList <;> simp [list, Option.filter]

/-- The walk does the steps of the node, in a scope of its own if the node opens one. -/
theorem walk_performs (fuel : Nat) (s : ScopeState) (node : Tree) :
    ∃ s', w.walk (fuel + 1) s node =
        (if node.kind.opensScope then { s' with scopes := s.scopes } else s') ∧
      w.Performs fuel node (node.walkSteps (! s.scopes.isEmpty))
        (if node.kind.opensScope then { s with scopes := [] :: s.scopes } else s) s' := by
  rw [walk]
  dsimp only
  split
  -- Functions: parameters, then the body.
  case h_1 kind | h_2 kind | h_3 kind =>
    simp only [Tree.walkSteps, kind, Kind.opensScope, if_true, ScopeState.inScope,
      Tree.parameterLists, List.flatMap_append, List.map_append]
    refine ⟨_, rfl, .append (.append (.append (.anyParameters _ _) (.anyParameters _ _))
      (.anyParameters _ _)) ?_⟩
    rw [← declareResults_eq]
    cases node.child? .body with
    | none => exact .nil _
    | some body =>
      rw [Option.toList_some, List.flatMap_singleton]
      exact .visits [body] _ _
  -- Blocks and clauses.
  case h_4 kind | h_5 kind | h_6 kind | h_7 kind | h_8 kind | h_9 kind | h_10 kind | h_11 kind
      | h_12 kind =>
    simp only [Tree.walkSteps, kind, Kind.opensScope, if_true, ScopeState.inScope]
    exact ⟨_, rfl, .visits [] _ _⟩
  case h_13 kind =>
    simp only [Tree.walkSteps, kind, Kind.opensScope, if_true, ScopeState.inScope]
    exact ⟨_, rfl, (((Performs.part .initializer _).append (.part .value _)).append
      (.declareAll rfl _ _)).append (.visits [] _ _)⟩
  -- Definitions and ranges, whose right side comes first.
  case h_14 kind =>
    simp only [Tree.walkSteps, kind, Kind.opensScope, Bool.false_eq_true, if_false]
    refine ⟨_, rfl, (Performs.part _ _).append ?_⟩
    cases node.child? .left with
    | none => exact .nil _
    | some left => exact .pairs _ _ _
  case h_15 kind =>
    simp only [Tree.walkSteps, kind, Kind.opensScope, Bool.false_eq_true, if_false]
    refine ⟨_, rfl, (Performs.part _ _).append ?_⟩
    cases node.child? .left with
    | none =>
      split
      · exact .nil _
      · exact .nil _
    | some left =>
      unfold Tree.isDefining
      dsimp only
      split
      · exact .declareAll rfl _ _
      · exact .visits [] [left] _
  -- Selectors and keyed elements.
  case h_16 kind =>
    simp only [Tree.walkSteps, kind, Kind.opensScope, Bool.false_eq_true, if_false]
    exact ⟨_, rfl, .part _ _⟩
  case h_17 kind =>
    simp only [Tree.walkSteps, kind, Kind.opensScope, Bool.false_eq_true, if_false]
    refine ⟨_, rfl, ?_⟩
    cases node.namedChildren with
    | nil => exact .nil _
    | cons key rest =>
      dsimp only
      split
      · exact .visits [] _ _
      · exact .visits [] _ _
  -- Names.
  case h_18 kind =>
    simp only [Tree.walkSteps, kind, Kind.opensScope, Bool.false_eq_true, if_false]
    exact ⟨_, rfl, .look (.nil _)⟩
  case h_19 kind =>
    simp only [Tree.walkSteps, kind, Kind.opensScope, Bool.false_eq_true, if_false]
    exact ⟨_, rfl, .qualify (.nil _)⟩
  case h_20 kind | h_21 kind | h_22 kind =>
    simp only [Tree.walkSteps, kind, Kind.opensScope, Bool.false_eq_true, if_false]
    exact ⟨_, rfl, .nil _⟩
  -- Declarations, which declare names only inside functions.
  case h_23 kind | h_24 kind =>
    simp only [Tree.walkSteps, kind, Kind.opensScope, Bool.false_eq_true, if_false]
    refine ⟨_, rfl, ?_⟩
    split
    · exact (Performs.part _ _).append (.declareAll rfl _ _)
    · exact .visits [] _ _
  case h_25 kind | h_26 kind =>
    simp only [Tree.walkSteps, kind, Kind.opensScope, Bool.false_eq_true, if_false]
    refine ⟨_, rfl, ?_⟩
    split
    · cases node.child? .name with
      | none => exact .nil _
      | some name => exact .declareAll rfl [name] _
    · exact .visits [] _ _
  case h_27 =>
    simp only [Tree.walkSteps, Kind.opensScope, *]
    exact ⟨_, rfl, .visits [] _ _⟩

end ScopeWalk

end Interlace
