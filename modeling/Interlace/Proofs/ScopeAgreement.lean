import Interlace.Proofs.ScopeObjects

/-!
# One file in two packages

A walk through the scopes of a file sees its package through the imports of the file, the
declarations and the types of type expressions. If two packages give the same there up to a view of
types, such as following aliases, then the walk records the same objects up to that view.

## Key results

- `ScopeWalk.Agrees`: two packages give a walk the same, up to a view of types
- `ScopeWalk.walk_same`: one walk records the same in both
- `ScopeWalk.run_same`: what the identifiers of the file stand for agrees
-/

namespace Interlace

open Syntax

/-- The object under a view of types. -/
def Object.view (g : TypeRef → TypeRef) : Object → Object
  | .var t => .var (t.map g)
  | object => object

namespace ScopeState

/-- Everything that a state holds, under a view of types. -/
def view (g : TypeRef → TypeRef) (s : ScopeState) : ScopeState :=
  ⟨s.scopes.map (List.map (Prod.map id (Object.view g))),
    s.uses.map (Prod.map id (Object.view g)), s.locals⟩

variable {g : TypeRef → TypeRef} {s s' : ScopeState}

theorem view_ext_iff : s.view g = s'.view g ↔
    s.scopes.map (List.map (Prod.map id (Object.view g))) =
      s'.scopes.map (List.map (Prod.map id (Object.view g))) ∧
    s.uses.map (Prod.map id (Object.view g)) = s'.uses.map (Prod.map id (Object.view g)) ∧
    s.locals = s'.locals := by
  simp [view]

private theorem record_same (h : s.view g = s'.view g) (offset : Nat) {o o' : Object}
    (ho : o.view g = o'.view g) : (s.record offset o).view g = (s'.record offset o').view g := by
  obtain ⟨scopes, uses, locals⟩ := view_ext_iff.1 h
  refine view_ext_iff.2 ⟨scopes, ?_, locals⟩
  simp [record, ho, uses]

private theorem inScope_same (h : s.view g = s'.view g) {step step' : ScopeState → ScopeState}
    (hstep : ∀ s s' : ScopeState, s.view g = s'.view g → (step s).view g = (step' s').view g) :
    (s.inScope step).view g = (s'.inScope step').view g := by
  obtain ⟨scopes, uses, locals⟩ := view_ext_iff.1 h
  have opened := hstep { s with scopes := [] :: s.scopes } { s' with scopes := [] :: s'.scopes }
    (view_ext_iff.2 ⟨by simp [scopes], uses, locals⟩)
  obtain ⟨-, inside, declared⟩ := view_ext_iff.1 opened
  -- Scopes are given back as they were; what was recorded inside stays.
  exact view_ext_iff.2 ⟨scopes, inside, declared⟩

private theorem isEmpty_same (h : s.view g = s'.view g) : s.scopes.isEmpty = s'.scopes.isEmpty := by
  have scopes := (view_ext_iff.1 h).1
  cases outer : s.scopes <;> cases outer' : s'.scopes <;> simp [outer, outer'] at scopes ⊢

private theorem find?_view (g : TypeRef → TypeRef) (s : ScopeState) (name : Text) :
    (s.view g).find? name = (s.find? name).map (Object.view g) := by
  have one (scope : List (Text × Object)) :
      ((scope.map (Prod.map id (Object.view g))).find? (·.1 = name)).map Prod.snd =
        ((scope.find? (·.1 = name)).map Prod.snd).map (Object.view g) := by
    rw [List.find?_map, Option.map_map, Option.map_map]
    rfl
  unfold find? view
  dsimp only
  induction s.scopes with
  | nil => rfl
  | cons scope outer ih =>
    rw [List.map_cons, List.findSome?_cons, List.findSome?_cons, one scope, ih]
    cases (scope.find? (·.1 = name)).map Prod.snd <;> rfl

/-- A name is found in the scopes of both states or of none. -/
private theorem find?_same (h : s.view g = s'.view g) (name : Text) :
    (s.find? name).map (Object.view g) = (s'.find? name).map (Object.view g) := by
  rw [← find?_view, ← find?_view, h]

/-- A part of a node, if it is there, keeps the agreement if every step does. -/
private theorem part_same {step step' : ScopeState → Tree → ScopeState}
    (hstep : ∀ s s' t, s.view g = s'.view g → (step s t).view g = (step' s' t).view g)
    (part : Option Tree) (h : s.view g = s'.view g) :
    (match part with
      | some child => step s child
      | none => s).view g =
    (match part with
      | some child => step' s' child
      | none => s').view g := by
  cases part with
  | none => exact h
  | some child => exact hstep s s' child h

private theorem foldl_same {α : Type} {step step' : ScopeState → α → ScopeState} (l : List α)
    (hstep : ∀ s s' a, s.view g = s'.view g → (step s a).view g = (step' s' a).view g)
    (h : s.view g = s'.view g) : (l.foldl step s).view g = (l.foldl step' s').view g :=
  List.foldl_rel (r := fun s s' => view g s = view g s') h
    fun a _ s s' hs => hstep s s' a hs

end ScopeState

namespace ScopeWalk

open ScopeState

/-- Two packages give a walk the same, up to a view of types. -/
structure Agrees (g : TypeRef → TypeRef) (w w' : ScopeWalk) : Prop where
  file : w'.file = w.file
  importPath : w'.package.importPath = w.package.importPath
  version : w'.package.version = w.package.version
  imports : w'.imports = w.imports
  declared : ∀ name,
    (w.package.declaration? name).map (fun d => (d.kind, d.type.map g)) =
      (w'.package.declaration? name).map fun d => (d.kind, d.type.map g)
  resolved : ∀ node, g (w.resolve node) = g (w'.resolve node)
  pointer : ∀ t u, g t = g u → g (.pointer t) = g (.pointer u)

variable {g : TypeRef → TypeRef} {w w' : ScopeWalk} {s s' : ScopeState}

/-! ## Names -/

private theorem declare_same (hw : Agrees g w w') (h : s.view g = s'.view g) {o o' : Object}
    (ho : o.view g = o'.view g) (name : Tree) :
    (w.declare o s name).view g = (w'.declare o' s' name).view g := by
  have recorded := record_same h name.start ho
  obtain ⟨scopes, uses, locals⟩ := view_ext_iff.1 recorded
  unfold declare
  rw [hw.file]
  dsimp only
  split
  · exact h
  · -- Both states are inside of functions or none is.
    revert scopes
    cases outer : (s.record name.start o).scopes with
    | nil =>
      cases outer' : (s'.record name.start o').scopes with
      | nil => exact fun _ => recorded
      | cons scope' rest' => simp
    | cons scope rest =>
      cases outer' : (s'.record name.start o').scopes with
      | nil => simp
      | cons scope' rest' =>
        intro scopes
        simp only [List.map_cons, List.cons.injEq] at scopes
        refine view_ext_iff.2 ⟨?_, uses, ?_⟩
        · simp [scopes.1, scopes.2, ho]
        · exact congrArg (TextSet.add · (w.file.text name)) locals

theorem Agrees.typed (hw : Agrees g w w') (node : Option Tree) :
    (Object.var (node.map w.resolve)).view g = (Object.var (node.map w'.resolve)).view g := by
  cases node with
  | none => rfl
  | some node => simp [Object.view, hw.resolved node]

private theorem declareParameters_same (hw : Agrees g w w') (h : s.view g = s'.view g)
    (list : Tree) : (w.declareParameters s list).view g = (w'.declareParameters s' list).view g :=
  foldl_same _ (fun _ _ _ hs =>
    foldl_same _ (fun _ _ name hs => declare_same hw hs (hw.typed _) name) hs) h

private theorem declaredObject_same (hw : Agrees g w w') {d d' : Declaration}
    (kind : d.kind = d'.kind) (type : d.type.map g = d'.type.map g) (name : Text) :
    (w.declaredObject name d).view g = (w'.declaredObject name d').view g := by
  unfold declaredObject
  rw [kind, hw.importPath]
  split
  · rfl
  · rfl
  · exact congrArg Object.var type
  · rfl

/-- A name stands for the same in both packages. -/
private theorem lookup?_same (hw : Agrees g w w') (h : s.view g = s'.view g) (name : Text) :
    (w.lookup? s name).map (Object.view g) = (w'.lookup? s' name).map (Object.view g) := by
  have inner := find?_same h name
  have declared := hw.declared name
  unfold lookup?
  -- From the inside out: the scopes, the package, the imports and the universe.
  cases found : s.find? name with
  | some o =>
    cases found' : s'.find? name with
    | none => simp [found, found'] at inner
    | some o' => rwa [found, found'] at inner
  | none =>
    cases found' : s'.find? name with
    | some o' => simp [found, found'] at inner
    | none =>
      dsimp only
      rw [hw.imports, hw.version]
      cases known : w.package.declaration? name with
      | some d =>
        cases known' : w'.package.declaration? name with
        | none => simp [known, known'] at declared
        | some d' =>
          simp only [known, known', Option.map_some, Option.some.injEq, Prod.mk.injEq] at declared
          exact congrArg some (declaredObject_same hw declared.1 declared.2 name)
      | none =>
        cases known' : w'.package.declaration? name with
        | none => rfl
        | some d' => simp [known, known'] at declared

private theorem variableType_view (o : Option Object) :
    (match o with
      | some (.var type) => type
      | _ => none).map g =
    match o.map (Object.view g) with
      | some (.var type) => type
      | _ => none := by
  cases o with
  | none => rfl
  | some o => cases o <;> rfl

private theorem inferType?_same (hw : Agrees g w w') (h : s.view g = s'.view g) (fuel : Nat)
    (value : Tree) : (w.inferType? s fuel value).map g = (w'.inferType? s' fuel value).map g := by
  induction fuel generalizing value with
  | zero => rfl
  | succ fuel ih =>
    rw [inferType?, inferType?, hw.file]
    split
    -- A literal spells its type.
    · exact Object.var.inj (hw.typed (value.child? .type))
    · split
      · rename_i operator operand _ _
        split
        -- The address of a value.
        · have inner := ih operand
          revert inner
          cases w.inferType? s fuel operand with
          | none => cases w'.inferType? s' fuel operand <;> simp
          | some t =>
            cases w'.inferType? s' fuel operand with
            | none => simp
            | some u => simpa using hw.pointer t u
        · rfl
      · rfl
    -- A variable has the type it was declared with.
    · refine (variableType_view _).trans ?_
      rw [lookup?_same hw h]
      exact (variableType_view _).symm
    · rfl

private theorem declarePairs_same (hw : Agrees g w w') (h : s.view g = s'.view g)
    (names values : List Tree) :
    (w.declarePairs s names values).view g = (w'.declarePairs s' names values).view g := by
  unfold declarePairs
  dsimp only
  refine foldl_same _ (fun s s' (name, i) hs => declare_same hw hs ?_ name) h
  split
  · cases values[i]? with
    | none => rfl
    | some value => exact congrArg Object.var (inferType?_same hw hs _ value)
  · rfl

/-! ## The walk -/

/-- A walk through a node records the same in both packages. The induction is on the fuel, so that
the walks through the children are covered. -/
theorem walk_same (hw : Agrees g w w') (fuel : Nat) (s s' : ScopeState) (node : Tree)
    (h : s.view g = s'.view g) : (w.walk fuel s node).view g = (w'.walk fuel s' node).view g := by
  induction fuel generalizing s s' node with
  | zero => exact h
  | succ fuel ih =>
    have each (nodes : List Tree) {s s' : ScopeState} (hs : s.view g = s'.view g) :
        (nodes.foldl (w.walk fuel) s).view g = (nodes.foldl (w'.walk fuel) s').view g :=
      foldl_same nodes ih hs
    have part (f : Field) {s s' : ScopeState} (hs : s.view g = s'.view g) :=
      part_same ih (node.child? f) hs
    have parameters (list : Option Tree) {s s' : ScopeState} (hs : s.view g = s'.view g) :
        ((list.map (w.declareParameters s)).getD s).view g =
          ((list.map (w'.declareParameters s')).getD s').view g := by
      cases list with
      | none => exact hs
      | some list => exact declareParameters_same hw hs list
    rw [walk, walk]
    dsimp only
    split
    -- Functions: parameters, then the body.
    case h_1 | h_2 | h_3 =>
      refine inScope_same h fun s s' hs => ?_
      have declared :=
        parameters (node.child? .parameters) (parameters (node.child? .receiver) hs)
      split
      · split
        · split
          · exact each _ (declareParameters_same hw declared _)
          · exact each _ declared
        · exact each _ declared
      · split
        · split
          · exact declareParameters_same hw declared _
          · exact declared
        · exact declared
    -- Blocks and clauses.
    case h_4 | h_5 | h_6 | h_7 | h_8 | h_9 | h_10 | h_11 | h_12 =>
      exact inScope_same h fun s s' hs => each _ hs
    -- Type switches: the bound names have no type.
    case h_13 =>
      refine inScope_same h fun s s' hs => each _ (foldl_same _ (fun s s' name hs => ?_) ?_)
      · exact declare_same hw hs rfl name
      · exact part .value (part .initializer hs)
    -- Definitions and ranges, whose right side comes first.
    case h_14 =>
      have read := part .right h
      split
      · exact declarePairs_same hw read _ _
      · exact read
    case h_15 =>
      have read := part .right h
      split
      · split
        · exact foldl_same _ (fun s s' name hs => declare_same hw hs rfl name) read
        · exact ih _ _ _ read
      · exact read
    -- Selectors and keyed elements.
    case h_16 => exact part .operand h
    case h_17 =>
      split
      · exact h
      · split
        · exact each _ h
        · exact each _ h
    -- Identifiers.
    case h_18 =>
      have found := lookup?_same hw h (w.file.text node)
      rw [hw.file]
      cases object : w.lookup? s (w.file.text node) with
      | none =>
        cases object' : w'.lookup? s' (w.file.text node) with
        | none => exact h
        | some o' => simp [object, object'] at found
      | some o =>
        cases object' : w'.lookup? s' (w.file.text node) with
        | none => simp [object, object'] at found
        | some o' =>
          simp only [object, object', Option.map_some, Option.some.injEq] at found
          exact record_same h node.start found
    case h_19 =>
      rw [hw.imports, hw.file]
      split
      · exact record_same h node.start rfl
      · exact h
    case h_20 | h_21 | h_22 => exact h
    -- Declarations, which bind names only inside functions.
    case h_23 =>
      rw [isEmpty_same h]
      split
      · exact foldl_same _ (fun s s' name hs => declare_same hw hs (hw.typed _) name)
          (part .value h)
      · exact each _ h
    case h_24 =>
      rw [isEmpty_same h]
      split
      · exact foldl_same _ (fun s s' name hs => declare_same hw hs rfl name) (part .value h)
      · exact each _ h
    case h_25 | h_26 =>
      rw [isEmpty_same h, hw.file, hw.importPath]
      split
      · split
        · rename_i name _
          exact declare_same hw h rfl name
        · exact h
      · exact each _ h
    case h_27 => exact each _ h

/-- What the identifiers of the file stand for agrees in both packages. -/
theorem run_same (hw : Agrees g w w') : w.run.view g = w'.run.view g := by
  unfold run
  rw [hw.file]
  exact walk_same hw _ _ _ _ rfl

end ScopeWalk

end Interlace
