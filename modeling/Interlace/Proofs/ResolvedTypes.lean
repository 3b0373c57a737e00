import Interlace.Proofs.CheckedPackage

/-!
# The packages of resolved types

A type expression of a checked file comes to a type whose package is the checked one or one that
some file of the package imports, because aliases lead only to types that were resolved the same
way. The same holds for the types of variables, and for the packages and functions that
identifiers stand for.

## Key results

- `PackageTypes.resolveWith_within`: resolving a type expression stays within a set of packages
- `Check.Stages.types_within`: the packages of everything that a checked package knows
- `Check.Stages.object_within`: the packages of what its identifiers stand for
-/

namespace Interlace

open Syntax

/-- The package of the type is in a set of packages, if it has one. -/
def TypeRef.Within (R : Text → Prop) : TypeRef → Prop
  | .named path _ => R path
  | .pointer target => target.Within R
  | .builtin _ | .other _ => True

/-- The type of a part of a node, if it is there, made into another type. -/
private theorem TypeRef.within_of_part {R : Text → Prop} {resolve : Tree → TypeRef}
    (h : ∀ t, (resolve t).Within R) (spelling : Text) (part : Option Tree)
    (wrap : TypeRef → TypeRef) (hw : ∀ t : TypeRef, t.Within R → (wrap t).Within R) :
    (match part with
      | some t => wrap (resolve t)
      | none => .other spelling).Within R := by
  cases part with
  | none => trivial
  | some t => exact hw _ (h t)

/-- The packages of all imports and of all types of declarations are in a set of packages, and so
is the package itself. -/
structure PackageTypes.Within (R : Text → Prop) (p : PackageTypes) : Prop where
  own : R p.importPath
  imported : ∀ f ∈ p.files, ∀ i ∈ f.imports, R i.path
  aliased : ∀ name d, p.declaration? name = some d → ∀ t ∈ d.aliasOf, t.Within R
  typed : ∀ name d, p.declaration? name = some d → ∀ t ∈ d.type, t.Within R

namespace PackageTypes

variable {R : Text → Prop} {p : PackageTypes}

/-! ## Following aliases -/

private theorem aliasTarget?_within (h : p.Within R) {t target : TypeRef}
    (found : p.aliasTarget? t = some target) : target.Within R := by
  cases t with
  | builtin _ | pointer _ | other _ => cases found
  | named path name =>
    rw [aliasTarget?] at found
    split at found
    · obtain ⟨d, declared, target'⟩ := Option.bind_eq_some_iff.1 found
      exact h.aliased name d declared target target'
    · cases found

private theorem chase_within (h : p.Within R) (steps : Nat) {t : TypeRef} (ht : t.Within R) :
    (p.chase steps t).1.Within R := by
  induction steps generalizing t with
  | zero => exact ht
  | succ steps ih =>
    rw [chase]
    split
    · rename_i target found
      exact ih (aliasTarget?_within h found)
    · exact ht

private theorem follow_within (h : p.Within R) (depth : Nat) {t : TypeRef} (ht : t.Within R) :
    (p.follow depth t).Within R := by
  induction depth generalizing t with
  | zero => exact ht
  | succ depth ih =>
    have chased := chase_within h 8 ht
    rw [follow]
    split
    · rename_i target eq
      rw [eq] at chased
      exact ih (t := target) chased
    · rename_i reached _ _ eq
      rw [eq] at chased
      exact chased

private theorem followAliases_within (h : p.Within R) {t : TypeRef} (ht : t.Within R) :
    (p.followAliases t).Within R :=
  follow_within h _ ht

/-! ## Resolving type expressions -/

private theorem imported_of_importNamed? (h : p.Within R) {index : Nat} {name : Text}
    {i : ImportedPackage} (found : (p.file? index).bind (·.importNamed? name) = some i) :
    R i.path := by
  obtain ⟨f, hf, found⟩ := Option.bind_eq_some_iff.1 found
  exact h.imported f (List.mem_of_getElem? hf) i (List.mem_of_find?_eq_some found)

theorem resolveWith_within (h : p.Within R) (index : Nat) (source : Text) (fuel : Nat)
    (closed : Bool) (node : Tree) : (p.resolveWith index source fuel closed node).Within R := by
  induction fuel generalizing closed node with
  | zero => trivial
  | succ fuel ih =>
    rw [resolveWith]
    dsimp only
    -- Closing under aliases is the last step at every node, so it is dealt with first.
    have atTop : ∀ {t : TypeRef}, t.Within R →
        (if closed then p.followAliases t else t).Within R := by
      intro t ht
      split
      · exact followAliases_within h ht
      · exact ht
    have inner := TypeRef.within_of_part (ih true) (node.text source)
    refine atTop ?_
    split
    -- Pointers, parentheses and generic types lead to a part.
    · exact inner _ _ fun _ ht => ht
    · exact inner _ _ fun _ ht => ht
    · exact inner _ _ fun _ ht => ht
    -- A qualified type belongs to an import of the file.
    · split
      · rename_i i name found _
        obtain ⟨qualifier, -, found⟩ := Option.bind_eq_some_iff.1 found
        exact imported_of_importNamed? h found
      · trivial
    -- A plain name belongs to the package or has no path.
    · split
      · exact h.own
      · split <;> trivial
    · trivial

theorem resolveType_within (h : p.Within R) (index : Nat) (source : Text) (node : Tree) :
    (p.resolveType index source node).Within R :=
  resolveWith_within h index source _ true node

private theorem resolveSpelled_within (h : p.Within R) (index : Nat) (source : Text) (node : Tree) :
    (p.resolveSpelled index source node).Within R :=
  resolveWith_within h index source _ false node

end PackageTypes

/-! ## Filling in the types of declarations -/

namespace Check

variable {R : Text → Prop}

/-- A change of a declaration gives it only types within a set of packages. -/
def KeepsWithin (R : Text → Prop) (change : Declaration → Declaration) : Prop :=
  ∀ d : Declaration, (∀ t ∈ d.aliasOf, t.Within R) → (∀ t ∈ d.type, t.Within R) →
    (∀ t ∈ (change d).aliasOf, t.Within R) ∧ ∀ t ∈ (change d).type, t.Within R

private theorem typeUpdates_within {p : PackageTypes} (h : p.Within R) (index : Nat)
    (file : SourceFile) : ∀ u ∈ typeUpdates p index file, KeepsWithin R u.2 := by
  intro u hu
  have resolved := PackageTypes.resolveSpelled_within h index file.source
  -- Aliases get what they stand for, variables get their type.
  rcases List.mem_append.1 hu with hu | hu
  · obtain ⟨spec, -, eq⟩ := List.mem_filterMap.1 hu
    obtain ⟨name, -, eq⟩ := Option.bind_eq_some_iff.1 eq
    obtain ⟨target, -, eq⟩ := Option.bind_eq_some_iff.1 eq
    cases eq
    intro d _ typed
    refine ⟨fun t ht => ?_, typed⟩
    cases ht
    exact resolved target
  · obtain ⟨spec, -, hu⟩ := List.mem_flatMap.1 hu
    split at hu
    · cases hu
    · rename_i node _
      obtain ⟨name, -, rfl⟩ := List.mem_map.1 hu
      intro d aliased _
      refine ⟨aliased, fun t ht => ?_⟩
      cases ht
      exact resolved node

private theorem insert_within {p : PackageTypes} (h : p.Within R) (name : Text) {d : Declaration}
    (aliased : ∀ t ∈ d.aliasOf, t.Within R) (typed : ∀ t ∈ d.type, t.Within R) :
    ({ p with declarations := p.declarations.insert name d } : PackageTypes).Within R := by
  -- A declaration is the new one or was there before.
  have known : ∀ other e, (p.declarations.insert name d).get? other = some e →
      e = d ∨ p.declaration? other = some e := by
    intro other e found
    rw [Dict.get?_insert] at found
    split at found
    · exact .inl (Option.some.inj found).symm
    · exact .inr found
  refine ⟨h.own, h.imported, fun other e found => ?_, fun other e found => ?_⟩
  · rcases known other e found with rfl | found
    · exact aliased
    · exact h.aliased other e found
  · rcases known other e found with rfl | found
    · exact typed
    · exact h.typed other e found

private theorem resolveDeclared_within {p : PackageTypes} (h : p.Within R)
    (entry : SourceFile × Nat) : (resolveDeclared p entry).Within R := by
  obtain ⟨file, index⟩ := entry
  -- The updates were read off `p`, so the fold carries the property of `p` along with its own.
  refine foldl_keeps (K := PackageTypes.Within R) (fun q update hu hq => ?_) h
  split
  · rename_i d declared
    have kept := typeUpdates_within h index file update hu d (hq.aliased _ d declared)
      (hq.typed _ d declared)
    exact insert_within hq update.1 kept.1 kept.2
  · exact hq

/-- Everything that a checked package knows is within a set of packages that has the package
itself and every import that was let through. -/
private theorem Stages.typed_within {P : Text → Prop} {importPath : Text} {files : List SourceFile}
    {bare p : PackageTypes} (h : Stages P importPath files bare p) (own : R importPath)
    (imported : ∀ path, P path → R path) : (typed files bare).Within R := by
  have start : bare.Within R := by
    refine ⟨h.path ▸ own, fun f hf i hi => ?_, fun name d found => ?_, fun name d found => ?_⟩
    · obtain ⟨file, -, spelled⟩ := Importing.exists_of_forall₂ h.imports hf
      exact imported _ (spelled i hi).2
    · simp [(h.plain name d found).2]
    · simp [(h.plain name d found).1]
  exact foldl_keeps (K := PackageTypes.Within R)
    (fun _ entry _ hp => resolveDeclared_within hp entry) start

/-- The uses of identifiers add no imports and no declarations. -/
private theorem resolveUses_within {p : PackageTypes} (h : p.Within R) (files : List SourceFile) :
    (resolveUses p files).Within R := by
  refine ⟨h.own, fun f hf i hi => ?_, h.aliased, h.typed⟩
  obtain ⟨⟨file, index⟩, -, rfl⟩ := List.mem_map.1 hf
  dsimp only at hi
  cases known : p.file? index with
  | none => simp [known] at hi
  | some g =>
    simp only [known, Option.map_some, Option.getD_some] at hi
    exact h.imported g (List.mem_of_getElem? known) i hi

section

variable {P : Text → Prop} {importPath : Text} {files : List SourceFile}
  {bare p : PackageTypes}

/-- Everything that a checked package knows is within the same set. -/
theorem Stages.types_within (h : Stages P importPath files bare p) (own : R importPath)
    (imported : ∀ path, P path → R path) : p.Within R := by
  rw [h.result]
  exact resolveUses_within (h.typed_within own imported) files

/-- The packages of an object are in a set of packages. -/
def ObjectWithin (R : Text → Prop) : Object → Prop
  | .package path | .func path _ => R path
  | .var type => ∀ t ∈ type, t.Within R
  | _ => True

/-- What an identifier of a checked package stands for is within the same set. -/
theorem Stages.object_within (h : Stages P importPath files bare p) (own : R importPath)
    (imported : ∀ path, P path → R path) {index : Nat} {file : SourceFile}
    (hf : files[index]? = some file) {node : Tree} {object : Object}
    (found : (p.file? index).bind (·.objectAt? node) = some object) :
    ObjectWithin R object := by
  have within := h.typed_within own imported
  -- One source of objects after the other; only those with a path or a type take an argument.
  refine h.object_of_admits hf ⟨fun i hi => imported _ (h.imports_of_walk hf i hi).2,
    fun name d declared => ?_, fun _ => trivial, trivial, ?_, fun _ => trivial,
    fun node t ht => ?_, fun type ht t h => ?_⟩ found
  · unfold ScopeWalk.declaredObject
    cases d.kind with
    | func => exact within.own
    | type | const => trivial
    | var => exact within.typed name d declared
  · intro t ht
    cases ht
  · cases ht
    exact PackageTypes.resolveType_within within _ _ node
  · cases h
    exact ht type rfl

end

end Check

end Interlace
