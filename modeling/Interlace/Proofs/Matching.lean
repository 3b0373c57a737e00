import Interlace.Proofs.ResolvedTypes
import Interlace.Weave.Matching

/-!
# What a match needs

A join point holds at a node of a checked file only if the file has what it looks for: nodes with
the texts of its names, and types and objects of the packages that it names.

## Key results

- `Scene.isCall_needs`: a call of a function names it and its package, or is one of the package
- `Scene.Within`: the types and the objects of a file are within a set of packages
- `Scene.isFunction_within`, `Scene.isCall_within`, `Scene.isLiteralField_within`,
  `Scene.isValueDeclaration_within`: a match names only packages of such a set
-/

namespace Interlace

open Syntax

namespace Scene

variable {s : Scene} {node : Tree} {site : Site} {path name : Text}

/-! ## Names -/

/-- A function with a demanded name has a node with that text. -/
theorem isFunction_needs {m : FunctionMatcher} (h : s.isFunction m node)
    (named : m.name = some name) : ∃ n, s.text n = name := by
  simp only [isFunction, named, Option.all_some, Bool.and_eq_true, decide_eq_true_eq] at h
  obtain ⟨⟨⟨⟨-, declared⟩, -⟩, -⟩, -⟩ := h
  obtain ⟨n, -, text⟩ := Option.map_eq_some_iff.1 declared
  exact ⟨n, text⟩

/-- A call of a function has a node with the text of the name; the function's package is the one
that some node stands for, or the function is what some node stands for. -/
theorem isCall_needs (h : s.isCall path name node) :
    (∃ n, s.text n = name) ∧
      ((∃ n, s.objectAt? n = some (.package path)) ∨
        ∃ n declared, s.objectAt? n = some (.func path declared)) := by
  simp only [isCall, Bool.and_eq_true] at h
  obtain ⟨-, h⟩ := h
  split at h
  · cases h
  · rename_i function _
    split at h
    -- Called through a package, or by its own name.
    · rename_i operand field _ _ _
      simp only [Bool.and_eq_true, decide_eq_true_eq] at h
      exact ⟨⟨field, h.1⟩, .inl ⟨operand, h.2⟩⟩
    · simp only [Bool.and_eq_true, decide_eq_true_eq] at h
      obtain ⟨text, h⟩ := h
      split at h
      · rename_i declared called object
        have eq : declared = path := by simpa using h
        exact ⟨⟨function, text⟩, .inr ⟨function, called, eq ▸ object⟩⟩
      · cases h
    · cases h

/-- An element that gives a field a value has a node with the text of the field. -/
theorem isLiteralField_needs {type : TypeMatch} (h : s.isLiteralField type name site) :
    ∃ n, s.text n = name := by
  simp only [isLiteralField, Bool.and_eq_true] at h
  obtain ⟨⟨-, keyed⟩, -⟩ := h
  obtain ⟨key, -, text⟩ := (Option.any_eq_true _ _).1 keyed
  exact ⟨key.literalInner, by simpa using text⟩

/-- A declaration of a name belongs to the package and has a node with the text of the name. -/
theorem isDeclarationOf_needs (h : s.isDeclarationOf path name site) :
    s.package.importPath = path ∧ ∃ n, s.text n = name := by
  simp only [isDeclarationOf, Bool.and_eq_true, decide_eq_true_eq] at h
  obtain ⟨same, h⟩ := h
  refine ⟨same, ?_⟩
  split at h
  -- A function has one name, and every other declaration has a list of names.
  · simp only [Bool.and_eq_true] at h
    obtain ⟨n, -, text⟩ := (Option.any_eq_true _ _).1 h.2
    exact ⟨n, by simpa using text⟩
  case h_6 => cases h
  all_goals
    simp only [Bool.and_eq_true] at h
    obtain ⟨n, -, text⟩ := List.any_eq_true.1 h.2
    exact ⟨n, by simpa using text⟩

end Scene

/-! ## Packages within reach -/

namespace TypeMatch

variable {R : Text → Prop} {m : TypeMatch} {t : TypeRef}

private theorem isNamed_within (h : m.isNamed t) (ht : t.Within R) : m.path = [] ∨ R m.path := by
  cases t with
  | named path name =>
    simp only [isNamed, Bool.and_eq_true, decide_eq_true_eq] at h
    exact .inr (h.1 ▸ ht)
  | builtin name =>
    simp only [isNamed, Bool.and_eq_true, decide_eq_true_eq] at h
    exact .inl h.1
  | pointer _ | other _ => cases h

/-- A type that is accepted belongs to the universe or to a package within reach. -/
private theorem accepts_within (h : m.accepts t) (ht : t.Within R) : m.path = [] ∨ R m.path := by
  unfold accepts at h
  split at h
  · cases t with
    | pointer target => exact isNamed_within h ht
    | named _ _ | builtin _ | other _ => cases h
  · exact isNamed_within h ht

end TypeMatch

/-- The types that a scene resolves and the objects that its identifiers stand for are within a
set of packages. -/
structure Scene.Within (R : Text → Prop) (s : Scene) : Prop where
  resolved : ∀ node, (s.resolve node).Within R
  objects : ∀ node object, s.objectAt? node = some object → Check.ObjectWithin R object

namespace Scene

variable {R : Text → Prop} {s : Scene}

private theorem parameterTypes_within (h : s.Within R) (list : Tree) :
    ∀ t ∈ s.parameterTypes list, t.Within R := by
  intro t ht
  obtain ⟨declaration, -, ht⟩ := List.mem_flatMap.1 ht
  split at ht
  · cases ht
  · rename_i node _
    have eq := List.eq_of_mem_replicate ht
    subst eq
    split
    · trivial
    · exact h.resolved node

private theorem resultTypes_within (h : s.Within R) (function : Tree) :
    ∀ t ∈ s.resultTypes function, t.Within R := by
  unfold resultTypes
  split
  · rename_i result _
    split
    · exact parameterTypes_within h result
    · intro t ht
      cases List.mem_singleton.1 ht
      exact h.resolved result
  · intro t ht
    cases ht

private theorem accepts_within (expected : List TypeMatch) {actual : List TypeRef}
    (h : accepts expected actual) (ht : ∀ t ∈ actual, t.Within R) :
    ∀ m ∈ expected, m.path = [] ∨ R m.path := by
  simp only [accepts, Bool.and_eq_true, decide_eq_true_eq, List.all_eq_true] at h
  intro m hm
  -- As many types as are expected, so each is compared with the one at its place.
  obtain ⟨n, hn, rfl⟩ := List.getElem_of_mem hm
  have hn' : n < actual.length := h.1 ▸ hn
  have pair : (expected[n], actual[n]) ∈ expected.zip actual :=
    List.mem_iff_getElem.2 ⟨n, List.length_zip ▸ Nat.lt_min.2 ⟨hn, hn'⟩, List.getElem_zip⟩
  exact TypeMatch.accepts_within (h.2 _ pair) (ht _ (List.getElem_mem hn'))

/-- A function that meets the demands has only types within reach. -/
theorem isFunction_within (h : s.Within R) {m : FunctionMatcher} {node : Tree}
    (holds : s.isFunction m node) : ∀ type ∈ m.types, type.path = [] ∨ R type.path := by
  simp only [isFunction, Bool.and_eq_true] at holds
  obtain ⟨⟨⟨-, receiver⟩, parameter⟩, signature⟩ := holds
  have parameters : ∀ t ∈ ((node.child? .parameters).map s.parameterTypes).getD [],
      t.Within R := by
    cases node.child? .parameters with
    | none => intro t ht; cases ht
    | some list => exact parameterTypes_within h list
  intro type ht
  simp only [FunctionMatcher.types, List.mem_append, List.mem_flatMap, Option.mem_toList] at ht
  -- The type is asked of the receiver, of some parameter, or of a place in the signature.
  rcases ht with (wanted | wanted) | ⟨sig, wanted, ht⟩
  · rw [wanted] at receiver
    obtain ⟨t, found, accepted⟩ := (Option.any_eq_true _ _).1 receiver
    obtain ⟨types, ofList, first⟩ := Option.bind_eq_some_iff.1 found
    obtain ⟨list, -, rfl⟩ := Option.map_eq_some_iff.1 ofList
    exact TypeMatch.accepts_within accepted
      (parameterTypes_within h list t (List.mem_of_head? first))
  · rw [wanted] at parameter
    obtain ⟨t, ht, accepted⟩ := List.any_eq_true.1 parameter
    exact TypeMatch.accepts_within accepted (parameters t ht)
  · rw [wanted] at signature
    simp only [Option.all_some, Bool.and_eq_true] at signature
    rcases ht with ht | ht
    · exact accepts_within _ signature.1 parameters type ht
    · exact accepts_within _ signature.2 (resultTypes_within h node) type ht

/-- A called function belongs to a package within reach. -/
theorem isCall_within (h : s.Within R) {path name : Text} {node : Tree}
    (holds : s.isCall path name node) : R path := by
  obtain ⟨-, ⟨n, object⟩ | ⟨n, declared, object⟩⟩ := isCall_needs holds
  · exact h.objects n _ object
  · exact h.objects n _ object

theorem isLiteralField_within (h : s.Within R) {type : TypeMatch} {field : Text} {site : Site}
    (holds : s.isLiteralField type field site) : type.path = [] ∨ R type.path := by
  simp only [isLiteralField, Bool.and_eq_true] at holds
  obtain ⟨-, holds⟩ := holds
  split at holds
  · simp only [Bool.and_eq_true] at holds
    obtain ⟨node, -, typed⟩ := (Option.any_eq_true _ _).1 holds.2
    simp only [Bool.and_eq_true] at typed
    exact TypeMatch.accepts_within (m := type.value) typed.2 (h.resolved node)
  · cases holds

private theorem spelledType?_within (h : s.Within R) (fuel : Nat) (expression : Tree) :
    ∀ t ∈ s.spelledType? fuel expression, t.Within R := by
  -- The induction is on the fuel, which each operand takes some of.
  induction fuel generalizing expression with
  | zero =>
    intro t ht
    cases ht
  | succ fuel ih =>
    intro t ht
    rw [spelledType?] at ht
    split at ht
    · obtain ⟨node, -, rfl⟩ := Option.map_eq_some_iff.1 ht
      exact h.resolved node
    · split at ht
      · rename_i operator operand _ _
        split at ht
        · obtain ⟨target, inner, rfl⟩ := Option.map_eq_some_iff.1 ht
          exact ih operand target inner
        · cases ht
      · cases ht
    · split at ht
      · rename_i type object
        exact h.objects expression _ object t ht
      · cases ht
    · cases ht

private theorem hasValueOf_within (h : s.Within R) {type : TypeMatch} {declaration : Tree}
    (holds : s.hasValueOf type declaration) : type.path = [] ∨ R type.path := by
  obtain ⟨t, inferred, accepted⟩ := (Option.any_eq_true _ _).1 holds
  obtain ⟨value, -, spelled⟩ := Option.bind_eq_some_iff.1 inferred
  exact TypeMatch.accepts_within accepted (spelledType?_within h _ value t spelled)

theorem isValueDeclaration_within (h : s.Within R) {type : TypeMatch} {node : Tree}
    (holds : s.isValueDeclaration type node) : type.path = [] ∨ R type.path := by
  unfold isValueDeclaration at holds
  split at holds
  · split at holds
    · exact TypeMatch.accepts_within holds (h.resolved _)
    · exact hasValueOf_within h holds
  · exact hasValueOf_within h holds
  · cases holds

end Scene

end Interlace
