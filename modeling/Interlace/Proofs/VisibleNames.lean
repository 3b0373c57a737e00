import Interlace.Proofs.WalkedPlaces

/-!
# Where declared names are visible

The walk declares a name before it comes to the places where the name is in scope, and a scope that
reaches into one part of a node from another is around the node.

## Key results

- `BindingForm.isWalked`: the forms of declarations that the walk knows
- `Site.Binds.declared`: the walk declares the names that are declared in such a form
- `Site.Binds.shares_of_apart`: a name is in scope in another part only through a scope around both
- `Site.Binds.not_covers_earlier`, `Site.Binds.not_covers_before`: no name is in scope at a place
  that the walk came to before
-/

namespace Interlace.Syntax

/-- The form is one that the walk knows. It takes no notice of type parameters, and a receive clause
is to it a node like any other. -/
def BindingForm.isWalked : BindingForm → Bool
  | typeParameter | receive => false
  | _ => true

/-- Names that are declared in the form are in scope in parts of the node alone. -/
def BindingForm.isInner : BindingForm → Bool
  | parameter | typeParameter | guard => true
  | _ => false

variable {t name c c' : Tree}

theorem Kind.isFunction_iff {k : Kind} : k.isFunction = true ↔
    k = .functionDeclaration ∨ k = .methodDeclaration ∨ k = .funcLiteral := by
  cases k <;> simp [isFunction]

theorem Kind.opensScope_of_isFunction {k : Kind} (h : k.isFunction = true) :
    k.opensScope = true := by
  rcases isFunction_iff.1 h with rfl | rfl | rfl <;> rfl

namespace Site

variable {source : Text} {s d u v : Site} {form : BindingForm} {between : List Tree}

/-- A name is declared at a place, in a form that the walk knows. -/
structure Binds (source : Text) (d : Site) (form : BindingForm) (name : Tree) : Prop where
  walked : form.isWalked
  listed : name ∈ d.binds source form

namespace Binds

theorem unfold (h : d.Binds source form name) : form.isOf d.node.kind ∧ d.isInFunction ∧
    name ∈ d.node.namesOf form ∧ name.text source ≠ "_" := by
  have listed := h.listed
  unfold binds at listed
  split at listed
  · rename_i here
    obtain ⟨of, inside⟩ := Bool.and_eq_true_iff.1 here
    obtain ⟨named, real⟩ := List.mem_filter.1 listed
    exact ⟨of, inside, named, by simpa using real⟩
  · cases listed

/-- Names whose scope is around the node are declared by nodes that open none. -/
theorem closed_of_outer (h : d.Binds source form name) (outer : form.isInner = false) :
    d.node.kind.opensScope = false ∧ d.node.kind.isFunction = false := by
  obtain ⟨of, -⟩ := h.unfold
  cases form
  all_goals cases outer
  all_goals simp only [BindingForm.isOf, decide_eq_true_eq, Bool.or_eq_true] at of
  case type => rcases of with kind | kind <;> rw [kind] <;> exact ⟨rfl, rfl⟩
  all_goals
    rw [of]
    exact ⟨rfl, rfl⟩

/-- Where the walk declares names, a scope is open. -/
theorem opens_above (h : d.Binds source form name) : d.line.any (·.kind.opensScope) = true := by
  obtain ⟨-, inside, -⟩ := h.unfold
  have function : d.line.any (·.kind.isFunction) = true := by
    rwa [line, List.any_cons]
  rw [List.any_eq_true] at function ⊢
  exact function.imp fun a => And.imp_right Kind.opensScope_of_isFunction

private theorem opens_around (h : d.Binds source form name) (outer : form.isInner = false) :
    d.ancestors.any (·.kind.opensScope) = true := by
  have around := h.opens_above
  rwa [line, List.any_cons, (h.closed_of_outer outer).1, Bool.false_or] at around

end Binds

end Site

/-! ## Names that the walk declares -/

namespace Tree

private theorem mem_namedChildren_of_identifiers {list : Tree} (h : c ∈ list.identifiers) :
    c ∈ list.namedChildren := by
  obtain ⟨listed, kind⟩ := List.mem_filter.1 h
  refine List.mem_filter.2 ⟨listed, ?_⟩
  rw [isNamed, of_decide_eq_true kind]
  rfl

private theorem mem_listedNames_of_parameterNames {list : Tree} (h : name ∈ list.parameterNames) :
    name ∈ list.listedNames ∧ list.kind = .parameterList := by
  unfold parameterNames at h
  split at h
  · rename_i kind
    refine ⟨?_, kind⟩
    obtain ⟨declaration, listed, named⟩ := List.mem_flatMap.1 h
    refine List.mem_flatMap.2 ⟨declaration, ?_, named⟩
    have named_kind {k : Kind} (found : declaration ∈ list.childrenOf k)
        (isNamed : k.isNamed = true) : declaration ∈ list.namedChildren := by
      obtain ⟨child, kind⟩ := List.mem_filter.1 found
      refine List.mem_filter.2 ⟨child, ?_⟩
      rw [Tree.isNamed, of_decide_eq_true kind, isNamed]
    rcases List.mem_append.1 listed with plain | variadic
    · exact named_kind plain rfl
    · exact named_kind variadic rfl
  · cases h

private theorem mem_parameterLists {list : Tree}
    (h : list ∈ [.receiver, .parameters, .result].filterMap t.child?)
    (kind : list.kind = .parameterList) : list ∈ t.parameterLists := by
  obtain ⟨f, hf, found⟩ := List.mem_filterMap.1 h
  unfold parameterLists
  simp only [List.mem_append, Option.mem_toList, Option.filter_eq_some_iff, decide_eq_true_eq]
  simp only [List.mem_cons, List.not_mem_nil, or_false] at hf
  rcases hf with rfl | rfl | rfl
  · exact .inl (.inl found)
  · exact .inl (.inr found)
  · exact .inr ⟨found, kind⟩

private theorem mem_leftNames (h : name ∈ t.leftNames) :
    name ∈ ((t.child? .left).map namedChildren).getD [] := by
  unfold leftNames at h
  cases found : t.child? .left with
  | none =>
    rw [found] at h
    cases h
  | some left =>
    rw [found] at h
    exact mem_namedChildren_of_identifiers h

private theorem mem_guardNames (h : name ∈ (t.childrenIn .binding).flatMap identifiers) :
    name ∈ t.guardNames := by
  obtain ⟨list, listed, named⟩ := List.mem_flatMap.1 h
  refine List.mem_flatMap.2 ⟨list, listed, ?_⟩
  have child := mem_namedChildren_of_identifiers named
  split
  · rename_i none_there
    rw [List.isEmpty_iff.1 none_there] at child
    cases child
  · exact child

end Tree

/-- The walk declares the names that are declared in a form that it knows. -/
theorem Site.Binds.declared {source : Text} {d : Site} {form : BindingForm}
    (h : d.Binds source form name) : .declare name ∈ d.walkSteps := by
  obtain ⟨of, -, named, -⟩ := h.unfold
  have inside (outer : form.isInner = false) := h.opens_around outer
  have declare {names : List Tree} (listed : name ∈ names) :
      WalkStep.declare name ∈ names.map .declare := List.mem_map_of_mem listed
  unfold walkSteps Tree.walkSteps
  -- Every form of declaration that the walk knows has its own steps.
  cases form
  all_goals simp only [BindingForm.isOf, decide_eq_true_eq, Bool.or_eq_true] at of
  case parameter =>
    have listed : name ∈ d.node.parameterLists.flatMap Tree.listedNames := by
      obtain ⟨list, part, named⟩ := List.mem_flatMap.1 named
      obtain ⟨listed, kind⟩ := Tree.mem_listedNames_of_parameterNames named
      exact List.mem_flatMap.2 ⟨list, Tree.mem_parameterLists part kind, listed⟩
    rcases Kind.isFunction_iff.1 of with kind | kind | kind
    all_goals
      simp only [kind]
      exact List.mem_append_left _ (declare listed)
  case typeParameter | receive => cases h.walked
  case var =>
    simp only [of, inside rfl, if_true]
    exact List.mem_append_right _ (declare named)
  case const =>
    simp only [of, inside rfl, if_true]
    exact List.mem_append_right _ (declare (List.mem_filter.1 named).1)
  case type =>
    rcases of with kind | kind
    all_goals
      simp only [kind, inside rfl, if_true]
      exact declare named
  case definition =>
    simp only [of]
    exact List.mem_append_right _ (declare (Tree.mem_leftNames named))
  case range =>
    simp only [of]
    refine List.mem_append_right _ ?_
    have named : name ∈ if d.node.isDefining then d.node.leftNames else [] := named
    split at named
    · rename_i defining
      rw [if_pos defining]
      exact declare (Tree.mem_leftNames named)
    · cases named
  case guard =>
    simp only [of]
    exact List.mem_append_left _ (List.mem_append_right _ (declare (Tree.mem_guardNames named)))

namespace Site

variable {source : Text} {s d u v : Site} {form : BindingForm} {between : List Tree}

/-! ## Places of a file -/

/-- The place is the root of an arranged tree or in one, and not in a comment. -/
structure Placed (source : Text) (s : Site) : Prop where
  arranged : s.node.Arranged source
  fits : s.ancestors ≠ [] → s.node.Fits source
  above : ∀ a ∈ s.ancestors, a.kind ≠ .comment

theorem Placed.of_visit (h : s.Placed source) (visited : .visit between c ∈ s.walkSteps)
    (read : c.kind ≠ .comment) : (s.below between c).Placed source := by
  obtain ⟨fits, passed⟩ := fits_of_visit h.arranged visited read
  refine ⟨fits.arranged, fun _ => fits, List.forall_mem_append.2 ⟨passed, ?_⟩⟩
  exact List.forall_mem_cons.2 ⟨(kind_of_visit visited).1, h.above⟩

/-- What the walk comes to is not in a comment. -/
theorem Placed.read (h : s.Placed source) (leads : s.LeadsTo d) (plain : d.node.kind ≠ .comment) :
    d.IsRead :=
  leads.read h.arranged h.above plain

/-- What the walk comes to below a part lies within the part. -/
theorem Placed.within (h : s.Placed source) (visited : .visit between c ∈ s.walkSteps)
    (leads : (s.below between c).LeadsTo d) (plain : d.node.kind ≠ .comment) :
    c.kind ≠ .comment ∧ d.node.Fits source ∧ c.start ≤ d.node.start ∧ d.node.stop ≤ c.stop := by
  have read := h.read (.step visited leads) plain
  have read_part : c.kind ≠ .comment := read.of_holds leads.holds c List.mem_cons_self
  have fits := (h.of_visit visited read_part).fits (by simp [below])
  exact ⟨read_part, Fits.holds fits leads.holds read⟩

/-! ## Where names are in scope -/

namespace Binds

theorem kind_ne (h : d.Binds source form name) : d.node.kind ≠ .comment ∧
    d.node.kind ≠ .identifier ∧ d.node.kind ≠ .packageIdentifier := by
  obtain ⟨of, -⟩ := h.unfold
  refine ⟨fun kind => ?_, fun kind => ?_, fun kind => ?_⟩
  all_goals
    rw [kind] at of
    cases form <;> cases of

/-- A scope that is in a part of the node holds the node. -/
private theorem line_of_inner (h : d.Binds source form name) (inner : form.isInner = true)
    (covers : d.Covers form name v) : d.line <:+ v.ancestors := by
  cases form
  case parameter =>
    obtain ⟨body, -, inside⟩ := covers
    exact (List.suffix_cons _ _).trans inside
  case guard =>
    obtain ⟨clause, -, inside⟩ := covers
    exact (List.suffix_cons _ _).trans inside
  case typeParameter => cases h.walked
  all_goals cases inner

private theorem shares_of_outer (h : d.Binds source form name) (outer : form.isInner = false)
    (covers : d.Covers form name v) : d.Shares v := by
  cases form
  case receive => cases h.walked
  case var | const | type | definition | range => exact covers.1
  all_goals cases outer

/-- A name is in scope in another part of a node only if its scope is around the node. -/
theorem shares_of_apart (h : d.Binds source form name) (leads : (s.below between c).LeadsTo d)
    (leads' : (s.below between c').LeadsTo v) (other : c ≠ c') (covers : d.Covers form name v) :
    form.isInner = false ∧ d.scope ≠ [] ∧ d.scope <:+ (s.below between c).ancestors := by
  have apart := not_below_other other leads'.holds
  cases outer : form.isInner with
  | true =>
    have inside := h.line_of_inner outer covers
    exact absurd (leads.holds.line_suffix.trans inside) apart
  | false =>
    obtain ⟨some_there, reaches⟩ := h.shares_of_outer outer covers
    exact ⟨rfl, some_there, scope_outside leads.holds reaches apart⟩

/-- A name with a scope around the node is in scope from the node on. -/
private theorem start_le (h : d.Binds source form name) (outer : form.isInner = false)
    (fits : d.node.Fits source) (covers : d.Covers form name v) :
    d.node.start ≤ v.node.start ∧ (form ≠ .type → d.node.stop ≤ v.node.start) := by
  have le := fits.le
  cases form
  case receive => cases h.walked
  case var | const | definition | range =>
    exact ⟨Nat.le_trans le covers.2, fun _ => covers.2⟩
  case type =>
    obtain ⟨-, -, named, -⟩ := h.unfold
    obtain ⟨child, part⟩ := Tree.mem_children_of_child? (Option.mem_toList.1 named)
    have read := fits.arranged.read_of_field child (by simp [part])
    exact ⟨Nat.le_trans (fits.inside child read).1 covers.2, fun other => absurd rfl other⟩
  all_goals cases outer

/-- No name is in scope at a place that the walk came to in an earlier part. -/
theorem not_covers_earlier (h : d.Binds source form name) (placed : s.Placed source)
    (visited : .visit between c ∈ s.walkSteps) (visited' : .visit between c' ∈ s.walkSteps)
    (order : WalkStep.Precedes s.node (.visit between c) (.visit between c'))
    (leads : (s.below between c).LeadsTo v) (leads' : (s.below between c').LeadsTo d)
    (other : c ≠ c') (plain : v.node.kind ≠ .comment) (wide : v.node.start < v.node.stop) :
    ¬ d.Covers form name v := by
  intro covers
  obtain ⟨read, -, -, high⟩ := placed.within visited leads plain
  obtain ⟨read', fits, low, -⟩ := placed.within visited' leads' h.kind_ne.1
  obtain ⟨outer, some_there, outside⟩ := h.shares_of_apart leads' leads (Ne.symm other) covers
  have start := (h.start_le outer fits covers).1
  obtain ⟨same, here⟩ := scope_eq_of_outside leads'.holds some_there outside
  rcases order.2 read read' with behind | operand | opens
  · omega
  · -- There is no scope around what stands in an operand.
    exact some_there (same.trans (scopeAbove_of_isOperand operand _))
  · rcases here with rfl | closed
    · exact absurd (h.closed_of_outer outer).1 (by simpa [below] using opens)
    · exact absurd closed (by simpa [below] using opens)

/-- No name of a node is in scope at a place that the walk came to before it was declared. -/
theorem not_covers_before (h : s.Binds source form name) (placed : s.Placed source)
    (visited : .visit between c ∈ s.walkSteps)
    (order : WalkStep.Precedes s.node (.visit between c) (.declare name))
    (leads : (s.below between c).LeadsTo v) (plain : v.node.kind ≠ .comment)
    (wide : v.node.start < v.node.stop) : ¬ s.Covers form name v := by
  intro covers
  obtain ⟨free, type, alias_, clause⟩ := order
  obtain ⟨of, -⟩ := h.unfold
  cases form
  all_goals simp only [BindingForm.isOf, decide_eq_true_eq, Bool.or_eq_true] at of
  case parameter =>
    rw [free] at of
    cases of
  case typeParameter | receive => cases h.walked
  case type => exact of.elim type alias_
  -- The guard is in scope in the clauses, which are other parts than the one between.
  case guard =>
    obtain ⟨inner, listed, inside⟩ := covers
    have part : inner.field = none := by
      have kind := (List.mem_filter.1 listed).2
      exact of_decide_eq_true (Bool.and_eq_true_iff.1 kind).1
    have other : inner ≠ c := fun same => clause of (same ▸ part)
    rcases Tree.visit_cases visited with ⟨rfl, -⟩ | ⟨function, -⟩
    · exact not_below_other other leads.holds inside
    · rw [free] at function
      cases function
  all_goals
    have around := h.opens_around rfl
    have fits := placed.fits fun none_there => by rw [none_there] at around; cases around
    -- In the other forms the scope starts behind the declaration, which the walk has not reached.
    have behind := (h.start_le rfl fits covers).2 (by simp)
    have read := placed.read (.step visited leads) plain
    have inside := (Fits.holds fits (LeadsTo.step visited leads).holds read).2.2
    omega

end Binds

end Site

end Interlace.Syntax
