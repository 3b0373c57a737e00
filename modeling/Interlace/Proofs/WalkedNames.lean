import Interlace.Proofs.TypeResolution
import Interlace.Proofs.VisibleNames

/-!
# What the walk finds out about names

A walk through a node adds names to the innermost scope at most, and the names that are declared in
the node are in that scope from then on, if it is theirs too. A name that the walk takes for a
package is therefore in the scope of no declaration of the same name.

## Key results

- `ScopeState.Grows`: names were added to the innermost scope at most
- `ScopeWalk.Progress`: what holds after some of what the walk does at a place
- `ScopeWalk.Visited`: what holds after the walk through a node
- `ScopeWalk.visited_walk`: it does hold then
-/

namespace Interlace

open Syntax

private theorem TextSet.contains_add {s : TextSet} {t u : Text} :
    (s.add t).contains u = true ↔ u = t ∨ s.contains u = true := by
  unfold add Dict.contains
  rw [Dict.get?_insert]
  by_cases same : t = u
  · simp [same]
  · simp [same, Ne.symm same]

/-! ## States of the walk -/

namespace ScopeState

variable {s s' s'' : ScopeState} {name : Text}

/-- Names were added to the innermost scope at most. -/
def Grows (s s' : ScopeState) : Prop :=
  ∃ more, s'.scopes = s.scopes.modifyHead (more ++ ·)

/-- The innermost scope declares the name. -/
def Innermost (s : ScopeState) (name : Text) : Prop :=
  ∃ scope ∈ s.scopes.head?, name ∈ scope.map Prod.fst

/-- No name of a scope stands for a package. -/
def Clean (s : ScopeState) : Prop :=
  ∀ scope ∈ s.scopes, ∀ e ∈ scope, e.2.isPackage = false

private theorem Grows.of_scopes_eq (h : s'.scopes = s.scopes) : s.Grows s' :=
  ⟨[], by rw [h]; cases s.scopes <;> rfl⟩

theorem Grows.trans (h : s.Grows s') (h' : s'.Grows s'') : s.Grows s'' := by
  obtain ⟨more, eq⟩ := h
  obtain ⟨more', eq'⟩ := h'
  refine ⟨more' ++ more, ?_⟩
  rw [eq', eq]
  cases s.scopes with
  | nil => rfl
  | cons scope outer => simp

theorem Grows.scopes_eq_nil_iff (h : s.Grows s') : s'.scopes = [] ↔ s.scopes = [] := by
  obtain ⟨more, eq⟩ := h
  rw [eq]
  cases s.scopes <;> simp

theorem Grows.innermost (h : s.Grows s') (declared : s.Innermost name) : s'.Innermost name := by
  obtain ⟨more, eq⟩ := h
  obtain ⟨scope, first, listed⟩ := declared
  obtain ⟨outer, whole⟩ := List.head?_eq_some_iff.1 first
  refine ⟨more ++ scope, ?_, ?_⟩
  · rw [eq, whole]
    rfl
  · rw [List.map_append]
    exact List.mem_append_right _ listed

theorem find?_eq_none_iff :
    s.find? name = none ↔ ∀ scope ∈ s.scopes, name ∉ scope.map Prod.fst := by
  unfold find?
  rw [List.findSome?_eq_none_iff]
  refine forall_congr' fun scope => imp_congr_right fun _ => ?_
  rw [Option.map_eq_none_iff, List.find?_eq_none]
  simp only [decide_eq_true_eq, List.mem_map, not_exists, not_and]

private theorem find?_ne_none_of_innermost (h : s.Innermost name) : s.find? name ≠ none := by
  obtain ⟨scope, first, listed⟩ := h
  exact fun none_there =>
    find?_eq_none_iff.1 none_there scope (List.mem_of_head? first) listed

theorem Grows.find?_eq_none (h : s.Grows s') (none_there : s'.find? name = none) :
    s.find? name = none := by
  obtain ⟨more, eq⟩ := h
  rw [find?_eq_none_iff] at none_there ⊢
  rw [eq] at none_there
  cases whole : s.scopes with
  | nil => simp
  | cons scope outer =>
    rw [whole] at none_there
    simp only [List.modifyHead_cons, List.forall_mem_cons, List.map_append, List.mem_append,
      not_or] at none_there ⊢
    exact ⟨none_there.1.2, none_there.2⟩

theorem Clean.find? (h : s.Clean) {path : Text} : s.find? name ≠ some (.package path) := by
  intro found
  obtain ⟨scope, listed, e⟩ := List.exists_of_findSome?_eq_some found
  obtain ⟨entry, here, eq⟩ := Option.map_eq_some_iff.1 e
  have other := h scope listed entry (List.mem_of_find?_eq_some here)
  rw [eq] at other
  cases other

end ScopeState

namespace ScopeWalk

open ScopeState

variable {w : ScopeWalk} {σ τ τ' : ScopeState} {object : Object} {name node : Tree} {path : Text}

/-! ## Steps -/

/-- What declaring a name does: nothing if it is blank, and otherwise the innermost scope, if there
is one, has the name. -/
private theorem declare_cases (w : ScopeWalk) (σ : ScopeState) (object : Object) (name : Tree) :
    w.file.text name = "_" ∧ w.declare object σ name = σ ∨
    w.file.text name ≠ "_" ∧ σ.scopes = [] ∧ w.declare object σ name = σ.record name.start object ∨
    w.file.text name ≠ "_" ∧ ∃ scope outer, σ.scopes = scope :: outer ∧
      w.declare object σ name =
        ⟨((w.file.text name, object) :: scope) :: outer, (name.start, object) :: σ.uses,
          σ.locals.add (w.file.text name)⟩ := by
  unfold declare
  dsimp only
  split
  · rename_i blank
    exact .inl ⟨blank, rfl⟩
  · rename_i real
    refine .inr ?_
    split
    · rename_i bare
      exact .inl ⟨real, bare, rfl⟩
    · rename_i scope outer open_
      exact .inr ⟨real, scope, outer, open_, rfl⟩

private theorem declare_grows : σ.Grows (w.declare object σ name) := by
  obtain ⟨-, eq⟩ | ⟨-, -, eq⟩ | ⟨-, scope, outer, open_, eq⟩ := declare_cases w σ object name
  · exact .of_scopes_eq (by rw [eq])
  · exact .of_scopes_eq (by rw [eq]; rfl)
  · exact ⟨[(w.file.text name, object)], by rw [eq, open_]; rfl⟩

private theorem declare_clean (clean : σ.Clean) (other : object.isPackage = false) :
    (w.declare object σ name).Clean := by
  obtain ⟨-, eq⟩ | ⟨-, -, eq⟩ | ⟨-, scope, outer, open_, eq⟩ := declare_cases w σ object name
  · rwa [eq]
  · rwa [eq]
  · unfold Clean at clean ⊢
    rw [open_] at clean
    obtain ⟨here, above⟩ := List.forall_mem_cons.1 clean
    rw [eq]
    exact List.forall_mem_cons.2 ⟨List.forall_mem_cons.2 ⟨other, here⟩, above⟩

private theorem declare_locals {text : Text} (known : σ.locals.contains text = true) :
    (w.declare object σ name).locals.contains text = true := by
  obtain ⟨-, eq⟩ | ⟨-, -, eq⟩ | ⟨-, scope, outer, open_, eq⟩ := declare_cases w σ object name
  · rwa [eq]
  · rwa [eq]
  · rw [eq]
    exact TextSet.contains_add.2 (.inr known)

/-- A name that is declared in a scope is there from then on. -/
private theorem declare_declares (given : σ.scopes ≠ []) (real : w.file.text name ≠ "_") :
    (w.declare object σ name).locals.contains (w.file.text name) = true ∧
      (w.declare object σ name).Innermost (w.file.text name) := by
  obtain ⟨blank, -⟩ | ⟨-, bare, -⟩ | ⟨-, scope, outer, open_, eq⟩ := declare_cases w σ object name
  · exact absurd blank real
  · exact absurd bare given
  · rw [eq]
    exact ⟨TextSet.contains_add.2 (.inl rfl), _, rfl, List.mem_cons_self⟩

/-- Nothing that is declared is a package. -/
private theorem declare_uses {o : Nat} (other : object.isPackage = false)
    (used : (o, .package path) ∈ (w.declare object σ name).uses) :
    (o, .package path) ∈ σ.uses := by
  have recorded (used : (o, .package path) ∈ (name.start, object) :: σ.uses) :
      (o, .package path) ∈ σ.uses := by
    rcases List.mem_cons.1 used with same | before
    · cases same
      cases other
    · exact before
  obtain ⟨-, eq⟩ | ⟨-, -, eq⟩ | ⟨-, scope, outer, open_, eq⟩ := declare_cases w σ object name
  · rwa [eq] at used
  · rw [eq] at used
    exact recorded used
  · rw [eq] at used
    exact recorded used

/-- A name is taken for a package only if no scope declares it. -/
private theorem look_uses {o : Nat} (clean : σ.Clean)
    (used : (o, .package path) ∈ (w.look σ node).uses) :
    (o, .package path) ∈ σ.uses ∨ node.start = o ∧ σ.find? (w.file.text node) = none := by
  unfold look at used
  split at used
  · rename_i object found
    rcases List.mem_cons.1 used with same | before
    · cases same
      refine .inr ⟨rfl, ?_⟩
      -- Scopes hold no packages, so a package was found among the imports.
      unfold lookup? at found
      split at found
      · rename_i inner eq
        cases found
        exact absurd eq clean.find?
      · assumption
    · exact .inl before
  · exact .inl used

private theorem qualify_uses {o : Nat} (used : (o, .package path) ∈ (w.qualify σ node).uses) :
    (o, .package path) ∈ σ.uses ∨ node.start = o := by
  unfold qualify at used
  split at used
  · rcases List.mem_cons.1 used with same | before
    · cases same
      exact .inr rfl
    · exact .inl before
  · exact .inl used

/-- Looking a name up changes nothing but what is recorded. -/
private theorem look_frame (w : ScopeWalk) (σ : ScopeState) (node : Tree) :
    (w.look σ node).scopes = σ.scopes ∧ (w.look σ node).locals = σ.locals := by
  unfold look
  split <;> exact ⟨rfl, rfl⟩

private theorem qualify_frame (w : ScopeWalk) (σ : ScopeState) (node : Tree) :
    (w.qualify σ node).scopes = σ.scopes ∧ (w.qualify σ node).locals = σ.locals := by
  unfold qualify
  split <;> exact ⟨rfl, rfl⟩

/-! ## Places that are taken for packages -/

/-- The walk looked for the name at a place, and it is none of the names that are declared in one of
the given ways. -/
def Exposes (w : ScopeWalk) (σ : ScopeState) (declared : Site → BindingForm → Tree → Prop)
    (v : Site) : Prop :=
  v.node.kind = .packageIdentifier ∨
    v.node.kind = .identifier ∧ σ.find? (w.file.text v.node) = none ∧
      ∀ d form name, declared d form name → d.Binds w.file.source form name →
        d.Covers form name v → w.file.text name ≠ w.file.text v.node

theorem Exposes.plain {declared : Site → BindingForm → Tree → Prop} {v : Site}
    (h : w.Exposes σ declared v) : v.node.kind ≠ .comment ∧ v.node.kind.isPiece = false := by
  rcases h with kind | ⟨kind, -⟩
  all_goals
    rw [kind]
    exact ⟨by simp, rfl⟩

/-- What else is declared matters only where it is in scope. -/
theorem Exposes.mono {declared declared' : Site → BindingForm → Tree → Prop} {v : Site}
    (h : w.Exposes σ declared v)
    (more : v.node.kind = .identifier → ∀ d form name, declared' d form name →
      d.Binds w.file.source form name → declared d form name ∨ ¬ d.Covers form name v) :
    w.Exposes σ declared' v := by
  refine h.imp_right fun ⟨kind, none_there, others⟩ => ⟨kind, none_there, ?_⟩
  intro d form name listed binds covers
  exact others d form name ((more kind d form name listed binds).resolve_right (absurd covers))
    binds covers

variable {s : Site} {done : List WalkStep}

/-- After a part of what the walk does at a place, the name has been declared. -/
def Declared (s : Site) (done : List WalkStep) (d : Site) (_ : BindingForm) (name : Tree) : Prop :=
  d = s ∧ .declare name ∈ done ∨
    ∃ between c, .visit between c ∈ done ∧ (s.below between c).LeadsTo d

/-- What holds after the walk through a node. -/
structure Visited (w : ScopeWalk) (s : Site) (σ σ' : ScopeState) : Prop where
  grows : σ.Grows σ'
  clean : σ'.Clean
  locals : ∀ text, σ.locals.contains text = true → σ'.locals.contains text = true
  names : ∀ d form name, s.LeadsTo d → d.Binds w.file.source form name →
    σ'.locals.contains (w.file.text name) = true ∧
      (form.isInner = false → d.scope ≠ [] → d.scope <:+ s.ancestors →
        σ'.Innermost (w.file.text name))
  uses : ∀ o path, (o, .package path) ∈ σ'.uses → (o, .package path) ∈ σ.uses ∨
    ∃ v, s.LeadsTo v ∧ v.node.start = o ∧ w.Exposes σ (fun d _ _ => s.LeadsTo d) v

/-- What holds after some of what the walk does at a place. -/
structure Progress (w : ScopeWalk) (s : Site) (σ : ScopeState) (done : List WalkStep)
    (τ : ScopeState) : Prop where
  grows : σ.Grows τ
  clean : τ.Clean
  locals : ∀ text, σ.locals.contains text = true → τ.locals.contains text = true
  own : σ.scopes ≠ [] → ∀ name, .declare name ∈ done → w.file.text name ≠ "_" →
    τ.locals.contains (w.file.text name) = true ∧ τ.Innermost (w.file.text name)
  parts : ∀ between c, .visit between c ∈ done → ∀ d form name, (s.below between c).LeadsTo d →
    d.Binds w.file.source form name → τ.locals.contains (w.file.text name) = true ∧
      (form.isInner = false → d.scope ≠ [] → d.scope <:+ (s.below between c).ancestors →
        τ.Innermost (w.file.text name))
  uses : ∀ o path, (o, .package path) ∈ τ.uses → (o, .package path) ∈ σ.uses ∨
    ∃ v, (v = s ∨ ∃ between c, .visit between c ∈ done ∧ (s.below between c).LeadsTo v) ∧
      v.node.start = o ∧ w.Exposes σ (Declared s done) v

namespace Progress

theorem nil (clean : σ.Clean) : w.Progress s σ [] σ where
  grows := .of_scopes_eq rfl
  clean := clean
  locals _ known := known
  own _ _ h := by cases h
  parts _ _ h := by cases h
  uses _ _ h := .inl h

/-- Declaring a name is progress. -/
theorem declare (h : w.Progress s σ done τ) (placed : s.Placed w.file.source)
    (visited : ∀ x ∈ done, x ∈ s.walkSteps)
    (order : ∀ x ∈ done, x.Precedes s.node (.declare name)) (other : object.isPackage = false) :
    w.Progress s σ (done ++ [.declare name]) (w.declare object τ name) where
  grows := h.grows.trans declare_grows
  clean := declare_clean h.clean other
  locals text known := declare_locals (h.locals text known)
  own given n listed real := by
    rcases List.mem_append.1 listed with before | last
    · obtain ⟨known, innermost⟩ := h.own given n before real
      exact ⟨declare_locals known, declare_grows.innermost innermost⟩
    · cases List.mem_singleton.1 last
      exact declare_declares (mt h.grows.scopes_eq_nil_iff.1 given) real
  parts between c listed d form n leads binds := by
    rcases List.mem_append.1 listed with before | last
    · obtain ⟨known, innermost⟩ := h.parts between c before d form n leads binds
      exact ⟨declare_locals known, fun outer some_there outside =>
        declare_grows.innermost (innermost outer some_there outside)⟩
    · cases List.mem_singleton.1 last
  uses o path used := by
    refine (h.uses o path (declare_uses other used)).imp_right ?_
    rintro ⟨v, comes, start, exposes⟩
    refine ⟨v, comes.imp_right ?_, start, exposes.mono ?_⟩
    · exact fun ⟨between, c, before, leads⟩ =>
        ⟨between, c, List.mem_append_left _ before, leads⟩
    · rintro kind d form n (⟨rfl, listed⟩ | ⟨between, c, listed, leads⟩) binds
      · rcases List.mem_append.1 listed with before | last
        · exact .inl (.inl ⟨rfl, before⟩)
        · cases List.mem_singleton.1 last
          refine .inr ?_
          -- A use at the place itself cannot be one; a use below comes before the declaration.
          rcases comes with rfl | ⟨between, c, before, leads⟩
          · exact absurd kind binds.kind_ne.2.1
          · have plain := exposes.plain
            have fits := (placed.within (visited _ before) leads plain.1).2.1
            exact binds.not_covers_before placed (visited _ before) (order _ before) leads plain.1
              (fits.wide plain.2)
      · refine .inl (.inr ⟨between, c, ?_, leads⟩)
        rcases List.mem_append.1 listed with before | last
        · exact before
        · cases List.mem_singleton.1 last

/-- A name that is in scope in a part has been found by the time the walk goes there. -/
theorem found (h : w.Progress s σ done τ) {between : List Tree} {c : Tree} {d v : Site}
    {form : BindingForm} (open_ : σ.scopes = [] ↔ s.line.any (·.kind.opensScope) = false)
    (order : ∀ x ∈ done, x.Precedes s.node (.visit between c))
    (declared : Declared s done d form name) (binds : d.Binds w.file.source form name)
    (leads : (s.below between c).LeadsTo v) (covers : d.Covers form name v) :
    (s.below between c).LeadsTo d ∨ τ.find? (w.file.text name) ≠ none := by
  rcases declared with ⟨rfl, listed⟩ | ⟨between', c', listed, leads'⟩
  · have given : σ.scopes ≠ [] := by
      rw [Ne, open_, binds.opens_above]
      simp
    exact .inr (find?_ne_none_of_innermost (h.own given name listed binds.unfold.2.2.2).2)
  · obtain ⟨rfl, -⟩ := order _ listed
    by_cases same : c' = c
    · exact .inl (same ▸ leads')
    · obtain ⟨outer, some_there, outside⟩ := binds.shares_of_apart leads' leads same covers
      refine .inr (find?_ne_none_of_innermost ?_)
      exact (h.parts between' c' listed d form name leads' binds).2 outer some_there outside

/-- Going through a part is progress, if what is said of a walk holds of the walk through it. -/
theorem visit (h : w.Progress s σ done τ) (placed : s.Placed w.file.source)
    (open_ : σ.scopes = [] ↔ s.line.any (·.kind.opensScope) = false) {between : List Tree}
    {c : Tree} (visited : ∀ x ∈ done ++ [.visit between c], x ∈ s.walkSteps)
    (order : ∀ x ∈ done, x.Precedes s.node (.visit between c))
    (part : w.Visited (s.below between c) τ τ') :
    w.Progress s σ (done ++ [.visit between c]) τ' where
  grows := h.grows.trans part.grows
  clean := part.clean
  locals text known := part.locals text (h.locals text known)
  own given name listed real := by
    rcases List.mem_append.1 listed with before | last
    · obtain ⟨known, innermost⟩ := h.own given name before real
      exact ⟨part.locals _ known, part.grows.innermost innermost⟩
    · cases List.mem_singleton.1 last
  parts between' c' listed d form name leads binds := by
    rcases List.mem_append.1 listed with before | last
    · obtain ⟨known, innermost⟩ := h.parts between' c' before d form name leads binds
      exact ⟨part.locals _ known, fun outer some_there outside =>
        part.grows.innermost (innermost outer some_there outside)⟩
    · cases List.mem_singleton.1 last
      exact part.names d form name leads binds
  uses o path used := by
    have last : .visit between c ∈ done ++ [.visit between c] :=
      List.mem_append_right _ (List.mem_singleton_self _)
    have here := visited _ last
    rcases part.uses o path used with before | ⟨v, leads, start, exposes⟩
    · refine (h.uses o path before).imp_right ?_
      rintro ⟨v, comes, start, exposes⟩
      refine ⟨v, comes.imp_right ?_, start, exposes.mono ?_⟩
      · exact fun ⟨between, c, before, leads⟩ =>
          ⟨between, c, List.mem_append_left _ before, leads⟩
      · -- What is declared in this part is not in scope in the parts before it.
        rintro kind d form name (⟨rfl, listed⟩ | ⟨between', c', listed, leads⟩) binds
        · refine .inl (.inl ⟨rfl, (List.mem_append.1 listed).resolve_right ?_⟩)
          exact fun last => by cases List.mem_singleton.1 last
        · rcases List.mem_append.1 listed with before | last'
          · exact .inl (.inr ⟨between', c', before, leads⟩)
          · cases List.mem_singleton.1 last'
            rcases comes with rfl | ⟨between', c', before, leads'⟩
            · exact absurd kind (Site.kind_of_visit here).2.1
            · obtain ⟨rfl, -⟩ := order _ before
              by_cases same : c' = c
              · exact .inl (.inr ⟨between', c', before, same ▸ leads⟩)
              · have there := visited _ (List.mem_append_left _ before)
                have plain := exposes.plain
                have fits := (placed.within there leads' plain.1).2.1
                exact .inr (binds.not_covers_earlier placed there here (order _ before) leads'
                  leads same plain.1 (fits.wide plain.2))
    · refine .inr ⟨v, .inr ⟨between, c, last, leads⟩, start, ?_⟩
      refine exposes.imp_right fun ⟨kind, none_there, others⟩ =>
        ⟨kind, h.grows.find?_eq_none none_there, fun d form name declared binds covers => ?_⟩
      -- A declaration outside of this part was passed before it, so its name is known.
      have found : (s.below between c).LeadsTo d ∨ τ.find? (w.file.text name) ≠ none := by
        rcases declared with ⟨rfl, listed⟩ | ⟨between', c', listed, leads'⟩
        · refine h.found open_ order (.inl ⟨rfl, ?_⟩) binds leads covers
          refine (List.mem_append.1 listed).resolve_right fun last => ?_
          cases List.mem_singleton.1 last
        · rcases List.mem_append.1 listed with before | last
          · exact h.found open_ order (.inr ⟨between', c', before, leads'⟩) binds leads covers
          · cases List.mem_singleton.1 last
            exact .inl leads'
      rcases found with inside | known
      · exact others d form name inside binds covers
      · exact fun same => known (same ▸ none_there)

end Progress

/-! ## Nodes without parts -/

/-- At a comment or a name there is nothing to go through and nothing to declare. -/
private theorem visited_of_leaf (kind : s.node.kind = .comment ∨ s.node.kind = .identifier ∨
      s.node.kind = .packageIdentifier) (clean : σ.Clean)
    (frame : τ.scopes = σ.scopes ∧ τ.locals = σ.locals)
    (uses : ∀ o path, (o, .package path) ∈ τ.uses → (o, .package path) ∈ σ.uses ∨
      s.node.start = o ∧ (s.node.kind = .packageIdentifier ∨
        s.node.kind = .identifier ∧ σ.find? (w.file.text s.node) = none)) :
    w.Visited s σ τ := by
  -- No declaration is below it, as it has no parts that are visited.
  have alone {d : Site} {form : BindingForm} {name : Tree} (leads : s.LeadsTo d)
      (binds : d.Binds w.file.source form name) : False := by
    have plain : s.node.kind ≠ .comment ∧ s.node.kind ≠ .identifier ∧
        s.node.kind ≠ .packageIdentifier := by
      cases leads with
      | refl => exact binds.kind_ne
      | step visited _ => exact Site.kind_of_visit visited
    rcases kind with kind | kind | kind
    · exact plain.1 kind
    · exact plain.2.1 kind
    · exact plain.2.2 kind
  refine ⟨.of_scopes_eq frame.1, ?_, fun text known => ?_, fun d form name leads binds => ?_,
    fun o path used => (uses o path used).imp_right ?_⟩
  · unfold Clean at clean ⊢
    rwa [frame.1]
  · rwa [frame.2]
  · exact (alone leads binds).elim
  · rintro ⟨start, looked⟩
    refine ⟨s, .refl s, start, looked.imp_right fun ⟨kind, none_there⟩ => ⟨kind, none_there, ?_⟩⟩
    exact fun d form name leads binds => (alone leads binds).elim

/-! ## The walk -/

/-- What the walk does at a place, one thing after the other, is progress. -/
private theorem progress_of_performs {fuel : Nat} {rest : List WalkStep}
    (placed : s.Placed w.file.source)
    (open_ : σ.scopes = [] ↔ s.line.any (·.kind.opensScope) = false)
    (named : s.node.kind ≠ .identifier ∧ s.node.kind ≠ .packageIdentifier)
    (part : ∀ between c, .visit between c ∈ s.walkSteps → ∀ τ : ScopeState, τ.Clean →
      (τ.scopes = [] ↔ σ.scopes = []) → w.Visited (s.below between c) τ (w.walk fuel τ c))
    (performs : w.Performs fuel s.node rest τ τ') (whole : s.walkSteps = done ++ rest)
    (h : w.Progress s σ done τ) : w.Progress s σ s.walkSteps τ' := by
  have order := placed.arranged.precedes (s.ancestors.any (·.kind.opensScope))
  change s.walkSteps.Pairwise _ at order
  -- The induction is on the steps that are left, and each is progress behind those done.
  induction performs generalizing done with
  | nil =>
    rw [List.append_nil] at whole
    exact whole ▸ h
  | @visit between c rest τ τ' _ ih =>
    have all : s.walkSteps = done ++ [.visit between c] ++ rest := by simpa using whole
    have visited : ∀ x ∈ done ++ [.visit between c], x ∈ s.walkSteps :=
      fun x hx => all ▸ List.mem_append_left rest hx
    rw [all] at order
    -- What was done precedes this step, so it cannot be undone by it.
    have before := (List.pairwise_append.1 (List.pairwise_append.1 order).1).2.2
    refine ih all (h.visit placed open_ visited
      (fun x hx => before x hx _ (List.mem_singleton_self _)) ?_)
    exact part between c (visited _ (by simp)) τ h.clean h.grows.scopes_eq_nil_iff
  | @declare name object rest τ τ' other _ ih =>
    have all : s.walkSteps = done ++ [.declare name] ++ rest := by simpa using whole
    have visited : ∀ x ∈ done, x ∈ s.walkSteps := fun x hx => by
      rw [all]
      simp [hx]
    rw [all] at order
    have before := (List.pairwise_append.1 (List.pairwise_append.1 order).1).2.2
    exact ih all (h.declare placed visited
      (fun x hx => before x hx _ (List.mem_singleton_self _)) other)
  | look _ ih =>
    -- Only identifiers look names up, and the place is none.
    have listed : .look ∈ s.walkSteps := by simp [whole]
    exact absurd (Tree.kind_of_look.1 listed) named.1
  | qualify _ ih =>
    have listed : .qualify ∈ s.walkSteps := by simp [whole]
    exact absurd (Tree.kind_of_look.2 listed) named.2

/-- The state with a scope of its own for a node that opens one. -/
def opened (σ : ScopeState) (node : Tree) : ScopeState :=
  if node.kind.opensScope then { σ with scopes := [] :: σ.scopes } else σ

private theorem opened_of_closed (closed : node.kind.opensScope = false) : opened σ node = σ := by
  simp [opened, closed]

private theorem opened_clean (clean : σ.Clean) (node : Tree) : (opened σ node).Clean := by
  unfold opened
  split
  · exact List.forall_mem_cons.2 ⟨by simp, clean⟩
  · exact clean

private theorem opened_frame (σ : ScopeState) (node : Tree) :
    (opened σ node).uses = σ.uses ∧ (opened σ node).locals = σ.locals ∧
      ∀ text, (opened σ node).find? text = none → σ.find? text = none := by
  unfold opened
  split
  · exact ⟨rfl, rfl, fun text none_there => none_there⟩
  · exact ⟨rfl, rfl, fun text none_there => none_there⟩

theorem opened_scopes_eq_nil_iff
    (open_ : σ.scopes = [] ↔ s.ancestors.any (·.kind.opensScope) = false) :
    (opened σ s.node).scopes = [] ↔ s.line.any (·.kind.opensScope) = false := by
  unfold opened
  rw [Site.line, List.any_cons]
  cases s.node.kind.opensScope with
  | true => simp
  | false => simpa using open_

/-- After all that the walk does at a node, the scope that the node opened is closed again. -/
theorem Progress.visited (h : w.Progress s (opened σ s.node) s.walkSteps τ) (clean : σ.Clean)
    (open_ : σ.scopes = [] ↔ s.ancestors.any (·.kind.opensScope) = false) :
    w.Visited s σ (if s.node.kind.opensScope then { τ with scopes := σ.scopes } else τ) := by
  obtain ⟨uses, locals, find⟩ := opened_frame σ s.node
  have there := opened_scopes_eq_nil_iff open_
  -- Only the scopes depend on whether the node opened one.
  have same_locals : (if s.node.kind.opensScope then { τ with scopes := σ.scopes } else τ).locals =
      τ.locals := by split <;> rfl
  have same_uses : (if s.node.kind.opensScope then { τ with scopes := σ.scopes } else τ).uses =
      τ.uses := by split <;> rfl
  refine ⟨?_, ?_, fun text known => ?_, fun d form name leads binds => ?_, fun o path used => ?_⟩
  · split
    · exact .of_scopes_eq rfl
    · rename_i closed
      have grows := h.grows
      rwa [opened_of_closed (by simpa using closed)] at grows
  · split
    · exact clean
    · exact h.clean
  · rw [same_locals]
    exact h.locals text (locals ▸ known)
  · -- The names of the node itself, and those of its parts.
    have declared : τ.locals.contains (w.file.text name) = true ∧
        (form.isInner = false → d.scope ≠ [] → d.scope <:+ s.ancestors →
          τ.Innermost (w.file.text name)) := by
      cases leads with
      | refl =>
        have given : (opened σ s.node).scopes ≠ [] := by
          rw [Ne, there, binds.opens_above]
          simp
        obtain ⟨known, innermost⟩ := h.own given name binds.declared binds.unfold.2.2.2
        exact ⟨known, fun _ _ _ => innermost⟩
      | @step _ _ between c listed leads =>
        obtain ⟨known, innermost⟩ := h.parts between c listed d form name leads binds
        refine ⟨known, fun outer some_there outside => innermost outer some_there ?_⟩
        exact outside.trans ((List.suffix_cons _ _).trans (List.suffix_append _ _))
    refine ⟨by rw [same_locals]; exact declared.1, fun outer some_there outside => ?_⟩
    have closed : s.node.kind.opensScope = false := by
      rcases (Site.scope_eq_of_outside leads.holds some_there outside).2 with rfl | closed
      · exact (binds.closed_of_outer outer).1
      · exact closed
    rw [closed]
    exact declared.2 outer some_there outside
  · rw [same_uses] at used
    rcases h.uses o path used with before | ⟨v, comes, start, exposes⟩
    · exact .inl (uses ▸ before)
    · refine .inr ⟨v, ?_, start, ?_⟩
      · rcases comes with rfl | ⟨between, c, listed, leads⟩
        · exact .refl _
        · exact .step listed leads
      · refine exposes.imp_right fun ⟨kind, none_there, others⟩ => ⟨kind, find _ none_there, ?_⟩
        intro d form name leads binds
        refine others d form name ?_ binds
        cases leads with
        | refl => exact .inl ⟨rfl, binds.declared⟩
        | step listed leads => exact .inr ⟨_, _, listed, leads⟩

/-- What is said of a walk holds of every walk that can go to the bottom. -/
theorem visited_walk (fuel : Nat) (s : Site) (σ : ScopeState)
    (enough : s.node.preorder.length ≤ fuel)
    (placed : s.node.kind = .comment ∨ s.Placed w.file.source) (clean : σ.Clean)
    (open_ : σ.scopes = [] ↔ s.ancestors.any (·.kind.opensScope) = false) :
    w.Visited s σ (w.walk fuel σ s.node) := by
  induction fuel generalizing s σ with
  | zero => exact absurd s.node.length_preorder_pos (by omega)
  | succ fuel ih =>
    -- Comments and names have no parts; all other nodes take their steps.
    by_cases comment : s.node.kind = .comment
    · have same : w.walk (fuel + 1) σ s.node = σ := by simp only [walk, comment]
      rw [same]
      exact visited_of_leaf (.inl comment) clean ⟨rfl, rfl⟩ fun _ _ => .inl
    by_cases name : s.node.kind = .identifier
    · have same : w.walk (fuel + 1) σ s.node = w.look σ s.node := by
        simp only [walk, name]
        rfl
      rw [same]
      exact visited_of_leaf (.inr (.inl name)) clean (look_frame w σ s.node) fun o path used =>
        (look_uses clean used).imp_right fun found => ⟨found.1, .inr ⟨name, found.2⟩⟩
    by_cases package : s.node.kind = .packageIdentifier
    · have same : w.walk (fuel + 1) σ s.node = w.qualify σ s.node := by
        simp only [walk, package]
        rfl
      rw [same]
      exact visited_of_leaf (.inr (.inr package)) clean (qualify_frame w σ s.node)
        fun o path used => (qualify_uses used).imp_right fun start => ⟨start, .inl package⟩
    have placed := placed.resolve_left comment
    obtain ⟨τ, walked, performs⟩ := w.walk_performs fuel σ s.node
    have flag : (! σ.scopes.isEmpty) = s.ancestors.any (·.kind.opensScope) := by
      rw [Bool.eq_iff_iff]
      simpa using not_congr open_
    rw [walked]
    rw [flag] at performs
    have there := opened_scopes_eq_nil_iff open_
    refine Progress.visited ?_ clean open_
    refine progress_of_performs placed there ⟨name, package⟩ ?_ performs rfl
      (.nil (opened_clean clean s.node))
    -- A part is smaller, so there is fuel for it, and it lies in the scopes that are open.
    intro between c listed τ clean same
    refine ih (s.below between c) τ ?_ ?_ clean (same.trans (there.trans ?_))
    · show c.preorder.length ≤ fuel
      rcases Tree.visit_cases listed with ⟨-, child⟩ | ⟨-, body, found, -, child⟩
      · have := Tree.length_preorder_lt child
        omega
      · have := Tree.length_preorder_lt child
        have := Tree.length_preorder_lt (Tree.mem_children_of_child? found).1
        omega
    · by_cases comment : c.kind = .comment
      · exact .inl comment
      · exact .inr (placed.of_visit listed comment)
    · show _ ↔ (between ++ s.line).any (·.kind.opensScope) = false
      rcases Tree.visit_cases listed with ⟨rfl, -⟩ | ⟨function, body, -, rfl, -⟩
      · exact Iff.rfl
      · simp [Site.line, Kind.opensScope_of_isFunction function]

end ScopeWalk

end Interlace
