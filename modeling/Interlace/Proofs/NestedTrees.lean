import Interlace.Proofs.DraftGrowth

/-!
# Trees with nested ranges

In a nested tree every node lies within its parent, so what advice finds below a node lies within
the node, and the node within every statement around it.

## Key results

- `Tree.isNested`: every node lies within its parent
- `Tree.Within.ownValue`, `Tree.Within.argument`: what advice wraps lies within its node
- `Site.nested_of_mem`: a node lies within everything around it
-/

namespace Interlace.Syntax

mutual

/-- The range of every node lies within that of its parent. -/
def Tree.isNested : Tree → Bool
  | .node _ _ s e cs => s ≤ e && nestedIn s e cs

/-- The trees are nested and lie between two offsets. -/
def nestedIn (lo hi : Nat) : List Tree → Bool
  | [] => true
  | t :: ts => lo ≤ t.start && t.stop ≤ hi && t.isNested && nestedIn lo hi ts

end

/-- A nested tree lies between two offsets. -/
structure Tree.Within (lo hi : Nat) (t : Tree) : Prop where
  low : lo ≤ t.start
  high : t.stop ≤ hi
  nested : t.isNested = true

namespace Tree

private theorem mem_nestedIn {lo hi : Nat} {ts : List Tree} (h : nestedIn lo hi ts = true) :
    ∀ t ∈ ts, Within lo hi t := by
  induction ts with
  | nil => exact nofun
  | cons u ts ih =>
    simp only [nestedIn, Bool.and_eq_true, decide_eq_true_eq] at h
    obtain ⟨⟨⟨low, high⟩, nested⟩, rest⟩ := h
    exact List.forall_mem_cons.2 ⟨⟨low, high, nested⟩, ih rest⟩

variable {lo hi : Nat} {t child : Tree}

private theorem start_le_stop (h : t.isNested = true) : t.start ≤ t.stop := by
  cases t with
  | node k f s e cs =>
    simp only [isNested, Bool.and_eq_true, decide_eq_true_eq] at h
    exact h.1

namespace Within

theorem self (h : t.isNested = true) : Within t.start t.stop t :=
  ⟨Nat.le_refl _, Nat.le_refl _, h⟩

theorem le (h : Within lo hi t) : t.start ≤ t.stop :=
  start_le_stop h.nested

/-- What is within a node is within everything around the node. -/
theorem trans {u : Tree} (outer : Within lo hi t) (inner : Within t.start t.stop u) :
    Within lo hi u :=
  ⟨Nat.le_trans outer.low inner.low, Nat.le_trans inner.high outer.high, inner.nested⟩

theorem children (h : Within lo hi t) (listed : child ∈ t.children) : Within lo hi child := by
  have inner : Within t.start t.stop child := by
    cases t with
    | node k f s e cs =>
      have nested := h.nested
      simp only [isNested, Bool.and_eq_true] at nested
      exact mem_nestedIn nested.2 child listed
  exact h.trans inner

theorem child? (h : Within lo hi t) {part : Field} (found : t.child? part = some child) :
    Within lo hi child :=
  h.children (List.mem_of_find?_eq_some found)

theorem significant (h : Within lo hi t) (listed : child ∈ t.significant) : Within lo hi child :=
  h.children (List.mem_filter.1 listed).1

theorem literalInner (h : Within lo hi t) : Within lo hi t.literalInner := by
  unfold Tree.literalInner
  split
  · cases named : t.namedChildren with
    | nil => exact h
    | cons first rest =>
      have listed : first ∈ t.namedChildren := named ▸ List.mem_cons_self
      exact h.children (List.mem_filter.1 listed).1
  · exact h

/-- An argument of a call lies within the call. -/
theorem argument (h : Within lo hi t) {index : Nat}
    (found : (((t.child? .arguments).map Tree.significant).getD [])[index]? = some child) :
    Within lo hi child := by
  cases list : t.child? .arguments with
  | none => simp [list] at found
  | some arguments =>
    rw [list] at found
    exact (h.child? list).significant (List.mem_of_getElem? found)

private theorem singleValue (h : Within lo hi t) (found : t.singleValue? = some child) :
    Within lo hi child := by
  unfold Tree.singleValue? at found
  dsimp only at found
  split at found
  · rename_i value list
    cases found
    obtain ⟨values, given, single⟩ := Option.map_eq_some_iff.1 list
    exact (h.child? given).significant (single ▸ List.mem_singleton_self _)
  · cases found

/-- The value of a field or of a declaration lies within it. -/
theorem ownValue (h : Within lo hi t) (found : t.ownValue? = some child) : Within lo hi child := by
  unfold Tree.ownValue? at found
  split at found
  · obtain ⟨element, given, rfl⟩ := Option.map_eq_some_iff.1 found
    exact (h.significant (List.mem_of_getElem? given)).literalInner
  · exact h.singleValue found
  · exact h.singleValue found
  · cases found

end Within

end Tree

/-- What the grammar reads is nested, with the comments in it. -/
example : (parse? "package p\n\nvar x = T\x7bk: f(e) /* c */\x7d // d\n").map Tree.isNested =
    some true := by
  decide +kernel

/-! ## Places -/

/-- The place lies within everything around it, and all that between two offsets. -/
def Site.Nested (lo hi : Nat) (site : Site) : Prop :=
  ∀ a ∈ site.node :: site.ancestors, a.Within lo hi ∧ site.node.Within a.start a.stop

mutual

/-- The places of a tree are nested if the tree is nested in what is above it. -/
private theorem Site.nested_preorderAt {lo hi : Nat} : (t : Tree) → (above : List Tree) →
    Site.Nested lo hi ⟨t, above⟩ → ∀ site ∈ Site.preorderAt above t, site.Nested lo hi
  | .node k f s e cs, above, here, site, listed => by
    rw [Site.preorderAt, List.mem_cons] at listed
    rcases listed with rfl | below
    · exact here
    · refine Site.nested_preorderBelow cs _ (fun c hc => ?_) site below
      have inner : c.Within s e := (here _ List.mem_cons_self).2.children hc
      refine List.forall_mem_cons.2 ⟨⟨(here _ List.mem_cons_self).1.trans inner, ?_⟩, ?_⟩
      · exact .self inner.nested
      · exact fun a ha => ⟨(here a ha).1, (here a ha).2.trans inner⟩

private theorem Site.nested_preorderBelow {lo hi : Nat} : (ts : List Tree) → (above : List Tree) →
    (∀ t ∈ ts, Site.Nested lo hi ⟨t, above⟩) →
      ∀ site ∈ Site.preorderBelow above ts, site.Nested lo hi
  | [], above, _, site, listed => by
    rw [Site.preorderBelow] at listed
    cases listed
  | t :: ts, above, here, site, listed => by
    rw [Site.preorderBelow, List.mem_append] at listed
    obtain ⟨first, rest⟩ := List.forall_mem_cons.1 here
    rcases listed with inside | later
    · exact Site.nested_preorderAt t above first site inside
    · exact Site.nested_preorderBelow ts above rest site later

end

/-- The places of a nested tree are nested. -/
theorem Site.nested_of_mem {lo hi : Nat} {t : Tree} (h : t.Within lo hi) {site : Site}
    (listed : site ∈ t.sites) : site.Nested lo hi := by
  refine Site.nested_preorderAt t [] ?_ site listed
  intro a ha
  cases List.mem_singleton.1 ha
  exact ⟨h, .self h.nested⟩

private theorem Site.map_node_chainOf (above : List Tree) :
    (Site.chainOf above).map Site.node = above := by
  induction above with
  | nil => rfl
  | cons t above ih => rw [Site.chainOf, List.map_cons, ih]

/-- The statement around a place is at or above it. -/
theorem Site.mem_of_enclosingStatement? {site : Site} {statement : Tree}
    (found : site.enclosingStatement? = some statement) :
    statement ∈ site.node :: site.ancestors := by
  obtain ⟨place, listed, rfl⟩ := Option.map_eq_some_iff.1 found
  have listed := List.mem_map_of_mem (f := Site.node) (List.mem_of_find?_eq_some listed)
  rwa [Site.chain, List.map_cons, Site.map_node_chainOf] at listed

end Interlace.Syntax
