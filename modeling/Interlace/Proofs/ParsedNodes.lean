import Interlace.Proofs.CommentPlaces
import Interlace.Proofs.WalkedPlaces

/-!
# The nodes of a parsed file

All nodes of a parsed file are spaced, comments included. Those that hold something are no comments,
so without the comments in them they are orderly.

## Key results

- `fits_of_child`: in a parsed file, all that holds something is orderly
- `spaced_of_parse`, `fits_of_parse`: what all nodes of a parsed file are like
-/

namespace Interlace.Syntax

variable {t u : Tree} {source : Text}

/-! ## Places -/

private theorem Site.Holds.children_ne_nil {s d : Site} (h : s.Holds d)
    (holds : d.node.children ≠ []) : s.node.children ≠ [] := by
  cases h with
  | refl => exact holds
  | child listed _ => exact List.ne_nil_of_mem listed

/-- What holds something is no comment, and neither is anything around it. -/
private theorem Site.Holds.isRead {s d : Site} (h : s.Holds d) (read : s.IsRead) {lo : Nat}
    (spaced : SpacedFrom lo s.node.children) (holds : d.node.children ≠ []) : d.IsRead := by
  induction h generalizing lo with
  | refl => exact read
  | @child s d c listed below ih =>
    have inner : c.Spaced := spaced.mem c listed
    refine ih (List.forall_mem_cons.2 ⟨fun comment => ?_, read⟩) inner.laid holds
    exact below.children_ne_nil holds (inner.children_of_comment comment)

theorem kind_of_parse {tree : Tree} (h : parse? source = some tree) : tree.kind = .sourceFile := by
  unfold parse? at h
  split at h
  · cases h
  · cases h
    rfl

/-- In the tree of a parsed file, all that holds something below the root is orderly. -/
theorem fits_of_child {tree : Tree} (h : parse? source = some tree) {s : Site}
    (listed : s ∈ tree.sites) (below : s.node.kind ≠ .sourceFile) (holds : s.node.children ≠ []) :
    s.node.Fits source := by
  have root : Site.IsRead ⟨tree, []⟩ :=
    List.forall_mem_singleton.2 ((kind_of_parse h).trans_ne nofun)
  have held := Site.mem_sites_iff.1 listed
  have read := held.isRead root (parse_comments h).1 holds
  cases held with
  | refl => exact absurd (kind_of_parse h) below
  | @child _ _ c child held =>
    have plain : c.kind ≠ .comment := read.of_holds held c List.mem_cons_self
    exact (Site.Fits.holds ((arranged_of_parse h).fits child plain) held read).1

/-! ## Nodes -/

mutual

theorem Tree.Spaced.all : (t : Tree) → t.Spaced → ∀ u ∈ t.preorder, u.Spaced
  | .node _ _ _ _ cs, h => by
    rw [Tree.preorder]
    exact List.forall_mem_cons.2 ⟨h, SpacedFrom.all cs h.2.2⟩

/-- All that is in spaced trees is spaced. -/
theorem SpacedFrom.all : (ts : List Tree) → {lo : Nat} → SpacedFrom lo ts →
    ∀ u ∈ Tree.preorderAll ts, u.Spaced
  | [], _, _ => nofun
  | t :: ts, _, ⟨_, inner, rest⟩ => by
    rw [Tree.preorderAll]
    exact List.forall_mem_append.2 ⟨Tree.Spaced.all t inner, SpacedFrom.all ts rest⟩

end

mutual

theorem Site.exists_preorderAt : (t : Tree) → (above : List Tree) → ∀ u ∈ t.preorder,
    ∃ s ∈ Site.preorderAt above t, s.node = u
  | .node k f s e cs, above => by
    rw [Tree.preorder, Site.preorderAt]
    refine List.forall_mem_cons.2 ⟨⟨_, List.mem_cons_self, rfl⟩, fun u hu => ?_⟩
    obtain ⟨site, listed, node⟩ := Site.exists_preorderBelow cs _ u hu
    exact ⟨site, List.mem_cons_of_mem _ listed, node⟩

/-- Every node has a place. -/
private theorem Site.exists_preorderBelow : (ts : List Tree) → (above : List Tree) →
    ∀ u ∈ Tree.preorderAll ts, ∃ s ∈ Site.preorderBelow above ts, s.node = u
  | [], _ => nofun
  | t :: ts, above => by
    rw [Tree.preorderAll, Site.preorderBelow]
    refine List.forall_mem_append.2 ⟨fun u hu => ?_, fun u hu => ?_⟩
    · obtain ⟨site, listed, node⟩ := Site.exists_preorderAt t above u hu
      exact ⟨site, List.mem_append_left _ listed, node⟩
    · obtain ⟨site, listed, node⟩ := Site.exists_preorderBelow ts above u hu
      exact ⟨site, List.mem_append_right _ listed, node⟩

end

/-- The nodes of a parsed file below its root are spaced. -/
theorem spaced_of_parse {tree : Tree} (h : parse? source = some tree) (listed : u ∈ tree.preorder)
    (below : u.kind ≠ .sourceFile) : u.Spaced := by
  rw [tree.preorder_eq] at listed
  rcases List.mem_cons.1 listed with rfl | listed
  · exact absurd (kind_of_parse h) below
  · exact SpacedFrom.all _ (parse_comments h).1 u listed

/-- The nodes of a parsed file below its root that hold something are orderly. -/
theorem fits_of_parse {tree : Tree} (h : parse? source = some tree) (listed : u ∈ tree.preorder)
    (below : u.kind ≠ .sourceFile) (holds : u.children ≠ []) : u.Fits source := by
  obtain ⟨site, placed, rfl⟩ := Site.exists_preorderAt tree [] u listed
  exact fits_of_child h placed below holds

end Interlace.Syntax
