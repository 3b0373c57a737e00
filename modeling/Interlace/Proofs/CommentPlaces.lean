import Interlace.Proofs.FileLayout
import Interlace.SourceFile
import Mathlib.Data.List.Induction

/-!
# Where comments are put

The comments of a file are put into its tree one after the other, in source order. Each of them
comes behind those that are there already, and no node starts in it, so that in the whole tree all
siblings lie one behind the other, comments or not. Comments have no parts.

## Key results

- `Tree.Spaced`: siblings lie one behind the other, comments included
- `Tree.Spaced.place`: one more comment is the last comment of the tree
- `parse_awaits`: the tree of a parsed file holds what was read of it, with its comments put in
- `parse_comments`: the comments of a parsed file are those that were passed, in source order
-/

namespace Interlace.Syntax

variable {page : Page} {lo hi start stop : Nat} {t : Tree} {ts : List Tree}

/-! ## Spaced trees -/

mutual

/-- The parts of the node, comments included, lie one behind the other. Comments have none. -/
def Tree.Spaced : Tree → Prop
  | .node k _ s e cs => (k = .comment → cs = []) ∧ s ≤ e ∧ SpacedFrom s cs

/-- Trees, comments included, lie one behind the other from an offset on. -/
def SpacedFrom (lo : Nat) : List Tree → Prop
  | [] => True
  | t :: ts => lo ≤ t.start ∧ t.Spaced ∧ SpacedFrom t.stop ts

end

theorem Tree.Spaced.laid (h : t.Spaced) : SpacedFrom t.start t.children := by
  cases t
  exact h.2.2

theorem Tree.Spaced.children_of_comment (h : t.Spaced) (comment : t.kind = .comment) :
    t.children = [] := by
  cases t
  exact h.1 comment

theorem SpacedFrom.mem (h : SpacedFrom lo ts) : ∀ t ∈ ts, t.Spaced := by
  induction ts generalizing lo with
  | nil => exact nofun
  | cons t ts ih => exact List.forall_mem_cons.2 ⟨h.2.1, ih h.2.2⟩

mutual

theorem Tree.Orderly.spaced : (t : Tree) → t.Orderly page → t.Spaced
  | .node _ _ _ _ cs, ⟨⟨takes, _⟩, laid⟩ =>
    ⟨fun comment => absurd comment takes.read, laid.le_of_laid, Laid.spaced cs laid⟩

/-- What was read is spaced. -/
theorem Laid.spaced : (ts : List Tree) → {strict : Bool} → {lo hi : Nat} →
    Laid page strict lo ts hi → SpacedFrom lo ts
  | [], _, _, _, _ => trivial
  | t :: ts, _, _, _, ⟨low, _, inner, rest⟩ =>
    ⟨low, Tree.Orderly.spaced t inner, Laid.spaced ts rest⟩

end

mutual

private theorem Tree.Orderly.clear_all : (t : Tree) → t.Orderly page →
    ∀ u ∈ t.preorder, page.Clear u.start
  | .node _ _ _ _ cs, ⟨⟨_, clear⟩, laid⟩ => by
    rw [Tree.preorder]
    exact List.forall_mem_cons.2 ⟨clear, Laid.clear_all cs laid⟩

/-- Nothing that was read starts in a comment. -/
private theorem Laid.clear_all : (ts : List Tree) → {strict : Bool} → {lo hi : Nat} →
    Laid page strict lo ts hi → ∀ u ∈ Tree.preorderAll ts, page.Clear u.start
  | [], _, _, _, _ => nofun
  | t :: ts, _, _, _, ⟨_, _, inner, rest⟩ => by
    rw [Tree.preorderAll]
    exact List.forall_mem_append.2 ⟨Tree.Orderly.clear_all t inner, Laid.clear_all ts rest⟩

end

mutual

theorem Tree.Spaced.low : (t : Tree) → t.Spaced →
    ∀ u ∈ t.preorder, t.start ≤ u.start ∧ u.start ≤ u.stop
  | .node _ _ _ _ cs, ⟨_, le, parts⟩ => by
    rw [Tree.preorder]
    exact List.forall_mem_cons.2 ⟨⟨Nat.le_refl _, le⟩, SpacedFrom.low cs parts⟩

/-- All that is in spaced trees starts behind their offset. -/
theorem SpacedFrom.low : (ts : List Tree) → {lo : Nat} → SpacedFrom lo ts →
    ∀ u ∈ Tree.preorderAll ts, lo ≤ u.start ∧ u.start ≤ u.stop
  | [], _, _ => nofun
  | t :: ts, lo, ⟨low, inner, rest⟩ => by
    rw [Tree.preorderAll]
    refine List.forall_mem_append.2 ⟨fun u hu => ?_, fun u hu => ?_⟩
    · obtain ⟨here, le⟩ := Tree.Spaced.low t inner u hu
      exact ⟨Nat.le_trans low here, le⟩
    · obtain ⟨here, le⟩ := SpacedFrom.low ts rest u hu
      have : t.start ≤ t.stop := (Tree.Spaced.low t inner t (t.preorder_eq ▸ List.mem_cons_self)).2
      exact ⟨Nat.le_trans low (Nat.le_trans this here), le⟩

end

/-- What comes behind other spaced trees is spaced. -/
theorem SpacedFrom.behind {us : List Tree} (h : SpacedFrom lo (ts ++ us)) :
    ∃ mid, lo ≤ mid ∧ SpacedFrom mid us := by
  induction ts generalizing lo with
  | nil => exact ⟨lo, Nat.le_refl _, h⟩
  | cons t ts ih =>
    obtain ⟨low, inner, rest⟩ := h
    obtain ⟨mid, le, spaced⟩ := ih rest
    have wide := (Tree.Spaced.low t inner t (t.preorder_eq ▸ List.mem_cons_self)).2
    exact ⟨mid, by omega, spaced⟩

/-! ## One more comment -/

/-- The comments among some nodes. -/
def commentsOf (us : List Tree) : List Tree :=
  us.filter (·.kind = .comment)

/-- A range can be that of the next comment in a tree with some nodes: no node starts in it, and
the comments that are there come before it. -/
structure NextComment (start stop : Nat) (us : List Tree) : Prop where
  clear : ∀ u ∈ us, stop ≤ u.start ∨ u.start ≤ start
  last : ∀ u ∈ commentsOf us, u.stop ≤ start

theorem NextComment.mono {us vs : List Tree} (h : NextComment start stop us) (sub : vs ⊆ us) :
    NextComment start stop vs :=
  ⟨fun u hu => h.clear u (sub hu), fun u hu => h.last u (List.filter_subset _ sub hu)⟩

/-- There are no comments in what lies behind the next one. -/
private theorem NextComment.commentsOf_eq_nil (h : NextComment start stop (Tree.preorderAll ts))
    (spaced : SpacedFrom lo ts) (behind : start < lo) : commentsOf (Tree.preorderAll ts) = [] := by
  refine List.eq_nil_iff_forall_not_mem.2 fun u hu => ?_
  obtain ⟨low, le⟩ := SpacedFrom.low ts spaced u (List.mem_of_mem_filter hu)
  have := h.last u hu
  omega

theorem commentsOf_append (us vs : List Tree) :
    commentsOf (us ++ vs) = commentsOf us ++ commentsOf vs :=
  List.filter_append us vs

mutual

/-- The next comment goes behind those that are in a tree. -/
theorem Tree.Spaced.place (le : start ≤ stop) : (t : Tree) → t.Spaced → t.kind ≠ .comment →
    t.start ≤ start → NextComment start stop t.preorder →
    (t.place start stop).Spaced ∧ commentsOf (t.place start stop).preorder =
      commentsOf t.preorder ++ [.leaf .comment start stop]
  | .node k f s e cs, ⟨_, wide, parts⟩, read, low, next => by
    rw [Tree.preorder] at next
    obtain ⟨spaced, listed⟩ :=
      SpacedFrom.placeAmong le cs parts low (next.mono (List.subset_cons_self _ _))
    have read : k ≠ .comment := read
    rw [Tree.place, Tree.preorder, Tree.preorder]
    refine ⟨⟨fun comment => absurd comment read, wide, spaced⟩, ?_⟩
    have skipped (us : List Tree) (ds : List Tree) :
        commentsOf (.node k f s e ds :: us) = commentsOf us :=
      List.filter_cons_of_neg (by simp [Tree.kind, read])
    rw [skipped, skipped, listed]

theorem SpacedFrom.placeAmong (le : start ≤ stop) : (ts : List Tree) → {lo : Nat} →
    SpacedFrom lo ts → lo ≤ start → NextComment start stop (Tree.preorderAll ts) →
    SpacedFrom lo (Tree.placeAmong start stop ts) ∧
      commentsOf (Tree.preorderAll (Tree.placeAmong start stop ts)) =
        commentsOf (Tree.preorderAll ts) ++ [.leaf .comment start stop]
  | [], lo, _, low, _ => ⟨⟨low, ⟨fun _ => rfl, le, trivial⟩, trivial⟩, rfl⟩
  | .node k f s e cs :: ts, lo, ⟨here, inner, rest⟩, low, next => by
    have wide : s ≤ e := inner.2.1
    have first : Tree.node k f s e cs ∈ Tree.preorderAll (.node k f s e cs :: ts) := by
      rw [Tree.preorderAll, Tree.preorder]
      exact List.mem_cons_self
    have below : (Tree.node k f s e cs).preorder ⊆ Tree.preorderAll (.node k f s e cs :: ts) := by
      rw [Tree.preorderAll]
      exact List.subset_append_left _ _
    have later : Tree.preorderAll ts ⊆ Tree.preorderAll (.node k f s e cs :: ts) := by
      rw [Tree.preorderAll]
      exact List.subset_append_right _ _
    rw [Tree.placeAmong]
    split
    · -- Before a node that starts behind the comment.
      rename_i before
      have apart : stop ≤ s := (next.clear _ first).resolve_right (Nat.not_le.2 before)
      have behind : SpacedFrom s (.node k f s e cs :: ts) := ⟨Nat.le_refl s, inner, rest⟩
      refine ⟨⟨low, ⟨fun _ => rfl, le, trivial⟩, apart, inner, rest⟩, ?_⟩
      rw [next.commentsOf_eq_nil behind before, Tree.preorderAll, commentsOf_append,
        next.commentsOf_eq_nil behind before]
      rfl
    split
    · -- In a node that has something behind the comment, and is none.
      rename_i begun inside
      have read : k ≠ .comment := by
        rintro rfl
        have := next.last _ (List.mem_filter.2 ⟨first, decide_eq_true rfl⟩)
        exact absurd inside (Nat.not_lt.2 this)
      obtain ⟨spaced, listed⟩ :=
        Tree.Spaced.place le _ inner read (Nat.le_of_not_lt begun) (next.mono below)
      refine ⟨⟨here, spaced, rest⟩, ?_⟩
      rw [Tree.preorderAll, Tree.preorderAll, commentsOf_append, commentsOf_append, listed,
        (next.mono later).commentsOf_eq_nil rest inside, List.append_nil, List.append_nil]
    · rename_i ended
      obtain ⟨spaced, listed⟩ :=
        SpacedFrom.placeAmong le ts rest (Nat.le_of_not_lt ended) (next.mono later)
      refine ⟨⟨here, inner, spaced⟩, ?_⟩
      rw [Tree.preorderAll, Tree.preorderAll, commentsOf_append, commentsOf_append, listed,
        List.append_assoc]

end

/-! ## All comments -/

/-- The tree with comments put into it, one after the other. -/
def Tree.placeAll (comments : List (Nat × Nat)) (t : Tree) : Tree :=
  comments.foldl (fun t (start, stop) => t.place start stop) t

theorem Tree.placeAll_concat (comments : List (Nat × Nat)) (c : Nat × Nat) (t : Tree) :
    t.placeAll (comments ++ [c]) = (t.placeAll comments).place c.1 c.2 :=
  List.foldl_concat ..

private theorem Tree.start_place (start stop : Nat) (t : Tree) :
    (t.place start stop).start = t.start := by
  cases t
  rfl

theorem Tree.kind_place (start stop : Nat) (t : Tree) : (t.place start stop).kind = t.kind := by
  cases t
  rfl

/-- Comments that can be put into a tree without any, one after the other: none of its nodes starts
in one of them. -/
structure Tree.Awaits (t : Tree) (comments : List (Nat × Nat)) : Prop where
  spaced : t.Spaced
  bare : commentsOf t.preorder = []
  read : t.kind ≠ .comment
  wide : ∀ c ∈ comments, t.start ≤ c.1 ∧ c.1 ≤ c.2
  apart : comments.Pairwise fun a b => a.2 ≤ b.1
  clear : ∀ u ∈ t.preorder, ∀ c ∈ comments, c.2 ≤ u.start ∨ u.start ≤ c.1

namespace Tree.Awaits

variable {comments : List (Nat × Nat)} {c : Nat × Nat}

theorem front (h : t.Awaits (comments ++ [c])) : t.Awaits comments :=
  ⟨h.spaced, h.bare, h.read, fun d hd => h.wide d (List.mem_append_left _ hd),
    (List.pairwise_append.1 h.apart).1, fun u hu d hd => h.clear u hu d (List.mem_append_left _ hd)⟩

/-- The last of the comments is the next one where the others are there. -/
theorem next (h : t.Awaits (comments ++ [c]))
    (listed : commentsOf (t.placeAll comments).preorder =
      comments.map fun c => .leaf .comment c.1 c.2) :
    NextComment c.1 c.2 (t.placeAll comments).preorder := by
  obtain ⟨-, -, before⟩ := List.pairwise_append.1 h.apart
  have last : ∀ u ∈ commentsOf (t.placeAll comments).preorder,
      u.start ≤ u.stop ∧ u.stop ≤ c.1 := by
    rw [listed]
    intro u hu
    obtain ⟨d, hd, rfl⟩ := List.mem_map.1 hu
    exact ⟨(h.front.wide d hd).2, before d hd c List.mem_cons_self⟩
  refine ⟨fun u hu => ?_, fun u hu => (last u hu).2⟩
  by_cases comment : u.kind = .comment
  · have := last u (List.mem_filter.2 ⟨hu, decide_eq_true comment⟩)
    exact .inr (by omega)
  · -- What is no comment was there from the start.
    rcases preorder_foldl_place comments t u hu with is | ⟨v, hv, alike⟩
    · exact absurd is.1 comment
    · rw [alike.start]
      exact h.clear v hv c (List.mem_append_right _ List.mem_cons_self)

/-- Comments are put into a tree in their order. -/
theorem placeAll (h : t.Awaits comments) :
    (t.placeAll comments).Spaced ∧ (t.placeAll comments).kind = t.kind ∧
      (t.placeAll comments).start = t.start ∧
      commentsOf (t.placeAll comments).preorder =
        comments.map fun c => .leaf .comment c.1 c.2 := by
  induction comments using List.reverseRecOn with
  | nil => exact ⟨h.spaced, rfl, rfl, h.bare⟩
  | append_singleton comments c ih =>
    obtain ⟨low, le⟩ := h.wide c (List.mem_append_right _ List.mem_cons_self)
    obtain ⟨spaced, kind, start, listed⟩ := ih h.front
    obtain ⟨spaced', listed'⟩ :=
      spaced.place le _ (kind ▸ h.read) (start ▸ low) (h.next listed)
    rw [placeAll_concat, kind_place, start_place, listed', listed, List.map_append]
    exact ⟨spaced', kind, start, rfl⟩

end Tree.Awaits

/-- Without the node itself, which is no comment, it holds the same comments. -/
theorem commentsOf_preorder (read : t.kind ≠ .comment) :
    commentsOf t.preorder = commentsOf (Tree.preorderAll t.children) := by
  rw [t.preorder_eq]
  exact List.filter_cons_of_neg (by simpa using read)

/-- The tree of a parsed file holds what was read of it, with its comments put in. -/
theorem parse_awaits {source : Text} {tree : Tree} (h : parse? source = some tree) :
    ∃ items comments hi, hi ≤ source.length ∧ Laid ⟨source, comments⟩ true 0 items hi ∧
      (Tree.node .sourceFile none 0 source.length items).Awaits comments ∧
      (∀ c ∈ comments, Scan.IsComment source c) ∧
      tree.children =
        ((Tree.node .sourceFile none 0 source.length items).placeAll comments).children := by
  unfold parse? at h
  split at h
  · cases h
  rename_i items comments read
  -- The parser leaves nodes apart and its comments between them, so each has a place.
  obtain ⟨hi, bound, laid⟩ := fileParser_laid read
  obtain ⟨real, apart⟩ := fileParser_comments read
  cases h
  refine ⟨items, comments, hi, bound, laid, ⟨⟨nofun, Nat.zero_le _, Laid.spaced items laid⟩, ?_,
    nofun, ?_, apart, ?_⟩, real, rfl⟩
  · rw [commentsOf_preorder (t := .node .sourceFile none 0 source.length items) nofun]
    exact List.filter_eq_nil_iff.2 fun u hu => by simpa using Laid.read items laid u hu
  · intro c hc
    obtain ⟨width, -, same⟩ := real c hc
    exact ⟨Nat.zero_le _, by omega⟩
  · refine List.forall_mem_cons.2 ⟨fun c _ => .inr (Nat.zero_le _), fun u hu c hc => ?_⟩
    exact Laid.clear_all items laid u hu c hc

/-- In the tree of a parsed file all siblings lie one behind the other. Its comments are comments of
the text, in source order. -/
theorem parse_comments {source : Text} {tree : Tree} (h : parse? source = some tree) :
    SpacedFrom 0 tree.children ∧
      (∀ c ∈ commentsOf (Tree.preorderAll tree.children),
        Scan.IsComment source (c.start, c.stop)) ∧
      (commentsOf (Tree.preorderAll tree.children)).Pairwise fun a b => a.stop ≤ b.start := by
  obtain ⟨items, comments, -, -, -, awaits, real, children⟩ := parse_awaits h
  obtain ⟨spaced, kind, start, listed⟩ := awaits.placeAll
  rw [commentsOf_preorder (kind.trans_ne nofun)] at listed
  rw [children, listed, List.pairwise_map, List.forall_mem_map]
  refine ⟨?_, real, awaits.apart⟩
  have parts := spaced.laid
  rwa [start] at parts

end Interlace.Syntax
