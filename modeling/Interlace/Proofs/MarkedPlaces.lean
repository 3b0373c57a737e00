import Interlace.Proofs.CommentHomes
import Interlace.Proofs.MarkerComments

/-!
# Where markers stand

A marker behind a node is a comment among the siblings of the node. It is found only if the comment
starts in the node that holds the siblings: a comment behind the last statement of a node that ends
before it stands behind the whole of that node.

## Key results

- `Tree.StandsBehind`, `Tree.StandsBefore`: where a comment stands, by its siblings
- `SourceFile.hasTrailing_iff`, `SourceFile.hasLeading_iff`: markers at a node, by their places
- `standsBehind_of_inside`: a comment that starts in the parent stands behind the last child
- `not_standsBehind_of_outside`: a comment behind the parent does not stand behind a child
-/

namespace Interlace

namespace Syntax

variable {source : Text} {tree c p u : Tree} {ts us : List Tree} {offset : Nat}

/-! ## Siblings -/

/-- Neither a symbol nor a comment. -/
def Tree.isSignificant (t : Tree) : Bool :=
  t.isNamed && t.kind ≠ .comment

/-- One of the nodes has a comment among its children, with siblings on both sides. -/
structure HasComment (us front : List Tree) (c : Tree) (back : List Tree) : Prop where
  comment : c.kind = .comment
  held : ∃ parent ∈ us, parent.children = front ++ c :: back

/-- The nearest sibling before the comment that is neither a symbol nor a comment ends at the
offset. -/
def Tree.StandsBehind (root c : Tree) (offset : Nat) : Prop :=
  ∃ front back, HasComment root.preorder front c back ∧
    ∃ previous, (front.filter isSignificant).getLast? = some previous ∧ previous.stop = offset

/-- The next sibling behind the comment that is neither a symbol nor a comment starts at the offset,
and no blank line comes before it. -/
def Tree.StandsBefore (source : Text) (root c : Tree) (offset : Nat) : Prop :=
  ∃ front back, HasComment root.preorder front c back ∧
    ∃ between next rest, back.filter isNamed = between ++ next :: rest ∧
      (∀ d ∈ between, d.kind = .comment) ∧ next.kind ≠ .comment ∧ next.start = offset ∧
      (c :: (between ++ [next])).IsChain fun a b => source.newlinesBetween a.stop b.start ≤ 1

private theorem hasComment_append {us vs front back : List Tree} :
    HasComment (us ++ vs) front c back ↔
      HasComment us front c back ∨ HasComment vs front c back := by
  constructor
  · rintro ⟨comment, parent, listed, held⟩
    exact (List.mem_append.1 listed).imp (fun h => ⟨comment, parent, h, held⟩)
      fun h => ⟨comment, parent, h, held⟩
  · rintro (⟨comment, parent, listed, held⟩ | ⟨comment, parent, listed, held⟩)
    · exact ⟨comment, parent, List.mem_append_left _ listed, held⟩
    · exact ⟨comment, parent, List.mem_append_right _ listed, held⟩

private theorem hasComment_cons {t : Tree} {front back : List Tree} :
    HasComment (t :: us) front c back ↔
      (t.children = front ++ c :: back ∧ c.kind = .comment) ∨ HasComment us front c back := by
  rw [← List.singleton_append, hasComment_append]
  refine or_congr_left ⟨?_, fun ⟨held, comment⟩ => ⟨comment, t, List.mem_cons_self, held⟩⟩
  rintro ⟨comment, parent, listed, held⟩
  cases List.mem_singleton.1 listed
  exact ⟨held, comment⟩

/-! ## Comments in a node and behind it -/

/-- Of two siblings around a place, the one that ends before it comes first. -/
private theorem mem_front {front back : List Tree} {lo : Nat}
    (spaced : SpacedFrom lo (front ++ c :: back))
    (hu : u ∈ front ++ c :: back) (other : u ≠ c) (low : u.start < c.stop) : u ∈ front := by
  rcases List.mem_append.1 hu with before | rest
  · exact before
  · have behind := (List.mem_cons.1 rest).resolve_left other
    have := (List.pairwise_cons.1 (List.pairwise_append.1 spaced.apart).2.1).1 u behind
    omega

/-- A comment behind a child that no further child ends or starts before stands behind it. -/
private theorem exists_nearest {front back : List Tree} {lo : Nat}
    (spaced : SpacedFrom lo (front ++ c :: back)) (hu : u ∈ front) (sig : u.isSignificant)
    (last : ∀ v ∈ front, v.kind ≠ .comment → v.stop ≤ u.stop) :
    ∃ previous, (front.filter Tree.isSignificant).getLast? = some previous ∧
      previous.stop = u.stop := by
  have listed : u ∈ front.filter Tree.isSignificant := List.mem_filter.2 ⟨hu, sig⟩
  obtain ⟨before, previous, whole⟩ :=
    (List.eq_nil_or_concat' (front.filter Tree.isSignificant)).resolve_left
      (List.ne_nil_of_mem listed)
  have member : previous ∈ front.filter Tree.isSignificant := by
    rw [whole]
    exact List.mem_append_right _ List.mem_cons_self
  obtain ⟨inside, significant⟩ := List.mem_filter.1 member
  have read : previous.kind ≠ .comment := by
    simp only [Tree.isSignificant, Bool.and_eq_true, decide_eq_true_eq] at significant
    exact significant.2
  refine ⟨previous, by rw [whole, List.getLast?_concat], ?_⟩
  have high := last previous inside read
  -- The last of them is the child, or lies behind it.
  have order := (List.pairwise_append.1 spaced.apart).1.filter Tree.isSignificant
  rw [whole] at order listed
  rcases List.mem_append.1 listed with earlier | same
  · have low := (List.pairwise_append.1 order).2.2 u earlier previous List.mem_cons_self
    have wide := (Tree.Spaced.low previous (spaced.mem previous (List.mem_append_left _ inside))
      previous (previous.preorder_eq ▸ List.mem_cons_self)).2
    omega
  · rw [List.mem_singleton.1 same]

/-- A comment that starts in a node, behind a child and before what follows it, stands behind that
child. -/
theorem standsBehind_of_inside (parsed : parse? source = some tree) (hp : p ∈ tree.preorder)
    (child : u ∈ p.children) (sig : u.isSignificant) (hc : c ∈ Tree.preorderAll tree.children)
    (comment : c.kind = .comment) (behind : u.stop ≤ c.start)
    (next : ∀ v ∈ p.children, v.kind ≠ .comment → v.stop ≤ u.stop ∨ c.start < v.start)
    (inside : p = tree ∨ c.start < p.stop) : tree.StandsBehind c u.stop := by
  have spaced := spaced_of_child parsed hp child
  have wide := (Tree.Spaced.low u spaced u (u.preorder_eq ▸ List.mem_cons_self)).2
  have low : p = tree ∨ p.start ≤ c.start ∧ c.start < p.stop := by
    rw [tree.preorder_eq] at hp
    rcases List.mem_cons.1 hp with rfl | below
    · exact .inl rfl
    · refine inside.imp_right fun high => ⟨?_, high⟩
      have := (parse_housed parsed p below u
        (preorder_subset_of_mem child (u.preorder_eq ▸ List.mem_cons_self))).1
      omega
  have below := below_of_inside parsed hp hc comment (read_of_child parsed hp child) low
  obtain ⟨v, beside, inner⟩ := exists_mem_of_mem_preorderAll below
  -- No other child is around the comment, so it is a child itself.
  have itself : c = v := by
    rw [v.preorder_eq] at inner
    refine (List.mem_cons.1 inner).resolve_right fun deeper => ?_
    have around := housed_of_child parsed hp beside v (v.preorder_eq ▸ List.mem_cons_self) c deeper
    have first := around.1
    have last := around.start_lt comment
    have readv : v.kind ≠ .comment := by
      intro bare
      rw [(spaced_of_child parsed hp beside).children_of_comment bare] at deeper
      cases deeper
    have := next v beside readv
    omega
  subst itself
  obtain ⟨front, back, whole⟩ := List.append_of_mem beside
  obtain ⟨lo, laid⟩ := spacedFrom_of_parse parsed hp
  rw [whole] at laid
  have solid := start_lt_stop_of_comment parsed hp beside comment
  have readu : u.kind ≠ .comment := by
    simp only [Tree.isSignificant, Bool.and_eq_true, decide_eq_true_eq] at sig
    exact sig.2
  have before : u ∈ front := mem_front laid (whole ▸ child)
    (fun same => readu (same ▸ comment)) (by omega)
  refine ⟨front, back, ⟨comment, p, hp, whole⟩, exists_nearest laid before sig fun v hv read => ?_⟩
  have ends := (List.pairwise_append.1 laid.apart).2.2 v hv c List.mem_cons_self
  have order := (Tree.Spaced.low v (laid.mem v (List.mem_append_left _ hv)) v
    (v.preorder_eq ▸ List.mem_cons_self)).2
  have := next v (whole ▸ List.mem_append_left _ hv) read
  omega

/-- A comment behind the end of a node does not stand behind a child that ends before the node
does. -/
theorem not_standsBehind_of_outside (parsed : parse? source = some tree)
    (hp : p ∈ Tree.preorderAll tree.children) (child : u ∈ p.children) (wide : u.start < u.stop)
    (short : u.stop < p.stop) (outside : p.stop ≤ c.start) : ¬ tree.StandsBehind c u.stop := by
  rintro ⟨front, back, ⟨comment, q, hq, whole⟩, previous, nearest, stop⟩
  have hp' : p ∈ tree.preorder := tree.preorder_eq ▸ List.mem_cons_of_mem tree hp
  have readp := read_of_child parsed hp' child
  have first := (parse_housed parsed p hp u
    (preorder_subset_of_mem child (u.preorder_eq ▸ List.mem_cons_self))).1
  have held : c ∈ q.children := whole ▸ List.mem_append_right _ List.mem_cons_self
  obtain ⟨listed, significant⟩ := List.mem_filter.1 (List.mem_of_getLast? nearest)
  have beside : previous ∈ q.children := whole ▸ List.mem_append_left _ listed
  have order := (Tree.Spaced.low previous (spaced_of_child parsed hq beside) previous
    (previous.preorder_eq ▸ List.mem_cons_self)).2
  rcases beside_of_parse parsed hp hq readp (read_of_child parsed hq held) with
    within | ⟨v, hv, inner⟩ | ⟨lower, apart⟩
  · -- All that is below the node starts before it ends.
    have := (parse_housed parsed p hp c (mem_below_of_child within held)).start_lt comment
    omega
  · have spaced := spaced_of_child parsed hq hv
    have readv : v.kind ≠ .comment := by
      intro bare
      rw [v.preorder_eq, spaced.children_of_comment bare] at inner
      exact readp (List.mem_singleton.1 inner ▸ bare)
    have low := (Tree.Spaced.low v spaced p inner).1
    have high := stop_le_of_mem_preorder (housed_of_child parsed hq hv) inner readp
    rcases eq_or_apart parsed hq hv beside with rfl | apart <;> omega
  · have around := parse_housed parsed q lower
    have starts := (around previous (preorder_subset_of_mem beside
      (previous.preorder_eq ▸ List.mem_cons_self))).1
    have ends := (around c (preorder_subset_of_mem held
      (c.preorder_eq ▸ List.mem_cons_self))).start_lt comment
    omega

/-! ## What comments decorate -/

/-- A comment with its siblings, as the reader of comments passes it on. -/
def siteOf (preceding front : List Tree) (c : Tree) (back : List Tree) : CommentSite :=
  ⟨c, (front.filter Tree.isNamed).reverse ++ preceding, back.filter Tree.isNamed⟩

private theorem siteOf_cons (t : Tree) (preceding front : List Tree) (c : Tree) (back : List Tree) :
    siteOf preceding (t :: front) c back =
      siteOf (if t.isNamed then t :: preceding else preceding) front c back := by
  cases named : t.isNamed <;> simp [siteOf, named]

/-- The first part of a split is empty or starts with the head. -/
private theorem exists_split_cons {α : Type} {a : α} {l : List α} {Q : List α → α → List α → Prop} :
    (∃ front c back, a :: l = front ++ c :: back ∧ Q front c back) ↔
      Q [] a l ∨ ∃ front c back, l = front ++ c :: back ∧ Q (a :: front) c back := by
  constructor
  · rintro ⟨front, c, back, whole, holds⟩
    cases front with
    | nil =>
      cases whole
      exact .inl holds
    | cons b front =>
      cases whole
      exact .inr ⟨front, c, back, rfl, holds⟩
  · rintro (holds | ⟨front, c, back, rfl, holds⟩)
    · exact ⟨[], a, l, rfl, holds⟩
    · exact ⟨a :: front, c, back, rfl, holds⟩

mutual

theorem mem_commentsBelow_iff {site : CommentSite} : (t : Tree) → {lo : Nat} →
    SpacedFrom lo t.children → (site ∈ commentsBelow t ↔
      ∃ front c back, HasComment t.preorder front c back ∧ site = siteOf [] front c back)
  | .node k f s e cs, _, parts => by
    rw [commentsBelow, mem_commentsAmong_iff cs [] parts, Tree.preorder]
    simp only [hasComment_cons, or_and_right, exists_or, and_assoc]
    rfl

/-- The comments among trees are those between them and those in them. -/
theorem mem_commentsAmong_iff {site : CommentSite} : (ts : List Tree) → (preceding : List Tree) →
    {lo : Nat} → SpacedFrom lo ts → (site ∈ commentsAmong preceding ts ↔
      (∃ front c back, ts = front ++ c :: back ∧ c.kind = .comment ∧
        site = siteOf preceding front c back) ∨
      ∃ front c back, HasComment (Tree.preorderAll ts) front c back ∧
        site = siteOf [] front c back)
  | [], preceding, _, _ => by
    have none {front c back} : ¬ HasComment [] front c back := by
      rintro ⟨-, parent, listed, -⟩
      cases listed
    simp [commentsAmong, Tree.preorderAll, none]
  | .node k f s e cs :: ts, preceding, _, ⟨_, inner, rest⟩ => by
    have later := @mem_commentsAmong_iff site ts
      (if k.isNamed then .node k f s e cs :: preceding else preceding) _ rest
    rw [commentsAmong, List.mem_append, later, exists_split_cons, Tree.preorderAll]
    simp only [hasComment_append, or_and_right, exists_or, siteOf_cons]
    by_cases comment : k = .comment
    · -- A comment has nothing below it.
      have bare : cs = [] := inner.children_of_comment comment
      have none {front c back} : ¬ HasComment (Tree.node k f s e cs).preorder front c back := by
        subst bare
        rintro ⟨-, parent, listed, held⟩
        cases List.mem_singleton.1 listed
        cases front <;> cases held
      have here : Tree.kind (.node k f s e cs) = .comment := comment
      simp only [if_pos comment, List.mem_singleton, here, true_and, none, false_and, exists_false,
        false_or, or_assoc]
      rfl
    · have below := @mem_commentsBelow_iff site _ _ inner.laid
      have here : Tree.kind (.node k f s e cs) ≠ .comment := comment
      rw [if_neg comment, below]
      simp only [here, false_and, false_or]
      exact or_left_comm

end

end Syntax

open Syntax

namespace CommentSite

variable {source : Text} {ts front back preceding : List Tree} {c t : Tree}

private theorem previous?_siteOf :
    (siteOf [] front c back).previous? = (front.filter Tree.isSignificant).getLast? := by
  rw [previous?, siteOf, List.append_nil, List.getLast?_filter, ← List.filter_reverse,
    List.find?_filter]
  refine congrArg (List.find? · front.reverse) (funext fun t => ?_)
  simp [Tree.isSignificant]

/-- What is reached stands behind comments only, and behind no blank line. -/
theorem reach_eq_some_iff : reach source c.stop ts = some t ↔
    ∃ between rest, ts = between ++ t :: rest ∧ (∀ d ∈ between, d.kind = .comment) ∧
      t.kind ≠ .comment ∧
      (c :: (between ++ [t])).IsChain fun a b => source.newlinesBetween a.stop b.start ≤ 1 := by
  -- The induction is on what stands behind the comment, which every comment in between takes over.
  induction ts generalizing c with
  | nil => simp [reach]
  | cons u ts ih =>
    have near {between : List Tree} {v : Tree}
        (chain : (c :: u :: between ++ [v]).IsChain fun a b =>
          source.newlinesBetween a.stop b.start ≤ 1) :
        source.newlinesBetween c.stop u.start ≤ 1 := by
      rw [List.cons_append, List.cons_append, List.isChain_cons_cons] at chain
      exact chain.1
    rw [reach]
    split
    · -- A blank line before the next of them: nothing is reached, and no chain gets there.
      rename_i blank
      refine ⟨nofun, ?_⟩
      rintro ⟨between, rest, whole, -, -, chain⟩
      cases between with
      | nil =>
        cases whole
        exact absurd (List.isChain_cons_cons.1 chain).1 (Nat.not_le.2 blank)
      | cons d between =>
        cases whole
        exact absurd (near chain) (Nat.not_le.2 blank)
    split
    · -- The next of them is no comment, and is what is reached.
      rename_i close read
      constructor
      · rintro ⟨⟩
        exact ⟨[], ts, rfl, nofun, read,
          List.isChain_cons_cons.2 ⟨Nat.le_of_not_lt close, .singleton _⟩⟩
      · rintro ⟨between, rest, whole, comments, -, -⟩
        cases between with
        | nil =>
          cases whole
          rfl
        | cons d between =>
          cases whole
          exact absurd (comments u List.mem_cons_self) read
    · -- The next of them is a comment, and the search goes on behind it.
      rename_i close comment
      rw [ih]
      constructor
      · rintro ⟨between, rest, rfl, comments, read, chain⟩
        exact ⟨u :: between, rest, rfl,
          List.forall_mem_cons.2 ⟨not_not.1 comment, comments⟩, read,
          List.isChain_cons_cons.2 ⟨Nat.le_of_not_lt close, chain⟩⟩
      · rintro ⟨between, rest, whole, comments, read, chain⟩
        cases between with
        | nil =>
          cases whole
          exact absurd read comment
        | cons d between =>
          cases whole
          exact ⟨between, rest, rfl, (List.forall_mem_cons.1 comments).2, read,
            (List.isChain_cons_cons.1 chain).2⟩

end CommentSite

namespace Decorations

variable {source : Text} {tree c : Tree} {node : Tree} {m : Marker}

/-- What a comment adds to the comments behind nodes. -/
def behind? (source : Text) (site : CommentSite) : Option (Nat × Trivia) :=
  let t := trivia source site.comment
  if pointsBack t then site.previous?.map fun target => (target.stop, t) else none

/-- What a comment adds to the comments before nodes. -/
def before? (source : Text) (site : CommentSite) : Option (Nat × Trivia) :=
  let t := trivia source site.comment
  if pointsBack t then none else (site.next? source).map fun target => (target.start, t)

private theorem attach_lists (d : Decorations) (site : CommentSite) :
    (attach source d site).after = d.after ++ (behind? source site).toList ∧
      (attach source d site).before = d.before ++ (before? source site).toList := by
  unfold attach behind? before?
  dsimp only
  generalize trivia source site.comment = t
  -- Noting the marker is apart from the two lists.
  have listed : ∀ d' : Decorations, d' = (if t.marker.isSome then
      { d with markers := d.markers ++ [t] } else d) →
      d'.after = d.after ∧ d'.before = d.before := by
    rintro d' rfl
    split <;> exact ⟨rfl, rfl⟩
  obtain ⟨after, before⟩ := listed _ rfl
  generalize (if t.marker.isSome then ({ d with markers := d.markers ++ [t] } : Decorations)
    else d) = d' at after before
  split
  · cases site.previous? <;> simp [after, before]
  · cases site.next? source <;> simp [after, before]

private theorem foldl_attach_lists {d : Decorations} {sites : List CommentSite} :
    (sites.foldl (attach source) d).after = d.after ++ sites.filterMap (behind? source) ∧
      (sites.foldl (attach source) d).before = d.before ++ sites.filterMap (before? source) := by
  induction sites generalizing d with
  | nil => simp
  | cons site sites ih =>
    obtain ⟨after, before⟩ := @attach_lists source d site
    rw [List.foldl_cons, ih.1, ih.2, after, before, List.filterMap_cons, List.filterMap_cons]
    constructor
    · cases behind? source site <;> simp
    · cases before? source site <;> simp

theorem hasTrailing_ofTree_iff : (ofTree source tree).hasTrailing node m ↔
    ∃ site ∈ commentsBelow tree, (trivia source site.comment).marker = some m ∧
      pointsBack (trivia source site.comment) ∧
      ∃ previous, site.previous? = some previous ∧ previous.stop = node.stop := by
  rw [hasTrailing, trailing, List.any_map, List.any_filter, ofTree, foldl_attach_lists.1,
    List.nil_append, List.any_filterMap, List.any_eq_true]
  refine exists_congr fun site => and_congr_right fun _ => ?_
  cases back : pointsBack (trivia source site.comment) with
  | true => cases found : site.previous? <;> simp [behind?, back, found, and_comm]
  | false => simp [behind?, back]

theorem hasLeading_ofTree_iff : (ofTree source tree).hasLeading node m ↔
    ∃ site ∈ commentsBelow tree, (trivia source site.comment).marker = some m ∧
      pointsBack (trivia source site.comment) = false ∧
      ∃ next, site.next? source = some next ∧ next.start = node.start := by
  rw [hasLeading, leading, List.any_map, List.any_filter, ofTree, foldl_attach_lists.2,
    List.nil_append, List.any_filterMap, List.any_eq_true]
  refine exists_congr fun site => and_congr_right fun _ => ?_
  cases back : pointsBack (trivia source site.comment) with
  | true => simp [before?, back]
  | false => cases found : site.next? source <;> simp [before?, back, found, and_comm]

end Decorations

namespace SourceFile

variable {path text : Text} {file : SourceFile} {node : Tree} {m : Marker}

/-- A marker stands before what starts at the offset. Start markers may stand behind other code. -/
def MarkedBefore (file : SourceFile) (m : Marker) (offset : Nat) : Prop :=
  ∃ c, file.tree.StandsBefore file.source c offset ∧ Marker.parse? (file.text c) = some m ∧
    (m.isStart = true ∨ m.isEnd = false ∧ file.source.isFirstOnLine c.start = true)

/-- A marker stands behind what ends at the offset. End markers may stand on lines of their own. -/
def MarkedBehind (file : SourceFile) (m : Marker) (offset : Nat) : Prop :=
  ∃ c, file.tree.StandsBehind c offset ∧ Marker.parse? (file.text c) = some m ∧
    (m.isEnd = true ∨ m.isStart = false ∧ file.source.isFirstOnLine c.start = false)

private theorem pointsBack_eq {source : Text} {c : Tree}
    (marked : Marker.parse? (c.text source) = some m) :
    Decorations.pointsBack (Decorations.trivia source c) =
      if m.isEnd then true else if m.isStart then false else ! source.isFirstOnLine c.start := by
  have marker : (Decorations.trivia source c).marker = some m := marked
  rw [Decorations.pointsBack, marker]
  rfl

/-- A marker is found before a node iff it stands before it. -/
theorem hasLeading_iff (parsed : parse path text = .ok file) :
    file.decorations.hasLeading node m ↔ file.MarkedBefore m node.start := by
  obtain ⟨spaced, -⟩ := parse_comments (tree_of_parse parsed).1
  rw [decorations_eq parsed, Decorations.hasLeading_ofTree_iff]
  simp only [mem_commentsBelow_iff _ spaced]
  -- Both ways a comment decorates the node it reaches unless it points back.
  constructor
  · rintro ⟨_, ⟨front, c, back, held, rfl⟩, marked, forth, next, reached, starts⟩
    obtain ⟨between, rest, whole, comments, read, close⟩ := CommentSite.reach_eq_some_iff.1 reached
    refine ⟨c, ⟨front, back, held, between, next, rest, whole, comments, read, starts, close⟩,
      marked, ?_⟩
    change Decorations.pointsBack (Decorations.trivia _ c) = false at forth
    rw [pointsBack_eq (c := c) marked] at forth
    revert forth
    cases m.isEnd <;> cases m.isStart <;> simp
  · rintro ⟨c, ⟨front, back, held, between, next, rest, whole, comments, read, starts, close⟩,
      marked, forth⟩
    refine ⟨_, ⟨front, c, back, held, rfl⟩, marked, ?_, next,
      CommentSite.reach_eq_some_iff.2 ⟨between, rest, whole, comments, read, close⟩, starts⟩
    change Decorations.pointsBack (Decorations.trivia _ c) = false
    rw [pointsBack_eq (c := c) marked]
    revert forth
    cases m <;> simp [Marker.isEnd, Marker.isStart]

/-- A marker is found behind a node iff it stands behind it. -/
theorem hasTrailing_iff (parsed : parse path text = .ok file) :
    file.decorations.hasTrailing node m ↔ file.MarkedBehind m node.stop := by
  obtain ⟨spaced, -⟩ := parse_comments (tree_of_parse parsed).1
  rw [decorations_eq parsed, Decorations.hasTrailing_ofTree_iff]
  simp only [mem_commentsBelow_iff _ spaced]
  -- Both ways a comment that points back decorates the nearest node before it.
  constructor
  · rintro ⟨_, ⟨front, c, back, held, rfl⟩, marked, behind, previous, nearest, stops⟩
    rw [CommentSite.previous?_siteOf] at nearest
    refine ⟨c, ⟨front, back, held, previous, nearest, stops⟩, marked, ?_⟩
    change Decorations.pointsBack (Decorations.trivia _ c) = true at behind
    rw [pointsBack_eq (c := c) marked] at behind
    revert behind
    cases m.isEnd <;> cases m.isStart <;> simp
  · rintro ⟨c, ⟨front, back, held, previous, nearest, stops⟩, marked, behind⟩
    refine ⟨_, ⟨front, c, back, held, rfl⟩, marked, ?_, previous,
      CommentSite.previous?_siteOf.trans nearest, stops⟩
    change Decorations.pointsBack (Decorations.trivia _ c) = true
    rw [pointsBack_eq (c := c) marked]
    revert behind
    cases m <;> simp [Marker.isEnd, Marker.isStart]

/-! ## Markers behind a child -/

/-- A comment with the marker starts in the parent, behind the child and before what follows it. -/
def HoldsMark (file : SourceFile) (m : Marker) (parent child : Tree) : Prop :=
  ∃ c ∈ Tree.preorderAll file.tree.children, c.kind = .comment ∧
    Marker.parse? (file.text c) = some m ∧ child.stop ≤ c.start ∧
    (parent = file.tree ∨ c.start < parent.stop) ∧
    ∀ t ∈ parent.children, t.kind ≠ .comment → t.stop ≤ child.stop ∨ c.start < t.start

/-- Every comment with the marker that starts behind the child starts behind the parent. -/
def PutsMarkOut (file : SourceFile) (m : Marker) (parent child : Tree) : Prop :=
  ∀ c ∈ Tree.preorderAll file.tree.children, c.kind = .comment →
    Marker.parse? (file.text c) = some m → child.stop ≤ c.start → parent.stop ≤ c.start

instance (file : SourceFile) (m : Marker) (parent child : Tree) :
    Decidable (file.PutsMarkOut m parent child) :=
  inferInstanceAs (Decidable (∀ c ∈ _, _ → _ → _ → _))

variable {parent child : Tree}

/-- An end marker in the parent stands behind the child that it comes next to. -/
theorem HoldsMark.markedBehind (h : file.HoldsMark m parent child)
    (parsed : parse path text = .ok file) (ends : m.isEnd = true)
    (node : parent ∈ file.tree.preorder) (part : child ∈ parent.children)
    (sig : child.isSignificant) : file.MarkedBehind m child.stop := by
  obtain ⟨c, below, comment, marked, behind, inside, next⟩ := h
  have stands := standsBehind_of_inside (tree_of_parse parsed).1 node part sig below comment behind
    next inside
  exact ⟨c, stands, marked, .inl ends⟩

/-- A marker behind the parent does not stand behind a child that ends before the parent does. -/
theorem PutsMarkOut.not_markedBehind (h : file.PutsMarkOut m parent child)
    (parsed : parse path text = .ok file) (node : parent ∈ Tree.preorderAll file.tree.children)
    (part : child ∈ parent.children) (wide : child.start < child.stop)
    (short : child.stop < parent.stop) : ¬ file.MarkedBehind m child.stop := by
  rintro ⟨c, stands, marked, -⟩
  have tree := (tree_of_parse parsed).1
  refine not_standsBehind_of_outside tree node part wide short ?_ stands
  obtain ⟨front, back, ⟨comment, q, hq, whole⟩, previous, nearest, stop⟩ := stands
  have held : c ∈ q.children := whole ▸ List.mem_append_right _ List.mem_cons_self
  refine h c (mem_below_root_of_child hq held) comment marked ?_
  -- The nearest sibling ends where the child does, and the comment comes after it.
  obtain ⟨lo, spaced⟩ := spacedFrom_of_parse tree hq
  have apart := spaced.apart
  rw [whole] at apart
  obtain ⟨listed, -⟩ := List.mem_filter.1 (List.mem_of_getLast? nearest)
  exact stop ▸ (List.pairwise_append.1 apart).2.2 previous listed c List.mem_cons_self

end SourceFile

end Interlace
