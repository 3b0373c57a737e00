import Interlace.Proofs.CommentPlaces
import Interlace.Proofs.ParsedNodes

/-!
# Which nodes hold a comment

A comment is put into the smallest node around its start. So a node holds the comments that start in
it and no others, and any two nodes lie one in the other or one behind the other.

## Key results

- `Tree.IsAround`: a comment starts in a node, anything else lies in it
- `parse_housed`: every node of a parsed file is around all that is below it
- `beside_of_parse`: two nodes lie one in the other or one behind the other
- `below_of_inside`: a comment that starts in a node is below it
-/

namespace Interlace.Syntax

variable {page : Page} {lo start stop : Nat} {t : Tree} {ts us : List Tree}

/-- A comment starts in the node, anything else lies in it. -/
def Tree.IsAround (t u : Tree) : Prop :=
  t.start ≤ u.start ∧ if u.kind = .comment then u.start < t.stop else u.stop ≤ t.stop

/-- Each of the nodes is around all that is below it. -/
def Housed (us : List Tree) : Prop :=
  ∀ t ∈ us, ∀ u ∈ Tree.preorderAll t.children, t.IsAround u

private theorem Tree.IsAround.of_read {u : Tree} (read : u.kind ≠ .comment)
    (low : t.start ≤ u.start) (high : u.stop ≤ t.stop) : t.IsAround u :=
  ⟨low, by rwa [if_neg read]⟩

private theorem Tree.IsAround.stop_le {u : Tree} (h : t.IsAround u) (read : u.kind ≠ .comment) :
    u.stop ≤ t.stop := by
  have high := h.2
  rwa [if_neg read] at high

theorem Tree.IsAround.start_lt {u : Tree} (h : t.IsAround u) (comment : u.kind = .comment) :
    u.start < t.stop := by
  have high := h.2
  rwa [if_pos comment] at high

theorem Housed.append (h : Housed us) {vs : List Tree} (h' : Housed vs) : Housed (us ++ vs) :=
  List.forall_mem_append.2 ⟨h, h'⟩

theorem Housed.mono {vs : List Tree} (h : Housed us) (sub : vs ⊆ us) : Housed vs :=
  fun t ht => h t (sub ht)

/-! ## Comments among nodes -/

mutual

private theorem Tree.Orderly.housed : (t : Tree) → t.Orderly page → Housed t.preorder
  | .node _ _ _ _ cs, ⟨_, laid⟩ => by
    rw [Tree.preorder]
    refine List.forall_mem_cons.2 ⟨fun u hu => ?_, Laid.housed cs laid⟩
    obtain ⟨low, -, high⟩ := Laid.inside cs laid u hu
    exact .of_read (Laid.read cs laid u hu) low high

/-- What was read lies in the nodes that it is a part of. -/
private theorem Laid.housed : (ts : List Tree) → {strict : Bool} → {lo hi : Nat} →
    Laid page strict lo ts hi → Housed (Tree.preorderAll ts)
  | [], _, _, _, _ => nofun
  | t :: ts, _, _, _, ⟨_, _, inner, rest⟩ => by
    rw [Tree.preorderAll]
    exact (Tree.Orderly.housed t inner).append (Laid.housed ts rest)

end

/-- A node around the place of a comment stays around all that is below it. -/
private theorem around_of_placeAmong
    (old : ∀ u ∈ Tree.preorderAll ts, t.IsAround u)
    (listed : commentsOf (Tree.preorderAll (Tree.placeAmong start stop ts)) =
      commentsOf (Tree.preorderAll ts) ++ [.leaf .comment start stop])
    (low : t.start ≤ start) (high : start < t.stop) :
    ∀ u ∈ Tree.preorderAll (Tree.placeAmong start stop ts), t.IsAround u := by
  intro u hu
  -- The one node that is new is the comment; the others keep their ranges.
  by_cases comment : u.kind = .comment
  · have among : u ∈ commentsOf (Tree.preorderAll (Tree.placeAmong start stop ts)) :=
      List.mem_filter.2 ⟨hu, decide_eq_true comment⟩
    rw [listed, List.mem_append, List.mem_singleton] at among
    rcases among with there | rfl
    · exact old u (List.mem_of_mem_filter there)
    · exact ⟨low, by rwa [if_pos comment]⟩
  · rcases preorderAll_placeAmong start stop ts u hu with is | ⟨v, hv, alike⟩
    · exact absurd is.1 comment
    · have around := old v hv
      have same := around.stop_le (alike.kind ▸ comment)
      exact .of_read comment (alike.start ▸ around.1) (alike.stop ▸ same)

mutual

/-- A comment that starts in a node is put below it, where it starts in all nodes above it. -/
private theorem Tree.Spaced.housed_place (le : start ≤ stop) : (t : Tree) → t.Spaced →
    t.start ≤ start → start < t.stop → NextComment start stop t.preorder → Housed t.preorder →
    Housed (t.place start stop).preorder
  | .node k f s e cs, ⟨_, _, parts⟩, low, high, next, housed => by
    rw [Tree.preorder] at next housed
    obtain ⟨here, below⟩ := List.forall_mem_cons.1 housed
    have next := next.mono (List.subset_cons_self _ _)
    obtain ⟨-, listed⟩ := SpacedFrom.placeAmong le cs parts low next
    rw [Tree.place, Tree.preorder]
    exact List.forall_mem_cons.2 ⟨around_of_placeAmong here listed low high,
      SpacedFrom.housed_placeAmong le cs parts low next below⟩

private theorem SpacedFrom.housed_placeAmong (le : start ≤ stop) : (ts : List Tree) → {lo : Nat} →
    SpacedFrom lo ts → lo ≤ start → NextComment start stop (Tree.preorderAll ts) →
    Housed (Tree.preorderAll ts) → Housed (Tree.preorderAll (Tree.placeAmong start stop ts))
  | [], _, _, _, _, _ => List.forall_mem_singleton.2 nofun
  | .node k f s e cs :: ts, _, ⟨_, inner, rest⟩, _, next, housed => by
    rw [Tree.preorderAll] at next housed
    obtain ⟨here, later⟩ := List.forall_mem_append.1 housed
    rw [Tree.placeAmong]
    split
    · exact List.forall_mem_cons.2 ⟨nofun, housed⟩
    split
    · rename_i begun inside
      rw [Tree.preorderAll]
      exact (Tree.Spaced.housed_place le _ inner (Nat.le_of_not_lt begun) inside
        (next.mono (List.subset_append_left _ _)) here).append later
    · rename_i ended
      rw [Tree.preorderAll]
      exact Housed.append here (SpacedFrom.housed_placeAmong le ts rest (Nat.le_of_not_lt ended)
        (next.mono (List.subset_append_right _ _)) later)

end

private theorem Tree.stop_place (start stop : Nat) (t : Tree) :
    (t.place start stop).stop = t.stop := by
  cases t
  rfl

/-- Where comments are put one after the other, each ends up in the nodes that it starts in. -/
private theorem Tree.Awaits.housed {comments : List (Nat × Nat)} (h : t.Awaits comments)
    (housed : Housed t.preorder) (inside : ∀ c ∈ comments, c.1 < t.stop) :
    Housed (t.placeAll comments).preorder ∧ (t.placeAll comments).stop = t.stop := by
  induction comments using List.reverseRecOn with
  | nil => exact ⟨housed, rfl⟩
  | append_singleton comments c ih =>
    obtain ⟨low, le⟩ := h.wide c (List.mem_append_right _ List.mem_cons_self)
    have high := inside c (List.mem_append_right _ List.mem_cons_self)
    obtain ⟨spaced, kind, start, listed⟩ := h.front.placeAll
    obtain ⟨housed, stop⟩ := ih h.front fun d hd => inside d (List.mem_append_left _ hd)
    rw [placeAll_concat, stop_place]
    exact ⟨spaced.housed_place le _ (start ▸ low) (stop ▸ high) (h.next listed) housed, stop⟩

/-- Every node of a parsed file below its root is around all that is below it. -/
theorem parse_housed {source : Text} {tree : Tree} (h : parse? source = some tree) :
    Housed (Tree.preorderAll tree.children) := by
  obtain ⟨items, comments, hi, bound, laid, awaits, real, children⟩ := parse_awaits h
  -- What was read is housed before comments are put in, and they find a house in it.
  have root : Housed (Tree.node .sourceFile none 0 source.length items).preorder := by
    rw [Tree.preorder]
    refine List.forall_mem_cons.2 ⟨fun u hu => ?_, Laid.housed items laid⟩
    obtain ⟨low, -, high⟩ := Laid.inside items laid u hu
    exact .of_read (Laid.read items laid u hu) low (Nat.le_trans high bound)
  have inside : ∀ c ∈ comments, c.1 < source.length := by
    intro c hc
    obtain ⟨width, comment, -⟩ := real c hc
    by_contra outside
    rw [List.drop_eq_nil_of_le (Nat.le_of_not_lt outside)] at comment
    cases comment
  have housed := (awaits.housed root inside).1
  rw [Tree.preorder_eq] at housed
  rw [children]
  exact housed.mono (List.subset_cons_self _ _)

/-! ## Two nodes of a tree -/

/-- Spaced siblings lie one behind the other. -/
theorem SpacedFrom.apart (h : SpacedFrom lo ts) : ts.Pairwise fun a b => a.stop ≤ b.start := by
  induction ts generalizing lo with
  | nil => exact .nil
  | cons t ts ih =>
    obtain ⟨-, -, rest⟩ := h
    refine List.pairwise_cons.2 ⟨fun u hu => ?_, ih rest⟩
    exact (SpacedFrom.low ts rest u
      (preorder_subset_of_mem hu (u.preorder_eq ▸ List.mem_cons_self))).1

mutual

private theorem Tree.exists_parent {u : Tree} : (t : Tree) → u ∈ t.preorder →
    u = t ∨ ∃ p ∈ t.preorder, u ∈ p.children
  | .node k f s e cs, h => by
    rw [Tree.preorder] at h ⊢
    rcases List.mem_cons.1 h with rfl | below
    · exact .inl rfl
    · refine .inr ?_
      rcases exists_parent_of_mem cs below with child | ⟨p, hp, child⟩
      · exact ⟨_, List.mem_cons_self, child⟩
      · exact ⟨p, List.mem_cons_of_mem _ hp, child⟩

/-- What is in trees is one of them or the child of a node. -/
private theorem exists_parent_of_mem {u : Tree} : (ts : List Tree) → u ∈ Tree.preorderAll ts →
    u ∈ ts ∨ ∃ p ∈ Tree.preorderAll ts, u ∈ p.children
  | [], h => absurd h List.not_mem_nil
  | t :: ts, h => by
    rw [Tree.preorderAll] at h ⊢
    rcases List.mem_append.1 h with here | later
    · rcases Tree.exists_parent t here with rfl | ⟨p, hp, child⟩
      · exact .inl List.mem_cons_self
      · exact .inr ⟨p, List.mem_append_left _ hp, child⟩
    · rcases exists_parent_of_mem ts later with child | ⟨p, hp, child⟩
      · exact .inl (List.mem_cons_of_mem t child)
      · exact .inr ⟨p, List.mem_append_right _ hp, child⟩

end

theorem exists_mem_of_mem_preorderAll {u : Tree} (h : u ∈ Tree.preorderAll ts) :
    ∃ t ∈ ts, u ∈ t.preorder := by
  induction ts with
  | nil => cases h
  | cons t ts ih =>
    rw [Tree.preorderAll] at h
    rcases List.mem_append.1 h with here | later
    · exact ⟨t, List.mem_cons_self, here⟩
    · obtain ⟨v, hv, hu⟩ := ih later
      exact ⟨v, List.mem_cons_of_mem t hv, hu⟩

/-- The second node is the first or lies in it, or the first lies in a child of the second, or they
lie one behind the other. -/
inductive Tree.Beside (p q : Tree) : Prop where
  | within (h : q ∈ p.preorder)
  | around {v : Tree} (child : v ∈ q.children) (h : p ∈ v.preorder)
  | before (h : p.stop ≤ q.start)
  | behind (h : q.stop ≤ p.start)

theorem stop_le_of_mem_preorder {u : Tree} (housed : Housed t.preorder) (hu : u ∈ t.preorder)
    (read : u.kind ≠ .comment) : u.stop ≤ t.stop := by
  rw [t.preorder_eq] at hu housed
  rcases List.mem_cons.1 hu with rfl | below
  · exact Nat.le_refl _
  · exact (housed t List.mem_cons_self u below).stop_le read

mutual

private theorem Tree.Spaced.nested_or_apart {p q : Tree} :
    (t : Tree) → t.Spaced → Housed t.preorder →
    p.kind ≠ .comment → q.kind ≠ .comment → p ∈ t.preorder → q ∈ t.preorder → p.Beside q
  | .node k f s e cs, ⟨_, _, parts⟩, housed, hp, hq, inp, inq => by
    rw [Tree.preorder] at inp inq housed
    rcases List.mem_cons.1 inp with rfl | belowp
    · exact .within (by rwa [Tree.preorder])
    · rcases List.mem_cons.1 inq with rfl | belowq
      · obtain ⟨v, hv, inv⟩ := exists_mem_of_mem_preorderAll belowp
        exact .around hv inv
      · exact SpacedFrom.nested_or_apart cs parts (housed.mono (List.subset_cons_self _ _)) hp hq
          belowp belowq

/-- Two nodes in trees that lie one behind the other lie one in the other or one behind the
other. -/
private theorem SpacedFrom.nested_or_apart {p q : Tree} : (ts : List Tree) → {lo : Nat} →
    SpacedFrom lo ts → Housed (Tree.preorderAll ts) → p.kind ≠ .comment → q.kind ≠ .comment →
    p ∈ Tree.preorderAll ts → q ∈ Tree.preorderAll ts → p.Beside q
  | [], _, _, _, _, _, inp, _ => absurd inp List.not_mem_nil
  | t :: ts, _, ⟨_, inner, rest⟩, housed, hp, hq, inp, inq => by
    rw [Tree.preorderAll] at inp inq housed
    obtain ⟨here, later⟩ := List.forall_mem_append.1 housed
    rcases List.mem_append.1 inp with firstp | laterp <;>
      rcases List.mem_append.1 inq with firstq | laterq
    · exact Tree.Spaced.nested_or_apart t inner here hp hq firstp firstq
    · have high := stop_le_of_mem_preorder here firstp hp
      exact .before (Nat.le_trans high (SpacedFrom.low ts rest q laterq).1)
    · have high := stop_le_of_mem_preorder here firstq hq
      exact .behind (Nat.le_trans high (SpacedFrom.low ts rest p laterp).1)
    · exact SpacedFrom.nested_or_apart ts rest later hp hq laterp laterq

end

/-! ## The nodes of a parsed file -/

section

variable {source : Text} {tree c p u : Tree}

/-- Below a node is what is below any node in it. -/
theorem mem_below_of_child {q : Tree} (hq : q ∈ p.preorder) (child : c ∈ q.children) :
    c ∈ Tree.preorderAll p.children := by
  obtain ⟨s, listed, rfl⟩ := Site.exists_preorderAt p [] q hq
  refine Site.below_preorderAt p [] s listed ?_
  exact preorder_subset_of_mem child (c.preorder_eq ▸ List.mem_cons_self)

theorem spacedFrom_of_parse (parsed : parse? source = some tree) (hp : p ∈ tree.preorder) :
    ∃ lo, SpacedFrom lo p.children := by
  rw [tree.preorder_eq] at hp
  rcases List.mem_cons.1 hp with rfl | below
  · exact ⟨0, (parse_comments parsed).1⟩
  · exact ⟨p.start, (SpacedFrom.all _ (parse_comments parsed).1 p below).laid⟩

/-- What holds something is no comment. -/
theorem read_of_child (parsed : parse? source = some tree) (hp : p ∈ tree.preorder)
    (child : c ∈ p.children) : p.kind ≠ .comment := by
  intro comment
  rw [tree.preorder_eq] at hp
  rcases List.mem_cons.1 hp with rfl | below
  · rw [kind_of_parse parsed] at comment
    cases comment
  · have spaced := SpacedFrom.all _ (parse_comments parsed).1 p below
    rw [spaced.children_of_comment comment] at child
    cases child

/-- Two nodes of a parsed file lie one in the other or, below the root, one behind the other. -/
theorem beside_of_parse {q : Tree} (parsed : parse? source = some tree)
    (hp : p ∈ Tree.preorderAll tree.children) (hq : q ∈ tree.preorder) (readp : p.kind ≠ .comment)
    (readq : q.kind ≠ .comment) : q ∈ p.preorder ∨ (∃ v ∈ q.children, p ∈ v.preorder) ∨
      q ∈ Tree.preorderAll tree.children ∧ (p.stop ≤ q.start ∨ q.stop ≤ p.start) := by
  rw [tree.preorder_eq] at hq
  rcases List.mem_cons.1 hq with rfl | below
  · exact .inr (.inl (exists_mem_of_mem_preorderAll hp))
  · cases SpacedFrom.nested_or_apart _ (parse_comments parsed).1 (parse_housed parsed) readp readq
      hp below with
    | within h => exact .inl h
    | around child h => exact .inr (.inl ⟨_, child, h⟩)
    | before h => exact .inr (.inr ⟨below, .inl h⟩)
    | behind h => exact .inr (.inr ⟨below, .inr h⟩)

section

variable (parsed : parse? source = some tree) (hp : p ∈ tree.preorder)

include parsed hp

theorem spaced_of_child (child : u ∈ p.children) : u.Spaced :=
  have ⟨_, spaced⟩ := spacedFrom_of_parse parsed hp
  spaced.mem u child

theorem housed_of_child (child : u ∈ p.children) : Housed u.preorder := by
  refine (parse_housed parsed).mono fun v hv => ?_
  obtain ⟨s, listed, rfl⟩ := Site.exists_preorderAt tree [] p hp
  exact Site.below_preorderAt tree [] s listed (preorder_subset_of_mem child hv)

omit parsed in
theorem mem_below_root_of_child (child : u ∈ p.children) :
    u ∈ Tree.preorderAll tree.children := by
  obtain ⟨s, listed, rfl⟩ := Site.exists_preorderAt tree [] p hp
  refine Site.below_preorderAt tree [] s listed ?_
  exact preorder_subset_of_mem child (u.preorder_eq ▸ List.mem_cons_self)

/-- A comment is more than nothing. -/
theorem start_lt_stop_of_comment (child : c ∈ p.children) (comment : c.kind = .comment) :
    c.start < c.stop := by
  have listed : c ∈ commentsOf (Tree.preorderAll tree.children) :=
    List.mem_filter.2 ⟨mem_below_root_of_child hp child, decide_eq_true comment⟩
  obtain ⟨width, real, stop⟩ := (parse_comments parsed).2.1 c listed
  have := Scan.commentWidth_pos real
  omega

/-- Siblings lie one behind the other. -/
theorem eq_or_apart {v : Tree} (child : u ∈ p.children) (beside : v ∈ p.children) :
    u = v ∨ u.stop ≤ v.start ∨ v.stop ≤ u.start := by
  obtain ⟨lo, spaced⟩ := spacedFrom_of_parse parsed hp
  exact List.Pairwise.forall_of_forall_of_flip (R := fun a b : Tree =>
      a = b ∨ a.stop ≤ b.start ∨ b.stop ≤ a.start) (fun _ _ => .inl rfl)
    (spaced.apart.imp fun low => .inr (.inl low)) (spaced.apart.imp fun low => .inr (.inr low))
    child beside

end

/-- A comment that starts in a node is below it. -/
theorem below_of_inside (parsed : parse? source = some tree) (hp : p ∈ tree.preorder)
    (hc : c ∈ Tree.preorderAll tree.children) (comment : c.kind = .comment)
    (read : p.kind ≠ .comment)
    (inside : p = tree ∨ p.start ≤ c.start ∧ c.start < p.stop) :
    c ∈ Tree.preorderAll p.children := by
  rw [tree.preorder_eq] at hp
  rcases List.mem_cons.1 hp with rfl | below
  · exact hc
  rcases inside with rfl | ⟨low, high⟩
  · exact hc
  obtain rfl | ⟨q, hq, child⟩ := Tree.exists_parent tree
    (tree.preorder_eq ▸ List.mem_cons_of_mem tree hc)
  · rw [kind_of_parse parsed] at comment
    cases comment
  rcases beside_of_parse parsed below hq read (read_of_child parsed hq child) with
    within | ⟨v, beside, inner⟩ | ⟨lower, apart⟩
  · exact mem_below_of_child within child
  · -- Of the siblings of the comment, one would be around its start.
    have spaced := spaced_of_child parsed hq beside
    have readv : v.kind ≠ .comment := by
      intro bare
      rw [v.preorder_eq, spaced.children_of_comment bare] at inner
      exact read (List.mem_singleton.1 inner ▸ bare)
    have first := (Tree.Spaced.low v spaced p inner).1
    have last := stop_le_of_mem_preorder (housed_of_child parsed hq beside) inner read
    have wide := start_lt_stop_of_comment parsed hq child comment
    rcases eq_or_apart parsed hq child beside with rfl | apart
    · exact absurd comment readv
    · omega
  · have around := parse_housed parsed q lower c
      (preorder_subset_of_mem child (c.preorder_eq ▸ List.mem_cons_self))
    have first := around.1
    have last := around.start_lt comment
    omega

end

end Interlace.Syntax
