import Interlace.Proofs.OrderedStatements
import Interlace.Weave.Positions

/-!
# Anchors in source order

The package clause, the declarations and the statements of a parsed text come in source order, and
each of them starts where a token could. The grammar reads all its trees in order, and comments,
which are put in afterwards, are no anchors.

## Key results

- `rulesTo_ordered`: the grammar reads in order
- `Tree.anchorStarts_place`: a comment leaves the anchors where they are
- `Positions.anchors_ordered`, `Positions.solid_of_mem_anchors`: the anchors of a parsed text
-/

namespace Interlace.Syntax

open Reading

/-! ## The whole grammar -/

/-- What the grammar reads as statements are statements. -/
private theorem rulesTo_giveStatements (depth : Nat) : (rulesTo depth).GiveStatements := by
  induction depth with
  | zero => exact fun rule _ => .fail
  | succ depth ih =>
    intro rule is
    cases rule with
    | block => exact Rules.blockRule_gives _
    | conditional => exact Rules.conditionalRule_gives _
    | statement clause => exact Rules.statementRule_gives ih clause
    | binary minimum follow => cases is
    | unary follow => cases is
    | type closed => cases is
    | literalValue => cases is

/-- The grammar reads in order. -/
theorem rulesTo_ordered (text : Text) (depth : Nat) : (rulesTo depth).Ordered text := by
  -- The induction is on the depth of the grammar, whose rules call each other one level down.
  induction depth with
  | zero => exact fun rule => .fail
  | succ depth ih =>
    intro rule
    cases rule with
    | binary minimum follow => exact Rules.binaryRule_lays ih minimum follow
    | unary follow => exact Rules.unaryRule_lays ih follow
    | type closed => exact Rules.typeRule_lays ih closed
    | block => exact Rules.blockRule_lays ih (rulesTo_giveStatements depth)
    | literalValue => exact Rules.literalValueRule_lays ih
    | conditional => exact Rules.conditionalRule_lays ih
    | statement clause =>
      exact Rules.statementRule_lays ih (rulesTo_giveStatements depth) clause

theorem Scan.ofSource_in (source : Text) :
    (Scan.ofSource source).In source := by
  have none_passed (offset : Nat) : Scan.CommentsTo source offset [] := ⟨nofun, nofun, .nil⟩
  unfold Scan.ofSource
  split
  · exact ⟨rfl, Nat.zero_le _, Nat.zero_le _, none_passed 3⟩
  · exact ⟨rfl, Nat.zero_le _, Nat.zero_le _, none_passed 0⟩

/-- The position behind a file that was read, and what was passed until there. -/
private theorem fileParser_run {source : Text} {depth : Nat} {items : List Tree}
    {comments : List (Nat × Nat)}
    (read : (fileParser depth).run' (Scan.ofSource source) = some (items, comments)) :
    ∃ s : Scan, s.In source ∧ comments = s.comments.reverse ∧
      Laid ⟨source, s.comments⟩ true 0 items s.last := by
  obtain ⟨⟨result, s⟩, run, rfl⟩ := Option.map_eq_some_iff.1 read
  obtain ⟨start, s₁, looked, run⟩ := bind_eq_some.1 run
  cases looked
  obtain ⟨trees, s₂, found, run⟩ := bind_eq_some.1 run
  cases run
  have here := Scan.ofSource_in source
  have ordered := Rules.fileItems_lays (rulesTo_ordered source depth)
  obtain ⟨there, -, laid⟩ := ordered _ _ 0 _ _ here (Nat.zero_le _) found
  refine ⟨s.skip true, there.skip true, rfl, ?_⟩
  rw [there.last_skip]
  exact (there.grows_skip true).laid laid (Nat.le_refl _)

/-- The items of a file lie one behind the other, and no token starts in a comment. -/
theorem fileParser_laid {source : Text} {depth : Nat} {items : List Tree}
    {comments : List (Nat × Nat)}
    (read : (fileParser depth).run' (Scan.ofSource source) = some (items, comments)) :
    ∃ hi ≤ source.length, Laid ⟨source, comments⟩ true 0 items hi := by
  obtain ⟨s, there, rfl, laid⟩ := fileParser_run read
  exact ⟨s.last, there.inside, laid.recomment items fun c hc => .inl (List.mem_reverse.1 hc)⟩

/-- The comments of a file come in source order. -/
theorem fileParser_comments {source : Text} {depth : Nat} {items : List Tree}
    {comments : List (Nat × Nat)}
    (read : (fileParser depth).run' (Scan.ofSource source) = some (items, comments)) :
    (∀ c ∈ comments, Scan.IsComment source c) ∧ comments.Pairwise fun a b => a.2 ≤ b.1 := by
  obtain ⟨s, there, rfl, -⟩ := fileParser_run read
  exact ⟨fun c hc => there.comments.read c (List.mem_reverse.1 hc),
    List.pairwise_reverse.2 there.comments.apart⟩

/-! ## Anchors by kind -/

/-- Whether a node is an anchor depends on what it and its parent are. -/
def Kind.isAnchor (parent : Option Kind) (k : Kind) : Bool :=
  k.isNamed && (k = .packageClause || k ≠ .comment &&
    match parent with
    | none => false
    | some p => p.holdsStatements && (p ≠ .sourceFile || k.isTopLevelDeclaration))

mutual

/-- Where the anchors of a tree start, given what its parent is. -/
def Tree.anchorStarts (parent : Option Kind) : Tree → List Nat
  | .node k _ s _ cs => (if k.isAnchor parent then [s] else []) ++ anchorStartsAmong k cs

/-- Where the anchors of siblings start, given what their parent is. -/
def anchorStartsAmong (parent : Kind) : List Tree → List Nat
  | [] => []
  | t :: ts => t.anchorStarts (some parent) ++ anchorStartsAmong parent ts

end

/-- A comment is no anchor. -/
private theorem anchorStarts_comment (parent : Option Kind) (start stop : Nat) :
    (Tree.leaf .comment start stop).anchorStarts parent = [] :=
  rfl

mutual

/-- A comment leaves the anchors where they are. -/
theorem Tree.anchorStarts_place (start stop : Nat) (parent : Option Kind) :
    (t : Tree) → (t.place start stop).anchorStarts parent = t.anchorStarts parent
  | .node k f s e cs => by
    rw [Tree.place, Tree.anchorStarts, Tree.anchorStarts, anchorStartsAmong_placeAmong]

private theorem anchorStartsAmong_placeAmong (start stop : Nat) (parent : Kind) : (ts : List Tree) →
    anchorStartsAmong parent (Tree.placeAmong start stop ts) = anchorStartsAmong parent ts
  | [] => rfl
  | .node k f s e cs :: ts => by
    rw [Tree.placeAmong]
    split
    · rw [anchorStartsAmong, anchorStarts_comment, List.nil_append]
    split
    · rw [anchorStartsAmong, anchorStartsAmong, Tree.anchorStarts_place]
    · rw [anchorStartsAmong, anchorStartsAmong, anchorStartsAmong_placeAmong]

end

/-- Comments change no more than the children of a node, and leave the anchors among them. -/
private theorem foldl_place (k : Kind) (f : Option Field) (s e : Nat) (comments : List (Nat × Nat))
    (cs : List Tree) :
    ∃ cs', comments.foldl (fun t (start, stop) => Tree.place start stop t) (.node k f s e cs) =
      Tree.node k f s e cs' ∧ anchorStartsAmong k cs' = anchorStartsAmong k cs := by
  induction comments generalizing cs with
  | nil => exact ⟨cs, rfl, rfl⟩
  | cons c comments ih =>
    obtain ⟨cs', placed, same⟩ := ih (Tree.placeAmong c.1 c.2 cs)
    refine ⟨cs', ?_, same.trans (anchorStartsAmong_placeAmong c.1 c.2 k cs)⟩
    rw [List.foldl_cons]
    exact placed

/-! ## The order of anchors -/

variable {text : Text} {page : Page}

/-- Offsets where tokens could start, in order and between two others. -/
def OrderedStarts (text : Text) (lo hi : Nat) (offsets : List Nat) : Prop :=
  offsets.Pairwise (· ≤ ·) ∧ ∀ o ∈ offsets, lo ≤ o ∧ o ≤ hi ∧ Solid text o

theorem OrderedStarts.append {lo mid hi : Nat} {first second : List Nat} (low : lo ≤ mid)
    (high : mid ≤ hi) (h : OrderedStarts text lo mid first)
    (h' : OrderedStarts text mid hi second) : OrderedStarts text lo hi (first ++ second) := by
  refine ⟨List.pairwise_append.2 ⟨h.1, h'.1, fun o ho o' ho' => ?_⟩, fun o ho => ?_⟩
  · exact Nat.le_trans (h.2 o ho).2.1 (h'.2 o' ho').1
  · rcases List.mem_append.1 ho with ho | ho
    · have := h.2 o ho
      exact ⟨this.1, Nat.le_trans this.2.1 high, this.2.2⟩
    · have := h'.2 o ho
      exact ⟨Nat.le_trans low this.1, this.2⟩

theorem OrderedStarts.lower {lo mid hi : Nat} {offsets : List Nat}
    (h : OrderedStarts text mid hi offsets) (low : lo ≤ mid) : OrderedStarts text lo hi offsets :=
  ⟨h.1, fun o ho => ⟨Nat.le_trans low (h.2 o ho).1, (h.2 o ho).2⟩⟩

/-- An anchor is more than a piece of a string if it is in a node that has no such pieces. -/
private theorem Kind.isStrict_of_isAnchor {p k : Kind} (h : k.isAnchor (some p)) :
    p.isStrict ∨ k.isPiece = false := by
  unfold isAnchor at h
  simp only [Bool.and_eq_true, Bool.or_eq_true, decide_eq_true_eq] at h
  rcases h.2 with rfl | inside
  · exact .inr rfl
  · left
    have holds := inside.2.1
    unfold isStrict
    split
    · rfl
    · rfl
    · exact holds

mutual

/-- The anchors of an orderly tree are in order. -/
private theorem Tree.Orderly.starts_ordered {parent : Option Kind} : (t : Tree) → t.Orderly page →
    (t.kind.isAnchor parent → Solid page.text t.start) →
      OrderedStarts page.text t.start t.stop (t.anchorStarts parent)
  | .node k f s e cs, orderly, solid => by
    have inside : Laid page k.isStrict s cs e := orderly.2
    have le : s ≤ e := inside.le_of_laid
    rw [Tree.anchorStarts]
    refine .append (Nat.le_refl s) le ?_ (Laid.starts_ordered cs inside)
    split
    · rename_i anchor
      refine ⟨List.pairwise_singleton _ _, fun o ho => ?_⟩
      rw [List.mem_singleton.1 ho]
      exact ⟨Nat.le_refl s, Nat.le_refl s, solid anchor⟩
    · exact ⟨.nil, nofun⟩

private theorem Laid.starts_ordered {parent : Kind} : (ts : List Tree) → {lo hi : Nat} →
    Laid page parent.isStrict lo ts hi → OrderedStarts page.text lo hi (anchorStartsAmong parent ts)
  | [], _, _, _ => ⟨.nil, nofun⟩
  | t :: ts, _, _, ⟨low, stands, orderly, rest⟩ => by
    rw [anchorStartsAmong]
    have le := Tree.Orderly.le t orderly
    have here : t.kind.isAnchor (some parent) → Solid page.text t.start := by
      intro anchor
      rcases stands with here | ⟨loose, piece⟩
      · exact here.1
      · rcases Kind.isStrict_of_isAnchor anchor with strict | whole
        · rw [loose] at strict
          cases strict
        · rw [whole] at piece
          cases piece
    have first := Tree.Orderly.starts_ordered t orderly here
    exact (first.lower low).append (by omega) rest.le_of_laid (Laid.starts_ordered ts rest)

end

end Interlace.Syntax

namespace Interlace.Positions

open Syntax

/-- An anchor is one by what it and its parent are. -/
private theorem isAnchor_eq (t : Tree) (above : List Tree) :
    (t.isNamed && (t.kind = .packageClause || Site.isStatementLevel ⟨t, above⟩)) =
      t.kind.isAnchor (above.head?.map Tree.kind) := by
  cases above <;> rfl

mutual

private theorem starts_preorderAt (above : List Tree) : (t : Tree) →
    (((Site.preorderAt above t).filter fun s =>
      s.node.isNamed && (s.node.kind = .packageClause || s.isStatementLevel)).map
        fun s => s.node.start) = t.anchorStarts (above.head?.map Tree.kind)
  | .node k f s e cs => by
    rw [Site.preorderAt, List.filter_cons, Tree.anchorStarts]
    have below : _ = anchorStartsAmong k cs := starts_preorderBelow (.node k f s e cs) above cs
    have here : _ = k.isAnchor _ := isAnchor_eq (.node k f s e cs) above
    dsimp only
    rw [here]
    split
    · rw [List.map_cons, below]
      rfl
    · exact below

private theorem starts_preorderBelow (parent : Tree) (above : List Tree) : (ts : List Tree) →
    (((Site.preorderBelow (parent :: above) ts).filter fun s =>
      s.node.isNamed && (s.node.kind = .packageClause || s.isStatementLevel)).map
        fun s => s.node.start) = anchorStartsAmong parent.kind ts
  | [] => rfl
  | t :: ts => by
    rw [Site.preorderBelow, List.filter_append, List.map_append, starts_preorderAt,
      starts_preorderBelow, anchorStartsAmong]
    rfl

end

private theorem map_start_anchors (root : Tree) :
    (anchors root).map Tree.start = root.anchorStarts none := by
  unfold anchors Tree.sites
  rw [List.map_map]
  exact starts_preorderAt [] root

/-- The anchors of a parsed text start at rising offsets. -/
private theorem starts_ordered_of_parse {source : Text} {tree : Tree}
    (h : parse? source = some tree) :
    ∃ hi, OrderedStarts source 0 hi ((anchors tree).map Tree.start) := by
  unfold parse? at h
  split at h
  · cases h
  · rename_i items comments read
    obtain ⟨hi, -, laid⟩ := fileParser_laid read
    cases h
    -- Comments that are put in leave the anchors where they are.
    obtain ⟨children, placed, same⟩ := foldl_place .sourceFile none 0 source.length comments items
    refine ⟨hi, ?_⟩
    rw [map_start_anchors, placed]
    show OrderedStarts (Page.mk source comments).text 0 hi (anchorStartsAmong .sourceFile children)
    rw [same]
    exact Laid.starts_ordered items laid

/-- The anchors of a parsed text come in source order. -/
theorem anchors_ordered {source : Text} {tree : Tree} (h : parse? source = some tree) :
    (anchors tree).Pairwise fun a b => a.start ≤ b.start := by
  obtain ⟨hi, ordered⟩ := starts_ordered_of_parse h
  exact List.pairwise_map.1 ordered.1

/-- The anchors of a parsed text start where tokens could. -/
theorem solid_of_mem_anchors {source : Text} {tree anchor : Tree} (h : parse? source = some tree)
    (listed : anchor ∈ anchors tree) : Solid source anchor.start := by
  obtain ⟨hi, ordered⟩ := starts_ordered_of_parse h
  exact (ordered.2 _ (List.mem_map_of_mem listed)).2.2

end Interlace.Positions
