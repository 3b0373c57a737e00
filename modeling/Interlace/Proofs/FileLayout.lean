import Interlace.Proofs.AnchorOrder
import Interlace.Proofs.Folds

/-!
# The layout of a file

The declarations of a parsed file follow one another, and so do the parts of each. The comments are
put among them afterwards, and what is no comment stays where it is.

## Key results

- `Tree.plain_place`: without its comments, a tree with one more comment is the same
- `parse_laid`: the declarations of a file lie one behind the other
- `declarations_apart`: so no two of them start at the same offset
- `nodup_importSpecs`: nor do two import specifications
- `nodes_inside`: all nodes lie in the source but the comments and the root
- `SourceFile.tree_of_parse`: the tree of a file is what its source is parsed to
-/

namespace Interlace.Syntax

/-! ## Trees without comments -/

mutual

/-- The tree without its comments. -/
def Tree.plain : Tree → Tree
  | .node k f s e cs => .node k f s e (plainAll cs)

/-- The trees that are no comments, without theirs. -/
def plainAll : List Tree → List Tree
  | [] => []
  | t :: ts => if t.kind = .comment then plainAll ts else t.plain :: plainAll ts

end

namespace Tree

@[simp] theorem kind_plain (t : Tree) : t.plain.kind = t.kind := by
  cases t
  rfl

@[simp] theorem start_plain (t : Tree) : t.plain.start = t.start := by
  cases t
  rfl

@[simp] theorem stop_plain (t : Tree) : t.plain.stop = t.stop := by
  cases t
  rfl

@[simp] theorem field_plain (t : Tree) : t.plain.field = t.field := by
  cases t
  rfl

theorem children_plain (t : Tree) : t.plain.children = plainAll t.children := by
  cases t
  rfl

end Tree

theorem plainAll_eq (ts : List Tree) :
    plainAll ts = (ts.filter (·.kind ≠ .comment)).map Tree.plain := by
  induction ts with
  | nil => rfl
  | cons t ts ih =>
    rw [plainAll]
    by_cases comment : t.kind = .comment
    · simp [comment, ih]
    · simp [comment, ih]

private theorem plainAll_cons_comment (start stop : Nat) (ts : List Tree) :
    plainAll (Tree.leaf .comment start stop :: ts) = plainAll ts :=
  rfl

mutual

/-- A comment leaves everything else where it is. -/
theorem Tree.plain_place (start stop : Nat) : (t : Tree) → (t.place start stop).plain = t.plain
  | .node k f s e cs => by
    rw [Tree.place, Tree.plain, Tree.plain, plainAll_placeAmong]

private theorem plainAll_placeAmong (start stop : Nat) : (ts : List Tree) →
    plainAll (Tree.placeAmong start stop ts) = plainAll ts
  | [] => rfl
  | .node k f s e cs :: ts => by
    rw [Tree.placeAmong]
    split
    · rw [plainAll_cons_comment]
    split
    · rw [plainAll, plainAll, Tree.plain_place]
      rfl
    · rw [plainAll, plainAll, plainAll_placeAmong]

end

private theorem plain_foldl_place (comments : List (Nat × Nat)) (t : Tree) :
    (comments.foldl (fun t (start, stop) => t.place start stop) t).plain = t.plain := by
  induction comments generalizing t with
  | nil => rfl
  | cons c comments ih =>
    rw [List.foldl_cons, ih]
    exact t.plain_place c.1 c.2

namespace Tree

private theorem childrenOf_plain (t : Tree) {k : Kind} (h : k ≠ .comment) :
    t.plain.childrenOf k = (t.childrenOf k).map plain := by
  rw [childrenOf, children_plain, plainAll_eq, List.filter_map, List.filter_filter, childrenOf]
  congr 1
  refine List.filter_congr fun c _ => ?_
  by_cases same : c.kind = k <;> simp [same, h]

private theorem importSpecs_plain (t : Tree) : t.plain.importSpecs = t.importSpecs.map plain := by
  have specs : ∀ u : Tree, u.plain.childrenOf .importSpec = (u.childrenOf .importSpec).map plain :=
    fun u => u.childrenOf_plain (by decide)
  have lists : ∀ us : List Tree, (us.map plain).flatMap (childrenOf .importSpec) =
      (us.flatMap (childrenOf .importSpec)).map plain := by
    intro us
    rw [List.flatMap_map, List.map_flatMap]
    exact List.flatMap_congr fun u _ => specs u
  rw [importSpecs, specs, childrenOf_plain t (by decide), lists, importSpecs, List.map_append]

end Tree

/-! ## Order -/

variable {page : Page} {strict : Bool} {lo hi : Nat} {ts : List Tree}

mutual

private theorem Tree.Orderly.plain_eq : (t : Tree) → t.Orderly page → t.plain = t
  | .node _ _ _ _ cs, ⟨_, laid⟩ => by
    rw [Tree.plain, Laid.plainAll_eq cs laid]

/-- What was read has no comments to leave out. -/
theorem Laid.plainAll_eq : (ts : List Tree) → {strict : Bool} → {lo hi : Nat} →
    Laid page strict lo ts hi → plainAll ts = ts
  | [], _, _, _, _ => rfl
  | .node k f s e cs :: ts, _, _, _, ⟨_, _, inner, rest⟩ => by
    rw [plainAll, Tree.Orderly.plain_eq _ inner, Laid.plainAll_eq ts rest, if_neg]
    exact inner.takes.read

end

mutual

theorem Tree.Orderly.read : (t : Tree) → t.Orderly page → ∀ u ∈ t.preorder, u.kind ≠ .comment
  | .node _ _ _ _ cs, h => by
    rw [Tree.preorder]
    exact List.forall_mem_cons.2 ⟨h.takes.read, Laid.read cs h.2⟩

/-- What was read has no comments. -/
theorem Laid.read : (ts : List Tree) → {strict : Bool} → {lo hi : Nat} →
    Laid page strict lo ts hi → ∀ u ∈ Tree.preorderAll ts, u.kind ≠ .comment
  | [], _, _, _, _ => by simp [Tree.preorderAll]
  | t :: ts, _, _, _, ⟨_, _, inner, rest⟩ => by
    rw [Tree.preorderAll]
    exact List.forall_mem_append.2 ⟨Tree.Orderly.read t inner, Laid.read ts rest⟩

end

/-- Trees one behind the other between two offsets. -/
theorem Laid.apart (h : Laid page strict lo ts hi) :
    ts.Pairwise (fun a b => a.stop ≤ b.start) ∧
      ∀ t ∈ ts, lo ≤ t.start ∧ t.stop ≤ hi ∧ t.Orderly page ∧
        (t.Stands page ∨ strict = false ∧ t.kind.isPiece) := by
  induction ts generalizing lo with
  | nil => exact ⟨.nil, nofun⟩
  | cons t ts ih =>
    obtain ⟨low, stands, inner, rest⟩ := h
    obtain ⟨apart, inside⟩ := ih rest
    have le := Tree.Orderly.le t inner
    refine ⟨List.pairwise_cons.2 ⟨fun u hu => (inside u hu).1, apart⟩, ?_⟩
    refine List.forall_mem_cons.2 ⟨⟨low, rest.le_of_laid, inner, stands⟩, fun u hu => ?_⟩
    obtain ⟨low', rest'⟩ := inside u hu
    exact ⟨by omega, rest'⟩

/-- The declarations of a file lie one behind the other. -/
theorem parse_laid {source : Text} {tree : Tree} (h : parse? source = some tree) :
    ∃ hi ≤ source.length, Laid source true 0 (plainAll tree.children) hi := by
  unfold parse? at h
  split at h
  · cases h
  · rename_i items comments read
    obtain ⟨hi, bound, laid⟩ := fileParser_laid read
    cases h
    have plain := plain_foldl_place comments (.node .sourceFile none 0 source.length items)
    have same := congrArg Tree.children plain
    rw [Tree.children_plain, Tree.children_plain] at same
    refine ⟨hi, bound, ?_⟩
    show Laid source true 0 (plainAll (Tree.children (comments.foldl _ _))) hi
    rw [same]
    show Laid source true 0 (plainAll items) hi
    rw [Laid.plainAll_eq items laid]
    exact laid.recomment items nofun

/-- The declarations of a file follow one another, and none is empty. -/
theorem declarations_apart {source : Text} {tree : Tree} (h : parse? source = some tree) :
    (tree.children.filter (·.kind ≠ .comment)).Pairwise (fun a b => a.stop ≤ b.start) ∧
      ∀ t ∈ tree.children, t.kind ≠ .comment →
        t.start < t.stop ∧ t.stop ≤ source.length ∧ t.plain.Orderly source := by
  obtain ⟨hi, bound, laid⟩ := parse_laid h
  obtain ⟨apart, inside⟩ := laid.apart
  rw [plainAll_eq] at apart inside
  refine ⟨by simpa [List.pairwise_map] using apart, fun t ht other => ?_⟩
  obtain ⟨-, high, orderly, stands⟩ := inside t.plain
    (List.mem_map_of_mem (List.mem_filter.2 ⟨ht, decide_eq_true other⟩))
  obtain ⟨-, wide⟩ := stands.resolve_right nofun
  rw [Tree.stop_plain] at high
  exact ⟨by simpa using wide, Nat.le_trans high bound, orderly⟩

/-! ## Nodes -/

/-- The nodes are of one kind, play one part and have one range. -/
structure Tree.Alike (t u : Tree) : Prop where
  kind : u.kind = t.kind
  field : u.field = t.field
  start : u.start = t.start
  stop : u.stop = t.stop

theorem Tree.Alike.refl (t : Tree) : t.Alike t :=
  ⟨rfl, rfl, rfl, rfl⟩

theorem Tree.Alike.trans {t u v : Tree} (h' : u.Alike v) (h : t.Alike u) : t.Alike v :=
  ⟨h'.kind.trans h.kind, h'.field.trans h.field, h'.start.trans h.start, h'.stop.trans h.stop⟩

/-- The node is a comment, which plays no part in its parent. -/
def Tree.IsComment (t : Tree) : Prop :=
  t.kind = .comment ∧ t.field = none

/-- What is there after a comment was put into a tree: the comment, and nodes that were there. -/
def AddsComment (old new : List Tree) : Prop :=
  ∀ u ∈ new, u.IsComment ∨ ∃ v ∈ old, v.Alike u

theorem AddsComment.cons {old new : List Tree} (h : AddsComment old new) {t u : Tree}
    (alike : t.Alike u) : AddsComment (t :: old) (u :: new) := by
  refine List.forall_mem_cons.2 ⟨.inr ⟨t, List.mem_cons_self, alike⟩, fun w hw => ?_⟩
  exact (h w hw).imp_right fun ⟨v, hv, same⟩ => ⟨v, List.mem_cons_of_mem t hv, same⟩

theorem AddsComment.append {old old' new new' : List Tree} (h : AddsComment old new)
    (h' : AddsComment old' new') : AddsComment (old ++ old') (new ++ new') := by
  refine List.forall_mem_append.2 ⟨fun u hu => ?_, fun u hu => ?_⟩
  · exact (h u hu).imp_right fun ⟨v, hv, same⟩ => ⟨v, List.mem_append_left _ hv, same⟩
  · exact (h' u hu).imp_right fun ⟨v, hv, same⟩ => ⟨v, List.mem_append_right _ hv, same⟩

theorem AddsComment.refl (old : List Tree) : AddsComment old old :=
  fun u hu => .inr ⟨u, hu, .refl u⟩

mutual

private theorem Tree.preorder_place (start stop : Nat) : (t : Tree) →
    AddsComment t.preorder (t.place start stop).preorder
  | .node k f s e cs => by
    rw [Tree.place, Tree.preorder, Tree.preorder]
    exact (preorderAll_placeAmong start stop cs).cons ⟨rfl, rfl, rfl, rfl⟩

theorem preorderAll_placeAmong (start stop : Nat) : (ts : List Tree) →
    AddsComment (Tree.preorderAll ts) (Tree.preorderAll (Tree.placeAmong start stop ts))
  | [] => by
    rw [Tree.placeAmong]
    exact List.forall_mem_singleton.2 (.inl ⟨rfl, rfl⟩)
  | .node k f s e cs :: ts => by
    rw [Tree.placeAmong]
    split
    · exact List.forall_mem_cons.2 ⟨.inl ⟨rfl, rfl⟩, AddsComment.refl _⟩
    split
    · exact (Tree.preorder_place start stop _).append (.refl _)
    · exact (AddsComment.refl _).append (preorderAll_placeAmong start stop ts)

end

theorem preorder_foldl_place (comments : List (Nat × Nat)) (t : Tree) :
    AddsComment t.preorder
      (comments.foldl (fun t (start, stop) => t.place start stop) t).preorder := by
  refine foldl_keeps (K := fun u : Tree => AddsComment t.preorder u.preorder)
    (fun u c _ h w hw => ?_) (.refl _)
  obtain comment | ⟨v, hv, same⟩ := Tree.preorder_place c.1 c.2 u w hw
  · exact .inl comment
  · refine (h v hv).imp (fun ⟨kind, field⟩ => ⟨same.kind.trans kind, same.field.trans field⟩) ?_
    exact fun ⟨v', hv', same'⟩ => ⟨v', hv', same.trans same'⟩

mutual

theorem Tree.Orderly.inside : (t : Tree) → t.Orderly page →
    ∀ u ∈ t.preorder, t.start ≤ u.start ∧ u.start ≤ u.stop ∧ u.stop ≤ t.stop
  | .node _ _ _ _ cs, h => by
    rw [Tree.preorder]
    refine List.forall_mem_cons.2 ⟨⟨Nat.le_refl _, Tree.Orderly.le _ h, Nat.le_refl _⟩, ?_⟩
    exact Laid.inside cs h.2

/-- All nodes of trees that are laid lie between the two offsets. -/
theorem Laid.inside : (ts : List Tree) → {strict : Bool} → {lo hi : Nat} →
    Laid page strict lo ts hi →
    ∀ u ∈ Tree.preorderAll ts, lo ≤ u.start ∧ u.start ≤ u.stop ∧ u.stop ≤ hi
  | [], _, _, _, _ => nofun
  | t :: ts, _, _, _, ⟨low, _, inner, rest⟩ => by
    rw [Tree.preorderAll]
    have le := Tree.Orderly.le t inner
    have high := rest.le_of_laid
    refine List.forall_mem_append.2 ⟨fun u hu => ?_, fun u hu => ?_⟩
    · have := Tree.Orderly.inside t inner u hu
      omega
    · have := Laid.inside ts rest u hu
      omega

end

theorem Tree.preorder_eq (t : Tree) : t.preorder = t :: preorderAll t.children := by
  cases t
  rw [Tree.preorder]
  rfl

theorem preorder_subset_of_mem {t : Tree} (h : t ∈ ts) :
    t.preorder ⊆ Tree.preorderAll ts := by
  induction ts with
  | nil => cases h
  | cons u ts ih =>
    rw [Tree.preorderAll]
    rcases List.mem_cons.1 h with rfl | later
    · exact List.subset_append_left _ _
    · exact List.Subset.trans (ih later) (List.subset_append_right _ _)

/-- What is below a child is below the node. -/
theorem mem_preorderAll_of_child {t child u : Tree} (h : child ∈ t.children)
    (hu : u ∈ child.preorder) : u ∈ Tree.preorderAll t.children :=
  preorder_subset_of_mem h hu

mutual

theorem Site.below_preorderAt : (t : Tree) → (above : List Tree) →
    ∀ site ∈ Site.preorderAt above t,
      Tree.preorderAll site.node.children ⊆ Tree.preorderAll t.children
  | .node k f s e cs, above => by
    rw [Site.preorderAt]
    exact List.forall_mem_cons.2 ⟨List.Subset.refl _, Site.below_preorderBelow cs _⟩

/-- What is below a place in a tree is below the root. -/
private theorem Site.below_preorderBelow : (ts : List Tree) → (above : List Tree) →
    ∀ site ∈ Site.preorderBelow above ts,
      Tree.preorderAll site.node.children ⊆ Tree.preorderAll ts
  | [], _ => nofun
  | t :: ts, above => by
    rw [Site.preorderBelow, Tree.preorderAll]
    refine List.forall_mem_append.2 ⟨fun site hs => ?_, fun site hs => ?_⟩
    · refine List.Subset.trans (Site.below_preorderAt t above site hs) ?_
      rw [t.preorder_eq]
      exact List.subset_append_of_subset_left _ (List.subset_cons_self _ _)
    · exact List.Subset.trans (Site.below_preorderBelow ts above site hs)
        (List.subset_append_right _ _)

end

/-- Every node of a file but its comments and its root lies in the text. -/
theorem nodes_inside {source : Text} {tree : Tree} (h : parse? source = some tree) :
    ∀ u ∈ Tree.preorderAll tree.children,
      u.IsComment ∨ u.start ≤ u.stop ∧ u.stop ≤ source.length := by
  unfold parse? at h
  split at h
  · cases h
  · rename_i items comments read
    obtain ⟨hi, bound, laid⟩ := fileParser_laid read
    cases h
    intro u hu
    -- Putting comments in moves no node, so each lies where it was read.
    have below : ∀ t : Tree, ∀ u ∈ Tree.preorderAll t.children, u ∈ t.preorder := by
      rintro ⟨k, f, s, e, cs⟩ u hu
      exact List.mem_cons_of_mem _ hu
    refine (preorder_foldl_place comments _ u (below _ u hu)).imp_right fun ⟨v, hv, same⟩ => ?_
    rw [same.start, same.stop]
    rcases List.mem_cons.1 hv with rfl | hv
    · exact ⟨Nat.zero_le _, Nat.le_refl _⟩
    · have := Laid.inside items laid v hv
      omega

/-! ## Import specifications -/

/-- What lies in trees that lie apart starts at different offsets if it does so in each tree. -/
private theorem nodup_starts_flatMap {f : Tree → List Tree}
    (apart : ts.Pairwise fun a b => a.stop ≤ b.start)
    (inside : ∀ t ∈ ts, ∀ u ∈ f t, t.start ≤ u.start ∧ u.start < t.stop)
    (each : ∀ t ∈ ts, ((f t).map Tree.start).Nodup) : ((ts.flatMap f).map Tree.start).Nodup := by
  induction ts with
  | nil => exact .nil
  | cons t ts ih =>
    obtain ⟨first, rest⟩ := List.pairwise_cons.1 apart
    obtain ⟨here, later⟩ := List.forall_mem_cons.1 inside
    obtain ⟨nodup, others⟩ := List.forall_mem_cons.1 each
    rw [List.flatMap_cons, List.map_append, List.nodup_append]
    refine ⟨nodup, ih rest later others, ?_⟩
    rintro _ ha _ hb rfl
    obtain ⟨u, hu, same⟩ := List.mem_map.1 ha
    obtain ⟨v, hv, rfl⟩ := List.mem_map.1 hb
    obtain ⟨t', ht', hv⟩ := List.mem_flatMap.1 hv
    -- Two with one start would lie in two trees at once.
    have := first t' ht'
    have := here u hu
    have := later t' ht' v hv
    omega

private theorem nodup_starts (apart : ts.Pairwise fun a b => a.stop ≤ b.start)
    (wide : ∀ t ∈ ts, t.start < t.stop) : (ts.map Tree.start).Nodup := by
  have single := nodup_starts_flatMap (f := fun t => [t]) apart
    (fun t ht u hu => by
      obtain rfl := List.mem_singleton.1 hu
      exact ⟨Nat.le_refl _, wide u ht⟩)
    fun t _ => List.pairwise_singleton _ _
  simpa using single

/-- The children of a kind, unless they are pieces of a string, follow one another. -/
theorem Tree.Orderly.childrenOf {t : Tree} {k : Kind} (h : t.Orderly page)
    (whole : k.isPiece = false) :
    (t.childrenOf k).Pairwise (fun a b => a.stop ≤ b.start) ∧
      ∀ c ∈ t.childrenOf k, t.start ≤ c.start ∧ c.start < c.stop ∧ c.stop ≤ t.stop ∧
        c.Orderly page := by
  cases t with
  | node k' f s e cs =>
    obtain ⟨apart, inside⟩ := Laid.apart h.2
    refine ⟨apart.filter _, fun c listed => ?_⟩
    obtain ⟨child, kind⟩ := List.mem_filter.1 listed
    obtain ⟨low, high, orderly, stands⟩ := inside c child
    rw [← of_decide_eq_true kind] at whole
    obtain ⟨-, wide⟩ := stands.resolve_right fun piece => by simp [whole] at piece
    exact ⟨low, wide, high, orderly⟩

/-- Children of different kinds lie apart. -/
theorem Tree.Orderly.apart {t : Tree} (h : t.Orderly page) :
    ∀ a ∈ t.children, ∀ b ∈ t.children,
      a.kind = b.kind ∨ a.stop ≤ b.start ∨ b.stop ≤ a.start := by
  cases t with
  | node k f s e cs =>
    obtain ⟨apart, -⟩ := Laid.apart h.2
    exact List.Pairwise.forall_of_forall_of_flip (fun a _ => .inl rfl)
      (apart.imp fun low => .inr (.inl low)) (apart.imp fun low => .inr (.inr low))

/-- The import specifications of an orderly declaration lie within it and start at different
offsets. -/
theorem Tree.Orderly.importSpecs {t : Tree} (h : t.Orderly page) :
    (t.importSpecs.map Tree.start).Nodup ∧
      ∀ spec ∈ t.importSpecs, t.start ≤ spec.start ∧ spec.start < t.stop := by
  obtain ⟨own_apart, own⟩ := h.childrenOf (k := .importSpec) rfl
  obtain ⟨lists_apart, lists⟩ := h.childrenOf (k := .importSpecList) rfl
  have listed : ∀ l ∈ t.childrenOf .importSpecList, _ := fun l hl =>
    (lists l hl).2.2.2.childrenOf (k := .importSpec) rfl
  constructor
  · rw [Tree.importSpecs, List.map_append, List.nodup_append]
    refine ⟨nodup_starts own_apart fun spec hs => (own spec hs).2.1, ?_, ?_⟩
    · refine nodup_starts_flatMap lists_apart (fun l hl spec hs => ?_) fun l hl => ?_
      · have := (listed l hl).2 spec hs
        omega
      · exact nodup_starts (listed l hl).1 fun spec hs => ((listed l hl).2 spec hs).2.1
    · -- A specification of its own and a list of others are different children.
      rintro _ single _ inner rfl
      obtain ⟨a, ha, same⟩ := List.mem_map.1 single
      obtain ⟨b, below, rfl⟩ := List.mem_map.1 inner
      obtain ⟨l, hl, hb⟩ := List.mem_flatMap.1 below
      obtain ⟨child, kind⟩ := List.mem_filter.1 ha
      obtain ⟨child', kind'⟩ := List.mem_filter.1 hl
      have := own a ha
      have := (listed l hl).2 b hb
      rcases h.apart a child l child' with alike | apart
      · rw [of_decide_eq_true kind, of_decide_eq_true kind'] at alike
        cases alike
      · omega
  · intro spec hs
    rcases List.mem_append.1 hs with hs | hs
    · have := own spec hs
      omega
    · obtain ⟨l, hl, hs⟩ := List.mem_flatMap.1 hs
      have := lists l hl
      have := (listed l hl).2 spec hs
      omega

/-- The import declarations of a file start at different offsets, and so do its import
specifications. -/
theorem nodup_importSpecs {source : Text} {tree : Tree} (h : parse? source = some tree) :
    ((tree.childrenOf .importDeclaration).map Tree.start).Nodup ∧
      (((tree.childrenOf .importDeclaration).flatMap Tree.importSpecs).map Tree.start).Nodup := by
  obtain ⟨apart, inside⟩ := declarations_apart h
  have fewer : (tree.childrenOf .importDeclaration).Sublist
      (tree.children.filter (·.kind ≠ .comment)) := by
    refine List.monotone_filter_right _ fun t kind => ?_
    rw [of_decide_eq_true kind]
    rfl
  have ordered := apart.sublist fewer
  have declared : ∀ d ∈ tree.childrenOf .importDeclaration,
      d.start < d.stop ∧ d.plain.Orderly source := by
    intro d hd
    obtain ⟨child, kind⟩ := List.mem_filter.1 hd
    obtain ⟨wide, -, orderly⟩ := inside d child (by rw [of_decide_eq_true kind]; nofun)
    exact ⟨wide, orderly⟩
  -- Comments aside, a declaration has the same specifications.
  have starts : ∀ d : Tree, d.plain.importSpecs.map Tree.start = d.importSpecs.map Tree.start := by
    intro d
    rw [d.importSpecs_plain, List.map_map]
    exact List.map_congr_left fun spec _ => spec.start_plain
  refine ⟨nodup_starts ordered fun d hd => (declared d hd).1,
    nodup_starts_flatMap ordered (fun d hd spec hs => ?_) fun d hd => ?_⟩
  · have within := (declared d hd).2.importSpecs.2 spec.plain
      (by rw [d.importSpecs_plain]; exact List.mem_map_of_mem hs)
    simpa using within
  · rw [← starts d]
    exact (declared d hd).2.importSpecs.1

end Interlace.Syntax

namespace Interlace

/-- The tree of a parsed file is that of its source, which ends the text it was parsed from. -/
theorem SourceFile.tree_of_parse {path text : Text} {file : SourceFile}
    (h : SourceFile.parse path text = .ok file) :
    Syntax.parse? file.source = some file.tree ∧ file.source <:+ text := by
  unfold parse at h
  split at h
  · cases h
  · unfold ofText at h
    cases led : leadingLine? text with
    | none =>
      rw [led] at h
      dsimp only at h
      split at h
      · cases h
      · rename_i tree parsed
        cases h
        exact ⟨parsed, List.suffix_refl _⟩
    | some both =>
      obtain ⟨directive, rest⟩ := both
      rw [led] at h
      dsimp only at h
      split at h
      · cases h
      · rename_i tree parsed
        cases h
        refine ⟨parsed, ?_⟩
        -- What is left is the text behind the line of the directive.
        unfold leadingLine? at led
        split at led
        · obtain ⟨_, _, eq⟩ := Option.map_eq_some_iff.1 led
          cases eq
          exact List.drop_suffix _ _
        · cases led

end Interlace
