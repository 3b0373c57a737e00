import Interlace.Proofs.FileLayout
import Interlace.Proofs.WalkSteps

/-!
# Places in source order

The walk through the scopes comes to the places of a file in the order of the source, but for a few
parts that come first: the right side of a range, and the values of a switch. No two names of a file
start at one offset.

## Key results

- `Tree.Arranged`: the parts of a node lie one behind the other, comments aside
- `arranged_of_parse`: the tree of a parsed file is arranged
- `Site.Holds.comparable`: of two places that start at one offset, one holds the other
- `Site.LeadsTo`: the places that the walk comes to
- `Site.scopeAbove_of_holds`: the innermost scope around a place further down
- `Tree.Arranged.precedes`: the order of what the walk does at a node
-/

namespace Interlace.Syntax

variable {source : Text} {t c : Tree}

/-! ## Arranged trees -/

/-- Comments aside, the parts of the node lie one behind the other, and so do theirs. -/
structure Tree.Arranged (source : Text) (t : Tree) : Prop where
  laid : ∃ strict lo hi, Laid source strict lo (plainAll t.children) hi
  /-- Comments play no part. -/
  comments : ∀ c ∈ Tree.preorderAll t.children, c.kind = .comment → c.field = none

/-- The node itself is more than a comment, and what is in it lies within it. -/
structure Tree.Fits (source : Text) (t : Tree) : Prop where
  orderly : t.plain.Orderly source
  wide : t.kind.isPiece = false → t.start < t.stop
  comments : ∀ c ∈ Tree.preorderAll t.children, c.kind = .comment → c.field = none

namespace Tree

theorem Fits.laid (h : t.Fits source) :
    Laid source t.kind.isStrict t.start (plainAll t.children) t.stop := by
  have orderly := h.orderly
  cases t
  exact orderly.2

theorem Fits.arranged (h : t.Fits source) : t.Arranged source :=
  ⟨⟨_, _, _, h.laid⟩, h.comments⟩

theorem Fits.le (h : t.Fits source) : t.start ≤ t.stop :=
  h.laid.le_of_laid

/-- A name holds nothing but comments. -/
theorem Fits.comments_of_name (h : t.Fits source) (name : t.kind = .identifier) :
    ∀ c ∈ t.children, c.kind = .comment := by
  have orderly := h.orderly
  cases t with
  | node k f s e cs =>
    have none_left : plainAll cs = [] := orderly.takes.bare name
    rw [plainAll_eq, List.map_eq_nil_iff, List.filter_eq_nil_iff] at none_left
    exact fun c hc => by simpa using none_left c hc

/-- The parts of a node lie one behind the other. -/
theorem Arranged.apart (h : t.Arranged source) :
    t.children.Pairwise fun a b => a.kind ≠ .comment → b.kind ≠ .comment → a.stop ≤ b.start := by
  obtain ⟨strict, lo, hi, laid⟩ := h.laid
  obtain ⟨apart, -⟩ := laid.apart
  rw [plainAll_eq, List.pairwise_map, List.pairwise_filter] at apart
  exact apart.imp fun order a b => by simpa using order (by simpa using a) (by simpa using b)

/-- Different parts lie apart. -/
theorem Arranged.eq_or_apart (h : t.Arranged source) :
    ∀ a ∈ t.children, ∀ b ∈ t.children, a.kind ≠ .comment → b.kind ≠ .comment →
      a = b ∨ a.stop ≤ b.start ∨ b.stop ≤ a.start :=
  List.Pairwise.forall_of_forall_of_flip (fun _ _ _ _ => .inl rfl)
    (h.apart.imp fun low a b => .inr (.inl (low a b)))
    (h.apart.imp fun low b a => .inr (.inr (low a b)))

theorem Arranged.fits (h : t.Arranged source) (child : c ∈ t.children) (read : c.kind ≠ .comment) :
    c.Fits source := by
  obtain ⟨strict, lo, hi, laid⟩ := h.laid
  have listed : c.plain ∈ plainAll t.children := by
    rw [plainAll_eq]
    exact List.mem_map_of_mem (List.mem_filter.2 ⟨child, decide_eq_true read⟩)
  obtain ⟨-, -, orderly, stands⟩ := laid.apart.2 c.plain listed
  refine ⟨orderly, fun whole => ?_, fun u hu => h.comments u ?_⟩
  · -- A part is wide or a piece of a token, and the root is neither.
    rcases stands with ⟨-, wide⟩ | ⟨-, piece⟩
    · simpa using wide
    · rw [kind_plain, whole] at piece
      cases piece
  · refine mem_preorderAll_of_child child ?_
    rw [c.preorder_eq]
    exact List.mem_cons_of_mem c hu

/-- The parts of a node lie within it. -/
theorem Fits.inside (h : t.Fits source) (child : c ∈ t.children) (read : c.kind ≠ .comment) :
    t.start ≤ c.start ∧ c.stop ≤ t.stop := by
  have listed : c.plain ∈ plainAll t.children := by
    rw [plainAll_eq]
    exact List.mem_map_of_mem (List.mem_filter.2 ⟨child, decide_eq_true read⟩)
  obtain ⟨low, high, -⟩ := h.laid.apart.2 c.plain listed
  exact ⟨by simpa using low, by simpa using high⟩

/-- What plays a part is no comment. -/
theorem Arranged.read_of_field (h : t.Arranged source) (child : c ∈ t.children)
    (part : c.field ≠ none) : c.kind ≠ .comment := fun comment =>
  part (h.comments c (mem_preorderAll_of_child child (c.preorder_eq ▸ List.mem_cons_self)) comment)

theorem mem_children_of_child? {f : Field} (found : t.child? f = some c) :
    c ∈ t.children ∧ c.field = some f :=
  ⟨List.mem_of_find?_eq_some found, by simpa using List.find?_some found⟩

theorem Arranged.read_of_child? (h : t.Arranged source) {f : Field} (found : t.child? f = some c) :
    c.kind ≠ .comment := by
  obtain ⟨child, part⟩ := mem_children_of_child? found
  exact h.read_of_field child (by simp [part])

end Tree

/-- The tree of a parsed file is arranged. -/
theorem arranged_of_parse {tree : Tree} (parsed : parse? source = some tree) :
    tree.Arranged source := by
  obtain ⟨hi, -, laid⟩ := parse_laid parsed
  refine ⟨⟨_, _, _, laid⟩, fun u hu comment => ?_⟩
  unfold parse? at parsed
  split at parsed
  · cases parsed
  · rename_i items comments read
    obtain ⟨hi, -, bare⟩ := fileParser_laid read
    cases parsed
    have placed := preorder_foldl_place comments (Tree.node .sourceFile none 0 source.length items)
    rw [Tree.preorder_eq (List.foldl _ _ _)] at placed
    obtain ⟨-, part⟩ | ⟨v, hv, alike⟩ := placed u (List.mem_cons_of_mem _ hu)
    · exact part
    · -- No other node is a comment.
      rw [alike.kind] at comment
      rcases List.mem_cons.1 hv with rfl | hv
      · cases comment
      · exact absurd comment (Laid.read items bare v hv)

/-! ## Places in a tree -/

namespace Site

variable {s d u v : Site}

/-- The place of a child, or of one further down. -/
def below (s : Site) (between : List Tree) (c : Tree) : Site :=
  ⟨c, between ++ s.node :: s.ancestors⟩

/-- The node with everything around it. -/
def line (s : Site) : List Tree :=
  s.node :: s.ancestors

/-- A place holds itself and all that is further down. -/
inductive Holds : Site → Site → Prop
  | refl (s : Site) : Holds s s
  | child {s d : Site} {c : Tree} : c ∈ s.node.children → Holds (s.below [] c) d → Holds s d

namespace Holds

theorem trans (h : s.Holds u) (h' : u.Holds d) : s.Holds d := by
  induction h with
  | refl => exact h'
  | child listed _ ih => exact .child listed (ih h')

theorem line_suffix (h : s.Holds d) : s.line <:+ d.line := by
  induction h with
  | refl => exact List.suffix_refl _
  | child _ _ ih => exact (List.suffix_cons _ _).trans ih

/-- What a place holds is the place itself or has it around it. -/
theorem eq_or_suffix (h : s.Holds d) : d = s ∨ s.line <:+ d.ancestors := by
  cases h with
  | refl => exact .inl rfl
  | child _ h =>
    refine .inr ?_
    have suffix := h.line_suffix
    rcases List.suffix_cons_iff.1 suffix with same | inside
    · obtain ⟨-, same⟩ := List.cons.inj same
      exact same ▸ List.suffix_refl _
    · exact (List.suffix_cons _ _).trans inside

end Holds

mutual

private theorem holds_of_preorderAt : (t : Tree) → (above : List Tree) →
    ∀ d ∈ preorderAt above t, Holds ⟨t, above⟩ d
  | .node k f s e cs, above => by
    rw [preorderAt]
    refine List.forall_mem_cons.2 ⟨.refl _, fun d hd => ?_⟩
    obtain ⟨c, hc, holds⟩ := holds_of_preorderBelow cs _ d hd
    exact .child hc holds

private theorem holds_of_preorderBelow : (ts : List Tree) → (above : List Tree) →
    ∀ d ∈ preorderBelow above ts, ∃ t ∈ ts, Holds ⟨t, above⟩ d
  | [], _, d, hd => by cases hd
  | t :: ts, above, d, hd => by
    rw [preorderBelow, List.mem_append] at hd
    rcases hd with first | later
    · exact ⟨t, List.mem_cons_self, holds_of_preorderAt t above d first⟩
    · obtain ⟨u, hu, holds⟩ := holds_of_preorderBelow ts above d later
      exact ⟨u, List.mem_cons_of_mem t hu, holds⟩

end

private theorem mem_preorderBelow {above ts : List Tree} {c : Tree} (listed : c ∈ ts)
    (h : d ∈ preorderAt above c) : d ∈ preorderBelow above ts := by
  induction ts with
  | nil => cases listed
  | cons t ts ih =>
    rw [preorderBelow]
    rcases List.mem_cons.1 listed with rfl | later
    · exact List.mem_append_left _ h
    · exact List.mem_append_right _ (ih later)

private theorem Holds.mem_preorderAt (h : s.Holds d) : d ∈ preorderAt s.ancestors s.node := by
  induction h with
  | refl s =>
    obtain ⟨⟨k, f, lo, hi, cs⟩, above⟩ := s
    rw [preorderAt]
    exact List.mem_cons_self
  | @child s d c listed _ ih =>
    obtain ⟨⟨k, f, lo, hi, cs⟩, above⟩ := s
    rw [preorderAt]
    exact List.mem_cons_of_mem _ (mem_preorderBelow listed ih)

/-- The places of a tree are those that its root holds. -/
theorem mem_sites_iff {tree : Tree} : d ∈ tree.sites ↔ Holds ⟨tree, []⟩ d :=
  ⟨holds_of_preorderAt tree [] d, Holds.mem_preorderAt⟩

/-- The place is not in a comment, nor one. -/
def IsRead (s : Site) : Prop :=
  ∀ a ∈ s.line, a.kind ≠ .comment

theorem IsRead.of_holds (read : d.IsRead) (h : s.Holds d) : s.IsRead :=
  fun a ha => read a (h.line_suffix.subset ha)

/-- What is further down lies within the node. -/
theorem Fits.holds (fits : s.node.Fits source) (h : s.Holds d) (read : d.IsRead) :
    d.node.Fits source ∧ s.node.start ≤ d.node.start ∧ d.node.stop ≤ s.node.stop := by
  induction h with
  | refl => exact ⟨fits, Nat.le_refl _, Nat.le_refl _⟩
  | @child s d c listed h ih =>
    have plain : c.kind ≠ .comment := read.of_holds h c List.mem_cons_self
    obtain ⟨inner, low, high⟩ := ih (fits.arranged.fits listed plain) read
    obtain ⟨low', high'⟩ := fits.inside listed plain
    exact ⟨inner, Nat.le_trans low' low, Nat.le_trans high high'⟩

/-- Of two places that start at one offset and are not empty, one holds the other. -/
theorem Holds.comparable (arranged : s.node.Arranged source) (hu : s.Holds u) (hv : s.Holds v)
    (readu : u.IsRead) (readv : v.IsRead) (same : u.node.start = v.node.start)
    (wideu : u.node.start < u.node.stop) (widev : v.node.start < v.node.stop) :
    u.Holds v ∨ v.Holds u := by
  induction hu with
  | refl => exact .inl hv
  | @child s u a ha hu ih =>
    cases hv with
    | refl => exact .inr (.child ha hu)
    | @child _ _ b hb hv =>
      have plaina : a.kind ≠ .comment := readu.of_holds hu a List.mem_cons_self
      have plainb : b.kind ≠ .comment := readv.of_holds hv b List.mem_cons_self
      have fitsa := arranged.fits ha plaina
      have fitsb := arranged.fits hb plainb
      -- Both are below one part, or below two that lie apart and then cannot start alike.
      rcases arranged.eq_or_apart a ha b hb plaina plainb with rfl | apart
      · exact ih fitsa.arranged hv readu same wideu
      · obtain ⟨-, lowa, higha⟩ : _ ∧ a.start ≤ u.node.start ∧ u.node.stop ≤ a.stop :=
          Fits.holds fitsa hu readu
        obtain ⟨-, lowb, highb⟩ : _ ∧ b.start ≤ v.node.start ∧ v.node.stop ≤ b.stop :=
          Fits.holds fitsb hv readv
        omega

end Site

/-! ## Where the walk goes -/

variable {between : List Tree} {inFunction : Bool} {ts names : List Tree}

@[simp] theorem visit_mem_visits :
    WalkStep.visit between c ∈ Tree.visits ts ↔ between = [] ∧ c ∈ ts := by
  simp [Tree.visits, eq_comm, and_left_comm]

@[simp] theorem visit_mem_declares :
    WalkStep.visit between c ∈ names.map WalkStep.declare ↔ False := by
  simp

namespace Tree

private theorem mem_children_of_named (h : c ∈ t.namedChildren) : c ∈ t.children :=
  (List.mem_filter.1 h).1

/-- The walk goes to children of the node, or to those of the body of a function. -/
theorem visit_cases (h : WalkStep.visit between c ∈ t.walkSteps inFunction) :
    (between = [] ∧ c ∈ t.children) ∨ t.kind.isFunction ∧
      ∃ body, t.child? .body = some body ∧ between = [body] ∧ c ∈ body.children := by
  have part {f : Field} (found : t.child? f = some c) : c ∈ t.children :=
    (mem_children_of_child? found).1
  unfold walkSteps at h
  split at h
  -- Only a function passes by a child of its own, the body.
  case h_1 kind | h_2 kind | h_3 kind =>
    rcases List.mem_append.1 h with declared | visited
    · exact (visit_mem_declares.1 declared).elim
    · obtain ⟨body, found, listed⟩ := List.mem_flatMap.1 visited
      obtain ⟨u, inBody, eq⟩ := List.mem_map.1 listed
      cases eq
      refine .inr ⟨by rw [kind]; rfl, body, Option.mem_toList.1 found, rfl, ?_⟩
      exact mem_children_of_named inBody
  case h_4 =>
    simp only [List.mem_append, visit_mem_visits, visit_mem_declares, or_false,
      Option.mem_toList] at h
    obtain (⟨rfl, found⟩ | ⟨rfl, found⟩) | ⟨rfl, listed⟩ := h
    · exact .inl ⟨rfl, part found⟩
    · exact .inl ⟨rfl, part found⟩
    · exact .inl ⟨rfl, mem_children_of_named (List.mem_filter.1 listed).1⟩
  case h_5 | h_7 =>
    simp only [List.mem_append, visit_mem_visits, visit_mem_declares, or_false,
      Option.mem_toList] at h
    exact .inl ⟨h.1, part h.2⟩
  case h_6 =>
    rw [List.mem_append] at h
    rcases h with right | left
    · simp only [visit_mem_visits, Option.mem_toList] at right
      exact .inl ⟨right.1, part right.2⟩
    · split at left
      · exact (visit_mem_declares.1 left).elim
      · simp only [visit_mem_visits, Option.mem_toList] at left
        exact .inl ⟨left.1, part left.2⟩
  -- The key of an element is left out if it is an identifier.
  case h_8 =>
    cases named : t.namedChildren with
    | nil =>
      rw [named] at h
      cases h
    | cons key rest =>
      rw [named] at h
      have listed : between = [] ∧ c ∈ key :: rest := by
        dsimp only at h
        split at h
        · exact (visit_mem_visits.1 h).imp_right (List.mem_cons_of_mem key)
        · exact visit_mem_visits.1 h
      exact .inl ⟨listed.1, mem_children_of_named (named ▸ listed.2)⟩
  case h_9 | h_10 => simp at h
  case h_11 | h_12 | h_13 => cases h
  case h_14 | h_15 =>
    split at h
    · simp only [List.mem_append, visit_mem_visits, visit_mem_declares, or_false,
        Option.mem_toList] at h
      exact .inl ⟨h.1, part h.2⟩
    · exact .inl ((visit_mem_visits.1 h).imp_right mem_children_of_named)
  case h_16 | h_17 =>
    split at h
    · exact (visit_mem_declares.1 h).elim
    · exact .inl ((visit_mem_visits.1 h).imp_right mem_children_of_named)
  case h_18 => exact .inl ((visit_mem_visits.1 h).imp_right mem_children_of_named)

/-- Only names are looked up. -/
theorem kind_of_look :
    (WalkStep.look ∈ t.walkSteps inFunction → t.kind = .identifier) ∧
      (WalkStep.qualify ∈ t.walkSteps inFunction → t.kind = .packageIdentifier) := by
  unfold walkSteps
  split
  case h_9 kind => simp [kind]
  case h_10 kind => simp [kind]
  all_goals repeat' split
  all_goals simp [visits]

end Tree

/-- The one can come before the other when the walk is at a node. Names that are in scope in a part
of the node are declared before the walk goes there, and it goes on in the order of the source but
to operands and to what opens a scope. -/
def WalkStep.Precedes (t : Tree) : WalkStep → WalkStep → Prop
  | .visit between c, .visit between' c' => between = between' ∧
    (c.kind ≠ .comment → c'.kind ≠ .comment →
      c.stop ≤ c'.start ∨ c'.isOperand ∨ c'.kind.opensScope)
  | .visit _ c, .declare _ => t.kind.isFunction = false ∧ t.kind ≠ .typeSpec ∧
    t.kind ≠ .typeAlias ∧ (t.kind = .typeSwitchStatement → c.field ≠ none)
  | _, _ => True

private theorem visits_precede (between : List Tree)
    (order : ts.Pairwise fun a b => a.kind ≠ .comment → b.kind ≠ .comment → a.stop ≤ b.start) :
    (ts.map (WalkStep.visit between)).Pairwise (WalkStep.Precedes t) :=
  List.pairwise_map.2 (order.imp fun low => ⟨rfl, fun a b => .inl (low a b)⟩)

private theorem part_precedes (f : Field) :
    (Tree.visits (t.child? f).toList).Pairwise (WalkStep.Precedes t) := by
  cases t.child? f with
  | none => exact .nil
  | some c => exact List.pairwise_singleton _ _

private theorem declares_precede (names : List Tree) (rest : List WalkStep)
    (order : rest.Pairwise (WalkStep.Precedes t)) :
    (names.map WalkStep.declare ++ rest).Pairwise (WalkStep.Precedes t) := by
  induction names with
  | nil => exact order
  | cons name names ih => exact List.pairwise_cons.2 ⟨fun _ _ => trivial, ih⟩

namespace Tree

private theorem Arranged.named_apart (h : t.Arranged source) : t.namedChildren.Pairwise
    fun a b => a.kind ≠ .comment → b.kind ≠ .comment → a.stop ≤ b.start :=
  h.apart.filter _

private theorem part_before_declares (f : Field)
    (kind : t.kind.isFunction = false ∧ t.kind ≠ .typeSpec ∧
    t.kind ≠ .typeAlias) : ∀ x ∈ visits (t.child? f).toList, ∀ y ∈ names.map WalkStep.declare,
      x.Precedes t y := by
  intro x hx y hy
  obtain ⟨c, found, rfl⟩ := List.mem_map.1 hx
  obtain ⟨name, -, rfl⟩ := List.mem_map.1 hy
  obtain ⟨-, part⟩ := mem_children_of_child? (Option.mem_toList.1 found)
  exact ⟨kind.1, kind.2.1, kind.2.2, fun _ => by simp [part]⟩

/-- What the walk goes to at a free time may come behind anything. -/
private theorem before_visits {us : List Tree}
    (free : ∀ u ∈ us, u.isOperand ∨ u.kind.opensScope) :
    ∀ x ∈ visits ts, ∀ y ∈ visits us, x.Precedes t y := by
  intro x hx y hy
  obtain ⟨c, -, rfl⟩ := List.mem_map.1 hx
  obtain ⟨u, hu, rfl⟩ := List.mem_map.1 hy
  exact ⟨rfl, fun _ _ => .inr (free u hu)⟩

/-- What the walk does at an arranged node comes in order. -/
theorem Arranged.precedes (h : t.Arranged source) (inFunction : Bool) :
    (t.walkSteps inFunction).Pairwise (WalkStep.Precedes t) := by
  have part (f : Field) := part_precedes (t := t) f
  have all := visits_precede (t := t) [] h.named_apart
  have declares (names : List Tree) :
      (names.map WalkStep.declare).Pairwise (WalkStep.Precedes t) := by
    simpa using declares_precede (t := t) names [] .nil
  unfold walkSteps
  split
  -- The names of parameters come first.
  case h_1 | h_2 | h_3 =>
    refine declares_precede _ _ ?_
    cases found : t.child? .body with
    | none => exact .nil
    | some body =>
      rw [Option.toList_some, List.flatMap_singleton]
      have fits := h.fits (mem_children_of_child? found).1 (h.read_of_child? found)
      exact visits_precede [body] fits.arranged.named_apart
  case h_4 kind =>
    have kinds : t.kind.isFunction = false ∧ t.kind ≠ .typeSpec ∧ t.kind ≠ .typeAlias := by
      simp [kind, Kind.isFunction]
    have clauses :
        ∀ c ∈ t.namedChildren.filter fun c => c.kind = .typeCase || c.kind = .defaultCase,
        c.isOperand ∨ c.kind.opensScope := by
      intro c hc
      have clause : c.kind = .typeCase ∨ c.kind = .defaultCase := by
        simpa using (List.mem_filter.1 hc).2
      refine .inr ?_
      rcases clause with clause | clause <;> rw [clause] <;> rfl
    have values : ∀ c ∈ (t.child? .value).toList, c.isOperand ∨ c.kind.opensScope := by
      intro c hc
      obtain ⟨-, part⟩ := mem_children_of_child? (Option.mem_toList.1 hc)
      exact .inl (by simp [isOperand, part])
    refine List.pairwise_append.2 ⟨List.pairwise_append.2 ⟨List.pairwise_append.2
      ⟨part _, part _, before_visits values⟩, declares _, ?_⟩, all.sublist ?_, ?_⟩
    · exact List.forall_mem_append.2
        ⟨part_before_declares _ kinds, part_before_declares _ kinds⟩
    · exact List.filter_sublist.map _
    · refine List.forall_mem_append.2 ⟨List.forall_mem_append.2
        ⟨before_visits clauses, before_visits clauses⟩, fun x hx y hy => ?_⟩
      obtain ⟨name, -, rfl⟩ := List.mem_map.1 hx
      trivial
  case h_5 kind =>
    exact List.pairwise_append.2
      ⟨part _, declares _, part_before_declares _ (by simp [kind, Kind.isFunction])⟩
  case h_6 kind =>
    refine List.pairwise_append.2 ⟨part _, ?_, ?_⟩
    · split
      · exact declares _
      · exact part _
    · split
      · exact part_before_declares _ (by simp [kind, Kind.isFunction])
      · refine before_visits fun c hc => ?_
        obtain ⟨-, part⟩ := mem_children_of_child? (Option.mem_toList.1 hc)
        exact .inl (by simp [isOperand, part])
  case h_7 => exact part _
  case h_8 =>
    have listed := h.named_apart
    split
    · exact .nil
    · rename_i key rest named
      rw [named] at listed
      split
      · exact visits_precede [] listed.tail
      · exact visits_precede [] listed
  case h_9 | h_10 => exact List.pairwise_singleton _ _
  case h_11 | h_12 | h_13 => exact .nil
  case h_14 kind | h_15 kind =>
    split
    · exact List.pairwise_append.2
        ⟨part _, declares _, part_before_declares _ (by simp [kind, Kind.isFunction])⟩
    · exact all
  case h_16 | h_17 =>
    split
    · exact declares _
    · exact all
  case h_18 => exact all

end Tree

namespace Site

variable {s d u v : Site}

/-- What the walk does at a place. -/
def walkSteps (s : Site) : List WalkStep :=
  s.node.walkSteps (s.ancestors.any (·.kind.opensScope))

/-- From the one place the walk comes to the other. -/
inductive LeadsTo : Site → Site → Prop
  | refl (s : Site) : LeadsTo s s
  | step {s d : Site} {between : List Tree} {c : Tree} :
      .visit between c ∈ s.walkSteps → LeadsTo (s.below between c) d → LeadsTo s d

/-- The walk goes downwards. -/
private theorem holds_of_visit (h : .visit between c ∈ s.walkSteps) :
    s.Holds (s.below between c) := by
  rcases Tree.visit_cases h with ⟨rfl, listed⟩ | ⟨-, body, found, rfl, listed⟩
  · exact .child listed (.refl _)
  · exact .child (Tree.mem_children_of_child? found).1 (.child listed (.refl _))

theorem LeadsTo.holds (h : s.LeadsTo d) : s.Holds d := by
  induction h with
  | refl => exact .refl _
  | step visited _ ih => exact (holds_of_visit visited).trans ih

/-- The walk does not go into comments. -/
theorem kind_of_visit (h : .visit between c ∈ s.walkSteps) :
    s.node.kind ≠ .comment ∧ s.node.kind ≠ .identifier ∧ s.node.kind ≠ .packageIdentifier := by
  refine ⟨fun kind => ?_, fun kind => ?_, fun kind => ?_⟩
  all_goals
    unfold walkSteps Tree.walkSteps at h
    simp [kind] at h

/-- Where the walk goes to, from an arranged node. -/
theorem fits_of_visit (arranged : s.node.Arranged source) (h : .visit between c ∈ s.walkSteps)
    (read : c.kind ≠ .comment) :
    c.Fits source ∧ ∀ a ∈ between, a.kind ≠ .comment := by
  rcases Tree.visit_cases h with ⟨rfl, listed⟩ | ⟨-, body, found, rfl, listed⟩
  · exact ⟨arranged.fits listed read, by simp⟩
  · have plain := arranged.read_of_child? found
    have fits := arranged.fits (Tree.mem_children_of_child? found).1 plain
    exact ⟨fits.arranged.fits listed read, by simpa using plain⟩

/-- The walk comes to no place inside a comment. -/
theorem LeadsTo.read (h : s.LeadsTo d) (arranged : s.node.Arranged source)
    (above : ∀ a ∈ s.ancestors, a.kind ≠ .comment) (plain : d.node.kind ≠ .comment) :
    d.IsRead := by
  induction h with
  | refl => exact List.forall_mem_cons.2 ⟨plain, above⟩
  | @step s d between c visited h ih =>
    by_cases read : c.kind = .comment
    · -- From a comment the walk goes nowhere.
      cases h with
      | refl => exact absurd read plain
      | step visited' _ => exact absurd read (kind_of_visit visited').1
    · obtain ⟨fits, passed⟩ := fits_of_visit arranged visited read
      refine ih fits.arranged (List.forall_mem_append.2 ⟨passed, ?_⟩) plain
      exact List.forall_mem_cons.2 ⟨(kind_of_visit visited).1, above⟩

/-! ## Scopes -/

private theorem scopeAbove_suffix (t : Tree) (above : List Tree) :
    scopeAbove t above <:+ above := by
  induction above generalizing t with
  | nil => exact List.suffix_refl _
  | cons a above ih =>
    rw [scopeAbove]
    split
    · exact List.nil_suffix
    · split
      · exact List.suffix_refl _
      · exact (ih a).trans (List.suffix_cons _ _)

theorem scopeAbove_of_isOperand {t : Tree} (operand : t.isOperand = true) (above : List Tree) :
    scopeAbove t above = [] := by
  cases above with
  | nil => rfl
  | cons a above => exact if_pos operand

/-- The innermost scope around a place that is further down is there too, or it is the one around
the place. -/
private theorem scope_of_holds (h : s.Holds d) :
    d = s ∨ d.scope = [] ∨ s.line <:+ d.scope ∨
      d.scope = s.scope ∧ s.node.kind.opensScope = false := by
  induction h with
  | refl => exact .inl rfl
  | @child s d c listed h ih =>
    -- The scope around a child is empty, the node, or the one around the node.
    have child : (s.below [] c).scope = [] ∨ (s.below [] c).scope = s.line ∨
        (s.below [] c).scope = s.scope ∧ s.node.kind.opensScope = false := by
      show scopeAbove c (s.node :: s.ancestors) = _ ∨ scopeAbove c (s.node :: s.ancestors) = _ ∨
        scopeAbove c (s.node :: s.ancestors) = _ ∧ _
      rw [scopeAbove]
      split
      · exact .inl rfl
      · split
        · exact .inr (.inl rfl)
        · rename_i closed
          exact .inr (.inr ⟨rfl, by simpa using closed⟩)
    refine .inr ?_
    rcases ih with rfl | none_there | inside | ⟨same, -⟩
    · rcases child with empty | here | above
      · exact .inl empty
      · exact .inr (.inl (here ▸ List.suffix_refl _))
      · exact .inr (.inr above)
    · exact .inl none_there
    · exact .inr (.inl ((List.suffix_cons _ _).trans inside))
    · rw [same]
      rcases child with empty | here | above
      · exact .inl empty
      · exact .inr (.inl (here ▸ List.suffix_refl _))
      · exact .inr (.inr above)

/-- A scope around a place further down that reaches beyond a place is around that too. -/
theorem scope_outside (h : s.Holds d) (reaches : d.scope <:+ u.ancestors)
    (apart : ¬ s.line <:+ u.ancestors) : d.scope <:+ s.ancestors := by
  rcases scope_of_holds h with rfl | none_there | inside | ⟨same, -⟩
  · exact scopeAbove_suffix _ _
  · exact none_there ▸ List.nil_suffix
  · exact absurd (inside.trans reaches) apart
  · exact same ▸ scopeAbove_suffix _ _

/-- If the innermost scope around a place further down is outside of a place, it is the innermost
around that, which opens none. -/
theorem scope_eq_of_outside (h : s.Holds d) (some_there : d.scope ≠ [])
    (outside : d.scope <:+ s.ancestors) :
    d.scope = s.scope ∧ (d = s ∨ s.node.kind.opensScope = false) := by
  rcases scope_of_holds h with rfl | none_there | inside | ⟨same, closed⟩
  · exact ⟨rfl, .inl rfl⟩
  · exact absurd none_there some_there
  · have := (inside.trans outside).length_le
    simp only [line, List.length_cons] at this
    omega
  · exact ⟨same, .inr closed⟩

/-- What one part of a node holds is not below another. -/
theorem not_below_other {c' : Tree} (other : c ≠ c') (h : (s.below between c').Holds u) :
    ¬ (s.below between c).line <:+ u.ancestors := by
  intro inside
  rcases h.eq_or_suffix with rfl | inside'
  · have := inside.length_le
    simp only [line, below, List.length_cons] at this
    omega
  · have suffix := List.suffix_of_suffix_length_le inside inside' (by simp [line, below])
    have same := suffix.eq_of_length (by simp [line, below])
    exact other (List.cons.inj same).1

end Site

end Interlace.Syntax
