import Interlace.Proofs.CommentPlaces
import Interlace.Proofs.LineFacts
import Interlace.Proofs.Occurrence
import Interlace.Weave.Removal

/-!
# The marker comments of a file

The markers of a file are comments of its text, in source order, that run to the ends of their
lines. So of a start and an end marker that are paired, the end marker stands on a later line, and
what is removed for the two lies between the line of the one and that of the other.

## Key results

- `SourceFile.markers_apart`: the markers of a file
- `SourceFile.hasLeading_eq_false`: a file without markers has none before any node
- `Removal.pairs_of_pairwise`: what markers in order say of those that are paired
- `MarkerPair.closingRange_low`: what is removed for an end marker
-/

namespace Interlace

open Syntax

/-! ## The comments of a tree -/

mutual

private theorem commentsBelow_map : (t : Tree) → t.Spaced →
    (commentsBelow t).map CommentSite.comment = commentsOf (Tree.preorderAll t.children)
  | .node _ _ _ _ cs, ⟨_, _, parts⟩ => by
    rw [commentsBelow]
    exact commentsAmong_map cs [] parts

/-- The comments that decorate are all there are. -/
private theorem commentsAmong_map : (ts : List Tree) → (preceding : List Tree) → {lo : Nat} →
    SpacedFrom lo ts →
    (commentsAmong preceding ts).map CommentSite.comment = commentsOf (Tree.preorderAll ts)
  | [], _, _, _ => rfl
  | .node k f s e cs :: ts, preceding, _, ⟨_, inner, rest⟩ => by
    have below := commentsBelow_map _ inner
    rw [commentsAmong, List.map_append, commentsAmong_map ts _ rest, Tree.preorderAll,
      commentsOf_append]
    congr 1
    split
    · rename_i comment
      have bare : cs = [] := inner.children_of_comment comment
      subst comment bare
      rfl
    · rename_i read
      have read : Tree.kind (.node k f s e cs) ≠ .comment := read
      rw [below, commentsOf_preorder read]

end

namespace Decorations

variable {source : Text}

/-- Where a comment points makes no difference to the markers. -/
private theorem markers_attach (d : Decorations) (site : CommentSite) :
    (attach source d site).markers =
    d.markers ++ [trivia source site.comment].filter (·.marker.isSome) := by
  unfold attach
  dsimp only
  generalize trivia source site.comment = t
  have listed : (if t.marker.isSome then { d with markers := d.markers ++ [t] } else d).markers =
      d.markers ++ [t].filter (·.marker.isSome) := by
    by_cases marked : t.marker.isSome <;> simp [marked]
  generalize (if t.marker.isSome then ({ d with markers := d.markers ++ [t] } : Decorations)
    else d) = d' at listed
  split
  · split <;> exact listed
  · split <;> exact listed

private theorem markers_foldl_attach {d : Decorations} {sites : List CommentSite} :
    (sites.foldl (attach source) d).markers =
      d.markers ++ ((sites.map CommentSite.comment).map (trivia source)).filter
        (·.marker.isSome) := by
  induction sites generalizing d with
  | nil => exact (List.append_nil _).symm
  | cons site sites ih =>
    rw [List.foldl_cons, ih, markers_attach, List.append_assoc, ← List.filter_append]
    rfl

end Decorations

/-! ## Markers -/

/-- The comment is a marker of the text: it starts with a slash and runs to the end of its line. -/
structure Trivia.RunsToEnd (source : Text) (t : Trivia) : Prop where
  slash : source[t.start]? = some 0x2F
  ends : Text.EndsLine source t.stop t.start
  own : t.ownLine = source.isFirstOnLine t.start

/-- A marker comment starts with its two slashes. -/
theorem Marker.lead_isPrefix {comment : Text} {m : Marker} (h : parse? comment = some m) :
    ("//" : Text) <+: comment := by
  obtain ⟨rest, lead, -⟩ := Option.bind_eq_some_iff.1 h
  have start : ("//" : Text) <+: Text.trimEnd comment := by
    rw [Text.stripPrefix?_eq_some_iff.1 lead]
    exact ⟨"tool:" ++ rest, by rw [← List.append_assoc]; rfl⟩
  exact start.trans (Text.trimEnd_isPrefix comment)

/-- A comment that starts with two slashes runs to the end of its line. -/
theorem lineEnd_of_isComment {source : Text} {start stop : Nat}
    (real : Scan.IsComment source (start, stop)) (front : ("//" : Text) <+: source.drop start) :
    start < source.length ∧ stop = source.lineEnd start := by
  obtain ⟨width, comment, wide⟩ := real
  obtain ⟨rest, whole⟩ := front
  -- The comment has its two slashes, so it starts in the text.
  have inside : start < source.length := by
    by_contra outside
    rw [List.drop_eq_nil_of_le (by omega)] at whole
    cases whole
  refine ⟨inside, ?_⟩
  unfold Scan.commentWidth? at comment
  rw [if_pos (Text.startsWith_iff.2 ⟨rest, whole.symm⟩)] at comment
  cases comment
  rw [Text.lineEnd, Nat.min_eq_left (by omega)]
  exact wide

theorem runsToEnd_trivia {source : Text} {c : Tree}
    (real : Scan.IsComment source (c.start, c.stop))
    (marked : (Decorations.trivia source c).marker.isSome) :
    (Decorations.trivia source c).RunsToEnd source := by
  obtain ⟨m, parsed⟩ := Option.isSome_iff_exists.1 marked
  have front : ("//" : Text) <+: source.drop c.start :=
    (Marker.lead_isPrefix parsed).trans (List.take_prefix _ _)
  obtain ⟨inside, line⟩ := lineEnd_of_isComment real front
  obtain ⟨rest, whole⟩ := front
  refine ⟨?_, ?_, rfl⟩
  · show source[c.start]? = _
    rw [← Nat.add_zero c.start, ← List.getElem?_drop, ← whole]
    rfl
  · show Text.EndsLine source c.stop c.start
    rw [line]
    exact Text.endsLine_lineEnd (by omega)

/-- Two markers of a text, one behind the other. -/
structure MarkerPair (source : Text) (a b : Trivia) : Prop where
  opening : a.RunsToEnd source
  closing : b.RunsToEnd source
  apart : a.stop ≤ b.start

/-- The markers of a file are those among the comments of its tree. -/
theorem SourceFile.markers_eq {path text : Text} {file : SourceFile}
    (h : SourceFile.parse path text = .ok file) :
    file.decorations.markers =
      ((commentsOf (Tree.preorderAll file.tree.children)).map
        (Decorations.trivia file.source)).filter (·.marker.isSome) := by
  obtain ⟨spaced, -, -⟩ := parse_comments (tree_of_parse h).1
  have below : commentsBelow file.tree = commentsAmong [] file.tree.children := by
    cases file.tree
    rw [commentsBelow]
    rfl
  rw [decorations_eq h, Decorations.ofTree, below, Decorations.markers_foldl_attach,
    commentsAmong_map _ _ spaced]
  rfl

/-- The markers of a file are comments of its text, in source order. -/
theorem SourceFile.markers_apart {path text : Text} {file : SourceFile}
    (h : SourceFile.parse path text = .ok file) :
    file.decorations.markers.Pairwise (MarkerPair file.source) := by
  obtain ⟨-, real, apart⟩ := parse_comments (tree_of_parse h).1
  rw [markers_eq h, List.pairwise_filter, List.pairwise_map]
  refine apart.imp_of_mem fun ha hb before marked_a marked_b => ?_
  exact ⟨runsToEnd_trivia (real _ ha) marked_a, runsToEnd_trivia (real _ hb) marked_b, before⟩

/-! ## Files without markers -/

/-- Every marker that decorates what follows is listed. -/
private theorem Decorations.mem_markers_ofTree (source : Text) (tree : Tree) :
    ∀ e ∈ (ofTree source tree).before, e.2.marker.isSome → e.2 ∈ (ofTree source tree).markers := by
  refine foldl_keeps (K := fun d : Decorations => ∀ e ∈ d.before, e.2.marker.isSome →
    e.2 ∈ d.markers) (fun d site _ listed => ?_) nofun
  have more : ∀ t ∈ d.markers, t ∈ (attach source d site).markers := fun t ht =>
    markers_attach d site ▸ List.mem_append_left _ ht
  have new : (trivia source site.comment).marker.isSome →
      trivia source site.comment ∈ (attach source d site).markers := by
    intro marked
    rw [markers_attach]
    exact List.mem_append_right _ (List.mem_filter.2 ⟨List.mem_singleton_self _, marked⟩)
  -- Attaching a comment adds it to one of the two lists, or to none.
  have before : ∀ e ∈ (attach source d site).before,
      e ∈ d.before ∨ e.2 = trivia source site.comment := by
    unfold attach
    dsimp only
    generalize trivia source site.comment = t
    have same : (if t.marker.isSome then { d with markers := d.markers ++ [t] } else d).before =
        d.before := by split <;> rfl
    split
    · split <;> exact fun e he => .inl (same ▸ he)
    · split
      · intro e he
        rcases List.mem_append.1 he with he | he
        · exact .inl (same ▸ he)
        · exact .inr (congrArg Prod.snd (List.mem_singleton.1 he))
      · exact fun e he => .inl (same ▸ he)
  intro e he marked
  rcases before e he with known | fresh
  · exact more _ (listed e known marked)
  · rw [fresh] at marked ⊢
    exact new marked

namespace SourceFile

variable {path text : Text} {file : SourceFile}

/-- In a file without markers there is none before any node. -/
theorem hasLeading_eq_false (parsed : parse path text = .ok file)
    (clean : file.decorations.markers = []) (node : Tree) (m : Marker) :
    file.decorations.hasLeading node m = false := by
  rw [Bool.eq_false_iff]
  intro found
  obtain ⟨t, leads, marker⟩ := List.any_eq_true.1 found
  obtain ⟨e, he, rfl⟩ := List.mem_map.1 leads
  have marked : e.2.marker.isSome := by
    rw [of_decide_eq_true marker]
    rfl
  rw [decorations_eq parsed] at clean he
  have listed := Decorations.mem_markers_ofTree _ _ e (List.mem_filter.1 he).1 marked
  rw [clean] at listed
  cases listed

end SourceFile

/-! ## Pairs -/

namespace Removal

/-- What holds of all markers in order holds of those that are paired. -/
theorem pairs_of_pairwise {R : Trivia → Trivia → Prop} {opening closing : Marker}
    {stack ts : List Trivia} (ordered : ts.Pairwise R) (behind : ∀ a ∈ stack, ∀ b ∈ ts, R a b) :
    ∀ p ∈ pairs opening closing stack ts, R p.1 p.2 := by
  induction ts generalizing stack with
  | nil => simp [pairs]
  | cons t ts ih =>
    obtain ⟨first, ordered⟩ := List.pairwise_cons.1 ordered
    have later : ∀ a ∈ stack, ∀ b ∈ ts, R a b :=
      fun a ha b hb => behind a ha b (List.mem_cons_of_mem t hb)
    rw [pairs.eq_def]
    dsimp only
    -- The cases are those of the pairing: a comment opens, closes what is on top, or is passed.
    split
    · exact ih ordered (List.forall_mem_cons.2 ⟨first, later⟩)
    split
    · cases stack with
      | nil => exact ih ordered nofun
      | cons a stack =>
        obtain ⟨top, later⟩ := List.forall_mem_cons.1 later
        refine List.forall_mem_cons.2 ⟨behind a List.mem_cons_self t List.mem_cons_self, ?_⟩
        exact ih ordered later
    · exact ih ordered later

theorem markerPair_of_mem {path text : Text} {file : SourceFile}
    (h : SourceFile.parse path text = .ok file) {opening : Marker} :
    ∀ p ∈ pairMarkers file opening, MarkerPair file.source p.1 p.2 := by
  unfold pairMarkers
  cases opening.partner? with
  | none => simp
  | some closing => exact pairs_of_pairwise (SourceFile.markers_apart h) nofun

end Removal

/-! ## What is removed for a pair -/

namespace MarkerPair

open Removal

variable {source : Text} {a b : Trivia} (h : MarkerPair source a b)

include h

theorem newline : source[a.stop]? = some Text.newline := by
  have inside := (List.getElem?_eq_some_iff.1 h.closing.slash).1
  have := h.apart
  exact h.opening.ends.2.2.1.resolve_left (by omega)

theorem lt : a.stop < b.start := by
  refine Nat.lt_of_le_of_ne h.apart fun same => ?_
  have broken := h.newline
  rw [same, h.closing.slash] at broken
  cases broken

omit h in
private theorem afterLine_stop {t : Trivia} (ends : t.RunsToEnd source) :
    afterLine source t.stop = min (t.stop + 1) source.length := by
  obtain ⟨-, inside, last, -⟩ := ends.ends
  have same : source.lineEnd t.stop = t.stop :=
    (Text.lineEnd_eq_iff inside).2 ⟨Nat.le_refl _, inside, last, fun k low high => by omega⟩
  rw [afterLine, same]

private theorem afterLine_opening : afterLine source a.stop = a.stop + 1 := by
  have inside := (List.getElem?_eq_some_iff.1 h.newline).1
  rw [afterLine_stop h.opening, Nat.min_eq_left inside]

omit h in
private theorem withSpace_bounds (source : Text) (start : Nat) :
    start - 1 ≤ withSpace source start ∧ withSpace source start ≤ start := by
  unfold withSpace
  split <;> omega

/-- What is removed for a start marker ends before the end marker. -/
theorem openingRange_bounds : (openingRange source a).start ≤ a.start ∧
    a.stop ≤ (openingRange source a).stop ∧ (openingRange source a).stop ≤ b.start := by
  have := h.lt
  unfold openingRange
  rw [h.afterLine_opening]
  split
  · exact ⟨source.lineStart_le a.start, Nat.le_succ _, h.lt⟩
  · refine ⟨Nat.le_refl _, ?_, Text.skipBlanks_le h.lt h.closing.slash rfl⟩
    exact Nat.le_trans (Nat.le_succ _) (Nat.le_add_right _ _)

/-- What is removed for an end marker starts behind the start marker. -/
theorem closingRange_bounds : a.stop ≤ (closingRange source b).start ∧
    (closingRange source b).start ≤ b.start ∧ b.stop ≤ (closingRange source b).stop := by
  have := h.lt
  unfold closingRange
  split
  · have line := source.lineStart_le b.start
    -- The start marker ends with its line, so the line of this one starts behind it.
    have behind := Text.lt_lineStart h.newline h.lt
    exact ⟨Nat.le_sub_one_of_lt behind, by dsimp only; omega, Nat.le_refl _⟩
  · obtain ⟨low, high⟩ := withSpace_bounds source b.start
    refine ⟨Nat.le_trans (Nat.le_sub_one_of_lt this) low, high, ?_⟩
    dsimp only
    split
    · exact Nat.le_succ _
    · exact Nat.le_refl _

/-- What is removed for a block holds both markers. -/
theorem blockRange_bounds : (blockRange source a b).start ≤ a.start ∧
    b.stop ≤ (blockRange source a b).stop := by
  refine ⟨?_, ?_⟩
  · unfold blockRange
    dsimp only
    split
    · exact source.lineStart_le a.start
    · exact (withSpace_bounds source a.start).2
  · have inside := h.closing.ends.2.1
    show b.stop ≤ afterLine source b.stop
    rw [afterLine_stop h.closing]
    omega

end MarkerPair

end Interlace
