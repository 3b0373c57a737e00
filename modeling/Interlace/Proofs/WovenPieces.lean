import Interlace.Proofs.MarkerComments
import Interlace.Proofs.RevertedEdits
import Interlace.Proofs.Undoing
import Interlace.Proofs.WrapRemoval

/-!
# The pieces of a woven text

What is put into a text stands in it piece by piece, and each piece is there for a purpose. Where
the marks and blocks stand as their layouts have them and are read as marker comments, the pairs of
markers lead to just these pieces.

## Key results

- `Piece`, `pieces`: what was put into a text, where it is written and what for
- `Placed`: the pieces stand in the text one behind the other
- `Removal.blockRange_of_stands`: what is removed for a block
- `Removal.mem_markerEdits_iff`: what is removed for the markers are the marks and the blocks
-/

namespace Interlace

open Syntax Text Rendered

/-! ## Pieces -/

namespace Part

/-- The edit replaces the qualifier of a call. -/
def isOperand : Part → Bool
  | operand _ => true
  | _ => false

/-- The mark that the edit puts in. -/
def mark? : Part → Option Mark
  | mark m => some m
  | _ => none

end Part

/-- What an edit put into a text, and where it is written there. -/
structure Piece where
  place : Nat
  part : Part
  edit : Edit

namespace Piece

variable (p : Piece)

/-- The range of the piece in the text. -/
def range : Range :=
  ⟨p.place, p.place + p.edit.text.length⟩

/-- Puts back what the piece replaced. -/
def undone (source : Text) : Splice :=
  .back source p.place p.edit.splice

/-- The piece is put around an expression or behind a variable. -/
def isValue : Bool :=
  p.part.isText && ! p.part.isOperand

/-- The text before the piece. -/
def front (w : Text) : Text :=
  w.take p.place

/-- The text behind the piece. -/
def behind (w : Text) : Text :=
  w.drop (p.place + p.edit.text.length)

/-- Where the first comment of a mark or a block starts. -/
def opening : Nat :=
  p.place + margin p.edit.text

/-- Where the last comment of a block starts, with a line break behind it. -/
def closing : Nat :=
  p.place + p.edit.text.length - (Marker.endInstrument.comment.length + 1)

/-- Where the comments of the piece start. -/
def comments : List Nat :=
  match p.part with
  | .mark _ => [p.opening]
  | .block => [p.opening, p.closing]
  | _ => []

end Piece

/-- Lines of their own stand at the start of a line, or behind code with a space before them. -/
def blockStands (front text : Text) : Bool :=
  let lead := text.take (margin text)
  (decide (front = [] ∨ front.getLast? = some newline) && lead.all isBlank) ||
    (lead = " " && front.getLast?.any fun b => ! isBlank b && b ≠ newline)

/-- The piece stands in the text as its layout has it. -/
def Piece.stands (p : Piece) (source w : Text) : Bool :=
  match p.part with
  | .mark m => m.stands source (p.front w) (p.behind w)
  | .block => blockStands (p.front w) p.edit.text
  | _ => true

/-- The edits that a text was made with, each with what it is for. -/
structure Explains (source : Text) (edits : List Edit) (parts : List (Part × Edit)) : Prop where
  edits : parts.map Prod.snd = edits
  mark : ∀ p ∈ parts, ∀ m, p.1 = .mark m → p.2 = m.edit source
  block : ∀ p ∈ parts, p.1 = .block → Weave.IsBlock p.2.text
  /-- Only a qualifier is replaced. -/
  point : ∀ p ∈ parts, p.1.isOperand = false → p.2.stop = p.2.start

/-- The pieces that edits put into a text, in its order. -/
def pieces (parts : List (Part × Edit)) : List Piece :=
  (Splice.spots (fun p => p.2.splice) 0 0 (sortBy (fun p q => Edit.before p.2 q.2) parts)).map
    fun spot => ⟨spot.1, spot.2.1, spot.2.2⟩

/-- The pieces stand in a text one behind the other, and putting back what they replaced gives the
source. -/
structure Placed (source w : Text) (ps : List Piece) : Prop where
  apart : Splice.Apart 0 source.length (ps.map (·.edit.splice))
  whole : w = Splice.spliced source 0 source.length (ps.map (·.edit.splice))
  undone : ps.map (·.undone source) = Splice.undo source 0 0 (ps.map (·.edit.splice))
  split : ∀ p ∈ ps, (p.front w).length = p.place ∧ w = p.front w ++ p.edit.text ++ p.behind w
  mark : ∀ p ∈ ps, ∀ m, p.part = .mark m → p.edit = m.edit source
  block : ∀ p ∈ ps, p.part = .block → Weave.IsBlock p.edit.text
  point : ∀ p ∈ ps, p.part.isOperand = false → p.edit.stop = p.edit.start

private theorem pieces_map {parts : List (Part × Edit)} :
    (pieces parts).map (fun p => (p.part, p.edit)) =
      sortBy (fun p q => Edit.before p.2 q.2) parts := by
  rw [pieces, List.map_map]
  exact Splice.spots_map_snd

/-- What edits are rendered to has their pieces. -/
theorem Explains.placed {b : Buffer} {r : Rendered} {parts : List (Part × Edit)}
    (h : Explains b.source b.edits parts) (forward : ∀ e ∈ b.edits, e.start ≤ e.stop)
    (rendered : b.render = .ok r) : Placed b.source r.text (pieces parts) := by
  obtain ⟨apart, whole⟩ := Buffer.render_eq_spliced forward rendered
  -- The edits are sorted together with what they are for.
  let sorted := sortBy (fun p q : Part × Edit => Edit.before p.2 q.2) parts
  have order : b.sorted.map Edit.splice = sorted.map fun p => p.2.splice := by
    rw [Buffer.sorted, ← h.edits, sortBy_map, List.map_map]
    rfl
  have splices : (pieces parts).map (·.edit.splice) = sorted.map fun p => p.2.splice :=
    (List.map_map (g := fun p : Part × Edit => p.2.splice)).symm.trans
      (congrArg (List.map _) pieces_map)
  have listed {p : Piece} (hp : p ∈ pieces parts) : (p.part, p.edit) ∈ parts :=
    (sortBy_perm _ _).mem_iff.1 (pieces_map ▸ List.mem_map_of_mem hp)
  rw [order, ← splices] at apart whole
  refine ⟨apart, whole, ?_, fun p hp => ?_, fun p hp => h.mark _ (listed hp),
    fun p hp => h.block _ (listed hp), fun p hp => h.point _ (listed hp)⟩
  · rw [splices, Splice.undo_map, pieces, List.map_map]
    rfl
  · rw [splices] at apart whole
    obtain ⟨spot, hs, rfl⟩ := List.mem_map.1 hp
    -- A piece stands where its splice put it, between what is written before and behind.
    obtain ⟨front, back, place, split⟩ := Splice.split_of_mem_spots apart
      (Nat.le_refl _) (whole.trans (List.nil_append _).symm) spot hs
    have before : r.text.take spot.1 = front := by
      rw [split, ← place, List.append_assoc, List.take_left]
    have after : r.text.drop (spot.1 + spot.2.2.text.length) = back := by
      rw [split, ← place]
      exact List.drop_left' List.length_append
    show (r.text.take spot.1).length = spot.1 ∧ r.text = r.text.take spot.1 ++ spot.2.2.text ++
      r.text.drop (spot.1 + spot.2.2.text.length)
    rw [before, after]
    exact ⟨place, split⟩

namespace Placed

variable {source w : Text} {ps : List Piece} (h : Placed source w ps)

include h

/-- Pieces have no byte in common. -/
private theorem eq_or_clear : ∀ p ∈ ps, ∀ q ∈ ps, p = q ∨ p.range.Clear q.range := by
  obtain ⟨apart, -⟩ := Splice.spliced_undo h.apart (Nat.le_refl _)
    (h.whole.trans (List.nil_append _).symm)
  rw [List.length_nil, ← h.undone] at apart
  have ordered : ps.Pairwise fun p q => p.range.Clear q.range :=
    (List.pairwise_map.1 apart.pairwise).imp fun le => .inl le
  have : Std.Symm fun p q : Piece => p.range.Clear q.range := ⟨fun _ _ => Or.symm⟩
  intro p hp q hq
  by_cases same : p = q
  · exact .inl same
  · exact .inr (ordered.forall hp hq same)

/-- A byte belongs to one piece only. -/
theorem eq_of_has {p q : Piece} {i : Nat} (hp : p ∈ ps) (hq : q ∈ ps) (here : p.range.Has i)
    (there : q.range.Has i) : p = q :=
  (h.eq_or_clear p hp q hq).resolve_right fun clear => clear.not_has here there

end Placed

/-! ## What is removed for a block -/

namespace Removal

/-- A line that is a marker ends behind its break. -/
private theorem afterLine_commentAt (m : Marker) (front back : Text) {w : Text}
    (whole : w = front ++ m.comment ++ ("\n" ++ back)) :
    let c := commentAt w front.length
    c.marker = some m ∧ afterLine w c.stop = front.length + (m.comment.length + 1) := by
  obtain ⟨unbroken, parsed, -⟩ := m.comment_line
  obtain ⟨-, ends⟩ := @lineEnd_append front _ ("\n" ++ back) unbroken (.inr rfl)
  intro c
  have comment : c = ⟨m.comment, front.length, front.length + m.comment.length,
      w.isFirstOnLine front.length, some m, Directive.parse? m.comment⟩ := by
    show commentAt w front.length = _
    rw [whole, commentAt_append unbroken (.inr rfl), parsed]
  refine ⟨by rw [comment], ?_⟩
  rw [comment, afterLine]
  dsimp only
  rw [whole, ends]
  simp only [List.length_append]
  have one : ("\n" : Text).length = 1 := rfl
  omega

/-- The spacing that a block starts with comes off with its first marker. -/
private theorem start_of_stands {front lead rest w : Text} (whole : w = front ++ lead ++ rest)
    (stands : ((front = [] ∨ front.getLast? = some newline) ∧ ∀ b ∈ lead, isBlank b) ∨
      lead = " " ∧ ∃ c, front.getLast? = some c ∧ isBlank c = false ∧ c ≠ newline) :
    (if w.isFirstOnLine (front.length + lead.length) then
        w.lineStart (front.length + lead.length)
      else withSpace w (front.length + lead.length)) = front.length := by
  rcases stands with ⟨first, blank⟩ | ⟨rfl, c, code, solid, unbroken⟩
  · obtain ⟨start, own⟩ := isFirstOnLine_append rest first blank
    rw [← whole] at start own
    rw [if_pos own, start]
  · -- The space before the comment is part of what was put in.
    obtain ⟨start, eq⟩ := List.getLast?_eq_some_iff.1 code
    have own := isFirstOnLine_append_false start " " rest solid unbroken
      (List.forall_mem_singleton.2 rfl)
    have place : (start ++ c :: " ") = front ++ " " := by
      rw [eq, List.append_assoc]
      rfl
    rw [place, ← whole, List.length_append] at own
    have low := withSpace_append front rest
    rw [← whole] at low
    rw [if_neg (by rw [own]; exact Bool.false_ne_true), low]

/-- The comments of a block that stands as its layout has it are its two markers, and for them what
was put in is removed. -/
theorem blockRange_of_stands {front text back w : Text} (shape : Weave.IsBlock text)
    (stands : blockStands front text) (whole : w = front ++ text ++ back) :
    let a := commentAt w (front.length + margin text)
    let b := commentAt w (front.length + text.length - (Marker.endInstrument.comment.length + 1))
    a.marker = some .startInstrument ∧ b.marker = some .endInstrument ∧
      blockRange w a b = ⟨front.length, front.length + text.length⟩ := by
  obtain ⟨lead, body, spaced, inserted⟩ := shape
  intro a b
  have begins : text = lead ++ Marker.startInstrument.comment ++
      ("\n" ++ body ++ Marker.endInstrument.comment ++ "\n") := by
    rw [inserted]
    simp only [List.append_assoc]
  have moved : margin text = lead.length := by
    rw [begins, List.append_assoc]
    exact Marker.startInstrument.margin_comment spaced _
  have ahead : text.take (margin text) = lead := by
    rw [moved, begins, List.append_assoc, List.take_left]
  -- The last marker stands behind all of the block but its line break.
  let before := front ++ lead ++ Marker.startInstrument.comment ++ "\n" ++ body
  have last : w = before ++ Marker.endInstrument.comment ++ ("\n" ++ back) := by
    rw [whole, inserted]
    simp only [before, List.append_assoc]
  have size : front.length + text.length =
      before.length + (Marker.endInstrument.comment.length + 1) := by
    rw [inserted]
    simp only [before, List.length_append]
    have one : ("\n" : Text).length = 1 := rfl
    omega
  obtain ⟨closing, stop⟩ := afterLine_commentAt .endInstrument before back last
  have closes : commentAt w before.length = b := by
    show _ = commentAt w (front.length + text.length - _)
    rw [size, Nat.add_sub_cancel]
  rw [closes] at closing stop
  -- The first marker stands behind the spacing.
  obtain ⟨opening, -⟩ :=
    Marker.startInstrument.commentAt_inserted front back begins spaced (.inr rfl)
  rw [← whole] at opening
  have opening : a = _ := opening
  have split : w = front ++ lead ++ (Marker.startInstrument.comment ++ "\n" ++ body ++
      Marker.endInstrument.comment ++ "\n" ++ back) := by
    rw [whole, inserted]
    simp only [List.append_assoc]
  have start : (if a.ownLine then w.lineStart a.start else withSpace w a.start) = front.length := by
    simp only [blockStands, ahead, Bool.or_eq_true, Bool.and_eq_true, decide_eq_true_eq,
      List.all_eq_true, Option.any_eq_true, Bool.not_eq_true'] at stands
    rw [opening]
    exact start_of_stands split stands
  refine ⟨by rw [opening], closing, ?_⟩
  rw [blockRange, start, stop, size]

end Removal

/-! ## What is removed for the markers -/

/-- A marker of a file is the comment from where it starts to the end of its line. -/
theorem SourceFile.eq_commentAt {path text : Text} {file : SourceFile}
    (parsed : SourceFile.parse path text = .ok file) :
    ∀ t ∈ file.decorations.markers, t = commentAt file.source t.start := by
  intro t ht
  rw [markers_eq parsed] at ht
  obtain ⟨listed, marked⟩ := List.mem_filter.1 ht
  obtain ⟨c, hc, rfl⟩ := List.mem_map.1 listed
  have runs := runsToEnd_trivia ((parse_comments (tree_of_parse parsed).1).2.1 c hc) marked
  have inside := Nat.le_of_lt (List.getElem?_eq_some_iff.1 runs.slash).1
  have stop : file.source.lineEnd c.start = c.stop := (Text.lineEnd_eq_iff inside).2 runs.ends
  show Decorations.trivia file.source c = Decorations.trivia file.source
    (.node .comment none c.start (file.source.lineEnd c.start) [])
  rw [stop]
  rfl

namespace Piece

variable (p : Piece) (w : Text)

/-- The comments of a block. -/
def block? : Option (Trivia × Trivia) :=
  match p.part with
  | .block => some (commentAt w p.opening, commentAt w p.closing)
  | _ => none

/-- The comment of a mark. -/
def marked? : Option (Mark × Trivia) :=
  p.part.mark?.map fun m => (m, commentAt w p.opening)

end Piece

namespace Placed

variable {source w : Text} {ps : List Piece} {p : Piece} {m : Mark}

private theorem of_mark (h : Placed source w ps) (stand : ∀ p ∈ ps, p.stands source w) (hp : p ∈ ps)
    (part : p.part = .mark m) : (commentAt w p.opening).marker = some m.marker ∧
      m.range w (commentAt w p.opening) = p.range := by
  obtain ⟨place, split⟩ := h.split p hp
  have here := stand p hp
  rw [Piece.stands, part] at here
  have edit := h.mark p hp m part
  rw [edit] at split
  have found := Mark.range_of_stands here split rfl
  rwa [← edit, place] at found

private theorem of_block (h : Placed source w ps) (stand : ∀ p ∈ ps, p.stands source w)
    (hp : p ∈ ps)
    (part : p.part = .block) : (commentAt w p.opening).marker = some .startInstrument ∧
      (commentAt w p.closing).marker = some .endInstrument ∧
      Removal.blockRange w (commentAt w p.opening) (commentAt w p.closing) = p.range := by
  obtain ⟨place, split⟩ := h.split p hp
  have here := stand p hp
  rw [Piece.stands, part] at here
  have found := Removal.blockRange_of_stands (h.block p hp part) here split
  rwa [place] at found

private theorem of_mem_block {q : Trivia × Trivia} (hq : q ∈ ps.filterMap (·.block? w)) :
    ∃ p ∈ ps, p.part = .block ∧ q = (commentAt w p.opening, commentAt w p.closing) := by
  obtain ⟨p, hp, found⟩ := List.mem_filterMap.1 hq
  unfold Piece.block? at found
  split at found
  · rename_i part
    exact ⟨p, hp, part, (Option.some.inj found).symm⟩
  · cases found

private theorem of_mem_marked {q : Mark × Trivia} (hq : q ∈ ps.filterMap (·.marked? w)) :
    ∃ p ∈ ps, p.part = .mark q.1 ∧ q.2 = commentAt w p.opening := by
  obtain ⟨p, hp, found⟩ := List.mem_filterMap.1 hq
  obtain ⟨m, mark, rfl⟩ := Option.map_eq_some_iff.1 found
  refine ⟨p, hp, ?_, rfl⟩
  unfold Part.mark? at mark
  split at mark
  · rename_i part
    rw [part, Option.some.inj mark]
  · cases mark

private theorem flatMap_toList {α β : Type} (f : Piece → Option α) (g : α → List β) :
    (ps.flatMap fun p => (f p).toList.flatMap g) = (ps.filterMap f).flatMap g := by
  rw [List.filterMap_eq_flatMap_toList, List.flatMap_assoc]

/-- The markers of blocks are paired block by block. -/
private theorem pairs_block (h : Placed source w ps) (stand : ∀ p ∈ ps, p.stands source w) :
    Removal.pairs .startInstrument .endInstrument []
      (ps.flatMap fun p => p.comments.map (commentAt w)) = ps.filterMap (·.block? w) := by
  -- Of the comments of a piece, only those of a block are markers of this kind.
  have each : ∀ p ∈ ps, ((p.comments.map (commentAt w)).filter fun t =>
      t.marker = some .startInstrument || t.marker = some .endInstrument) =
        (p.block? w).toList.flatMap fun q => [q.1, q.2] := by
    intro p hp
    cases part : p.part with
    | mark m =>
      have marker := (h.of_mark stand hp part).1
      cases m <;> simp [Piece.comments, Piece.block?, part, marker, Mark.marker]
    | block =>
      obtain ⟨start, stop, -⟩ := h.of_block stand hp part
      simp [Piece.comments, Piece.block?, part, start, stop]
    | _ => simp [Piece.comments, Piece.block?, part]
  rw [Removal.pairs_filter, List.filter_flatMap, List.flatMap_congr each, flatMap_toList]
  refine Removal.pairs_flatMap nofun (fun q hq => ?_) fun q hq => ?_
  · obtain ⟨p, hp, part, rfl⟩ := of_mem_block hq
    exact (h.of_block stand hp part).1
  · obtain ⟨p, hp, part, rfl⟩ := of_mem_block hq
    exact (h.of_block stand hp part).2.1

/-- Where the marks are nested, what is removed for pairs of them is what is removed for each. -/
private theorem removals_marks (h : Placed source w ps) (stand : ∀ p ∈ ps, p.stands source w)
    (nested : Mark.levels 0 (ps.filterMap (·.part.mark?)) = true) :
    (Removal.removals w (Removal.pairs .startWrap .endWrap []
      (ps.flatMap fun p => p.comments.map (commentAt w)))).Perm
        ((ps.filterMap (·.marked? w)).map fun q => (q.1.range w q.2).removal) := by
  have each : ∀ p ∈ ps, ((p.comments.map (commentAt w)).filter fun t =>
      t.marker = some .startWrap || t.marker = some .endWrap) =
        (p.marked? w).toList.flatMap fun q => [q.2] := by
    intro p hp
    cases part : p.part with
    | mark m =>
      have marker := (h.of_mark stand hp part).1
      cases m <;> simp [Piece.comments, Piece.marked?, Part.mark?, part, marker, Mark.marker]
    | block =>
      obtain ⟨start, stop, -⟩ := h.of_block stand hp part
      simp [Piece.comments, Piece.marked?, Part.mark?, part, start, stop]
    | _ => simp [Piece.comments, Piece.marked?, Part.mark?, part]
  -- Which statements the marks belong to makes no difference to the pairs.
  let t : Tree := .leaf .identifier 0 0
  let marked := (ps.filterMap (·.marked? w)).map fun q => (q.1.other t, q.2)
  have marks : (ps.filterMap (·.marked? w)).map Prod.fst = ps.filterMap (·.part.mark?) := by
    rw [List.map_filterMap]
    refine List.filterMap_congr fun p _ => ?_
    rw [Piece.marked?, Option.map_map]
    cases p.part.mark? <;> rfl
  have balanced : Mark.Balanced (([] : List (Tree × Trivia)).map Prod.fst)
      (marked.map Prod.fst) := by
    rw [List.map_map]
    have levels := Mark.balanced_of_levels t nested
    rwa [← marks, List.map_map] at levels
  obtain ⟨paired, found, -, all⟩ := Removal.pairs_of_balanced (List.forall_mem_map.2 fun q hq => by
    obtain ⟨p, hp, part, comment⟩ := of_mem_marked hq
    rw [Mark.marker_other, comment]
    exact (h.of_mark stand hp part).1) balanced
  have comments : marked.map Prod.snd = (ps.filterMap (·.marked? w)).flatMap fun q => [q.2] := by
    rw [List.map_map, List.map_eq_flatMap]
    rfl
  rw [Removal.pairs_filter, List.filter_flatMap, List.flatMap_congr each, flatMap_toList,
    ← comments]
  rw [List.map_nil] at found all
  rw [found, Removal.removals_map_snd]
  refine (all.map _).trans ?_
  rw [List.nil_append, List.map_map]
  refine List.Perm.of_eq (List.map_congr_left fun q _ => ?_)
  obtain ⟨m, comment⟩ := q
  cases m <;> rfl

end Placed

namespace Removal

variable {source : Text} {ps : List Piece} {again : SourceFile}

/-- What is removed for the markers of a file. -/
def markerEdits (file : SourceFile) : List Splice :=
  (blocks file).map Range.removal ++
    (wraps file).flatMap fun pair => [pair.1.removal, pair.2.removal]

/-- Where the markers of a file are the comments of its pieces, what is removed for them are the
marks and the blocks. -/
theorem mem_markerEdits_iff (placed : Placed source again.source ps)
    (stand : ∀ p ∈ ps, p.stands source again.source)
    (markers : again.decorations.markers =
      ps.flatMap fun p => p.comments.map (commentAt again.source))
    (nested : Mark.levels 0 (ps.filterMap (·.part.mark?)) = true) {e : Splice} :
    e ∈ markerEdits again ↔ ∃ p ∈ ps, p.part.isText = false ∧ e = p.range.removal := by
  -- The pairs of instrument markers are the blocks, one after the other.
  have blocks_eq : blocks again = (ps.filterMap (·.block? again.source)).map
      fun q => blockRange again.source q.1 q.2 := by
    rw [← placed.pairs_block stand, ← markers]
    rfl
  -- The pairs of wrap markers are those of the marks, in the order in which they close.
  have wraps_perm : ((wraps again).flatMap fun pair => [pair.1.removal, pair.2.removal]).Perm
      ((ps.filterMap (·.marked? again.source)).map fun q =>
        (q.1.range again.source q.2).removal) := by
    refine List.Perm.trans (List.Perm.of_eq ?_) (placed.removals_marks stand nested)
    rw [← markers, wraps, List.flatMap_map]
    rfl
  rw [markerEdits, List.mem_append, wraps_perm.mem_iff, blocks_eq, List.map_map]
  constructor
  · rintro (listed | listed)
    · obtain ⟨q, hq, rfl⟩ := List.mem_map.1 listed
      obtain ⟨p, hp, part, rfl⟩ := Placed.of_mem_block hq
      exact ⟨p, hp, by rw [part]; rfl, congrArg Range.removal (placed.of_block stand hp part).2.2⟩
    · obtain ⟨q, hq, rfl⟩ := List.mem_map.1 listed
      obtain ⟨p, hp, part, comment⟩ := Placed.of_mem_marked hq
      refine ⟨p, hp, by rw [part]; rfl, ?_⟩
      rw [comment]
      exact congrArg Range.removal (placed.of_mark stand hp part).2
  · rintro ⟨p, hp, other, rfl⟩
    cases part : p.part with
    | block =>
      have listed : (commentAt again.source p.opening, commentAt again.source p.closing) ∈
          ps.filterMap (·.block? again.source) :=
        List.mem_filterMap.2 ⟨p, hp, by rw [Piece.block?, part]⟩
      exact .inl (List.mem_map.2 ⟨_, listed,
        congrArg Range.removal (placed.of_block stand hp part).2.2⟩)
    | mark m =>
      have listed : (m, commentAt again.source p.opening) ∈
          ps.filterMap (·.marked? again.source) :=
        List.mem_filterMap.2 ⟨p, hp, by rw [Piece.marked?, part]; rfl⟩
      exact .inr (List.mem_map.2 ⟨_, listed,
        congrArg Range.removal (placed.of_mark stand hp part).2⟩)
    -- A piece of another kind is text.
    | _ =>
      rw [part] at other
      cases other

end Removal

end Interlace
