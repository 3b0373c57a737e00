import Interlace.Proofs.SecondRuns
import Interlace.Proofs.WovenPieces

/-!
# Restoring the source of a woven text

Removal is given the woven text alone. It goes by the comments that it reads there, and by the form
of the expressions in marked statements. Where these lead to the pieces that weaving put in, and to
nothing else, one pass takes all of them out, and what is left is the source.

## Key results

- `ReadsBack`: what a woven text has to show of its pieces
- `Removal.applyAll_edits`: then a pass leads back to the source
- `uninstrument_instrument`: when a woven text is restored
-/

namespace Interlace

open Syntax Text Rendered

namespace Removal

/-- The offset lies in what comes off a value in a marked statement, at a place where nothing came
off before. -/
def ComesOff (file : SourceFile) (reverts : List Revert) (i : Nat) : Prop :=
  let patterns := wrapPatterns reverts (addedNames file)
  ∃ w layers last, Reached file.source patterns (wrapSites file (Weave.markedStatements file)) w ∧
    Peels file.source (patternsFor w.site patterns) (.ofTree w.node) layers last ∧
    ∃ l ∈ layers, Covered (l.outer.around l.inner) i

/-- A call in a marked statement gets the name of its old package back. -/
def IsSentBack (file : SourceFile) (reverts : List Revert) (e : Splice) : Prop :=
  ∃ operand old, SentBack file (Weave.markedStatements file) reverts (addedNames file) operand old ∧
    e = sendBack operand old

end Removal

/-- A text shows the pieces that were put into it to what reads it again. -/
structure ReadsBack (source : Text) (ps : List Piece) (reverts : List Revert)
    (again : SourceFile) : Prop where
  texts : ∀ p ∈ ps, p.edit.text ≠ []
  /-- The markers of the text are the comments of its marks and blocks, all of them and no
  others. -/
  markers : again.decorations.markers.map Trivia.start = ps.flatMap Piece.comments
  stand : ∀ p ∈ ps, p.stands source again.source
  nested : Mark.levels 0 (ps.filterMap (·.part.mark?)) = true
  /-- What comes off values is what was put around them. -/
  values : ∀ i, Removal.ComesOff again reverts i ↔ ∃ p ∈ ps, p.isValue ∧ p.range.Has i
  /-- The calls that get the name of their old package back are those that had it. -/
  calls : ∀ e, Removal.IsSentBack again reverts e ↔
    ∃ p ∈ ps, p.part.isOperand ∧ e = p.undone source

section

variable {source text path : Text} {ps : List Piece} {reverts : List Revert} {again : SourceFile}
  {p : Piece} {e : Splice} {i : Nat}

private theorem Placed.undone_eq_removal (placed : Placed source again.source ps) (hp : p ∈ ps)
    (added : p.part.isOperand = false) : p.undone source = p.range.removal := by
  have point := placed.point p hp added
  have nothing : source.slice p.edit.start p.edit.stop = [] := by simp [point, slice]
  exact congrArg (Splice.mk _ _) nothing

namespace ReadsBack

variable (h : ReadsBack source ps reverts again)

include h

private theorem comments_eq (parsed : SourceFile.parse path text = .ok again) :
    again.decorations.markers = ps.flatMap fun p => p.comments.map (commentAt again.source) := by
  have same : again.decorations.markers =
      again.decorations.markers.map fun t => commentAt again.source t.start :=
    (List.map_id _).symm.trans (List.map_congr_left (SourceFile.eq_commentAt parsed))
  rw [same, ← List.map_flatMap, ← h.markers, List.map_map]
  rfl

private theorem range_has_place (hp : p ∈ ps) : p.range.Has p.place :=
  ⟨Nat.le_refl _, Nat.lt_add_of_pos_right (List.length_pos_iff.2 (h.texts p hp))⟩

theorem covered_iff : Removal.Covered (Removal.unwrapped again (Weave.markedStatements again)
    reverts (Removal.addedNames again)) i ↔ ∃ p ∈ ps, p.isValue ∧ p.range.Has i :=
  Removal.covered_unwrapped_iff.trans (h.values i)

variable (placed : Placed source again.source ps)

include placed

/-- What comes off values has no byte of another piece. -/
private theorem not_has_of_unwrapped (hp : p ∈ ps) (bare : p.isValue = false) {r : Range}
    (hr : r ∈ Removal.unwrapped again (Weave.markedStatements again) reverts
      (Removal.addedNames again)) (here : p.range.Has i) : ¬ r.Has i := by
  intro there
  obtain ⟨q, hq, valued, has⟩ := h.covered_iff.1 ⟨r, hr, there⟩
  rw [← placed.eq_of_has hp hq here has, bare] at valued
  cases valued

variable (plain : ∀ template, .unassign template ∉ reverts)
  (parsed : SourceFile.parse path text = .ok again)

include plain parsed

/-- An edit of the pass puts back what a mark, a block or a qualifier replaced, or is one of those
that take something off values. -/
private theorem mem_edits (he : e ∈ Removal.edits again reverts .empty) :
    (∃ p ∈ ps, p.isValue = false ∧ e = p.undone source) ∨
      ∃ r ∈ Removal.unwrapped again (Weave.markedStatements again) reverts
        (Removal.addedNames again), e = r.removal := by
  rcases List.mem_append.1 he with marker | reverted
  · left
    obtain ⟨p, hp, other, rfl⟩ := (Removal.mem_markerEdits_iff placed h.stand (h.comments_eq parsed)
      h.nested).1 marker
    have added : p.part.isOperand = false := by
      cases part : p.part <;> rw [part] at other <;> first | rfl | cases other
    exact ⟨p, hp, by rw [Piece.isValue, other]; rfl, (placed.undone_eq_removal hp added).symm⟩
  · refine (Removal.mem_revertStatements plain e reverted).symm.imp_left fun sent => ?_
    obtain ⟨p, hp, operand, rfl⟩ := (h.calls e).1 sent
    exact ⟨p, hp, by rw [Piece.isValue, operand, Bool.not_true, Bool.and_false], rfl⟩

/-- What a mark, a block or a qualifier replaced is put back. -/
private theorem undone_mem (hp : p ∈ ps) (other : p.isValue = false) :
    p.undone source ∈ Removal.edits again reverts .empty := by
  cases operand : p.part.isOperand with
  | true =>
    refine List.mem_append_right _ ?_
    obtain ⟨operand, old, sent, same⟩ := (h.calls _).2 ⟨p, hp, operand, rfl⟩
    obtain ⟨operand', old', sent', range, listed⟩ := Removal.exists_of_sentBack plain sent
    -- Another call with the same operand is that of the same piece.
    obtain ⟨q, hq, -, same'⟩ := (h.calls _).1 ⟨operand', old', sent', rfl⟩
    have start : q.place = p.place := by
      have here : operand'.start = operand.start := congrArg Range.start range
      exact (congrArg Splice.start same').symm.trans (here.trans (congrArg Splice.start same).symm)
    have there : p.range.Has q.place := start ▸ h.range_has_place hp
    obtain rfl := placed.eq_of_has hq hp (h.range_has_place hq) there
    exact same' ▸ listed
  | false =>
    refine List.mem_append_left _ ?_
    rw [placed.undone_eq_removal hp operand]
    refine (Removal.mem_markerEdits_iff placed h.stand (h.comments_eq parsed) h.nested).2
      ⟨p, hp, ?_, rfl⟩
    rw [Piece.isValue, operand, Bool.not_false, Bool.and_true] at other
    exact other

/-- Edits of the pass that have a byte in common are the same. -/
private theorem edits_eq_of_has {s t : Splice} (hs : s ∈ Removal.edits again reverts .empty)
    (ht : t ∈ Removal.edits again reverts .empty) (here : s.range.Has i) (there : t.range.Has i) :
    s = t := by
  -- Each of the two goes back to a piece or takes something off a value.
  rcases h.mem_edits placed plain parsed hs with ⟨p, hp, bare, rfl⟩ | ⟨r, hr, rfl⟩ <;>
    rcases h.mem_edits placed plain parsed ht with ⟨q, hq, bare', rfl⟩ | ⟨r', hr', rfl⟩
  · rw [placed.eq_of_has hp hq here there]
  · exact (h.not_has_of_unwrapped placed hp bare hr' here there).elim
  · exact (h.not_has_of_unwrapped placed hq bare' hr there here).elim
  · refine congrArg Range.removal
      (((Removal.unwrapped_apart r hr).2 r' hr').resolve_right fun clear => ?_)
    exact clear.not_has here there

/-- The edits of the pass replace the bytes of the pieces. -/
private theorem covers_edits_iff :
    Splice.covers (Removal.edits again reverts .empty) i ↔ ∃ p ∈ ps, p.range.Has i := by
  rw [Splice.covers_iff]
  constructor
  · rintro ⟨e, he, has⟩
    rcases h.mem_edits placed plain parsed he with ⟨p, hp, -, rfl⟩ | ⟨r, hr, rfl⟩
    · exact ⟨p, hp, has⟩
    · obtain ⟨p, hp, -, here⟩ := h.covered_iff.1 ⟨r, hr, has⟩
      exact ⟨p, hp, here⟩
  · rintro ⟨p, hp, has⟩
    cases valued : p.isValue with
    | true =>
      obtain ⟨r, hr, here⟩ := h.covered_iff.2 ⟨p, hp, valued, has⟩
      exact ⟨_, List.mem_append_right _ (Removal.removal_mem hr), here⟩
    | false => exact ⟨_, h.undone_mem placed plain parsed hp valued, has⟩

/-- The edits of the pass that put something back are those that put back what was replaced. -/
private theorem mem_edits_iff_of_text (put : e.text ≠ []) :
    e ∈ Removal.edits again reverts .empty ↔ ∃ p ∈ ps, e = p.undone source := by
  constructor
  · intro he
    rcases h.mem_edits placed plain parsed he with ⟨p, hp, -, rfl⟩ | ⟨r, hr, rfl⟩
    · exact ⟨p, hp, rfl⟩
    · exact absurd rfl put
  · rintro ⟨p, hp, rfl⟩
    refine h.undone_mem placed plain parsed hp ?_
    -- Only a qualifier had something in its place.
    by_contra valued
    rw [Bool.not_eq_false, Piece.isValue, Bool.and_eq_true, Bool.not_eq_true'] at valued
    exact put (congrArg Splice.text (placed.undone_eq_removal hp valued.2))

end ReadsBack

/-- Splices that meet have a byte in common. -/
private theorem Splice.exists_has_of_meets {s t : Splice} (wide : s.start < s.stop)
    (wide' : t.start < t.stop) (meets : s.meets t = true) : ∃ i, s.range.Has i ∧ t.range.Has i := by
  simp only [Splice.meets, Bool.and_eq_true, decide_eq_true_eq] at meets
  refine ⟨max s.start t.start, ?_⟩
  simp only [Splice.range, Range.Has]
  omega

/-- A pass over a text that shows its pieces leads back to the source. -/
theorem Removal.applyAll_edits (h : ReadsBack source ps reverts again)
    (placed : Placed source again.source ps) (plain : ∀ template, .unassign template ∉ reverts)
    (parsed : SourceFile.parse path text = .ok again) :
    Splice.applyAll again.source (edits again reverts .empty) = source := by
  have mem_undo {s : Splice} : s ∈ Splice.undo source 0 0 (ps.map (·.edit.splice)) ↔
      ∃ p ∈ ps, s = p.undone source := by
    rw [← placed.undone, List.mem_map]
    simp only [eq_comm]
  have proper : ∀ e ∈ edits again reverts .empty, e.start < e.stop := by
    intro e he
    rcases h.mem_edits placed plain parsed he with ⟨p, hp, -, rfl⟩ | ⟨r, hr, rfl⟩
    · exact (h.range_has_place hp).2
    · exact (unwrapped_apart r hr).1
  refine Splice.applyAll_spliced_eq placed.apart (List.forall_mem_map.2 h.texts) placed.whole proper
    (fun s hs t ht => ?_) (fun i => ?_) fun s put => ?_
  · refine or_iff_not_imp_right.2 fun meets => ?_
    obtain ⟨i, here, there⟩ := Splice.exists_has_of_meets (proper s hs) (proper t ht)
      (by rwa [Bool.not_eq_false] at meets)
    exact h.edits_eq_of_has placed plain parsed hs ht here there
  · -- The same bytes are replaced as would be by putting back what the pieces replaced.
    rw [Bool.eq_iff_iff, h.covers_edits_iff placed plain parsed, Splice.covers_iff]
    constructor
    · rintro ⟨p, hp, has⟩
      exact ⟨_, mem_undo.2 ⟨p, hp, rfl⟩, has⟩
    · rintro ⟨e, he, has⟩
      obtain ⟨p, hp, rfl⟩ := mem_undo.1 he
      exact ⟨p, hp, has⟩
  · exact (h.mem_edits_iff_of_text placed plain parsed put).trans mem_undo.symm

end

/-! ## The round trip -/

/-- The edits of a log with what they are for, and the blocks that the imports need. -/
def Weave.parts (log : List Entry) (extra : List Edit) : List (Part × Edit) :=
  log.map (fun e => (e.part, e.edit)) ++ extra.map fun e => (.block, e)

/-- What was done to a file explains its edits, if nothing is imported twice in it. -/
private theorem SourceOptions.Wove.explains {options : SourceOptions} {aspects : List Aspect}
    {file : SourceFile} {types : PackageTypes} {log : List Weave.Entry} {extra : List Edit}
    {r : Rendered} (h : options.Wove aspects file types log extra r) (once : file.ImportsOnce) :
    Explains file.source (Weave.editsOf file log extra).edits (Weave.parts log extra) := by
  obtain ⟨d, logged⟩ := h.logged
  obtain ⟨-, blocks⟩ := h.single once
  -- In each part the entries of the log come first, then what reconciling added.
  refine ⟨?_, ?_, ?_, ?_⟩
  · rw [Weave.parts, List.map_append, List.map_map, List.map_map]
    exact congrArg (log.map Weave.Entry.edit ++ ·) (List.map_id _)
  · refine List.forall_mem_append.2 ⟨List.forall_mem_map.2 fun e he m part => ?_,
      List.forall_mem_map.2 fun e he m => nofun⟩
    exact logged.edit_mark e he m part
  · refine List.forall_mem_append.2 ⟨List.forall_mem_map.2 fun e he part => ?_,
      List.forall_mem_map.2 fun e he _ => (blocks e he).1⟩
    exact (logged.isBlock e he part).1
  · refine List.forall_mem_append.2 ⟨List.forall_mem_map.2 fun e he other => ?_,
      List.forall_mem_map.2 fun e he _ => (blocks e he).2⟩
    refine logged.point e he fun target part => ?_
    rw [part] at other
    cases other

/-- None of the built-in aspects gives a variable a value that reverting would have to drop. -/
private theorem unassign_notMem_reverts (template : Template) :
    .unassign template ∉ Removal.reverts builtinAspects := by
  have none_there : (Removal.reverts builtinAspects).all (fun r =>
      match r with
      | .unassign _ => false
      | _ => true) = true := by decide +kernel
  intro listed
  cases List.all_eq_true.1 none_there _ listed

section

variable {path source woven : Text} {options : SourceOptions} {file : SourceFile}

/-- A text that shows its pieces is restored by the first pass, and the second one finds nothing. -/
private theorem uninstrument_eq_source {lead : Text} {ps : List Piece} {again : SourceFile}
    (parsed : SourceFile.parse path source = .ok file) (clean : file.decorations.markers = [])
    (split : source = lead ++ file.source) (whole : woven = lead ++ again.source)
    (reparsed : SourceFile.parse "<source>" woven = .ok again)
    (placed : Placed file.source again.source ps)
    (reads : ReadsBack file.source ps (Removal.reverts builtinAspects) again) :
    uninstrument woven builtinAspects = .ok source := by
  have restored := Removal.applyAll_edits reads placed unassign_notMem_reverts reparsed
  have removed := @Removal.pass_eq _ _ again (Removal.reverts builtinAspects) .empty reparsed
  have front : woven.take (woven.length - again.source.length) = lead := by
    rw [whole, List.length_append, Nat.add_sub_cancel, List.take_left]
  refine Removal.passes_succ_eq_ok_iff.2 ?_
  -- A pass without edits ends removal; otherwise the source is what the next pass reads.
  by_cases nothing : Removal.edits again (Removal.reverts builtinAspects) .empty = []
  · rw [if_pos nothing] at removed
    rw [nothing] at restored
    refine .inl ⟨_, removed, ?_⟩
    rw [whole, split]
    exact congrArg (lead ++ ·) restored.symm
  · rw [if_neg nothing, restored, front, ← split] at removed
    obtain ⟨same, parsed, decorations⟩ := SourceFile.parse_of_path parsed "<source>"
    obtain ⟨known, stays⟩ := Removal.pass_of_markers_eq_nil parsed (decorations ▸ clean)
      (Removal.reverts builtinAspects)
      (Removal.merged .empty (Removal.addedImports again (Removal.blocks again)))
    exact .inr ⟨_, _, removed, Removal.passes_succ_eq_ok_iff.2 (.inl ⟨known, stays, rfl⟩)⟩

end

/-! ## Files that are restored and files that are not -/

/-- A test for texts in which no call is sent back. -/
def showsPieces (source : Text) (ps : List Piece) (reverts : List Revert) (again : SourceFile) :
    Bool :=
  decide (∀ p ∈ ps, p.edit.text ≠ []) &&
  decide (again.decorations.markers.map Trivia.start = ps.flatMap Piece.comments) &&
  ps.all (·.stands source again.source) && Mark.levels 0 (ps.filterMap (·.part.mark?)) &&
  decide (Removal.unwrapped again (Weave.markedStatements again) reverts
    (Removal.addedNames again) = (ps.filter Piece.isValue).map Piece.range) &&
  ps.all (! ·.part.isOperand) &&
  reverts.all fun r =>
    match r with
    | .retarget _ source _ => (Removal.importedName? again source).isNone
    | _ => true

private theorem readsBack_of_showsPieces {source : Text} {ps : List Piece} {reverts : List Revert}
    {again : SourceFile} (shown : showsPieces source ps reverts again) :
    ReadsBack source ps reverts again := by
  simp only [showsPieces, Bool.and_eq_true, decide_eq_true_eq] at shown
  obtain ⟨⟨⟨⟨⟨⟨texts, markers⟩, stand⟩, nested⟩, values⟩, added⟩, unknown⟩ := shown
  refine ⟨texts, markers, List.all_eq_true.1 stand, nested, fun i => ?_,
    fun e => iff_of_false ?_ ?_⟩
  · refine Removal.covered_unwrapped_iff.symm.trans ?_
    show Removal.Covered (Removal.unwrapped again (Weave.markedStatements again) reverts
      (Removal.addedNames again)) i ↔ _
    rw [values]
    simp [Removal.Covered, and_assoc]
  · -- A call that goes back needs a package that the text added, and no name is known as such.
    rintro ⟨operand, old, ⟨wanted, source, target, call, listed, imported, -⟩, -⟩
    have missing := List.all_eq_true.1 unknown _ listed
    dsimp only at missing
    rw [imported] at missing
    cases missing
  · rintro ⟨p, hp, operand, -⟩
    have other := List.all_eq_true.1 added p hp
    rw [operand] at other
    cases other

/-- The edits of the file with a handler, and what they are for. -/
def registeringParts : List (Part × Edit) :=
  let statement : Tree := .node .expressionStatement none 40 59 []
  let handler : Tree := .leaf .identifier 57 58
  [(.before handler ")", ⟨57, 57, "tool.WrapHandler(", .right⟩),
    (.after handler, ⟨58, 58, ")", .left⟩),
    (.mark (.opening statement), ⟨39, 39, "\t//tool:startwrap\n", .right⟩),
    (.mark (.closing statement), ⟨59, 59, "\n\t//tool:endwrap", .left⟩),
    (.block, ⟨28, 28, "//tool:startinstrument\nimport (\n\ttool \"github.com/weaver-go/tool\"\n)\n"
      ++ "//tool:endinstrument\n", .left⟩)]

private theorem explains_registering : Explains registering (registeringParts.map Prod.snd)
    registeringParts := by
  refine ⟨rfl, ?_, ?_, by decide⟩
  · simp only [registeringParts, List.forall_mem_cons]
    refine ⟨nofun, nofun, fun m same => ?_, fun m same => ?_, nofun, List.forall_mem_nil _⟩
    · cases same
      decide +kernel
    · cases same
      decide +kernel
  · simp only [registeringParts, List.forall_mem_cons]
    refine ⟨nofun, nofun, nofun, nofun, fun _ => ?_, List.forall_mem_nil _⟩
    exact ⟨[], "import (\n\ttool \"github.com/weaver-go/tool\"\n)\n", nofun, by decide +kernel⟩

/-- A file with a handler and another statement on one line. -/
def crowded : Text :=
  "package p\nimport \"net/http\"\nfunc f() \x7b http.Handle(\"/\", h); g() \x7d\n"

end Interlace
