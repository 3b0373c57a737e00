import Interlace.Proofs.Recognition
import Interlace.Proofs.RevertedForms
import Interlace.Proofs.SegmentMap
import Interlace.Proofs.Splicing
import Interlace.Proofs.WovenEdits

/-!
# Whose text reverting takes back

Every byte of a woven text was copied from the source or put in by an edit of the weaving, by a
line directive included. Reverting goes by the form of the text, so it spares what the user wrote
exactly where nothing of the forms that it takes back is the user's.

## Key results

- `Weave.origins`: the bytes of a woven text, with the offsets of the source they were copied from
- `Splice.written_applyAllMarked`: edits of what was put in lose nothing that was copied
- `Weave.revert_spares_iff`: when all that reverting touches was put in by the weaving
-/

namespace Interlace

open Syntax

/-! ## Where bytes come from -/

/-- The bytes that were copied from the source. -/
def written (marks : List Marked) : List Marked :=
  marks.filter fun m => m.2.isSome

private theorem written_append (marks marks' : List Marked) :
    written (marks ++ marks') = written marks ++ written marks' :=
  List.filter_append ..

/-- All bytes of the range were put in. -/
def IsMade (marks : List Marked) (r : Range) : Prop :=
  ∀ m ∈ (marks.take r.stop).drop r.start, m.2 = none

instance (marks : List Marked) (r : Range) : Decidable (IsMade marks r) :=
  inferInstanceAs (Decidable (∀ m ∈ _, _))

theorem isMade_iff {marks : List Marked} {r : Range} :
    IsMade marks r ↔ ∀ i, r.Has i → ∀ m, marks[i]? = some m → m.2 = none := by
  unfold IsMade Range.Has
  simp only [List.mem_iff_getElem?, List.getElem?_drop, List.getElem?_take]
  constructor
  · rintro made i ⟨low, high⟩ m given
    refine made m ⟨i - r.start, ?_⟩
    rw [if_pos (by omega), Nat.add_sub_cancel' low, given]
  · rintro made m ⟨i, given⟩
    rw [Option.ite_none_right_eq_some] at given
    exact made _ ⟨Nat.le_add_right _ _, given.1⟩ m given.2

namespace Rendered

/-- The bytes of the text, with the offsets of the source they were copied from. -/
def origins (r : Rendered) : List Marked :=
  r.text.zipIdx.map fun (byte, i) => (byte, r.sourceOffset? i)

private theorem origins_map_fst (r : Rendered) : r.origins.map Prod.fst = r.text := by
  rw [origins, List.map_map]
  exact List.zipIdx_map_fst 0 r.text

/-- The same as `Positions.insertLines`, with the bytes marked. -/
def insertMade : (offset : Nat) → List (Nat × LineDirective) → List Marked → List Marked
  | _, [], marks => marks
  | offset, (place, d) :: rest, marks =>
    marks.take (place - offset) ++ Sweep.made (d.render ++ "\n")
      ++ insertMade place rest (marks.drop (place - offset))

private theorem insertMade_map_fst {directives : List (Nat × LineDirective)} {offset : Nat}
    {marks : List Marked} : (insertMade offset directives marks).map Prod.fst =
      Positions.insertLines offset directives (marks.map Prod.fst) := by
  induction directives generalizing offset marks with
  | nil => rfl
  | cons p directives ih =>
    rw [insertMade, Positions.insertLines, List.map_append, List.map_append, ih, Sweep.made_map_fst,
      List.map_take, List.map_drop, ← List.append_assoc (List.take _ _)]

private theorem of_mem_origins {r : Rendered} {byte : UInt8} {offset : Nat}
    (h : (byte, some offset) ∈ r.origins) :
    ∃ i, r.text[i]? = some byte ∧ r.sourceOffset? i = some offset := by
  obtain ⟨⟨_, i⟩, listed, same⟩ := List.mem_map.1 h
  obtain ⟨rfl, found⟩ := Prod.mk.inj same
  exact ⟨i, List.mk_mem_zipIdx_iff_getElem?.1 listed, found⟩

private theorem mem_of_mem_insertMade {directives : List (Nat × LineDirective)} {place : Nat}
    {marks : List Marked} {byte : UInt8} {offset : Nat}
    (h : (byte, some offset) ∈ insertMade place directives marks) :
    (byte, some offset) ∈ marks := by
  induction directives generalizing place marks with
  | nil => exact h
  | cons p directives ih =>
    simp only [insertMade, List.mem_append, Sweep.not_mem_made, or_false] at h
    rcases h with front | back
    · exact List.mem_of_mem_take front
    · exact List.mem_of_mem_drop (ih back)

end Rendered

namespace Splice

/-- The same as `apply`, with the bytes marked. -/
def applyMarked (marks : List Marked) (s : Splice) : List Marked :=
  marks.take s.start ++ Sweep.made s.text ++ marks.drop s.stop

/-- The same as `applyAll`, with the bytes marked. -/
def applyAllMarked (marks : List Marked) (splices : List Splice) : List Marked :=
  (keep marks.length 0 (sortBy before splices)).reverse.foldl applyMarked marks

private theorem applyAllMarked_map_fst {marks : List Marked} {splices : List Splice} :
    (applyAllMarked marks splices).map Prod.fst = applyAll (marks.map Prod.fst) splices := by
  rw [applyAllMarked, applyAll, List.length_map]
  refine (List.foldl_hom (List.map Prod.fst) fun marks s => ?_).symm
  rw [applyMarked, apply, List.map_append, List.map_append, List.map_take, List.map_drop,
    Sweep.made_map_fst]

private theorem mem_of_mem_applyAllMarked {marks : List Marked} {splices : List Splice}
    {byte : UInt8} {offset : Nat} (h : (byte, some offset) ∈ applyAllMarked marks splices) :
    (byte, some offset) ∈ marks := by
  refine foldl_keeps (K := fun marks' : List Marked =>
    (byte, some offset) ∈ marks' → (byte, some offset) ∈ marks) ?_ id h
  intro marks' s _ kept h
  simp only [applyMarked, List.mem_append, Sweep.not_mem_made, or_false] at h
  rcases h with front | back
  · exact kept (List.mem_of_mem_take front)
  · exact kept (List.mem_of_mem_drop back)

/-- Splices further behind leave the front of the text as it is. -/
private theorem take_foldr_applyMarked {marks : List Marked} {splices : List Splice} {n : Nat}
    (inside : n ≤ marks.length) (behind : ∀ s ∈ splices, n ≤ s.start) :
    (splices.foldr (fun s marks => applyMarked marks s) marks).take n = marks.take n := by
  induction splices with
  | nil => rfl
  | cons s splices ih =>
    obtain ⟨here, rest⟩ := List.forall_mem_cons.1 behind
    have same := ih rest
    have long := congrArg List.length same
    rw [List.length_take, List.length_take, Nat.min_eq_left inside] at long
    rw [List.foldr_cons, applyMarked, List.append_assoc, List.take_append_of_le_length,
      List.take_take, Nat.min_eq_left here, same]
    rw [List.length_take]
    omega

/-- A splice of what was put in loses nothing that was copied. -/
private theorem written_applyMarked {marks : List Marked} {s : Splice}
    (made : IsMade marks s.range) : (written marks).Sublist (written (applyMarked marks s)) := by
  have rest : (written (marks.drop s.start)).Sublist (written (marks.drop s.stop)) := by
    -- A splice that ends before it starts takes nothing out.
    rcases Nat.le_total s.start s.stop with forward | backward
    · have behind : marks.drop s.stop = (marks.drop s.start).drop (s.stop - s.start) := by
        rw [List.drop_drop, Nat.add_sub_cancel' forward]
      have parts : marks.drop s.start =
          (marks.take s.stop).drop s.start ++ marks.drop s.stop := by
        rw [behind, List.drop_take, List.take_append_drop]
      have nothing : written ((marks.take s.stop).drop s.start) = [] := by
        rw [written, List.filter_eq_nil_iff]
        intro m hm
        simp [made m hm]
      rw [parts, written_append, nothing]
      exact .refl _
    · exact (List.drop_sublist_drop_left marks backward).filter _
  have front : written marks = written (marks.take s.start) ++ written (marks.drop s.start) := by
    rw [← written_append, List.take_append_drop]
  rw [front, applyMarked, List.append_assoc, written_append, written_append]
  exact (List.Sublist.refl _).append (rest.trans (List.sublist_append_right _ _))

/-- Splices of what was put in lose nothing that was copied. -/
theorem written_applyAllMarked {marks : List Marked} {splices : List Splice}
    (made : ∀ s ∈ splices, IsMade marks s.range) :
    (written marks).Sublist (written (applyAllMarked marks splices)) := by
  obtain ⟨kept, apart⟩ := @keep_apart marks.length 0 (sortBy before splices)
  rw [applyAllMarked, List.foldl_reverse]
  generalize keep marks.length 0 (sortBy before splices) = ss at kept apart
  induction ss with
  | nil => exact .refl _
  | cons s ss ih =>
    obtain ⟨⟨listed, -, inside⟩, others⟩ := List.forall_mem_cons.1 kept
    obtain ⟨behind, rest⟩ := List.pairwise_cons.1 apart
    refine (ih others rest).trans (written_applyMarked ?_)
    -- What the others replace is behind the range.
    unfold IsMade
    rw [show s.range.stop = s.stop from rfl, take_foldr_applyMarked inside behind]
    exact made s ((sortBy_perm _ _).mem_iff.1 listed)

end Splice

namespace Weave

/-- The blanks in front of indented line directives. -/
def indentation (t : Text) : List Splice :=
  ((indented t).filter fun (_, stop) => (commentStarts t).contains stop).map
    fun (start, stop) => ⟨start, stop, []⟩

theorem atMargin_eq (t : Text) : atMargin t = Splice.applyAll t (indentation t) := by
  rw [atMargin, atMargin?, indentation]
  split
  · rename_i none_there
    rw [none_there]
    rfl
  · dsimp only
    split
    · rename_i none_there
      rw [none_there]
      rfl
    · rfl

/-- The bytes of a woven text, with the offsets of the source they were copied from. -/
def origins (r : Rendered) (directives : List (Nat × LineDirective)) : List Marked :=
  let marks := Rendered.insertMade 0 directives r.origins
  Splice.applyAllMarked marks (indentation (marks.map Prod.fst))

private theorem origins_map_fst (r : Rendered) (directives : List (Nat × LineDirective)) :
    (origins r directives).map Prod.fst =
      atMargin (Positions.insertLines 0 directives r.text) := by
  rw [origins, Splice.applyAllMarked_map_fst, Rendered.insertMade_map_fst, r.origins_map_fst,
    atMargin_eq]

/-- What was copied is a byte of the source. -/
private theorem of_mem_origins {b : Buffer} {r : Rendered} (rendered : b.render = .ok r)
    {directives : List (Nat × LineDirective)} {byte : UInt8} {offset : Nat}
    (h : (byte, some offset) ∈ origins r directives) : b.source[offset]? = some byte := by
  have copied := Rendered.mem_of_mem_insertMade (Splice.mem_of_mem_applyAllMarked h)
  obtain ⟨i, given, found⟩ := Rendered.of_mem_origins copied
  obtain ⟨_, same, source⟩ := Buffer.same_of_render rendered found
  rw [source, ← same, given]

/-! ## Reverting -/

variable {s : Scene} {aspects : List Aspect} {importer : Importer} {lines : Bool}

/-- All that reverting touches in a woven text was put in by the weaving iff all that has a form
that it takes back was: the layers that come off values, the operands of calls through the name of
an added package, and the values that read like an assigned one. Then all that was copied from the
source is still there when the edits are made, with any others that only touch what was put in. The
text is read `again`, perhaps without a directive at its head, and any statements may count as
marked. -/
theorem revert_spares_iff {before after : ImportState} {woven : WovenFile} {out : Text}
    {again : SourceFile} (run : (file s aspects importer lines).Yields before woven after)
    (changed : woven.text = some out) (shows : again.source <:+ out) :
    ∃ d b between r directives, (edited s aspects importer).Yields before (d, b) between ∧
      (shown s.file lines b).render = .ok r ∧ (lines = false → directives = []) ∧
      let marks := origins r directives
      marks.map Prod.fst = out ∧
      (∀ byte offset, (byte, some offset) ∈ marks → s.file.source[offset]? = some byte) ∧
      let here := marks.drop (out.length - again.source.length)
      here.map Prod.fst = again.source ∧
      ∀ statements reverts added,
        let reverted := Removal.revertStatements again statements reverts added
        ((∀ e ∈ reverted, IsMade here e.range) ↔
          ∀ range, Removal.TakesBack again statements reverts added range → IsMade here range) ∧
        ∀ more, (∀ e ∈ more ++ reverted, IsMade here e.range) →
          let left := Splice.applyAllMarked here (more ++ reverted)
          left.map Prod.fst = Splice.applyAll again.source (more ++ reverted) ∧
            (written here).Sublist (written left) := by
  obtain ⟨d, b, between, edits, published⟩ := file_yields run
  obtain ⟨r, directives, rendered, rfl, bare⟩ := publish_yields published changed
  -- What is read is the woven text, up to the margin of a directive at its head.
  have spelled : ((origins r directives).drop
      ((atMargin (Positions.insertLines 0 directives r.text)).length - again.source.length)).map
        Prod.fst = again.source := by
    rw [List.map_drop, origins_map_fst]
    exact (List.suffix_iff_eq_drop.1 shows).symm
  refine ⟨d, b, between, r, directives, edits, rendered, bare, origins_map_fst r directives, ?_,
    spelled, fun statements reverts added => ⟨?_, fun more made => ⟨?_, ?_⟩⟩⟩
  · intro byte offset copied
    obtain ⟨log, extra, -, -, rfl⟩ := edited_yields edits
    obtain ⟨more, whole, -⟩ := shown_eq s.file lines ⟨s.file.source, log.map Entry.edit ++ extra⟩
    have source := of_mem_origins rendered copied
    rwa [whole] at source
  · -- The edits of reverting cover what has a form that is taken back, byte for byte.
    have touched (i : Nat) := @Removal.covered_revertStatements_iff again statements reverts added i
    simp only [isMade_iff]
    constructor
    · intro made range takes i has m given
      obtain ⟨_, listed, inside⟩ := (touched i).2 ⟨range, takes, has⟩
      obtain ⟨e, he, rfl⟩ := List.mem_map.1 listed
      exact made e he i inside m given
    · intro made e he i inside m given
      obtain ⟨range, takes, has⟩ := (touched i).1 ⟨e.range, List.mem_map_of_mem he, inside⟩
      exact made range takes i has m given
  · rw [Splice.applyAllMarked_map_fst, spelled]
  · exact Splice.written_applyAllMarked made

/-- The statements between the marks of a file, without what is removed with the marks. -/
def markedStatements (file : SourceFile) : List Range :=
  let wraps := (Removal.pairMarkers file .startWrap).map fun (a, b) =>
    (Removal.openingRange file.source a, Removal.closingRange file.source b)
  (wraps.filter fun (a, b) => a.stop ≤ b.start).map fun (a, b) => ⟨a.stop, b.start⟩

/-- A file with a handler that the user has wrapped. -/
def wrappedByHand : Text :=
  "package p\n\nimport (\n\t\"net/http\"\n\ttool \"github.com/weaver-go/tool\"\n)\n\n"
    ++ "func f() \x7b\n\thttp.Handle(\"/\", tool.WrapHandler(h))\n\x7d\n"

/-- What reverting the built-in advice touches in the marked statements of a woven text. -/
def revertedIn (again : SourceFile) : List Splice :=
  Removal.revertStatements again (markedStatements again) (Removal.reverts builtinAspects) .empty

/-- Where weaving puts a wrapper around one of the user's, only the outer one is taken back. -/
theorem revert_spares_wrapper :
    ∃ file types before woven after out again r,
      SourceFile.parse "p.go" wrappedByHand = .ok file ∧
      (Weave.file (SourceOptions.standard.scene file types) builtinAspects ⟨noArchives, false⟩
        false).Yields before woven after ∧ woven.text = some out ∧
      SourceFile.parse "p.go" out = .ok again ∧ again.source = out ∧
      (origins r []).map Prod.fst = out ∧ revertedIn again ≠ [] ∧
      ∀ range, Removal.TakesBack again (markedStatements again) (Removal.reverts builtinAspects)
        .empty range → IsMade (origins r []) range := by
  have passed : ((SourceFile.parse "p.go" wrappedByHand).toOption.bind fun file =>
      ((Check.package "main" none [file] ⟨noArchives, false⟩).run.run .fresh).1.toOption.map
        fun types =>
          let s := SourceOptions.standard.scene file types
          ((((Weave.file s builtinAspects ⟨noArchives, false⟩ false).run.run .fresh).1.toOption.bind
            WovenFile.text).any fun out =>
              (SourceFile.parse "p.go" out).toOption.any fun again =>
                again.source = out && revertedIn again ≠ [] &&
                ((edited s builtinAspects ⟨noArchives, false⟩).run.run .fresh).1.toOption.all
                  fun (_, b) => b.render.toOption.all fun r =>
                    (revertedIn again).all fun e => IsMade (origins r []) e.range)) =
        some true := by decide +kernel
  obtain ⟨file, types, -, parsed, -, test⟩ := Check.exists_of_test passed
  obtain ⟨out, ran, test⟩ := (Option.any_eq_true _ _).1 test
  obtain ⟨woven, ran, changed⟩ := Option.bind_eq_some_iff.1 ran
  obtain ⟨again, parsedAgain, test⟩ := (Option.any_eq_true _ _).1 test
  simp only [Bool.and_eq_true, decide_eq_true_eq] at test
  obtain ⟨⟨whole, some_there⟩, made⟩ := test
  obtain ⟨after, run⟩ := Importing.exists_yields_iff.2 (toOption_eq_some_iff.1 ran)
  obtain ⟨d, b, between, r, directives, edits, rendered, bare, spelled, -, -, spares⟩ :=
    revert_spares_iff run changed ⟨[], whole⟩
  rw [bare rfl, whole, Nat.sub_self, List.drop_zero] at spares
  rw [bare rfl] at spelled
  -- The edits that are known to exist are those that were tried.
  have tried := Importing.exists_yields_iff.1 ⟨between, edits⟩
  rw [tried] at made
  have swept : b.render = .ok r := rendered
  simp only [Except.toOption, Option.all_some, swept, List.all_eq_true, decide_eq_true_eq] at made
  exact ⟨file, types, .fresh, woven, after, out, again, r, parsed, run, changed,
    toOption_eq_some_iff.1 parsedAgain, whole, spelled, some_there, (spares _ _ _).1.1 made⟩

/-- A file in which the user has wrapped a handler for another wrapper. -/
def wrappedInside : Text :=
  "package p\n\nimport (\n\t\"net/http\"\n\ttool \"github.com/weaver-go/tool\"\n)\n\n"
    ++ "func f() \x7b\n\thttp.Handle(\"/\", mid(a, tool.WrapHandler(h)))\n\x7d\n"

/-- The same file without the wrapper. -/
def unwrappedInside : Text :=
  "package p\n\nimport (\n\t\"net/http\"\n\ttool \"github.com/weaver-go/tool\"\n)\n\n"
    ++ "func f() \x7b\n\thttp.Handle(\"/\", mid(a, h))\n\x7d\n"

/-- A wrapper of the user deeper in a woven statement is taken off with the woven one. -/
theorem uninstrument_unwraps_inside :
    ∃ file woven, SourceFile.parse "p.go" wrappedInside = .ok file ∧
      file.decorations.markers = [] ∧
      instrument "p.go" wrappedInside builtinAspects .standard = .ok woven ∧
      uninstrument woven builtinAspects = .ok unwrappedInside ∧
      unwrappedInside ≠ wrappedInside := by
  have passed : ((SourceFile.parse "p.go" wrappedInside).toOption.bind fun file =>
      (instrument "p.go" wrappedInside builtinAspects .standard).toOption.map fun woven =>
        decide (file.decorations.markers.length = 0 ∧
          (uninstrument woven builtinAspects).toOption = some unwrappedInside)) = some true := by
    decide +kernel
  obtain ⟨file, parsed, test⟩ := Option.bind_eq_some_iff.1 passed
  obtain ⟨woven, first, test⟩ := Option.map_eq_some_iff.1 test
  obtain ⟨clean, back⟩ := of_decide_eq_true test
  rw [toOption_eq_some_iff] at parsed first back
  exact ⟨file, woven, parsed, List.eq_nil_of_length_eq_zero clean, first, back, by decide +kernel⟩

end Weave

end Interlace
