import Interlace.Proofs.NestedWraps
import Interlace.Proofs.WovenEdits
import Interlace.Proofs.WrapRemoval

/-!
# Where imports are added

The imports that a woven file gains stand in a block behind the line of the last import, or of the
package clause. The place is found by looking for the end of that line, whatever else stands on it,
and what is injected at the end of the file comes before the block where both meet.

## Key results

- `Buffer.place_le_textBefore_iff`, `Buffer.textBefore_le_place_iff`: where text that sticks left
  stands among ranges of the source
- `Weave.importBlock_lands_iff`: when the block stands where imports are allowed
-/

namespace Interlace

open Syntax

/-! ## Places among ranges -/

namespace Buffer

/-- What is rendered for all offsets before one. -/
def upTo (b : Buffer) (offset : Nat) : Text :=
  (List.range offset).flatMap b.textAt

variable {b : Buffer} {k offset other : Nat} {e : Edit}

private theorem upTo_initial (le : offset ≤ other) : b.upTo offset <+: b.upTo other := by
  obtain ⟨more, rfl⟩ := Nat.exists_eq_add_of_le le
  have split : List.range (offset + more) = _ := List.range_add
  unfold upTo
  rw [split, List.flatMap_append]
  exact List.prefix_append _ _

/-- What stands before a range is rendered for its offset or before. -/
private theorem textBefore_initial (less : offset < other) :
    b.textBefore offset <+: b.upTo other := by
  refine .trans ?_ (upTo_initial (Nat.succ_le_of_lt less))
  have last : b.upTo (offset + 1) = b.upTo offset ++ b.textAt offset := by
    simp [upTo, List.range_succ]
  rw [last, textBefore, textAt]
  simp only [List.append_assoc]
  exact (List.prefix_append_right_inj _).2 (List.prefix_append _ _)

/-- What stands before a range that starts before an edit comes before the edit. -/
private theorem textBefore_le_place (less : offset < e.start) :
    (b.textBefore offset).length ≤ b.place k e := by
  have low := (textBefore_initial (b := b) less).length_le
  unfold place front
  rw [List.append_assoc, List.length_append]
  exact Nat.le_trans low (Nat.le_add_right _ _)

section

variable (found : b.edits[k]? = some e) (left : e.rank = 0) (given : e.text ≠ [])

include found left

/-- Text that sticks left stands before the ranges that start at its offset. -/
private theorem place_le_textBefore :
    b.place k e + e.text.length ≤ (b.textBefore e.start).length := by
  have ranked := ranked_eq_split found
  rw [left] at ranked
  have front : b.front k e ++ e.text <+: b.textBefore e.start := by
    rw [textBefore, inserted_eq _ _ 0 fun _ => Edit.rank_eq_zero_iff, front, left, List.range_zero,
      List.flatMap_nil, List.append_nil, List.append_assoc]
    refine (List.prefix_append_right_inj _).2 ?_
    show _ <+: b.ranked e.start 0
    rw [ranked]
    exact List.prefix_append _ _
  simpa [place] using front.length_le

include given

/-- Text that sticks left stands before a range iff its offset is not behind the start. -/
theorem place_le_textBefore_iff :
    b.place k e + e.text.length ≤ (b.textBefore offset).length ↔ e.start ≤ offset := by
  have size := List.length_pos_iff.2 given
  have own := place_le_textBefore found left
  rcases Nat.lt_trichotomy e.start offset with less | rfl | more
  · have := (textBefore_initial (b := b) less).length_le
    have : (b.upTo offset).length ≤ (b.textBefore offset).length :=
      (List.prefix_append _ _).length_le
    exact iff_of_true (by omega) (Nat.le_of_lt less)
  · exact iff_of_true own (Nat.le_refl _)
  · have := textBefore_le_place (b := b) (k := k) more
    exact iff_of_false (by omega) (by omega)

/-- It stands within what is rendered for the offsets before one iff its own is among them. -/
theorem place_le_upTo_iff :
    b.place k e + e.text.length ≤ (b.upTo offset).length ↔ e.start < offset := by
  have size := List.length_pos_iff.2 given
  have own := place_le_textBefore found left
  rcases Nat.lt_or_ge e.start offset with less | more
  · have := (textBefore_initial (b := b) less).length_le
    exact iff_of_true (by omega) less
  · have high : (b.upTo offset).length ≤ (b.upTo e.start).length := (upTo_initial more).length_le
    have : (b.upTo e.start).length ≤ b.place k e := by
      unfold place front
      rw [List.append_assoc, List.length_append]
      exact Nat.le_add_right _ _
    exact iff_of_false (by omega) (by omega)

/-- It stands behind what comes before a range iff its offset is behind the start. -/
theorem textBefore_le_place_iff :
    (b.textBefore offset).length ≤ b.place k e ↔ offset < e.start := by
  refine ⟨fun low => ?_, textBefore_le_place⟩
  by_contra behind
  have := (place_le_textBefore_iff found left given).2 (Nat.not_lt.1 behind)
  have := List.length_pos_iff.2 given
  omega

end

end Buffer

/-! ## The block -/

namespace Imports

/-- The offset of the line behind the line on which a node ends, or that of the end of the file. -/
def behindLine (source : Text) (node : Tree) : Nat :=
  min (source.lineEnd node.stop + 1) source.length

/-- A block of imports is an insertion that sticks left. -/
private theorem insertion_spec (source : Text) (anchor : Tree) (lines keepAlive : List Text) :
    let e := insertion source anchor (block lines keepAlive)
    e.start = behindLine source anchor ∧ e.rank = 0 ∧ e.text ≠ [] := by
  have given : block lines keepAlive ≠ [] := by
    unfold block
    exact List.append_ne_nil_of_right_ne_nil _ (List.cons_ne_nil _ _)
  have rank : ∀ (offset : Nat) (text : Text), (Edit.mk offset offset text .left).rank = 0 :=
    fun offset text => Edit.rank_eq_zero_iff.2 ⟨decide_eq_true (Nat.le_refl _), rfl⟩
  unfold insertion behindLine
  split
  · exact ⟨by dsimp only; omega, rank _ _, List.append_ne_nil_of_right_ne_nil _ given⟩
  · exact ⟨by dsimp only; omega, rank _ _, given⟩

end Imports

namespace Weave

/-- The declaration of a file is one, but no import. -/
def isOther (t : Tree) : Prop :=
  t.kind.isTopLevelDeclaration ∧ t.kind ≠ .importDeclaration

/-- An edit stands where imports are allowed: before all declarations of the file that are no
imports, before those that were injected, and not inside of a declaration or a comment. -/
structure Lands (file : SourceFile) (log : List Entry) (b : Buffer) (k : Nat) (e : Edit) :
    Prop where
  before : ∀ t ∈ file.tree.children, isOther t →
    b.place k e + e.text.length ≤ (b.textBefore t.start).length
  outside : ∀ t, (t ∈ file.tree.children ∧ t.kind.isTopLevelDeclaration) ∨
      (t ∈ file.tree.preorder ∧ t.kind = .comment) →
    ¬ ((b.textBefore t.start).length ≤ b.place k e ∧
      b.place k e + e.text.length ≤ (b.upTo t.stop).length)
  injected : ∀ (i : Nat) (m : Entry), log[i]? = some m → m.injects →
    b.place k e + e.text.length ≤ b.place i m.edit

/-- The place is free for imports: no other declaration of the file starts before it, no comment
runs over it, and if declarations are injected at the end of the file, it is not there. -/
structure Free (file : SourceFile) (log : List Entry) (offset : Nat) : Prop where
  behind : ∀ t ∈ file.tree.children, isOther t → offset ≤ t.start
  comments : ∀ t ∈ file.tree.preorder, t.kind = .comment → ¬ (t.start < offset ∧ offset < t.stop)
  injected : (∃ m ∈ log, m.injects) → offset < file.source.length

variable {s : Scene} {aspects : List Aspect} {importer : Importer} {lines : Bool} {d : Draft}
  {log : List Entry} {extra : List Edit}

/-- All imports of a file end before the place behind the line of the last. -/
private theorem stop_le_behindLine {source : Text} {tree anchor t : Tree}
    (parsed : parse? source = some tree) (found : Imports.anchor? tree = some anchor)
    (ht : t ∈ tree.childrenOf .importDeclaration) : t.stop ≤ Imports.behindLine source anchor := by
  obtain ⟨apart, inside⟩ := declarations_apart parsed
  have nonempty : tree.childrenOf .importDeclaration ≠ [] := List.ne_nil_of_mem ht
  -- The anchor is the last of the imports.
  have last : (tree.childrenOf .importDeclaration).getLast nonempty = anchor := by
    unfold Imports.anchor? at found
    rw [List.getLast?_eq_some_getLast nonempty] at found
    exact Option.some.inj found
  have child : ∀ u ∈ tree.childrenOf .importDeclaration, u ∈ tree.children ∧ u.kind ≠ .comment := by
    intro u hu
    obtain ⟨listed, kind⟩ := List.mem_filter.1 hu
    exact ⟨listed, by rw [of_decide_eq_true kind]; nofun⟩
  obtain ⟨there, named⟩ := child anchor (last ▸ List.getLast_mem nonempty)
  obtain ⟨wide, bound, -⟩ := inside anchor there named
  have ordered : t = anchor ∨ t.stop ≤ anchor.start := by
    have fewer : (tree.childrenOf .importDeclaration).Sublist
        (tree.children.filter (·.kind ≠ .comment)) := by
      refine List.monotone_filter_right _ fun u kind => ?_
      rw [of_decide_eq_true kind]
      rfl
    have apart := apart.sublist fewer
    rw [← List.dropLast_append_getLast nonempty, last] at apart ht
    rcases List.mem_append.1 ht with earlier | same
    · exact .inr ((List.pairwise_append.1 apart).2.2 t earlier anchor (List.mem_singleton_self _))
    · exact .inl (List.mem_singleton.1 same)
  have high : t.stop ≤ anchor.stop := by
    rcases ordered with rfl | before <;> omega
  have ends := (Text.endsLine_lineEnd bound).1
  unfold Imports.behindLine
  omega

/-- A block that sticks left stands where imports are allowed iff its place is free. -/
theorem lands_iff {b : Buffer} {k : Nat} {e : Edit} {anchor : Tree}
    (parsed : parse? s.file.source = some s.file.tree)
    (anchored : Imports.anchor? s.file.tree = some anchor)
    (apart : b.sorted.Pairwise fun e f => e.stop ≤ f.start)
    (logged : ∀ (i : Nat) (m : Entry), log[i]? = some m → b.edits[i]? = some m.edit)
    (injects : ∀ m ∈ log, m.injects → ∃ text, text ≠ [] ∧
      m.edit = ⟨s.file.source.length, s.file.source.length, text, .left⟩)
    (found : b.edits[k]? = some e) (behind : log.length ≤ k)
    (start : e.start = Imports.behindLine s.file.source anchor) (left : e.rank = 0)
    (given : e.text ≠ []) :
    Lands s.file log b k e ↔ Free s.file log e.start := by
  have bound : e.start ≤ s.file.source.length := start ▸ Nat.min_le_right _ _
  -- At the end of the file, injected declarations come first as they were made first.
  have order : ∀ (i : Nat) (m : Entry), log[i]? = some m → m.injects →
      (b.place k e + e.text.length ≤ b.place i m.edit ↔ e.start < s.file.source.length) := by
    intro i m here injected
    have early := (List.getElem?_eq_some_iff.1 here).1
    obtain ⟨text, -, edit⟩ := injects m (List.mem_of_getElem? here) injected
    have rank : m.edit.rank = 0 := by
      rw [edit]
      exact Edit.rank_eq_zero_iff.2 ⟨decide_eq_true (Nat.le_refl _), rfl⟩
    have offset : m.edit.start = s.file.source.length := by rw [edit]
    rw [Buffer.place_le_iff apart found (logged i m here) (by omega) given, Edit.Ahead]
    omega
  have outside : ∀ t : Tree, ¬ ((b.textBefore t.start).length ≤ b.place k e ∧
      b.place k e + e.text.length ≤ (b.upTo t.stop).length) ↔
        ¬ (t.start < e.start ∧ e.start < t.stop) := by
    intro t
    rw [Buffer.textBefore_le_place_iff found left given, Buffer.place_le_upTo_iff found left given]
  constructor
  · intro lands
    refine ⟨fun t ht other => ?_, fun t ht comment => ?_, fun ⟨m, hm, injected⟩ => ?_⟩
    · exact (Buffer.place_le_textBefore_iff found left given).1 (lands.before t ht other)
    · exact (outside t).1 (lands.outside t (.inr ⟨ht, comment⟩))
    · obtain ⟨i, inside, rfl⟩ := List.getElem_of_mem hm
      have here := List.getElem?_eq_getElem inside
      exact (order i _ here injected).1 (lands.injected i _ here injected)
  · intro free
    refine ⟨fun t ht other => ?_, fun t ht => (outside t).2 ?_, fun i m here injected => ?_⟩
    · exact (Buffer.place_le_textBefore_iff found left given).2 (free.behind t ht other)
    · rcases ht with ⟨child, top⟩ | ⟨node, comment⟩
      · by_cases import_ : t.kind = .importDeclaration
        · have := stop_le_behindLine parsed anchored
            (List.mem_filter.2 ⟨child, decide_eq_true import_⟩)
          omega
        · have := free.behind t child ⟨top, import_⟩
          omega
      · exact free.comments t node comment
    · exact (order i m here injected).2
        (free.injected ⟨m, List.mem_of_getElem? here, injected⟩)

/-- Wherever weaving adds a block of imports to a file, the block stands where imports are allowed,
before all other declarations and inside of none and of no comment, iff the line behind that of the
last import or of the package clause is free: no other declaration starts before it, no comment runs
over its start, and no declarations are injected there, at the end of the file. -/
theorem importBlock_lands_iff {path text out : Text} {before after : ImportState}
    {woven : WovenFile} (parsed : SourceFile.parse path text = .ok s.file)
    (run : (file s aspects importer lines).Yields before woven after)
    (changed : woven.text = some out) :
    ∃ d log extra r directives, Logs s (.ofSource s.file.source) (tasks s aspects) d log ∧
      Settles importer s.file d extra ∧
      let b := shown s.file lines ⟨s.file.source, log.map Entry.edit ++ extra⟩
      b.render = .ok r ∧ out = atMargin (Positions.insertLines 0 directives r.text) ∧
      (lines = false → directives = []) ∧
      ∀ gone anchor imports keepAlive, Imports.anchor? s.file.tree = some anchor →
        let e := Imports.insertion s.file.source anchor (Imports.block imports keepAlive)
        let k := log.length + gone.length
        extra = gone ++ [e] →
          r.text.slice (b.place k e) (b.place k e + e.text.length) = e.text ∧
          (Lands s.file log b k e ↔
            Free s.file log (Imports.behindLine s.file.source anchor)) := by
  have tree := (SourceFile.tree_of_parse parsed).1
  obtain ⟨d, log, extra, r, directives, logged, settles, rendered, written, bare⟩ :=
    exists_edits run changed
  refine ⟨d, log, extra, r, directives, logged, settles, rendered, written, bare, ?_⟩
  intro gone anchor imports keepAlive anchored e k split
  obtain ⟨start, left, given⟩ := Imports.insertion_spec s.file.source anchor imports keepAlive
  obtain ⟨more, whole, insertions⟩ :=
    shown_eq s.file lines ⟨s.file.source, log.map Entry.edit ++ extra⟩
  -- The edits are those of the advice, the deletions, the block and what moves statements apart.
  have edits : (shown s.file lines ⟨s.file.source, log.map Entry.edit ++ extra⟩).edits =
      log.map Entry.edit ++ (gone ++ e :: more) := by
    rw [whole, split]
    simp
  have forward : ∀ f ∈ (shown s.file lines ⟨s.file.source, log.map Entry.edit ++ extra⟩).edits,
      f.start ≤ f.stop := by
    rw [whole]
    refine List.forall_mem_append.2 ⟨List.forall_mem_append.2 ⟨?_, settles.forward tree⟩, ?_⟩
    · exact List.forall_mem_map.2 (logged.forward tree)
    · exact fun f hf => Nat.le_of_eq (insertions f hf)
  have found : (shown s.file lines ⟨s.file.source, log.map Entry.edit ++ extra⟩).edits[k]? =
      some e := by
    rw [edits, List.getElem?_append_right (by simp [k]), List.getElem?_append_right (by simp [k])]
    simp [k]
  obtain ⟨apart, -, -⟩ := Buffer.apart_of_render forward rendered
  constructor
  · rw [Buffer.render_at forward rendered found, Buffer.place, Text.slice_append_append]
  · rw [← start]
    refine lands_iff tree anchored apart (fun i m here => ?_) logged.injects found
      (Nat.le_add_right _ _) start left given
    have inside := (List.getElem?_eq_some_iff.1 here).1
    rw [edits, List.getElem?_append_left (by simpa using inside), List.getElem?_map, here]
    rfl

/-- An aspect that adds a variable, for which a package is imported. -/
def printingAspect : Aspect :=
  ⟨"printing", false, .sourceFile,
    [.injectDeclarations ⟨"var x = fmt.Sprint()", .ofList [("fmt", "fmt")], none⟩ []]⟩

/-- A file with a function behind its package clause. -/
def functionFile : Text := "package p\n\nfunc f() \x7b\n\x7d\n"

/-- Behind a package clause on a line of its own, with a function in the file, the block stands
where imports are allowed. -/
theorem importBlock_lands_function :
    ∃ file types before woven after out log extra r,
      SourceFile.parse "p.go" functionFile = .ok file ∧
      (Weave.file (SourceOptions.standard.scene file types) [printingAspect] ⟨noArchives, false⟩
        false).Yields before woven after ∧ woven.text = some out ∧
      (⟨file.source, log.map Entry.edit ++ extra⟩ : Buffer).render = .ok r ∧
      ∀ gone anchor imports keepAlive, Imports.anchor? file.tree = some anchor →
        let e := Imports.insertion file.source anchor (Imports.block imports keepAlive)
        extra = gone ++ [e] →
          Lands file log ⟨file.source, log.map Entry.edit ++ extra⟩
            (log.length + gone.length) e := by
  have passed : ((SourceFile.parse "p.go" functionFile).toOption.bind fun file =>
      ((Check.package "main" none [file] ⟨noArchives, false⟩).run.run .fresh).1.toOption.map
        fun types =>
          (((Weave.file (SourceOptions.standard.scene file types) [printingAspect]
            ⟨noArchives, false⟩ false).run.run .fresh).1.toOption.bind WovenFile.text).isSome &&
          (Imports.anchor? file.tree).any fun anchor =>
            let place := Imports.behindLine file.source anchor
            place < file.source.length &&
            (file.tree.children.all fun t =>
              ! t.kind.isTopLevelDeclaration || t.kind = .importDeclaration || place ≤ t.start) &&
            file.tree.preorder.all fun t => t.kind ≠ .comment) = some true := by decide +kernel
  -- The file is woven, and the line behind its package clause is free.
  obtain ⟨file, types, -, parsed, -, test⟩ := Check.exists_of_test passed
  obtain ⟨ran, free⟩ := Bool.and_eq_true_iff.1 test
  obtain ⟨out, ran⟩ := Option.isSome_iff_exists.1 ran
  obtain ⟨woven, ran, changed⟩ := Option.bind_eq_some_iff.1 ran
  obtain ⟨after, run⟩ := Importing.exists_yields_iff.2 (toOption_eq_some_iff.1 ran)
  obtain ⟨d, log, extra, r, -, -, -, rendered, -, -, lands⟩ :=
    importBlock_lands_iff parsed run changed
  refine ⟨file, types, .fresh, woven, after, out, log, extra, r, parsed, run, changed, rendered, ?_⟩
  intro gone anchor imports keepAlive anchored e split
  refine (lands gone anchor imports keepAlive anchored split).2.2 ?_
  rw [anchored] at free
  simp only [Option.any_some, Bool.and_eq_true, decide_eq_true_eq, List.all_eq_true,
    Bool.or_eq_true, Bool.not_eq_true'] at free
  obtain ⟨⟨inside, behind⟩, bare⟩ := free
  -- No comment stands in the file, so the declarations are all that could be in the way.
  refine ⟨fun t ht other => ?_, fun t ht comment => absurd comment (bare t ht), fun _ => inside⟩
  rcases behind t ht with (kind | kind) | low
  · exact absurd other.1 (by simp [kind])
  · exact absurd kind other.2
  · exact low

/-- A file that ends with the line of its package clause, with injected declarations behind it. -/
def variableFirst : Text :=
  ("package p\n//tool:startinstrument\nvar x = fmt.Sprint()\n//tool:endinstrument\n" : Text)
    ++ "//tool:startinstrument\nimport (\n\tfmt \"fmt\"\n)\n//tool:endinstrument\n"

/-- Where the file ends with the line of the package clause, injected declarations come before the
block of imports. -/
theorem importBlock_behind_variable :
    instrument "p.go" "package p\n" [printingAspect] .standard = .ok variableFirst ∧
      ∃ tree, parse? variableFirst = some tree ∧
        (tree.children.map Tree.kind).filter Kind.isTopLevelDeclaration =
          [.varDeclaration, .importDeclaration] := by
  have woven : (instrument "p.go" "package p\n" [printingAspect] .standard).toOption =
      some variableFirst := by decide +kernel
  have order : (parse? variableFirst).map (fun tree =>
      (tree.children.map Tree.kind).filter Kind.isTopLevelDeclaration) =
        some [.varDeclaration, .importDeclaration] := by decide +kernel
  obtain ⟨tree, parsed, kinds⟩ := Option.map_eq_some_iff.1 order
  exact ⟨toOption_eq_some_iff.1 woven, tree, parsed, kinds⟩

end Weave

end Interlace
