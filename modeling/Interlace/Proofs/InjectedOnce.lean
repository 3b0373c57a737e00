import Interlace.Proofs.EditPlaces
import Interlace.Proofs.NameClashes
import Interlace.Proofs.OccurringOnce
import Interlace.Proofs.WhiteSpace
import Interlace.Proofs.WovenEdits

/-!
# Declarations that are injected once

An advice that injects declarations looks for their text in the file first, wherever it stands. It
writes nothing where it finds it, be it between the markers of an earlier run or in a comment.
Otherwise it adds a block at the end of the file, and the block occurs once unless the rest of the
woven file holds it, too.

## Key results

- `Weave.declarationsBlock_unbordered`: a block of declarations does not overlap itself
- `Weave.exists_log`: the log of a run, and where its edits stand in the new text
- `Weave.once_of_sole`: a block that is the only edit occurs once
- `Weave.declarations_once_iff`: what an advice that injects declarations makes of a file
-/

namespace Interlace

open Syntax

namespace Buffer

/-- One insertion at the end puts the text behind the source. -/
private theorem render_insert_end {source text : Text} {bias : Bias} {r : Rendered}
    (rendered : (⟨source, [⟨source.length, source.length, text, bias⟩]⟩ : Buffer).render = .ok r) :
    r.text = source ++ text := by
  have all : source.slice 0 source.length = source := by simp [Text.slice]
  have none_left : source.slice source.length source.length = [] := by simp [Text.slice]
  change sweep source 0 ⟨[], []⟩ [_] = _ at rendered
  rw [sweep, if_neg (Nat.not_lt_zero _), if_neg (Nat.lt_irrefl _), Nat.max_self, sweep] at rendered
  cases rendered
  rw [Sweep.append_text, Sweep.append_text, Sweep.append_text, all, none_left, List.nil_append,
    List.append_nil]

end Buffer

namespace Weave

/-! ## Blocks of declarations -/

section

variable {source declared : Text}

/-- A marker that opens a block of declarations stands in the block only where the block starts. -/
private theorem not_isInfix_behind_marker (plain : ¬ Marker.startInstrument.comment <:+: declared) :
    ¬ Marker.startInstrument.comment <:+: (declarationsBlock declared).tail := by
  intro again
  -- Behind its first byte the block has the rest of the marker, the text, and the other marker.
  have behind : (declarationsBlock declared).tail = Marker.startInstrument.comment.tail ++
      Text.newline :: (Text.trimEnd declared ++
        Text.newline :: (Marker.endInstrument.comment ++ Text.newline :: [])) := by
    simp only [declarationsBlock, List.append_assoc]
    rfl
  rw [behind] at again
  have one_line : Text.newline ∉ Marker.startInstrument.comment := by decide
  rcases Text.infix_of_not_mem one_line again with opening | again
  · exact absurd opening (by decide)
  · rcases Text.infix_of_not_mem one_line again with inside | again
    · exact plain (inside.trans (Text.trimEnd_isPrefix declared).isInfix)
    · rcases Text.infix_of_not_mem one_line again with closing | ending
      · exact absurd closing (by decide)
      · exact absurd ending (by decide)

/-- A block of declarations that do not open a block does not overlap itself. -/
theorem declarationsBlock_unbordered (plain : ¬ Marker.startInstrument.comment <:+: declared) :
    (declarationsBlock declared).Unbordered := by
  intro a b whole start
  have marker : Marker.startInstrument.comment <+: declarationsBlock declared := by
    simp only [declarationsBlock, List.append_assoc]
    exact List.prefix_append _ _
  by_contra parted
  obtain ⟨given, left⟩ := not_or.1 parted
  rcases Nat.lt_or_ge b.length Marker.startInstrument.comment.length with short | long
  · -- The block ends with a line, and what is shorter than the marker is no whole line.
    have front : b <+: Marker.startInstrument.comment :=
      List.prefix_of_prefix_length_le start marker (Nat.le_of_lt short)
    have last : b.getLast left = Text.newline := by
      have ends : (declarationsBlock declared).getLast? = some Text.newline := by
        rw [declarationsBlock]
        exact List.getLast?_concat ..
      rw [whole, List.getLast?_append_of_ne_nil _ left, List.getLast?_eq_some_getLast left] at ends
      exact Option.some.inj ends
    have inside := front.subset (last ▸ List.getLast_mem left)
    exact absurd inside (by decide)
  · -- Otherwise the marker stands behind the start, too.
    have again := List.prefix_of_prefix_length_le marker start long
    refine not_isInfix_behind_marker plain (again.isInfix.trans ?_)
    obtain ⟨c, a, rfl⟩ := List.exists_cons_of_ne_nil given
    rw [whole]
    exact (List.suffix_append a b).isInfix

/-- The text of declarations stands in their block. -/
private theorem trim_isInfix_declarationsBlock (declared : Text) :
    Text.trim declared <:+: declarationsBlock declared := by
  refine (Text.trim_isInfix_trimEnd declared).trans
    ⟨Marker.startInstrument.comment ++ "\n", "\n" ++ Marker.endInstrument.comment ++ "\n", ?_⟩
  simp only [declarationsBlock, List.append_assoc]

/-- A file that does not hold the text of declarations gets no block of them by a line break. -/
private theorem not_isInfix_append_lineBreak (absent : ¬ Text.trim declared <:+: source) :
    ¬ declarationsBlock declared <:+: source ++ lineBreak source := by
  intro held
  have short : (lineBreak source).length ≤ 1 := by
    unfold lineBreak
    split <;> decide
  rw [declarationsBlock, List.append_assoc, List.append_assoc] at held
  have ending : 1 ≤ (("\n" : Text) ++ (Marker.endInstrument.comment ++ "\n")).length := by decide
  have found := Text.infix_of_append held (short.trans ending)
  refine absent ((Text.trim_isInfix_trimEnd declared).trans (List.IsInfix.trans ?_ found))
  exact (List.suffix_append _ _).isInfix

end

/-! ## The woven file -/

variable {s : Scene} {aspects : List Aspect} {importer : Importer} {lines : Bool}

/-- A file stays as it is if its only advice writes nothing and asks for nothing. -/
private theorem text_eq_none_of_sole {task : Task} {d : Draft} {before after : ImportState}
    {woven : WovenFile} (run : (file s aspects importer lines).Yields before woven after)
    (sole : tasks s aspects = [task])
    (idle : task.advice.apply s task.site (.ofSource s.file.source) = .ok (false, d))
    (edits : d.buffer.edits = []) (references : d.references = .empty) : woven.text = none := by
  obtain ⟨d', b, between, edited, published⟩ := file_yields run
  obtain ⟨applied, performed, settled⟩ := edited_performs edited
  rw [sole] at performed
  obtain _ | ⟨call, later⟩ := performed
  cases later
  cases idle.symm.trans call
  -- Nothing was collected, so there is nothing to reconcile or to render.
  have nothing : ¬ (0 < (d, 0).2 || ! (d, 0).1.references.isEmpty) = true := by
    rw [references]
    exact nofun
  change (settle s importer (d, 0)).Yields before b between at settled
  rw [settle, if_neg nothing] at settled
  obtain ⟨rfl, rfl⟩ := Importing.yields_pure.1 settled
  have bare : (d, 0).1.buffer.isEmpty = true := List.isEmpty_iff.2 edits
  rw [publish, if_pos bare] at published
  obtain ⟨rfl, -⟩ := Importing.yields_pure.1 published
  rfl

/-- A file with edits gets a new text. -/
private theorem exists_text_of_edits {d : Draft} {b : Buffer} {before after : ImportState}
    {woven : WovenFile} (edits : b.edits ≠ [])
    (published : (publish s lines d b).Yields before woven after) :
    ∃ out, woven.text = some out := by
  have given : ¬ b.isEmpty = true := fun bare => edits (List.isEmpty_iff.1 bare)
  rw [publish, if_neg given] at published
  split at published
  · obtain ⟨rfl, -⟩ := Importing.yields_pure.1 published
    exact ⟨_, rfl⟩
  · exact absurd published Importing.not_yields_throw

/-- Every run has a log. If something was written, the file gets a new text, where the text of each
edit stands at its place. -/
theorem exists_log {path text : Text} {before after : ImportState} {woven : WovenFile}
    (parsed : SourceFile.parse path text = .ok s.file)
    (run : (file s aspects importer lines).Yields before woven after) :
    ∃ d log extra, Logs s (.ofSource s.file.source) (tasks s aspects) d log ∧
      Settles importer s.file d extra ∧
      let b := shown s.file lines ⟨s.file.source, log.map Entry.edit ++ extra⟩
      ∀ (k : Nat) (e : Entry), log[k]? = some e → ∃ out r directives, woven.text = some out ∧
        b.render = .ok r ∧ out = atMargin (Positions.insertLines 0 directives r.text) ∧
        (lines = false → directives = [] ∧ (indented r.text = [] → out = r.text)) ∧
        r.text = b.front k e.edit ++ e.edit.text ++ b.back k e.edit := by
  obtain ⟨d, b, between, edits, published⟩ := file_yields run
  obtain ⟨log, extra, logged, settles, rfl⟩ := edited_yields edits
  refine ⟨d, log, extra, logged, settles, fun k e found => ?_⟩
  have here : (log.map Entry.edit ++ extra)[k]? = some e.edit := by
    have low := (List.getElem?_eq_some_iff.1 found).1
    rw [List.getElem?_append_left (by simpa using low), List.getElem?_map, found]
    rfl
  obtain ⟨out, changed⟩ :=
    exists_text_of_edits (List.ne_nil_of_mem (List.mem_of_getElem? here)) published
  obtain ⟨r, directives, rendered, written, bare⟩ := publish_yields published changed
  refine ⟨out, r, directives, changed, rendered, written,
    fun noLines => ⟨bare noLines, fun flat => ?_⟩, ?_⟩
  · rw [written, bare noLines, Positions.insertLines, atMargin, atMargin?, flat]
    rfl
  · exact Buffer.render_at (shown_forward lines logged settles (SourceFile.tree_of_parse parsed).1)
      rendered (getElem?_shown here)

/-- Where nothing else is edited, the block of injected declarations occurs once. -/
theorem once_of_sole {source declared : Text} {r : Rendered}
    (plain : ¬ Marker.startInstrument.comment <:+: declared)
    (absent : ¬ Text.trim declared <:+: source)
    (rendered : (⟨source, [injection source declared]⟩ : Buffer).render = .ok r) :
    r.text = source ++ lineBreak source ++ declarationsBlock declared ∧
      Text.OccursOnce (declarationsBlock declared) r.text := by
  have text := Buffer.render_insert_end rendered
  rw [← List.append_assoc] at text
  refine ⟨text, ?_⟩
  have given : declarationsBlock declared ≠ [] := List.cons_ne_nil _ _
  rw [text, ← List.append_nil (_ ++ declarationsBlock declared),
    (declarationsBlock_unbordered plain).occursOnce_iff given]
  exact ⟨not_isInfix_append_lineBreak absent, fun held => given (List.infix_nil.1 held)⟩

/-- An advice that injects declarations looks for their text in the file, wherever it stands. Where
it finds the text, as in the block of an earlier run, it writes nothing. Otherwise it adds a block
at the end of the file, and the block occurs once iff it occurs neither before nor behind, as where
nothing else is edited. -/
theorem declarations_once_iff {path text : Text} {before after : ImportState} {woven : WovenFile}
    {front back : List Task} {task : Task} {template : Template} {links : List Text}
    (parsed : SourceFile.parse path text = .ok s.file)
    (run : (file s aspects importer lines).Yields before woven after)
    (listed : tasks s aspects = front ++ task :: back)
    (advice : task.advice = .injectDeclarations template links) :
    ∃ d first changed d' rest last extra rendered,
      Logs s (.ofSource s.file.source) front d first ∧
      task.advice.apply s task.site d = .ok (changed, d') ∧
      Logs s d' back last rest ∧ Settles importer s.file last extra ∧
      s.render task.site template none = .ok rendered ∧
      let source := s.file.source
      let declared := (d.localize s template rendered).1
      let block := declarationsBlock declared
      (changed = true ↔ ¬ Text.trim declared <:+: source) ∧
      (block <:+: source → changed = false) ∧
      (changed = false →
        d'.buffer = d.buffer ∧ (front = [] → back = [] → woven.text = none)) ∧
      (changed = true →
        let e := injection source declared
        let b := shown s.file lines
          ⟨source, first.map Entry.edit ++ e :: (rest.map Entry.edit ++ extra)⟩
        let ahead := b.front first.length e ++ lineBreak source
        let behind := b.back first.length e
        ∃ out r directives, woven.text = some out ∧ b.render = .ok r ∧
          out = atMargin (Positions.insertLines 0 directives r.text) ∧
          (lines = false → directives = [] ∧ (indented r.text = [] → out = r.text)) ∧
          r.text = ahead ++ block ++ behind ∧
          (¬ Marker.startInstrument.comment <:+: declared →
            (Text.OccursOnce block r.text ↔ ¬ block <:+: ahead ∧ ¬ block <:+: behind) ∧
            (front = [] → back = [] → extra = [] → lines = false →
              r.text = source ++ lineBreak source ++ block ∧ Text.OccursOnce block r.text))) := by
  -- The run is that of the tasks before this one, this one, and those behind it.
  obtain ⟨last, log, extra, logged, settles, shows⟩ := exists_log parsed run
  rw [listed] at logged
  obtain ⟨d, changed, d', first, entries, rest, earlier, call, writes, later, rfl⟩ :=
    logged.exists_split
  -- What this one does is decided by whether the file holds its text.
  have injects := call
  rw [advice] at injects
  obtain ⟨rendered, given, found, held, added⟩ := injectDeclarations_eq_ok injects
  rw [← Bool.not_eq_true, Text.contains_iff_isInfix] at found
  have same := d.sameEdits_localize s template rendered
  refine ⟨d, first, changed, d', rest, last, extra, rendered, earlier, call, later, settles, given,
    found, fun block => ?_, fun idle => ⟨?_, fun noFront noBack => ?_⟩, fun busy => ?_⟩
  · -- A block of an earlier run holds the text.
    rw [← Bool.not_eq_true, found, not_not]
    exact (trim_isInfix_declarationsBlock _).trans block
  · rw [held idle, same.buffer]
  · subst noFront noBack idle
    cases earlier
    refine text_eq_none_of_sole run listed call ?_ ?_
    · rw [held rfl, same.buffer]
      rfl
    · rw [held rfl]
      exact Draft.references_localize _ s template rendered
  · subst busy
    intro e b ahead behind
    -- It writes the one block, which stands among the other edits in its turn.
    have entry : entries.map Entry.edit = [e] := by
      have edits := writes.edits
      rwa [added rfl, List.append_cancel_left_eq, eq_comm] at edits
    have all : (first ++ (entries ++ rest)).map Entry.edit ++ extra =
        first.map Entry.edit ++ e :: (rest.map Entry.edit ++ extra) := by
      simp only [List.map_append, entry, List.append_assoc, List.cons_append, List.nil_append]
    obtain ⟨mine, rfl, edit⟩ := List.map_eq_singleton_iff.1 entry
    obtain ⟨out, r, directives, given, swept, written, flat, text⟩ :=
      shows first.length mine (by simp)
    rw [all] at swept text
    rw [edit] at text
    have text : r.text = ahead ++ declarationsBlock (d.localize s template rendered).1 ++ behind :=
      text.trans (by simp only [ahead, behind, e, injection, List.append_assoc]; rfl)
    refine ⟨out, r, directives, given, swept, written, flat, text, fun plain => ⟨?_, ?_⟩⟩
    · rw [text]
      -- A block cannot overlap a copy of itself, so others stand before it or behind it.
      exact (declarationsBlock_unbordered plain).occursOnce_iff (List.cons_ne_nil _ _)
    · intro noFront noBack noImports noLines
      subst noFront noBack noImports noLines
      cases earlier
      cases later
      exact once_of_sole plain (found.1 rfl) swept

/-- An advice without imports and links asks for nothing. -/
private theorem references_of_plain {site : Site} {template : Template} {d d' : Draft}
    {changed : Bool} (plain : template.imports.entries = [])
    (h : d.injectDeclarations s site template [] = .ok (changed, d')) :
    d'.references = d.references := by
  -- A template without imports and version asks for nothing when it is used.
  have kept : ∀ d : Draft, (d.useTemplate s template).references = d.references := by
    intro d
    rw [Draft.useTemplate, plain, List.foldl_nil]
    cases template.version <;> rfl
  unfold Draft.injectDeclarations at h
  split at h
  · cases h
  · obtain ⟨rendered, -, h⟩ := bind_eq_ok_iff.1 h
    have same := Draft.references_localize d s template rendered
    dsimp only at h
    split at h
    · cases h
      exact same
    · cases h
      rw [kept]
      exact same

/-- An aspect that adds a variable. -/
def declaringAspect : Aspect :=
  ⟨"declaring", false, .sourceFile, [.injectDeclarations ⟨"var x = 1", .empty, none⟩ []]⟩

private theorem render_declaring (s : Scene) (site : Site) :
    s.render site ⟨"var x = 1", .empty, none⟩ none = .ok "var x = 1" :=
  rfl

/-- A test that succeeds on a file and on what the aspect makes of it gives both. -/
private theorem exists_declaring (text : Text) (test : SourceFile → WovenFile → Bool)
    (passed : ((SourceFile.parse "p.go" text).toOption.bind fun file =>
      ((Check.package "main" none [file] ⟨noArchives, false⟩).run.run .fresh).1.toOption.map
        fun types =>
          let s := SourceOptions.standard.scene file types
          (tasks s [declaringAspect]).length = 1 &&
          ((Weave.file s [declaringAspect] ⟨noArchives, false⟩ false).run.run
            .fresh).1.toOption.map (test file) = some true) = some true) :
    ∃ file types woven after task, SourceFile.parse "p.go" text = .ok file ∧
      (Weave.file (SourceOptions.standard.scene file types) [declaringAspect] ⟨noArchives, false⟩
        false).Yields .fresh woven after ∧
      tasks (SourceOptions.standard.scene file types) [declaringAspect] = [] ++ task :: [] ∧
      task.advice = .injectDeclarations ⟨"var x = 1", .empty, none⟩ [] ∧
      test file woven = true := by
  obtain ⟨file, types, -, parsed, -, passed⟩ := Check.exists_of_test passed
  simp only [Bool.and_eq_true, decide_eq_true_eq] at passed
  obtain ⟨single, passed⟩ := passed
  obtain ⟨woven, ran, passed⟩ := Option.map_eq_some_iff.1 passed
  obtain ⟨after, run⟩ := Importing.exists_yields_iff.2 (toOption_eq_some_iff.1 ran)
  obtain ⟨task, listed⟩ := List.length_eq_one_iff.1 single
  obtain ⟨aspect, only, advice⟩ := advice_of_mem_tasks (listed ▸ List.mem_singleton_self task)
  cases List.mem_singleton.1 only
  exact ⟨file, types, woven, after, task, parsed, run, listed, List.mem_singleton.1 advice, passed⟩

/-- In a file that does not have the variable, its declaration is injected once. -/
theorem declarations_once_package :
    ∃ file types before woven after out,
      SourceFile.parse "p.go" "package p\n" = .ok file ∧
      (Weave.file (SourceOptions.standard.scene file types) [declaringAspect] ⟨noArchives, false⟩
        false).Yields before woven after ∧ woven.text = some out ∧
      Text.OccursOnce (declarationsBlock "var x = 1") out := by
  obtain ⟨file, types, woven, after, task, parsed, run, listed, advice, passed⟩ :=
    exists_declaring "package p\n" (fun file _ =>
      (file.tree.childrenOf .importDeclaration).isEmpty && file.source = "package p\n")
      (by decide +kernel)
  simp only [Bool.and_eq_true, decide_eq_true_eq, List.isEmpty_iff] at passed
  obtain ⟨bare, source⟩ := passed
  obtain ⟨d, first, changed, d', rest, last, extra, rendered, earlier, call, later, settles, given,
    found, -, -, injects⟩ := declarations_once_iff parsed run listed advice
  cases earlier
  cases later
  rw [advice] at call
  cases (render_declaring _ _).symm.trans given
  -- Nothing of the text stands in the file, so it is injected.
  have absent : ¬ Text.trim "var x = 1" <:+: file.source := by
    rw [source]
    decide
  obtain ⟨out, r, directives, changed, -, -, flat, -, once⟩ := injects (found.2 absent)
  -- It refers to no package, so the imports are left as they are.
  have untouched : extra = [] := settles.eq_nil (references_of_plain rfl call) bare
  have plain : ¬ Marker.startInstrument.comment <:+: "var x = 1" := by decide
  obtain ⟨text, once⟩ := (once plain).2 rfl rfl untouched rfl
  have same : out = r.text := by
    refine (flat rfl).2 ?_
    rw [text]
    change indented (file.source ++ lineBreak file.source ++ declarationsBlock "var x = 1") = []
    rw [source]
    decide
  exact ⟨file, types, .fresh, woven, after, out, parsed, run, changed, same ▸ once⟩

/-- A file with a comment that has the text of the variable. -/
def mentioned : Text := "package p\n// var x = 1\n"

/-- A file that mentions the text of a declaration in a comment does not get the declaration. -/
theorem not_declarations_once :
    ¬ ∀ (path text : Text) (s : Scene) (aspect : Aspect) (importer : Importer)
      (before after : ImportState) (woven : WovenFile) (front back : List Task) (task : Task)
      (template : Template) (links : List Text) (d : Draft) (n : Nat) (rendered : Text),
      SourceFile.parse path text = .ok s.file →
      (file s [aspect] importer false).Yields before woven after →
      tasks s [aspect] = front ++ task :: back →
      task.advice = .injectDeclarations template links →
      Performs s (.ofSource s.file.source, 0) front (d, n) →
      s.render task.site template none = .ok rendered →
      Text.trim (d.localize s template rendered).1 ≠ [] →
      Text.OccursOnce (declarationsBlock (d.localize s template rendered).1)
        (woven.text.getD s.file.source) := by
  intro once
  obtain ⟨file, types, woven, after, task, parsed, run, listed, advice, passed⟩ :=
    exists_declaring mentioned
      (fun file woven => woven.text.isNone && file.source = mentioned) (by decide +kernel)
  simp only [Bool.and_eq_true, decide_eq_true_eq, Option.isNone_iff_eq_none] at passed
  obtain ⟨unchanged, source⟩ := passed
  have given : Text.trim "var x = 1" ≠ [] := by decide
  obtain ⟨before, ⟨behind, stands⟩, -⟩ := once _ _ _ _ _ _ _ _ _ _ _ _ _ _ _ _ parsed run listed
    advice (.nil _) (render_declaring _ _) given
  -- The file is left as it is, and it holds no block.
  have held : declarationsBlock "var x = 1" <:+: mentioned := by
    rw [unchanged] at stands
    exact ⟨before, behind, (stands.symm.trans source : _)⟩
  exact absurd held (by decide)

end Weave

end Interlace
