import Interlace.Proofs.AdviceLog
import Interlace.Proofs.ReconciledImports

/-!
# The edits of a woven file

A woven file has the edits of its advice, then those that reconcile its imports. With line
directives, statements that share changed lines are moved apart before the file is rendered.

## Key results

- `Weave.file_yields`, `Weave.edited_yields`: weaving comes to its edits, and renders them
- `Weave.exists_edits`: what is rendered for a woven file
- `Weave.Settles.edits`: what reconciling adds to the edits of the advice
- `Weave.Logs.injects`: declarations are injected at the end of the file
-/

namespace Interlace

open Syntax

namespace Positions

/-- Moving statements apart takes insertions only. -/
private theorem canonical_eq (file : SourceFile) (b : Buffer) :
    ∃ more, canonical file b = ⟨b.source, b.edits ++ more⟩ ∧ ∀ e ∈ more, e.start = e.stop := by
  unfold canonical
  refine foldl_keeps (K := fun b' : Buffer => ∃ more, b' = ⟨b.source, b.edits ++ more⟩ ∧
    ∀ e ∈ more, e.start = e.stop) ?_ ⟨[], by rw [List.append_nil], nofun⟩
  rintro _ anchor - ⟨more, rfl, insertions⟩
  unfold separate
  dsimp only
  split
  · exact ⟨more, rfl, insertions⟩
  · refine ⟨more ++ [_], by rw [Buffer.insert, Buffer.push, List.append_assoc], ?_⟩
    rw [List.forall_mem_append]
    exact ⟨insertions, List.forall_mem_singleton.2 rfl⟩

end Positions

namespace Weave

variable {s : Scene} {aspects : List Aspect} {importer : Importer} {lines : Bool} {d : Draft}
  {log : List Entry} {extra : List Edit}

/-- What is added to the edits of the advice in the end: nothing, or what reconciles the
imports. -/
inductive Settles (importer : Importer) (file : SourceFile) (d : Draft) : List Edit → Prop where
  | untouched : Settles importer file d []
  | reconciled {existing : List ExistingImport} {added : List AddedImport} {extra : List Edit}
      (reconciles : Imports.Reconciles importer file d.references d.buffer
        ⟨d.buffer.source, d.buffer.edits ++ extra⟩ existing added) :
      Settles importer file d extra

/-- The edits that are rendered. -/
def shown (file : SourceFile) (lines : Bool) (b : Buffer) : Buffer :=
  if lines then Positions.canonical file b else b

theorem shown_eq (file : SourceFile) (lines : Bool) (b : Buffer) :
    ∃ more, shown file lines b = ⟨b.source, b.edits ++ more⟩ ∧ ∀ e ∈ more, e.start = e.stop := by
  cases lines with
  | true => exact Positions.canonical_eq file b
  | false => exact ⟨[], by rw [List.append_nil]; rfl, nofun⟩

/-- The edits that were there are rendered in their order. -/
theorem getElem?_shown {file : SourceFile} {b : Buffer} {k : Nat} {e : Edit}
    (found : b.edits[k]? = some e) : (shown file lines b).edits[k]? = some e := by
  obtain ⟨more, whole, -⟩ := shown_eq file lines b
  rw [whole, List.getElem?_append_left (List.getElem?_eq_some_iff.1 found).1, found]

/-- The text of an edited file is what its edits are rendered to, with line directives. -/
private theorem render_eq_ok {file : SourceFile} {b : Buffer} {out : Text}
    (h : render file lines b = .ok out) :
    ∃ r directives, (shown file lines b).render = .ok r ∧
      out = Positions.insertLines 0 directives r.text ∧ (lines = false → directives = []) := by
  unfold render at h
  -- Directives go in only after rendering, so the text is rendered either way.
  cases lines with
  | true =>
    rw [if_pos rfl, Positions.annotate] at h
    cases rendered : (Positions.canonical file b).render with
    | error fault =>
      rw [rendered] at h
      cases h
    | ok r =>
      rw [rendered] at h
      dsimp only at h
      split at h
      · cases h
      · rename_i tree _
        cases h
        exact ⟨r, Positions.directives file r tree, rendered, rfl, nofun⟩
  | false =>
    rw [if_neg Bool.false_ne_true] at h
    cases rendered : b.render with
    | error fault =>
      rw [rendered] at h
      cases h
    | ok r =>
      rw [rendered] at h
      cases h
      exact ⟨r, [], rendered, rfl, fun _ => rfl⟩

/-- The edits of the advice, with those that reconcile the imports. -/
def settle (s : Scene) (importer : Importer) (p : Progress) : Importing Buffer :=
  if 0 < p.2 || ! p.1.references.isEmpty then do
    match ← Imports.reconcile importer s.file p.1.references p.1.buffer with
    | .ok b => pure b
    | .error fault => throw (failed s.file reconciler 0 fault)
  else pure p.1.buffer

/-- What the advice for a file comes to, and all edits of the file. -/
def edited (s : Scene) (aspects : List Aspect) (importer : Importer) :
    Importing (Draft × Buffer) := do
  match (tasks s aspects).foldlM (perform s) (.ofSource s.file.source, 0) with
  | .ok p => return (p.1, ← settle s importer p)
  | .error failure => throw (failed s.file failure.aspect failure.index failure.fault)

/-- What weaving does with the edits that it comes to. -/
def publish (s : Scene) (lines : Bool) (d : Draft) (b : Buffer) : Importing WovenFile :=
  if b.isEmpty then return ⟨none, d.references, d.version⟩
  else
    match render s.file lines b with
    | .ok text => return ⟨some (atMargin text), d.references, d.version⟩
    | .error fault => throw (failed s.file annotator 0 fault)

private theorem finish_yields {p : Progress} {before after : ImportState} {woven : WovenFile}
    (run : (finish s importer lines p).Yields before woven after) :
    ∃ b between, (settle s importer p).Yields before b between ∧
      (publish s lines p.1 b).Yields between woven after := by
  unfold finish at run
  unfold settle
  dsimp only at run
  -- With something to reconcile the imports are read first; without, the buffer is published as it
  -- is.
  split at run
  · rename_i due
    rw [if_pos due]
    obtain ⟨answer, between, reconciled, run⟩ := Importing.yields_bind.1 run
    cases answer with
    | error fault =>
      obtain ⟨_, _, failed, -⟩ := Importing.yields_bind.1 run
      exact absurd failed Importing.not_yields_throw
    | ok b =>
      obtain ⟨_, _, same, run⟩ := Importing.yields_bind.1 run
      obtain ⟨rfl, rfl⟩ := Importing.yields_pure.1 same
      exact ⟨b, between, Importing.yields_bind.2
        ⟨.ok b, between, reconciled, Importing.yields_pure.2 ⟨rfl, rfl⟩⟩, run⟩
  · rename_i idle
    rw [if_neg idle]
    obtain ⟨b, between, same, run⟩ := Importing.yields_bind.1 run
    exact ⟨b, between, same, run⟩

/-- Weaving comes to its edits first, and renders them then. -/
theorem file_yields {before after : ImportState} {woven : WovenFile}
    (run : (file s aspects importer lines).Yields before woven after) :
    ∃ d b between, (edited s aspects importer).Yields before (d, b) between ∧
      (publish s lines d b).Yields between woven after := by
  rw [file_eq] at run
  unfold edited
  cases performed : (tasks s aspects).foldlM (perform s) (.ofSource s.file.source, 0) with
  | error failure =>
    rw [performed] at run
    exact absurd run Importing.not_yields_throw
  | ok p =>
    rw [performed] at run
    obtain ⟨b, between, settled, published⟩ := finish_yields run
    exact ⟨p.1, b, between,
      Importing.yields_bind.2 ⟨b, between, settled, Importing.yields_pure.2 ⟨rfl, rfl⟩⟩, published⟩

/-- Whether the imports are reconciled or not, the edits of the advice stay in front. -/
theorem settle_yields {p : Progress} {before after : ImportState} {b : Buffer}
    (run : (settle s importer p).Yields before b after) :
    ∃ extra, Settles importer s.file p.1 extra ∧
      b = ⟨p.1.buffer.source, p.1.buffer.edits ++ extra⟩ := by
  unfold settle at run
  split at run
  · obtain ⟨answer, between, reconciled, run⟩ := Importing.yields_bind.1 run
    cases answer with
    | error fault => exact absurd run Importing.not_yields_throw
    | ok b' =>
      obtain ⟨rfl, -⟩ := Importing.yields_pure.1 run
      obtain ⟨existing, added, -, h⟩ := Imports.reconcile_yields reconciled
      obtain ⟨additions, -, rfl⟩ := h.edits
      rw [List.append_assoc] at h
      exact ⟨_, .reconciled h, by rw [List.append_assoc]⟩
  · obtain ⟨rfl, -⟩ := Importing.yields_pure.1 run
    exact ⟨[], .untouched, by rw [List.append_nil]⟩

/-- All edits of a file come from carrying out the advices in order, then from reconciling the
imports. -/
theorem edited_performs {before after : ImportState} {b : Buffer}
    (run : (edited s aspects importer).Yields before (d, b) after) :
    ∃ applied, Performs s (.ofSource s.file.source, 0) (tasks s aspects) (d, applied) ∧
      (settle s importer (d, applied)).Yields before b after := by
  unfold edited at run
  cases performed : (tasks s aspects).foldlM (perform s) (.ofSource s.file.source, 0) with
  | error failure =>
    rw [performed] at run
    exact absurd run Importing.not_yields_throw
  | ok p =>
    rw [performed] at run
    obtain ⟨b', between, settled, same⟩ := Importing.yields_bind.1 run
    obtain ⟨same, rfl⟩ := Importing.yields_pure.1 same
    cases same
    exact ⟨p.2, performs_of_foldlM_eq_ok performed, settled⟩

/-- The edits of a file are those of its advice, then those that reconcile the imports. -/
theorem edited_yields {before after : ImportState} {b : Buffer}
    (run : (edited s aspects importer).Yields before (d, b) after) :
    ∃ log extra, Logs s (.ofSource s.file.source) (tasks s aspects) d log ∧
      Settles importer s.file d extra ∧
      b = ⟨s.file.source, log.map Entry.edit ++ extra⟩ := by
  obtain ⟨applied, performed, settled⟩ := edited_performs run
  obtain ⟨log, logged⟩ := performed.exists_logs
  obtain ⟨extra, settles, rfl⟩ := settle_yields settled
  exact ⟨log, extra, logged, settles, by rw [logged.buffer]⟩

/-- A published text is what the edits are rendered to, with line directives at the margin. -/
theorem publish_yields {before after : ImportState} {b : Buffer} {woven : WovenFile} {out : Text}
    (run : (publish s lines d b).Yields before woven after) (changed : woven.text = some out) :
    ∃ r directives, (shown s.file lines b).render = .ok r ∧
      out = atMargin (Positions.insertLines 0 directives r.text) ∧
      (lines = false → directives = []) := by
  unfold publish at run
  split at run
  · obtain ⟨rfl, -⟩ := Importing.yields_pure.1 run
    cases changed
  · split at run
    · rename_i text rendered
      obtain ⟨rfl, -⟩ := Importing.yields_pure.1 run
      cases changed
      obtain ⟨r, directives, swept, rfl, bare⟩ := render_eq_ok rendered
      exact ⟨r, directives, swept, rfl, bare⟩
    · exact absurd run Importing.not_yields_throw

/-- Weaving that changes a file renders the edits of its advice and those that reconcile the
imports. -/
theorem exists_edits {before after : ImportState} {woven : WovenFile} {out : Text}
    (run : (file s aspects importer lines).Yields before woven after)
    (changed : woven.text = some out) :
    ∃ d log extra r directives, Logs s (.ofSource s.file.source) (tasks s aspects) d log ∧
      Settles importer s.file d extra ∧
      (shown s.file lines ⟨s.file.source, log.map Entry.edit ++ extra⟩).render = .ok r ∧
      out = atMargin (Positions.insertLines 0 directives r.text) ∧
      (lines = false → directives = []) := by
  obtain ⟨d, b, between, edits, published⟩ := file_yields run
  obtain ⟨log, extra, logged, settles, rfl⟩ := edited_yields edits
  obtain ⟨r, directives, rendered, written, bare⟩ := publish_yields published changed
  exact ⟨d, log, extra, r, directives, logged, settles, rendered, written, bare⟩

/-! ## The edits of the advice -/

/-- The range of an operand in a file is a proper one. -/
private theorem operand?_forward {source : Text} {tree : Tree} (parsed : parse? source = some tree)
    {site : Site} (hs : site ∈ tree.sites) {operand : Tree}
    (found : operand? site.node = some operand) : operand.start ≤ operand.stop := by
  obtain ⟨function, called, qualified⟩ := Option.bind_eq_some_iff.1 found
  have below : operand ∈ Tree.preorderAll site.node.children := by
    refine mem_preorderAll_of_child (List.mem_of_find?_eq_some called) ?_
    rw [function.preorder_eq]
    refine List.mem_cons_of_mem _ (preorder_subset_of_mem (List.mem_of_find?_eq_some qualified) ?_)
    rw [operand.preorder_eq]
    exact List.mem_cons_self
  obtain ⟨-, bare⟩ | ⟨le, -⟩ :=
    nodes_inside parsed operand (Site.below_preorderAt tree [] site hs below)
  · -- A comment plays no part in its parent.
    have part : operand.field = some .operand := by simpa using List.find?_some qualified
    rw [bare] at part
    cases part
  · exact le

/-- No edit of an advice ends before it starts. -/
theorem Logs.forward (logged : Logs s (.ofSource s.file.source) (tasks s aspects) d log)
    (parsed : parse? s.file.source = some s.file.tree) :
    ∀ e ∈ log, e.edit.start ≤ e.edit.stop := by
  refine logged.forall_mem fun t ht d' entries records => ?_
  cases records with
  | nothing => exact List.forall_mem_nil _
  | block offset shape => exact List.forall_mem_singleton.2 (Nat.le_refl _)
  | text found inserts =>
    refine List.forall_mem_append.2 ⟨?_, fun e due => ?_⟩
    · -- Text is put in at a point, or the operand of a call is replaced.
      cases inserts with
      | wrap wraps halves => simp
      | value text => simp
      | operand name advice found package =>
        exact List.forall_mem_singleton.2 (operand?_forward parsed (site_mem_of_mem_tasks ht) found)
    · obtain ⟨m, -, rfl⟩ := mem_dueMarks due
      exact Nat.le_of_eq (Mark.edit_inserts s.file.source m).1.symm

theorem Records.task {t : Task} {entries : List Entry} (h : Records s t d entries) :
    ∀ e ∈ entries, e.task = t := by
  cases h with
  | nothing => exact List.forall_mem_nil _
  | block offset shape => exact List.forall_mem_singleton.2 rfl
  | text found inserts =>
    refine List.forall_mem_append.2 ⟨fun e he => (inserts.isText e he).1, fun e due => ?_⟩
    obtain ⟨m, -, rfl⟩ := mem_dueMarks due
    rfl

/-- The entry is a block of injected declarations. -/
def Entry.injects (e : Entry) : Prop :=
  ∃ template links, e.task.advice = .injectDeclarations template links

/-- The line break that a file lacks at its end. -/
def lineBreak (source : Text) : Text :=
  if source.isEmpty || Text.endsWith source "\n" then [] else [Text.newline]

/-- Declarations as they are injected, between markers. -/
def declarationsBlock (declared : Text) : Text :=
  Marker.startInstrument.comment ++ "\n" ++ Text.trimEnd declared ++ "\n"
    ++ Marker.endInstrument.comment ++ "\n"

/-- The insertion of declarations at the end of a file. -/
def injection (source declared : Text) : Edit :=
  ⟨source.length, source.length, lineBreak source ++ declarationsBlock declared, .left⟩

/-- Declarations are injected by one insertion at the end of the file, unless the file holds their
text. -/
theorem injectDeclarations_eq_ok {site : Site} {template : Template} {links : List Text}
    {changed : Bool} {d' : Draft}
    (h : d.injectDeclarations s site template links = .ok (changed, d')) :
    ∃ rendered, s.render site template none = .ok rendered ∧
      let declared := (d.localize s template rendered).1
      (changed = true ↔ Text.contains s.file.source (Text.trim declared) = false) ∧
      (changed = false → d' = (d.localize s template rendered).2) ∧
      (changed = true →
        d'.buffer.edits = d.buffer.edits ++ [injection s.file.source declared]) := by
  unfold Draft.injectDeclarations at h
  split at h
  · cases h
  · obtain ⟨rendered, given, h⟩ := bind_eq_ok_iff.1 h
    -- Whether the file holds the text is decided on the localized text.
    have same := d.sameEdits_localize s template rendered
    refine ⟨rendered, given, ?_⟩
    dsimp only at h ⊢
    split at h
    · rename_i held
      cases h
      exact ⟨by simp [held], fun _ => rfl, nofun⟩
    · rename_i absent
      cases h
      refine ⟨by simpa using absent, nofun, fun _ => ?_⟩
      rw [(Draft.sameEdits_useTemplate _ s template).buffer]
      show (d.localize s template rendered).2.buffer.edits ++ _ = _
      rw [same.buffer]
      simp only [injection, declarationsBlock, lineBreak, List.append_assoc]

/-- Declarations are injected at the end of the file. -/
theorem Logs.injects {ts : List Task} {d d' : Draft} (logged : Logs s d ts d' log) :
    ∀ e ∈ log, e.injects →
      ∃ text, text ≠ [] ∧ e.edit = ⟨s.file.source.length, s.file.source.length, text, .left⟩ := by
  induction logged with
  | nil d => exact List.forall_mem_nil _
  | @cons d between d'' t ts changed entries log applied writes _ ih =>
    refine List.forall_mem_append.2 ⟨fun e here => ?_, ih⟩
    rintro ⟨template, links, advice⟩
    rw [writes.records.task e here] at advice
    rw [advice] at applied
    have listed := List.mem_map_of_mem (f := Entry.edit) here
    obtain ⟨rendered, -, -, held, added⟩ := injectDeclarations_eq_ok applied
    -- What changed nothing wrote nothing, so there is no entry.
    cases changed with
    | false =>
      have same := congrArg Draft.buffer (held rfl)
      rw [(d.sameEdits_localize s template rendered).buffer] at same
      have same := congrArg Buffer.edits same
      rw [writes.edits] at same
      rw [List.append_right_eq_self.1 same] at listed
      cases listed
    | true =>
      have added := added rfl
      rw [writes.edits, List.append_cancel_left_eq] at added
      rw [added] at listed
      refine ⟨_, ?_, List.mem_singleton.1 listed⟩
      exact List.append_ne_nil_of_right_ne_nil _ (List.cons_ne_nil _ _)

/-! ## Reconciled imports -/

/-- What is added in the end removes nodes, and may insert one block. -/
theorem Settles.edits (h : Settles importer s.file d extra) :
    ∃ (gone : List Tree) (additions : List Edit),
      extra = gone.map (Imports.deletion s.file.source) ++ additions ∧
      (additions = [] ∨ ∃ anchor lines keepAlive, Imports.anchor? s.file.tree = some anchor ∧
        additions = [Imports.insertion s.file.source anchor (Imports.block lines keepAlive)]) := by
  cases h with
  | untouched => exact ⟨[], [], rfl, .inl rfl⟩
  | @reconciled existing added _ reconciles =>
    obtain ⟨additions, adds, rfl⟩ := reconciles.extra_eq
    refine ⟨_, additions, rfl, ?_⟩
    cases adds with
    | nothing _ _ => exact .inl rfl
    | block _ found => exact .inr ⟨_, _, _, found, rfl⟩

/-- Where nothing is asked for and nothing is imported, nothing is added. -/
theorem Settles.eq_nil (h : Settles importer s.file d extra) (idle : d.references = .empty)
    (bare : s.file.tree.childrenOf .importDeclaration = []) : extra = [] := by
  cases h with
  | untouched => rfl
  | @reconciled existing added _ reconciles =>
    -- What is added was asked for, and what is removed was imported.
    have none_added : added = [] := by
      have asked := reconciles.asked
      rw [idle] at asked
      exact List.map_eq_nil_iff.1 asked
    have none_removed : Imports.removed s.file existing = [] := by
      rw [Imports.removed, bare, List.flatMap_nil]
    obtain ⟨additions, adds, rfl⟩ := reconciles.extra_eq
    rw [none_removed, List.map_nil, List.nil_append]
    cases adds with
    | nothing _ _ => rfl
    | block something _ =>
      rw [none_added, idle] at something
      exact absurd rfl (something.elim id id)

/-- No edit that reconciles the imports ends before it starts. -/
theorem Settles.forward (h : Settles importer s.file d extra)
    (parsed : parse? s.file.source = some s.file.tree) : ∀ e ∈ extra, e.start ≤ e.stop := by
  cases h with
  | untouched => exact List.forall_mem_nil _
  | reconciled reconciles =>
    obtain ⟨additions, adds, rfl⟩ := reconciles.extra_eq
    refine List.forall_mem_append.2 ⟨fun e he => ?_, ?_⟩
    · obtain ⟨node, gone, rfl⟩ := List.mem_map.1 he
      obtain ⟨forward, inside⟩ := Imports.removed_inside parsed reconciles.written gone
      exact Imports.deletion_forward forward inside
    · cases adds with
      | nothing _ _ => exact List.forall_mem_nil _
      | block _ _ =>
        refine List.forall_mem_singleton.2 ?_
        unfold Imports.insertion
        split <;> exact Nat.le_refl _

/-- No edit that is rendered ends before it starts. -/
theorem shown_forward (lines : Bool)
    (logged : Logs s (.ofSource s.file.source) (tasks s aspects) d log)
    (settles : Settles importer s.file d extra)
    (parsed : parse? s.file.source = some s.file.tree) :
    ∀ e ∈ (shown s.file lines ⟨s.file.source, log.map Entry.edit ++ extra⟩).edits,
      e.start ≤ e.stop := by
  obtain ⟨more, whole, insertions⟩ :=
    shown_eq s.file lines ⟨s.file.source, log.map Entry.edit ++ extra⟩
  rw [whole]
  refine List.forall_mem_append.2 ⟨List.forall_mem_append.2 ⟨?_, settles.forward parsed⟩, ?_⟩
  · exact List.forall_mem_map.2 (logged.forward parsed)
  · exact fun e he => Nat.le_of_eq (insertions e he)

/-- The edits that are rendered list those of the advice first. -/
theorem Logs.listed_shown (lines : Bool)
    (logged : Logs s (.ofSource s.file.source) (tasks s aspects) d log)
    (settles : Settles importer s.file d extra)
    (parsed : parse? s.file.source = some s.file.tree)
    (inside : s.file.tree.Within 0 s.file.source.length) :
    Listed s log (shown s.file lines ⟨s.file.source, log.map Entry.edit ++ extra⟩) where
  source := by
    obtain ⟨more, whole, -⟩ := shown_eq s.file lines ⟨s.file.source, log.map Entry.edit ++ extra⟩
    rw [whole]
  fits := logged.fits inside
  forward := shown_forward lines logged settles parsed
  found i e here := by
    refine getElem?_shown ?_
    rw [List.getElem?_append_left (by simpa using (List.getElem?_eq_some_iff.1 here).1),
      List.getElem?_map, here]
    rfl

/-! ## A file that is read and woven -/

/-- A package with a variable that has a value. -/
def valueText : Text := "package p\n\nvar x = e\n"

/-- A template without imports finds no names for packages. -/
private theorem localize_plain {template : Template} (plain : template.imports = .empty)
    (text : Text) : d.localize s template text = (text, d) := by
  rw [Draft.localize, plain]
  rfl

/-- Its halves are the same in every draft. -/
private theorem halves_plain {template : Template} (plain : template.imports = .empty)
    (d d' : Draft) (site : Site) : d.halves s site template = d'.halves s site template := by
  unfold Draft.halves
  simp only [localize_plain plain]

/-- Wrapping a node in such a template refers to no package. -/
theorem references_plain {t : Task} {target : Tree} {template : Template} {changed : Bool}
    {d' : Draft} (wraps : wrapped? t.site.node t.advice = some (target, template))
    (plain : template.imports = .empty)
    (applied : t.advice.apply s t.site d = .ok (changed, d')) : d'.references = d.references := by
  rw [apply_wrapped wraps] at applied
  obtain ⟨statement, -, -, left, marks⟩ := inStatement_eq_ok applied
  cases marked : s.wasWrapped statement with
  | true => rw [left marked]
  | false =>
    obtain ⟨between, done, rfl⟩ := marks marked
    obtain ⟨wrapped, done, same⟩ := bind_eq_ok_iff.1 done
    -- Neither the template, nor its text, nor the marks refer to a package.
    have used : between.references = wrapped.references := by
      cases same
      rw [Draft.useTemplate, plain]
      show (wrapped.needVersion template.version).references = _
      cases template.version <;> rfl
    have written : wrapped.references = d.references := by
      unfold Draft.wrapNode at done
      split at done
      · cases done
      · obtain ⟨rendered, -, done⟩ := bind_eq_ok_iff.1 done
        split at done
        · cases done
        · simp only [localize_plain plain] at done
          split at done
          · cases done
          · cases done
            rfl
    rw [← written, ← used]
    unfold Draft.wrapStatement
    split
    · rfl
    · dsimp only
      split <;> split <;> rfl

/-- The task puts a template without imports around that value, between two halves, and the
statement has no marks yet. -/
structure Task.WrapsValue (t : Task) (s : Scene) (target : Tree) (template : Template)
    (statement : Tree) (halves : Text × Text) : Prop where
  wraps : wrapped? t.site.node t.advice = some (target, template)
  start : target.start = 19
  stop : target.stop = 20
  plain : template.imports = .empty
  halves : Draft.halves (.ofSource s.file.source) s t.site template = .ok halves
  inside : t.site.enclosingStatement? = some statement
  range : statement.start = 11 ∧ statement.stop = 20
  fresh : s.wasWrapped statement = false

/-- The halves of a template that a task puts around that value. -/
def Task.valueHalves? (s : Scene) (t : Task) : Option (Text × Text) := do
  let (target, template) ← wrapped? t.site.node t.advice
  let statement ← t.site.enclosingStatement?
  if target.start = 19 ∧ target.stop = 20 ∧ template.imports = .empty ∧
      (statement.start = 11 ∧ statement.stop = 20) ∧ s.wasWrapped statement = false then
    (Draft.halves (.ofSource s.file.source) s t.site template).toOption
  else none

theorem Task.exists_wrapsValue {t : Task} {halves : Text × Text}
    (h : t.valueHalves? s = some halves) :
    ∃ target template statement, t.WrapsValue s target template statement halves := by
  obtain ⟨⟨target, template⟩, wraps, h⟩ := Option.bind_eq_some_iff.1 h
  obtain ⟨statement, inside, h⟩ := Option.bind_eq_some_iff.1 h
  split at h
  · rename_i passed
    obtain ⟨start, stop, plain, range, fresh⟩ := passed
    exact ⟨target, template, statement, wraps, start, stop, plain, toOption_eq_some_iff.1 h, inside,
      range, fresh⟩
  · cases h

/-- Such a task writes the halves of the template, and the marks that are due. -/
theorem Task.WrapsValue.entries {t : Task} {target statement : Tree} {template : Template}
    {front back : Text} {d' : Draft} {changed : Bool} {entries : List Entry}
    (value : t.WrapsValue s target template statement (front, back))
    (writes : Writes s t d d' entries) (applied : t.advice.apply s t.site d = .ok (changed, d')) :
    entries = wrapEntries t target front back ++ dueMarks s t d statement := by
  obtain ⟨_, inside, done, written⟩ := writes.eq_wrap value.wraps applied
  cases value.inside.symm.trans inside
  obtain ⟨before, after, halves, rfl⟩ := written (by rw [done, value.fresh, Bool.not_false])
  rw [halves_plain value.plain d (.ofSource s.file.source), value.halves] at halves
  cases halves
  rfl

/-- Templates around the value of the variable. -/
theorem exists_wrapped_value (templates : List Text) (halves : List (Text × Text))
    (passed : ((SourceFile.parse "m.go" valueText).toOption.any fun file =>
      let s := { valueScene with file }
      file.source = valueText && file.tree.isNested && file.tree.stop ≤ file.source.length &&
      (file.tree.childrenOf .importDeclaration).isEmpty &&
      (tasks s [valueAspect templates]).map (Task.valueHalves? s) = halves.map some &&
      ((Weave.file s [valueAspect templates] ⟨noArchives, false⟩ false).run.run
        .fresh).1.toOption.any fun woven => woven.text.isSome) = true) :
    ∃ s woven after out,
      SourceFile.parse "m.go" valueText = .ok s.file ∧ s.file.source = valueText ∧
      s.file.tree.Within 0 s.file.source.length ∧
      s.file.tree.childrenOf .importDeclaration = [] ∧
      (file s [valueAspect templates] ⟨noArchives, false⟩ false).Yields .fresh woven after ∧
      woven.text = some out ∧
      (tasks s [valueAspect templates]).map (Task.valueHalves? s) = halves.map some := by
  obtain ⟨file, parsed, passed⟩ := (Option.any_eq_true _ _).1 passed
  simp only [Bool.and_eq_true, decide_eq_true_eq] at passed
  obtain ⟨⟨⟨⟨⟨source, nested⟩, high⟩, bare⟩, each⟩, passed⟩ := passed
  obtain ⟨woven, ran, changed⟩ := (Option.any_eq_true _ _).1 passed
  obtain ⟨out, changed⟩ := Option.isSome_iff_exists.1 changed
  obtain ⟨after, run⟩ := Importing.exists_yields_iff.2 (toOption_eq_some_iff.1 ran)
  exact ⟨{ valueScene with file }, woven, after, out, toOption_eq_some_iff.1 parsed,
    source, ⟨Nat.zero_le _, high, nested⟩, List.isEmpty_iff.1 bare, run, changed, each⟩

end Weave

end Interlace
