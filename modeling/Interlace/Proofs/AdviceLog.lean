import Interlace.Proofs.AdviceOrder
import Interlace.Proofs.NestedTrees
import Interlace.Proofs.WrapLayout

/-!
# What advice writes

Every edit of a woven file was written by an advice for a purpose: text around an expression, the
value of a variable, a new qualifier, a mark at an end of a statement, or a block on lines of its
own. A log of the weaving lists the edits in the order in which they were made, with their purposes.

## Key results

- `Weave.Writes`: what one advice can write
- `Weave.apply_writes`: it writes no more
- `Weave.Performs.exists_logs`: the edits of a weaving, advice by advice
- `Weave.Logs.fits`: they are where their purposes have them
-/

namespace Interlace

open Syntax

/-! ## Drafts with the same edits -/

namespace Draft

/-- The second draft has the edits and the marked statements of the first. -/
structure SameEdits (d d' : Draft) : Prop where
  buffer : d'.buffer = d.buffer
  wrapped : d'.wrapped = d.wrapped

theorem SameEdits.refl (d : Draft) : SameEdits d d := ⟨rfl, rfl⟩

theorem SameEdits.trans {d d' d'' : Draft} (h : SameEdits d d') (h' : SameEdits d' d'') :
    SameEdits d d'' :=
  ⟨h'.buffer.trans h.buffer, h'.wrapped.trans h.wrapped⟩

variable (d : Draft) (s : Scene)

private theorem sameEdits_addImport (path wanted : Text) : SameEdits d (d.addImport path wanted) :=
  ⟨rfl, rfl⟩

private theorem sameEdits_withReferences (references : ReferenceMap) :
    SameEdits d { d with references := references } :=
  ⟨rfl, rfl⟩

private theorem sameEdits_needVersion (version : Option Version) :
    SameEdits d (d.needVersion version) := by
  cases version <;> exact ⟨rfl, rfl⟩

theorem sameEdits_bind (path wanted : Text) : SameEdits d (d.bind s path wanted).2 := by
  unfold bind
  split
  · exact .refl d
  · split <;> exact ⟨rfl, rfl⟩

theorem sameEdits_localize (t : Template) (text : Text) :
    SameEdits d (d.localize s t text).2 := by
  refine foldl_keeps (K := fun state : Text × Draft => SameEdits d state.2)
    (fun state entry _ same => ?_) (.refl d)
  exact same.trans (sameEdits_bind state.2 s entry.2 entry.1)

theorem sameEdits_useTemplate (t : Template) : SameEdits d (d.useTemplate s t) := by
  refine SameEdits.trans ?_ (sameEdits_needVersion _ t.version)
  refine foldl_keeps (K := SameEdits d) (fun draft entry _ same => ?_) (.refl d)
  exact same.trans ((sameEdits_bind draft s entry.2 entry.1).trans (sameEdits_addImport _ _ _))

theorem sameEdits_spanStatements (site : Site) (tool tags : Text) :
    SameEdits d (d.spanStatements s site tool tags).2 := by
  unfold spanStatements
  dsimp only
  split
  · exact .refl d
  · exact .refl d
  · exact (sameEdits_bind d s _ _).trans (sameEdits_addImport _ _ _)

/-- The texts of a template before and behind its hole, in the names of the file. -/
def halves (d : Draft) (s : Scene) (site : Site) (t : Template) :
    Except AdviceFault (Text × Text) := do
  let rendered ← s.render site t (some holeMark)
  match Text.splitOnce? holeMark rendered with
  | none => throw .holeLost
  | some (before, after) =>
    let (before, d) := d.localize s t before
    return (before, (d.localize s t after).1)

/-- Wrapping a node inserts the two halves of the template at its ends. -/
private theorem wrapNode_eq_ok {d d' : Draft} {s : Scene} {site : Site} {target : Tree}
    {t : Template} (h : d.wrapNode s site target t = .ok d') :
    ∃ before after, d.halves s site t = .ok (before, after) ∧
      d'.buffer = (d.buffer.insert target.start before .right).insert target.stop after .left ∧
      d'.wrapped = d.wrapped := by
  unfold wrapNode at h
  split at h
  · cases h
  · obtain ⟨rendered, given, h⟩ := bind_eq_ok_iff.1 h
    split at h
    · cases h
    · rename_i before after cut
      dsimp only at h
      by_cases many : Text.contains after holeMark
      · rw [if_pos many] at h
        cases h
      · rw [if_neg many] at h
        cases h
        have first := sameEdits_localize d s t before
        have second := sameEdits_localize (d.localize s t before).2 s t after
        have same := first.trans second
        -- Finding names for packages makes no edit; the two insertions are all there is.
        refine ⟨(d.localize s t before).1, ((d.localize s t before).2.localize s t after).1,
          bind_eq_ok_iff.2 ⟨rendered, given, ?_⟩, ?_, same.wrapped⟩
        · rw [cut]
          rfl
        · simp only [insert, same.buffer]

end Draft

/-! ## Entries -/

/-- What an edit is for. -/
inductive Part where
  /-- The half of a template before a wrapped node; `closing` is the half behind it. -/
  | before (target : Tree) (closing : Text)
  /-- The half of a template behind a wrapped node. -/
  | after (target : Tree)
  /-- The value of a variable. -/
  | value
  /-- The new qualifier of a call. -/
  | operand (target : Tree)
  /-- A mark at an end of a statement. -/
  | mark (m : Mark)
  /-- Lines of their own. -/
  | block

/-- The edit is text for an expression, neither a mark nor a block. -/
def Part.isText : Part → Bool
  | mark _ | block => false
  | _ => true

namespace Weave

/-- An edit, the task that made it and what it is for. -/
structure Entry where
  task : Task
  part : Part
  edit : Edit

/-- The entry is the end marker of a statement that starts at the offset. -/
def Entry.closes (start : Nat) (e : Entry) : Prop :=
  ∃ statement, e.part = .mark (.closing statement) ∧ statement.start = start

/-- The node that an advice wraps, and the template it wraps it with. -/
def wrapped? (node : Tree) : Advice → Option (Tree × Template)
  | .wrapCallArgument index template =>
    if node.kind = .callExpression then
      ((((node.child? .arguments).map Tree.significant).getD [])[index]?).map (·, template)
    else none
  | .wrapExpression template => node.ownValue?.map (·, template)
  | .assignValue template =>
    if template.hasHole then node.ownValue?.map (·, template) else none
  | _ => none

/-- The qualifier of a call through a package. -/
def operand? (node : Tree) : Option Tree :=
  (node.child? .function).bind fun function => function.child? .operand

/-- The text that a task puts into its statement. -/
inductive Inserts (s : Scene) (t : Task) (d : Draft) : List Entry → Prop where
  | wrap {target : Tree} {template : Template} {before after : Text}
      (wraps : wrapped? t.site.node t.advice = some (target, template))
      (halves : d.halves s t.site template = .ok (before, after)) :
      Inserts s t d [⟨t, .before target after, ⟨target.start, target.start, before, .right⟩⟩,
        ⟨t, .after target, ⟨target.stop, target.stop, after, .left⟩⟩]
  | value (text : Text) :
      Inserts s t d [⟨t, .value, ⟨t.site.node.stop, t.site.node.stop, " = " ++ text, .left⟩⟩]
  | operand {operand : Tree} {path target wanted : Text} (name : Text)
      (advice : t.advice = .replaceCallTarget path target wanted)
      (found : operand? t.site.node = some operand)
      (package : s.objectAt? operand = some (.package path)) :
      Inserts s t d [⟨t, .operand operand, ⟨operand.start, operand.stop, name, .right⟩⟩]

/-- Lines between instrument markers, behind what moves them to their place. -/
def IsBlock (text : Text) : Prop :=
  ∃ lead body, (∀ b ∈ lead, Text.isBlank b ∨ b = Text.newline) ∧
    text = lead ++ Marker.startInstrument.comment ++ "\n" ++ body
      ++ Marker.endInstrument.comment ++ "\n"

/-- The entries of the marks of a statement. -/
def markEntries (s : Scene) (t : Task) (statement : Tree) : List Entry :=
  (Mark.both statement).map fun m => ⟨t, .mark m, m.edit s.file.source⟩

/-- The marks that the first text in a statement brings with it. -/
def dueMarks (s : Scene) (t : Task) (d : Draft) (statement : Tree) : List Entry :=
  if statement.start ∈ d.wrapped then [] else markEntries s t statement

/-- What a task can write: nothing, a block, or text in its statement. -/
inductive Records (s : Scene) (t : Task) (d : Draft) : List Entry → Prop where
  | nothing : Records s t d []
  | block (offset : Nat) {text : Text} (shape : IsBlock text) :
      Records s t d [⟨t, .block, ⟨offset, offset, text, .left⟩⟩]
  | text {statement : Tree} {entries : List Entry}
      (inside : t.site.enclosingStatement? = some statement) (inserts : Inserts s t d entries) :
      Records s t d (entries ++ dueMarks s t d statement)

/-- A task leads from one draft to another by adding the edits of entries. -/
structure Writes (s : Scene) (t : Task) (d d' : Draft) (entries : List Entry) : Prop where
  records : Records s t d entries
  source : d'.buffer.source = d.buffer.source
  edits : d'.buffer.edits = d.buffer.edits ++ entries.map Entry.edit
  /-- A statement counts as marked once its end marker is written. -/
  wrapped : ∀ start ∈ d'.wrapped, start ∈ d.wrapped ∨ ∃ e ∈ entries, e.closes start

variable {s : Scene} {t : Task} {d d' : Draft} {changed : Bool}

theorem Inserts.isText {entries : List Entry} (h : Inserts s t d entries) :
    ∀ e ∈ entries, e.task = t ∧ e.part.isText = true := by
  cases h with
  | wrap wraps halves => simp [Part.isText]
  | value text => simp [Part.isText]
  | operand name advice found package => simp [Part.isText]

theorem mem_dueMarks {statement : Tree} {e : Entry} (h : e ∈ dueMarks s t d statement) :
    ∃ m ∈ Mark.both statement, e = ⟨t, .mark m, m.edit s.file.source⟩ := by
  unfold dueMarks at h
  split at h
  · cases h
  · obtain ⟨m, listed, rfl⟩ := List.mem_map.1 h
    exact ⟨m, listed, rfl⟩

private theorem exists_closing_of_due {statement : Tree} (fresh : statement.start ∉ d.wrapped) :
    ∃ e ∈ dueMarks s t d statement, e.closes statement.start := by
  rw [dueMarks, if_neg fresh]
  have listed : Mark.closing statement ∈ Mark.both statement := by simp [Mark.both]
  exact ⟨_, List.mem_map_of_mem listed, statement, rfl, rfl⟩

private theorem writes_nothing (same : d.SameEdits d') : Writes s t d d' [] :=
  ⟨.nothing, by rw [same.buffer], by simp [same.buffer], fun _ h => .inl (same.wrapped ▸ h)⟩

/-- Marking a statement adds its marks, unless it has them. -/
private theorem wrapStatement_writes (statement : Tree) :
    (d.wrapStatement s statement).buffer.source = d.buffer.source ∧
      (d.wrapStatement s statement).buffer.edits =
        d.buffer.edits ++ (dueMarks s t d statement).map Entry.edit ∧
      ∀ start ∈ (d.wrapStatement s statement).wrapped,
        start ∈ d.wrapped ∨ ∃ e ∈ dueMarks s t d statement, e.closes start := by
  by_cases had : statement.start ∈ d.wrapped
  · rw [dueMarks, if_pos had, Draft.wrapStatement, if_pos had]
    exact ⟨rfl, by simp, fun _ h => .inl h⟩
  · obtain ⟨edits, source, wrapped⟩ := Draft.wrapStatement_edits (s := s) had
    refine ⟨source, ?_, fun start h => ?_⟩
    · rw [edits, dueMarks, if_neg had, markEntries, List.map_map]
      rfl
    · rw [wrapped] at h
      rcases List.mem_cons.1 h with rfl | h
      · exact .inr (exists_closing_of_due had)
      · exact .inl h

/-- A change that adds text to the draft and leaves the marked statements as they are. -/
def Changes (s : Scene) (t : Task) (d d' : Draft) : Prop :=
  ∃ entries, Inserts s t d entries ∧ d'.wrapped = d.wrapped ∧
    d'.buffer.source = d.buffer.source ∧
    d'.buffer.edits = d.buffer.edits ++ entries.map Entry.edit

/-- A statement that an earlier run marked is left alone, any other is changed and marked. -/
theorem inStatement_eq_ok {change : Draft → Except AdviceFault Draft}
    (h : d.inStatement s t.site change = .ok (changed, d')) :
    ∃ statement, t.site.enclosingStatement? = some statement ∧
      changed = ! s.wasWrapped statement ∧
      (s.wasWrapped statement = true → d' = d) ∧
      (s.wasWrapped statement = false →
        ∃ between, change d = .ok between ∧ d' = between.wrapStatement s statement) := by
  obtain ⟨statement, found, h⟩ := bind_eq_ok_iff.1 h
  have inside : t.site.enclosingStatement? = some statement := by
    unfold Scene.statement at found
    split at found
    · cases found
      assumption
    · cases found
  refine ⟨statement, inside, ?_⟩
  -- The marks are asked for first, so a marked statement is not even looked at.
  cases marked : s.wasWrapped statement with
  | true =>
    rw [if_pos marked] at h
    cases h
    exact ⟨rfl, fun _ => rfl, nofun⟩
  | false =>
    rw [if_neg (by rw [marked]; exact Bool.false_ne_true)] at h
    obtain ⟨between, done, h⟩ := bind_eq_ok_iff.1 h
    cases h
    exact ⟨rfl, nofun, fun _ => ⟨between, done, rfl⟩⟩

/-- A change that leaves the marked statements as they are leaves the same marks due. -/
private theorem dueMarks_congr {between : Draft} (same : between.wrapped = d.wrapped)
    (statement : Tree) : dueMarks s t between statement = dueMarks s t d statement := by
  rw [dueMarks, dueMarks, same]

/-- A statement that is changed gets its marks, unless it has them. -/
private theorem inStatement_writes {change : Draft → Except AdviceFault Draft}
    (changes : ∀ d', change d = .ok d' → Changes s t d d')
    (h : d.inStatement s t.site change = .ok (changed, d')) :
    ∃ entries, Writes s t d d' entries := by
  obtain ⟨statement, inside, -, left, marks⟩ := inStatement_eq_ok h
  cases marked : s.wasWrapped statement with
  | true =>
    obtain rfl := left marked
    exact ⟨[], writes_nothing (.refl d')⟩
  | false =>
    obtain ⟨between, done, rfl⟩ := marks marked
    obtain ⟨entries, inserts, wrapped, source, edits⟩ := changes between done
    -- The change wraps no statement, so the marks that are due are those from before it.
    have due := dueMarks_congr (s := s) (t := t) wrapped statement
    obtain ⟨source', edits', marked⟩ :=
      wrapStatement_writes (s := s) (t := t) (d := between) statement
    rw [due, wrapped] at marked
    refine ⟨entries ++ dueMarks s t d statement, .text inside inserts, source'.trans source, ?_,
      fun start h => ?_⟩
    · rw [edits', edits, due, List.map_append, List.append_assoc]
    · exact (marked start h).imp_right fun ⟨e, he, closes⟩ =>
        ⟨e, List.mem_append_right entries he, closes⟩

/-- The halves of a template around a node. -/
def wrapEntries (t : Task) (target : Tree) (before after : Text) : List Entry :=
  [⟨t, .before target after, ⟨target.start, target.start, before, .right⟩⟩,
    ⟨t, .after target, ⟨target.stop, target.stop, after, .left⟩⟩]

/-- Wrapping a node adds the two halves of the template. -/
private theorem wrapNode_adds {target : Tree} {template : Template}
    (h : (do return (← d.wrapNode s t.site target template).useTemplate s template) = .ok d') :
    ∃ before after, d.halves s t.site template = .ok (before, after) ∧
      d'.wrapped = d.wrapped ∧ d'.buffer.source = d.buffer.source ∧
      d'.buffer.edits = d.buffer.edits ++ (wrapEntries t target before after).map Entry.edit := by
  obtain ⟨between, done, h⟩ := bind_eq_ok_iff.1 h
  cases h
  obtain ⟨before, after, halves, buffer, wrapped⟩ := Draft.wrapNode_eq_ok done
  have same := between.sameEdits_useTemplate s template
  refine ⟨before, after, halves, same.wrapped.trans wrapped, ?_, ?_⟩
  · rw [same.buffer, buffer]
    rfl
  · rw [same.buffer, buffer]
    simp [Buffer.insert, Buffer.push, wrapEntries]

private theorem wrapNode_changes {target : Tree} {template : Template}
    (wraps : wrapped? t.site.node t.advice = some (target, template))
    (h : (do return (← d.wrapNode s t.site target template).useTemplate s template) = .ok d') :
    Changes s t d d' := by
  obtain ⟨before, after, halves, kept⟩ := wrapNode_adds (t := t) h
  exact ⟨wrapEntries t target before after, .wrap wraps halves, kept⟩

private theorem wrapCallArgument_writes {index : Nat} {template : Template}
    (advice : t.advice = .wrapCallArgument index template)
    (h : d.wrapCallArgument s t.site index template = .ok (changed, d')) :
    ∃ entries, Writes s t d d' entries := by
  unfold Draft.wrapCallArgument at h
  by_cases call : t.site.node.kind = .callExpression
  · rw [if_neg (not_not.2 call)] at h
    refine inStatement_writes (fun d'' done => ?_) h
    dsimp only at done
    split at done
    · cases done
    · rename_i argument found
      refine wrapNode_changes ?_ done
      rw [advice, wrapped?, if_pos call, found]
      rfl
  · rw [if_pos call] at h
    cases h

/-- A value that is there is wrapped in its statement. -/
private theorem wrapValue_writes {template : Template} {fault : AdviceFault} {value : Option Tree}
    (h : ((match value with
        | none => throw fault
        | some target =>
          d.inStatement s t.site fun d =>
            return (← d.wrapNode s t.site target template).useTemplate s template) : Applied) =
      .ok (changed, d'))
    (wraps : ∀ target, value = some target →
      wrapped? t.site.node t.advice = some (target, template)) :
    ∃ entries, Writes s t d d' entries := by
  cases value with
  | none => cases h
  | some target =>
    exact inStatement_writes (fun d'' done => wrapNode_changes (wraps target rfl) done) h

private theorem wrapExpression_writes {template : Template}
    (wraps : ∀ target, t.site.node.ownValue? = some target →
      wrapped? t.site.node t.advice = some (target, template))
    (h : d.wrapExpression s t.site template = .ok (changed, d')) :
    ∃ entries, Writes s t d d' entries := by
  unfold Draft.wrapExpression at h
  dsimp only at h
  unfold Tree.ownValue? at wraps
  split at h
  -- The last kind is any other, and there the advice fails.
  iterate 3
    · rename_i kind
      rw [kind] at wraps
      exact wrapValue_writes h wraps
  · cases h

private theorem giveValue_writes {template : Template}
    (h : d.giveValue s t.site template = .ok (changed, d')) :
    ∃ entries, Writes s t d d' entries := by
  unfold Draft.giveValue at h
  dsimp only at h
  split at h
  · cases h
  · refine inStatement_writes (fun d'' done => ?_) h
    split at done
    · cases done
    · obtain ⟨value, -, done⟩ := bind_eq_ok_iff.1 done
      -- Localizing binds names only; the text goes in once, behind the name of the variable.
      have same := d.sameEdits_localize s template value
      cases done
      have used := ((d.localize s template value).2.insert t.site.node.stop
        (" = " ++ (d.localize s template value).1) .left).sameEdits_useTemplate s template
      refine ⟨_, .value (d.localize s template value).1, used.wrapped.trans same.wrapped, ?_, ?_⟩
      · rw [used.buffer, Draft.insert, same.buffer]
        rfl
      · rw [used.buffer, Draft.insert, same.buffer]
        rfl

private theorem replaceCallTarget_writes {source target wanted : Text}
    (advice : t.advice = .replaceCallTarget source target wanted)
    (h : d.replaceCallTarget s t.site source target wanted = .ok (changed, d')) :
    ∃ entries, Writes s t d d' entries := by
  unfold Draft.replaceCallTarget at h
  dsimp only at h
  split at h
  · cases h
  · split at h
    · cases h
    · rename_i function called
      split at h
      · rename_i operand field found _
        split at h
        · cases h
        · rename_i package
          rw [not_not] at package
          refine inStatement_writes (fun d'' done => ?_) h
          cases done
          -- Binding the package of the new target changes names only, so the splice is the only
          -- entry.
          have same := d.sameEdits_bind s target wanted
          have here : operand? t.site.node = some operand := by
            rw [operand?, (Option.filter_eq_some_iff.1 called).1]
            exact found
          refine ⟨_, .operand (d.bind s target wanted).1 advice here package, same.wrapped, ?_, ?_⟩
          · show (d.bind s target wanted).2.buffer.source = _
            rw [same.buffer]
          · show (d.bind s target wanted).2.buffer.edits ++ [_] = _
            rw [same.buffer]
            rfl
      · cases h

/-- A block is one insertion. -/
private theorem insert_writes {between : Draft} (same : d.SameEdits between) (offset : Nat)
    {text : Text} (shape : IsBlock text) (after : (between.insert offset text .left).SameEdits d') :
    Writes s t d d' [⟨t, .block, ⟨offset, offset, text, .left⟩⟩] := by
  have wrapped : d'.wrapped = d.wrapped := after.wrapped.trans same.wrapped
  refine ⟨.block offset shape, ?_, ?_, fun _ h => .inl (wrapped ▸ h)⟩
  · rw [after.buffer, Draft.insert, same.buffer]
    rfl
  · rw [after.buffer, Draft.insert, same.buffer]
    rfl

/-- A block at the start of a body is one insertion. -/
private theorem prependToBody_writes {between last : Draft} {body : Tree} {statements : Text}
    (same : d.SameEdits between) (h : between.prependToBody s body statements = .ok last)
    (after : last.SameEdits d') : ∃ entries, Writes s t d d' entries := by
  unfold Draft.prependToBody at h
  split at h
  · cases h
  · dsimp only at h
    let margin : Text := s.file.source.lineIndent body.start ++ "\t"
    have indented : ∀ b ∈ margin, Text.isBlank b ∨ b = Text.newline := by
      intro b hb
      rcases List.mem_append.1 hb with listed | tab
      · exact .inl (Text.lineIndent_blank s.file.source body.start b listed)
      · cases List.mem_singleton.1 tab
        exact .inl rfl
    -- The last marker stands behind the indented lines, at their margin.
    let body := Draft.indentLines margin statements ++ margin
    split at h
    · cases h
      refine ⟨_, insert_writes same _ ⟨margin, body, indented, ?_⟩ after⟩
      simp only [margin, body, List.append_assoc]
    · cases h
      have spaced : ∀ b ∈ (" " : Text), Text.isBlank b ∨ b = Text.newline :=
        List.forall_mem_singleton.2 (.inl rfl)
      refine ⟨_, insert_writes same _ ⟨" ", body, spaced, ?_⟩ after⟩
      simp only [margin, body, List.append_assoc]

/-- A body that is changed gets a block. -/
private theorem inBody_writes {advice : Text} {change : Tree → Except AdviceFault Draft}
    (changes : ∀ body d', change body = .ok d' → ∃ entries, Writes s t d d' entries)
    (h : d.inBody s advice t.site.node change = .ok (changed, d')) :
    ∃ entries, Writes s t d d' entries := by
  unfold Draft.inBody at h
  split at h
  · cases h
  · split at h
    · cases h
      exact ⟨[], writes_nothing (.refl d)⟩
    · rename_i body _
      split at h
      · cases h
        exact ⟨[], writes_nothing (.refl d)⟩
      · cases done : change body with
        | error fault =>
          rw [done] at h
          cases h
        | ok between =>
          rw [done] at h
          cases h
          exact changes body _ done

private theorem prependStatements_writes {template : Template}
    (h : d.prependStatements s t.site template = .ok (changed, d')) :
    ∃ entries, Writes s t d d' entries := by
  refine inBody_writes (fun body d'' done => ?_) h
  obtain ⟨statements, -, done⟩ := bind_eq_ok_iff.1 done
  obtain ⟨between, prepended, done⟩ := bind_eq_ok_iff.1 done
  cases done
  exact prependToBody_writes (d.sameEdits_localize s template statements) prepended
    (between.sameEdits_useTemplate s template)

private theorem reportSpan_writes {tags : Dict Text}
    (h : d.reportSpan s t.site tags = .ok (changed, d')) : ∃ entries, Writes s t d d' entries := by
  refine inBody_writes (fun body d'' done => ?_) h
  obtain ⟨between, prepended, done⟩ := bind_eq_ok_iff.1 done
  cases done
  have bound := d.sameEdits_bind s toolPath toolAlias
  exact prependToBody_writes (bound.trans (Draft.sameEdits_spanStatements _ s t.site _ _)) prepended
    (between.sameEdits_addImport _ _)

private theorem injectDeclarations_writes {template : Template} {links : List Text}
    (h : d.injectDeclarations s t.site template links = .ok (changed, d')) :
    ∃ entries, Writes s t d d' entries := by
  unfold Draft.injectDeclarations at h
  split at h
  · cases h
  · obtain ⟨rendered, -, h⟩ := bind_eq_ok_iff.1 h
    -- Neither localizing nor linking touches the edits, so there is the block or nothing.
    have same := d.sameEdits_localize s template rendered
    dsimp only at h
    split at h
    · cases h
      exact ⟨[], writes_nothing same⟩
    · cases h
      have linked := Draft.sameEdits_withReferences
      refine ⟨_, insert_writes same _ ?_
        ((linked _ _).trans (Draft.sameEdits_useTemplate _ s _))⟩
      refine ⟨if s.file.source.isEmpty || Text.endsWith s.file.source "\n" then []
        else [Text.newline], Text.trimEnd (d.localize s template rendered).1 ++ "\n", ?_, ?_⟩
      · split
        · exact List.forall_mem_nil _
        · exact List.forall_mem_singleton.2 (.inr rfl)
      · simp only [List.append_assoc]

/-- An advice that succeeds writes what the list says, and nothing else. -/
theorem apply_writes (h : t.advice.apply s t.site d = .ok (changed, d')) :
    ∃ entries, Writes s t d d' entries := by
  cases advice : t.advice with
  | wrapCallArgument index template =>
    rw [advice] at h
    exact wrapCallArgument_writes advice h
  | wrapExpression template =>
    rw [advice] at h
    refine wrapExpression_writes (fun target found => ?_) h
    rw [advice, wrapped?, found]
    rfl
  | assignValue template =>
    rw [advice] at h
    change d.assignValue s t.site template = _ at h
    unfold Draft.assignValue at h
    -- With a hole the advice wraps the value, without one it gives the variable a value.
    by_cases hole : template.hasHole
    · rw [if_pos hole] at h
      refine wrapExpression_writes (fun target found => ?_) h
      rw [advice, wrapped?, if_pos hole, found]
      rfl
    · rw [if_neg hole] at h
      exact giveValue_writes h
  | prependStatements template =>
    rw [advice] at h
    exact prependStatements_writes h
  | reportSpan tags =>
    rw [advice] at h
    exact reportSpan_writes h
  | addBlankImport path =>
    rw [advice] at h
    cases h
    -- An import is only noted; the edit for it is made in the end.
    exact ⟨[], writes_nothing (d.sameEdits_addImport path blankName)⟩
  | replaceCallTarget source target wanted =>
    rw [advice] at h
    exact replaceCallTarget_writes advice h
  | injectDeclarations template links =>
    rw [advice] at h
    exact injectDeclarations_writes h

/-! ## What wrapping writes -/

/-- An advice that wraps a node does so in the statement around it. -/
theorem apply_wrapped {target : Tree} {template : Template} {advice : Advice} {site : Site}
    (wraps : wrapped? site.node advice = some (target, template)) :
    advice.apply s site d = d.inStatement s site fun d =>
      return (← d.wrapNode s site target template).useTemplate s template := by
  have own {t : Template} (found : site.node.ownValue?.map (·, t) = some (target, template)) :
      d.wrapExpression s site t = d.inStatement s site fun d =>
        return (← d.wrapNode s site target template).useTemplate s template := by
    obtain ⟨value, given, same⟩ := Option.map_eq_some_iff.1 found
    cases same
    unfold Draft.wrapExpression
    unfold Tree.ownValue? at given
    dsimp only
    split at given
    -- The last kind is any other, and such a node has no value of its own.
    iterate 3
      · rename_i kind
        simp only [kind, given]
        rfl
    · cases given
  unfold wrapped? at wraps
  split at wraps
  · split at wraps
    · rename_i call
      obtain ⟨argument, given, same⟩ := Option.map_eq_some_iff.1 wraps
      cases same
      show d.wrapCallArgument s site _ _ = _
      rw [Draft.wrapCallArgument, if_neg (not_not.2 call)]
      dsimp only
      rw [given]
    · cases wraps
  · exact own wraps
  · split at wraps
    · rename_i hole
      show d.assignValue s site _ = _
      rw [Draft.assignValue, if_pos hole]
      exact own wraps
    · cases wraps
  · cases wraps

/-- An advice that wraps a node, in a statement that no earlier run marked, changes the file by the
halves of its template and the marks that are due. -/
theorem Writes.eq_wrap {entries : List Entry} {target : Tree} {template : Template}
    (writes : Writes s t d d' entries)
    (wraps : wrapped? t.site.node t.advice = some (target, template))
    (applied : t.advice.apply s t.site d = .ok (changed, d')) :
    ∃ statement, t.site.enclosingStatement? = some statement ∧
      changed = ! s.wasWrapped statement ∧
      (changed = true → ∃ before after, d.halves s t.site template = .ok (before, after) ∧
        entries = wrapEntries t target before after ++ dueMarks s t d statement) := by
  rw [apply_wrapped wraps] at applied
  obtain ⟨statement, inside, same, -, marks⟩ := inStatement_eq_ok applied
  refine ⟨statement, inside, same, fun done => ?_⟩
  rw [same, Bool.not_eq_true'] at done
  obtain ⟨between, done, rfl⟩ := marks done
  obtain ⟨before, after, halves, kept, -, added⟩ := wrapNode_adds (t := t) done
  refine ⟨before, after, halves, ?_⟩
  have edits := (wrapStatement_writes (s := s) (t := t) (d := between) statement).2.1
  rw [dueMarks_congr kept, added, writes.edits, List.append_assoc, List.append_cancel_left_eq]
    at edits
  -- Nothing else that a task can write has two edits besides the marks.
  have size := congrArg List.length edits
  simp only [List.length_append, List.length_map, wrapEntries, List.length_cons, List.length_nil]
    at size
  cases writes.records with
  | nothing =>
    simp only [List.length_nil] at size
    omega
  | block offset shape =>
    simp only [List.length_cons, List.length_nil] at size
    omega
  | text found inserts =>
    cases inside.symm.trans found
    simp only [List.length_append] at size
    cases inserts with
    | wrap wraps' halves' =>
      cases wraps.symm.trans wraps'
      cases halves.symm.trans halves'
      rfl
    | value text =>
      simp only [List.length_cons, List.length_nil] at size
      omega
    | operand name advice found package =>
      simp only [List.length_cons, List.length_nil] at size
      omega

/-! ## The log of a weaving -/

/-- Carrying out the tasks in order leads from one draft to another, and the entries list what each
of them writes. -/
inductive Logs (s : Scene) : Draft → List Task → Draft → List Entry → Prop
  | nil (d : Draft) : Logs s d [] d []
  | cons {d d' d'' : Draft} {t : Task} {ts : List Task} {changed : Bool}
      {entries log : List Entry} :
      t.advice.apply s t.site d = .ok (changed, d') → Writes s t d d' entries →
      Logs s d' ts d'' log → Logs s d (t :: ts) d'' (entries ++ log)

/-- Whatever is carried out can be listed. -/
theorem Performs.exists_logs {p q : Progress} {ts : List Task} (h : Performs s p ts q) :
    ∃ log, Logs s p.1 ts q.1 log := by
  induction h with
  | nil p => exact ⟨[], .nil p.1⟩
  | cons applied _ ih =>
    obtain ⟨log, logged⟩ := ih
    obtain ⟨entries, writes⟩ := apply_writes applied
    exact ⟨entries ++ log, .cons applied writes logged⟩

/-- The log of tasks in a row is that of the first of them, then that of the others. -/
theorem Logs.exists_append {front back : List Task} {log : List Entry}
    (logged : Logs s d (front ++ back) d' log) :
    ∃ between first rest, Logs s d front between first ∧ Logs s between back d' rest ∧
      log = first ++ rest := by
  induction front generalizing d log with
  | nil => exact ⟨d, [], log, .nil d, logged, rfl⟩
  | cons t front ih =>
    obtain _ | ⟨applied, writes, later⟩ := logged
    obtain ⟨between, first, rest, before, after, rfl⟩ := ih later
    exact ⟨between, _, rest, .cons applied writes before, after, by rw [List.append_assoc]⟩

/-- A log is that of the tasks before a task, what the task writes, and the log of the others. -/
theorem Logs.exists_split {front back : List Task} {log : List Entry}
    (logged : Logs s d (front ++ t :: back) d' log) :
    ∃ draft changed draft' first entries rest, Logs s d front draft first ∧
      t.advice.apply s t.site draft = .ok (changed, draft') ∧ Writes s t draft draft' entries ∧
      Logs s draft' back d' rest ∧ log = first ++ (entries ++ rest) := by
  obtain ⟨draft, first, _, before, behind, rfl⟩ := logged.exists_append
  obtain _ | ⟨applied, writes, after⟩ := behind
  exact ⟨draft, _, _, first, _, _, before, applied, writes, after, rfl⟩

/-- The edits of a weaving are those of its log. -/
theorem Logs.edits {ts : List Task} {log : List Entry} (h : Logs s d ts d' log) :
    d'.buffer.source = d.buffer.source ∧
      d'.buffer.edits = d.buffer.edits ++ log.map Entry.edit := by
  induction h with
  | nil d => simp
  | cons _ writes _ ih =>
    refine ⟨ih.1.trans writes.source, ?_⟩
    rw [ih.2, writes.edits, List.map_append, List.append_assoc]

/-- A weaving has no other edits. -/
theorem Logs.buffer {source : Text} {ts : List Task} {log : List Entry}
    (h : Logs s (.ofSource source) ts d log) : d.buffer = ⟨source, log.map Entry.edit⟩ := by
  obtain ⟨kept, edits⟩ := h.edits
  show (⟨d.buffer.source, d.buffer.edits⟩ : Buffer) = _
  rw [kept, edits]
  rfl

/-- A statement that a task puts text into has an end marker, or gets one. -/
theorem Records.exists_closing {entries : List Entry} (h : Records s t d entries) :
    ∀ e ∈ entries, e.part.isText = true →
      ∃ statement, e.task.site.enclosingStatement? = some statement ∧
        (statement.start ∈ d.wrapped ∨ ∃ m ∈ entries, m.closes statement.start) := by
  intro e he text
  cases h with
  | nothing => exact absurd he List.not_mem_nil
  | block offset shape =>
    cases List.mem_singleton.1 he
    cases text
  | @text statement texts found inserts =>
    rcases List.mem_append.1 he with written | due
    · obtain ⟨rfl, -⟩ := inserts.isText e written
      refine ⟨statement, found, ?_⟩
      -- The marks are due unless an earlier task of the run has put them in.
      by_cases had : statement.start ∈ d.wrapped
      · exact .inl had
      · obtain ⟨m, listed, closes⟩ := exists_closing_of_due (s := s) (t := e.task) had
        exact .inr ⟨m, List.mem_append_right texts listed, closes⟩
    · obtain ⟨m, -, rfl⟩ := mem_dueMarks due
      cases text

/-- A statement that gets text in a weaving had an end marker, or gets one. -/
theorem Logs.exists_closing {ts : List Task} {log : List Entry} (h : Logs s d ts d' log) :
    ∀ e ∈ log, e.part.isText = true →
      ∃ statement, e.task.site.enclosingStatement? = some statement ∧
        (statement.start ∈ d.wrapped ∨ ∃ m ∈ log, m.closes statement.start) := by
  induction h with
  | nil d => exact List.forall_mem_nil _
  | cons _ writes _ ih =>
    intro e he text
    rcases List.mem_append.1 he with here | later
    · obtain ⟨statement, found, marked⟩ := writes.records.exists_closing e here text
      exact ⟨statement, found, marked.imp_right fun ⟨m, listed, closes⟩ =>
        ⟨m, List.mem_append_left _ listed, closes⟩⟩
    · obtain ⟨statement, found, marked⟩ := ih e later text
      refine ⟨statement, found, ?_⟩
      -- What was marked when the rest began was marked before, or by this task.
      rcases marked with before | ⟨m, listed, closes⟩
      · exact (writes.wrapped _ before).imp_right fun ⟨m, listed, closes⟩ =>
          ⟨m, List.mem_append_left _ listed, closes⟩
      · exact .inr ⟨m, List.mem_append_right _ listed, closes⟩

/-- What holds of all that a task can write holds of a log. -/
theorem Logs.forall_mem {ts : List Task} {log : List Entry} {P : Entry → Prop}
    (h : Logs s d ts d' log)
    (step : ∀ t ∈ ts, ∀ d entries, Records s t d entries → ∀ e ∈ entries, P e) :
    ∀ e ∈ log, P e := by
  induction h with
  | nil d => exact List.forall_mem_nil _
  | cons _ writes _ ih =>
    intro e he
    rcases List.mem_append.1 he with here | later
    · exact step _ List.mem_cons_self _ _ writes.records e here
    · exact ih (fun t ht => step t (List.mem_cons_of_mem _ ht)) e later

/-- A mark in a log is what the layout of its statement asks for. -/
theorem Logs.edit_mark {ts : List Task} {log : List Entry} (h : Logs s d ts d' log) :
    ∀ e ∈ log, ∀ m, e.part = .mark m → e.edit = m.edit s.file.source := by
  refine h.forall_mem fun t _ d entries records => ?_
  cases records with
  | nothing => exact List.forall_mem_nil _
  | block offset shape => exact List.forall_mem_singleton.2 nofun
  | text found inserts =>
    refine List.forall_mem_append.2 ⟨fun e he m same => ?_, fun e due m same => ?_⟩
    · have kind := (inserts.isText e he).2
      rw [same] at kind
      cases kind
    · obtain ⟨m, -, rfl⟩ := mem_dueMarks due
      cases same
      rfl

/-- A block in a log is lines between instrument markers, and nothing is taken out for it. -/
theorem Logs.isBlock {ts : List Task} {log : List Entry} (h : Logs s d ts d' log) :
    ∀ e ∈ log, e.part = .block → IsBlock e.edit.text ∧ e.edit.stop = e.edit.start := by
  refine h.forall_mem fun t _ d entries records => ?_
  cases records with
  | nothing => exact List.forall_mem_nil _
  | block offset shape => exact List.forall_mem_singleton.2 fun _ => ⟨shape, rfl⟩
  | text found inserts =>
    refine List.forall_mem_append.2 ⟨fun e he same => ?_, fun e due same => ?_⟩
    · have kind := (inserts.isText e he).2
      rw [same] at kind
      cases kind
    · obtain ⟨m, -, rfl⟩ := mem_dueMarks due
      cases same

/-- Only the qualifiers of calls are replaced. -/
theorem Logs.point {ts : List Task} {log : List Entry} (h : Logs s d ts d' log) :
    ∀ e ∈ log, (∀ target, e.part ≠ .operand target) → e.edit.stop = e.edit.start := by
  refine h.forall_mem fun t _ d entries records => ?_
  cases records with
  | nothing => exact List.forall_mem_nil _
  | block offset shape => exact List.forall_mem_singleton.2 fun _ => rfl
  | text found inserts =>
    refine List.forall_mem_append.2 ⟨fun e he other => ?_, fun e due _ => ?_⟩
    · -- Of the texts for expressions only the operand of a call replaces something.
      cases inserts with
      | wrap wraps halves => rcases List.mem_pair.1 he with rfl | rfl <;> rfl
      | value text => rw [List.mem_singleton.1 he]
      | operand name advice found package =>
        rw [List.mem_singleton.1 he] at other
        exact absurd rfl (other _)
    · obtain ⟨m, -, rfl⟩ := mem_dueMarks due
      exact (Mark.edit_inserts s.file.source m).1

/-! ## Where entries are -/

private theorem wrapped?_within {node target : Tree} {template : Template} {advice : Advice}
    {lo hi : Nat} (h : node.Within lo hi) (wraps : wrapped? node advice = some (target, template)) :
    target.Within lo hi := by
  -- Most forms wrap the value of the node itself.
  have own : ∀ {t : Template}, node.ownValue?.map (·, t) = some (target, template) →
      target.Within lo hi := by
    intro t found
    obtain ⟨value, given, same⟩ := Option.map_eq_some_iff.1 found
    cases same
    exact h.ownValue given
  unfold wrapped? at wraps
  split at wraps
  · split at wraps
    · obtain ⟨argument, given, same⟩ := Option.map_eq_some_iff.1 wraps
      cases same
      exact h.argument given
    · cases wraps
  · exact own wraps
  · split at wraps
    · exact own wraps
    · cases wraps
  · cases wraps

private theorem operand?_within {node operand : Tree} {lo hi : Nat} (h : node.Within lo hi)
    (found : operand? node = some operand) : operand.Within lo hi := by
  obtain ⟨function, called, qualified⟩ := Option.bind_eq_some_iff.1 found
  exact (h.child? called).child? qualified

/-- Text for expressions lies within the node that the advice is applied at. -/
theorem Inserts.within {entries : List Entry} (h : Inserts s t d entries) {lo hi : Nat}
    (node : t.site.node.Within lo hi) :
    ∀ e ∈ entries,
      lo ≤ e.edit.start ∧ e.edit.start ≤ e.edit.stop ∧ e.edit.stop ≤ hi := by
  -- What is wrapped, replaced or sent elsewhere is the node or a part of it.
  cases h with
  | wrap wraps halves =>
    have target := wrapped?_within node wraps
    have low := target.low
    have high := target.high
    have size := target.le
    simp only [List.forall_mem_cons]
    refine ⟨?_, ?_, List.forall_mem_nil _⟩ <;> omega
  | value text =>
    have low := node.low
    have high := node.high
    have size := node.le
    simp only [List.forall_mem_cons]
    refine ⟨?_, List.forall_mem_nil _⟩
    omega
  | operand name advice found package =>
    have operand := operand?_within node found
    have size := operand.le
    simp only [List.forall_mem_cons]
    exact ⟨⟨operand.low, size, operand.high⟩, List.forall_mem_nil _⟩

/-- The halves of a template are inserted at the ends of the node and stick to it. -/
private theorem Inserts.halved {entries : List Entry} (h : Inserts s t d entries) :
    ∀ e ∈ entries,
      (∀ target closing, e.part = .before target closing →
        e.edit = ⟨target.start, target.start, e.edit.text, .right⟩) ∧
      ∀ target, e.part = .after target →
        e.edit = ⟨target.stop, target.stop, e.edit.text, .left⟩ := by
  cases h with
  | wrap wraps halves => simp
  | value text => simp
  | operand name advice found package => simp

/-- Where the edit of an entry is, by what it is for. -/
structure Entry.Fits (s : Scene) (e : Entry) : Prop where
  /-- Text for an expression lies within everything around its place. -/
  text : e.part.isText = true → ∀ a ∈ e.task.site.node :: e.task.site.ancestors,
    a.start ≤ e.edit.start ∧ e.edit.stop ≤ a.stop
  before : ∀ target closing, e.part = .before target closing →
    e.edit = ⟨target.start, target.start, e.edit.text, .right⟩
  after : ∀ target, e.part = .after target →
    e.edit = ⟨target.stop, target.stop, e.edit.text, .left⟩
  /-- A mark stands where the layout of its statement has it. -/
  mark : ∀ m, e.part = .mark m → e.edit = m.edit s.file.source ∧
    ∃ statement, m ∈ Mark.both statement ∧ statement.stop ≤ s.file.source.length
  forward : e.edit.start ≤ e.edit.stop

theorem Records.fits {entries : List Entry} (h : Records s t d entries)
    (inside : t.site.Nested 0 s.file.source.length) : ∀ e ∈ entries, e.Fits s := by
  cases h with
  | nothing => exact List.forall_mem_nil _
  | block offset shape =>
    exact List.forall_mem_singleton.2 ⟨nofun, nofun, nofun, nofun, Nat.le_refl _⟩
  | text found inserts =>
    -- An entry is text of the advice or a mark of the statement around it.
    intro e he
    rcases List.mem_append.1 he with written | due
    · obtain ⟨rfl, kind⟩ := inserts.isText e written
      obtain ⟨-, forward, -⟩ := inserts.within (inside _ List.mem_cons_self).2 e written
      obtain ⟨before, after⟩ := inserts.halved e written
      refine ⟨fun _ a ha => ?_, before, after, fun m same => ?_, forward⟩
      · obtain ⟨low, -, high⟩ := inserts.within (inside a ha).2 e written
        exact ⟨low, high⟩
      · rw [same] at kind
        cases kind
    · obtain ⟨m, listed, rfl⟩ := mem_dueMarks due
      have forward := Nat.le_of_eq (Mark.edit_inserts s.file.source m).1.symm
      refine ⟨nofun, nofun, nofun, fun m' same => ?_, forward⟩
      cases same
      exact ⟨rfl, _, listed, (inside _ (Site.mem_of_enclosingStatement? found)).1.high⟩

theorem site_mem_of_mem_tasks {aspects : List Aspect} (h : t ∈ tasks s aspects) :
    t.site ∈ s.file.tree.sites := by
  obtain ⟨site, visited, ht⟩ := List.mem_flatMap.1 h
  obtain ⟨aspect, -, ht⟩ := List.mem_flatMap.1 ht
  obtain ⟨entry, -, rfl⟩ := List.mem_map.1 ht
  exact (Site.postorderAt_perm s.file.tree []).mem_iff.1 (List.mem_filter.1 visited).1

/-- The edits of a weaving are where their purposes have them. -/
theorem Logs.fits {aspects : List Aspect} {log : List Entry}
    (h : Logs s d (tasks s aspects) d' log)
    (inside : s.file.tree.Within 0 s.file.source.length) : ∀ e ∈ log, e.Fits s :=
  h.forall_mem fun _ ht _ _ records =>
    records.fits (Site.nested_of_mem inside (site_mem_of_mem_tasks ht))

/-- A buffer holds the edits of a log first, each where its purpose has it. -/
structure Listed (s : Scene) (log : List Entry) (b : Buffer) : Prop where
  source : b.source = s.file.source
  fits : ∀ e ∈ log, e.Fits s
  forward : ∀ e ∈ b.edits, e.start ≤ e.stop
  found : ∀ (i : Nat) (e : Entry), log[i]? = some e → b.edits[i]? = some e.edit

/-- The buffer of a weaving holds the edits of its log, and may get others behind them. -/
theorem Logs.listed {aspects : List Aspect} {log : List Entry} {extra : List Edit}
    (logged : Logs s (.ofSource s.file.source) (tasks s aspects) d log)
    (inside : s.file.tree.Within 0 s.file.source.length)
    (forward : ∀ e ∈ extra, e.start ≤ e.stop) :
    Listed s log ⟨d.buffer.source, d.buffer.edits ++ extra⟩ := by
  have fits := logged.fits inside
  rw [logged.buffer]
  refine ⟨rfl, fits, fun e he => ?_, fun i e here => ?_⟩
  · rw [List.mem_append, List.mem_map] at he
    rcases he with ⟨entry, written, rfl⟩ | added
    · exact (fits entry written).forward
    · exact forward e added
  · have low := (List.getElem?_eq_some_iff.1 here).1
    rw [List.getElem?_append_left (by simpa using low), List.getElem?_map, here]
    rfl

/-! ## A file to weave -/

/-- A variable with a value. -/
def valueSpec : Tree :=
  .node .varSpec none 4 9 [.node .identifier (some .name) 4 5 [], .leaf (.symbol "=") 6 7,
    .node .expressionList (some .value) 8 9 [.leaf .identifier 8 9]]

/-- Its declaration. -/
def valueDeclaration : Tree :=
  .node .varDeclaration none 0 9 [.leaf (.symbol "var") 0 3, valueSpec]

/-- A file with nothing else in it. -/
def valueScene : Scene where
  file := ⟨"m.go", "m.go", 1, "var x = e\n", .node .sourceFile none 0 10 [valueDeclaration],
    ⟨[], [], []⟩, "p"⟩
  index := 0
  types := ⟨"m", "p", ⟨1, 0⟩, .empty, []⟩
  package := ⟨"m", "p", false, .empty⟩

/-- An aspect that wraps the value in templates, one after the other. -/
def valueAspect (templates : List Text) : Aspect :=
  ⟨"value", false, .declarationOf "m" "x",
    templates.map fun text => .wrapExpression ⟨text, .empty, none⟩⟩

/-- One of its advices at the variable. -/
def valueTask (templates : List Text) (index : Nat) (text : Text) : Task :=
  ⟨⟨valueSpec, [valueDeclaration, valueScene.file.tree]⟩, valueAspect templates, index,
    .wrapExpression ⟨text, .empty, none⟩⟩

/-- The halves of a template around the value. -/
def valueEntries (t : Task) (before after : Text) : List Entry :=
  [⟨t, .before (.leaf .identifier 8 9) after, ⟨8, 8, before, .right⟩⟩,
    ⟨t, .after (.leaf .identifier 8 9), ⟨9, 9, after, .left⟩⟩]

/-- What is written for a template around the value, with the marks if they are due. -/
theorem writes_value {templates : List Text} {index : Nat} {text before after : Text}
    {d d' : Draft} {due : List Entry} :
    let t := valueTask templates index text
    due = dueMarks valueScene t d valueDeclaration →
    d.halves valueScene t.site ⟨text, .empty, none⟩ = .ok (before, after) →
    d'.buffer.source = d.buffer.source →
    d'.buffer.edits = d.buffer.edits ++ (valueEntries t before after ++ due).map Entry.edit →
    d'.wrapped = (d.wrapStatement valueScene valueDeclaration).wrapped →
    Writes valueScene t d d' (valueEntries t before after ++ due) := by
  intro t same halves source edits wrapped
  subst same
  refine ⟨.text rfl (.wrap rfl halves), source, edits, fun start h => ?_⟩
  rw [wrapped] at h
  obtain ⟨-, -, marked⟩ := wrapStatement_writes (s := valueScene) (t := t) (d := d) valueDeclaration
  exact (marked start h).imp_right fun ⟨e, he, closes⟩ =>
    ⟨e, List.mem_append_right _ he, closes⟩

end Weave

end Interlace
