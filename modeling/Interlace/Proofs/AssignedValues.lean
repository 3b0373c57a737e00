import Interlace.Proofs.InjectedOnce
import Interlace.Proofs.Localizing
import Interlace.Proofs.RemovalReach

/-!
# Values that are assigned and dropped again

An advice gives a variable a value: it renders its template, names the packages of the template, and
inserts the text behind the variable. Taking the advice back looks for variables whose value reads
like the template does in the names that the file has for the packages. It does not render the
template, so a template with a placeholder is never looked for, and the value stays in the file.

## Key results

- `Template.render_of_literal?`: a template without placeholders is rendered to its text
- `Draft.giveValue_eq_ok`: what giving a variable a value comes to
- `Removal.Initialized.mem_revertStatements_iff`: when a value is dropped
- `Weave.unassigned_iff`: which assigned values are taken back
-/

namespace Interlace

open Syntax Qualifier

/-! ## Templates without placeholders -/

namespace Template

variable {t : Template} {text : Text}

/-- A template without placeholders has nothing but literal parts, and they are its text. -/
private theorem exists_literals (h : t.literal? = some text) :
    text = t.text ∧ ∃ l : List Text, t.parts = l.map .literal ∧ t.text = l.flatten := by
  unfold literal? at h
  split at h
  · rename_i all
    -- A part that is not literal would have ended the search for the text.
    have plain : ∀ part ∈ t.parts, ∃ u, part = .literal u := by
      intro part listed
      have this := List.all_eq_true.1 all part listed
      split at this
      · exact ⟨_, rfl⟩
      · cases this
    refine ⟨(Option.some.inj h).symm, ?_⟩
    have spelled := spelled_partsFrom 0 t.text
    rw [List.drop_zero] at spelled
    refine spelled.literals (fun name listed => ?_) fun listed => ?_
    · obtain ⟨u, same⟩ := plain _ listed
      cases same
    · obtain ⟨u, same⟩ := plain _ listed
      cases same
  · cases h

/-- A template without placeholders is rendered to its text, whatever placeholders stand for. -/
theorem render_of_literal? (h : t.literal? = some text) (values : Values) :
    t.render values = .ok text := by
  obtain ⟨rfl, l, parts, whole⟩ := exists_literals h
  have filled : (l.map TemplatePart.literal).mapM values.fill = .ok l := by
    clear parts whole
    induction l with
    | nil => rfl
    | cons u l ih =>
      rw [List.map_cons, List.mapM_cons, ih]
      rfl
  rw [render, parts, filled, whole]
  rfl

end Template

/-! ## Giving a variable a value -/

/-- Marking a statement adds to the edits. -/
private theorem Draft.exists_marks (d : Draft) (s : Scene) (statement : Tree) :
    ∃ marks, (d.wrapStatement s statement).buffer.edits = d.buffer.edits ++ marks := by
  by_cases had : statement.start ∈ d.wrapped
  · exact ⟨[], by rw [wrapStatement, if_pos had, List.append_nil]⟩
  · exact ⟨_, (wrapStatement_edits (s := s) had).1⟩

/-- A variable without a value gets one by an insertion behind it, together with the marks of its
statement. -/
theorem Draft.giveValue_eq_ok {s : Scene} {site : Site} {template : Template} {d d' : Draft}
    (h : d.giveValue s site template = .ok (true, d')) :
    site.node.kind = .varSpec ∧ site.node.child? .value = none ∧
      ∃ rendered marks, s.render site template none = .ok rendered ∧
        d'.buffer.edits = d.buffer.edits ++ (⟨site.node.stop, site.node.stop,
          " = " ++ (d.localize s template rendered).1, .left⟩ : Edit) :: marks := by
  unfold Draft.giveValue at h
  dsimp only at h
  split at h
  · cases h
  · rename_i kind
    refine ⟨not_not.1 kind, ?_⟩
    obtain ⟨statement, -, h⟩ := bind_eq_ok_iff.1 h
    split at h
    · cases h
    · obtain ⟨between, done, h⟩ := bind_eq_ok_iff.1 h
      cases h
      split at done
      · cases done
      · rename_i bare
        obtain ⟨rendered, given, done⟩ := bind_eq_ok_iff.1 done
        cases done
        -- Naming the packages makes no edit, before the insertion and behind it.
        have same := d.sameEdits_localize s template rendered
        have used := ((d.localize s template rendered).2.insert site.node.stop
          (" = " ++ (d.localize s template rendered).1) .left).sameEdits_useTemplate s template
        obtain ⟨marks, marked⟩ := Draft.exists_marks _ s statement
        refine ⟨by simpa using bare, rendered, marks, given, ?_⟩
        rw [marked, used.buffer]
        show (d.localize s template rendered).2.buffer.edits ++ [_] ++ marks = _
        rw [same.buffer, List.append_assoc]
        rfl

/-! ## Dropping it -/

namespace Removal

/-- A variable in one of the statements has a value, and the value is what is written behind the
offset with an equals sign. No other variable ends there. -/
structure Initialized (file : SourceFile) (statements : List Range) (start : Nat) (value : Text)
    (spec given : Tree) : Prop where
  listed : spec ∈ file.tree.ofKind .varSpec
  marked : isInside statements spec
  initializer : spec.child? .value = some given
  declared : declaredEnd? spec.children = some start
  reads : file.text given = value
  ends : given.stop = start + ((" = " : Text) ++ value).length
  only : ∀ other ∈ file.tree.ofKind .varSpec, declaredEnd? other.children = some start →
    other = spec

/-- A variable in a marked statement has a value that was read from behind the offset, as far as an
equals sign and a text of the size reach. No other variable ends there. -/
structure Assigned (file : SourceFile) (start size : Nat) (spec given : Tree) : Prop where
  listed : spec ∈ file.tree.ofKind .varSpec
  marked : isInside (Weave.markedStatements file) spec
  initializer : spec.child? .value = some given
  declared : declaredEnd? spec.children = some start
  begins : given.start = start + (" = " : Text).length
  ends : given.stop = start + size
  only : ∀ other ∈ file.tree.ofKind .varSpec, declaredEnd? other.children = some start →
    other = spec

/-- What stands there is the value. -/
theorem Assigned.initialized {file : SourceFile} {spec given : Tree} {front value back : Text}
    (h : Assigned file front.length ((" = " : Text) ++ value).length spec given)
    (whole : file.source = front ++ (" = " ++ value) ++ back) :
    Initialized file (Weave.markedStatements file) front.length value spec given := by
  refine ⟨h.listed, h.marked, h.initializer, h.declared, ?_, h.ends, h.only⟩
  have split : file.source = (front ++ " = ") ++ value ++ back := by
    rw [whole, List.append_assoc, List.append_assoc, List.append_assoc, List.append_assoc]
  show file.source.slice given.start given.stop = value
  rw [h.begins, h.ends, split, List.length_append, ← Nat.add_assoc, ← List.length_append]
  exact Text.slice_append_append _ _ _

/-- The names that the packages of a template have in a file that is read again. -/
def readNames (added : Dict Text) (t : Template) : List (Text × Text) :=
  t.imports.entries.map fun e => (e.1, nameOf added e.2 e.1)

private theorem literal?_eq (added : Dict Text) (t : Template) :
    literal? added t = t.literal?.map fun text => renameEach text (readNames added t) := by
  unfold literal? readNames renameEach
  simp only [List.foldl_map]

/-- Each package of a template is imported under the name that it was given, or the file does not
say how, and it was given the name that the template has for it. -/
def KnowsNames (added : Dict Text) (d : Draft) (t : Template) : Prop :=
  ∀ e ∈ t.imports.entries, added.get? e.2 = some (d.nameOf e.2 e.1) ∨
    added.get? e.2 = none ∧ d.nameOf e.2 e.1 = e.1

/-- The names that are read are those that were given iff the packages are known by them. -/
theorem readNames_eq_renamings_iff {added : Dict Text} {d : Draft} {t : Template} :
    readNames added t = d.renamings t ↔ KnowsNames added d t := by
  unfold readNames Draft.renamings KnowsNames
  rw [List.map_inj_left]
  refine forall₂_congr fun e _ => ?_
  rw [Prod.mk.injEq, and_iff_right rfl, nameOf]
  cases added.get? e.2 with
  | none => simp [eq_comm]
  | some name => simp

section

variable {file : SourceFile} {statements : List Range} {start : Nat} {value text : Text}
  {spec given : Tree} {added : Dict Text} {reverts : List Revert} {template : Template}

/-- A value is dropped exactly if it reads like the text that is looked for. -/
theorem Initialized.mem_unassign_iff (h : Initialized file statements start value spec given) :
    (⟨start, start + ((" = " : Text) ++ value).length, []⟩ : Splice) ∈
        unassign file statements text ↔ text = value := by
  unfold unassign
  rw [List.mem_filterMap]
  constructor
  · rintro ⟨other, listed, found⟩
    split at found
    · rename_i given' start' initializer declared
      rw [Option.ite_none_right_eq_some] at found
      obtain ⟨reads, same⟩ := found
      obtain ⟨rfl, -⟩ := Splice.mk.inj (Option.some.inj same)
      -- No other variable is initialized from there, so the one that was found is this one.
      obtain rfl := h.only other (List.mem_filter.1 listed).1 declared
      cases h.initializer.symm.trans initializer
      exact reads.symm.trans h.reads
    · cases found
  · rintro rfl
    refine ⟨spec, List.mem_filter.2 ⟨h.listed, h.marked⟩, ?_⟩
    rw [h.initializer, h.declared]
    simp only [h.reads, if_pos, h.ends]

/-- Without patterns nothing is unwrapped. -/
private theorem unwrap_nil {source : Text} (sites : List Wrapped) :
    unwrap source [] sites = [] := by
  induction sites using List.reverseRecOn with
  | nil => rfl
  | append_singleton sites w ih =>
    have free : isCut [] (.ofTree w.node) = false := rfl
    have bare : peeled source [] w = .ofTree w.node := rfl
    rw [unwrap_concat, ih, free, if_neg Bool.false_ne_true, if_pos bare]

/-- An advice that gives variables values is taken back by dropping them; one whose template has
placeholders is not taken back. -/
private theorem revertStatements_unassign (given : statements ≠ []) :
    revertStatements file statements [.unassign template] added =
      match literal? added template with
      | none => []
      | some value => unassign file statements value := by
  have bare : unwrapped file statements [.unassign template] added = [] := by
    rw [unwrapped]
    exact congrArg (List.filter _) (unwrap_nil (wrapSites file statements))
  rw [revertStatements_eq given, bare, List.foldl_cons, List.foldl_nil, restore]
  cases literal? added template <;> rfl

/-- What one advice is taken back by is among the edits of all. -/
private theorem subset_revertStatements_of_unassign (listed : .unassign template ∈ reverts) :
    revertStatements file statements [.unassign template] added ⊆
      revertStatements file statements reverts added := by
  by_cases given : statements = []
  · subst given
    exact List.nil_subset _
  · obtain ⟨front, back, rfl⟩ := List.append_of_mem listed
    rw [revertStatements_unassign given, revertStatements_eq given, List.foldl_append,
      List.foldl_cons]
    -- What one revert adds stays through all that come behind it.
    have later {few all : List Splice} (kept : few ⊆ all) :
        few ⊆ back.foldl (restore file statements added
          (unwrapped file statements (front ++ .unassign template :: back) added)) all :=
      foldl_keeps (K := fun all : List Splice => few ⊆ all)
        (fun all revert _ kept => List.Subset.trans kept (subset_restore revert)) kept
    refine later ?_
    rw [restore]
    cases literal? added template with
    | none => exact List.nil_subset _
    | some value => exact List.subset_append_right _ _

/-- The text that is looked for is the template's, in the names that the packages go by in the
file. -/
theorem Initialized.mem_revertStatements_iff
    (h : Initialized file statements start value spec given) :
    (⟨start, start + ((" = " : Text) ++ value).length, []⟩ : Splice) ∈
        revertStatements file statements [.unassign template] added ↔
      ∃ text, template.literal? = some text ∧
        renameEach text (readNames added template) = value := by
  have marked : statements ≠ [] := by
    rintro rfl
    cases h.marked
  rw [revertStatements_unassign marked, literal?_eq]
  cases template.literal? with
  | none => simp
  | some text =>
    refine h.mem_unassign_iff.trans ?_
    simp

/-- The value is dropped iff the template has no placeholder and is the value, in the names that
the packages go by in the file. -/
private theorem Initialized.dropped_iff
    (h : Initialized file statements start value spec given) :
    (⟨start, start + ((" = " : Text) ++ value).length, []⟩ : Splice) ∈
        revertStatements file statements [.unassign template] added ↔
      template.literal?.isSome ∧ renameEach template.text (readNames added template) = value := by
  refine h.mem_revertStatements_iff.trans ?_
  rw [Option.isSome_iff_exists]
  -- The text of a template without placeholders is the one that it was written with.
  constructor
  · rintro ⟨text, literal, reads⟩
    obtain ⟨rfl, -⟩ := Template.exists_literals literal
    exact ⟨⟨_, literal⟩, reads⟩
  · rintro ⟨⟨text, literal⟩, reads⟩
    obtain ⟨rfl, -⟩ := Template.exists_literals literal
    exact ⟨_, literal, reads⟩

/-- In the names that the packages were given, what a template without placeholders was rendered to
is its text. -/
private theorem Initialized.dropped_iff_of_names {s : Scene} {site : Site} {d : Draft}
    {rendered : Text}
    (h : Initialized file statements start (d.localize s template rendered).1 spec given)
    (renders : s.render site template none = .ok rendered)
    (names : readNames added template = (d.localize s template rendered).2.renamings template) :
    (⟨start, start + ((" = " : Text) ++ (d.localize s template rendered).1).length, []⟩ : Splice) ∈
        revertStatements file statements [.unassign template] added ↔
      template.literal?.isSome := by
  refine h.dropped_iff.trans (and_iff_left_of_imp fun literal => ?_)
  obtain ⟨text, literal⟩ := Option.isSome_iff_exists.1 literal
  obtain ⟨rfl, -⟩ := Template.exists_literals literal
  have same : rendered = template.text := by
    rw [Scene.render, Template.render_of_literal? literal] at renders
    exact (Except.ok.inj renders).symm
  subst same
  rw [names]
  exact (d.localize_eq_renameEach s template template.text).symm

end

end Removal

/-! ## The woven file -/

namespace Weave

variable {s : Scene} {aspects : List Aspect} {importer : Importer} {lines : Bool}

/-- An advice with a template without a hole gives a variable its rendered text as a value, and the
woven file has it behind the variable. Where the woven file is read again with a value of a variable
in a marked statement there, the value is dropped iff the template has no placeholder and is, in the
names that the packages go by in the added imports, the value. It is dropped iff the template has no
placeholder where each package goes by the name that it was given, or by none and was given that of
the template. The same holds of every file in which the value is that of a marked variable. -/
theorem unassigned_iff {path text : Text} {before after : ImportState} {woven : WovenFile}
    {front back : List Task} {task : Task} {template : Template}
    (parsed : SourceFile.parse path text = .ok s.file)
    (run : (file s aspects importer lines).Yields before woven after)
    (listed : tasks s aspects = front ++ task :: back)
    (advice : task.advice = .assignValue template) (noHole : template.hasHole = false) :
    ∃ d first changed d' rest last extra,
      Logs s (.ofSource s.file.source) front d first ∧
      task.advice.apply s task.site d = .ok (changed, d') ∧
      Logs s d' back last rest ∧ Settles importer s.file last extra ∧
      (changed = true → ∃ rendered marks,
        let node := task.site.node
        node.kind = .varSpec ∧ node.child? .value = none ∧
        s.render task.site template none = .ok rendered ∧
        let value := (d.localize s template rendered).1
        let e : Edit := ⟨node.stop, node.stop, " = " ++ value, .left⟩
        let b := shown s.file lines
          ⟨s.file.source, first.map Entry.edit ++ e :: (marks ++ rest.map Entry.edit ++ extra)⟩
        (∃ out r directives, woven.text = some out ∧ b.render = .ok r ∧
          out = atMargin (Positions.insertLines 0 directives r.text) ∧
          (lines = false → directives = [] ∧ (indented r.text = [] → out = r.text)) ∧
          r.text = b.front first.length e ++ e.text ++ b.back first.length e ∧
          ∀ (name : Text) (again : SourceFile), SourceFile.parse name out = .ok again →
            again.source = r.text → ∀ (spec given : Tree),
              let start := b.place first.length e
              Removal.Assigned again start e.text.length spec given →
                let drop : Splice := ⟨start, start + e.text.length, []⟩
                let names := Removal.addedNames again
                let edits := Removal.revertStatements again (markedStatements again)
                  [.unassign template] names
                (drop ∈ edits ↔ template.literal?.isSome ∧
                  renameEach template.text (Removal.readNames names template) = value) ∧
                (Removal.KnowsNames names (d.localize s template rendered).2 template →
                  (drop ∈ edits ↔ template.literal?.isSome))) ∧
        ∀ (again : SourceFile) (statements : List Range) (start : Nat) (spec given : Tree)
          (added : Dict Text), Removal.Initialized again statements start value spec given →
          let drop : Splice := ⟨start, start + e.text.length, []⟩
          let edits := Removal.revertStatements again statements [.unassign template] added
          (drop ∈ edits ↔ template.literal?.isSome ∧
            renameEach template.text (Removal.readNames added template) = value) ∧
          (Removal.readNames added template =
              (d.localize s template rendered).2.renamings template →
            (drop ∈ edits ↔ template.literal?.isSome)) ∧
          ∀ reverts, .unassign template ∈ reverts →
            edits ⊆ Removal.revertStatements again statements reverts added) := by
  -- The run is that of the tasks before this one, this one, and those behind it.
  obtain ⟨last, log, extra, logged, settles, shows⟩ := exists_log parsed run
  rw [listed] at logged
  obtain ⟨d, changed, d', first, entries, rest, earlier, call, writes, later, rfl⟩ :=
    logged.exists_split
  refine ⟨d, first, changed, d', rest, last, extra, earlier, call, later, settles, ?_⟩
  rintro rfl
  have gives := call
  rw [advice] at gives
  replace gives : d.giveValue s task.site template = .ok (true, d') := by
    change d.assignValue s task.site template = _ at gives
    rwa [Draft.assignValue, if_neg (Bool.eq_false_iff.1 noHole)] at gives
  obtain ⟨kind, bare, rendered, marks, given, added⟩ := Draft.giveValue_eq_ok gives
  refine ⟨rendered, marks, kind, bare, given, ?_⟩
  intro value e b
  constructor
  · -- It writes the value and the marks of its statement, in its turn.
    have entry : entries.map Entry.edit = e :: marks := by
      have edits := writes.edits
      rwa [added, List.append_cancel_left_eq, eq_comm] at edits
    have all : (first ++ (entries ++ rest)).map Entry.edit ++ extra =
        first.map Entry.edit ++ e :: (marks ++ rest.map Entry.edit ++ extra) := by
      simp only [List.map_append, entry, List.append_assoc, List.cons_append]
    obtain ⟨mine, others, rfl, edit, -⟩ := List.map_eq_cons_iff.1 entry
    obtain ⟨out, r, directives, changed, rendered', written, flat, whole⟩ :=
      shows first.length mine (by simp)
    rw [all] at rendered' whole
    rw [edit] at whole
    refine ⟨out, r, directives, changed, rendered', written, flat, whole, ?_⟩
    intro name again reparsed same spec given' start assigned
    have initialized := assigned.initialized (same.trans whole)
    exact ⟨initialized.dropped_iff, fun knows =>
      initialized.dropped_iff_of_names given (Removal.readNames_eq_renamings_iff.2 knows)⟩
  · intro again statements start spec given' added initialized drop edits
    exact ⟨initialized.dropped_iff, initialized.dropped_iff_of_names given,
      fun reverts => Removal.subset_revertStatements_of_unassign⟩

/-- The only variable of a file is in a marked statement and has the value. -/
def initializes (start : Nat) (value : Text) (file : SourceFile) : Bool :=
  match file.tree.ofKind .varSpec with
  | [spec] => Removal.isInside (markedStatements file) spec &&
    Removal.declaredEnd? spec.children = some start &&
    (spec.child? .value).any fun given =>
      file.text given = value && given.stop = start + ((" = " : Text) ++ value).length
  | _ => false

private theorem exists_initialized {file : SourceFile} {start : Nat} {value : Text}
    (h : initializes start value file = true) :
    ∃ spec given, Removal.Initialized file (markedStatements file) start value spec given := by
  unfold initializes at h
  split at h
  · rename_i spec single
    simp only [Bool.and_eq_true, decide_eq_true_eq, Option.any_eq_true] at h
    obtain ⟨⟨marked, declared⟩, given, found, reads, ends⟩ := h
    refine ⟨spec, given, by simp [single], marked, found, declared, reads, ends, ?_⟩
    exact fun other listed _ => List.mem_singleton.1 (single ▸ listed)
  · cases h

/-- A file with a variable that has no value. -/
def bareVariable : Text := "package p\n\nvar x string\n"

/-- An aspect that gives the variable a value. -/
def assigningAspect (text : Text) : Aspect :=
  ⟨"assigning", false, .declarationOf "main" "x", [.assignValue ⟨text, .empty, none⟩]⟩

/-- A template that is rendered to the package's name gives the variable that value in the file. -/
private theorem exists_assigning (text : Text)
    (passed : ((SourceFile.parse "p.go" bareVariable).toOption.bind fun file =>
      ((Check.package "main" none [file] ⟨noArchives, false⟩).run.run .fresh).1.toOption.map
        fun types =>
          let s := SourceOptions.standard.scene file types
          let ts := tasks s [assigningAspect text]
          ts.length = 1 &&
          ts.all (fun t =>
            (t.advice.apply s t.site (.ofSource s.file.source)).toOption.map Prod.fst = some true &&
            (s.render t.site ⟨text, .empty, none⟩ none).toOption = some "\"p\"") &&
          (((Weave.file s [assigningAspect text] ⟨noArchives, false⟩ false).run.run
            .fresh).1.toOption.bind fun woven => woven.text.bind fun out =>
              (SourceFile.parse "p.go" out).toOption.map (initializes 40 "\"p\"")) =
            some true) = some true) :
    ∃ file types woven after task d' out again spec given,
      let s := SourceOptions.standard.scene file types
      SourceFile.parse "p.go" bareVariable = .ok file ∧
      (Weave.file s [assigningAspect text] ⟨noArchives, false⟩ false).Yields .fresh woven after ∧
      woven.text = some out ∧ tasks s [assigningAspect text] = [] ++ task :: [] ∧
      task.advice = .assignValue ⟨text, .empty, none⟩ ∧
      task.advice.apply s task.site (.ofSource s.file.source) = .ok (true, d') ∧
      s.render task.site ⟨text, .empty, none⟩ none = .ok "\"p\"" ∧
      SourceFile.parse "p.go" out = .ok again ∧
      Removal.Initialized again (markedStatements again) 40 "\"p\"" spec given := by
  obtain ⟨file, types, -, parsed, -, passed⟩ := Check.exists_of_test passed
  simp only [Bool.and_eq_true, decide_eq_true_eq] at passed
  obtain ⟨⟨single, all⟩, passed⟩ := passed
  obtain ⟨woven, ran, passed⟩ := Option.bind_eq_some_iff.1 passed
  obtain ⟨out, changed, passed⟩ := Option.bind_eq_some_iff.1 passed
  obtain ⟨again, reparsed, passed⟩ := Option.map_eq_some_iff.1 passed
  obtain ⟨after, run⟩ := Importing.exists_yields_iff.2 (toOption_eq_some_iff.1 ran)
  obtain ⟨task, listed⟩ := List.length_eq_one_iff.1 single
  -- There is one task, and it gives the variable its value.
  obtain ⟨aspect, only, advice⟩ := advice_of_mem_tasks (listed ▸ List.mem_singleton_self task)
  cases List.mem_singleton.1 only
  rw [listed, List.all_cons, List.all_nil, Bool.and_true, Bool.and_eq_true, decide_eq_true_eq,
    decide_eq_true_eq] at all
  obtain ⟨applied, given⟩ := all
  obtain ⟨⟨_, d'⟩, applied, rfl⟩ := Option.map_eq_some_iff.1 applied
  obtain ⟨spec, value, initialized⟩ := exists_initialized passed
  exact ⟨file, types, woven, after, task, d', out, again, spec, value, parsed, run, changed, listed,
    List.mem_singleton.1 advice, toOption_eq_some_iff.1 applied, toOption_eq_some_iff.1 given,
    toOption_eq_some_iff.1 reparsed, initialized⟩

/-- A constant value is dropped. -/
theorem unassigned_constant :
    let template : Template := ⟨"\"p\"", .empty, none⟩
    ∃ file types woven after out again,
      let s := SourceOptions.standard.scene file types
      SourceFile.parse "p.go" bareVariable = .ok file ∧
      (Weave.file s [assigningAspect "\"p\""] ⟨noArchives, false⟩ false).Yields .fresh woven after ∧
      woven.text = some out ∧ SourceFile.parse "p.go" out = .ok again ∧
      (⟨40, 46, []⟩ : Splice) ∈
        Removal.revertStatements again (markedStatements again) [.unassign template] .empty := by
  intro template
  obtain ⟨file, types, woven, after, task, d', out, again, spec, value, parsed, run, changed,
    listed, advice, applied, given, reparsed, initialized⟩ := exists_assigning "\"p\""
      (by decide +kernel)
  have noHole : template.hasHole = false := by decide
  obtain ⟨d, first, changed', d'', rest, last, extra, earlier, call, later, settles, assigned⟩ :=
    unassigned_iff parsed run listed advice noHole
  cases earlier
  cases applied.symm.trans call
  -- The template is literal, and what it was rendered to is the value that is read back.
  obtain ⟨rendered, marks, -, -, given', -, dropped⟩ := assigned rfl
  cases given.symm.trans given'
  have literal : template.literal?.isSome := by decide
  exact ⟨file, types, woven, after, out, again, parsed, run, changed, reparsed,
    (dropped again _ 40 spec value .empty initialized).2.1 rfl |>.2 literal⟩

/-- The same value is not dropped where the template has a placeholder for it. -/
theorem not_unassigned :
    ¬ ∀ (path text : Text) (s : Scene) (aspect : Aspect) (importer : Importer)
      (before after : ImportState) (woven : WovenFile) (out : Text) (front back : List Task)
      (task : Task) (template : Template) (d d' : Draft) (log : List Entry) (rendered : Text)
      (again : SourceFile) (start : Nat) (spec given : Tree),
      SourceFile.parse path text = .ok s.file →
      (file s [aspect] importer false).Yields before woven after → woven.text = some out →
      tasks s [aspect] = front ++ task :: back →
      task.advice = .assignValue template → template.hasHole = false →
      Logs s (.ofSource s.file.source) front d log →
      task.advice.apply s task.site d = .ok (true, d') →
      s.render task.site template none = .ok rendered →
      SourceFile.parse path out = .ok again →
      let value := (d.localize s template rendered).1
      Removal.Initialized again (markedStatements again) start value spec given →
      (⟨start, start + ((" = " : Text) ++ value).length, []⟩ : Splice) ∈
        Removal.revertStatements again (markedStatements again) [.unassign template] .empty := by
  intro dropped
  let template : Template := ⟨"\"\x7b\x7bPackageName\x7d\x7d\"", .empty, none⟩
  obtain ⟨file, types, woven, after, task, d', out, again, spec, value, parsed, run, changed,
    listed, advice, applied, given, reparsed, initialized⟩ := exists_assigning template.text
      (by decide +kernel)
  have drop := dropped _ _ _ _ _ _ _ _ _ _ _ _ template _ _ _ _ _ _ _ _ parsed run changed listed
    advice (by decide) (.nil _) applied given reparsed initialized
  obtain ⟨text, literal, -⟩ := initialized.mem_revertStatements_iff.1 drop
  have held : template.literal? = none := by decide
  cases held.symm.trans literal

end Weave

end Interlace
