import Interlace.Proofs.EditPlaces
import Interlace.Proofs.WovenEdits
import Mathlib.Data.List.Permutation

/-!
# Several wraps of one expression

The halves of templates before an expression are inserted in the order of the advice, and so are the
halves behind it. The second order would have to be the reverse of the first for the templates to
nest, so they nest only where the halves behind the expression happen to read the same.

## Key results

- `nest`: templates around a text, each around the next
- `exists_nest_iff`: when halves in one order on both sides read like a nesting
- `Buffer.textOf`: the text that stands for a range of the source
- `Weave.wraps_nest_iff`: what stands for an expression that was wrapped, and when it is a nesting
-/

namespace Interlace

open Syntax

/-! ## Nestings -/

/-- A text in templates, given by their halves, the first of them outermost. -/
def nest : List (Text × Text) → Text → Text
  | [], inner => inner
  | (before, after) :: wraps, inner => before ++ nest wraps inner ++ after

/-- The halves before the text, in order. -/
def openings (wraps : List (Text × Text)) : Text :=
  wraps.flatMap Prod.fst

/-- The halves behind the text, in order. -/
def closings (wraps : List (Text × Text)) : Text :=
  wraps.flatMap Prod.snd

/-- In a nesting, the halves behind the text come in the reverse order. -/
private theorem nest_eq (wraps : List (Text × Text)) (inner : Text) :
    nest wraps inner = openings wraps ++ inner ++ closings wraps.reverse := by
  induction wraps with
  | nil => simp [nest, openings, closings]
  | cons wrap wraps ih =>
    obtain ⟨before, after⟩ := wrap
    rw [nest, ih]
    simp [openings, closings]

/-- Halves in one order on both sides read like a nesting iff they read like the halves of some
order before the text and of its reverse behind. -/
theorem exists_nest_iff (wraps : List (Text × Text)) (inner : Text) :
    (∃ order, order.Perm wraps ∧
        openings wraps ++ inner ++ closings wraps = nest order inner) ↔
      ∃ order, order.Perm wraps ∧ openings order = openings wraps ∧
        closings order.reverse = closings wraps := by
  refine exists_congr fun order => and_congr_right fun perm => ?_
  have size : (openings wraps).length = (openings order).length :=
    (perm.flatMap_right Prod.fst).length_eq.symm
  rw [nest_eq, List.append_assoc, List.append_assoc]
  constructor
  · intro same
    -- Both sides have equally long openings, so the texts agree part by part.
    obtain ⟨front, rest⟩ := List.append_inj same size
    exact ⟨front.symm, (List.append_cancel_left rest).symm⟩
  · rintro ⟨front, back⟩
    rw [front, back]

/-- Templates that all end alike nest in their order. -/
private theorem nest_of_closings_eq {wraps : List (Text × Text)} {closing : Text}
    (alike : ∀ wrap ∈ wraps, wrap.2 = closing) (inner : Text) :
    openings wraps ++ inner ++ closings wraps = nest wraps inner := by
  have replicated (l : List (Text × Text)) (h : ∀ wrap ∈ l, wrap.2 = closing) :
      closings l = (List.replicate l.length closing).flatten := by
    induction l with
    | nil => rfl
    | cons wrap l ih =>
      obtain ⟨first, rest⟩ := List.forall_mem_cons.1 h
      rw [closings, List.flatMap_cons, first, List.length_cons, List.replicate_succ,
        List.flatten_cons, ← ih rest]
      rfl
  rw [nest_eq, replicated wraps alike, replicated wraps.reverse (by simpa using alike),
    List.length_reverse]

/-! ## The text of a range -/

namespace Edit

/-- The edit inserts text at the offset that sticks to one side. -/
def insertsAt (bias : Bias) (offset : Nat) (e : Edit) : Bool :=
  e.start = offset && e.isInsertion && e.bias = bias

/-- The edit inserts text at an end of the range that sticks to it. -/
def clings (start stop : Nat) (e : Edit) : Bool :=
  e.insertsAt .right start || e.insertsAt .left stop

@[simp] theorem insertsAt_mk (at_ : Nat) (text : Text) (side bias : Bias) (offset : Nat) :
    insertsAt bias offset ⟨at_, at_, text, side⟩ = (decide (at_ = offset) && side = bias) := by
  simp [insertsAt, isInsertion]

end Edit

namespace Buffer

/-- What stands for a range of the source, without what is inserted at its ends. -/
def core (b : Buffer) (start stop : Nat) : Text :=
  b.replacement start ++ b.keptAt start
    ++ (List.range' (start + 1) (stop - (start + 1))).flatMap b.textAt

/-- What stands for a range of the source, with what is inserted at its ends and sticks to it. -/
def textOf (b : Buffer) (start stop : Nat) : Text :=
  b.inserted .right start ++ b.core start stop ++ b.inserted .left stop

/-- What stands before a range. -/
def textBefore (b : Buffer) (start : Nat) : Text :=
  (List.range start).flatMap b.textAt ++ b.inserted .left start

/-- What stands behind a range. -/
def textBehind (b : Buffer) (stop : Nat) : Text :=
  b.inserted .right stop ++ b.replacement stop ++ b.keptAt stop
    ++ (List.range' (stop + 1) (b.source.length - stop)).flatMap b.textAt

variable {b : Buffer} {start stop : Nat}

/-- The text of a buffer around a range. -/
private theorem meaning_eq_textOf (given : start < stop) (inside : stop ≤ b.source.length) :
    b.meaning = b.textBefore start ++ b.textOf start stop ++ b.textBehind stop := by
  have behind : List.range' (start + 1) (b.source.length - start) =
      List.range' (start + 1) (stop - (start + 1)) ++
        stop :: List.range' (stop + 1) (b.source.length - stop) := by
    rw [← List.range'_succ, show b.source.length - stop + 1 = b.source.length + 1 - stop by omega,
      ← Sweep.range'_split (by omega) (by omega), Nat.add_sub_add_right]
  rw [meaning, range_succ_eq_around (by omega : start ≤ b.source.length), List.flatMap_append,
    List.flatMap_cons, behind, List.flatMap_append, List.flatMap_cons]
  simp only [textBefore, textOf, core, textBehind, keptAt, textAt, List.append_assoc]

/-- A range that no edit reaches into is kept as it is. -/
private theorem core_eq_slice (given : start < stop) (forward : ∀ e ∈ b.edits, e.start ≤ e.stop)
    (outside : ∀ e ∈ b.edits, e.stop ≤ start ∨ stop ≤ e.start) :
    b.core start stop = b.source.slice start stop := by
  -- In the range no byte is replaced, and nothing is inserted between two bytes.
  have uncovered : ∀ offset, start ≤ offset → offset < stop → b.covers offset = false := by
    intro offset low high
    refine List.any_eq_false.2 fun e he => ?_
    have := outside e he
    simp only [Edit.covers, Bool.and_eq_true, decide_eq_true_eq]
    omega
  have unreplaced : ∀ offset, start ≤ offset → offset < stop → b.replacement offset = [] := by
    intro offset low high
    have nothing : (b.edits.find? fun e => e.start = offset && ! e.isInsertion) = none := by
      refine List.find?_eq_none.2 fun e he => ?_
      have := outside e he
      simp only [Edit.isInsertion, Bool.and_eq_true, decide_eq_true_eq, Bool.not_eq_true',
        decide_eq_false_iff_not]
      omega
    rw [replacement, nothing]
    rfl
  have quiet : ∀ offset bias, start < offset → offset < stop → b.inserted bias offset = [] := by
    intro offset bias low high
    have nothing : (b.edits.filter fun e => e.start = offset && e.isInsertion && e.bias = bias) =
        [] := by
      refine List.filter_eq_nil_iff.2 fun e he => ?_
      have := outside e he
      have := forward e he
      simp only [Bool.and_eq_true, decide_eq_true_eq]
      omega
    rw [inserted, nothing]
    rfl
  have bare : (List.range' (start + 1) (stop - (start + 1))).flatMap b.textAt =
      (List.range' (start + 1) (stop - (start + 1))).flatMap fun i => b.source.slice i (i + 1) := by
    refine List.flatMap_congr fun offset listed => ?_
    rw [List.mem_range'_1] at listed
    have high : offset < stop := by omega
    rw [textAt, quiet offset .left listed.1 high, quiet offset .right listed.1 high,
      unreplaced offset (by omega) high, uncovered offset (by omega) high]
    rfl
  have whole := Sweep.flatMap_slice b.source start stop
  rw [show stop - start = stop - (start + 1) + 1 by omega, List.range'_succ, List.flatMap_cons]
    at whole
  rw [core, unreplaced start (Nat.le_refl _) given, keptAt, uncovered start (Nat.le_refl _) given,
    bare, ← whole]
  rfl

/-- Fewer edits do not get into conflict. -/
private theorem Conflicts.of_sublist {b' : Buffer} (source : b'.source = b.source)
    (fewer : b'.edits.Sublist b.edits) (h : b'.Conflicts) : b.Conflicts := by
  rcases h with ⟨e, he, far⟩ | overlap | ⟨e, he, f, hf, splits⟩
  · exact .inl ⟨e, fewer.subset he, source ▸ far⟩
  · exact .inr (.inl fun apart => overlap (apart.sublist fewer))
  · exact .inr (.inr ⟨e, fewer.subset he, f, fewer.subset hf, splits⟩)

end Buffer

/-! ## Wraps of one expression -/

namespace Part

/-- A mark at an end of a statement. -/
def isMark : Part → Bool
  | mark _ => true
  | _ => false

/-- The edit is a half of a template around the range. -/
def wraps (start stop : Nat) : Part → Bool
  | before target _ | after target => target.start = start && target.stop = stop
  | _ => false

end Part

namespace Weave

/-- The template around a range that an entry opens. -/
def Entry.wrap? (start stop : Nat) (e : Entry) : Option (Text × Text) :=
  match e.part with
  | .before target closing =>
    if target.start = start ∧ target.stop = stop then some (e.edit.text, closing) else none
  | _ => none

/-- The half behind a range that an entry is. -/
def Entry.closing? (start stop : Nat) (e : Entry) : Option Text :=
  match e.part with
  | .after target => if target.start = start ∧ target.stop = stop then some e.edit.text else none
  | _ => none

/-- The templates around a range, in the order in which they were applied. -/
def wrapsOf (start stop : Nat) (log : List Entry) : List (Text × Text) :=
  log.filterMap (Entry.wrap? start stop)

/-- Nothing but halves of templates around the range is inserted at its ends and sticks to it, marks
left aside. -/
def Alone (start stop : Nat) (log : List Entry) (extra : List Edit) : Prop :=
  (∀ e ∈ log, e.part.isMark = false → e.part.wraps start stop = false →
    e.edit.clings start stop = false) ∧ ∀ e ∈ extra, e.clings start stop = false

/-- The edits of a log without marks, and others behind them. -/
def unmarked (source : Text) (log : List Entry) (extra : List Edit) : Buffer :=
  ⟨source, (log.filter (! ·.part.isMark)).map Entry.edit ++ extra⟩

variable {s : Scene} {t : Task} {aspects : List Aspect} {d d' : Draft} {log : List Entry}
  {extra : List Edit} {start stop : Nat}

/-- Every template that one task opens it closes. -/
private theorem Records.closings {entries : List Entry} (h : Records s t d entries) :
    entries.filterMap (Entry.closing? start stop) =
      (entries.filterMap (Entry.wrap? start stop)).map Prod.snd := by
  cases h with
  | nothing => rfl
  | block offset shape => rfl
  | text found inserts =>
    rename_i statement texts
    -- The marks of the statement wrap nothing.
    have marks : (dueMarks s t d statement).filterMap (Entry.closing? start stop) = [] ∧
        (dueMarks s t d statement).filterMap (Entry.wrap? start stop) = [] := by
      constructor <;>
      · refine List.filterMap_eq_nil_iff.2 fun e he => ?_
        obtain ⟨m, -, rfl⟩ := mem_dueMarks he
        rfl
    rw [List.filterMap_append, List.filterMap_append, marks.1, marks.2, List.append_nil,
      List.append_nil]
    cases inserts with
    | wrap wraps halves =>
      rename_i target template before after
      by_cases same : target.start = start ∧ target.stop = stop
      · simp [List.filterMap_cons, Entry.closing?, Entry.wrap?, same]
      · simp [List.filterMap_cons, Entry.closing?, Entry.wrap?, same]
    | value text => rfl
    | operand name advice found package => rfl

/-- Every template that is opened is closed, in the same order. -/
private theorem Logs.closings {ts : List Task} (h : Logs s d ts d' log) :
    log.filterMap (Entry.closing? start stop) = (wrapsOf start stop log).map Prod.snd := by
  induction h with
  | nil d => rfl
  | cons _ writes _ ih =>
    rw [wrapsOf, List.filterMap_append, List.filterMap_append, List.map_append, ih,
      writes.records.closings]
    rfl

/-- What the entries of a log insert at an offset on one side, entry by entry. -/
private theorem inserted_unmarked {source : Text} {bias : Bias} {offset : Nat}
    {given? : Entry → Option Text}
    (each : ∀ e ∈ log, given? e = if e.part.isMark = false ∧ e.edit.insertsAt bias offset = true
      then some e.edit.text else none)
    (others : ∀ e ∈ extra, e.insertsAt bias offset = false) :
    (unmarked source log extra).inserted bias offset = (log.filterMap given?).flatten := by
  have silent : extra.filter (·.insertsAt bias offset) = [] :=
    List.filter_eq_nil_iff.2 fun e he => by simp [others e he]
  show (((log.filter (! ·.part.isMark)).map Entry.edit ++ extra).filter
    (·.insertsAt bias offset)).flatMap Edit.text = _
  rw [List.filter_append, silent, List.append_nil, List.filter_map, List.filter_filter,
    List.flatMap_def, List.map_map, ← List.filterMap_eq_map, List.filterMap_filter]
  refine congrArg List.flatten (List.filterMap_congr fun e he => ?_)
  rw [each e he]
  simp [and_comm]

section

variable (fits : ∀ e ∈ log, e.Fits s) (alone : Alone start stop log extra)

include alone in
/-- Only marks and halves of the templates around a range are inserted at its ends. -/
private theorem Alone.insertsAt {e : Entry} (he : e ∈ log) (plain : e.part.isMark = false)
    (other : e.part.wraps start stop = false) :
    e.edit.insertsAt .right start = false ∧ e.edit.insertsAt .left stop = false :=
  Bool.or_eq_false_iff.1 (alone.1 e he plain other)

include fits alone

/-- An entry opens a template around a range iff it is inserted there before the range. -/
private theorem wrap?_eq {e : Entry} (he : e ∈ log) : (e.wrap? start stop).map Prod.fst =
    if e.part.isMark = false ∧ e.edit.insertsAt .right start = true then some e.edit.text
    else none := by
  have quiet := alone.insertsAt he
  unfold Entry.wrap?
  cases part : e.part with
  | before target closing =>
    have edit := (fits e he).before target closing part
    rw [part] at quiet
    -- A template around another range that starts here would be something else at this end.
    by_cases same : target.start = start ∧ target.stop = stop
    · rw [edit]
      simp [Part.isMark, same]
    · have silent := (quiet rfl (by simpa [Part.wraps] using same)).1
      simp [same, silent]
  | after target =>
    rw [(fits e he).after target part]
    simp
  | mark m => simp [Part.isMark]
  | value | operand _ | block =>
    rw [part] at quiet
    simp [(quiet rfl rfl).1]

/-- An entry closes a template around a range iff it is inserted there behind the range. -/
private theorem closing?_eq {e : Entry} (he : e ∈ log) : e.closing? start stop =
    if e.part.isMark = false ∧ e.edit.insertsAt .left stop = true then some e.edit.text
    else none := by
  -- No other entry inserts anything at the ends of the range.
  have quiet := alone.insertsAt he
  unfold Entry.closing?
  cases part : e.part with
  | before target closing =>
    rw [(fits e he).before target closing part]
    simp
  | after target =>
    have edit := (fits e he).after target part
    rw [part] at quiet
    by_cases same : target.start = start ∧ target.stop = stop
    · rw [edit]
      simp [Part.isMark, same]
    · have silent := (quiet rfl (by simpa [Part.wraps] using same)).2
      simp [same, silent]
  | mark m => simp [Part.isMark]
  | value | operand _ | block =>
    rw [part] at quiet
    simp [(quiet rfl rfl).2]

/-- Before an expression stand the halves that open its templates, in order. -/
private theorem inserted_right (source : Text) :
    (unmarked source log extra).inserted .right start = openings (wrapsOf start stop log) := by
  have others := fun e he => (Bool.or_eq_false_iff.1 (alone.2 e he)).1
  rw [inserted_unmarked (fun e he => wrap?_eq fits alone he) others, openings, wrapsOf,
    List.flatMap_def, List.map_filterMap]

/-- Behind an expression stand the halves that close its templates, in the same order. -/
private theorem inserted_left {ts : List Task} (h : Logs s d ts d' log) (source : Text) :
    (unmarked source log extra).inserted .left stop = closings (wrapsOf start stop log) := by
  have others := fun e he => (Bool.or_eq_false_iff.1 (alone.2 e he)).2
  rw [inserted_unmarked (fun e he => closing?_eq fits alone he) others, h.closings, closings,
    List.flatMap_def]

end

/-- Every template around a range was applied by an advice at a node with a value there, and its
halves are those of the template. -/
private theorem Logs.exists_template {ts : List Task} (h : Logs s d ts d' log) :
    ∀ wrap ∈ wrapsOf start stop log, ∃ t ∈ ts, ∃ target template draft,
      wrapped? t.site.node t.advice = some (target, template) ∧ target.start = start ∧
        target.stop = stop ∧ Draft.halves draft s t.site template = .ok wrap := by
  have each : ∀ e ∈ log, ∀ wrap ∈ e.wrap? start stop, ∃ t ∈ ts, ∃ target template draft,
      wrapped? t.site.node t.advice = some (target, template) ∧ target.start = start ∧
        target.stop = stop ∧ Draft.halves draft s t.site template = .ok wrap := by
    refine h.forall_mem fun t ht draft entries records e he wrap given => ?_
    -- Only the half of a template before a node counts as a wrap.
    cases records with
    | nothing => cases he
    | block offset shape =>
      cases List.mem_singleton.1 he
      cases given
    | text found inserts =>
      rcases List.mem_append.1 he with written | due
      · cases inserts with
        | wrap wraps halves =>
          simp only [List.mem_cons, List.not_mem_nil, or_false] at written
          rcases written with rfl | rfl
          · simp only [Entry.wrap?, Option.mem_def] at given
            split at given
            · rename_i range
              cases given
              exact ⟨t, ht, _, _, draft, wraps, range.1, range.2, halves⟩
            · cases given
          · cases given
        | value text =>
          cases List.mem_singleton.1 written
          cases given
        | operand name advice found package =>
          cases List.mem_singleton.1 written
          cases given
      · obtain ⟨m, -, rfl⟩ := mem_dueMarks due
        cases given
  intro wrap listed
  obtain ⟨e, he, given⟩ := List.mem_filterMap.1 listed
  exact each e he wrap given

private theorem wrapsOf_append (log more : List Entry) :
    wrapsOf start stop (log ++ more) = wrapsOf start stop log ++ wrapsOf start stop more :=
  List.filterMap_append

/-- The marks of a statement are templates around nothing. -/
private theorem wrapsOf_dueMarks (statement : Tree) :
    wrapsOf start stop (dueMarks s t d statement) = [] := by
  refine List.filterMap_eq_nil_iff.2 fun e he => ?_
  obtain ⟨m, -, rfl⟩ := mem_dueMarks he
  rfl

private theorem wrapsOf_wrapEntries (t : Task) (target : Tree) (before after : Text) :
    wrapsOf target.start target.stop (wrapEntries t target before after) = [(before, after)] := by
  simp [wrapsOf, wrapEntries, Entry.wrap?]

/-- An advice that wraps an expression and changes the file adds its template to those around the
expression. -/
private theorem Writes.wrapsOf_eq {entries : List Entry} {changed : Bool} {target : Tree}
    {template : Template} (writes : Writes s t d d' entries)
    (wraps : wrapped? t.site.node t.advice = some (target, template))
    (applied : t.advice.apply s t.site d = .ok (changed, d')) (done : changed = true) :
    ∃ wrap, d.halves s t.site template = .ok wrap ∧
      wrapsOf target.start target.stop entries = [wrap] := by
  obtain ⟨statement, -, -, written⟩ := writes.eq_wrap wraps applied
  obtain ⟨before, after, halves, rfl⟩ := written done
  refine ⟨(before, after), halves, ?_⟩
  rw [wrapsOf_append, wrapsOf_wrapEntries, wrapsOf_dueMarks, List.append_nil]

variable {importer : Importer} {lines : Bool} {path text out : Text} {before after : ImportState}
  {woven : WovenFile}

/-- What stands for an expression in a woven file, marks left aside: the halves that open the
templates around it, in the order in which they were applied, the expression, and the halves that
close them in the same order. Each is the half of a template that an advice applied to the
expression, and each advice that wraps the expression and changes the file has its halves there, in
the order of the advice. The expression is the original one if no other edit reaches into it. The
whole is a nesting of the templates in some order iff some order of them has the same text before
the expression and, in reverse, the same text behind it; so it is one if all templates end alike. -/
theorem wraps_nest_iff (parsed : SourceFile.parse path text = .ok s.file)
    (inside : s.file.tree.Within 0 s.file.source.length)
    (run : (file s aspects importer lines).Yields before woven after)
    (changed : woven.text = some out) :
    ∃ d log extra moved all directives, Logs s (.ofSource s.file.source) (tasks s aspects) d log ∧
      Settles importer s.file d extra ∧
      (⟨s.file.source, log.map Entry.edit ++ (extra ++ moved)⟩ : Buffer).render = .ok all ∧
      out = atMargin (Positions.insertLines 0 directives all.text) ∧
      (lines = false → directives = [] ∧ moved = []) ∧
      ∀ start stop, start < stop → stop ≤ s.file.source.length →
        Alone start stop log (extra ++ moved) →
        let b := unmarked s.file.source log (extra ++ moved)
        let wraps := wrapsOf start stop log
        (∃ r, b.render = .ok r ∧
          r.text = b.textBefore start ++ b.textOf start stop ++ b.textBehind stop) ∧
        b.textOf start stop = openings wraps ++ b.core start stop ++ closings wraps ∧
        (∀ wrap ∈ wraps, ∃ t ∈ tasks s aspects, ∃ target template draft,
          wrapped? t.site.node t.advice = some (target, template) ∧ target.start = start ∧
            target.stop = stop ∧ Draft.halves draft s t.site template = .ok wrap) ∧
        (∀ front t back target template, tasks s aspects = front ++ t :: back →
          wrapped? t.site.node t.advice = some (target, template) → target.start = start →
          target.stop = stop →
            ∃ draft changed draft' first rest, Logs s (.ofSource s.file.source) front draft first ∧
              t.advice.apply s t.site draft = .ok (changed, draft') ∧ Logs s draft' back d rest ∧
              (changed = true → ∃ wrap, Draft.halves draft s t.site template = .ok wrap ∧
                wraps = wrapsOf start stop first ++ wrap :: wrapsOf start stop rest)) ∧
        ((∀ e ∈ b.edits, e.stop ≤ start ∨ stop ≤ e.start) →
          b.core start stop = s.file.source.slice start stop) ∧
        ((∃ order, order.Perm wraps ∧ b.textOf start stop = nest order (b.core start stop)) ↔
          ∃ order, order.Perm wraps ∧ openings order = openings wraps ∧
            closings order.reverse = closings wraps) ∧
        ((∃ closing, ∀ wrap ∈ wraps, wrap.2 = closing) →
          b.textOf start stop = nest wraps (b.core start stop)) := by
  obtain ⟨d, log, extra, all, directives, logged, settles, rendered, written, bare⟩ :=
    exists_edits run changed
  have listed := logged.listed_shown lines settles (SourceFile.tree_of_parse parsed).1 inside
  obtain ⟨moved, whole, -⟩ :=
    shown_eq s.file lines ⟨s.file.source, log.map Entry.edit ++ extra⟩
  -- The rendered edits are those of the advice, of the imports, and what moves statements apart.
  rw [List.append_assoc] at whole
  rw [whole] at rendered listed
  change (⟨s.file.source, _⟩ : Buffer).render = _ at rendered
  change Listed s log ⟨s.file.source, _⟩ at listed
  refine ⟨d, log, extra, moved, all, directives, logged, settles, rendered, written,
    fun unlined => ⟨bare unlined, ?_⟩, fun start stop given bound alone => ?_⟩
  · subst unlined
    have same : log.map Entry.edit ++ extra = log.map Entry.edit ++ (extra ++ moved) :=
      congrArg Buffer.edits whole
    rw [← List.append_assoc] at same
    exact List.append_right_eq_self.1 same.symm
  intro b wraps
  -- Fewer edits do not get into conflict, so what is left without the marks is rendered too.
  have fewer : b.edits.Sublist (log.map Entry.edit ++ (extra ++ moved)) :=
    (List.filter_sublist.map _).append_right _
  have ordered : ∀ e ∈ b.edits, e.start ≤ e.stop := fun e he => listed.forward e (fewer.subset he)
  have calm : ¬ b.Conflicts := fun conflict =>
    Buffer.not_conflicts_of_render listed.forward rendered
      (conflict.of_sublist listed.source.symm fewer)
  obtain ⟨r, unmarked, meant⟩ := (Buffer.render_meaning ordered).2 calm
  have text : b.textOf start stop = openings wraps ++ b.core start stop ++ closings wraps := by
    rw [Buffer.textOf, inserted_right listed.fits alone, inserted_left listed.fits alone logged]
  refine ⟨⟨r, unmarked, meant.trans (Buffer.meaning_eq_textOf given bound)⟩, text,
    logged.exists_template, ?_, Buffer.core_eq_slice given ordered, ?_, ?_⟩
  · -- The log of the task stands between those of the tasks before and behind it.
    rintro front t back target template split wrapping rfl rfl
    rw [split] at logged
    obtain ⟨draft, changed, draft', first, entries, rest, earlier, applied, writes, later, rfl⟩ :=
      logged.exists_split
    refine ⟨draft, changed, draft', first, rest, earlier, applied, later, fun done => ?_⟩
    obtain ⟨wrap, halves, mine⟩ := writes.wrapsOf_eq wrapping applied done
    refine ⟨wrap, halves, ?_⟩
    show wrapsOf _ _ (first ++ (entries ++ rest)) = _
    rw [wrapsOf_append, wrapsOf_append, mine, List.singleton_append]
  · rw [text]
    exact exists_nest_iff wraps (b.core start stop)
  · rintro ⟨closing, alike⟩
    rw [text]
    exact nest_of_closings_eq alike (b.core start stop)

/-- Tasks that put templates around the value refer to no package, write the halves of the
templates at its ends, and nothing else but marks. -/
private theorem Logs.values {ts : List Task} (logged : Logs s d ts d' log)
    {halves : List (Text × Text)}
    (each : ts.map (Task.valueHalves? s) = halves.map some) :
    d'.references = d.references ∧ wrapsOf 19 20 log = halves ∧
      ∀ e ∈ log, e.part.isMark = true ∨
        e.part.wraps 19 20 = true ∧ (e.edit.stop ≤ 19 ∨ 20 ≤ e.edit.start) := by
  -- The induction is on the tasks, each of which adds its two halves and its marks.
  induction logged generalizing halves with
  | nil d =>
    cases List.map_eq_nil_iff.1 each.symm
    exact ⟨rfl, rfl, List.forall_mem_nil _⟩
  | @cons d between d'' t ts changed entries log applied writes _ ih =>
    obtain ⟨wrap, rest, rfl, first, others⟩ := List.map_eq_cons_iff.1 each.symm
    obtain ⟨target, template, statement, value⟩ := Task.exists_wrapsValue first.symm
    obtain rfl := value.entries writes applied
    obtain ⟨idle, wraps, around⟩ := ih others.symm
    refine ⟨idle.trans (references_plain value.wraps value.plain applied), ?_,
      List.forall_mem_append.2 ⟨List.forall_mem_append.2 ⟨fun e he => .inr ?_,
        fun e due => .inl ?_⟩, around⟩⟩
    · have given := wrapsOf_wrapEntries t target wrap.1 wrap.2
      rw [value.start, value.stop] at given
      rw [wrapsOf_append, wrapsOf_append, given, wrapsOf_dueMarks, wraps]
      rfl
    · rcases List.mem_pair.1 he with rfl | rfl <;> simp [Part.wraps, value.start, value.stop]
    · obtain ⟨m, -, rfl⟩ := mem_dueMarks due
      rfl

/-- Two templates that end alike nest. -/
theorem wraps_nest_alike :
    let aspects := [valueAspect ["f(\x7b\x7b.\x7d\x7d)", "g(\x7b\x7b.\x7d\x7d)"]]
    let wraps : List (Text × Text) := [("f(", ")"), ("g(", ")")]
    ∃ s woven after out d log, SourceFile.parse "m.go" valueText = .ok s.file ∧
      (file s aspects ⟨noArchives, false⟩ false).Yields .fresh woven after ∧
      woven.text = some out ∧ Logs s (.ofSource s.file.source) (tasks s aspects) d log ∧
      wrapsOf 19 20 log = wraps ∧
      (unmarked s.file.source log []).textOf 19 20 =
        nest wraps "e" := by
  intro aspects wraps
  obtain ⟨s, woven, after, out, parsed, source, inside, unimported, run, changed, each⟩ :=
    exists_wrapped_value ["f(\x7b\x7b.\x7d\x7d)", "g(\x7b\x7b.\x7d\x7d)"] wraps (by decide +kernel)
  obtain ⟨d, log, extra, moved, all, directives, logged, settles, rendered, -, bare, nests⟩ :=
    wraps_nest_iff parsed inside run changed
  obtain ⟨-, rfl⟩ := bare rfl
  obtain ⟨idle, found, around⟩ := logged.values each
  obtain rfl := settles.eq_nil idle unimported
  have alone : Alone 19 20 log [] := by
    refine ⟨fun e he plain other => ?_, List.forall_mem_nil _⟩
    simpa [plain, other] using around e he
  have short : 20 ≤ s.file.source.length := by
    rw [source]
    decide
  obtain ⟨-, -, -, -, original, -, alike⟩ := nests 19 20 (by decide) short alone
  -- The edits that are no wraps stand around the expression, so its text is that of the source.
  have outside : ∀ e ∈ (unmarked s.file.source log []).edits, e.stop ≤ 19 ∨ 20 ≤ e.start := by
    intro f hf
    rw [unmarked, List.append_nil] at hf
    obtain ⟨e, he, rfl⟩ := List.mem_map.1 hf
    obtain ⟨he, plain⟩ := List.mem_filter.1 he
    rw [Bool.not_eq_true'] at plain
    exact ((around e he).resolve_left (by simp [plain])).2
  rw [found] at alike
  have whole := alike ⟨")", by decide⟩
  rw [original outside, source] at whole
  exact ⟨s, woven, after, out, d, log, parsed, run, changed, logged, found, source ▸ whole⟩

/-- Two templates that end differently are not closed in the reverse order. -/
theorem wraps_crossed :
    let templates : List Text := ["f(\x7b\x7b.\x7d\x7d)", "g(\x7b\x7b.\x7d\x7d, 1)"]
    let wraps : List (Text × Text) := [("f(", ")"), ("g(", ", 1)")]
    ∃ d log r, Logs valueScene (.ofSource valueScene.file.source)
        (tasks valueScene [valueAspect templates]) d log ∧ wrapsOf 8 9 log = wraps ∧
      (unmarked valueScene.file.source log []).render = .ok r ∧
      r.text = "var x = f(g(e), 1)\n" ∧
      ∀ order, order.Perm wraps → ("f(g(e), 1)" : Text) ≠ nest order "e" := by
  intro templates wraps
  let t := valueTask templates 0 "f(\x7b\x7b.\x7d\x7d)"
  let u := valueTask templates 1 "g(\x7b\x7b.\x7d\x7d, 1)"
  let log := valueEntries t "f(" ")" ++ markEntries valueScene t valueDeclaration
    ++ (valueEntries u "g(" ", 1)" ++ [] ++ [])
  refine ⟨_, log, _, .cons (t := t) rfl (writes_value rfl rfl rfl rfl rfl)
    (.cons (t := u) rfl (writes_value rfl rfl rfl rfl rfl) (.nil _)), rfl, rfl, by decide,
    fun order perm => ?_⟩
  rcases List.perm_pair.1 perm with rfl | rfl
  · decide
  · decide

end Weave

end Interlace
