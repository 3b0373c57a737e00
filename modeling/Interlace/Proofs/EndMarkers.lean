import Interlace.Proofs.EditPlaces
import Interlace.Proofs.WovenEdits
import Interlace.Proofs.WrapRemoval

/-!
# End markers and what is inserted after them

The end marker of a statement is inserted with the first text that the statement gets. Text that
advice inserts later, at the offset of the marker, comes behind it; and where the marker has no line
break of its own, that text continues the line of the marker.

## Key results

- `Marker.commentAt_text_iff`: when the comment of an inserted marker is the marker alone
- `Weave.endMark_behind_iff`: when the end marker of a statement comes behind all text in it, and
  when its comment is the marker alone
-/

namespace Interlace

open Syntax Text Rendered

/-! ## The comment of a marker -/

/-- A comment is a word alone iff the line ends behind the word. -/
theorem commentAt_text_iff {front word back : Text} (unbroken : newline ∉ word) :
    (commentAt (front ++ word ++ back) front.length).text = word ↔
      back = [] ∨ back.head? = some newline := by
  refine ⟨fun alone => ?_, fun ended => by rw [commentAt_append unbroken ended]⟩
  have size : (front ++ word ++ back).length = front.length + word.length + back.length := by
    rw [List.length_append, List.length_append]
  have bound : front.length ≤ (front ++ word ++ back).length := by omega
  obtain ⟨low, high, last, -⟩ := endsLine_lineEnd bound
  -- The comment is as long as the word, so it ends where the word does.
  have length : (commentAt (front ++ word ++ back) front.length).text.length = _ :=
    Text.length_slice high
  rw [alone] at length
  change word.length = (front ++ word ++ back).lineEnd front.length - front.length at length
  have here : (front ++ word ++ back).lineEnd front.length = (front ++ word).length := by
    rw [List.length_append]
    omega
  rw [here] at last
  rcases last with whole | broken
  · left
    rw [List.length_append] at whole
    exact List.eq_nil_of_length_eq_zero (by omega)
  · right
    rwa [List.getElem?_append_right (Nat.le_refl _), Nat.sub_self, ← List.head?_eq_getElem?]
      at broken

/-- The comment of an inserted marker is the marker alone iff the line ends behind it. -/
theorem Marker.commentAt_text_iff (m : Marker) (front back : Text) {lead trail x : Text}
    (inserted : x = lead ++ m.comment ++ trail) (spaced : ∀ b ∈ lead, isBlank b ∨ b = newline) :
    (commentAt (front ++ x ++ back) (front.length + margin x)).text = m.comment ↔
      trail ++ back = [] ∨ (trail ++ back).head? = some newline := by
  have whole : front ++ x ++ back = (front ++ lead) ++ m.comment ++ (trail ++ back) := by
    rw [inserted]
    simp only [List.append_assoc]
  have found : margin x = lead.length := by
    rw [inserted, List.append_assoc]
    exact m.margin_comment spaced trail
  rw [found, ← List.length_append, whole]
  exact Interlace.commentAt_text_iff m.comment_line.1

private theorem Mark.rank_closing (source : Text) (t : Tree) :
    ((closing t).edit source).rank = 0 := by
  rw [Edit.rank_eq_zero_iff, Edit.isInsertion, decide_eq_true_iff]
  cases last : source.restIsTrivia t.stop with
  | true =>
    rw [edit_closing_of_trivia last]
    exact ⟨Nat.le_refl _, rfl⟩
  | false =>
    rw [edit_closing_of_not_trivia last]
    exact ⟨Nat.le_refl _, rfl⟩

/-- The mark has a line break behind its comment. All do but the end markers on lines of their
own. -/
def Mark.breaksLine (source : Text) : Mark → Bool
  | opening _ => true
  | closing t => ! source.restIsTrivia t.stop

/-- A mark is its comment, behind spacing and before a line break that it may bring. -/
theorem Mark.edit_text (source : Text) (m : Mark) :
    ∃ lead trail, (m.edit source).text = lead ++ m.marker.comment ++ trail ∧
      (∀ b ∈ lead, isBlank b ∨ b = newline) ∧
      if m.breaksLine source then trail.head? = some newline else trail = [] := by
  have indented (offset : Nat) : ∀ b ∈ source.lineIndent offset, isBlank b ∨ b = newline :=
    fun b hb => .inl (Text.lineIndent_blank source offset b hb)
  -- The cases are those of the layout: a line of its own, or in the line.
  cases m with
  | opening t =>
    cases first : source.isFirstOnLine t.start with
    | true =>
      rw [edit_opening_of_first first]
      exact ⟨_, "\n", rfl, indented t.start, rfl⟩
    | false =>
      rw [edit_opening_of_not_first first]
      exact ⟨[], "\n" ++ source.lineIndent t.start, List.append_assoc .., nofun, rfl⟩
  | closing t =>
    cases last : source.restIsTrivia t.stop with
    | true =>
      rw [edit_closing_of_trivia last]
      refine ⟨"\n" ++ source.lineIndent t.start, [], (List.append_nil _).symm, fun b hb => ?_, ?_⟩
      · rcases List.mem_append.1 hb with broken | listed
        · exact .inr (List.mem_singleton.1 broken)
        · exact indented t.start b listed
      · simp [breaksLine, last]
    | false =>
      rw [edit_closing_of_not_trivia last]
      refine ⟨" ", "\n", rfl, fun b hb => .inl ?_, ?_⟩
      · cases List.mem_singleton.1 hb
        rfl
      · rw [breaksLine, last, Bool.not_false, if_pos rfl]
        rfl

/-- A mark that brings no line break needs one behind it. -/
theorem Mark.commentAt_iff (source front back : Text) (m : Mark) :
    (commentAt (front ++ (m.edit source).text ++ back)
        (front.length + margin (m.edit source).text)).text = m.marker.comment ↔
      m.breaksLine source ∨ back = [] ∨ back.head? = some newline := by
  obtain ⟨lead, trail, text, spaced, ended⟩ := m.edit_text source
  rw [m.marker.commentAt_text_iff front back text spaced]
  split at ended
  · rename_i breaks
    rw [List.head?_append, ended]
    simp [breaks]
  · rename_i none
    simp [ended, none]

/-- Beside other code, an end marker brings a line break of its own. On a line of its own, it needs
one behind it. -/
theorem Mark.commentAt_closing_iff (source front back : Text) (t : Tree) :
    (commentAt (front ++ ((closing t).edit source).text ++ back)
        (front.length + margin ((closing t).edit source).text)).text = Marker.endWrap.comment ↔
      source.restIsTrivia t.stop = false ∨ back = [] ∨ back.head? = some newline := by
  rw [← Bool.not_eq_true']
  exact (closing t).commentAt_iff source front back

namespace Weave

/-- The entry is text for an expression inside a statement. -/
def Entry.isFor (e : Entry) (statement : Tree) : Prop :=
  e.part.isText = true ∧ statement ∈ e.task.site.node :: e.task.site.ancestors

variable {s : Scene} {aspects : List Aspect} {d : Draft} {log : List Entry} {extra : List Edit}
  {r : Rendered} {k : Nat} {mark : Entry} {statement : Tree}

namespace Listed

variable {b : Buffer}

/-- An end marker stands where the layout of its statement has it. -/
private theorem edit_closing (h : Listed s log b) (listed : log[k]? = some mark)
    (closes : mark.part = .mark (.closing statement)) :
    mark.edit = (Mark.closing statement).edit s.file.source ∧
      statement.stop ≤ s.file.source.length := by
  obtain ⟨edit, owner, member, bound⟩ :=
    (h.fits mark (List.mem_of_getElem? listed)).mark _ closes
  have same : statement = owner := by simpa [Mark.both] using member
  exact ⟨edit, same ▸ bound⟩

/-- On a line of its own, an end marker stands before a line break of the source or at its end. -/
private theorem newline_behind (h : Listed s log b) (bound : statement.stop ≤ s.file.source.length)
    (edit : mark.edit = (Mark.closing statement).edit s.file.source)
    (trivia : s.file.source.restIsTrivia statement.stop = true)
    (uncovered : b.covers mark.edit.start = false) {rest : Text}
    (ended : mark.edit.start = b.source.length → rest = []) :
    b.keptAt mark.edit.start ++ rest = [] ∨
      (b.keptAt mark.edit.start ++ rest).head? = some newline := by
  -- The marker was put at the end of its line, and what stands there is kept.
  have offset : mark.edit.start = s.file.source.lineEnd statement.stop := by
    rw [edit, Mark.edit_closing_of_trivia trivia]
  have kept : b.keptAt mark.edit.start =
      s.file.source.slice mark.edit.start (mark.edit.start + 1) := by
    rw [Buffer.keptAt, uncovered, h.source]
    rfl
  rw [kept]
  obtain ⟨-, -, last, -⟩ := endsLine_lineEnd bound
  rw [← offset] at last
  rcases last with whole | broken
  · left
    rw [ended (by rw [whole, h.source]), whole]
    simp [slice]
  · right
    rw [List.head?_append, slice, Nat.add_sub_cancel_left, List.head?_take, List.head?_drop, broken]
    rfl

variable (h : Listed s log b) (rendered : b.render = .ok r)

include h rendered

/-- The text of every entry stands at its place. -/
private theorem slice_place {i : Nat} {e : Entry} (here : log[i]? = some e) :
    r.text.slice (b.place i e.edit) (b.place i e.edit + e.edit.text.length) = e.edit.text := by
  rw [Buffer.render_at h.forward rendered (h.found i e here), Buffer.place, slice_append_append]

variable (listed : log[k]? = some mark) (closes : mark.part = .mark (.closing statement))

include listed closes

/-- Text inside a statement comes before the end marker unless it is inserted at the offset of the
marker, and there if it sticks to the text before and is inserted earlier. -/
theorem place_le_closing_iff {i : Nat} {e : Entry} (here : log[i]? = some e)
    (expression : e.isFor statement) (given : e.edit.text ≠ []) :
    b.place i e.edit + e.edit.text.length ≤ b.place k mark.edit ↔
      (e.edit.start = mark.edit.start → e.edit.rank = 0 ∧ i < k) := by
  obtain ⟨apart, -, -⟩ := Buffer.apart_of_render h.forward rendered
  have other : i ≠ k := by
    rintro rfl
    rw [here] at listed
    cases listed
    have kind := expression.1
    rw [closes] at kind
    cases kind
  rw [Buffer.place_le_iff apart (h.found i e here) (h.found k mark listed) other given]
  have fits := h.fits e (List.mem_of_getElem? here)
  have forward := fits.forward
  have inside := (fits.text expression.1 statement expression.2).2
  obtain ⟨edit, bound⟩ := h.edit_closing listed closes
  have offset := (Mark.le_offset_closing bound).1
  rw [Mark.offset, ← edit] at offset
  have rank : mark.edit.rank = 0 := by rw [edit, Mark.rank_closing]
  -- The text lies within the statement, and the marker is inserted at its end or later.
  unfold Edit.Ahead
  omega

/-- The comment of an end marker is the marker alone iff the marker has a line break of its own, or
what else is inserted behind it at its offset is nothing or starts with one. -/
theorem commentAt_closing_iff (uncovered : b.covers mark.edit.start = false) :
    (commentAt r.text (b.place k mark.edit + margin mark.edit.text)).text =
        Marker.endWrap.comment ↔
      s.file.source.restIsTrivia statement.stop = false ∨ b.follow k mark.edit = [] ∨
        (b.follow k mark.edit).head? = some newline := by
  obtain ⟨edit, bound⟩ := h.edit_closing listed closes
  have comment := Mark.commentAt_closing_iff s.file.source (b.front k mark.edit)
    (b.back k mark.edit) statement
  rw [← edit] at comment
  rw [Buffer.render_at h.forward rendered (h.found k mark listed), Buffer.place, comment]
  cases last : s.file.source.restIsTrivia statement.stop with
  | false => exact iff_of_true (.inl rfl) (.inl rfl)
  | true =>
    -- At the end of the text nothing else is written.
    have ended : mark.edit.start = b.source.length → (List.range' (mark.edit.start + 1)
        (b.source.length - mark.edit.start)).flatMap b.textAt = [] := by
      intro whole
      simp [whole]
    have behind := h.newline_behind bound edit last uncovered ended
    rw [Buffer.back, List.append_assoc]
    cases b.follow k mark.edit with
    | nil => simpa using behind
    | cons c rest => simp

end Listed

variable {importer : Importer} {lines : Bool} {path text out : Text} {before after : ImportState}
  {woven : WovenFile}

/-- In every woven file, every statement that gets text in an expression gets an end marker, or one
that starts where it does gets it, and the text of every edit stands at its place. The marker comes
behind all text in the expressions of its statement iff all of it that is inserted at the offset of
the marker sticks to the text before and was inserted before the marker. The comment of the marker
is the marker alone iff the marker has a line break of its own, or what else is inserted behind it
at its offset is nothing or starts with one. -/
theorem endMark_behind_iff (parsed : SourceFile.parse path text = .ok s.file)
    (inside : s.file.tree.Within 0 s.file.source.length)
    (run : (file s aspects importer lines).Yields before woven after)
    (changed : woven.text = some out) :
    ∃ d log extra r directives, Logs s (.ofSource s.file.source) (tasks s aspects) d log ∧
      Settles importer s.file d extra ∧
      let b := shown s.file lines ⟨s.file.source, log.map Entry.edit ++ extra⟩
      b.render = .ok r ∧ out = atMargin (Positions.insertLines 0 directives r.text) ∧
      (lines = false → directives = []) ∧
      (∀ e ∈ log, e.part.isText = true →
        ∃ statement, e.task.site.enclosingStatement? = some statement ∧
          ∃ m ∈ log, m.closes statement.start) ∧
      (∀ (i : Nat) (e : Entry), log[i]? = some e →
        r.text.slice (b.place i e.edit) (b.place i e.edit + e.edit.text.length) = e.edit.text) ∧
      ∀ (k : Nat) (mark : Entry) (statement : Tree), log[k]? = some mark →
        mark.part = .mark (.closing statement) →
        ((∀ (i : Nat) (e : Entry), log[i]? = some e → e.isFor statement → e.edit.text ≠ [] →
            b.place i e.edit + e.edit.text.length ≤ b.place k mark.edit) ↔
          ∀ (i : Nat) (e : Entry), log[i]? = some e → e.isFor statement → e.edit.text ≠ [] →
            e.edit.start = mark.edit.start → e.edit.rank = 0 ∧ i < k) ∧
        (b.covers mark.edit.start = false →
          ((commentAt r.text (b.place k mark.edit + margin mark.edit.text)).text =
              Marker.endWrap.comment ↔
            s.file.source.restIsTrivia statement.stop = false ∨ b.follow k mark.edit = [] ∨
              (b.follow k mark.edit).head? = some newline)) := by
  obtain ⟨d, log, extra, r, directives, logged, settles, rendered, written, bare⟩ :=
    exists_edits run changed
  -- The rendered edits are the log with what reconciling and the canonical form add.
  have all := logged.listed_shown lines settles (SourceFile.tree_of_parse parsed).1 inside
  refine ⟨d, log, extra, r, directives, logged, settles, rendered, written, bare,
    fun e he text => ?_,
    fun i e here => all.slice_place rendered here,
    fun k mark statement listed closes => ⟨?_, fun uncovered => ?_⟩⟩
  · obtain ⟨statement, found, marked⟩ := logged.exists_closing e he text
    exact ⟨statement, found, marked.resolve_left List.not_mem_nil⟩
  · have each := fun (i : Nat) (e : Entry) (here : log[i]? = some e) =>
      all.place_le_closing_iff rendered listed closes here
    exact ⟨fun behind i e here expression given =>
        (each i e here expression given).1 (behind i e here expression given),
      fun early i e here expression given =>
        (each i e here expression given).2 (early i e here expression given)⟩
  · exact all.commentAt_closing_iff rendered listed closes uncovered

/-- With one template around the value, the marker of the declaration comes last. -/
theorem endMark_behind_value :
    let aspects := [valueAspect ["f(\x7b\x7b.\x7d\x7d)"]]
    ∃ s woven after out d log r mark statement,
      SourceFile.parse "m.go" valueText = .ok s.file ∧
      (file s aspects ⟨noArchives, false⟩ false).Yields .fresh woven after ∧
      woven.text = some out ∧ out = atMargin (Positions.insertLines 0 [] r.text) ∧
      Logs s (.ofSource s.file.source) (tasks s aspects) d log ∧ d.buffer.render = .ok r ∧
      log[3]? = some mark ∧ mark.part = .mark (.closing statement) ∧
      (∀ (i : Nat) (e : Entry), log[i]? = some e → e.isFor statement → e.edit.text ≠ [] →
        d.buffer.place i e.edit + e.edit.text.length ≤ d.buffer.place 3 mark.edit) ∧
      (commentAt r.text (d.buffer.place 3 mark.edit + margin mark.edit.text)).text =
        Marker.endWrap.comment := by
  intro aspects
  obtain ⟨s, woven, after, out, parsed, -, inside, unimported, run, changed, each⟩ :=
    exists_wrapped_value ["f(\x7b\x7b.\x7d\x7d)"] [("f(", ")")] (by decide +kernel)
  obtain ⟨t, only, here⟩ := List.map_eq_singleton_iff.1 each
  obtain ⟨target, template, statement, value⟩ := Task.exists_wrapsValue here
  obtain ⟨d, log, extra, r, directives, logged, settles, rendered, written, bare, -, -, last⟩ :=
    endMark_behind_iff parsed inside run changed
  have listed := logged
  rw [only] at listed
  -- The log has the halves of the template and the two marks, and nothing is imported.
  obtain _ | ⟨applied, writes, ended⟩ := listed
  obtain ⟨⟩ := ended
  obtain rfl := value.entries writes applied
  have idle : d.references = .empty := references_plain value.wraps value.plain applied
  obtain rfl := settles.eq_nil idle unimported
  have due : dueMarks s t (.ofSource s.file.source) statement = markEntries s t statement :=
    if_neg List.not_mem_nil
  rw [due, List.append_nil] at logged last rendered
  rw [List.append_nil] at last rendered
  have buffer := logged.buffer
  change (⟨s.file.source, _⟩ : Buffer).render = _ at rendered
  rw [← buffer] at rendered
  obtain ⟨behind, alone⟩ := last 3 _ statement rfl rfl
  have bound := ((logged.listed inside (List.forall_mem_nil _)).edit_closing (k := 3) rfl rfl).2
  have := Mark.le_offset_closing bound
  have := Mark.offset_opening_le s.file.source statement
  have := value.start
  have := value.range
  -- Nothing but the half behind the value is inserted at the offset of the marker.
  have early : ∀ (i : Nat) (e : Entry),
      (wrapEntries t target "f(" ")" ++ markEntries s t statement)[i]? = some e →
      e.edit.start = (Mark.closing statement).offset s.file.source →
        i ≤ 3 ∧ e.edit.rank = 0 ∧ (e.part.isText = true → i < 3) := by
    intro i e here same
    match i, here with
    | 0, here =>
      cases here
      change target.start = _ at same
      omega
    | 1, here =>
      cases here
      exact ⟨by decide, Edit.rank_eq_zero_iff.2 ⟨decide_eq_true (Nat.le_refl _), rfl⟩,
        fun _ => by decide⟩
    | 2, here =>
      cases here
      change (Mark.opening statement).offset s.file.source = _ at same
      omega
    | 3, here =>
      cases here
      exact ⟨Nat.le_refl _, Mark.rank_closing _ _, nofun⟩
  refine ⟨s, woven, after, out, d, _, r, _, statement, parsed, run, changed, bare rfl ▸ written,
    logged, rendered, rfl, rfl, ?_, ?_⟩
  · rw [buffer]
    refine behind.2 fun i e here expression _ same => ?_
    obtain ⟨-, rank, low⟩ := early i e here same
    exact ⟨rank, low expression.1⟩
  · rw [buffer]
    refine (alone (List.any_eq_false.2 fun f hf => ?_)).2 (.inr (.inl (Buffer.follow_eq_nil ?_)))
    · -- Nothing is replaced.
      obtain ⟨e, he, rfl⟩ := List.mem_map.1 hf
      obtain ⟨i, here⟩ := List.mem_iff_getElem?.1 he
      have point := logged.point e he (by
        match i, here with
        | 0, here | 1, here | 2, here | 3, here =>
          cases here
          exact nofun)
      rw [Edit.covers, point]
      simp
    · intro i f found same
      change ((wrapEntries t target "f(" ")" ++ markEntries s t statement).map
        Entry.edit)[i]? = some f at found
      rw [List.getElem?_map, Option.map_eq_some_iff] at found
      obtain ⟨e, here, rfl⟩ := found
      obtain ⟨le, rank, -⟩ := early i e here same
      exact ⟨le, rank ▸ Nat.zero_le _⟩

/-- With two, the end of the second template is inserted behind the marker and continues its
comment, which is no marker any more. -/
theorem endMark_overrun :
    let templates : List Text := ["f(\x7b\x7b.\x7d\x7d)", "g(\x7b\x7b.\x7d\x7d)"]
    ∃ d r, Performs valueScene (.ofSource valueScene.file.source, 0)
        (tasks valueScene [valueAspect templates]) (d, 2) ∧ d.buffer.render = .ok r ∧
      r.text = "//tool:startwrap\nvar x = f(g(e)\n//tool:endwrap)\n" ∧
      (commentAt r.text 32).text = "//tool:endwrap)" ∧
      (commentAt r.text 32).marker = none := by
  intro templates
  exact ⟨_, _, performs_of_foldlM_eq_ok rfl, rfl, by decide, by decide, by decide⟩

end Weave

end Interlace
