import Interlace.Proofs.EndMarkers
import Interlace.Proofs.KeptMarks
import Interlace.Proofs.KeptSplices
import Interlace.Proofs.RevertedText
import Interlace.Proofs.SourceRuns
import Interlace.Proofs.StatementPlaces

/-!
# Weaving a text twice

Weaving puts a mark behind every statement that it changes. The second run looks for the mark among
the siblings of the statement. It finds the mark where that starts in the node that holds the
statement, and misses it where that node ends before the mark, as a clause of a switch does. What it
misses it weaves again. Every mark and every block that it puts in has slashes, which blanks have
not, so what it makes of the text is another text, even if directives are moved to the margin.

## Key results

- `Splice.count_spliced`: how often a byte occurs in a spliced text
- `Weave.count_lt_of_render`: edits that take no slash out and put one in
- `keepsMarks_of_instrument_eq_self`: a text that weaving gives back keeps its marks
- `Weave.LeavesMarks`: the marks that the first run leaves
- `Weave.HoldsMarks`, `Weave.LosesMark`: statements with their marks, and one that lost a mark
- `instrument_again`: when the second run gives the text back
-/

namespace Interlace

/-! ## Texts that grow -/

open Text

namespace Splice

variable {source : Text} {lo hi : Nat} {ss : List Splice} {byte : UInt8}

/-- Where a byte is not taken out, it occurs as often as in the source and in what is put in. -/
theorem count_spliced (apart : Apart lo hi ss)
    (bare : ∀ s ∈ ss, byte ∉ source.slice s.start s.stop) :
    (spliced source lo hi ss).count byte =
      (source.slice lo hi).count byte + (ss.flatMap Splice.text).count byte := by
  induction ss generalizing lo with
  | nil => rfl
  | cons s ss ih =>
    obtain ⟨low, wide, rest⟩ := apart
    obtain ⟨here, bare⟩ := List.forall_mem_cons.1 bare
    rw [spliced, List.count_append, List.count_append, ih rest bare,
      slice_split source low (Nat.le_trans wide rest.le), slice_split source wide rest.le,
      List.count_append, List.count_append, List.count_eq_zero.2 here, List.flatMap_cons,
      List.count_append]
    omega

end Splice

namespace Weave

/-- What stands in front of an indented directive is blank. -/
private theorem blank_of_mem_indentedFrom {front : Text} {lines : List Text} :
    ∀ p ∈ indentedFrom front.length lines,
      p.1 ≤ p.2 ∧ ∀ b ∈ (front ++ join [newline] lines).slice p.1 p.2, isBlank b := by
  induction lines generalizing front with
  | nil => exact List.forall_mem_nil _
  | cons line lines ih =>
    -- An indented directive of the first line has the blanks of that line in front.
    have here (rest : Text) : ∀ b ∈ (front ++ (line ++ rest)).slice front.length
        (front.length + (line.takeWhile isBlank).length), isBlank b := by
      have lead := List.takeWhile_prefix (l := line) isBlank
      rw [slice, List.drop_left, Nat.add_sub_cancel_left,
        List.take_append_of_le_length lead.length_le, ← List.prefix_iff_eq_take.1 lead]
      exact fun b hb => List.all_eq_true.1 List.all_takeWhile b hb
    -- Those of the other lines stand behind the first line and its break.
    have later : ∀ p ∈ indentedFrom (front.length + line.length + 1) lines,
        p.1 ≤ p.2 ∧ ∀ b ∈ (front ++ join [newline] (line :: lines)).slice p.1 p.2, isBlank b := by
      cases lines with
      | nil => exact List.forall_mem_nil _
      | cons second lines =>
        have whole : front ++ join [newline] (line :: second :: lines) =
            (front ++ line ++ [newline]) ++ join [newline] (second :: lines) := by
          simp only [join, List.append_assoc]
        have reached : front.length + line.length + 1 = (front ++ line ++ [newline]).length := by
          simp only [List.length_append, List.length_singleton]
        rw [whole, reached]
        exact ih
    unfold indentedFrom
    dsimp only
    split
    · refine List.forall_mem_cons.2 ⟨⟨Nat.le_add_right _ _, ?_⟩, later⟩
      cases lines with
      | nil => simpa [join] using here []
      | cons second lines =>
        rw [join, List.append_assoc]
        exact here _
    · exact later

/-- Moving directives to the margin only takes blanks out. -/
theorem count_atMargin (t : Text) {byte : UInt8} (solid : isBlank byte = false) :
    (atMargin t).count byte = t.count byte := by
  -- Only the indentation is taken out, and nothing is put in.
  have blank : ∀ s ∈ indentation t, s.start ≤ s.stop ∧ s.text = [] ∧
      byte ∉ t.slice s.start s.stop := by
    intro s hs
    obtain ⟨p, hp, rfl⟩ := List.mem_map.1 hs
    have given := @blank_of_mem_indentedFrom [] _ p (List.mem_filter.1 hp).1
    rw [List.nil_append, join_splitWhere] at given
    refine ⟨given.1, rfl, fun listed => ?_⟩
    rw [given.2 byte listed] at solid
    cases solid
  obtain ⟨kept, sub, apart, text⟩ := Splice.applyAll_eq_spliced fun s hs => (blank s hs).1
  rw [atMargin_eq, text, Splice.count_spliced apart fun s hs => (blank s (sub hs)).2.2]
  have nothing : kept.flatMap Splice.text = [] :=
    List.flatMap_eq_nil_iff.2 fun s hs => (blank s (sub hs)).2.1
  rw [nothing]
  simp [slice]

/-- Edits that take no slash out and put one in make another text of the source. -/
theorem count_lt_of_render {b : Buffer} {r : Rendered} (ordered : ∀ e ∈ b.edits, e.start ≤ e.stop)
    (rendered : b.render = .ok r) {byte : UInt8} (solid : isBlank byte = false)
    (bare : ∀ e ∈ b.edits, byte ∉ b.source.slice e.start e.stop)
    (given : ∃ e ∈ b.edits, byte ∈ e.text) :
    b.source.count byte < (atMargin r.text).count byte := by
  obtain ⟨apart, text⟩ := Buffer.render_eq_spliced ordered rendered
  have bare' : ∀ s ∈ b.sorted.map Edit.splice, byte ∉ b.source.slice s.start s.stop :=
    List.forall_mem_map.2 fun e he => bare e (Buffer.mem_sorted.1 he)
  have whole : b.source.slice 0 b.source.length = b.source := by simp [slice]
  rw [count_atMargin r.text solid, text, Splice.count_spliced apart bare', whole]
  obtain ⟨e, he, put⟩ := given
  refine Nat.lt_add_of_pos_right (List.count_pos_iff.2 (List.mem_flatMap.2 ⟨e.splice, ?_, put⟩))
  exact List.mem_map_of_mem (Buffer.mem_sorted.2 he)

end Weave

end Interlace

namespace Interlace

open Syntax Text Rendered

/-! ## Texts that weaving gives back -/

private theorem Marker.slash_mem (m : Marker) : 0x2F ∈ m.comment := by
  cases m <;> decide

namespace Weave

variable {s : Scene} {aspects : List Aspect} {d : Draft} {log : List Entry}

private theorem IsBlock.slash_mem {text : Text} (h : IsBlock text) : 0x2F ∈ text := by
  obtain ⟨lead, body, -, rfl⟩ := h
  simp [Marker.startInstrument.slash_mem]

private theorem slash_mem_mark (source : Text) (m : Mark) : 0x2F ∈ (m.edit source).text := by
  cases m with
  | opening t =>
    cases first : source.isFirstOnLine t.start with
    | true => simp [Mark.edit_opening_of_first first, Marker.startWrap.slash_mem]
    | false => simp [Mark.edit_opening_of_not_first first, Marker.startWrap.slash_mem]
  | closing t =>
    cases last : source.restIsTrivia t.stop with
    | true => simp [Mark.edit_closing_of_trivia last, Marker.endWrap.slash_mem]
    | false => simp [Mark.edit_closing_of_not_trivia last, Marker.endWrap.slash_mem]

/-- Everything that is woven brings a mark or a block, and those have slashes. -/
private theorem Logs.exists_slash
    (logged : Logs s (.ofSource s.file.source) (tasks s aspects) d log) (given : log ≠ []) :
    ∃ e ∈ log, 0x2F ∈ e.edit.text := by
  have marked : ∀ e ∈ log, ∀ m, e.part = .mark m → 0x2F ∈ e.edit.text := by
    intro e he m part
    rw [logged.edit_mark e he m part]
    exact slash_mem_mark s.file.source m
  obtain ⟨e, he⟩ := List.exists_mem_of_ne_nil log given
  cases text : e.part.isText with
  | true =>
    -- The statement that gets the text gets an end marker with it.
    obtain ⟨statement, -, closed⟩ := logged.exists_closing e he text
    obtain ⟨m, listed, closing, part, -⟩ := closed.resolve_left List.not_mem_nil
    exact ⟨m, listed, marked m listed _ part⟩
  | false =>
    refine ⟨e, he, ?_⟩
    cases part : e.part with
    | mark m => exact marked e he m part
    | block => exact (logged.isBlock e he part).1.slash_mem
    | before target closing | after target | value | operand target =>
      rw [part] at text
      cases text

/-- Nothing is imported twice in the file, and no call that advice applies to goes through a
qualifier with a slash. -/
structure IsPlain (s : Scene) (aspects : List Aspect) : Prop where
  once : s.file.ImportsOnce
  qualifiers : ∀ t ∈ tasks s aspects, ∀ operand, operand? t.site.node = some operand →
    0x2F ∉ s.text operand

instance : Decidable (IsPlain s aspects) :=
  decidable_of_iff
    (s.file.ImportsOnce ∧ ∀ t ∈ tasks s aspects,
      (operand? t.site.node).all fun operand => 0x2F ∉ s.text operand)
    ⟨fun ⟨once, all⟩ => ⟨once, fun t ht operand found => by simpa [found] using all t ht⟩,
      fun h => ⟨h.once, fun t ht => by
        rw [Option.all_eq_true]
        exact fun operand found => decide_eq_true (h.qualifiers t ht operand found)⟩⟩

/-- No edit of an advice takes a slash out. -/
theorem Logs.bare (logged : Logs s (.ofSource s.file.source) (tasks s aspects) d log)
    (plain : IsPlain s aspects) :
    ∀ e ∈ log, 0x2F ∉ s.file.source.slice e.edit.start e.edit.stop := by
  have nothing {e : Edit} (empty : e.stop = e.start) :
      0x2F ∉ s.file.source.slice e.start e.stop := by
    simp [empty, slice]
  refine logged.forall_mem fun t ht d' entries records => ?_
  cases records with
  | nothing => exact List.forall_mem_nil _
  | block offset shape => exact List.forall_mem_singleton.2 (nothing rfl)
  | text found inserts =>
    refine List.forall_mem_append.2 ⟨?_, fun e due => ?_⟩
    · -- Only the operand of a call replaces text, and that is a qualifier without a slash.
      cases inserts with
      | wrap wraps halves =>
        exact List.forall_mem_cons.2 ⟨nothing rfl, List.forall_mem_singleton.2 (nothing rfl)⟩
      | value text => exact List.forall_mem_singleton.2 (nothing rfl)
      | operand name advice qualified package =>
        exact List.forall_mem_singleton.2 (plain.qualifiers t ht _ qualified)
    · obtain ⟨m, -, rfl⟩ := mem_dueMarks due
      exact nothing (Mark.edit_inserts s.file.source m).1

end Weave

section

variable {path source text woven : Text} {aspects : List Aspect} {options : SourceOptions}

/-- The file of the text, checked as a package of its own, is plain. -/
def IsPlain (path text : Text) (aspects : List Aspect) (options : SourceOptions) : Prop :=
  ∀ file types after, SourceFile.parse path text = .ok file →
    (Check.package options.importPath none [file] .alone).Yields .fresh types after →
    Weave.IsPlain (options.scene file types) aspects

/-- A text that keeps its marks is given back. -/
theorem instrument_eq_self_of_keepsMarks (marks : Weave.allMark aspects)
    (kept : KeepsMarks path text aspects options) :
    instrument path text aspects options = .ok text := by
  rw [← recognized_iff_keepsMarks marks, ← wovenText?_eq_none_iff marks] at kept
  rw [instrument_eq_map_wovenText?, kept]
  rfl

/-- A plain text that weaving gives back keeps its marks. -/
theorem keepsMarks_of_instrument_eq_self (marks : Weave.allMark aspects)
    (plain : IsPlain path text aspects options)
    (same : instrument path text aspects options = .ok text) :
    KeepsMarks path text aspects options := by
  rw [← recognized_iff_keepsMarks marks]
  by_contra due
  obtain ⟨file, parsed, -⟩ := bind_eq_ok_iff.1 same
  obtain ⟨types, log, extra, r, wove, whole⟩ := exists_wove marks parsed same due
  obtain ⟨after, checked⟩ := wove.checked
  obtain ⟨d, logged⟩ := wove.logged
  have plain : Weave.IsPlain (options.scene file types) aspects :=
    plain file types after parsed checked
  obtain ⟨-, blocks⟩ := wove.single plain.once
  have solid : isBlank 0x2F = false := rfl
  have grown := Weave.count_lt_of_render (b := Weave.editsOf file log extra)
    (wove.forward_edits parsed) wove.rendered solid
    (List.forall_mem_append.2 ⟨List.forall_mem_map.2 (logged.bare plain), fun e he => by
      simp [(blocks e he).2, slice]⟩)
    (by
      obtain ⟨e, he, slash⟩ := logged.exists_slash wove.given
      exact ⟨e.edit, List.mem_append_left _ (List.mem_map_of_mem he), slash⟩)
  -- Behind a leading directive the text is the source of the file, which has fewer slashes.
  have front := List.suffix_iff_eq_append.1 (SourceFile.source_isSuffix parsed)
  rw [← List.append_cancel_left (front.trans whole)] at grown
  exact Nat.lt_irrefl _ grown

/-! ## The marks of the first run -/

namespace Weave

/-- What the edits of a log leave in a text: every statement that gets text in an expression gets an
end marker, and every mark stands where its edit is. -/
structure LeavesMarks (file : SourceFile) (log : List Entry) (b : Buffer) (out : Text) : Prop where
  closed : ∀ e ∈ log, e.part.isText = true →
    ∃ statement, e.task.site.enclosingStatement? = some statement ∧
      ∃ m ∈ log, m.closes statement.start
  written : ∀ (k : Nat) (e : Entry) (m : Mark), log[k]? = some e → e.part = .mark m →
    e.edit = m.edit file.source ∧ out = b.front k e.edit ++ e.edit.text ++ b.back k e.edit

/-- Where the comment of a mark starts. -/
def commentPlace (b : Buffer) (k : Nat) (e : Edit) : Nat :=
  b.place k e + margin e.text

end Weave

/-- What was done to a file leaves marks in it. -/
private theorem SourceOptions.Wove.leavesMarks {file : SourceFile} {types : PackageTypes}
    {log : List Weave.Entry} {extra : List Edit} {r : Rendered}
    (h : options.Wove aspects file types log extra r)
    (parsed : SourceFile.parse path source = .ok file) :
    Weave.LeavesMarks file log (Weave.editsOf file log extra) r.text := by
  obtain ⟨d, logged⟩ := h.logged
  refine ⟨fun e he text => ?_, fun k e m listed part => ⟨?_, ?_⟩⟩
  · obtain ⟨statement, found, marked⟩ := logged.exists_closing e he text
    exact ⟨statement, found, marked.resolve_left List.not_mem_nil⟩
  · exact logged.edit_mark e (List.mem_of_getElem? listed) m part
  · refine Buffer.render_at (h.forward_edits parsed) h.rendered ?_
    have low := (List.getElem?_eq_some_iff.1 listed).1
    show (log.map Weave.Entry.edit ++ extra)[k]? = _
    rw [List.getElem?_append_left (by simpa using low), List.getElem?_map, listed]
    rfl

/-- A comment that is read where a mark was put is the mark alone, unless the mark brings no line
break and something follows it on its line. -/
theorem Weave.LeavesMarks.text_eq_iff {file again : SourceFile} {log : List Weave.Entry}
    {b : Buffer} (h : Weave.LeavesMarks file log b again.source)
    (parsed : SourceFile.parse path text = .ok again) {k : Nat} {e : Weave.Entry} {m : Mark}
    (listed : log[k]? = some e) (part : e.part = .mark m) {c : Tree}
    (below : c ∈ Tree.preorderAll again.tree.children) (comment : c.kind = .comment)
    (here : c.start = Weave.commentPlace b k e.edit) :
    again.text c = m.marker.comment ↔ m.breaksLine file.source ∨ b.back k e.edit = [] ∨
      (b.back k e.edit).head? = some newline := by
  obtain ⟨edit, whole⟩ := h.written k e m listed part
  have iff := m.commentAt_iff file.source (b.front k e.edit) (b.back k e.edit)
  rw [← edit, ← whole] at iff
  rw [← iff]
  obtain ⟨lead, trail, put, spaced, -⟩ := m.edit_text file.source
  -- Where the mark starts there are two slashes, so the comment runs to the end of the line.
  have slashes : ("//" : Text) <+: again.source.drop c.start := by
    have found : margin e.edit.text = lead.length := by
      rw [edit, put, List.append_assoc]
      exact m.marker.margin_comment spaced trail
    rw [here, Weave.commentPlace, Buffer.place, found, whole, edit, put, ← List.length_append]
    simp only [List.append_assoc]
    rw [← List.append_assoc, List.drop_left]
    exact (Marker.lead_isPrefix m.marker.comment_line.2.1).trans (List.prefix_append _ _)
  have real := (parse_comments (SourceFile.tree_of_parse parsed).1).2.1 c
    (List.mem_filter.2 ⟨below, decide_eq_true comment⟩)
  have stop := (lineEnd_of_isComment real slashes).2
  have same : again.text c = (commentAt again.source c.start).text := by
    show again.source.slice c.start c.stop =
      again.source.slice c.start (again.source.lineEnd c.start)
    rw [stop]
  rw [same, here]
  rfl

/-! ## The second run -/

/-- The place of the statement around a place. -/
def Syntax.Site.statement? (site : Site) : Option Site :=
  site.chain.find? Site.isStatementLevel

/-- The statement around a place of a tree is a child of its parent there. -/
private theorem Syntax.Site.statement?_parent {tree parent : Tree} {site u : Site}
    (listed : site ∈ tree.sites) (found : site.statement? = some u)
    (holds : u.parent? = some parent) : parent ∈ tree.preorder ∧ u.node ∈ parent.children := by
  have held : Site.Holds ⟨tree, []⟩ u :=
    ((Site.mem_sites_iff.1 listed).chain u (List.mem_of_find?_eq_some found)).resolve_right
      List.not_mem_nil
  rcases held.last with rfl | ⟨p, above, ancestors, held, part⟩
  · cases holds
  · rw [parent?, ancestors] at holds
    cases holds
    exact ⟨held.mem_preorder, part⟩

namespace Weave

variable (s : Scene) (aspects : List Aspect)

/-- At every place where advice applies, its marks are where they were put: a start marker before
the statement, and an end marker in the node that holds the statement; or a start marker in the
body. -/
def HoldsMarks : Prop :=
  ∀ site ∈ s.file.tree.sites, Visits s.file site → ∀ aspect ∈ aspects,
    aspect.joinPoint.holdsAt s site → ∀ a ∈ aspect.advice, a.fits s site.node ∧
      if a.isForBody then
        ∀ body, site.node.child? .body = some body → s.file.StartsBlock body
      else
        ∃ u parent, site.statement? = some u ∧ u.parent? = some parent ∧ u.node.isSignificant ∧
          s.file.MarkedBefore .startWrap u.node.start ∧ s.file.HoldsMark .endWrap parent u.node

/-- Some advice applies in a statement that ends before the node that holds it, and every end marker
behind the statement comes behind that node. -/
def LosesMark : Prop :=
  ∃ site ∈ s.file.tree.sites, Visits s.file site ∧ (∃ aspect ∈ aspects,
    aspect.joinPoint.holdsAt s site ∧ ∃ a ∈ aspect.advice, a.isForBody = false) ∧
    ∃ u parent, site.statement? = some u ∧ u.parent? = some parent ∧ parent.kind ≠ .sourceFile ∧
      u.node.start < u.node.stop ∧ u.node.stop < parent.stop ∧
      s.file.PutsMarkOut .endWrap parent u.node

variable {s aspects}

private theorem HoldsMarks.keepsMarks (h : HoldsMarks s aspects)
    (parsed : SourceFile.parse path text = .ok s.file) : KeepsMarks s aspects := by
  intro site listed visits aspect ha holds a given
  obtain ⟨fits, stands⟩ := h site listed visits aspect ha holds a given
  refine ⟨fits, ?_⟩
  split at stands
  · rename_i body
    rw [if_pos body]
    exact stands
  · rename_i body
    rw [if_neg body]
    obtain ⟨u, parent, found, held, sig, before, behind⟩ := stands
    -- The statement is a part of its parent, which is how the mark behind it is found again.
    obtain ⟨node, part⟩ := Site.statement?_parent listed found held
    exact ⟨u.node, congrArg (Option.map Site.node) found, before,
      behind.markedBehind parsed rfl node part sig⟩

private theorem LosesMark.not_keepsMarks (h : LosesMark s aspects)
    (parsed : SourceFile.parse path text = .ok s.file) : ¬ KeepsMarks s aspects := by
  obtain ⟨site, listed, visits, ⟨aspect, ha, holds, a, given, outside⟩, u, parent, found, held,
    inner, wide, short, out⟩ := h
  intro kept
  have stands := (kept site listed visits aspect ha holds a given).2
  rw [if_neg (by rw [outside]; exact Bool.false_ne_true)] at stands
  obtain ⟨same, here, -, behind⟩ := stands
  obtain ⟨node, part⟩ := Site.statement?_parent listed found held
  cases (congrArg (Option.map Site.node) found).symm.trans here
  -- The parent is no root, so the marks behind it do not count for the statement.
  have below : parent ∈ Tree.preorderAll s.file.tree.children := by
    rw [s.file.tree.preorder_eq] at node
    refine (List.mem_cons.1 node).resolve_left fun root => inner ?_
    rw [root, kind_of_parse (SourceFile.tree_of_parse parsed).1]
  exact out.not_markedBehind parsed below part wide short behind

end Weave

/-- A text that was woven by the built-in aspects had its marks already and is the source, or the
marks of the first run stand in it, each of them alone in its comment if nothing follows it on its
line. The second run gives it back if every place where advice applies keeps its marks, and, where
nothing is imported twice and no qualifier has a slash, only then. That depends on where the marks
stand: it does so where each of them starts in the node that holds its statement, and it does not
where a statement ends before the node that holds it and every end marker comes behind both. -/
theorem instrument_again (first : instrument path source builtinAspects options = .ok woven) :
    (KeepsMarks path source builtinAspects options ∧ woven = source ∨
      ∃ file types log extra r, SourceFile.parse path source = .ok file ∧
        options.Wove builtinAspects file types log extra r ∧
        woven = source.take (source.length - file.source.length) ++ Weave.atMargin r.text ∧
        let b := Weave.editsOf file log extra
        Weave.LeavesMarks file log b r.text ∧
        ∀ again, SourceFile.parse path woven = .ok again → again.source = r.text →
          ∀ (k : Nat) (e : Weave.Entry) (m : Mark), log[k]? = some e → e.part = .mark m →
            ∀ c ∈ Tree.preorderAll again.tree.children, c.kind = .comment →
              c.start = Weave.commentPlace b k e.edit →
              (again.text c = m.marker.comment ↔ m.breaksLine file.source ∨ b.back k e.edit = [] ∨
                (b.back k e.edit).head? = some newline)) ∧
    (KeepsMarks path woven builtinAspects options →
      instrument path woven builtinAspects options = .ok woven) ∧
    (IsPlain path woven builtinAspects options →
      instrument path woven builtinAspects options = .ok woven →
        KeepsMarks path woven builtinAspects options) ∧
    ∀ again types after, SourceFile.parse path woven = .ok again →
      (Check.package options.importPath none [again] .alone).Yields .fresh types after →
      let s := options.scene again types
      (Weave.HoldsMarks s builtinAspects →
        instrument path woven builtinAspects options = .ok woven) ∧
      (Weave.LosesMark s builtinAspects → Weave.IsPlain s builtinAspects →
        instrument path woven builtinAspects options ≠ .ok woven) := by
  have marks : Weave.allMark builtinAspects := by decide +kernel
  refine ⟨?_, instrument_eq_self_of_keepsMarks marks, keepsMarks_of_instrument_eq_self marks,
    fun again types after parsed checked => ⟨fun holds => ?_, fun loses plain same => ?_⟩⟩
  · -- A text that kept its marks is given back; any other was woven, and its marks are in the
    -- result.
    by_cases kept : KeepsMarks path source builtinAspects options
    · left
      exact ⟨kept, Except.ok.inj (first.symm.trans (instrument_eq_self_of_keepsMarks marks kept))⟩
    · right
      rw [← recognized_iff_keepsMarks marks] at kept
      obtain ⟨file, parsed, -⟩ := bind_eq_ok_iff.1 first
      obtain ⟨types, log, extra, r, wove, whole⟩ := exists_wove marks parsed first kept
      have leaves := wove.leavesMarks parsed
      refine ⟨file, types, log, extra, r, parsed, wove, whole, leaves,
        fun again reparsed same k e m listed part c below comment here => ?_⟩
      exact (same ▸ leaves).text_eq_iff reparsed listed part below comment here
  · exact instrument_eq_self_of_keepsMarks marks ⟨again, types, after, parsed, checked,
      holds.keepsMarks (s := options.scene again types) parsed⟩
  · -- Nothing besides the marks keeps the second run from giving the text back.
    have alone : IsPlain path woven builtinAspects options := by
      intro again' types' after' parsed' checked'
      cases parsed.symm.trans parsed'
      cases checked.symm.trans checked'
      exact plain
    obtain ⟨again', types', after', parsed', checked', kept⟩ :=
      keepsMarks_of_instrument_eq_self marks alone same
    cases parsed.symm.trans parsed'
    cases checked.symm.trans checked'
    exact loses.not_keepsMarks (s := options.scene again types) parsed kept

end

/-- A file with a handler in the body of a function. -/
def registering : Text :=
  "package p\nimport \"net/http\"\nfunc f() \x7b\n\thttp.Handle(\"/\", h)\n\x7d\n"

/-- A file with a handler at the end of a clause of a switch. -/
def switching : Text :=
  "package p\nimport \"net/http\"\nfunc f() \x7b\n\tswitch \x7b\n\tcase b:\n"
    ++ "\t\thttp.Handle(\"/\", h)\n\t\x7d\n\x7d\n"

/-- In the body of a function a wrapped statement keeps its marks, and the second run gives the text
back. At the end of a clause the mark comes behind the clause, and the second run does not. -/
theorem instrument_again_registering :
    (∃ woven, instrument "p.go" registering builtinAspects .standard = .ok woven ∧
      woven ≠ registering ∧ instrument "p.go" woven builtinAspects .standard = .ok woven) ∧
    ∃ woven again types, instrument "p.go" switching builtinAspects .standard = .ok woven ∧
      SourceFile.parse "p.go" woven = .ok again ∧
      Weave.LosesMark (SourceOptions.standard.scene again types) builtinAspects ∧
      instrument "p.go" woven builtinAspects .standard ≠ .ok woven := by
  constructor
  · have passed : ((instrument "p.go" registering builtinAspects .standard).toOption.bind
        fun woven => (SourceFile.parse "p.go" woven).toOption.bind fun file =>
          ((Check.package "main" none [file] .alone).run.run .fresh).1.toOption.map fun types =>
            decide (woven ≠ registering) &&
              Weave.isSettled (SourceOptions.standard.scene file types) builtinAspects) =
        some true := by decide +kernel
    obtain ⟨woven, first, test⟩ := Option.bind_eq_some_iff.1 passed
    obtain ⟨file, types, after, parsed, checked, test⟩ := Check.exists_of_test test
    simp only [Bool.and_eq_true, decide_eq_true_eq] at test
    -- What was woven counts as woven, so the marks are kept.
    have marks : Weave.allMark builtinAspects := by decide +kernel
    have kept : KeepsMarks "p.go" woven builtinAspects .standard :=
      (recognized_iff_keepsMarks marks).1 ⟨file, types, after, parsed, checked, test.2⟩
    rw [toOption_eq_some_iff] at first
    exact ⟨woven, first, test.1, (instrument_again first).2.1 kept⟩
  · have passed : ((instrument "p.go" switching builtinAspects .standard).toOption.bind
        fun woven => (SourceFile.parse "p.go" woven).toOption.bind fun again =>
          ((Check.package "main" none [again] .alone).run.run .fresh).1.toOption.map fun types =>
            let s := SourceOptions.standard.scene again types
            decide (Weave.IsPlain s builtinAspects) && again.tree.sites.any fun site =>
              ! Weave.isPassedOver again site &&
              builtinAspects.any (fun aspect => aspect.joinPoint.holdsAt s site &&
                aspect.advice.any (! ·.isForBody)) &&
              site.statement?.any fun u => u.parent?.any fun parent =>
                decide (parent.kind ≠ .sourceFile ∧ u.node.start < u.node.stop ∧
                  u.node.stop < parent.stop ∧ again.PutsMarkOut .endWrap parent u.node)) =
        some true := by decide +kernel
    obtain ⟨woven, first, test⟩ := Option.bind_eq_some_iff.1 passed
    obtain ⟨again, types, after, parsed, checked, test⟩ := Check.exists_of_test test
    simp only [Bool.and_eq_true, decide_eq_true_eq, List.any_eq_true, Option.any_eq_true,
      Bool.not_eq_true'] at test
    -- The statement ends before the clause that holds it, and the marker is put behind both.
    obtain ⟨plain, site, listed, ⟨visits, aspect, ha, holds, a, given, outside⟩, u, found, parent,
      held, place⟩ := test
    have loses : Weave.LosesMark (SourceOptions.standard.scene again types) builtinAspects :=
      ⟨site, listed, (Weave.isPassedOver_iff parsed).1 visits,
        ⟨aspect, ha, holds, a, given, outside⟩, u, parent, found, held, place⟩
    rw [toOption_eq_some_iff] at first
    exact ⟨woven, again, types, first, parsed, loses,
      ((instrument_again first).2.2.2 again types after parsed checked).2 loses plain⟩

/-- At the end of a clause the mark behind a wrapped statement is not recognized, and weaving again
wraps the statement again. -/
theorem instrument_again_in_clause :
    ∃ woven again, instrument "p.go" switching builtinAspects .standard = .ok woven ∧
      instrument "p.go" woven builtinAspects .standard = .ok again ∧ again ≠ woven := by
  have passed : ((instrument "p.go" switching builtinAspects .standard).toOption.bind fun woven =>
      (instrument "p.go" woven builtinAspects .standard).toOption.map fun again =>
        decide (again ≠ woven)) = some true := by decide +kernel
  obtain ⟨woven, given, test⟩ := Option.bind_eq_some_iff.1 passed
  obtain ⟨again, second, test⟩ := Option.map_eq_some_iff.1 test
  exact ⟨woven, again, toOption_eq_some_iff.1 given, toOption_eq_some_iff.1 second,
    of_decide_eq_true test⟩

end Interlace
