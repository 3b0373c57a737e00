import Interlace.Proofs.AskedNames
import Interlace.Proofs.DeclaringLines
import Interlace.Proofs.InjectedOnce
import Interlace.Proofs.MarkerComments
import Interlace.Proofs.WrapRemoval

/-!
# Contexts that spans declare

An advice that reports a span of a function puts statements at the start of its body. They declare a
context, unless the function has one of its own. Whether the body has such statements is asked of
the file as it was parsed, so several advices in one run put their statements there one after the
other, and each report declares the context again.

## Key results

- `Draft.prependToBody_eq_ok`: statements at the start of a body are one insertion
- `Draft.contextDeclarations_spanStatements`: what the statements of one report declare
- `Weave.Logs.at_function`: what all reports at a function declare
- `Weave.contextDeclared_once_iff`: when the context is declared once
-/

namespace Interlace

open Syntax

/-! ## Functions that are visited -/

namespace Weave

variable {path text : Text} {s : Scene}

/-- In a file without markers no function is passed over. -/
private theorem isPassedOver_eq_false (parsed : SourceFile.parse path text = .ok s.file)
    (clean : s.file.decorations.markers = []) {site : Site}
    (function : site.node.kind.isFunction = true) : isPassedOver s.file site = false := by
  -- Without markers nothing is ignored and nothing counts as woven.
  have bare := SourceFile.hasLeading_eq_false parsed clean
  have ignored : (site.node :: site.ancestors).any (isIgnored s.file) = false := by
    rw [List.any_eq_false]
    intro node _
    rw [isIgnored, bare, Bool.and_false]
    exact Bool.false_ne_true
  have named : site.node.isNamed = true := by
    unfold Tree.isNamed
    cases kind : site.node.kind <;> rw [kind] at function <;> first | rfl | cases function
  have instrumented : isInstrumented s.file site = false := by
    unfold isInstrumented
    cases site.enclosingStatement? with
    | none => rfl
    | some statement => exact bare statement _
  rw [isPassedOver, ignored, named, instrumented]
  rfl

end Weave

/-! ## Statements at the start of a body -/

/-- Statements at the start of a body, as they are inserted. -/
def Scene.prepending (s : Scene) (body brace : Tree) (statements : Text) : Edit :=
  let source := s.file.source
  let indent := source.lineIndent body.start ++ "\t"
  let block := Marker.startInstrument.comment ++ "\n" ++ Draft.indentLines indent statements
    ++ indent ++ Marker.endInstrument.comment ++ "\n"
  let lineEnd := source.lineEnd brace.stop
  if source.restIsTrivia brace.stop && lineEnd < source.length then
    ⟨lineEnd + 1, lineEnd + 1, indent ++ block, .left⟩
  else ⟨brace.stop, brace.stop, " " ++ block, .left⟩

/-- The statements declare what they do elsewhere; the markers around them declare nothing. -/
private theorem Scene.contextDeclarations_prepending (s : Scene) (body brace : Tree)
    (statements : Text) : contextDeclarations (s.prepending body brace statements).text =
      contextDeclarations statements := by
  unfold prepending
  dsimp only
  generalize lead : s.file.source.lineIndent body.start ++ "\t" = indent
  have blank : ∀ b ∈ indent, Text.isBlank b := by
    rw [← lead]
    refine List.forall_mem_append.2 ⟨Text.lineIndent_blank _ _, ?_⟩
    exact List.forall_mem_singleton.2 (by decide)
  -- A marker takes a line of its own, and that line declares nothing.
  have marker : ∀ (front : Text) (m : Marker), (∀ b ∈ front, Text.isBlank b) →
      ∀ rest, contextDeclarations (front ++ (m.comment ++ Text.newline :: rest)) =
        contextDeclarations rest := by
    intro front m blank rest
    have one_line : Text.newline ∉ front ++ m.comment := by
      refine List.not_mem_append (fun hn => absurd (blank _ hn) (by decide)) ?_
      cases m <;> decide
    have silent : declaresContext (front ++ m.comment) = false := by
      rw [declaresContext_append_of_blank blank]
      cases m <;> decide
    rw [← List.append_assoc, contextDeclarations_line one_line, silent, if_neg Bool.false_ne_true,
      Nat.zero_add]
  have block : ∀ front : Text, (∀ b ∈ front, Text.isBlank b) →
      contextDeclarations (front ++ (Marker.startInstrument.comment ++ "\n" ++
        Draft.indentLines indent statements ++ indent ++ Marker.endInstrument.comment ++ "\n")) =
        contextDeclarations statements := by
    intro front spaces
    simp only [List.append_assoc]
    refine (marker front _ spaces _).trans ?_
    refine (contextDeclarations_indentLines blank statements _).trans ?_
    exact congrArg (_ + ·) (marker indent _ blank [])
  split
  · exact block indent blank
  · exact block " " (List.forall_mem_singleton.2 (by decide))

/-- Statements at the start of a body are one insertion. -/
theorem Draft.prependToBody_eq_ok {s : Scene} {d d' : Draft} {body : Tree} {statements : Text}
    (h : d.prependToBody s body statements = .ok d') :
    ∃ brace, body.childOf? (.symbol "\x7b") = some brace ∧
      d'.buffer.edits = d.buffer.edits ++ [s.prepending body brace statements] := by
  unfold Draft.prependToBody at h
  split at h
  · cases h
  · rename_i brace found
    refine ⟨brace, found, ?_⟩
    unfold Scene.prepending
    dsimp only at h ⊢
    split at h
    · rename_i own
      cases h
      rw [if_pos own]
      rfl
    · rename_i own
      cases h
      rw [if_neg own]
      rfl

/-! ## The statements of a report -/

namespace Text

private theorem newline_not_mem_quote (t : Text) : newline ∉ quote t := by
  have byte : ∀ b : UInt8, newline ∉ quoteByte b := forall_byte (by decide +kernel)
  refine List.not_mem_append (List.not_mem_append (by decide) fun listed => ?_) (by decide)
  obtain ⟨b, -, hn⟩ := List.mem_flatMap.1 listed
  exact byte b hn

private theorem newline_not_mem_join {separator : Text} (unbroken : newline ∉ separator)
    {ts : List Text} (one_line : ∀ t ∈ ts, newline ∉ t) : newline ∉ join separator ts := by
  cases ts with
  | nil => exact List.not_mem_nil
  | cons t ts =>
    obtain ⟨first, others⟩ := List.forall_mem_cons.1 one_line
    rw [join_cons]
    refine List.not_mem_append first fun listed => ?_
    obtain ⟨u, hu, hn⟩ := List.mem_flatMap.1 listed
    exact List.not_mem_append unbroken (others u hu) hn

end Text

namespace Draft

/-- The function has a named context among its parameters, or a request that has one. -/
def ownsContext (s : Scene) (function : Tree) : Bool :=
  (namedParameters s function).any fun p => p.2 = contextType || p.2 = requestType

/-- The call that reports an event in a context. -/
def spanReport (tool tags context event : Text) : Text :=
  tool ++ ".Report(" ++ context ++ ", " ++ tool ++ "." ++ event ++ ", " ++ tags ++ ")"

variable {s : Scene} {d : Draft} {site : Site} {tool tags : Text}

private theorem newline_not_mem_spanTags (s : Scene) (site : Site) (tags : Dict Text) :
    Text.newline ∉ spanTags s site tags := by
  refine Text.newline_not_mem_join (by decide) fun t listed => ?_
  obtain ⟨pair, -, listed⟩ := List.mem_flatMap.1 listed
  simp only [List.mem_cons, List.not_mem_nil, or_false] at listed
  rcases listed with rfl | rfl <;> exact Text.newline_not_mem_quote _

/-- What the name of a parameter is, is written in the file. -/
private theorem isInfix_of_mem_namedParameters {function : Tree} {p : Text × TypeRef}
    (h : p ∈ namedParameters s function) : p.1 <:+: s.file.source := by
  obtain ⟨declaration, -, h⟩ := List.mem_flatMap.1 h
  split at h
  · cases h
  · obtain ⟨name, listed, rfl⟩ := List.mem_map.1 h
    obtain ⟨node, -, rfl⟩ := List.mem_map.1 (List.mem_filter.1 listed).1
    exact Text.slice_isInfix _ _ _

/-- The statement that reports the end of a function. -/
def spanEnd (tool tags context : Text) : Text :=
  "defer " ++ spanReport tool tags context "EventEnd"

/-- The statements of a report use the context of the function, that of its request, or declare
one. -/
private theorem spanStatements_cases (d : Draft) (s : Scene) (site : Site) (tool tags : Text) :
    (ownsContext s site.node = true ∧ ∃ name, name <:+: s.file.source ∧
      ((d.spanStatements s site tool tags).1 =
          name ++ (" = " ++ (spanReport tool tags name "EventStart" ++
            Text.newline :: spanEnd tool tags name)) ∨
        (d.spanStatements s site tool tags).1 =
          name ++ (" = " ++ (name ++ (".WithContext(" ++
            (spanReport tool tags (name ++ ".Context()") "EventStart" ++ (")" ++
              Text.newline :: spanEnd tool tags (name ++ ".Context()")))))))) ∨
      (ownsContext s site.node = false ∧ (d.spanStatements s site tool tags).1 =
        spanContext ++ " := " ++
          spanReport tool tags ((d.bind s "context" "context").1 ++ ".Background()") "EventStart" ++
          Text.newline :: spanEnd tool tags spanContext) := by
  unfold spanStatements
  dsimp only
  -- A name that is found by its type is that of a parameter.
  have found : ∀ {type : TypeRef} {name : Text}, type = contextType ∨ type = requestType →
      (((namedParameters s site.node).find? (·.2 = type)).map Prod.fst) = some name →
      ownsContext s site.node = true ∧ name <:+: s.file.source := by
    intro type name known given
    obtain ⟨p, found, rfl⟩ := Option.map_eq_some_iff.1 given
    have listed := List.mem_of_find?_eq_some found
    have typed : p.2 = type := by simpa using List.find?_some found
    refine ⟨List.any_eq_true.2 ⟨p, listed, ?_⟩, isInfix_of_mem_namedParameters listed⟩
    simpa [typed] using known
  split
  · rename_i given
    obtain ⟨owns, written⟩ := found (.inl rfl) given
    refine .inl ⟨owns, _, written, .inl ?_⟩
    simp only [spanReport, spanEnd, List.append_assoc]
    rfl
  · rename_i given
    obtain ⟨owns, written⟩ := found (.inr rfl) given
    refine .inl ⟨owns, _, written, .inr ?_⟩
    simp only [spanReport, spanEnd, List.append_assoc]
    rfl
  · rename_i noContext noRequest
    rw [Option.map_eq_none_iff, List.find?_eq_none] at noContext noRequest
    refine .inr ⟨List.any_eq_false.2 fun p listed => ?_, ?_⟩
    · simpa using ⟨by simpa using noContext p listed, by simpa using noRequest p listed⟩
    · simp only [spanReport, spanEnd, List.append_assoc]
      rfl

section

variable (named : Text.newline ∉ tool) (tagged : Text.newline ∉ tags)

include named tagged

/-- The call that reports an event goes on with what its context goes on with. -/
private theorem laterDeclarations_spanReport {context : Text}
    (passed : ∀ z, StopsName z → laterDeclarations (context ++ z) = laterDeclarations z)
    {event : Text} (one_line : Text.newline ∉ event) (z : Text) :
    laterDeclarations (spanReport tool tags context event ++ z) = laterDeclarations z := by
  have comma : StopsName (", " ++ (tool ++ ("." ++ (event ++ (", " ++ (tags ++ (")" ++ z))))))) :=
    ⟨0x2C, _, rfl, by decide, by decide, by decide⟩
  simp only [spanReport, List.append_assoc]
  rw [laterDeclarations_append named, laterDeclarations_append (by decide), passed _ comma,
    laterDeclarations_append (by decide), laterDeclarations_append named,
    laterDeclarations_append (by decide), laterDeclarations_append one_line,
    laterDeclarations_append (by decide), laterDeclarations_append tagged,
    laterDeclarations_append (by decide)]

/-- The statement that reports the end declares nothing. -/
private theorem contextDeclarations_spanEnd {context : Text}
    (passed : ∀ z, StopsName z → laterDeclarations (context ++ z) = laterDeclarations z) :
    contextDeclarations (spanEnd tool tags context) = 0 := by
  have word : StopsName (spanEnd tool tags context) :=
    ⟨0x64, _, rfl, by decide, by decide, by decide⟩
  refine (contextDeclarations_append (u := []) (by decide) word).trans ?_
  rw [spanEnd, laterDeclarations_append (by decide), ← List.append_nil (spanReport ..),
    laterDeclarations_spanReport named tagged passed (by decide)]
  rfl

/-- The statements of one report declare the context once, unless the function has its own. -/
theorem contextDeclarations_spanStatements (unused : ¬ spanContext <:+: s.file.source)
    (called : Text.newline ∉ (d.bind s "context" "context").1) :
    contextDeclarations (d.spanStatements s site tool tags).1 =
      if ownsContext s site.node then 0 else 1 := by
  rcases d.spanStatements_cases s site tool tags with
    ⟨owns, name, written, statements⟩ | ⟨owns, statements⟩
  · -- With a context of its own, its name is used and none is declared.
    have free : ¬ spanContext <:+: name := fun held => unused (held.trans written)
    have passed : ∀ z, StopsName z → laterDeclarations (name ++ z) = laterDeclarations z :=
      fun z stops => laterDeclarations_append_of_free free stops
    have passedDot : ∀ z, StopsName z →
        laterDeclarations (name ++ ".Context()" ++ z) = laterDeclarations z := by
      intro z _
      have dot : StopsName (".Context()" ++ z) := ⟨0x2E, _, rfl, by decide, by decide, by decide⟩
      rw [List.append_assoc, passed _ dot, laterDeclarations_append (by decide)]
    rw [if_pos owns]
    rcases statements with eq | eq
    · rw [eq, contextDeclarations_assigned free,
        laterDeclarations_spanReport named tagged passed (by decide), laterDeclarations_newline,
        contextDeclarations_spanEnd named tagged passed]
    · have dot : ∀ z, StopsName (".WithContext(" ++ z) :=
        fun z => ⟨0x2E, _, rfl, by decide, by decide, by decide⟩
      rw [eq, contextDeclarations_assigned free, passed _ (dot _),
        laterDeclarations_append (by decide),
        laterDeclarations_spanReport named tagged passedDot (by decide),
        laterDeclarations_append (by decide), laterDeclarations_newline,
        contextDeclarations_spanEnd named tagged passedDot]
  · -- Without one, the first line declares it.
    rw [statements]
    generalize (d.bind s "context" "context").1 = context at called
    have declares : ∀ report : Text, declaresContext (spanContext ++ " := " ++ report) = true :=
      fun _ => Text.startsWith_iff.2 ⟨_, rfl⟩
    have unbroken : Text.newline ∉ spanContext ++ " := " ++
        spanReport tool tags (context ++ ".Background()") "EventStart" := by
      simp only [spanReport, List.mem_append, not_or]
      refine ⟨by decide, ?_⟩
      simp only [named, tagged, called]
      decide
    rw [contextDeclarations_line unbroken, declares, owns,
      contextDeclarations_spanEnd named tagged fun z _ => laterDeclarations_append (by decide) z]
    rfl

end

end Draft

/-! ## One task at a function -/

/-- The advice reports a span. -/
def Advice.reportsSpan : Advice → Bool
  | reportSpan _ => true
  | _ => false

namespace Weave

/-- How often the inserted texts declare the context. -/
def declaredContexts (log : List Entry) : Nat :=
  (log.map fun e => contextDeclarations e.edit.text).sum

/-- The entry is what an advice that reports a span puts into a function. -/
def Entry.reports (e : Entry) : Bool :=
  e.task.advice.reportsSpan

private theorem declaredContexts_append (log rest : List Entry) :
    declaredContexts (log ++ rest) = declaredContexts log + declaredContexts rest := by
  rw [declaredContexts, List.map_append, List.sum_append]
  rfl

variable {path text : Text} {s : Scene} {aspects : List Aspect} {importer : Importer}
  {lines : Bool} {site : Site} {body : Tree} {d d' : Draft} {changed : Bool} {a : Advice}

section

variable (function : site.node.kind.isFunction = true) (given : site.node.child? .body = some body)
  (fresh : s.wasInstrumented body = false)

include function given fresh

private theorem change_of_inBody {advice : Text} {change : Tree → Except AdviceFault Draft}
    (h : d.inBody s advice site.node change = .ok (changed, d')) : change body = .ok d' := by
  unfold Draft.inBody at h
  rw [function, given] at h
  dsimp only at h
  rw [fresh] at h
  cases done : change body with
  | error fault =>
    rw [done] at h
    cases h
  | ok between =>
    rw [done] at h
    cases h
    rfl

/-- At a function an advice inserts statements at the start of the body, or nothing. -/
private theorem edits_at_function (call : a.apply s site d = .ok (changed, d')) :
    (a.reportsSpan = false ∧ d'.buffer.edits = d.buffer.edits) ∨
      ∃ brace statements, body.childOf? (.symbol "\x7b") = some brace ∧
        d'.buffer.edits = d.buffer.edits ++ [s.prepending body brace statements] ∧
        (a.reportsSpan = true → ∃ tags : Dict Text,
          let bound := d.bind s toolPath toolAlias
          statements = (bound.2.spanStatements s site bound.1 (Draft.spanTags s site tags)).1) := by
  -- Advice that is for nodes of another kind fails here.
  have notKind : ∀ kind : Kind, kind.isFunction = false → site.node.kind ≠ kind := by
    rintro kind other rfl
    rw [function] at other
    cases other
  have wraps : ∀ template, d.wrapExpression s site template ≠ .ok (changed, d') := by
    intro template call
    unfold Draft.wrapExpression at call
    dsimp only at call
    split at call
    case h_1 kind | h_2 kind | h_3 kind => exact notKind _ rfl kind
    case h_4 => cases call
  cases a with
  | wrapCallArgument index template =>
    change d.wrapCallArgument s site index template = _ at call
    rw [Draft.wrapCallArgument, if_pos (notKind _ rfl)] at call
    cases call
  | wrapExpression template => exact absurd call (wraps template)
  | assignValue template =>
    change d.assignValue s site template = _ at call
    unfold Draft.assignValue at call
    split at call
    · exact absurd call (wraps template)
    · unfold Draft.giveValue at call
      dsimp only at call
      rw [if_pos (notKind _ rfl)] at call
      cases call
  | prependStatements template =>
    have done := change_of_inBody function given fresh call
    obtain ⟨statements, -, done⟩ := bind_eq_ok_iff.1 done
    obtain ⟨between, prepended, done⟩ := bind_eq_ok_iff.1 done
    cases done
    obtain ⟨brace, found, edits⟩ := Draft.prependToBody_eq_ok prepended
    have same := d.sameEdits_localize s template statements
    have used := between.sameEdits_useTemplate s template
    refine .inr ⟨brace, (d.localize s template statements).1, found, ?_, fun reports => ?_⟩
    · rw [used.buffer]
      exact edits.trans (congrArg (fun b : Buffer => b.edits ++ _) same.buffer)
    · cases reports
  | reportSpan tags =>
    have done := change_of_inBody function given fresh call
    obtain ⟨between, prepended, done⟩ := bind_eq_ok_iff.1 done
    cases done
    obtain ⟨brace, found, edits⟩ := Draft.prependToBody_eq_ok prepended
    have same := (d.sameEdits_bind s toolPath toolAlias).trans
      (Draft.sameEdits_spanStatements _ s site (d.bind s toolPath toolAlias).1
        (Draft.spanTags s site tags))
    refine .inr ⟨brace, _, found, ?_, fun _ => ⟨tags, rfl⟩⟩
    exact edits.trans (congrArg (fun b : Buffer => b.edits ++ _) same.buffer)
  | addBlankImport path =>
    cases call
    exact .inl ⟨rfl, rfl⟩
  | replaceCallTarget source target wanted =>
    change d.replaceCallTarget s site source target wanted = _ at call
    unfold Draft.replaceCallTarget at call
    dsimp only at call
    rw [if_pos (notKind _ rfl)] at call
    cases call
  | injectDeclarations template links =>
    change d.injectDeclarations s site template links = _ at call
    unfold Draft.injectDeclarations at call
    rw [if_pos (notKind _ rfl)] at call
    cases call

/-- What one task writes at a function are statements at the start of its body. A report declares
the context once among them, unless the function has its own. -/
theorem Writes.at_function {t : Task} {entries : List Entry} (here : t.site = site)
    (unused : ¬ spanContext <:+: s.file.source) (known : d.Asked (Text.newline ∉ ·))
    (call : t.advice.apply s t.site d = .ok (changed, d')) (writes : Writes s t d d' entries) :
    (∀ e ∈ entries, ∃ brace statements, body.childOf? (.symbol "\x7b") = some brace ∧
      e.edit = s.prepending body brace statements) ∧
    declaredContexts (entries.filter Entry.reports) =
      if t.advice.reportsSpan && ! Draft.ownsContext s site.node then 1 else 0 := by
  subst here
  have alike : ∀ e ∈ entries, e.reports = t.advice.reportsSpan := fun e he => by
    rw [Entry.reports, writes.records.task e he]
  rcases edits_at_function function given fresh call with
    ⟨other, edits⟩ | ⟨brace, statements, found, edits, reported⟩
  · rw [writes.edits, List.append_right_eq_self, List.map_eq_nil_iff] at edits
    rw [edits, other]
    exact ⟨nofun, rfl⟩
  · rw [writes.edits, List.append_cancel_left_eq] at edits
    obtain ⟨e, rfl, edit⟩ := List.map_eq_singleton_iff.1 edits
    refine ⟨List.forall_mem_singleton.2 ⟨brace, statements, found, edit⟩, ?_⟩
    cases reports : t.advice.reportsSpan with
    | false =>
      have silent : ¬ e.reports = true := by
        rw [alike e List.mem_cons_self, reports]
        exact Bool.false_ne_true
      rw [List.filter_cons_of_neg silent]
      rfl
    | true =>
      obtain ⟨tags, rfl⟩ := reported reports
      -- The names of packages break no line, so the report has the lines that it is made of.
      have tool : Text.newline ∉ (d.bind s toolPath toolAlias).1 :=
        Draft.newline_not_mem_bind known (by decide) toolPath
      have context : Text.newline ∉
          ((d.bind s toolPath toolAlias).2.bind s "context" "context").1 :=
        Draft.newline_not_mem_bind (known.bind (by decide) toolPath) (by decide) "context"
      rw [List.filter_cons_of_pos (by rw [alike e List.mem_cons_self, reports])]
      show contextDeclarations e.edit.text + 0 = _
      rw [edit, s.contextDeclarations_prepending, Nat.add_zero,
        Draft.contextDeclarations_spanStatements tool (Draft.newline_not_mem_spanTags s _ tags)
          unused context]
      cases Draft.ownsContext s t.site.node <;> rfl

/-- All that is written at a function are statements at the start of its body. The reports among
them declare the context as often as there are any, unless the function has its own. -/
theorem Logs.at_function {ts : List Task} {log : List Entry} (logged : Logs s d ts d' log)
    (here : ∀ t ∈ ts, t.site = site) (unused : ¬ spanContext <:+: s.file.source)
    (one_line : ∀ t ∈ ts, ∀ wanted ∈ t.advice.wantedNames, Text.newline ∉ wanted)
    (known : d.Asked (Text.newline ∉ ·)) :
    (∀ e ∈ log, ∃ brace statements, body.childOf? (.symbol "\x7b") = some brace ∧
      e.edit = s.prepending body brace statements) ∧
    declaredContexts (log.filter Entry.reports) =
      if Draft.ownsContext s site.node then 0 else ts.countP (·.advice.reportsSpan) := by
  -- The induction is on the tasks at the function.
  induction logged with
  | nil d => exact ⟨nofun, (ite_self _).symm⟩
  | @cons d between d' t ts changed entries log call writes _ ih =>
    obtain ⟨at_site, others⟩ := List.forall_mem_cons.1 here
    obtain ⟨first, later⟩ := List.forall_mem_cons.1 one_line
    obtain ⟨blocks, declared⟩ :=
      Writes.at_function function given fresh at_site unused known call writes
    obtain ⟨blocks', declared'⟩ :=
      ih others later (Advice.apply_asked known t.site (by decide) (by decide) first _ call)
    refine ⟨List.forall_mem_append.2 ⟨blocks, blocks'⟩, ?_⟩
    rw [List.filter_append, declaredContexts_append, declared, declared', List.countP_cons]
    cases Draft.ownsContext s site.node <;> cases t.advice.reportsSpan <;> simp [Nat.add_comm]

end

/-- Tasks keep names on one line. -/
theorem Logs.asked {P : Text → Prop} {ts : List Task} {log : List Entry}
    (logged : Logs s d ts d' log) (tool : P toolAlias) (context : P "context")
    (asked : ∀ t ∈ ts, ∀ wanted ∈ t.advice.wantedNames, P wanted) (known : d.Asked P) :
    d'.Asked P := by
  induction logged with
  | nil d => exact known
  | cons call _ _ ih =>
    obtain ⟨first, later⟩ := List.forall_mem_cons.1 asked
    exact ih later (Advice.apply_asked known _ tool context first _ call)

/-- The reports and the other entries of a log declare what the log does. -/
private theorem declaredContexts_eq (log : List Entry) : declaredContexts log =
    declaredContexts (log.filter Entry.reports) +
      declaredContexts (log.filter (! ·.reports)) := by
  induction log with
  | nil => rfl
  | cons e log ih =>
    have head : ∀ rest, declaredContexts (e :: rest) =
        contextDeclarations e.edit.text + declaredContexts rest := fun _ => rfl
    cases reports : e.reports with
    | true =>
      rw [List.filter_cons_of_pos reports, List.filter_cons_of_neg (by simp [reports]), head, head,
        ih, Nat.add_assoc]
    | false =>
      rw [List.filter_cons_of_neg (by simp [reports]), List.filter_cons_of_pos (by simp [reports]),
        head, head, ih]
      omega

/-! ## The woven file -/

/-- The tasks at a place that is not passed over are carried out in a row. -/
private theorem exists_tasksAt (aspects : List Aspect) (listed : site ∈ s.file.tree.sites)
    (visited : isPassedOver s.file site = false) :
    ∃ front back, tasks s aspects = front ++ (tasksAt s aspects site ++ back) := by
  have upward : site ∈ s.file.tree.sitesUpward :=
    (Site.postorderAt_perm s.file.tree []).mem_iff.2 listed
  have kept : site ∈ s.file.tree.sitesUpward.filter (! isPassedOver s.file ·) :=
    List.mem_filter.2 ⟨upward, by rw [visited]; rfl⟩
  obtain ⟨before, behind, split⟩ := List.append_of_mem kept
  refine ⟨before.flatMap (tasksAt s aspects), behind.flatMap (tasksAt s aspects), ?_⟩
  rw [tasks, split, List.flatMap_append, List.flatMap_cons]

private theorem site_of_mem_tasksAt {t : Task} (h : t ∈ tasksAt s aspects site) :
    t.site = site := by
  obtain ⟨aspect, -, here⟩ := List.mem_flatMap.1 h
  obtain ⟨entry, -, rfl⟩ := List.mem_map.1 here
  rfl

/-- In a run over a file without markers, the tasks at a function write statements at the start of
its body, and the reports among them declare the context as often as there are any. -/
theorem Logs.reported {front back : List Task} {first mine : List Entry}
    (parsed : SourceFile.parse path text = .ok s.file) (clean : s.file.decorations.markers = [])
    (unused : ¬ spanContext <:+: s.file.source)
    (one_line : ∀ aspect ∈ aspects, ∀ a ∈ aspect.advice, ∀ wanted ∈ a.wantedNames,
      Text.newline ∉ wanted)
    (function : site.node.kind.isFunction = true) (given : site.node.child? .body = some body)
    (split : tasks s aspects = front ++ (tasksAt s aspects site ++ back))
    (logged : Logs s (.ofSource s.file.source) front d first)
    (middle : Logs s d (tasksAt s aspects site) d' mine) :
    (∀ e ∈ mine, ∃ brace statements, body.childOf? (.symbol "\x7b") = some brace ∧
      e.edit = s.prepending body brace statements) ∧
    declaredContexts (mine.filter Entry.reports) =
      if Draft.ownsContext s site.node then 0
      else (tasksAt s aspects site).countP (·.advice.reportsSpan) := by
  have asked : ∀ t ∈ tasks s aspects, ∀ wanted ∈ t.advice.wantedNames, Text.newline ∉ wanted := by
    intro t ht
    obtain ⟨aspect, known, here⟩ := advice_of_mem_tasks ht
    exact one_line aspect known t.advice here
  rw [split, List.forall_mem_append, List.forall_mem_append] at asked
  -- Without markers the body counts as not woven yet.
  have fresh : s.wasInstrumented body = false := by
    unfold Scene.wasInstrumented
    cases body.significant.head? with
    | none => rfl
    | some statement => exact SourceFile.hasLeading_eq_false parsed clean statement _
  have named := logged.asked (by decide) (by decide) asked.1 (Draft.asked_ofSource _)
  exact Logs.at_function function given fresh middle (fun _ => site_of_mem_tasksAt) unused
    asked.2.1 named

/-- Statements at the start of a function, in a file without markers that does not have the name of
the context, stand in the woven file one block after the other as the advices at the function come.
The reports among them declare the context as often as there are any, unless the function has a
context of its own. So where no other statements declare it, it is declared once at most iff the
function has its own or is reported once at most. -/
theorem contextDeclared_once_iff {path text : Text} {before after : ImportState} {woven : WovenFile}
    (parsed : SourceFile.parse path text = .ok s.file) (clean : s.file.decorations.markers = [])
    (unused : ¬ spanContext <:+: s.file.source)
    (one_line : ∀ aspect ∈ aspects, ∀ a ∈ aspect.advice, ∀ wanted ∈ a.wantedNames,
      Text.newline ∉ wanted)
    (run : (file s aspects importer lines).Yields before woven after)
    (listed : site ∈ s.file.tree.sites) (function : site.node.kind.isFunction = true)
    (given : site.node.child? .body = some body) :
    ∃ front back d first d' mine last rest extra,
      tasks s aspects = front ++ (tasksAt s aspects site ++ back) ∧
      Logs s (.ofSource s.file.source) front d first ∧
      Logs s d (tasksAt s aspects site) d' mine ∧
      Logs s d' back last rest ∧ Settles importer s.file last extra ∧
      let owns := Draft.ownsContext s site.node
      let reports := (tasksAt s aspects site).countP (·.advice.reportsSpan)
      let others := declaredContexts (mine.filter (! ·.reports))
      let b := shown s.file lines
        ⟨s.file.source, (first ++ (mine ++ rest)).map Entry.edit ++ extra⟩
      declaredContexts mine = (if owns then 0 else reports) + others ∧
      (others = 0 → (declaredContexts mine ≤ 1 ↔ owns = true ∨ reports ≤ 1)) ∧
      ∀ k e, mine[k]? = some e →
        (∃ brace statements, body.childOf? (.symbol "\x7b") = some brace ∧
          e.edit = s.prepending body brace statements ∧
          contextDeclarations e.edit.text = contextDeclarations statements) ∧
        ∃ out r directives, woven.text = some out ∧ b.render = .ok r ∧
          out = atMargin (Positions.insertLines 0 directives r.text) ∧
          (lines = false → directives = [] ∧ (indented r.text = [] → out = r.text)) ∧
          r.text = b.front (first.length + k) e.edit ++ e.edit.text ++
            b.back (first.length + k) e.edit := by
  obtain ⟨last, log, extra, logged, settles, shows⟩ := exists_log parsed run
  -- The tasks at the function stand in a row, between those at other places.
  obtain ⟨front, back, split⟩ := exists_tasksAt aspects listed
    (isPassedOver_eq_false parsed clean function)
  rw [split] at logged
  obtain ⟨d, first, _, earlier, behind, rfl⟩ := logged.exists_append
  obtain ⟨d', mine, rest, middle, later, rfl⟩ := behind.exists_append
  -- Among them every report declares the context once, unless the function owns one.
  obtain ⟨blocks, declared⟩ :=
    Logs.reported parsed clean unused one_line function given split earlier middle
  have total := declaredContexts_eq mine
  rw [declared] at total
  refine ⟨front, back, d, first, d', mine, last, rest, extra, split, earlier, middle, later,
    settles, total, fun silent => ?_, fun k e found => ⟨?_, ?_⟩⟩
  · rw [total, silent, Nat.add_zero]
    cases Draft.ownsContext s site.node <;> simp
  · obtain ⟨brace, statements, opened, edit⟩ := blocks e (List.mem_of_getElem? found)
    exact ⟨brace, statements, opened, edit, edit ▸ s.contextDeclarations_prepending ..⟩
  · -- An edit of theirs is rendered in its turn, behind those of the tasks before.
    refine shows (first.length + k) e ?_
    rw [List.getElem?_append_right (Nat.le_add_right _ _), Nat.add_sub_cancel_left,
      List.getElem?_append_left (List.getElem?_eq_some_iff.1 found).1, found]

/-- An empty function. -/
def emptyFunction : Text := "package p\n\nfunc f() \x7b\n\x7d\n"

/-- Aspects that report a span of the function, one for every name. -/
def reportingAspects (names : List Text) : List Aspect :=
  names.map fun name => ⟨name, false, .declarationOf "main" "f", [.reportSpan .empty]⟩

private theorem reportsSpan_of_mem_tasks {names : List Text} {t : Task}
    (h : t ∈ tasks s (reportingAspects names)) : t.advice = .reportSpan .empty := by
  obtain ⟨aspect, listed, advice⟩ := advice_of_mem_tasks h
  obtain ⟨name, -, rfl⟩ := List.mem_map.1 listed
  exact List.mem_singleton.1 advice

/-- Where a test succeeds, the function is reported as often as there are aspects. -/
private theorem exists_reporting (names : List Text)
    (passed : ((SourceFile.parse "p.go" emptyFunction).toOption.bind fun file =>
      ((Check.package "main" none [file] ⟨noArchives, false⟩).run.run .fresh).1.toOption.map
        fun types =>
          let s := SourceOptions.standard.scene file types
          let aspects := reportingAspects names
          ((Weave.file s aspects ⟨noArchives, false⟩ false).run.run .fresh).1.toOption.isSome &&
          file.decorations.markers.isEmpty && ! Text.contains file.source spanContext &&
          (s.file.tree.sites.find? (·.node.kind.isFunction)).any fun site =>
            (site.node.child? .body).isSome && ! Draft.ownsContext s site.node &&
            (tasksAt s aspects site).countP (·.advice.reportsSpan) = names.length) = some true) :
    ∃ file types woven after site body,
      let s := SourceOptions.standard.scene file types
      let aspects := reportingAspects names
      SourceFile.parse "p.go" emptyFunction = .ok file ∧ file.decorations.markers = [] ∧
      ¬ spanContext <:+: file.source ∧
      (Weave.file s aspects ⟨noArchives, false⟩ false).Yields .fresh woven after ∧
      site ∈ s.file.tree.sites ∧ site.node.kind.isFunction = true ∧
      site.node.child? .body = some body ∧ Draft.ownsContext s site.node = false ∧
      (tasksAt s aspects site).countP (·.advice.reportsSpan) = names.length := by
  obtain ⟨file, types, -, parsed, -, passed⟩ := Check.exists_of_test passed
  simp only [Bool.and_eq_true, Bool.not_eq_true', decide_eq_true_eq, List.isEmpty_iff,
    Option.any_eq_true] at passed
  obtain ⟨⟨⟨ran, clean⟩, unused⟩, site, found, ⟨given, owns⟩, reports⟩ := passed
  obtain ⟨woven, ran⟩ := Option.isSome_iff_exists.1 ran
  obtain ⟨after, run⟩ := Importing.exists_yields_iff.2 (toOption_eq_some_iff.1 ran)
  obtain ⟨body, given⟩ := Option.isSome_iff_exists.1 given
  rw [← Bool.not_eq_true, Text.contains_iff_isInfix] at unused
  have function : site.node.kind.isFunction = true := by simpa using List.find?_some found
  exact ⟨file, types, woven, after, site, body, parsed, clean, unused, run,
    List.mem_of_find?_eq_some found, function, given, owns, reports⟩

private theorem oneLine_reporting (names : List Text) : ∀ aspect ∈ reportingAspects names,
    ∀ a ∈ aspect.advice, ∀ wanted ∈ a.wantedNames, Text.newline ∉ wanted := by
  intro aspect listed a ha
  obtain ⟨name, -, rfl⟩ := List.mem_map.1 listed
  cases List.mem_singleton.1 ha
  exact nofun

/-- A function that is reported once declares the context once. -/
theorem contextDeclared_once_reported :
    ∃ file types woven after site d d' mine,
      let s := SourceOptions.standard.scene file types
      let aspects := reportingAspects ["first"]
      SourceFile.parse "p.go" emptyFunction = .ok file ∧
      (Weave.file s aspects ⟨noArchives, false⟩ false).Yields .fresh woven after ∧
      site ∈ s.file.tree.sites ∧ site.node.kind.isFunction = true ∧
      Logs s d (tasksAt s aspects site) d' mine ∧ declaredContexts mine = 1 := by
  obtain ⟨file, types, woven, after, site, body, parsed, clean, unused, run, listed, function,
    given, owns, reports⟩ := exists_reporting ["first"] (by decide +kernel)
  obtain ⟨front, back, d, first, d', mine, last, rest, extra, split, -, middle, -, -, total, -⟩ :=
    contextDeclared_once_iff parsed clean unused (oneLine_reporting _) run listed function given
  -- All tasks at the function are reports.
  have all : ∀ e ∈ mine, (! e.reports) ≠ true := by
    refine middle.forall_mem fun t ht d entries records e he => ?_
    have task := List.mem_append_right front (List.mem_append_left back ht)
    rw [← split] at task
    rw [Entry.reports, records.task e he, reportsSpan_of_mem_tasks task]
    exact nofun
  rw [List.filter_eq_nil_iff.2 all, owns, reports] at total
  exact ⟨file, types, woven, after, site, d, d', mine, parsed, run, listed, function, middle, total⟩

/-- A function that is reported twice in one run declares the context twice. -/
theorem not_contextDeclared_once :
    ¬ ∀ (path text : Text) (s : Scene) (aspects : List Aspect) (importer : Importer)
      (before after : ImportState) (woven : WovenFile) (site : Site) (front back : List Task)
      (d d' : Draft) (first mine : List Entry),
      SourceFile.parse path text = .ok s.file → s.file.decorations.markers = [] →
      ¬ spanContext <:+: s.file.source →
      (file s aspects importer false).Yields before woven after →
      site ∈ s.file.tree.sites → site.node.kind.isFunction = true →
      tasks s aspects = front ++ (tasksAt s aspects site ++ back) →
      Logs s (.ofSource s.file.source) front d first →
      Logs s d (tasksAt s aspects site) d' mine → declaredContexts mine ≤ 1 := by
  intro once
  obtain ⟨file, types, woven, after, site, body, parsed, clean, unused, run, listed, function,
    given, owns, reports⟩ := exists_reporting ["first", "second"] (by decide +kernel)
  obtain ⟨last, log, extra, logged, -⟩ := exists_log parsed run
  -- The run is split at the two reports of the function.
  obtain ⟨front, back, split⟩ :=
    exists_tasksAt _ listed (isPassedOver_eq_false parsed clean function)
  rw [split] at logged
  obtain ⟨d, first, _, earlier, behind, rfl⟩ := logged.exists_append
  obtain ⟨d', mine, rest, middle, -, rfl⟩ := behind.exists_append
  have few := once _ _ _ _ _ _ _ _ _ _ _ _ _ _ _ parsed clean unused run listed function split
    earlier middle
  obtain ⟨-, declared⟩ := Logs.reported parsed clean unused (oneLine_reporting _) function given
    split earlier middle
  rw [declaredContexts_eq, declared, owns, reports] at few
  exact absurd (Nat.le_trans (Nat.le_add_right 2 _) few) (by decide)

end Weave

end Interlace
