import Interlace.Proofs.MarkedPlaces
import Interlace.Proofs.Recognition

/-!
# Places that keep their marks

Whether weaving finds something to do in a file is a matter of where comments stand: at every place
where advice applies, the statement has to stand between a start and an end marker, or the body has
to start behind a start marker.

## Key results

- `Weave.KeepsMarks`: every place where advice applies keeps the marks of an earlier run
- `Weave.isSettled_iff_keepsMarks`: then there is nothing to do, and only then
- `recognized_iff_keepsMarks`: the same for a text
-/

namespace Interlace

open Syntax

namespace SourceFile

/-- The statement stands between wrap markers. -/
def IsWrapped (file : SourceFile) (statement : Tree) : Prop :=
  file.MarkedBefore .startWrap statement.start ∧ file.MarkedBehind .endWrap statement.stop

/-- The first node in the body stands behind the start of a block. -/
def StartsBlock (file : SourceFile) (body : Tree) : Prop :=
  ∃ first, body.significant.head? = some first ∧ file.MarkedBefore .startInstrument first.start

end SourceFile

/-- The advice fits the node of the place. -/
def Advice.fits (s : Scene) (node : Tree) : Advice → Bool
  | wrapCallArgument .. => node.kind = .callExpression
  | wrapExpression _ => node.ownValue?.isSome
  | assignValue template => if template.hasHole then node.ownValue?.isSome else node.kind = .varSpec
  | prependStatements _ | reportSpan _ => node.kind.isFunction
  | replaceCallTarget source .. => s.isQualifiedCall source node
  | addBlankImport _ | injectDeclarations .. => false

/-- The advice changes the body of a function, and no statement around its place. -/
def Advice.isForBody : Advice → Bool
  | prependStatements _ | reportSpan _ => true
  | _ => false

/-- The marks that the advice puts at a place are there. -/
def Advice.MarksStand (s : Scene) (site : Site) (a : Advice) : Prop :=
  a.fits s site.node ∧
    if a.isForBody then ∀ body, site.node.child? .body = some body → s.file.StartsBlock body
    else ∃ statement, site.enclosingStatement? = some statement ∧ s.file.IsWrapped statement

namespace Weave

variable {s : Scene} {aspects : List Aspect} {path text : Text} {file : SourceFile} {site : Site}

/-- Weaving looks at the place: its node is named, no marker to ignore stands before a node at or
above it, the file apart, and its statement is not marked as instrumented by hand. -/
structure Visits (file : SourceFile) (site : Site) : Prop where
  named : site.node.isNamed
  heeded : ∀ t ∈ site.node :: site.ancestors, t.kind ≠ .sourceFile →
    ¬ file.MarkedBefore .ignore t.start
  unmarked : ∀ statement, site.enclosingStatement? = some statement →
    ¬ file.MarkedBefore .instrumented statement.start

/-- Every advice that applies at a place that weaving looks at finds its marks there. -/
def KeepsMarks (s : Scene) (aspects : List Aspect) : Prop :=
  ∀ site ∈ s.file.tree.sites, Visits s.file site → ∀ aspect ∈ aspects,
    aspect.joinPoint.holdsAt s site → ∀ a ∈ aspect.advice, a.MarksStand s site

section

variable (parsed : SourceFile.parse path text = .ok s.file)

include parsed

theorem wasWrapped_iff (statement : Tree) :
    s.wasWrapped statement ↔ s.file.IsWrapped statement := by
  rw [Scene.wasWrapped, Bool.and_eq_true, SourceFile.hasLeading_iff parsed,
    SourceFile.hasTrailing_iff parsed]
  rfl

theorem wasInstrumented_iff (body : Tree) : s.wasInstrumented body ↔ s.file.StartsBlock body := by
  rw [Scene.wasInstrumented, Option.any_eq_true]
  exact exists_congr fun first => and_congr_right fun _ => SourceFile.hasLeading_iff parsed

theorem isMarked_iff : s.isMarked site ↔
    ∃ statement, site.enclosingStatement? = some statement ∧ s.file.IsWrapped statement := by
  rw [Scene.isMarked, Option.any_eq_true]
  exact exists_congr fun statement => and_congr_right fun _ => wasWrapped_iff parsed statement

theorem isPassedOver_iff : isPassedOver s.file site = false ↔ Visits s.file site := by
  -- The markers that the walk finds on nodes are those that stand before them.
  have ignored (t : Tree) : isIgnored s.file t = false ↔
      (t.kind ≠ .sourceFile → ¬ s.file.MarkedBefore .ignore t.start) := by
    rw [← Bool.not_eq_true, isIgnored, Bool.and_eq_true, SourceFile.hasLeading_iff parsed,
      decide_eq_true_iff, not_and]
  have marked : isInstrumented s.file site = false ↔
      ∀ statement, site.enclosingStatement? = some statement →
        ¬ s.file.MarkedBefore .instrumented statement.start := by
    rw [← Bool.not_eq_true, isInstrumented, Option.any_eq_true, not_exists]
    refine forall_congr' fun statement => ?_
    rw [not_and, SourceFile.hasLeading_iff parsed]
  rw [isPassedOver, Bool.or_eq_false_iff, Bool.or_eq_false_iff, List.any_eq_false, marked]
  simp only [Bool.not_eq_true, ignored, Bool.not_eq_false']
  exact ⟨fun h => ⟨h.1.2, h.1.1, h.2⟩, fun h => ⟨⟨h.heeded, h.named⟩, h.unmarked⟩⟩

/-- Advice that marks what it changes is settled iff its marks stand. -/
theorem advice_isSettled_iff {a : Advice} (marks : a.marks) :
    a.isSettled s site ↔ a.MarksStand s site := by
  have reported : s.isReported site.node ↔ site.node.kind.isFunction ∧
      ∀ body, site.node.child? .body = some body → s.file.StartsBlock body := by
    rw [Scene.isReported, Bool.and_eq_true, Option.all_eq_true]
    exact and_congr_right fun _ => forall₂_congr fun body _ => wasInstrumented_iff parsed body
  cases a with
  | addBlankImport _ | injectDeclarations _ _ => cases marks
  | prependStatements _ | reportSpan _ => exact reported
  | wrapCallArgument _ _ | wrapExpression _ | assignValue _ | replaceCallTarget _ _ _ =>
    rw [Advice.isSettled, Bool.and_eq_true, isMarked_iff parsed]
    rfl

/-- Nothing is left to do in a file iff every place where advice applies keeps its marks. -/
theorem isSettled_iff_keepsMarks (marks : allMark aspects) :
    isSettled s aspects ↔ KeepsMarks s aspects := by
  rw [isSettled, List.all_eq_true]
  refine forall₂_congr fun site _ => ?_
  rw [Bool.or_eq_true, ← Bool.not_eq_false, ← imp_iff_not_or, isPassedOver_iff parsed, isSettledAt,
    List.all_eq_true]
  refine forall_congr' fun _ => forall₂_congr fun aspect ha => ?_
  rw [Bool.or_eq_true, Bool.not_eq_true', ← Bool.not_eq_true, ← imp_iff_not_or, List.all_eq_true]
  refine forall_congr' fun _ => forall₂_congr fun a listed => ?_
  exact advice_isSettled_iff parsed
    (List.all_eq_true.1 (List.all_eq_true.1 marks aspect ha) a listed)

end

end Weave

/-- The text parses, and in it every place where advice applies keeps its marks. -/
def KeepsMarks (path text : Text) (aspects : List Aspect) (options : SourceOptions) : Prop :=
  ∃ file types after, SourceFile.parse path text = .ok file ∧
    (Check.package options.importPath none [file] ⟨noArchives, false⟩).Yields .fresh types after ∧
    Weave.KeepsMarks (options.scene file types) aspects

/-- A text is recognized as woven iff every place where advice applies keeps its marks. -/
theorem recognized_iff_keepsMarks {path text : Text} {aspects : List Aspect}
    {options : SourceOptions} (marks : Weave.allMark aspects) :
    Recognized path text aspects options ↔ KeepsMarks path text aspects options := by
  refine exists_congr fun file => exists_congr fun types => exists_congr fun after => ?_
  refine and_congr_right fun parsed => and_congr_right fun _ => ?_
  exact Weave.isSettled_iff_keepsMarks parsed marks

end Interlace
