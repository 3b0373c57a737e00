import Interlace.Proofs.Folds
import Interlace.Weave.Applying

/-!
# What advice adds to a draft

Advice that marks what it changes has two outcomes. At a place that carries the marks of an earlier
run it gives the draft back as it is; anywhere else it fails or adds edits.

## Key results

- `Advice.isSettled`: an earlier run was here
- `Advice.apply_outcome`: the two outcomes of advice that marks what it changes
-/

namespace Interlace

open Syntax

/-! ## Settled places -/

namespace Scene

/-- The statement around the place stands between wrap markers. -/
def isMarked (s : Scene) (site : Site) : Bool :=
  site.enclosingStatement?.any s.wasWrapped

/-- The function has no body, or its body starts with an instrument block. -/
def isReported (s : Scene) (node : Tree) : Bool :=
  node.kind.isFunction && (node.child? .body).all s.wasInstrumented

/-- The node is a call through a package. -/
def isQualifiedCall (s : Scene) (path : Text) (node : Tree) : Bool :=
  node.kind = .callExpression &&
    ((node.child? .function).filter (·.kind = .selectorExpression)).any fun function =>
      (function.child? .operand).any (fun operand => s.objectAt? operand = some (.package path))
        && (function.child? .field).isSome

end Scene

/-- The value of a keyed field or of a declaration with one value. -/
def Syntax.Tree.ownValue? (node : Tree) : Option Tree :=
  match node.kind with
  | .keyedElement => node.significant[1]?.map Tree.literalInner
  | .varSpec | .shortVarDeclaration => node.singleValue?
  | _ => none

namespace Advice

/-- The advice puts markers around what it changes. -/
def marks : Advice → Bool
  | addBlankImport _ | injectDeclarations .. => false
  | _ => true

/-- The advice fits the node, and the node carries the markers of an earlier run. -/
def isSettled (s : Scene) (site : Site) : Advice → Bool
  | wrapCallArgument .. => site.node.kind = .callExpression && s.isMarked site
  | wrapExpression _ => site.node.ownValue?.isSome && s.isMarked site
  | assignValue template =>
    (if template.hasHole then site.node.ownValue?.isSome else site.node.kind = .varSpec)
      && s.isMarked site
  | prependStatements _ | reportSpan _ => s.isReported site.node
  | replaceCallTarget source .. => s.isQualifiedCall source site.node && s.isMarked site
  | addBlankImport _ | injectDeclarations .. => false

end Advice

/-! ## Edits -/

namespace Draft

/-- The number of edits. -/
def size (d : Draft) : Nat :=
  d.buffer.edits.length

variable {d d' : Draft} {s : Scene} {site : Site}

@[simp] theorem size_insert (d : Draft) (offset : Nat) (text : Text) (bias : Bias) :
    (d.insert offset text bias).size = d.size + 1 := by
  simp [size, insert, Buffer.insert, Buffer.push]

@[simp] theorem size_addImport (d : Draft) (path wanted : Text) :
    (d.addImport path wanted).size = d.size := rfl

@[simp] theorem size_needVersion (d : Draft) (version : Option Version) :
    (d.needVersion version).size = d.size := by
  cases version <;> rfl

@[simp] theorem size_bind (d : Draft) (s : Scene) (path wanted : Text) :
    (d.bind s path wanted).2.size = d.size := by
  unfold bind
  split
  · rfl
  · split <;> rfl

@[simp] theorem size_localize (d : Draft) (s : Scene) (t : Template) (text : Text) :
    (d.localize s t text).2.size = d.size := by
  refine foldl_keeps (K := fun state : Text × Draft => state.2.size = d.size)
    (fun state entry _ same => ?_) rfl
  exact (size_bind state.2 s entry.2 entry.1).trans same

@[simp] theorem size_useTemplate (d : Draft) (s : Scene) (t : Template) :
    (d.useTemplate s t).size = d.size := by
  rw [useTemplate, size_needVersion]
  refine foldl_keeps (K := fun draft : Draft => draft.size = d.size)
    (fun draft entry _ same => ?_) rfl
  exact (size_bind draft s entry.2 entry.1).trans same

private theorem size_le_wrapStatement (d : Draft) (s : Scene) (statement : Tree) :
    d.size ≤ (d.wrapStatement s statement).size := by
  unfold wrapStatement
  split
  · exact Nat.le_refl _
  · dsimp only
    -- On whichever line the two markers go, each is one insertion.
    split <;> split <;> simp only [size_insert] <;> simp only [size] <;> omega

/-- Wrapping a node takes two insertions. -/
private theorem size_wrapNode {target : Tree} {t : Template}
    (h : d.wrapNode s site target t = .ok d') : d'.size = d.size + 2 := by
  unfold wrapNode at h
  split at h
  · cases h
  · obtain ⟨rendered, -, h⟩ := bind_eq_ok_iff.1 h
    split at h
    · cases h
    · rename_i before after _
      dsimp only at h
      -- Only a text with one hole is accepted: what follows the first holds no other.
      by_cases many : Text.contains after holeMark
      · rw [if_pos many] at h
        cases h
      · rw [if_neg many] at h
        cases h
        simp

private theorem size_prependToBody {body : Tree} {statements : Text}
    (h : d.prependToBody s body statements = .ok d') : d'.size = d.size + 1 := by
  unfold prependToBody at h
  split at h
  · cases h
  · dsimp only at h
    split at h <;> cases h <;> simp

private theorem size_spanStatements (d : Draft) (s : Scene) (site : Site) (tool tags : Text) :
    (d.spanStatements s site tool tags).2.size = d.size := by
  unfold spanStatements
  dsimp only
  split
  · rfl
  · rfl
  · rw [size_addImport, size_bind]

/-! ## Outcomes -/

/-- An application gives the draft back at a settled place, and elsewhere it fails or adds edits. -/
structure Outcome (settled : Bool) (d : Draft) (result : Applied) : Prop where
  kept : settled = true → result = .ok (false, d)
  added : settled = false → ∀ changed d', result = .ok (changed, d') → d.size < d'.size

private theorem outcome_error {fault : AdviceFault} : Outcome false d (.error fault) :=
  ⟨nofun, nofun⟩

/-- Statements with markers are left alone. -/
private theorem inStatement_outcome {change : Draft → Except AdviceFault Draft}
    (grows : ∀ d', change d = .ok d' → d.size < d'.size) :
    Outcome (s.isMarked site) d (d.inStatement s site change) := by
  unfold inStatement Scene.statement Scene.isMarked
  cases site.enclosingStatement? with
  | none => exact outcome_error
  | some statement =>
    rw [Option.any_some]
    cases marked : s.wasWrapped statement with
    | true =>
      -- The change is never run, so it need not succeed.
      refine ⟨fun _ => bind_eq_ok_iff.2 ⟨statement, rfl, ?_⟩, nofun⟩
      rw [if_pos marked]
      rfl
    | false =>
      refine ⟨nofun, fun _ changed d' h => ?_⟩
      obtain ⟨_, found, h⟩ := bind_eq_ok_iff.1 h
      cases found
      simp only [marked, Bool.false_eq_true, ↓reduceIte] at h
      obtain ⟨between, done, h⟩ := bind_eq_ok_iff.1 h
      cases h
      -- The change adds an edit, and the markers after it take none away.
      exact Nat.lt_of_lt_of_le (grows between done) (size_le_wrapStatement between s statement)

/-- Bodies with an instrument block are left alone. -/
private theorem inBody_outcome {advice : Text} {node : Tree}
    {change : Tree → Except AdviceFault Draft}
    (grows : ∀ body d', change body = .ok d' → d.size < d'.size) :
    Outcome (s.isReported node) d (d.inBody s advice node change) := by
  unfold inBody Scene.isReported
  cases node.kind.isFunction with
  | false => exact outcome_error
  | true =>
    cases node.child? .body with
    -- A declaration without a body counts as settled.
    | none => exact ⟨fun _ => rfl, nofun⟩
    | some body =>
      rw [Option.all_some]
      cases marked : s.wasInstrumented body with
      | true => exact ⟨fun _ => by simp [marked], nofun⟩
      | false =>
        refine ⟨nofun, fun _ changed d' h => ?_⟩
        simp only [Bool.not_true, Bool.false_eq_true, ↓reduceIte, marked] at h
        cases done : change body with
        | error fault =>
          rw [done] at h
          cases h
        | ok between =>
          rw [done] at h
          cases h
          exact grows body _ done

end Draft

/-! ## Advice -/

namespace Advice

open Draft

variable {s : Scene} {site : Site} {d : Draft}

private theorem wrapCallArgument_outcome (index : Nat) (t : Template) :
    Outcome ((wrapCallArgument index t).isSettled s site) d
      (d.wrapCallArgument s site index t) := by
  unfold Draft.wrapCallArgument isSettled
  by_cases call : site.node.kind = .callExpression
  · simp only [call, ne_eq, not_true_eq_false, ↓reduceIte, decide_true, Bool.true_and]
    refine inStatement_outcome fun d' h => ?_
    split at h
    · cases h
    · obtain ⟨between, wrapped, h⟩ := bind_eq_ok_iff.1 h
      cases h
      simp [size_wrapNode wrapped]
  · simp only [call, ne_eq, not_false_eq_true, ↓reduceIte, decide_false, Bool.false_and]
    exact outcome_error

/-- A value that is there is wrapped in its statement. -/
private theorem wrapValue_outcome (t : Template) (fault : AdviceFault) (value : Option Tree) :
    Outcome (value.isSome && s.isMarked site) d
      (match value with
        | none => throw fault
        | some target =>
          d.inStatement s site fun d =>
            return (← d.wrapNode s site target t).useTemplate s t) := by
  cases value with
  | none => exact outcome_error
  | some target =>
    refine inStatement_outcome fun d' h => ?_
    obtain ⟨between, wrapped, h⟩ := bind_eq_ok_iff.1 h
    cases h
    simp [size_wrapNode wrapped]

private theorem wrapExpression_outcome (t : Template) :
    Outcome (site.node.ownValue?.isSome && s.isMarked site) d (d.wrapExpression s site t) := by
  unfold Draft.wrapExpression Tree.ownValue?
  dsimp only
  -- Both read the value off the same three kinds of nodes; at any other node the advice fails.
  cases site.node.kind
  case keyedElement =>
    exact wrapValue_outcome t _ (site.node.significant[1]?.map Tree.literalInner)
  case varSpec | shortVarDeclaration => exact wrapValue_outcome t _ site.node.singleValue?
  all_goals exact outcome_error

private theorem giveValue_outcome (t : Template) :
    Outcome (decide (site.node.kind = .varSpec) && s.isMarked site) d
      (d.giveValue s site t) := by
  unfold Draft.giveValue
  by_cases spec : site.node.kind = .varSpec
  · simp only [spec, ne_eq, not_true_eq_false, ↓reduceIte, decide_true, Bool.true_and]
    refine inStatement_outcome fun d' h => ?_
    split at h
    · cases h
    · obtain ⟨value, -, h⟩ := bind_eq_ok_iff.1 h
      cases h
      simp
  · simp only [spec, ne_eq, not_false_eq_true, ↓reduceIte, decide_false, Bool.false_and]
    exact outcome_error

private theorem replaceCallTarget_outcome (source target wanted : Text) :
    Outcome ((replaceCallTarget source target wanted).isSettled s site) d
      (d.replaceCallTarget s site source target wanted) := by
  unfold Draft.replaceCallTarget isSettled Scene.isQualifiedCall
  dsimp only
  by_cases call : site.node.kind = .callExpression
  · simp only [call, ne_eq, not_true_eq_false, ↓reduceIte, decide_true, Bool.true_and]
    cases (site.node.child? .function).filter (·.kind = .selectorExpression) with
    | none => exact outcome_error
    | some function =>
      dsimp only [Option.any_some]
      cases function.child? .operand with
      | none => exact outcome_error
      | some operand =>
        dsimp only [Option.any_some]
        cases function.child? .field with
        | none =>
          rw [Option.isSome_none, Bool.and_false, Bool.false_and]
          exact outcome_error
        | some field =>
          by_cases object : s.objectAt? operand = some (.package source)
          · simp only [object, not_true_eq_false, ↓reduceIte, decide_true, Option.isSome_some,
              Bool.and_self, Bool.true_and]
            refine inStatement_outcome fun d' h => ?_
            cases h
            -- Naming the new package adds no edit; replacing the operand adds one.
            have bound := size_bind d s target wanted
            unfold Draft.size at bound ⊢
            simp [Draft.addImport, Buffer.replace, Buffer.push, bound]
          · simp only [object, not_false_eq_true, ↓reduceIte, decide_false, Bool.false_and]
            exact outcome_error
  · simp only [call, ne_eq, not_false_eq_true, ↓reduceIte, decide_false, Bool.false_and]
    exact outcome_error

private theorem prependStatements_outcome (t : Template) :
    Outcome (s.isReported site.node) d (d.prependStatements s site t) := by
  refine inBody_outcome fun body d' h => ?_
  obtain ⟨statements, -, h⟩ := bind_eq_ok_iff.1 h
  -- Of the steps that follow, only the insertion into the body counts.
  have same := size_localize d s t statements
  cases localized : d.localize s t statements with
  | mk text named =>
    rw [localized] at h same
    dsimp only at same
    obtain ⟨between, prepended, h⟩ := bind_eq_ok_iff.1 h
    cases h
    rw [size_useTemplate, size_prependToBody prepended]
    omega

private theorem reportSpan_outcome (tags : Dict Text) :
    Outcome (s.isReported site.node) d (d.reportSpan s site tags) := by
  refine inBody_outcome fun body d' h => ?_
  -- Names are bound before the block is written; none of that is an edit.
  have same := size_bind d s toolPath toolAlias
  cases bound : d.bind s toolPath toolAlias with
  | mk tool named =>
    rw [bound] at h same
    have still := size_spanStatements named s site tool (spanTags s site tags)
    cases reported : named.spanStatements s site tool (spanTags s site tags) with
    | mk statements spanned =>
      dsimp only at h same
      rw [reported] at h still
      dsimp only at h still
      obtain ⟨between, prepended, h⟩ := bind_eq_ok_iff.1 h
      cases h
      rw [size_addImport, size_prependToBody prepended]
      omega

/-- Advice that marks what it changes gives the draft back at a place that carries its marks, and
anywhere else it fails or adds edits. -/
theorem apply_outcome (s : Scene) (site : Site) (d : Draft) {a : Advice} (h : a.marks) :
    Outcome (a.isSettled s site) d (a.apply s site d) := by
  cases a with
  | wrapCallArgument index t => exact wrapCallArgument_outcome index t
  | wrapExpression t => exact wrapExpression_outcome t
  | assignValue t =>
    rw [apply, isSettled, Draft.assignValue]
    cases t.hasHole with
    | true => exact wrapExpression_outcome t
    | false => exact giveValue_outcome t
  | prependStatements t => exact prependStatements_outcome t
  | reportSpan tags => exact reportSpan_outcome tags
  | replaceCallTarget source target wanted => exact replaceCallTarget_outcome source target wanted
  | addBlankImport _ | injectDeclarations _ _ => cases h

end Advice

end Interlace
