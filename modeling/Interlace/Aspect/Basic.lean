import Interlace.Aspect.JoinPoint
import Interlace.Aspect.WrapPattern

/-!
# Aspects

An aspect says where code is changed and how: a join point, and the advice that is applied
wherever it holds. Advice that changes statements can be taken back.
-/

namespace Interlace

/-- A change at a node. -/
inductive Advice where
  /-- Wraps an argument of a call, counted from zero. -/
  | wrapCallArgument (index : Nat) (template : Template)
  /-- Wraps the value of a keyed field or of a declaration with one value. -/
  | wrapExpression (template : Template)
  /-- Wraps a declared value if the template has a hole, and otherwise gives a variable without
  a value one. -/
  | assignValue (template : Template)
  /-- Puts statements at the start of a function. -/
  | prependStatements (template : Template)
  /-- Reports the execution of a function as a span with tags. -/
  | reportSpan (tags : Dict Text)
  | addBlankImport (path : Text)
  /-- Calls the function of the same name in package `target` instead of the one in `source`. -/
  | replaceCallTarget (source target wanted : Text)
  /-- Adds declarations to a file; `links` are packages that are needed only at link time. -/
  | injectDeclarations (template : Template) (links : List Text)

/-- Where a wrapping advice puts its template. -/
inductive WrapSite where
  | callArgument (index : Nat)
  | value
  deriving DecidableEq, Repr

/-- How an advice is taken back inside a marked statement. -/
inductive Revert where
  /-- Takes one application of the template off an expression. -/
  | unwrap (site : WrapSite) (template : Template)
  /-- Drops the value that the template gave a variable. -/
  | unassign (template : Template)
  /-- Calls through package `source` again, instead of `wanted` for package `target`. -/
  | retarget (wanted source target : Text)
  deriving DecidableEq

namespace Advice

/-- The name of the kind of advice. -/
def name : Advice → Text
  | wrapCallArgument .. => "wrap-call-argument"
  | wrapExpression .. => "wrap-expression"
  | assignValue .. => "assign-value"
  | prependStatements .. => "prepend-statements"
  | reportSpan .. => "report-span"
  | addBlankImport .. => "add-blank-import"
  | replaceCallTarget .. => "replace-call-target"
  | injectDeclarations .. => "inject-declarations"

/-- How the advice is taken back; advice that only adds whole lines needs nothing. -/
def revert? : Advice → Option Revert
  | wrapCallArgument index template => some (.unwrap (.callArgument index) template)
  | wrapExpression template => some (.unwrap .value template)
  | assignValue template =>
    if template.hasHole then some (.unwrap .value template) else some (.unassign template)
  | replaceCallTarget source target wanted => some (.retarget wanted source target)
  | _ => none

end Advice

/-- A join point and the advice that is applied where it holds. -/
structure Aspect where
  /-- Unique in the document that declares the aspect. -/
  id : Text
  /-- The aspect also applies inside the packages of the instrumentation itself. -/
  tracerInternal : Bool
  joinPoint : JoinPoint
  advice : List Advice

end Interlace
