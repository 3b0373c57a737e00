/-!
# Verdicts

What can be said of a predicate over nodes before the nodes are known.
-/

namespace Interlace

/-- A verdict on all nodes at once. -/
inductive Verdict where
  /-- The predicate holds at no node. -/
  | never
  /-- The predicate may hold at some nodes and fail at others. -/
  | unknown
  /-- The predicate holds at every node. -/
  | always
  deriving DecidableEq, Repr

namespace Verdict

/-- The verdict on a predicate that is the same at every node. -/
def ofBool (b : Bool) : Verdict :=
  if b then always else never

/-- The verdict when the evidence may rule the predicate out but cannot establish it. -/
def possible (b : Bool) : Verdict :=
  if b then unknown else never

/-- The verdict on a conjunction. -/
def and : Verdict → Verdict → Verdict
  | never, _ => never
  | _, never => never
  | always, always => always
  | _, _ => unknown

/-- The verdict on a disjunction. -/
def or : Verdict → Verdict → Verdict
  | always, _ => always
  | _, always => always
  | never, never => never
  | _, _ => unknown

/-- The verdict on a negation. -/
def negate : Verdict → Verdict
  | never => always
  | always => never
  | unknown => unknown

end Verdict

end Interlace
