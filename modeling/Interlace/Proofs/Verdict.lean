import Interlace.Weave.Matching

/-!
# Sound verdicts

A verdict on a join point is sound if what it promises holds at every node. Soundness carries
over from the parts of a join point to the whole, so an estimate that is sound for the join
points without parts is sound for all. Negation swaps the two promises, so both are carried
together.

## Key results

- `Verdict.Admits`: a truth value keeps the promise of a verdict
- `JoinPoint.Estimate.admits`: soundness of an estimate from that of its leaves
- `JoinPoint.inPackage_estimate`, `JoinPoint.inFile_estimate`: the two estimates
-/

namespace Interlace

open Syntax

namespace Verdict

/-- A truth value keeps the promise of a verdict: false for `never`, true for `always`. -/
def Admits (v : Verdict) (b : Bool) : Prop :=
  (v = never → b = false) ∧ (v = always → b = true)

instance (v : Verdict) (b : Bool) : Decidable (v.Admits b) :=
  inferInstanceAs (Decidable (_ ∧ _))

theorem unknown_admits (b : Bool) : unknown.Admits b := by
  cases b <;> decide

theorem ofBool_admits (b : Bool) : (ofBool b).Admits b := by
  cases b <;> decide

/-- Evidence that a predicate needs rules it out where it is missing. -/
theorem possible_admits {evidence b : Bool} (h : b = true → evidence = true) :
    (possible evidence).Admits b := by
  cases evidence with
  | true => exact unknown_admits b
  | false =>
    cases b with
    | true => cases h rfl
    | false => decide

private theorem negate_admits {v : Verdict} {b : Bool} (h : v.Admits b) :
    v.negate.Admits (! b) := by
  revert h
  cases v <;> cases b <;> decide

private theorem and_admits {v u : Verdict} {b c : Bool} (hv : v.Admits b) (hu : u.Admits c) :
    (v.and u).Admits (b && c) := by
  revert hv hu
  cases v <;> cases u <;> cases b <;> cases c <;> decide

private theorem or_admits {v u : Verdict} {b c : Bool} (hv : v.Admits b) (hu : u.Admits c) :
    (v.or u).Admits (b || c) := by
  revert hv hu
  cases v <;> cases u <;> cases b <;> cases c <;> decide

variable {α : Type} {estimate : α → Verdict} {truth : α → Bool} {l : List α}

private theorem foldl_and_admits (h : ∀ a ∈ l, (estimate a).Admits (truth a)) {v : Verdict}
    {b : Bool} (hv : v.Admits b) :
    (l.foldl (fun v a => v.and (estimate a)) v).Admits (b && l.all truth) := by
  induction l generalizing v b with
  | nil => simpa using hv
  | cons a l ih =>
    have first := and_admits hv (h a List.mem_cons_self)
    have rest := ih (fun c hc => h c (List.mem_cons_of_mem a hc)) first
    simpa [Bool.and_assoc] using rest

private theorem foldl_or_admits (h : ∀ a ∈ l, (estimate a).Admits (truth a)) {v : Verdict}
    {b : Bool} (hv : v.Admits b) :
    (l.foldl (fun v a => v.or (estimate a)) v).Admits (b || l.any truth) := by
  induction l generalizing v b with
  | nil => simpa using hv
  | cons a l ih =>
    have first := or_admits hv (h a List.mem_cons_self)
    have rest := ih (fun c hc => h c (List.mem_cons_of_mem a hc)) first
    simpa [Bool.or_assoc] using rest

end Verdict

namespace JoinPoint

/-! ## Join points with parts -/

/-- The join point has no parts. -/
def IsLeaf : JoinPoint → Prop
  | allOf _ | oneOf _ | not _ => False
  | _ => True

/-- An estimate of join points that treats those with parts as the connectives they are. -/
structure Estimate (estimate : JoinPoint → Verdict) : Prop where
  allOf : ∀ points,
    estimate (allOf points) = points.foldl (fun v p => v.and (estimate p)) .always
  oneOf : ∀ points,
    estimate (oneOf points) = points.foldl (fun v p => v.or (estimate p)) .never
  not : ∀ point, estimate (not point) = (estimate point).negate

private theorem allHoldAt_eq (s : Scene) (site : Site) (points : List JoinPoint) :
    allHoldAt s site points = points.all (holdsAt s site) := by
  induction points with
  | nil => rfl
  | cons p points ih => rw [allHoldAt, ih, List.all_cons]

private theorem someHoldsAt_eq (s : Scene) (site : Site) (points : List JoinPoint) :
    someHoldsAt s site points = points.any (holdsAt s site) := by
  induction points with
  | nil => rfl
  | cons p points ih => rw [someHoldsAt, ih, List.any_cons]

section

variable {estimate : JoinPoint → Verdict} {s : Scene} {site : Site}

mutual

/-- An estimate that is sound for the leaves is sound. -/
theorem Estimate.admits (h : Estimate estimate)
    (leaves : ∀ p, p.IsLeaf → (estimate p).Admits (p.holdsAt s site)) :
    (point : JoinPoint) → (estimate point).Admits (point.holdsAt s site)
  -- The folds start from the verdict on no parts at all.
  | .allOf points => by
    rw [h.allOf, holdsAt, allHoldAt_eq, ← Bool.true_and (points.all _)]
    exact Verdict.foldl_and_admits (h.admits_all leaves points) (by decide)
  | .oneOf points => by
    rw [h.oneOf, holdsAt, someHoldsAt_eq, ← Bool.false_or (points.any _)]
    exact Verdict.foldl_or_admits (h.admits_all leaves points) (by decide)
  | .not point => by
    rw [h.not, holdsAt]
    exact Verdict.negate_admits (h.admits leaves point)
  | .importPath _ | .packageName _ | .testMain _ | .configuration _ | .sourceFile
  | .functionDeclaration _ | .functionCall _ _ | .structLiteralField _ _ | .valueDeclaration _
  | .declarationOf _ _ | .directive _ => leaves _ trivial

/-- An estimate that is sound for the leaves is sound for every part. -/
private theorem Estimate.admits_all (h : Estimate estimate)
    (leaves : ∀ p, p.IsLeaf → (estimate p).Admits (p.holdsAt s site)) :
    (points : List JoinPoint) → ∀ p ∈ points, (estimate p).Admits (p.holdsAt s site)
  | [] => fun _ hp => (List.not_mem_nil hp).elim
  | q :: points => by
    have first := h.admits leaves q
    have rest := h.admits_all leaves points
    intro p hp
    rcases List.mem_cons.1 hp with eq | hp
    · exact eq ▸ first
    · exact rest p hp

end

end

/-! ## The two estimates -/

private theorem allInPackage_eq (facts : PackageFacts) (v : Verdict) (points : List JoinPoint) :
    allInPackage facts v points = points.foldl (fun v p => v.and (inPackage facts p)) v := by
  induction points generalizing v with
  | nil => rfl
  | cons p points ih => rw [allInPackage, ih, List.foldl_cons]

private theorem anyInPackage_eq (facts : PackageFacts) (v : Verdict) (points : List JoinPoint) :
    anyInPackage facts v points = points.foldl (fun v p => v.or (inPackage facts p)) v := by
  induction points generalizing v with
  | nil => rfl
  | cons p points ih => rw [anyInPackage, ih, List.foldl_cons]

theorem inPackage_estimate (facts : PackageFacts) : Estimate (inPackage facts) where
  allOf points := by rw [inPackage, allInPackage_eq]
  oneOf points := by rw [inPackage, anyInPackage_eq]
  not point := by rw [inPackage]

private theorem allInFile_eq (facts : FileFacts) (v : Verdict) (points : List JoinPoint) :
    allInFile facts v points = points.foldl (fun v p => v.and (inFile facts p)) v := by
  induction points generalizing v with
  | nil => rfl
  | cons p points ih => rw [allInFile, ih, List.foldl_cons]

private theorem anyInFile_eq (facts : FileFacts) (v : Verdict) (points : List JoinPoint) :
    anyInFile facts v points = points.foldl (fun v p => v.or (inFile facts p)) v := by
  induction points generalizing v with
  | nil => rfl
  | cons p points ih => rw [anyInFile, ih, List.foldl_cons]

theorem inFile_estimate (facts : FileFacts) : Estimate (inFile facts) where
  allOf points := by rw [inFile, allInFile_eq]
  oneOf points := by rw [inFile, anyInFile_eq]
  not point := by rw [inFile]

end JoinPoint

end Interlace
