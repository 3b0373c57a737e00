import Interlace.Dict.Lemmas
import Interlace.Typing.Package
import Mathlib.Algebra.GroupWithZero.Nat
import Mathlib.Algebra.Order.BigOperators.Group.List
import Mathlib.Algebra.Order.Group.Nat
import Mathlib.Logic.Relation

/-!
# Following aliases step by step

Following one alias, at the top of a type or below its pointers, is a step. There is at most one
step from a type, so a type from which the steps come to an end comes to one end only, however much
of the way was gone before. Two packages of which one records aliases as they are spelled and the
other records them partly followed lead to the same ends; and if the aliases of the first are tame,
`PackageTypes.followAliases` of the second gets there.

## Key results

- `PackageTypes.Settles.unique`: a type comes to one end only
- `PackageTypes.Tame`: no alias refers to itself, and at most seven stand in a row
- `PackageTypes.ranks_of_isRankedBy`, `PackageTypes.tame_of_isTameBy`: tests for it
- `PackageTypes.Shortens`: a package whose aliases are followed partly, compared with another
- `PackageTypes.Shortens.followAliases_settles`: following aliases comes to the end of the type
-/

namespace Interlace

open Relation

namespace TypeRef

/-- The type below all pointers. -/
def innermost : TypeRef → TypeRef
  | pointer target => target.innermost
  | t => t

end TypeRef

namespace PackageTypes

/-! ## Steps -/

/-- One alias is followed, at the top or below pointers. -/
inductive Step (p : PackageTypes) : TypeRef → TypeRef → Prop
  | here {t u : TypeRef} : p.aliasTarget? t = some u → Step p t u
  | inside {t u : TypeRef} : Step p t u → Step p (.pointer t) (.pointer u)

/-- Some aliases are followed, one after the other. -/
def Leads (p : PackageTypes) : TypeRef → TypeRef → Prop :=
  ReflTransGen p.Step

/-- No alias is left to follow. -/
def Final (p : PackageTypes) (t : TypeRef) : Prop :=
  ∀ u, ¬ p.Step t u

/-- Following all aliases of a type comes to an end. -/
def Settles (p : PackageTypes) (t u : TypeRef) : Prop :=
  p.Leads t u ∧ p.Final u

variable {p q : PackageTypes} {t u v : TypeRef}

/-- The aliases of the package decide about the steps, and nothing else of it. -/
theorem step_congr (h : ∀ t, p.aliasTarget? t = q.aliasTarget? t) : p.Step = q.Step := by
  funext t u
  refine propext ⟨fun step => ?_, fun step => ?_⟩
  · induction step with
    | here found => exact .here (h _ ▸ found)
    | inside _ ih => exact .inside ih
  · induction step with
    | here found => exact .here (h _ ▸ found)
    | inside _ ih => exact .inside ih

/-- An alias is a name of the package. -/
theorem aliasTarget?_eq_some_iff : p.aliasTarget? t = some u ↔
    ∃ name d, t = .named p.importPath name ∧ p.declaration? name = some d ∧
      d.aliasOf = some u := by
  cases t with
  | named path name =>
    rw [aliasTarget?]
    by_cases own : path = p.importPath
    · simp [own, Option.bind_eq_some_iff]
    · simp [own]
  | builtin _ | pointer _ | other _ => simp [aliasTarget?]

/-- There is at most one step from a type. -/
theorem Step.unique (first : p.Step t u) (second : p.Step t v) : u = v := by
  induction first generalizing v with
  | here found =>
    cases second with
    | here found' => exact Option.some.inj (found.symm.trans found')
    | inside _ => cases found
  | inside _ ih =>
    cases second with
    | here found => cases found
    | inside inner => rw [ih inner]

theorem Leads.pointer (h : p.Leads t u) : p.Leads (.pointer t) (.pointer u) :=
  ReflTransGen.lift TypeRef.pointer (fun _ _ => Step.inside) _ _ h

theorem Final.pointer (h : p.Final t) : p.Final (.pointer t) := by
  rintro u (found | inner)
  · cases found
  · exact h _ inner

private theorem Final.eq_of_leads (h : p.Final t) (leads : p.Leads t u) : u = t := by
  cases ReflTransGen.cases_head leads with
  | inl same => exact same.symm
  | inr step =>
    obtain ⟨v, step, -⟩ := step
    exact absurd step (h v)

/-- A type comes to the end that it comes to from anywhere on the way. -/
theorem Settles.of_leads (h : p.Settles t v) (leads : p.Leads t u) : p.Settles u v := by
  have ways : p.Leads u v ∨ p.Leads v u :=
    ReflTransGen.total_of_right_unique (fun _ _ _ => Step.unique) leads h.1
  rcases ways with on | back
  · exact ⟨on, h.2⟩
  · rw [h.2.eq_of_leads back]
    exact ⟨.refl, h.2⟩

/-- A type comes to one end only. -/
theorem Settles.unique (first : p.Settles t u) (second : p.Settles t v) : u = v :=
  (first.2.eq_of_leads (second.of_leads first.1).1).symm

theorem Settles.pointer (h : p.Settles t u) : p.Settles (.pointer t) (.pointer u) :=
  ⟨h.1.pointer, h.2.pointer⟩

/-! ## Tame aliases -/

/-- Ranks of names that drop from an alias to the name that it stands for, below pointers or
not. -/
def Ranks (p : PackageTypes) (rank : Text → Nat) : Prop :=
  ∀ name target inner, p.aliasTarget? (.named p.importPath name) = some target →
    target.innermost = .named p.importPath inner → rank inner < rank name

/-- No alias refers to itself, through others or below pointers, and no more of them stand in a row
than are followed. -/
structure Tame (p : PackageTypes) : Prop where
  ends : ∃ rank, p.Ranks rank
  short : ∀ t, (p.chase 8 t).2 = true

/-- A bound on the ranks of the aliases that a type leads to. -/
def height (p : PackageTypes) (rank : Text → Nat) (t : TypeRef) : Nat :=
  match t.innermost with
  | .named path name => if path = p.importPath then rank name + 1 else 0
  | _ => 0

theorem height_pointer (rank : Text → Nat) (t : TypeRef) :
    p.height rank (.pointer t) = p.height rank t :=
  rfl

private theorem height_named (rank : Text → Nat) (name : Text) :
    p.height rank (.named p.importPath name) = rank name + 1 :=
  if_pos rfl

private theorem Ranks.height_le {rank : Text → Nat} (ranked : p.Ranks rank) {name : Text}
    (found : p.aliasTarget? (.named p.importPath name) = some t) :
    p.height rank t ≤ rank name := by
  unfold height
  split
  · rename_i path inner innermost
    split
    · rename_i own
      exact ranked name t inner found (own ▸ innermost)
    · exact Nat.zero_le _
  · exact Nat.zero_le _

/-- Every step lowers the height. -/
theorem Ranks.height_lt {rank : Text → Nat} (ranked : p.Ranks rank) (step : p.Step t u) :
    p.height rank u < p.height rank t := by
  induction step with
  | here found =>
    obtain ⟨name, d, rfl, -, -⟩ := aliasTarget?_eq_some_iff.1 found
    rw [height_named]
    exact Nat.lt_succ_of_le (ranked.height_le found)
  | inside _ ih => exact ih

theorem Ranks.height_le_of_leads {rank : Text → Nat} (ranked : p.Ranks rank)
    (leads : p.Leads t u) : p.height rank u ≤ p.height rank t := by
  induction leads with
  | refl => exact Nat.le_refl _
  | tail _ step ih => exact Nat.le_trans (Nat.le_of_lt (ranked.height_lt step)) ih

/-- A test that the ranks drop along the aliases of the package. -/
def isRankedBy (p : PackageTypes) (rank : Text → Nat) : Bool :=
  p.declarations.entries.all fun e => e.2.aliasOf.all fun target => p.height rank target ≤ rank e.1

theorem ranks_of_isRankedBy {rank : Text → Nat} (h : p.isRankedBy rank) : p.Ranks rank := by
  intro name target inner found innermost
  obtain ⟨_, d, same, declared, stands⟩ := aliasTarget?_eq_some_iff.1 found
  cases same
  have listed := List.all_eq_true.1 h _ (p.declarations.mem_entries_iff.2 declared)
  have lower : p.height rank target ≤ rank name := by simpa [stands] using listed
  rw [height, innermost] at lower
  simpa [Nat.succ_le_iff] using lower

/-- The ranks prove the aliases of the package tame. -/
def isTameBy (p : PackageTypes) (rank : Text → Nat) : Bool :=
  p.isRankedBy rank &&
    p.declarations.entries.all fun e => (p.chase 8 (.named p.importPath e.1)).2

theorem tame_of_isTameBy {rank : Text → Nat} (h : p.isTameBy rank) : p.Tame := by
  obtain ⟨ranked, short⟩ := Bool.and_eq_true_iff.1 h
  refine ⟨⟨rank, ranks_of_isRankedBy ranked⟩, fun t => ?_⟩
  cases found : p.aliasTarget? t with
  | none => rw [chase, found]
  | some u =>
    obtain ⟨name, d, rfl, declared, -⟩ := aliasTarget?_eq_some_iff.1 found
    exact List.all_eq_true.1 short _ (p.declarations.mem_entries_iff.2 declared)

/-! ## Chasing -/

theorem chase_leads (h : ∀ t u, p.aliasTarget? t = some u → q.Leads t u) (steps : Nat)
    (t : TypeRef) : q.Leads t (p.chase steps t).1 := by
  induction steps generalizing t with
  | zero => exact .refl
  | succ steps ih =>
    rw [chase]
    split
    · rename_i target found
      exact ReflTransGen.trans (h t target found) (ih target)
    · exact .refl

private theorem follow_leads (h : ∀ t u, p.aliasTarget? t = some u → q.Leads t u) (depth : Nat)
    (t : TypeRef) : q.Leads t (p.follow depth t) := by
  induction depth generalizing t with
  | zero => exact .refl
  | succ depth ih =>
    -- A chase leads along aliases, and below a pointer the next one goes on.
    have chased := chase_leads h 8 t
    rw [follow]
    split
    · rename_i target eq
      rw [eq] at chased
      exact ReflTransGen.trans chased (ih target).pointer
    · rename_i reached _ _ eq
      rw [eq] at chased
      exact chased

/-- Whatever stage of it a package has reached, following aliases goes along their steps. -/
theorem followAliases_leads (h : ∀ t u, p.aliasTarget? t = some u → q.Leads t u) (t : TypeRef) :
    q.Leads t (p.followAliases t) :=
  follow_leads h _ t

theorem aliasTarget?_of_chase {steps : Nat} (h : p.chase steps t = (u, true)) :
    p.aliasTarget? u = none := by
  induction steps generalizing t with
  | zero => cases h
  | succ steps ih =>
    rw [chase] at h
    split at h
    · exact ih h
    · rename_i none_found
      cases h
      exact none_found

private theorem chase_succ {steps : Nat} (h : p.chase steps t = (u, true)) :
    p.chase (steps + 1) t = (u, true) := by
  induction steps generalizing t with
  | zero => cases h
  | succ steps ih =>
    rw [chase] at h ⊢
    split at h
    · exact ih h
    · exact h

/-- A step on the way makes no row of aliases longer. -/
private theorem chase_of_step {steps : Nat} (h : p.chase steps t = (v, true)) (step : p.Step t u) :
    ∃ w, p.chase steps u = (w, true) ∧ p.Leads v w := by
  cases steps with
  | zero => cases h
  | succ steps =>
    cases step with
    | here found =>
      rw [chase, found] at h
      exact ⟨v, chase_succ h, .refl⟩
    | inside inner =>
      -- A pointer ends a row, before the step and after it.
      cases h
      exact ⟨_, rfl, .single (.inside inner)⟩

private theorem chase_of_leads {steps : Nat} (h : p.chase steps t = (v, true))
    (leads : p.Leads t u) : ∃ w, p.chase steps u = (w, true) ∧ p.Leads v w := by
  induction leads with
  | refl => exact ⟨v, h, .refl⟩
  | tail _ step ih =>
    obtain ⟨w, chased, on⟩ := ih
    obtain ⟨x, chased', on'⟩ := chase_of_step chased step
    exact ⟨x, chased', ReflTransGen.trans on on'⟩

/-! ## The pointers on the way -/

/-- The pointers that an alias adds. -/
def weight (e : Text × Declaration) : Nat :=
  (e.2.aliasOf.map TypeRef.depth).getD 0

/-- The pointers that the aliases below a rank add. -/
def weightBelow (rank : Text → Nat) (entries : List (Text × Declaration)) (bound : Nat) : Nat :=
  ((entries.filter fun e => rank e.1 < bound).map weight).sum

private theorem weightBelow_mono (rank : Text → Nat) (entries : List (Text × Declaration))
    {bound bound' : Nat} (h : bound ≤ bound') :
    weightBelow rank entries bound ≤ weightBelow rank entries bound' := by
  induction entries with
  | nil => exact Nat.le_refl _
  | cons e entries ih =>
    simp only [weightBelow, List.filter_cons, decide_eq_true_eq] at ih ⊢
    split
    · rw [if_pos (by omega)]
      simpa using ih
    · split
      · simp only [List.map_cons, List.sum_cons]
        omega
      · exact ih

/-- The alias of a rank adds its pointers to those of the aliases below. -/
private theorem weightBelow_add_weight_le (rank : Text → Nat) {entries : List (Text × Declaration)}
    {e : Text × Declaration} (h : e ∈ entries) :
    weightBelow rank entries (rank e.1) + weight e ≤
      weightBelow rank entries (rank e.1 + 1) := by
  induction entries with
  | nil => cases h
  | cons e' entries ih =>
    -- Every other alias below counts on both sides, so only this one is gained.
    have mono := weightBelow_mono rank entries (Nat.le_add_right (rank e.1) 1)
    simp only [weightBelow, List.filter_cons, decide_eq_true_eq] at ih mono ⊢
    rcases List.mem_cons.1 h with rfl | h
    · rw [if_neg (Nat.lt_irrefl _), if_pos (Nat.lt_succ_self _), List.map_cons, List.sum_cons]
      omega
    · have rest := ih h
      split
      · rw [if_pos (by omega), List.map_cons, List.sum_cons, List.map_cons, List.sum_cons]
        omega
      · split
        · rw [List.map_cons, List.sum_cons]
          omega
        · exact rest

private theorem weightBelow_le_pointerBound (rank : Text → Nat) (bound : Nat) :
    weightBelow rank p.declarations.entries bound ≤ p.pointerBound := by
  have total : p.pointerBound = (p.declarations.entries.map weight).sum := by
    rw [List.sum_eq_foldl, List.foldl_map]
    rfl
  rw [total, weightBelow]
  exact (List.filter_sublist.map weight).sum_le_sum fun _ _ => Nat.zero_le _

/-- A bound on the pointers that following the aliases of a type goes through. -/
def cost (p : PackageTypes) (rank : Text → Nat) (t : TypeRef) : Nat :=
  t.depth + weightBelow rank p.declarations.entries (p.height rank t)

/-- Following an alias at the top does not raise the bound. -/
private theorem Ranks.cost_le {rank : Text → Nat} (ranked : p.Ranks rank)
    (found : p.aliasTarget? t = some u) : p.cost rank u ≤ p.cost rank t := by
  obtain ⟨name, d, rfl, declared, stands⟩ := aliasTarget?_eq_some_iff.1 found
  have lower := weightBelow_mono rank p.declarations.entries (ranked.height_le found)
  -- The pointers of the target are those that the alias itself adds.
  have added := weightBelow_add_weight_le rank (p.declarations.mem_entries_iff.2 declared)
  have own : weight (name, d) = u.depth := by simp [weight, stands]
  rw [cost, cost, height_named]
  simp only [own] at added
  omega

private theorem Ranks.cost_chase_le {rank : Text → Nat} (ranked : p.Ranks rank) {steps : Nat}
    (h : p.chase steps t = (u, true)) : p.cost rank u ≤ p.cost rank t := by
  induction steps generalizing t with
  | zero => cases h
  | succ steps ih =>
    rw [chase] at h
    split at h
    · rename_i target found
      exact Nat.le_trans (ih h) (ranked.cost_le found)
    · cases h
      exact Nat.le_refl _

/-- With enough fuel, following tame aliases leaves none to follow. -/
private theorem Ranks.follow_final {rank : Text → Nat} (ranked : p.Ranks rank)
    (short : ∀ t, (p.chase 8 t).2 = true) {depth : Nat} (enough : p.cost rank t < depth) :
    p.Final (p.follow depth t) := by
  -- The induction is on the fuel, which the cost of the type stays below.
  induction depth generalizing t with
  | zero => cases enough
  | succ depth ih =>
    obtain ⟨u, chased⟩ : ∃ u, p.chase 8 t = (u, true) := ⟨_, Prod.ext rfl (short t)⟩
    have cheaper := ranked.cost_chase_le chased
    have last := aliasTarget?_of_chase chased
    rw [follow, chased]
    cases u with
    | pointer target =>
      have inner : p.cost rank target < p.cost rank (.pointer target) := by
        simp only [cost, height_pointer, TypeRef.depth]
        omega
      exact (ih (by omega)).pointer
    | named _ _ | builtin _ | other _ =>
      rintro v (found | _)
      rw [last] at found
      cases found

/-- Following tame aliases leaves none to follow. -/
private theorem Tame.followAliases_final (tame : p.Tame) (t : TypeRef) :
    p.Final (p.followAliases t) := by
  obtain ⟨rank, ranked⟩ := tame.ends
  refine Ranks.follow_final ranked tame.short ?_
  have bounded := weightBelow_le_pointerBound (p := p) rank (p.height rank t)
  rw [cost]
  omega

/-! ## Aliases that are followed partly -/

/-- The second package has the aliases of the first, each followed some way. -/
structure Shortens (p q : PackageTypes) : Prop where
  importPath : q.importPath = p.importPath
  leads : ∀ t u, q.aliasTarget? t = some u → ∃ v, p.aliasTarget? t = some v ∧ p.Leads v u
  complete : ∀ t, q.aliasTarget? t = none → p.aliasTarget? t = none

namespace Shortens

private theorem aliasTarget?_leads (h : Shortens p q) (t u : TypeRef)
    (found : q.aliasTarget? t = some u) : p.Leads t u := by
  obtain ⟨v, step, on⟩ := h.leads t u found
  exact .head (.here step) on

theorem final (h : Shortens p q) (final : q.Final t) : p.Final t := by
  intro u step
  induction step with
  | here found =>
    rename_i t u
    cases shortened : q.aliasTarget? t with
    | none =>
      rw [h.complete t shortened] at found
      cases found
    | some v => exact final v (.here shortened)
  | inside _ ih => exact ih fun v step => final _ (.inside step)

theorem ranks (h : Shortens p q) {rank : Text → Nat} (ranked : p.Ranks rank) : q.Ranks rank := by
  intro name target inner found innermost
  rw [h.importPath] at found innermost
  obtain ⟨v, step, on⟩ := h.leads _ _ found
  have lower : p.height rank target ≤ rank name :=
    Nat.le_trans (ranked.height_le_of_leads on) (ranked.height_le step)
  rw [height, innermost] at lower
  simpa [Nat.succ_le_iff] using lower

theorem chase (h : Shortens p q) {steps : Nat} (chased : p.chase steps t = (v, true)) :
    (q.chase steps t).2 = true := by
  induction steps generalizing t v with
  | zero => cases chased
  | succ steps ih =>
    rw [PackageTypes.chase]
    split
    · rename_i u found
      obtain ⟨w, step, on⟩ := h.leads t u found
      rw [PackageTypes.chase, step] at chased
      obtain ⟨x, chased, -⟩ := chase_of_leads chased on
      exact ih chased
    · rfl

theorem tame (h : Shortens p q) (tame : p.Tame) : q.Tame := by
  obtain ⟨rank, ranked⟩ := tame.ends
  exact ⟨⟨rank, h.ranks ranked⟩, fun t => h.chase (Prod.ext rfl (tame.short t))⟩

/-- If the aliases of the first package are tame, following those of the second comes to the end
that a type comes to in the first. -/
theorem followAliases_settles (h : Shortens p q) (tame : p.Tame) (t : TypeRef) :
    p.Settles t (q.followAliases t) :=
  ⟨followAliases_leads h.aliasTarget?_leads t, h.final ((h.tame tame).followAliases_final t)⟩

end Shortens

end PackageTypes

end Interlace
