import Interlace.Proofs.Recognition

/-!
# The order of advice

Weaving a file applies a list of advices that can be read off the file and the aspects: the places
of the tree from the leaves up, without those that are passed over; at each place the aspects that
match; of each aspect all advice. The first advice that fails ends the weaving.

## Key results

- `Walk.run_eq_foldlM`: a walk leaves the places that it reaches in post-order
- `Weave.tasks`: the advices to apply to a file, in order
- `Weave.run_eq_foldlM`: the walk over a file applies exactly these
- `Weave.file_performs`: so does weaving, up to the first that fails
-/

namespace Interlace

namespace Syntax

/-! ## Places in post-order -/

mutual

/-- Both orders of the places of a tree hold the same places. -/
theorem Site.postorderAt_perm : (t : Tree) → (above : List Tree) →
    (Site.postorderAt above t).Perm (Site.preorderAt above t)
  | .node k f s e cs, above => by
    rw [Site.postorderAt, Site.preorderAt]
    have below := Site.postorderBelow_perm cs (.node k f s e cs :: above)
    exact (below.append_right _).trans (List.perm_append_singleton _ _)

/-- Both orders of the places of siblings hold the same places. -/
private theorem Site.postorderBelow_perm : (ts : List Tree) → (above : List Tree) →
    (Site.postorderBelow above ts).Perm (Site.preorderBelow above ts)
  | [], above => by
    rw [Site.postorderBelow, Site.preorderBelow]
  | t :: ts, above => by
    rw [Site.postorderBelow, Site.preorderBelow]
    exact (Site.postorderAt_perm t above).append (Site.postorderBelow_perm ts above)

end

/-- A node is at or above every place of its own tree. -/
private theorem Site.mem_of_mem_postorderAt {above : List Tree} {t : Tree} {site : Site}
    (h : site ∈ Site.postorderAt above t) : t ∈ site.node :: site.ancestors := by
  obtain ⟨k, f, s, e, cs⟩ := t
  have inside := (Site.postorderAt_perm _ above).mem_iff.1 h
  rw [Site.preorderAt, List.mem_cons] at inside
  rcases inside with rfl | below
  · exact List.mem_cons_self
  · exact List.mem_cons_of_mem _
      (Site.mem_ancestors_of_mem_preorderBelow List.mem_cons_self cs site below)

namespace Walk

variable {σ ε : Type} {w : Walk σ ε} {skipped : Tree → Bool}

/-- No node at or above the place is left out. -/
def isReached (skipped : Tree → Bool) (site : Site) : Bool :=
  ! (site.node :: site.ancestors).any skipped

private theorem filter_isReached_of_skipped {t : Tree} (h : skipped t = true) (above : List Tree) :
    (Site.postorderAt above t).filter (isReached skipped) = [] := by
  rw [List.filter_eq_nil_iff]
  intro site inside
  have found : (site.node :: site.ancestors).any skipped = true :=
    List.any_eq_true.2 ⟨t, Site.mem_of_mem_postorderAt inside, h⟩
  simp [isReached, found]

mutual

/-- A walk leaves the places that it reaches in post-order, and does nothing else. -/
private theorem visit_eq_foldlM (skips : w.Skips skipped) :
    (t : Tree) → (above : List Tree) → (∀ n ∈ above, skipped n = false) → (state : σ) →
      w.visit above state t =
        ((Site.postorderAt above t).filter (isReached skipped)).foldlM w.leave state
  | .node k f s e cs, above, unskipped, state => by
    cases here : skipped (.node k f s e cs) with
    | true =>
      rw [visit_of_skipped skips here, filter_isReached_of_skipped here]
      rfl
    | false =>
      have inside : ∀ n ∈ Tree.node k f s e cs :: above, skipped n = false :=
        List.forall_mem_cons.2 ⟨here, unskipped⟩
      have reached : isReached skipped ⟨.node k f s e cs, above⟩ = true := by
        rw [isReached, Bool.not_eq_true', List.any_eq_false]
        simpa using inside
      -- The place of the node itself comes behind all places below it.
      rw [visit_of_not_skipped skips here, Site.postorderAt, List.filter_append,
        List.foldlM_append, List.filter_cons_of_pos reached,
        visitAll_eq_foldlM skips cs _ inside state]
      simp

/-- A walk over siblings leaves the places that it reaches in post-order. -/
private theorem visitAll_eq_foldlM (skips : w.Skips skipped) :
    (ts : List Tree) → (above : List Tree) → (∀ n ∈ above, skipped n = false) → (state : σ) →
      w.visitAll above state ts =
        ((Site.postorderBelow above ts).filter (isReached skipped)).foldlM w.leave state
  | [], above, _, state => by
    rw [visitAll, Site.postorderBelow]
    rfl
  | t :: ts, above, unskipped, state => by
    rw [visitAll_cons, Site.postorderBelow, List.filter_append, List.foldlM_append,
      visit_eq_foldlM skips t above unskipped state]
    congr 1
    funext after
    exact visitAll_eq_foldlM skips ts above unskipped after

end

/-- A whole walk leaves the places that it reaches in post-order, and does nothing else. -/
theorem run_eq_foldlM (skips : w.Skips skipped) (t : Tree) (state : σ) :
    w.run state t = (t.sitesUpward.filter (isReached skipped)).foldlM w.leave state := by
  rw [run_eq_visit, Tree.sitesUpward]
  exact visit_eq_foldlM skips t [] (fun _ hn => (List.not_mem_nil hn).elim) state

end Walk

end Syntax

open Syntax Importing

/-! ## Folds with failures -/

private theorem foldlM_flatMap {m : Type → Type} [Monad m] [LawfulMonad m] {α β σ : Type}
    (f : σ → β → m σ) (g : α → List β) (l : List α) (p : σ) :
    (l.flatMap g).foldlM f p = l.foldlM (fun p a => (g a).foldlM f p) p := by
  induction l generalizing p with
  | nil => rfl
  | cons a l ih =>
    rw [List.flatMap_cons, List.foldlM_append, List.foldlM_cons]
    simp only [ih]

private theorem mapError_foldlM {ε ε' α σ : Type} (g : ε → ε') (f : σ → α → Except ε σ) (l : List α)
    (p : σ) : (l.foldlM f p).mapError g = l.foldlM (fun p a => (f p a).mapError g) p := by
  induction l generalizing p with
  | nil => rfl
  | cons a l ih =>
    rw [List.foldlM_cons, List.foldlM_cons]
    cases f p a with
    | error e => rfl
    | ok q => exact ih q

namespace Weave

/-! ## Tasks -/

/-- An advice to apply at a place. -/
structure Task where
  site : Site
  aspect : Aspect
  /-- The position of the advice in the aspect. -/
  index : Nat
  advice : Advice

/-- All advice of an aspect, in declared order. -/
def tasksOf (site : Site) (aspect : Aspect) : List Task :=
  aspect.advice.zipIdx.map fun (advice, index) => ⟨site, aspect, index, advice⟩

/-- The advice of the aspects that match at a place, in list order. -/
def tasksAt (s : Scene) (aspects : List Aspect) (site : Site) : List Task :=
  (aspects.filter (·.joinPoint.holdsAt s site)).flatMap (tasksOf site)

/-- The advice to apply to a file: the places from the leaves up, without those that are passed
over, and at each place what is to be applied there. -/
def tasks (s : Scene) (aspects : List Aspect) : List Task :=
  (s.file.tree.sitesUpward.filter (! isPassedOver s.file ·)).flatMap (tasksAt s aspects)

variable {s : Scene} {aspects : List Aspect}

/-- What is at or below an ignored node is not even matched. -/
private theorem isIgnored_of_mem_tasks {t : Task} (h : t ∈ tasks s aspects) :
    ∀ n ∈ t.site.node :: t.site.ancestors, isIgnored s.file n = false := by
  obtain ⟨site, visited, ht⟩ := List.mem_flatMap.1 h
  obtain ⟨aspect, -, ht⟩ := List.mem_flatMap.1 ht
  obtain ⟨entry, -, rfl⟩ := List.mem_map.1 ht
  have kept := (List.mem_filter.1 visited).2
  simp only [isPassedOver, Bool.not_eq_true', Bool.or_eq_false_iff, List.any_eq_false,
    Bool.not_eq_true] at kept
  exact kept.1.1

/-- Carries out one task. -/
def perform (s : Scene) (p : Progress) (t : Task) : Except AdviceFailure Progress :=
  applyOne s t.site t.aspect.id p (t.advice, t.index)

/-- Carrying out the tasks in order leads from one state of the weaving to another; none fails. -/
inductive Performs (s : Scene) : Progress → List Task → Progress → Prop
  | nil (p : Progress) : Performs s p [] p
  | cons {d d' : Draft} {applied : Nat} {changed : Bool} {q : Progress} {t : Task}
      {ts : List Task} :
      t.advice.apply s t.site d = .ok (changed, d') →
      Performs s (d', if changed then applied + 1 else applied) ts q →
      Performs s (d, applied) (t :: ts) q

/-- Tasks that can all be carried out are. -/
theorem performs_of_foldlM_eq_ok {ts : List Task} {p q : Progress}
    (h : ts.foldlM (perform s) p = .ok q) : Performs s p ts q := by
  induction ts generalizing p with
  | nil =>
    cases h
    exact .nil _
  | cons t ts ih =>
    obtain ⟨d, applied⟩ := p
    rw [List.foldlM_cons, perform, applyOne] at h
    -- The fold stops at the first advice that fails, so none of them does.
    cases result : t.advice.apply s t.site d with
    | error fault =>
      rw [result] at h
      cases h
    | ok pair =>
      rw [result] at h
      exact .cons result (ih h)

/-- What was carried out can be carried out again. -/
theorem Performs.foldlM_eq_ok {ts : List Task} {p q : Progress} (h : Performs s p ts q) :
    ts.foldlM (perform s) p = .ok q := by
  induction h with
  | nil p => rfl
  | cons applied _ ih =>
    rw [List.foldlM_cons, perform, applyOne, applied]
    exact ih

/-- Otherwise they are carried out up to the first that fails. -/
private theorem performs_of_foldlM_eq_error {ts : List Task} {p : Progress}
    {failure : AdviceFailure} (h : ts.foldlM (perform s) p = .error failure) :
    ∃ done t rest d applied fault, ts = done ++ t :: rest ∧ Performs s p done (d, applied) ∧
      t.advice.apply s t.site d = .error fault ∧ failure = ⟨t.aspect.id, t.index, fault⟩ := by
  induction ts generalizing p with
  | nil => cases h
  | cons t ts ih =>
    obtain ⟨d, applied⟩ := p
    rw [List.foldlM_cons, perform, applyOne] at h
    -- The first advice that fails ends the fold; what was done before it is a run.
    cases result : t.advice.apply s t.site d with
    | error fault =>
      rw [result] at h
      cases h
      exact ⟨[], t, ts, d, applied, fault, rfl, .nil _, result, rfl⟩
    | ok pair =>
      rw [result] at h
      obtain ⟨done, u, rest, e, more, fault, rfl, performed, stops, named⟩ := ih h
      exact ⟨t :: done, u, rest, e, more, fault, rfl, .cons result performed, stops, named⟩

/-! ## The walk carries out the tasks -/

private theorem applyAspect_eq_foldlM (site : Site) (p : Progress) (aspect : Aspect) :
    applyAspect s site p aspect =
      if aspect.joinPoint.holdsAt s site then (tasksOf site aspect).foldlM (perform s) p
      else pure p := by
  rw [applyAspect, applyAll_eq_foldlM, tasksOf, List.foldlM_map]
  rfl

private theorem applyAt_eq_foldlM (site : Site) (p : Progress) :
    applyAt s site aspects p = (tasksAt s aspects site).foldlM (perform s) p := by
  rw [tasksAt, foldlM_flatMap, List.foldlM_filter]
  show aspects.foldlM (applyAspect s site) p = _
  simp only [← applyAspect_eq_foldlM]

/-- At a place that the walk leaves, it applies what is to be applied there, unless the place is
passed over. -/
private theorem walk_leave_mapError (p : Progress) (site : Site) :
    ((walk s aspects).leave p site).mapError Prod.fst =
      if ! site.node.isNamed || isInstrumented s.file site then .ok p
      else (tasksAt s aspects site).foldlM (perform s) p := by
  rw [← applyAt_eq_foldlM]
  dsimp only [walk]
  split
  · rfl
  · cases applyAt s site aspects p <;> rfl

/-- The walk over a file carries out the tasks of the file in order. -/
theorem run_eq_foldlM (p : Progress) :
    ((walk s aspects).run p s.file.tree).mapError Prod.fst =
      (tasks s aspects).foldlM (perform s) p := by
  rw [Walk.run_eq_foldlM (walk_skips s aspects), mapError_foldlM, tasks, foldlM_flatMap,
    List.foldlM_filter, List.foldlM_filter]
  simp only [walk_leave_mapError]
  congr 1
  funext p site
  -- The walk decides in two steps what `isPassedOver` says at once.
  have decided (ignored passed : Bool) (done : Except AdviceFailure Progress) :
      (if ! ignored then if passed then .ok p else done else pure p) =
        if ! (ignored || passed) then done else pure p := by
    cases ignored <;> cases passed <;> rfl
  rw [Walk.isReached, isPassedOver, Bool.or_assoc]
  exact decided _ _ _

/-! ## Weaving -/

/-- What weaving does once all advice is applied: it reconciles the imports and renders the
text. -/
def finish (s : Scene) (importer : Importer) (lines : Bool) (p : Progress) :
    Importing WovenFile := do
  let buffer ←
    if 0 < p.2 || ! p.1.references.isEmpty then
      match ← Imports.reconcile importer s.file p.1.references p.1.buffer with
      | .ok b => pure b
      | .error fault => throw (failed s.file reconciler 0 fault)
    else pure p.1.buffer
  if buffer.isEmpty then return ⟨none, p.1.references, p.1.version⟩
  else
    match render s.file lines buffer with
    | .ok text => return ⟨some (atMargin text), p.1.references, p.1.version⟩
    | .error fault => throw (failed s.file annotator 0 fault)

theorem file_eq (importer : Importer) (lines : Bool) :
    file s aspects importer lines =
      match (tasks s aspects).foldlM (perform s) (.ofSource s.file.source, 0) with
      | .ok p => finish s importer lines p
      | .error failure => throw (failed s.file failure.aspect failure.index failure.fault) := by
  rw [← run_eq_foldlM]
  unfold file
  cases (walk s aspects).run (.ofSource s.file.source, 0) s.file.tree <;> rfl

/-- Weaving a file carries out its tasks in order, all of them or up to the first that fails, and
an advice that fails is named. None of the tasks is at or below a node with a leading marker that
asks to ignore it. -/
theorem file_performs (s : Scene) (aspects : List Aspect) (importer : Importer) (lines : Bool) :
    ((∃ p, Performs s (.ofSource s.file.source, 0) (tasks s aspects) p ∧
        file s aspects importer lines = finish s importer lines p) ∨
      ∃ done t rest d applied fault, tasks s aspects = done ++ t :: rest ∧
        Performs s (.ofSource s.file.source, 0) done (d, applied) ∧
        t.advice.apply s t.site d = .error fault ∧
        file s aspects importer lines = throw (failed s.file t.aspect.id t.index fault)) ∧
    ∀ t ∈ tasks s aspects, ∀ n ∈ t.site.node :: t.site.ancestors, n.kind ≠ .sourceFile →
      s.file.decorations.hasLeading n .ignore = false := by
  constructor
  · rw [file_eq]
    cases ran : (tasks s aspects).foldlM (perform s) (.ofSource s.file.source, 0) with
    | ok p => exact .inl ⟨p, performs_of_foldlM_eq_ok ran, rfl⟩
    | error failure =>
      obtain ⟨done, t, rest, d, applied, fault, split, performed, stops, rfl⟩ :=
        performs_of_foldlM_eq_error ran
      exact .inr ⟨done, t, rest, d, applied, fault, split, performed, stops, rfl⟩
  · intro t ht n hn inner
    have kept := isIgnored_of_mem_tasks ht n hn
    simpa [isIgnored, inner] using kept

end Weave

end Interlace
