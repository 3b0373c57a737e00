import Interlace.Config.Graph
import Mathlib.Data.List.Chain
import Mathlib.Data.List.Nodup
import Mathlib.Data.List.Perm.Subperm
import Mathlib.Logic.Relation

/-!
# Searching the extends graph

The search for a path goes breadth first: it finds a path if there is one, and the path that it
finds is a shortest one. A trail is a path read backwards, as the search keeps it. At any time
the trails in the queue are shortest ones, their lengths ascend by at most one, and everything
that was seen and is no longer in the queue leads only to what was seen.

## Key results

- `ExtendsGraph.Searching.advance`: one step of the search keeps its invariant
- `ExtendsGraph.path?_reports`: the path that is found is a shortest one and repeats nothing, and
  if none is found, there is none
-/

namespace Interlace.ExtendsGraph

open Relation

/-- An edge is recorded. -/
def Extends (g : ExtendsGraph) (a b : Text) : Prop :=
  (a, b) ∈ g.edges

private theorem mem_targets {g : ExtendsGraph} {a b : Text} : b ∈ g.targets a ↔ g.Extends a b := by
  simp [targets, Extends]

/-- No edge is recorded twice, and both ends of every edge are among the documents. -/
structure Tidy (g : ExtendsGraph) : Prop where
  nodup : g.edges.Nodup
  known : ∀ a b, g.Extends a b → a ∈ g.nodes ∧ b ∈ g.nodes

/-- In a tidy graph, a document lists nothing twice. -/
private theorem Tidy.nodup_targets {g : ExtendsGraph} (h : g.Tidy) (a : Text) :
    (g.targets a).Nodup := by
  refine List.Nodup.map_on ?_ (h.nodup.filter _)
  rintro ⟨x, b⟩ hx ⟨y, c⟩ hy same
  simp only [List.mem_filter, decide_eq_true_eq] at hx hy
  simp only at same
  rw [hx.2, hy.2, same]

/-! ## Trails -/

/-- A walk along edges from `start`, the last document first. -/
inductive Trail (g : ExtendsGraph) (start : Text) : List Text → Prop
  | start : Trail g start [start]
  | extend {a b : Text} {walk : List Text} :
      Trail g start (a :: walk) → g.Extends a b → Trail g start (b :: a :: walk)

/-- A trail read forwards starts at its start and follows an edge at every step. -/
theorem trail_iff {g : ExtendsGraph} {start : Text} {walk : List Text} :
    g.Trail start walk ↔
      walk.reverse.head? = some start ∧ walk.reverse.IsChain g.Extends := by
  -- A trail is stored backwards, so it is read from its end.
  rw [List.head?_reverse, List.isChain_reverse]
  constructor
  · intro trail
    induction trail with
    | start => exact ⟨rfl, .singleton _⟩
    | extend _ edge ih => exact ⟨ih.1, .cons_cons edge ih.2⟩
  · rintro ⟨first, chain⟩
    induction walk with
    | nil => cases first
    | cons b walk ih =>
      cases chain with
      | singleton =>
        cases first
        exact .start
      | cons_cons edge chain => exact .extend (ih first chain) edge

/-- What a document leads to is the end of a trail from it. -/
private theorem exists_trail {g : ExtendsGraph} {start a : Text}
    (h : ReflTransGen g.Extends start a) : ∃ walk, g.Trail start (a :: walk) := by
  induction h with
  | refl => exact ⟨[], .start⟩
  | tail _ edge ih =>
    obtain ⟨walk, trail⟩ := ih
    exact ⟨_, .extend trail edge⟩

theorem Trail.reaches {g : ExtendsGraph} {start a : Text} {walk : List Text}
    (h : g.Trail start (a :: walk)) : ReflTransGen g.Extends start a := by
  generalize same : a :: walk = trail at h
  induction h generalizing a walk with
  | start =>
    cases same
    exact .refl
  | extend _ edge ih =>
    cases same
    exact (ih rfl).tail edge

/-! ## The state of a search -/

/-- The document was seen, and what it extends was looked at. -/
def Passed (queue : List (List Text)) (seen : List Text) (a : Text) : Prop :=
  a ∈ seen ∧ ∀ walk ∈ queue, walk.head? ≠ some a

/-- What holds of the queue and of the seen documents at every step of a search. -/
structure Searching (g : ExtendsGraph) (start goal : Text) (queue : List (List Text))
    (seen : List Text) : Prop where
  start_mem : start ∈ seen
  nodup : seen.Nodup
  known : ∀ a ∈ seen, a ∈ g.nodes
  trails : ∀ walk ∈ queue, g.Trail start walk
  simple : ∀ walk ∈ queue, walk.Nodup ∧ ∀ a ∈ walk, a ∈ seen
  /-- A document that was passed is not the goal, and it leads only to what was seen. -/
  passed : ∀ a, Passed queue seen a → a ≠ goal ∧ ∀ b, g.Extends a b → b ∈ seen
  shortest : ∀ walk ∈ queue, ∀ other, g.Trail start other → other.head? = walk.head? →
    walk.length ≤ other.length
  ascending : queue.Pairwise fun first second => first.length ≤ second.length
  level : ∀ first ∈ queue, ∀ second ∈ queue, second.length ≤ first.length + 1

namespace Searching

variable {g : ExtendsGraph} {start goal current : Text} {walk : List Text}
  {queue : List (List Text)} {seen : List Text}

theorem init (g : ExtendsGraph) {start : Text} (known : start ∈ g.nodes) (goal : Text) :
    g.Searching start goal [[start]] [start] where
  start_mem := List.mem_singleton_self start
  nodup := List.nodup_singleton start
  known := by simpa using known
  trails := by simpa using Trail.start
  simple := by simp
  passed := by
    rintro a ⟨seen, unqueued⟩
    rw [List.mem_singleton] at seen
    exact absurd (seen ▸ rfl) (unqueued [start] List.mem_cons_self)
  shortest := by
    intro walk hw other trail _
    rw [List.mem_singleton] at hw
    cases trail <;> simp [hw]
  ascending := List.pairwise_singleton ..
  level := by simp

/-- The end of a trail that is shorter than all trails in the queue was passed. -/
private theorem passed_of_short (h : g.Searching start goal queue seen) {a : Text}
    {trail : List Text} (ht : g.Trail start (a :: trail))
    (short : ∀ walk ∈ queue, trail.length + 1 < walk.length) : Passed queue seen a := by
  generalize same : a :: trail = whole at ht
  induction ht generalizing a trail with
  | start =>
    cases same
    refine ⟨h.start_mem, fun walk hw first => ?_⟩
    have := h.shortest walk hw [start] .start first.symm
    have := short walk hw
    simp at *
    omega
  | @extend b c back before edge ih =>
    cases same
    -- What comes before on the trail was passed, so that its successor was seen.
    have previous : Passed queue seen b := by
      refine ih (fun walk hw => ?_) rfl
      have := short walk hw
      simp only [List.length_cons] at this
      omega
    refine ⟨(h.passed b previous).2 c edge, fun walk hw first => ?_⟩
    have := h.shortest walk hw _ (before.extend edge) first.symm
    have := short walk hw
    simp only [List.length_cons] at *
    omega

/-! ### One step -/

/-- What a document extends and was not seen. -/
def fresh (g : ExtendsGraph) (seen : List Text) (a : Text) : List Text :=
  (g.targets a).filter (! seen.contains ·)

private theorem mem_fresh {a b : Text} : b ∈ fresh g seen a ↔ g.Extends a b ∧ b ∉ seen := by
  simp [fresh, mem_targets]

/-- The queue after a step. -/
def queued (g : ExtendsGraph) (queue : List (List Text)) (seen : List Text) (current : Text)
    (walk : List Text) : List (List Text) :=
  queue ++ (fresh g seen current).map (· :: current :: walk)

private theorem mem_queued {trail : List Text} : trail ∈ queued g queue seen current walk ↔
    trail ∈ queue ∨ ∃ b ∈ fresh g seen current, b :: current :: walk = trail := by
  simp [queued]

/-- A trail to a document that was not seen is longer than the first one in the queue. -/
private theorem lt_length_of_fresh (h : g.Searching start goal ((current :: walk) :: queue) seen)
    {b : Text} {back : List Text} (unseen : b ∉ seen) (trail : g.Trail start (b :: back)) :
    walk.length < back.length := by
  by_contra short
  cases trail with
  | start => exact unseen h.start_mem
  | @extend c _ back before edge =>
    -- What comes before `b` was passed, so that `b` was seen.
    have previous : Passed ((current :: walk) :: queue) seen c := by
      refine h.passed_of_short before (List.forall_mem_cons.2 ⟨?_, fun other ho => ?_⟩)
      · simp only [List.length_cons] at *
        omega
      · have := (List.pairwise_cons.1 h.ascending).1 other ho
        simp only [List.length_cons] at *
        omega
    exact unseen ((h.passed c previous).2 b edge)

/-- Only the document at the end of the first trail is newly passed. -/
private theorem passed_of_queued {a : Text} (other : a ≠ current)
    (h : Passed (queued g queue seen current walk) (seen ++ fresh g seen current) a) :
    Passed ((current :: walk) :: queue) seen a := by
  obtain ⟨seenNow, unqueued⟩ := h
  have old : a ∉ fresh g seen current := fun ha =>
    unqueued _ (mem_queued.2 (.inr ⟨a, ha, rfl⟩)) rfl
  refine ⟨(List.mem_append.1 seenNow).resolve_right old, List.forall_mem_cons.2 ⟨?_, ?_⟩⟩
  · simpa using Ne.symm other
  · exact fun trail ht => unqueued trail (mem_queued.2 (.inl ht))

/-- The queue holds trails of at most two lengths, the shorter ones first. -/
private theorem level_queued (h : g.Searching start goal ((current :: walk) :: queue) seen) :
    (queued g queue seen current walk).Pairwise (fun first second =>
      first.length ≤ second.length) ∧
    ∀ trail ∈ queued g queue seen current walk,
      walk.length + 1 ≤ trail.length ∧ trail.length ≤ walk.length + 2 := by
  have later := List.pairwise_cons.1 h.ascending
  have within : ∀ trail ∈ queue, trail.length ≤ walk.length + 2 := fun trail ht =>
    h.level _ List.mem_cons_self trail (List.mem_cons_of_mem _ ht)
  refine ⟨List.pairwise_append.2 ⟨later.2, ?_, ?_⟩, fun trail ht => ?_⟩
  · exact List.pairwise_map.2 (List.pairwise_of_forall fun _ _ => Nat.le_refl _)
  · intro trail ht _ new
    obtain ⟨b, -, rfl⟩ := List.mem_map.1 new
    exact within trail ht
  · rcases mem_queued.1 ht with ht | ⟨b, -, rfl⟩
    · exact ⟨later.1 trail ht, within trail ht⟩
    · simp

/-- A step of the search: the first trail is taken off the queue, and its extensions to
documents that were not seen are put at the end. -/
theorem advance (tidy : g.Tidy) (h : g.Searching start goal ((current :: walk) :: queue) seen)
    (other : current ≠ goal) :
    g.Searching start goal (queued g queue seen current walk) (seen ++ fresh g seen current) := by
  obtain ⟨distinct, inside⟩ := h.simple _ List.mem_cons_self
  obtain ⟨ascending, levels⟩ := h.level_queued
  -- What was queued before keeps its properties, and what is new extends the trail taken off.
  refine ⟨List.mem_append_left _ h.start_mem, ?_, ?_, ?_, ?_, ?_, ?_, ascending, ?_⟩
  · refine List.Nodup.append h.nodup ((tidy.nodup_targets current).filter _) fun a old new => ?_
    exact (mem_fresh.1 new).2 old
  · refine List.forall_mem_append.2 ⟨h.known, fun a ha => ?_⟩
    exact (tidy.known _ _ (mem_fresh.1 ha).1).2
  · intro trail ht
    rcases mem_queued.1 ht with ht | ⟨b, hb, rfl⟩
    · exact h.trails trail (List.mem_cons_of_mem _ ht)
    · exact (h.trails _ List.mem_cons_self).extend (mem_fresh.1 hb).1
  · intro trail ht
    rcases mem_queued.1 ht with ht | ⟨b, hb, rfl⟩
    · have old := h.simple trail (List.mem_cons_of_mem _ ht)
      exact ⟨old.1, fun a ha => List.mem_append_left _ (old.2 a ha)⟩
    · refine ⟨List.nodup_cons.2 ⟨fun again => (mem_fresh.1 hb).2 (inside b again), distinct⟩, ?_⟩
      refine List.forall_mem_cons.2 ⟨List.mem_append_right _ hb, fun a ha => ?_⟩
      exact List.mem_append_left _ (inside a ha)
  · intro a passed
    by_cases same : a = current
    · subst same
      refine ⟨other, fun b edge => List.mem_append.2 ?_⟩
      by_cases known : b ∈ seen
      · exact .inl known
      · exact .inr (mem_fresh.2 ⟨edge, known⟩)
    · obtain ⟨notGoal, closed⟩ := h.passed a (passed_of_queued same passed)
      exact ⟨notGoal, fun b edge => List.mem_append_left _ (closed b edge)⟩
  · intro trail ht rival found same
    rcases mem_queued.1 ht with ht | ⟨b, hb, rfl⟩
    · exact h.shortest trail (List.mem_cons_of_mem _ ht) rival found same
    · obtain ⟨back, rfl⟩ := List.head?_eq_some_iff.1 same
      have := h.lt_length_of_fresh (mem_fresh.1 hb).2 found
      simp only [List.length_cons]
      omega
  · intro first hf second hs
    have := levels first hf
    have := levels second hs
    omega

end Searching

/-! ## What a search finds -/

/-- A path between two documents, both ends included. -/
structure IsPath (g : ExtendsGraph) (start goal : Text) (path : List Text) : Prop where
  head : path.head? = some start
  last : path.getLast? = some goal
  chain : path.IsChain g.Extends

/-- A path read backwards is a trail. -/
theorem IsPath.trail {g : ExtendsGraph} {start goal : Text} {path : List Text}
    (h : g.IsPath start goal path) : g.Trail start path.reverse := by
  rw [trail_iff, List.reverse_reverse]
  exact ⟨h.head, h.chain⟩

theorem IsPath.reaches {g : ExtendsGraph} {start goal : Text} {path : List Text}
    (h : g.IsPath start goal path) : ReflTransGen g.Extends start goal := by
  have last : path.reverse.head? = some goal := by simpa using h.last
  obtain ⟨walk, backwards⟩ := List.head?_eq_some_iff.1 last
  exact Trail.reaches (backwards ▸ h.trail)

/-- What a search reports: a shortest path that repeats nothing, or that there is no path. -/
def Reports (g : ExtendsGraph) (start goal : Text) : Option (List Text) → Prop
  | some path => g.IsPath start goal path ∧ path.Nodup ∧
      ∀ other, g.IsPath start goal other → path.length ≤ other.length
  | none => ¬ ReflTransGen g.Extends start goal

/-- A search with enough fuel tells the truth. Every step takes one trail off the queue, and no
more trails are ever queued than there are documents. -/
private theorem search_reports {g : ExtendsGraph} (tidy : g.Tidy) {start goal : Text} (fuel : Nat)
    {queue : List (List Text)} {seen : List Text} (h : g.Searching start goal queue seen)
    (enough : fuel + seen.length = g.nodes.length + 1 + queue.length) :
    g.Reports start goal (g.search goal fuel queue seen) := by
  induction fuel generalizing queue seen with
  | zero =>
    have := (h.nodup.subperm h.known).length_le
    omega
  | succ fuel ih =>
    -- With nothing left to try, all that can be reached was passed.
    cases queue with
    | nil =>
      rw [search]
      · intro reached
        obtain ⟨walk, trail⟩ := exists_trail reached
        exact (h.passed goal (h.passed_of_short trail (by simp))).1 rfl
      · simp
    | cons front queue =>
      have trail := h.trails front List.mem_cons_self
      obtain ⟨current, walk, rfl⟩ : ∃ current walk, front = current :: walk := by
        cases trail <;> exact ⟨_, _, rfl⟩
      rw [search, List.headD_cons]
      dsimp only
      split
      · rename_i arrived
        obtain ⟨first, chain⟩ := trail_iff.1 trail
        refine ⟨⟨first, by simp [arrived], chain⟩,
          List.nodup_reverse.2 (h.simple _ List.mem_cons_self).1, fun other path => ?_⟩
        have := h.shortest _ List.mem_cons_self _ path.trail (by simp [path.last, arrived])
        simpa using this
      · rename_i other
        refine ih (h.advance tidy other) ?_
        simp only [List.length_cons, List.length_append, List.length_map] at *
        omega

/-- A search for a path tells the truth. -/
theorem path?_reports {g : ExtendsGraph} (tidy : g.Tidy) {start : Text} (known : start ∈ g.nodes)
    (goal : Text) : g.Reports start goal (g.path? start goal) :=
  search_reports tidy _ (Searching.init g known goal) (by simp)

end Interlace.ExtendsGraph
