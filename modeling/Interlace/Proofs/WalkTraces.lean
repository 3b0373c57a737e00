import Interlace.Proofs.Walking

/-!
# The calls of a walk

What a walk does at the nodes can change its state in any way and stop it anywhere, so the order of
its calls matters, and so do the ancestors that it is given. They are told here by recursion on the
tree, root first, and read off a walk by one that also notes its calls.

## Key results

- `Walk.trace`: the calls of the traversal by recursion, and how it ends
- `Walk.visit_noting`: a walk by recursion makes these calls
- `Walk.run_traces`: the walk with a cursor makes the same calls and ends in the same way
-/

namespace Interlace.Syntax

namespace Walk

/-- A call of what a walk does at a node, with the ancestors of the node, root first. -/
inductive Call where
  | enter (node : Tree) (ancestors : List Tree)
  | leave (node : Tree) (ancestors : List Tree)

/-- The calls of a traversal in order, and the state it ends in, or what stopped it where. -/
structure Trace (σ ε : Type) where
  calls : List Call
  result : Except (ε × σ) σ

variable {σ ε : Type}

namespace Trace

/-- Goes on from the state that a trace ends in, unless it was stopped. -/
def andThen (first : Trace σ ε) (next : σ → Trace σ ε) : Trace σ ε :=
  match first.result with
  | .ok state => ⟨first.calls ++ (next state).calls, (next state).result⟩
  | .error stop => ⟨first.calls, .error stop⟩

/-- How a walk ends that notes the calls of a trace behind others. -/
def notedAfter (calls : List Call) (trace : Trace σ ε) :
    Except (ε × List Call × σ) (List Call × σ) :=
  match trace.result with
  | .ok state => .ok (calls ++ trace.calls, state)
  | .error (stop, state) => .error (stop, calls ++ trace.calls, state)

private theorem result_andThen (first : Trace σ ε) (next : σ → Trace σ ε) :
    (first.andThen next).result = first.result >>= fun state => (next state).result := by
  obtain ⟨calls, result⟩ := first
  cases result <;> rfl

/-- Calls are noted one part of a trace after the other. -/
private theorem notedAfter_andThen (calls : List Call) (first : Trace σ ε) (next : σ → Trace σ ε) :
    (first.andThen next).notedAfter calls =
      first.notedAfter calls >>= fun noted => (next noted.2).notedAfter noted.1 := by
  obtain ⟨before, result⟩ := first
  cases result with
  | error stop => rfl
  | ok state =>
    show notedAfter calls ⟨before ++ (next state).calls, (next state).result⟩ =
      (next state).notedAfter (calls ++ before)
    unfold notedAfter
    rw [List.append_assoc]

end Trace

variable (w : Walk σ ε)

mutual

/-- Traverses a tree by recursion: enters the node and, unless it is pruned, goes through the
children from left to right and leaves the node. -/
def trace (ancestors : List Tree) : σ → Tree → Trace σ ε
  | state, .node k f s e cs =>
    let t : Tree := .node k f s e cs
    match w.enter state ⟨t, ancestors.reverse⟩ with
    | (.prune, state) => ⟨[.enter t ancestors], .ok state⟩
    | (.descend, state) =>
      Trace.andThen ⟨[.enter t ancestors], .ok state⟩ fun state =>
        (traceAll (ancestors ++ [t]) state cs).andThen fun state =>
          ⟨[.leave t ancestors], w.leave state ⟨t, ancestors.reverse⟩⟩

/-- Traverses siblings by recursion, from left to right. -/
def traceAll (ancestors : List Tree) : σ → List Tree → Trace σ ε
  | state, [] => ⟨[], .ok state⟩
  | state, t :: ts => (trace ancestors state t).andThen fun state => traceAll ancestors state ts

end

/-- The walk that also notes its calls. -/
def noting : Walk (List Call × σ) ε where
  enter noted site :=
    let (choice, state) := w.enter noted.2 site
    (choice, noted.1 ++ [.enter site.node site.ancestors.reverse], state)
  leave noted site :=
    let calls := noted.1 ++ [.leave site.node site.ancestors.reverse]
    match w.leave noted.2 site with
    | .ok state => .ok (calls, state)
    | .error (stop, state) => .error (stop, calls, state)

private theorem noting_enter (calls : List Call) (state : σ) (t : Tree) (above : List Tree) :
    w.noting.enter (calls, state) ⟨t, above⟩ =
      ((w.enter state ⟨t, above⟩).1, calls ++ [.enter t above.reverse],
        (w.enter state ⟨t, above⟩).2) :=
  rfl

private theorem noting_leave (calls : List Call) (state : σ) (t : Tree) (above : List Tree) :
    w.noting.leave (calls, state) ⟨t, above⟩ =
      Trace.notedAfter calls ⟨[.leave t above.reverse], w.leave state ⟨t, above⟩⟩ :=
  rfl

mutual

/-- The traversal ends as the walk by recursion does. -/
private theorem result_trace (above : List Tree) (state : σ) :
    (t : Tree) → (w.trace above.reverse state t).result = w.visit above state t
  | .node k f s e cs => by
    rw [trace, visit, List.reverse_reverse]
    match w.enter state ⟨.node k f s e cs, above⟩ with
    | (.prune, inside) => rfl
    | (.descend, inside) =>
      have below := result_traceAll (.node k f s e cs :: above) inside cs
      -- Nearest first the node stands before its own ancestors, root first behind them.
      rw [List.reverse_cons] at below
      dsimp only
      rw [Trace.result_andThen]
      show (Trace.andThen _ _).result = _
      rw [Trace.result_andThen, below]
      cases w.visitAll (.node k f s e cs :: above) inside cs <;> rfl

/-- The traversal of siblings ends as the walk by recursion does. -/
private theorem result_traceAll (above : List Tree) (state : σ) :
    (ts : List Tree) → (w.traceAll above.reverse state ts).result = w.visitAll above state ts
  | [] => by rw [traceAll, visitAll]
  | t :: ts => by
    rw [traceAll, visitAll_cons, Trace.result_andThen, result_trace above state t]
    exact congrArg _ (funext fun after => result_traceAll above after ts)

end

mutual

/-- A walk by recursion makes the calls of the traversal. -/
theorem visit_noting (above : List Tree) (calls : List Call) (state : σ) :
    (t : Tree) → w.noting.visit above (calls, state) t =
      (w.trace above.reverse state t).notedAfter calls
  | .node k f s e cs => by
    rw [trace, visit, List.reverse_reverse, noting_enter]
    match w.enter state ⟨.node k f s e cs, above⟩ with
    | (.prune, inside) => rfl
    | (.descend, inside) =>
      have below := visitAll_noting (.node k f s e cs :: above)
        (calls ++ [.enter (.node k f s e cs) above.reverse]) inside cs
      rw [List.reverse_cons] at below
      dsimp only
      rw [below, Trace.notedAfter_andThen]
      show _ = (Trace.andThen _ _).notedAfter _
      rw [Trace.notedAfter_andThen]
      -- A stop below the node is passed on; otherwise the node is left behind its children.
      cases Trace.notedAfter _ (w.traceAll (above.reverse ++ [.node k f s e cs]) inside cs) with
      | error stop => rfl
      | ok noted => exact w.noting_leave noted.1 noted.2 _ above

/-- A walk of siblings by recursion makes the calls of the traversal. -/
private theorem visitAll_noting (above : List Tree) (calls : List Call) (state : σ) :
    (ts : List Tree) → w.noting.visitAll above (calls, state) ts =
      (w.traceAll above.reverse state ts).notedAfter calls
  | [] => by
    rw [traceAll, visitAll]
    show _ = Except.ok (calls ++ [], state)
    rw [List.append_nil]
  | t :: ts => by
    rw [traceAll, visitAll_cons, Trace.notedAfter_andThen, visit_noting above calls state t]
    exact congrArg _ (funext fun noted => visitAll_noting above noted.1 noted.2 ts)

end

/-- The walk with a cursor ends as the traversal by recursion does, and up to there it makes the
same calls, in the same order and with the same ancestors. -/
theorem run_traces (state : σ) (t : Tree) :
    w.run state t = (w.trace [] state t).result ∧
      w.noting.run ([], state) t = (w.trace [] state t).notedAfter [] := by
  have ends := w.result_trace [] state t
  have calls := w.visit_noting [] [] state t
  exact ⟨(w.run_eq_visit state t).trans ends.symm, (w.noting.run_eq_visit _ t).trans calls⟩

end Walk

end Interlace.Syntax
