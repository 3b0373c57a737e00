import Interlace.Config.Loader
import Interlace.Proofs.PostOrder
import Interlace.Proofs.Writing

/-!
# Runs of loading configuration

What a step of a session comes to, and what loading one document does before and after it turns to
what the document extends. No more documents can be met than there are entries on the disk.

## Key results

- `Loader.Loadable`: what a root leads to can be read and found
- `Loader.room_lt`: every document that is met leaves fewer to be met
- `Loader.on_loadDocument_of_not_mem`: loading a document that was not met
-/

namespace Interlace

open Relation DepthFirst

/-! ## Runs -/

namespace Loading

variable {α β : Type}

/-- The result of a step of a session, and what the session remembers after it. -/
def on (x : Loading α) (s : LoaderState) : Except Failure α × LoaderState :=
  x.run.run s

@[simp] theorem on_pure (a : α) (s : LoaderState) : on (pure a) s = (.ok a, s) := rfl

@[simp] theorem on_throw (failure : Failure) (s : LoaderState) :
    on (throw failure : Loading α) s = (.error failure, s) := rfl

theorem on_bind (x : Loading α) (f : α → Loading β) (s : LoaderState) :
    on (x >>= f) s =
      match x.on s with
      | (.ok a, s') => (f a).on s'
      | (.error failure, s') => (.error failure, s') := by
  unfold on
  rw [ExceptT.run_bind, StateT.run_bind]
  rcases x.run.run s with ⟨failure | a, s'⟩ <;> rfl

end Loading

open Loading

namespace Loader

variable (l : Loader)

/-! ## Documents and what they extend -/

/-- The document at a path, if it can be read and is valid. -/
def document? (id : Text) : Option Document :=
  ((l.readText id).bind (Document.parse · id)).toOption

/-- The documents that a document extends, in the order of its entries. -/
def extended (id : Text) : List Text :=
  ((l.document? id).map Document.extended).getD []
    |>.filterMap fun entry => (l.target id entry).toOption

/-- One document leads to another, directly or through others. -/
def Reaches (id other : Text) : Prop :=
  ReflTransGen (Leads l.extended) id other

/-- Everything that a root leads to can be read, is valid, and extends only what can be found. -/
def Loadable (root : Text) : Prop :=
  ∀ id, l.Reaches (l.canonical root) id →
    ∃ d, l.document? id = some d ∧ ∀ entry ∈ d.extended, ∃ target, l.target id entry = .ok target

variable {l}

private theorem document?_eq_some {id : Text} {d : Document} (h : l.document? id = some d) :
    ∃ text, l.readText id = .ok text ∧ Document.parse text id = .ok d := by
  obtain ⟨text, read, parsed⟩ := bind_eq_ok_iff.1 (toOption_eq_some_iff.1 h)
  exact ⟨text, read, parsed⟩

/-- What is extended has a path that was made canonical. -/
private theorem exists_canonical_of_leads {id other : Text} (h : Leads l.extended id other) :
    ∃ path, other = l.canonical path := by
  obtain ⟨entry, -, found⟩ := List.mem_filterMap.1 h
  rw [toOption_eq_some_iff] at found
  unfold target at found
  split at found
  · cases found
    exact ⟨_, rfl⟩
  · split at found
    · cases found
      exact ⟨_, rfl⟩
    · cases found

theorem exists_canonical_of_reaches {root id : Text} (h : l.Reaches (l.canonical root) id) :
    ∃ path, id = l.canonical path := by
  cases h with
  | refl => exact ⟨root, rfl⟩
  | tail _ last => exact exists_canonical_of_leads last

/-- A root can be loaded if a list that holds it also holds everything that its documents extend,
and all of these can be read and found. -/
theorem loadable_of_listing {root : Text} (known : List Text) (top : l.canonical root ∈ known)
    (listed : ∀ id ∈ known, (l.document? id).any fun d =>
      d.extended.all fun entry => (l.target id entry).toOption.any known.contains) :
    l.Loadable root := by
  have opened : ∀ id ∈ known, ∃ d, l.document? id = some d ∧
      ∀ entry ∈ d.extended, ∃ target ∈ known, l.target id entry = .ok target := by
    intro id hid
    obtain ⟨d, stands, all⟩ := (Option.any_eq_true _ _).1 (listed id hid)
    refine ⟨d, stands, fun entry he => ?_⟩
    obtain ⟨target, found, ht⟩ := (Option.any_eq_true _ _).1 (List.all_eq_true.1 all entry he)
    exact ⟨target, List.contains_iff_mem.1 ht, toOption_eq_some_iff.1 found⟩
  intro id reached
  -- The list is closed under extension, so all that the root leads to is on it.
  have mem : id ∈ known := by
    induction reached with
    | refl => exact top
    | @tail a b _ leads ih =>
      obtain ⟨d, stands, found⟩ := opened a ih
      obtain ⟨entry, he, named⟩ := List.mem_filterMap.1 leads
      rw [stands] at he
      obtain ⟨target, ht, same⟩ := found entry he
      rw [same] at named
      cases named
      exact ht
  obtain ⟨d, stands, found⟩ := opened id mem
  exact ⟨d, stands, fun entry he => (found entry he).imp fun _ h => h.2⟩

/-! ## How many documents there can be -/

/-- The spellings of everything on the disk. -/
def spellings (l : Loader) : List Text :=
  l.disk.entries.map fun e => Disk.spell e.1

/-- A document with a canonical path is something on the disk. -/
theorem mem_spellings {path : Text} {d : Document} (h : l.document? (l.canonical path) = some d) :
    l.canonical path ∈ l.spellings := by
  obtain ⟨text, read, -⟩ := document?_eq_some h
  obtain ⟨contents, read⟩ : ∃ contents, l.disk.read (l.canonical path) = .ok contents := by
    unfold readText at read
    dsimp only at read
    split at read
    · cases read
    · rename_i contents found
      exact ⟨contents, found⟩
  obtain ⟨⟨place, entry⟩, found, -⟩ := bind_eq_ok_iff.1 read
  unfold canonical at read found ⊢
  cases named : l.disk.canonical path with
  | error fault =>
    -- A path without a canonical form names nothing, and could not have been read.
    rw [named] at found
    change l.disk.lookup path = _ at found
    unfold Disk.canonical at named
    rw [found] at named
    cases named
  | ok spelled =>
    obtain ⟨⟨location, entry⟩, found, same⟩ := bind_eq_ok_iff.1 named
    cases same
    rw [named] at read
    change l.disk.read (Disk.spell location) = _ at read
    have stands := (Disk.lookup_eq_ok_iff.1 found).2
    by_cases root : location = []
    · -- The root is a folder.
      subst root
      cases read
    · unfold Disk.get? at stands
      rw [if_neg root] at stands
      obtain ⟨e, he, -⟩ := Option.map_eq_some_iff.1 stands
      have same : e.1 = location := by simpa using List.find?_some he
      exact List.mem_map.2 ⟨e, List.mem_of_find?_eq_some he, by rw [same]; rfl⟩

/-- The number of spellings that a session has not met. -/
def room (l : Loader) (s : LoaderState) : Nat :=
  (l.spellings.toFinset \ s.loaded.toFinset).card

theorem room_le {s s' : LoaderState} (h : ∀ x ∈ s.loaded, x ∈ s'.loaded) :
    l.room s' ≤ l.room s := by
  refine Finset.card_le_card (Finset.sdiff_subset_sdiff (Finset.Subset.refl _) fun x hx => ?_)
  rw [List.mem_toFinset] at hx ⊢
  exact h x hx

theorem room_lt {s : LoaderState} {id : Text} (known : id ∈ l.spellings) (new : id ∉ s.loaded)
    (graph : ExtendsGraph) : l.room ⟨graph, id :: s.loaded⟩ < l.room s := by
  refine Finset.card_lt_card ⟨fun x hx => ?_, fun within => ?_⟩
  · simp only [Finset.mem_sdiff, List.mem_toFinset, List.mem_cons, not_or] at hx ⊢
    exact ⟨hx.1, hx.2.2⟩
  · have here : id ∈ l.spellings.toFinset \ s.loaded.toFinset := by simp [known, new]
    have := within here
    simp at this

/-! ## One level of the recursion -/

/-- Follows one extension: the edge is recorded first, and a circle ends the load. -/
def loadTarget (l : Loader) (fuel : Nat) (id : Text) (config : LoadedConfig) (target : Text) :
    Loading LoadedConfig := do
  let (circle, graph) := (← get).graph.addEdge id target
  modify fun s => { s with graph := graph }
  match circle with
  | some ids => throw (.cycle ids)
  | none => l.loadDocument fuel target config

theorem on_loadTarget (l : Loader) (fuel : Nat) (id : Text) (config : LoadedConfig)
    (target : Text) (s : LoaderState) :
    (l.loadTarget fuel id config target).on s =
      match s.graph.addEdge id target with
      | (some ids, graph) => (.error (.cycle ids), { s with graph := graph })
      | (none, graph) => (l.loadDocument fuel target config).on { s with graph := graph } := by
  have opened : (l.loadTarget fuel id config target).on s =
      (match s.graph.addEdge id target with
      | (circle, graph) => do
        modify fun s => { s with graph := graph }
        match circle with
        | some ids => throw (.cycle ids)
        | none => l.loadDocument fuel target config : Loading LoadedConfig).on s := rfl
  rw [opened]
  rcases s.graph.addEdge id target with ⟨_ | ids, graph⟩ <;> rfl

/-- One level of loading a document. -/
theorem loadDocument_succ (l : Loader) (fuel : Nat) (id : Text) (config : LoadedConfig) :
    l.loadDocument (fuel + 1) id config = do
      if (← get).loaded.contains id then return config
      else
        modify fun s => { s with loaded := id :: s.loaded }
        let text ← loadDocument.liftExcept (l.readText id)
        let document ← loadDocument.liftExcept (Document.parse text id)
        let config ← document.extended.foldlM
          (fun config entry => do
            let target ← loadDocument.liftExcept (l.target id entry)
            l.loadTarget fuel id config target)
          config
        return ⟨config.documents ++ [(id, document.about)], config.aspects ++ document.aspects⟩ :=
  rfl

/-- A document that was met is not loaded again. -/
theorem on_loadDocument_of_mem (l : Loader) (fuel : Nat) {id : Text} {s : LoaderState}
    (old : id ∈ s.loaded) (config : LoadedConfig) :
    (l.loadDocument (fuel + 1) id config).on s = (.ok config, s) := by
  rw [loadDocument_succ, on_bind]
  show Loading.on (if s.loaded.contains id then _ else _) s = _
  rw [if_pos (List.contains_iff_mem.2 old)]
  rfl

/-- Following the entries of a document is following the documents that they name. -/
private theorem foldlM_entries {l : Loader} (fuel : Nat) {id : Text} {entries : List Text}
    (found : ∀ entry ∈ entries, ∃ target, l.target id entry = .ok target)
    (config : LoadedConfig) :
    entries.foldlM
      (fun config entry => do
        let target ← loadDocument.liftExcept (l.target id entry)
        l.loadTarget fuel id config target) config =
    (entries.filterMap fun entry => (l.target id entry).toOption).foldlM
      (l.loadTarget fuel id) config := by
  induction entries generalizing config with
  | nil => rfl
  | cons entry entries ih =>
    obtain ⟨⟨target, first⟩, others⟩ := List.forall_mem_cons.1 found
    have named : (l.target id entry).toOption = some target := by rw [first]; rfl
    rw [List.foldlM_cons, List.filterMap_cons, named]
    dsimp only
    rw [List.foldlM_cons, first]
    exact congrArg (l.loadTarget fuel id config target >>= ·) (funext fun next => ih others next)

/-- A document that was not met is recorded as met, then everything it extends is followed, and
then the document itself is added. -/
theorem on_loadDocument_of_not_mem {l : Loader} (fuel : Nat) {id : Text} {s : LoaderState}
    {d : Document} (new : id ∉ s.loaded) (stands : l.document? id = some d)
    (found : ∀ entry ∈ d.extended, ∃ target, l.target id entry = .ok target)
    (config : LoadedConfig) :
    (l.loadDocument (fuel + 1) id config).on s =
      match ((l.extended id).foldlM (l.loadTarget fuel id) config).on
        { s with loaded := id :: s.loaded } with
      | (.ok c, s') => (.ok ⟨c.documents ++ [(id, d.about)], c.aspects ++ d.aspects⟩, s')
      | (.error failure, s') => (.error failure, s') := by
  obtain ⟨text, read, parsed⟩ := document?_eq_some stands
  have listed : l.extended id = d.extended.filterMap fun entry => (l.target id entry).toOption := by
    rw [extended, stands]
    rfl
  rw [listed, ← foldlM_entries fuel found config, loadDocument_succ, on_bind]
  show Loading.on (if s.loaded.contains id then _ else _) s = _
  rw [if_neg (fun old => new (List.contains_iff_mem.1 old)), read]
  show Loading.on (loadDocument.liftExcept (Document.parse text id) >>= _) _ = _
  rw [parsed]
  show Loading.on (List.foldlM _ config d.extended >>= _) _ = _
  rw [on_bind]
  generalize Loading.on (List.foldlM _ config d.extended) _ = r
  rcases r with ⟨failure | c, s'⟩ <;> rfl

end Loader

end Interlace
