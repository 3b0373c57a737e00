import Interlace.Proofs.MergeOrder

/-!
# What a failed load leaves behind

A document counts as met from the moment a session turns to it, before it is read. A load that
fails therefore leaves its root, and every document on the way to the fault, marked as met; and
what was met is never read again. So no failure can come twice: the next load of the same root
succeeds, and merges nothing.

## Key results

- `Loader.run_loadDocument`: what loading one document does to what a session met
- `Loader.load_again_of_error`: every load after a failed one passes over what the failed one met
-/

namespace Interlace

open Relation DepthFirst Loading

namespace Loader

/-! ## What a load meets and what it merges -/

/-- What a part of a load, for what `top` leads to, makes of a configuration and a session:
documents are only added to those that were met, and those that are merged are new ones. -/
structure Run (l : Loader) (top : Text) (config : LoadedConfig) (s : LoaderState)
    (result : Except Failure LoadedConfig × LoaderState) : Prop where
  kept : ∀ id ∈ s.loaded, id ∈ result.2.loaded
  met : ∀ id ∈ result.2.loaded, id ∈ s.loaded ∨ l.Reaches top id
  merged : ∀ config', result.1 = .ok config' →
    ∃ order, config' = l.merge config order ∧
      ∀ id ∈ order, id ∉ s.loaded ∧ id ∈ result.2.loaded

namespace Run

variable {l : Loader} {top : Text} {config : LoadedConfig} {s : LoaderState}

/-- Nothing was done. -/
theorem nothing : l.Run top config s (.ok config, s) where
  kept := fun _ met => met
  met := fun _ met => .inl met
  merged := by
    rintro _ ⟨⟩
    exact ⟨[], (l.merge_nil config).symm, nofun⟩

/-- The load ended, and only the graph may have changed. -/
theorem failed {failure : Failure} {s' : LoaderState} (same : s'.loaded = s.loaded) :
    l.Run top config s (.error failure, s') where
  kept := fun _ met => same ▸ met
  met := fun _ met => .inl (same ▸ met)
  merged := nofun

/-- One part of a load goes on where another one ended. -/
theorem trans {between : LoadedConfig} {s' : LoaderState}
    {result : Except Failure LoadedConfig × LoaderState}
    (first : l.Run top config s (.ok between, s')) (second : l.Run top between s' result) :
    l.Run top config s result where
  kept := fun id met => second.kept id (first.kept id met)
  met := by
    intro id met
    rcases second.met id met with before | reached
    · exact first.met id before
    · exact .inr reached
  merged := by
    intro config' ends
    obtain ⟨order, rfl, new⟩ := first.merged _ rfl
    -- What the second part loads was not loaded by the first, so nothing is loaded twice.
    obtain ⟨more, rfl, newer⟩ := second.merged _ ends
    refine ⟨order ++ more, (l.merge_append config order more).symm, fun id listed => ?_⟩
    rcases List.mem_append.1 listed with listed | listed
    · exact ⟨(new id listed).1, second.kept id (new id listed).2⟩
    · exact ⟨fun old => (newer id listed).1 (first.kept id old), (newer id listed).2⟩

/-- What is seen from the root of a load, if it is seen from a document below it. -/
private theorem of_reaches {below : Text} {result : Except Failure LoadedConfig × LoaderState}
    (run : l.Run below config s result) (reached : l.Reaches top below) :
    l.Run top config s result where
  kept := run.kept
  met := fun id met => (run.met id met).imp_right reached.trans
  merged := run.merged

end Run

section

variable {l : Loader} {id : Text} {fuel : Nat} {config : LoadedConfig}

/-- What loading a document with some fuel does in every session. -/
def RunsDocuments (l : Loader) (fuel : Nat) : Prop :=
  ∀ id config s, l.Run id config s ((l.loadDocument fuel id config).on s)

/-- Following one extension of a document. -/
private theorem run_loadTarget (documents : l.RunsDocuments fuel) {target : Text}
    (edge : Leads l.extended id target) (config : LoadedConfig) (s : LoaderState) :
    l.Run id config s ((l.loadTarget fuel id config target).on s) := by
  rw [on_loadTarget]
  rcases s.graph.addEdge id target with ⟨_ | circle, graph⟩
  · have run := documents target config { s with graph := graph }
    exact .of_reaches ⟨run.kept, run.met, run.merged⟩ (.single edge)
  · exact .failed rfl

/-- Following the entries of a document, one after the other. An entry that names nothing ends
the load. -/
private theorem run_entries (documents : l.RunsDocuments fuel) {d : Document}
    (stands : l.document? id = some d) {entries : List Text}
    (listed : ∀ entry ∈ entries, entry ∈ d.extended) (config : LoadedConfig) (s : LoaderState) :
    l.Run id config s
      ((entries.foldlM
        (fun config entry => do
          let target ← loadDocument.liftExcept (l.target id entry)
          l.loadTarget fuel id config target) config).on s) := by
  induction entries generalizing config s with
  | nil => exact .nothing
  | cons entry entries ih =>
    obtain ⟨here, others⟩ := List.forall_mem_cons.1 listed
    rw [List.foldlM_cons, on_bind]
    cases found : l.target id entry with
    | error failure => exact .failed rfl
    | ok target =>
      -- The target is one that the document extends, so loading it runs as its document says.
      have edge : Leads l.extended id target := by
        refine List.mem_filterMap.2 ⟨entry, ?_, by rw [found]; rfl⟩
        rw [stands]
        exact here
      have first := run_loadTarget documents edge config s
      have opened :
          Loading.on (loadDocument.liftExcept (.ok target) >>= l.loadTarget fuel id config) s =
            (l.loadTarget fuel id config target).on s := rfl
      rw [opened]
      generalize (l.loadTarget fuel id config target).on s = r at first ⊢
      rcases r with ⟨failure | between, s'⟩
      · exact ⟨first.kept, first.met, nofun⟩
      · exact first.trans (ih others between s')

/-- A document that was not met is met before anything is known about it: that it cannot be read,
is malformed, or extends what cannot be loaded only shows afterwards. -/
private theorem on_loadDocument_entered (documents : l.RunsDocuments fuel) {s : LoaderState}
    (new : id ∉ s.loaded) (config : LoadedConfig) :
    ∃ below, l.Run id config { s with loaded := id :: s.loaded } below ∧
      (l.loadDocument (fuel + 1) id config).on s =
        match below with
        | (.ok between, s') => (.ok (l.merge between [id]), s')
        | (.error failure, s') => (.error failure, s') := by
  rw [loadDocument_succ, on_bind]
  show ∃ below, _ ∧ Loading.on (if s.loaded.contains id then _ else _) s = _
  rw [if_neg (fun known => new (List.contains_iff_mem.1 known))]
  -- It is noted as loaded already, whatever fails from here on.
  cases read : l.readText id with
  | error failure => exact ⟨(.error failure, _), .failed rfl, rfl⟩
  | ok text =>
    cases parsed : Document.parse text id with
    | error failure =>
      refine ⟨(.error failure, _), .failed rfl, ?_⟩
      show Loading.on (loadDocument.liftExcept (Document.parse text id) >>= _) _ = _
      rw [parsed]
      rfl
    | ok d =>
      have stands : l.document? id = some d := by
        unfold document?
        rw [read]
        show (Document.parse text id).toOption = _
        rw [parsed]
        rfl
      refine ⟨_, run_entries documents stands (fun _ listed => listed) config _, ?_⟩
      show Loading.on (loadDocument.liftExcept (Document.parse text id) >>= _) _ = _
      rw [parsed]
      show Loading.on (List.foldlM _ config d.extended >>= _) _ = _
      rw [on_bind]
      -- Only what the documents it extends come to matters for the rest.
      generalize Loading.on (List.foldlM _ config d.extended) _ = r
      rcases r with ⟨failure | between, s'⟩
      · rfl
      · dsimp only
        rw [merge_singleton stands]
        rfl

/-- What a document adds when it is entered and what is loaded below it make one run. -/
theorem Run.enter {s s' : LoaderState} (new : id ∉ s.loaded)
    {ends : Except Failure LoadedConfig}
    (below : l.Run id config { s with loaded := id :: s.loaded } (ends, s')) :
    l.Run id config s (ends.map fun between => l.merge between [id], s') where
  kept := fun _ met => below.kept _ (List.mem_cons_of_mem _ met)
  met := by
    intro x hx
    rcases below.met x hx with here | reached
    · rcases List.mem_cons.1 here with rfl | before
      · exact .inr .refl
      · exact .inl before
    · exact .inr reached
  merged := by
    cases ends with
    | error failure => nofun
    | ok between =>
      rintro _ ⟨⟩
      -- The document comes behind all that it extends, and none of those is itself.
      obtain ⟨order, rfl, fresh⟩ := below.merged _ rfl
      refine ⟨order ++ [id], (l.merge_append config order [id]).symm, fun x listed => ?_⟩
      rcases List.mem_append.1 listed with listed | listed
      · exact ⟨fun known => (fresh x listed).1 (List.mem_cons_of_mem _ known), (fresh x listed).2⟩
      · cases List.mem_singleton.1 listed
        exact ⟨new, below.kept _ List.mem_cons_self⟩

/-- Loading a document in any session. -/
theorem run_loadDocument (l : Loader) (fuel : Nat) : l.RunsDocuments fuel := by
  -- The induction is on the fuel, which every document that is entered takes some of.
  induction fuel with
  | zero => exact fun _ _ _ => .nothing
  | succ fuel ih =>
    intro id config s
    by_cases old : id ∈ s.loaded
    · rw [on_loadDocument_of_mem l fuel old]
      exact .nothing
    · obtain ⟨⟨ends, s'⟩, below, same⟩ := on_loadDocument_entered ih old config
      have run := below.enter old
      rw [same]
      cases ends with
      | error failure => exact run
      | ok between => exact run

end

/-! ## Loads one after the other -/

/-- What a load of a root starts from. -/
def base (l : Loader) : LoadedConfig := ⟨[], if l.builtins then builtinAspects else []⟩

/-- A session goes on with any number of loads, whatever they come to. -/
inductive Continues (l : Loader) : LoaderState → LoaderState → Prop
  | refl (s : LoaderState) : Continues l s s
  | load {s t : LoaderState} (root : Text) :
      Continues l ((l.load root).on s).2 t → Continues l s t

variable {l : Loader} {root : Text} {s : LoaderState}

private theorem run_load (l : Loader) (root : Text) (s : LoaderState) :
    l.Run (l.canonical root) l.base s ((l.load root).on s) :=
  run_loadDocument l _ _ _ s

/-- What was met stays met. -/
theorem Continues.kept {t : LoaderState} (h : l.Continues s t) :
    ∀ id ∈ s.loaded, id ∈ t.loaded := by
  induction h with
  | refl => exact fun _ met => met
  | @load s _ root _ ih => exact fun id met => ih id ((run_load l root s).kept id met)

/-- A root that was met is passed over. -/
private theorem load_of_mem (met : l.canonical root ∈ s.loaded) :
    (l.load root).on s = (.ok l.base, s) :=
  on_loadDocument_of_mem l _ met _

/-- Whatever a load of a root comes to, the root was met. -/
private theorem mem_loaded_of_load (l : Loader) (root : Text) (s : LoaderState) :
    l.canonical root ∈ ((l.load root).on s).2.loaded := by
  by_cases old : l.canonical root ∈ s.loaded
  · rw [load_of_mem old]
    exact old
  · obtain ⟨⟨ends, s'⟩, below, same⟩ :=
      on_loadDocument_entered (run_loadDocument l (l.disk.entries.length + 1)) old l.base
    -- The root is noted when it is entered, and nothing is taken off the list.
    have met : l.canonical root ∈ s'.loaded := below.kept _ List.mem_cons_self
    have ends' : ((l.load root).on s).2 = s' := by
      cases ends with
      | error failure => exact congrArg Prod.snd same
      | ok between => exact congrArg Prod.snd same
    rw [ends']
    exact met

/-- After a load that failed, on an unchanged disk: the root was new to the session, and is marked
as met, like whatever else the load came to, all of it reached from the root. However the session
goes on, the next load of the root succeeds with no documents and only the aspects that every load
starts from, and no load of any root merges a document that the failed load met. -/
theorem load_again_of_error {failure : Failure} {s' : LoaderState}
    (failed : (l.load root).on s = (.error failure, s')) :
    l.canonical root ∉ s.loaded ∧ l.canonical root ∈ s'.loaded ∧
    (∀ id ∈ s'.loaded, id ∈ s.loaded ∨ l.Reaches (l.canonical root) id) ∧
    ∀ t, l.Continues s' t →
      (l.load root).on t = (.ok l.base, t) ∧
      ∀ other config, ((l.load other).on t).1 = .ok config →
        ∃ order, config = l.merge l.base order ∧ ∀ id ∈ order, id ∉ s'.loaded := by
  have met := mem_loaded_of_load l root s
  have run := run_load l root s
  rw [failed] at met run
  refine ⟨fun old => ?_, met, run.met, fun t goes => ⟨load_of_mem (goes.kept _ met), ?_⟩⟩
  · rw [load_of_mem old] at failed
    cases failed
  · intro other config given
    obtain ⟨order, same, new⟩ := (run_load l other t).merged config given
    exact ⟨order, same, fun id listed known => (new id listed).1 (goes.kept id known)⟩

/-- A document with an aspect, which extends a document that is not on the disk. -/
def missingBase : Loader where
  disk := ⟨[(["root.json"],
    .file ("\x7b\"meta\": \x7b\"name\": \"root\"\x7d, \"extends\": [\"base.json\"], "
      ++ "\"aspects\": [\x7b\"id\": \"a\", \"join-point\": \"source-file\", "
      ++ "\"advice\": []\x7d]\x7d"))], []⟩
  locator := noPackages
  builtins := false

private theorem exists_load_missingBase : ∃ failure s',
    (missingBase.load "root.json").on .fresh = (.error failure, s') := by
  have fails : ((missingBase.load "root.json").on .fresh).1.toOption.isNone = true := by
    decide +kernel
  rcases ends : (missingBase.load "root.json").on .fresh with ⟨failure | config, s'⟩
  · exact ⟨failure, s', rfl⟩
  · rw [ends] at fails
    cases fails

/-- The second load of the root passes over the document, and over its aspect. -/
theorem load_again_missingBase : ∃ failure s',
    (missingBase.load "root.json").on .fresh = (.error failure, s') ∧
    (missingBase.load "root.json").on s' = (.ok ⟨[], []⟩, s') := by
  obtain ⟨failure, s', failed⟩ := exists_load_missingBase
  obtain ⟨-, -, -, later⟩ := load_again_of_error failed
  exact ⟨failure, s', failed, (later s' (.refl s')).1⟩

/-- A failure is forgotten: a load that fails need not fail again. -/
theorem not_error_again : ¬ ∀ (l : Loader) (s s' : LoaderState) (root : Text) (failure : Failure),
    (l.load root).on s = (.error failure, s') →
      ∃ again, ((l.load root).on s').1 = .error again := by
  intro remembered
  obtain ⟨failure, s', failed⟩ := exists_load_missingBase
  obtain ⟨again, fails⟩ := remembered missingBase _ s' _ failure failed
  have met := mem_loaded_of_load missingBase "root.json" .fresh
  rw [failed] at met
  rw [load_of_mem met] at fails
  cases fails

end Loader

end Interlace
