import Interlace.Package.Injector
import Interlace.Proofs.Importing

/-!
# Runs of injecting

What a step of injecting comes to on a world: its result, or the failure it ended with, and the
world it leaves. The rules for composed steps take a run apart into the runs of its parts.

## Key results

- `Injecting.on_bind`, `Injecting.on_tryCatch`: the runs of composed steps
- `Injecting.yields_bind`: a composed step that gives a value is two steps that do
- `Injector.on_importing`: looking dependencies up changes only what is known of them
- `Injector.injectSources_eq_weaveGiven`: weaving sources, by the aspects that each of them gets
- `Injecting.Storeless`: weaving and writing neither read nor change the store
-/

namespace Interlace

namespace Injecting

variable {α β : Type}

/-- The result of a step on a world, and the world that it leaves. -/
def on (x : Injecting α) (w : World) : Except Failure α × World :=
  x.run.run w

/-- A run on one world gives a value and leaves another world. -/
def Yields (x : Injecting α) (w : World) (a : α) (w' : World) : Prop :=
  x.on w = (.ok a, w')

@[simp] theorem on_pure (a : α) (w : World) : on (pure a) w = (.ok a, w) := rfl

@[simp] theorem on_throw (failure : Failure) (w : World) :
    on (throw failure : Injecting α) w = (.error failure, w) := rfl

@[simp] theorem on_get (w : World) : on get w = (.ok w, w) := rfl

@[simp] theorem on_modify (f : World → World) (w : World) : on (modify f) w = (.ok (), f w) := rfl

theorem on_bind (x : Injecting α) (f : α → Injecting β) (w : World) :
    on (x >>= f) w =
      match x.on w with
      | (.ok a, w') => (f a).on w'
      | (.error failure, w') => (.error failure, w') := by
  unfold on
  rw [ExceptT.run_bind, StateT.run_bind]
  rcases x.run.run w with ⟨failure | a, w'⟩ <;> rfl

theorem on_tryCatch (x : Injecting α) (handle : Failure → Injecting α) (w : World) :
    on (tryCatch x handle) w =
      match x.on w with
      | (.ok a, w') => (.ok a, w')
      | (.error failure, w') => (handle failure).on w' := by
  unfold on
  rw [ExceptT.run_tryCatch, StateT.run_bind]
  rcases x.run.run w with ⟨failure | a, w'⟩ <;> rfl

theorem on_map (f : α → β) (x : Injecting α) (w : World) :
    on (x.map f) w = ((x.on w).1.map f, (x.on w).2) := by
  show (f <$> x).run.run w = _
  rw [ExceptT.run_map]
  rfl

/-- Steps with the same runs are the same. -/
theorem ext_on {x y : Injecting α} (h : ∀ w, x.on w = y.on w) : x = y :=
  funext h

/-! ## Runs that give a value -/

theorem yields_pure {a b : α} {w w' : World} : Yields (pure a) w b w' ↔ a = b ∧ w = w' := by
  simp [Yields]

theorem not_yields_throw {failure : Failure} {a : α} {w w' : World} :
    ¬ Yields (throw failure) w a w' := by
  simp [Yields]

/-- A composed run is a run of the first part and then one of the second. -/
theorem yields_bind {x : Injecting α} {f : α → Injecting β} {w w'' : World} {b : β} :
    Yields (x >>= f) w b w'' ↔ ∃ a w', Yields x w a w' ∧ Yields (f a) w' b w'' := by
  unfold Yields
  rw [on_bind]
  rcases x.on w with ⟨failure | a, w'⟩
  · simp
  · constructor
    · exact fun h => ⟨a, w', rfl, h⟩
    · rintro ⟨_, _, first, second⟩
      cases first
      exact second

/-- A run that gives a value leaves some world. -/
theorem exists_yields_iff {x : Injecting α} {w : World} {a : α} :
    (∃ w', Yields x w a w') ↔ (x.on w).1 = .ok a := by
  constructor
  · rintro ⟨w', run⟩
    exact congrArg Prod.fst run
  · intro value
    exact ⟨(x.on w).2, Prod.ext value rfl⟩

end Injecting

open Injecting

namespace Injector

/-- Looking dependencies up changes only what is known of them. -/
theorem on_importing {α : Type} (m : Importing α) (w : World) :
    on (importing m) w =
      ((m.run.run w.imports).1, { w with imports := (m.run.run w.imports).2 }) := by
  unfold importing
  rw [on_bind, on_get]
  dsimp only
  rcases m.run.run w.imports with ⟨failure | a, imports⟩ <;> rfl

/-- The failure that a worker contributes, if any. -/
def Contribution.failure? : Contribution → Option Failure
  | failed failure => some failure
  | _ => none

/-- The failures of an outcome are those of the workers, in order. -/
theorem failures_foldl_addTo (contributions : List Contribution) (o : Outcome) :
    (contributions.foldl Contribution.addTo o).failures =
      o.failures ++ contributions.filterMap Contribution.failure? := by
  induction contributions generalizing o with
  | nil => exact (List.append_nil _).symm
  | cons c rest ih =>
    rw [List.foldl_cons, ih]
    cases c with
    | nothing | woven _ _ _ => rfl
    | failed failure => exact List.append_assoc ..

/-! ## Weaving sources -/

/-- The types of a package; nothing if it does not check. -/
def typesOf (i : Injector) (cancelled : Bool) (files : List SourceFile) :
    Injecting (Option PackageTypes) := do
  let importer ← i.importer cancelled
  tryCatch
    ((importing (Check.package i.config.importPath i.config.version files importer)).map some)
    fun failure => if failure.isUserSource then return none else throw failure

/-- Checking a package changes only what is known of dependencies. -/
theorem yields_typesOf {i : Injector} {cancelled : Bool} {files : List SourceFile} {w w' : World}
    {checked : Option PackageTypes}
    (h : (i.typesOf cancelled files).Yields w checked w') :
    w'.disk = w.disk ∧ ∀ types ∈ checked,
      (Check.package i.config.importPath i.config.version files
        ⟨i.lookup w.disk, cancelled⟩).Yields w.imports types w'.imports := by
  unfold typesOf at h
  -- The importer looks at the disk as it is.
  obtain ⟨importer, _, found, h⟩ := yields_bind.1 h
  cases found
  unfold Injecting.Yields at h
  rw [on_tryCatch, on_map, on_importing] at h
  unfold Importing.Yields
  rcases run : (Check.package i.config.importPath i.config.version files
    ⟨i.lookup w.disk, cancelled⟩).run.run w.imports with ⟨failure | types, imports⟩
  · rw [run] at h
    dsimp only [Except.map] at h
    -- A failure of the source is no failure of the run; any other ends it.
    split at h
    · cases h
      exact ⟨rfl, fun _ none_given => nomatch none_given⟩
    · cases h
  · rw [run] at h
    cases h
    refine ⟨rfl, fun found given => ?_⟩
    cases given
    rfl

/-- Weaves sources with given aspects for each. -/
def weaveGiven (i : Injector) (cancelled : Bool) (sources : List (Text × Text))
    (lists : List (List Aspect)) : Injecting Outcome :=
  match sources.mapM fun source => SourceFile.parse source.1 source.2 with
  | .error _ => return .empty
  | .ok files => do
    match ← i.typesOf cancelled files with
    | none => return .empty
    | some types => i.weaveAll cancelled sources files types lists

theorem injectSources_eq_weaveGiven (i : Injector) (cancelled : Bool) (sources : List (Text × Text))
    (aspects : List Aspect) :
    i.injectSources cancelled sources aspects =
      match i.perFile? sources aspects with
      | none => return .empty
      | some lists => i.weaveGiven cancelled sources lists := by
  unfold injectSources weaveGiven typesOf
  cases i.perFile? sources aspects with
  | none => rfl
  | some lists =>
    cases sources.mapM fun source => SourceFile.parse source.1 source.2 with
    | error fault => rfl
    | ok files =>
      -- The importer is bound inside the step that checks.
      exact (bind_assoc _ _ _).symm

/-- What a successful run that weaves sources went through: the sources do not parse, or the
package does not check, or its files were woven. -/
theorem yields_weaveGiven_iff {i : Injector} {cancelled : Bool} {sources : List (Text × Text)}
    {lists : List (List Aspect)} {w w' : World} {outcome : Outcome} :
    (i.weaveGiven cancelled sources lists).Yields w outcome w' ↔
      (∃ fault, sources.mapM (fun source => SourceFile.parse source.1 source.2) = .error fault ∧
        .empty = outcome ∧ w = w') ∨
      ∃ files between,
        sources.mapM (fun source => SourceFile.parse source.1 source.2) = .ok files ∧
        ((i.typesOf cancelled files).Yields w none between ∧ .empty = outcome ∧ between = w' ∨
          ∃ types, (i.typesOf cancelled files).Yields w (some types) between ∧
            (i.weaveAll cancelled sources files types lists).Yields between outcome w') := by
  unfold weaveGiven
  cases sources.mapM fun source => SourceFile.parse source.1 source.2 with
  | error fault => simp [yields_pure]
  | ok files =>
    simp only [yields_bind, reduceCtorEq, false_and, exists_false, false_or, Except.ok.injEq]
    constructor
    · rintro ⟨checked, between, typed, h⟩
      cases checked with
      | none => exact ⟨files, between, rfl, .inl ⟨typed, yields_pure.1 h⟩⟩
      | some types => exact ⟨files, between, rfl, .inr ⟨types, typed, h⟩⟩
    · rintro ⟨_, between, rfl, ⟨typed, h⟩ | ⟨types, typed, h⟩⟩
      · exact ⟨none, between, typed, yields_pure.2 h⟩
      · exact ⟨some types, between, typed, h⟩

end Injector

/-! ## Steps without the store -/

namespace Injecting

variable {α β : Type}

/-- The step neither reads nor changes the store. -/
def Storeless (x : Injecting α) : Prop :=
  ∀ (w : World) (store : Dict Text),
    x.on { w with store := store } = ((x.on w).1, { (x.on w).2 with store := store })

theorem Storeless.store_eq {x : Injecting α} (h : Storeless x) (w : World) :
    (x.on w).2.store = w.store := by
  have same := h w w.store
  exact congrArg (fun r => r.2.store) same

theorem storeless_pure (a : α) : Storeless (pure a : Injecting α) :=
  fun _ _ => rfl

private theorem storeless_throw (failure : Failure) : Storeless (throw failure : Injecting α) :=
  fun _ _ => rfl

private theorem storeless_bind {x : Injecting α} {f : α → Injecting β} (hx : Storeless x)
    (hf : ∀ a, Storeless (f a)) : Storeless (x >>= f) := by
  intro w store
  rw [on_bind, on_bind, hx w store]
  rcases x.on w with ⟨failure | a, w'⟩
  · rfl
  · exact hf a w' store

private theorem storeless_tryCatch {x : Injecting α} {handle : Failure → Injecting α}
    (hx : Storeless x)
    (hh : ∀ failure, Storeless (handle failure)) : Storeless (tryCatch x handle) := by
  intro w store
  rw [on_tryCatch, on_tryCatch, hx w store]
  rcases x.on w with ⟨failure | a, w'⟩
  · exact hh failure w' store
  · rfl

private theorem storeless_map {x : Injecting α} (hx : Storeless x) (f : α → β) :
    Storeless (x.map f) := by
  intro w store
  rw [on_map, on_map, hx w store]

private theorem storeless_mapM {f : α → Injecting β} (hf : ∀ a, Storeless (f a)) (l : List α) :
    Storeless (l.mapM f) := by
  induction l with
  | nil => exact storeless_pure []
  | cons a l ih =>
    rw [List.mapM_cons]
    refine storeless_bind (hf a) fun b => storeless_bind ih fun bs => ?_
    exact storeless_pure _

end Injecting

namespace Injector

variable (i : Injector)

private theorem storeless_importing {α : Type} (m : Importing α) : Storeless (importing m) := by
  intro w store
  rw [on_importing, on_importing]

private theorem storeless_importer (cancelled : Bool) : Storeless (i.importer cancelled) :=
  fun _ _ => rfl

private theorem storeless_write (path text : Text) : Storeless (i.write path text) := by
  intro w store
  unfold write
  rw [on_bind, on_bind, on_get, on_get]
  dsimp only
  cases w.disk.writeWoven path i.config.outputDir text with
  | ok result => rfl
  | error failure => rfl

private theorem storeless_weaveOne (cancelled : Bool) (s : Scene) (aspects : List Aspect)
    (lead : Text) : Storeless (i.weaveOne cancelled s aspects lead) := by
  unfold weaveOne
  split
  · exact storeless_pure _
  · split
    · exact storeless_throw _
    · refine storeless_bind (storeless_importer i cancelled) fun importer => ?_
      refine storeless_bind (storeless_importing _) fun woven => ?_
      split
      · exact storeless_pure _
      · exact storeless_bind (storeless_write i _ _) fun target => storeless_pure _

private theorem storeless_weaveAll (cancelled : Bool) (sources : List (Text × Text))
    (files : List SourceFile) (types : PackageTypes) (lists : List (List Aspect)) :
    Storeless (i.weaveAll cancelled sources files types lists) := by
  unfold weaveAll
  -- The workers one after another, and then their contributions.
  refine storeless_bind (storeless_mapM (fun job => ?_) _) fun contributions => ?_
  · refine storeless_tryCatch (storeless_weaveOne i _ _ _ _) fun failure => ?_
    exact storeless_pure _
  · dsimp only
    split
    · exact storeless_throw _
    · exact storeless_pure _

/-- Weaving sources neither reads nor changes the store. -/
theorem storeless_injectSources (cancelled : Bool) (sources : List (Text × Text))
    (aspects : List Aspect) : Storeless (i.injectSources cancelled sources aspects) := by
  rw [injectSources_eq_weaveGiven]
  split
  · exact storeless_pure _
  · unfold weaveGiven
    split
    · exact storeless_pure _
    · refine storeless_bind ?_ fun checked => ?_
      · -- Checking works on what is imported, which is another part of the state.
        unfold typesOf
        refine storeless_bind (storeless_importer i cancelled) fun importer => ?_
        refine storeless_tryCatch (storeless_map (storeless_importing _) _) fun failure => ?_
        split
        · exact storeless_pure _
        · exact storeless_throw _
      · cases checked with
        | none => exact storeless_pure _
        | some types => exact storeless_weaveAll i _ _ _ _ _

theorem storeless_restore (entry : CacheEntry) : Storeless (i.restore entry) := by
  unfold restore
  refine storeless_bind (storeless_mapM (fun e => ?_) _) fun contributions => storeless_pure _
  refine storeless_tryCatch ?_ fun failure => storeless_pure _
  exact storeless_bind (storeless_write i _ _) fun target => storeless_pure _

end Injector

end Interlace
