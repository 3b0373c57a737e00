import Interlace.Proofs.Folds
import Interlace.Proofs.Injecting
import Interlace.Proofs.StoredEntries
import Mathlib.Data.List.Induction

/-!
# Results from the store

A call that may be served from the store gives what the first call with its key kept, and weaves
only if there was none.

## Key results

- `Injector.on_injectCached`: what a call does, by what the store holds for its key
- `Injector.entryOf_restore`: what is restored without failures is what was kept
- `CachedCall.get?_storeAfter`: what the store holds after a number of calls
- `CachedCall.serve_of_kept?`, `CachedCall.serve_of_not_kept`: what a call gives after them
-/

namespace Interlace

open Injecting

/-! ## Reading -/

/-- The contents of files with their paths, if all of them can be read. -/
def Disk.sources? (disk : Disk) (paths : List Text) : Option (List (Text × Text)) :=
  paths.mapM fun path => (disk.read path).toOption.map fun bytes => (path, bytes)

namespace Injector

variable {i : Injector} {paths : List Text} {sources : List (Text × Text)} {aspects : List Aspect}
  {w : World}

/-- The failures of the files that cannot be read. -/
def unreadable (disk : Disk) (paths : List Text) : List Failure :=
  (paths.map fun path => (path, disk.read path)).filterMap fun (path, r) =>
    match r with
    | .error fault => some (Failure.ofDisk path fault)
    | .ok _ => none

/-- The contents of the files that can be read. -/
def readings (disk : Disk) (paths : List Text) : List (Text × Text) :=
  (paths.map fun path => (path, disk.read path)).filterMap fun (path, r) =>
    r.toOption.map fun bytes => (path, bytes)

private theorem sources?_eq (disk : Disk) (paths : List Text) :
    disk.sources? paths =
      if (unreadable disk paths).isEmpty then some (readings disk paths) else none := by
  induction paths with
  | nil => rfl
  | cons path paths ih =>
    unfold Disk.sources? at ih ⊢
    rw [List.mapM_cons, ih]
    -- One file that cannot be read is enough for there to be no sources.
    cases read : disk.read path with
    | error fault =>
      have first : unreadable disk (path :: paths) =
          Failure.ofDisk path fault :: unreadable disk paths := by simp [unreadable, read]
      rw [first]
      rfl
    | ok bytes =>
      have others : unreadable disk (path :: paths) = unreadable disk paths := by
        simp [unreadable, read]
      have first : readings disk (path :: paths) = (path, bytes) :: readings disk paths := by
        simp [readings, read, Except.toOption]
      rw [others, first]
      split <;> rfl

/-- Reading gives the contents of all files, or the failures of those that cannot be read. -/
private theorem on_readSources (paths : List Text) (w : World) :
    on (readSources false paths) w =
      match w.disk.sources? paths with
      | some sources => (.ok (.ok sources), w)
      | none => (.ok (.error (unreadable w.disk paths)), w) := by
  have run : on (readSources false paths) w =
      on (if (unreadable w.disk paths).isEmpty then return .ok (readings w.disk paths)
        else return .error (unreadable w.disk paths)) w := rfl
  rw [run, sources?_eq]
  split <;> rfl

/-- Weaves the sources of a package with the aspects that may match in it. -/
def weaveRead (i : Injector) (sources : List (Text × Text)) (aspects : List Aspect) :
    Injecting Outcome :=
  if (i.packageAspects aspects).isEmpty then return .empty
  else i.injectSources false sources (i.packageAspects aspects)

private theorem storeless_weaveRead (i : Injector) (sources : List (Text × Text))
    (aspects : List Aspect) : Storeless (i.weaveRead sources aspects) := by
  unfold weaveRead
  split
  · exact storeless_pure _
  · exact storeless_injectSources i _ _ _

/-- Files that can be read are woven. -/
theorem on_inject (readable : w.disk.sources? paths = some sources) :
    on (i.inject false paths aspects) w = on (i.weaveRead sources aspects) w := by
  have read := on_readSources paths w
  rw [readable] at read
  unfold inject weaveRead
  dsimp only
  split
  · rfl
  · rw [on_bind, read]

/-- What a call does: with an entry that can be read, it restores what was kept; otherwise it
weaves, and keeps the result if there were no failures. -/
theorem on_injectCached (readable : w.disk.sources? paths = some sources) :
    on (i.injectCached false paths aspects) w =
      match (w.store.get? (i.key sources aspects)).bind fun t => (CacheEntry.parse t).toOption with
      | some entry => on (i.restore entry) w
      | none =>
        match on (i.weaveRead sources aspects) w with
        | (.ok o, w') =>
          (.ok o, if o.failures.isEmpty then
            { w' with store := w'.store.insert (i.key sources aspects) (entryOf o).render } else w')
        | (.error failure, w') => (.error failure, w') := by
  have read := on_readSources paths w
  rw [readable] at read
  -- The key is known once the files are read, and the store is asked for it.
  unfold injectCached stored?
  rw [on_bind, read]
  dsimp only
  rw [on_bind, on_bind, on_get]
  dsimp only
  rw [on_pure]
  dsimp only
  cases (w.store.get? (i.key sources aspects)).bind fun t => (CacheEntry.parse t).toOption with
  | some entry => rfl
  | none =>
    unfold weaveRead
    dsimp only
    split
    -- Without aspects nothing is woven, and that is kept too.
    · rfl
    · rw [on_bind]
      rcases on (i.injectSources false sources (i.packageAspects aspects)) w with ⟨failure | o, w'⟩
      · rfl
      · dsimp only
        split <;> rfl

/-! ## Restoring -/

/-- What is kept of a woven file. -/
def kept (f : InjectedFile) : CachedFile :=
  ⟨f.contents, f.references⟩

/-- The contribution of a kept file: the file, or a failure to write it. -/
def Restores (e : Text × CachedFile) (c : Contribution) : Prop :=
  (∃ file, kept file = e.2 ∧ c = .woven e.1 file none) ∨ ∃ failure, c = .failed failure

private theorem yields_restoreOne (e : Text × CachedFile) (w : World) :
    ∃ c w', (i.restoreOne e).Yields w c w' ∧ Restores e c := by
  unfold restoreOne Injecting.Yields
  -- A failure to write is caught and counted, so there is a contribution either way.
  rw [on_tryCatch, on_bind]
  rcases on (i.write e.1 e.2.contents) w with ⟨failure | target, w'⟩
  · exact ⟨.failed failure, w', rfl, .inr ⟨failure, rfl⟩⟩
  · exact ⟨_, w', rfl, .inl ⟨⟨target, e.2.references, e.2.contents⟩, rfl, rfl⟩⟩

private theorem yields_mapM_restoreOne (l : List (Text × CachedFile)) (w : World) :
    ∃ cs w', (l.mapM i.restoreOne).Yields w cs w' ∧ List.Forall₂ Restores l cs := by
  induction l generalizing w with
  | nil => exact ⟨[], w, rfl, .nil⟩
  | cons e l ih =>
    obtain ⟨c, between, first, here⟩ := yields_restoreOne (i := i) e w
    obtain ⟨cs, last, rest, others⟩ := ih between
    refine ⟨c :: cs, last, ?_, .cons here others⟩
    rw [List.mapM_cons]
    exact yields_bind.2 ⟨c, between, first, yields_bind.2 ⟨cs, last, rest, rfl⟩⟩

/-- Contributions without failures add the kept files in order. -/
private theorem foldl_addTo_of_restores {l : List (Text × CachedFile)} {cs : List Contribution}
    (h : List.Forall₂ Restores l cs) (o : Outcome)
    (clean : (cs.foldl Contribution.addTo o).failures = []) :
    ∃ files : List (Text × InjectedFile), files.map (fun f => (f.1, kept f.2)) = l ∧
      cs.foldl Contribution.addTo o =
        { o with files := files.foldl (fun d f => d.insert f.1 f.2) o.files } := by
  induction h generalizing o with
  | nil => exact ⟨[], rfl, rfl⟩
  | @cons e c l cs here others ih =>
    rcases here with ⟨file, same, rfl⟩ | ⟨failure, rfl⟩
    · obtain ⟨files, rfl, sum⟩ := ih _ clean
      refine ⟨(e.1, file) :: files, ?_, sum⟩
      rw [List.map_cons, same]
    · -- A failure would be among those of the sum.
      rw [failures_foldl_addTo] at clean
      exact absurd (List.append_eq_nil_iff.1 clean).2 (List.cons_ne_nil _ _)

/-- Restoring gives an outcome, and without failures it is what was kept. -/
theorem entryOf_restore (entry : CacheEntry) (w : World) :
    ∃ outcome, (on (i.restore entry) w).1 = .ok outcome ∧
      (outcome.failures = [] → entryOf outcome = entry) := by
  obtain ⟨cs, last, ran, restored⟩ := yields_mapM_restoreOne (i := i) entry.files.entries w
  let outcome := cs.foldl Contribution.addTo { Outcome.empty with version := entry.version }
  have done : (i.restore entry).Yields w outcome last :=
    yields_bind.2 ⟨cs, last, ran, rfl⟩
  refine ⟨outcome, congrArg Prod.fst done, fun clean => ?_⟩
  obtain ⟨files, same, sum⟩ := foldl_addTo_of_restores restored _ clean
  -- The paths are those of a dictionary, so inserting the files in order lists them in order.
  have ascending : Ascending files := by
    have := entry.files.ascending
    rw [← same] at this
    unfold Ascending at this ⊢
    rwa [List.pairwise_map] at this
  have listed : (files.foldl (fun d f => d.insert f.1 f.2) (Dict.empty : Dict InjectedFile)).entries
      = files := Dict.entries_foldl_insert (d := .empty) ascending
  show entryOf outcome = ⟨entry.files, entry.version⟩
  rw [show outcome = _ from sum]
  unfold entryOf
  congr
  refine Dict.ext_entries ?_
  show List.map _ _ = _
  dsimp only
  rw [show (Outcome.empty.files : Dict InjectedFile) = Dict.empty from rfl, listed]
  exact same

end Injector

/-! ## Calls one after another -/

/-- A call that may be served from a store: who makes it, for which files and with which aspects,
and what it finds on the disk and knows of dependencies. -/
structure CachedCall where
  injector : Injector
  paths : List Text
  aspects : List Aspect
  disk : Disk
  imports : ImportState

namespace CachedCall

/-- What the call works on, given the store. -/
def world (c : CachedCall) (store : Dict Text) : World :=
  ⟨c.disk, c.imports, store⟩

/-- What the call gives with a store, and the store that it leaves. -/
def serve (c : CachedCall) (store : Dict Text) : Except Failure Outcome × Dict Text :=
  let run := on (c.injector.injectCached false c.paths c.aspects) (c.world store)
  (run.1, run.2.store)

/-- What weaving gives in place of the call. -/
def woven (c : CachedCall) : Except Failure Outcome :=
  (on (c.injector.inject false c.paths c.aspects) (c.world .empty)).1

/-- The key of the call, if its files can be read. -/
def key? (c : CachedCall) : Option Text :=
  (c.disk.sources? c.paths).map fun sources => c.injector.key sources c.aspects

/-- The store after calls that start with an empty one. -/
def storeAfter (calls : List CachedCall) : Dict Text :=
  calls.foldl (fun store c => (c.serve store).2) .empty

/-- What the call would keep under a key: its outcome, if that is its key and there are no
failures. -/
def keeps? (c : CachedCall) (key : Text) : Option Outcome :=
  if c.key? = some key then c.woven.toOption.filter (·.failures.isEmpty) else none

/-- What the first call that keeps something under a key keeps. -/
def kept? (calls : List CachedCall) (key : Text) : Option Outcome :=
  calls.findSome? (·.keeps? key)

variable {c : CachedCall} {store : Dict Text} {key : Text}

/-- The entry of a key, if the store has one that can be read. -/
def held? (store : Dict Text) (key : Text) : Option CacheEntry :=
  (store.get? key).bind fun t => (CacheEntry.parse t).toOption

/-- A call with an entry for its key restores the entry. -/
private theorem serve_of_held {entry : CacheEntry} (keyed : c.key? = some key)
    (found : held? store key = some entry) :
    c.serve store = ((on (c.injector.restore entry) (c.world store)).1, store) := by
  obtain ⟨sources, readable, rfl⟩ := Option.map_eq_some_iff.1 keyed
  unfold held? at found
  unfold serve
  rw [Injector.on_injectCached (w := c.world store) readable]
  dsimp only [world] at *
  rw [found]
  -- Restoring writes files and leaves the store alone.
  exact Prod.ext rfl ((Injector.storeless_restore c.injector entry).store_eq _)

/-- A call without an entry for its key weaves, and keeps what has no failures. -/
private theorem serve_of_not_held (keyed : c.key? = some key) (absent : held? store key = none) :
    c.serve store = (c.woven,
      ((c.keeps? key).map fun o => store.insert key (Injector.entryOf o).render).getD store) := by
  obtain ⟨sources, readable, rfl⟩ := Option.map_eq_some_iff.1 keyed
  -- Weaving comes out the same with this store as with none.
  have same := Injector.storeless_weaveRead c.injector sources c.aspects (c.world .empty) store
  have woven : c.woven = (on (c.injector.weaveRead sources c.aspects) (c.world .empty)).1 :=
    congrArg Prod.fst (Injector.on_inject readable)
  unfold held? at absent
  unfold serve keeps?
  rw [if_pos keyed, Injector.on_injectCached (w := c.world store) readable, woven]
  dsimp only [world] at *
  rw [absent, same]
  rcases on (c.injector.weaveRead sources c.aspects) ⟨c.disk, c.imports, .empty⟩ with
    ⟨failure | o, w'⟩
  · rfl
  · cases clean : o.failures.isEmpty <;> simp [Except.toOption, Option.filter, clean]

/-- A call whose files cannot be read leaves the store as it is. -/
private theorem serve_of_no_key (unread : c.key? = none) : (c.serve store).2 = store := by
  have unreadable := Option.map_eq_none_iff.1 unread
  have read := Injector.on_readSources c.paths (c.world store)
  unfold serve Injector.injectCached
  rw [on_bind, read, show (c.world store).disk.sources? c.paths = none from unreadable]
  rfl

/-- Every text in the store can be read. -/
def Legible (store : Dict Text) : Prop :=
  ∀ key t, store.get? key = some t → ∃ entry, CacheEntry.parse t = .ok entry

/-- A call leaves what the store holds for other keys. -/
private theorem get?_serve_of_key?_ne (other : c.key? ≠ some key) :
    (c.serve store).2.get? key = store.get? key := by
  -- A call touches the store at its own key only, and at none without a key.
  cases keyed : c.key? with
  | none => rw [serve_of_no_key keyed]
  | some own =>
    have apart : own ≠ key := fun same => other (same ▸ keyed)
    cases found : held? store own with
    | some entry => rw [serve_of_held keyed found]
    | none =>
      rw [serve_of_not_held keyed found]
      cases c.keeps? own with
      | none => rfl
      | some o =>
        dsimp only [Option.map_some, Option.getD_some]
        rw [Dict.get?_insert, if_neg apart]

/-- One call adds what it keeps, unless something is kept under its key. -/
private theorem get?_serve (legible : Legible store) (c : CachedCall) (key : Text) :
    (c.serve store).2.get? key =
      (store.get? key).or ((c.keeps? key).map fun o => (Injector.entryOf o).render) := by
  by_cases keyed : c.key? = some key
  · cases held : store.get? key with
    | some t =>
      -- The store stays as it is, since the text can be read.
      obtain ⟨entry, read⟩ := legible key t held
      have found : held? store key = some entry := by
        rw [held?, held, Option.bind_some, read]
        rfl
      rw [serve_of_held keyed found]
      exact held
    | none =>
      have absent : held? store key = none := by rw [held?, held, Option.bind_none]
      rw [serve_of_not_held keyed absent]
      cases c.keeps? key with
      | none => exact held
      | some o =>
        dsimp only [Option.map_some, Option.getD_some]
        rw [Dict.get?_insert, if_pos rfl]
        rfl
  · have nothing : c.keeps? key = none := if_neg keyed
    rw [get?_serve_of_key?_ne keyed, nothing]
    exact (Option.or_none).symm

/-- What is kept can be read back. -/
def AllStorable (calls : List CachedCall) : Prop :=
  ∀ c ∈ calls, ∀ o, c.woven = .ok o → (Injector.entryOf o).Storable

private theorem storable_of_kept? {calls : List CachedCall} (storable : AllStorable calls)
    {o : Outcome} (h : kept? calls key = some o) : (Injector.entryOf o).Storable := by
  obtain ⟨c, hc, h⟩ := List.exists_of_findSome?_eq_some h
  unfold keeps? at h
  split at h
  · obtain ⟨woven, -⟩ := Option.filter_eq_some_iff.1 h
    exact storable c hc o (toOption_eq_some_iff.1 woven)
  · cases h

/-- After a number of calls the store holds, for every key, what the first call that keeps something
under it keeps. -/
theorem get?_storeAfter {calls : List CachedCall} (storable : AllStorable calls) (key : Text) :
    (storeAfter calls).get? key =
      (kept? calls key).map fun o => (Injector.entryOf o).render := by
  -- By the last call: the earlier ones leave a store whose texts can all be read.
  induction calls using List.reverseRecOn generalizing key with
  | nil => rfl
  | append_singleton calls c ih =>
    have before : AllStorable calls := fun d hd => storable d (List.mem_append_left _ hd)
    have legible : Legible (storeAfter calls) := by
      intro key t found
      rw [ih before] at found
      obtain ⟨o, kept, rfl⟩ := Option.map_eq_some_iff.1 found
      exact ⟨_, CacheEntry.parse_render (storable_of_kept? before kept)⟩
    have step : storeAfter (calls ++ [c]) = (c.serve (storeAfter calls)).2 := by
      unfold storeAfter
      rw [List.foldl_append]
      rfl
    rw [step, get?_serve legible, ih before]
    unfold kept?
    rw [List.findSome?_append]
    cases calls.findSome? (·.keeps? key) with
    | none => simp
    | some o => rfl

/-- A call with something kept under its key restores that. -/
theorem serve_of_kept? {before : List CachedCall} (storable : AllStorable before) {o : Outcome}
    (keyed : c.key? = some key) (kept : kept? before key = some o) :
    (c.serve (storeAfter before)).1 =
      (on (c.injector.restore (Injector.entryOf o)) (c.world .empty)).1 := by
  have read := CacheEntry.parse_render (storable_of_kept? storable kept)
  have found : held? (storeAfter before) key = some (Injector.entryOf o) := by
    rw [held?, get?_storeAfter storable, kept, Option.map_some, Option.bind_some, read]
    rfl
  have same := Injector.storeless_restore c.injector (Injector.entryOf o) (c.world .empty)
    (storeAfter before)
  rw [serve_of_held keyed found]
  exact congrArg Prod.fst same

/-- A call with nothing kept under its key weaves. -/
theorem serve_of_not_kept {before : List CachedCall} (storable : AllStorable before)
    (keyed : c.key? = some key) (nothing : kept? before key = none) :
    (c.serve (storeAfter before)).1 = c.woven := by
  rw [serve_of_not_held keyed]
  rw [held?, get?_storeAfter storable, nothing]
  rfl

end CachedCall

end Interlace
