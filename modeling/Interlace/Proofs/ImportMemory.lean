import Interlace.Proofs.Importing
import Interlace.Weave.File

/-!
# What an importer remembers

An importer answers for a path from its memory, or else from its lookup, and remembers what the
lookup yielded. So a run changes no answer, and what a run gives depends on the memory through the
answers only: two runs whose memories give the same answers cannot tell each other apart.

## Key results

- `Importer.answer`: what an importer says of a path
- `Importing.Transparent`: runs see the memory only through the answers, and change none
- `Check.package_transparent`: checking a package is transparent
- `Weave.file_transparent`: weaving a file is transparent
-/

namespace Interlace

open Syntax

namespace Importer

/-- What an importer says of a path: what it remembers, or what its lookup comes to. -/
def answer (i : Importer) (s : ImportState) (path : Text) : Except Failure (Option ArchiveInfo) :=
  match s.cache.get? path with
  | some info => .ok info
  | none => if i.cancelled then .error .cancelled else interpret path (i.lookup path)

/-- Two memories give the same answers. -/
def Agree (i : Importer) (s s' : ImportState) : Prop :=
  ∀ path, i.answer s path = i.answer s' path

theorem Agree.symm {i : Importer} {s s' : ImportState} (h : i.Agree s s') : i.Agree s' s :=
  fun path => (h path).symm

theorem Agree.trans {i : Importer} {s s' s'' : ImportState} (h : i.Agree s s')
    (h' : i.Agree s' s'') : i.Agree s s'' :=
  fun path => (h path).trans (h' path)

end Importer

open Importer

namespace Importing

variable {α β : Type} {i : Importer}

/-- Runs see the memory only through the answers, and change none. -/
structure Transparent (i : Importer) (x : Importing α) : Prop where
  result : ∀ s s', i.Agree s s' → (x.run.run s).1 = (x.run.run s').1
  kept : ∀ s, i.Agree s (x.run.run s).2

/-- Memories that agree still agree after a run on each. -/
theorem Transparent.agree {x : Importing α} (h : Transparent i x) {s s' : ImportState}
    (same : i.Agree s s') : i.Agree (x.run.run s).2 (x.run.run s').2 :=
  (h.kept s).symm.trans (same.trans (h.kept s'))

theorem transparent_pure (a : α) : Transparent i (pure a : Importing α) :=
  ⟨fun _ _ _ => rfl, fun _ _ => rfl⟩

private theorem transparent_throw (failure : Failure) :
    Transparent i (throw failure : Importing α) :=
  ⟨fun _ _ _ => rfl, fun _ _ => rfl⟩

/-- A composed run goes on where its first part ended, unless that failed. -/
theorem run_bind (x : Importing α) (f : α → Importing β) (s : ImportState) :
    (x >>= f).run.run s =
      match x.run.run s with
      | (.ok a, s') => (f a).run.run s'
      | (.error failure, s') => (.error failure, s') := by
  rw [ExceptT.run_bind, StateT.run_bind]
  rcases x.run.run s with ⟨failure | a, s'⟩ <;> rfl

theorem transparent_bind {x : Importing α} {f : α → Importing β} (hx : Transparent i x)
    (hf : ∀ a, Transparent i (f a)) : Transparent i (x >>= f) := by
  refine ⟨fun s s' same => ?_, fun s => ?_⟩
  · have first := hx.result s s' same
    have between := hx.agree same
    rw [run_bind, run_bind]
    -- The first parts give the same, so the second parts are the same step.
    generalize x.run.run s = r at first between ⊢
    generalize x.run.run s' = r' at first between ⊢
    obtain ⟨value, t⟩ := r
    obtain ⟨value', t'⟩ := r'
    cases first
    cases value with
    | error failure => rfl
    | ok a => exact (hf a).result t t' between
  · have between := hx.kept s
    rw [run_bind]
    generalize x.run.run s = r at between ⊢
    obtain ⟨failure | a, t⟩ := r
    · exact between
    · exact between.trans ((hf a).kept t)

theorem transparent_mapM {f : α → Importing β} {l : List α} (hf : ∀ a ∈ l, Transparent i (f a)) :
    Transparent i (l.mapM f) := by
  induction l with
  | nil => exact transparent_pure []
  | cons a l ih =>
    rw [List.mapM_cons]
    refine transparent_bind (hf a List.mem_cons_self) fun b => ?_
    refine transparent_bind (ih fun c hc => hf c (List.mem_cons_of_mem a hc)) fun bs => ?_
    exact transparent_pure _

end Importing

open Importing

/-! ## Looking up -/

namespace Importer

/-- What fetching does: it asks the lookup only for what is not remembered, and remembers what it
yields. -/
theorem run_fetch (i : Importer) (path : Text) (s : ImportState) :
    (i.fetch path).run.run s =
      match s.cache.get? path with
      | some info => (.ok info, s)
      | none =>
        if i.cancelled then (.error .cancelled, s)
        else
          match interpret path (i.lookup path) with
          | .error failure => (.error failure, { s with asked := path :: s.asked })
          | .ok info => (.ok info, ⟨s.cache.insert path info, path :: s.asked⟩) := by
  -- The steps are written out, since the search for the code of `do` blocks stops at `run`.
  have read : (i.fetch path).run.run s =
      (match s.cache.get? path with
      | some info => return info
      | none => do
        if i.cancelled then throw .cancelled
        modify fun s => { s with asked := path :: s.asked }
        match interpret path (i.lookup path) with
        | .error failure => throw failure
        | .ok info =>
          modify fun s => { s with cache := s.cache.insert path info }
          return info : Importing (Option ArchiveInfo)).run.run s := rfl
  rw [read]
  cases s.cache.get? path with
  | some info => rfl
  | none =>
    cases i.cancelled with
    | true => rfl
    | false => cases interpret path (i.lookup path) <;> rfl

/-- Fetching gives the answer. -/
theorem fetch_eq_answer (i : Importer) (path : Text) (s : ImportState) :
    ((i.fetch path).run.run s).1 = i.answer s path := by
  rw [run_fetch, answer]
  cases s.cache.get? path with
  | some info => rfl
  | none =>
    dsimp only
    split
    · rfl
    · cases interpret path (i.lookup path) <;> rfl

/-- Fetching changes no answer. -/
theorem fetch_agree (i : Importer) (path : Text) (s : ImportState) :
    i.Agree s ((i.fetch path).run.run s).2 := by
  rw [run_fetch]
  cases known : s.cache.get? path with
  | some info => exact fun _ => rfl
  | none =>
    dsimp only
    split
    · exact fun _ => rfl
    · rename_i going
      cases found : interpret path (i.lookup path) with
      | error failure => exact fun _ => rfl
      | ok info =>
        -- Only the path that was just looked up is added to what is remembered.
        intro other
        unfold answer
        rw [Dict.get?_insert]
        by_cases same : path = other
        · rw [if_pos same, ← same, known]
          dsimp only
          rw [if_neg going, found]
        · rw [if_neg same]

private theorem fetch_transparent (i : Importer) (path : Text) : Transparent i (i.fetch path) := by
  refine ⟨fun s s' same => ?_, fetch_agree i path⟩
  rw [fetch_eq_answer, fetch_eq_answer, same path]

theorem import?_transparent (i : Importer) (path : Text) : Transparent i (i.import? path) := by
  unfold import?
  split
  · exact transparent_pure _
  · refine transparent_bind (fetch_transparent i path) fun info => ?_
    cases vet path info with
    | ok info => exact transparent_pure _
    | error failure => exact transparent_throw _

theorem packageName_transparent (i : Importer) (path : Text) :
    Transparent i (i.packageName path) := by
  unfold packageName
  exact transparent_bind (import?_transparent i path) fun info => transparent_pure _

end Importer

/-! ## Checking a package -/

namespace Check

theorem importOf_transparent (importer : Importer) (path : Text) (givenName : Option Text) :
    Transparent importer (importOf importer path givenName) := by
  unfold importOf
  cases givenName with
  | none =>
    exact transparent_bind (importer.packageName_transparent path) fun _ => transparent_pure _
  | some name =>
    exact transparent_bind (importer.import?_transparent path) fun _ => transparent_pure _

theorem importsOf_transparent (importer : Importer) (file : SourceFile) :
    Transparent importer (importsOf importer file) := by
  unfold importsOf
  exact transparent_mapM fun part _ => importOf_transparent importer part.1 part.2

/-- Checking a package is transparent. -/
theorem package_transparent (importer : Importer) (importPath : Text) (version : Option Version)
    (files : List SourceFile) :
    Transparent importer (package importPath version files importer) := by
  unfold package
  extract_lets lift
  have lifted : ∀ {α : Type} (r : Except TypeFault α), Transparent importer (lift r) := by
    intro α r
    cases r with
    | ok a => exact transparent_pure a
    | error fault => exact transparent_throw _
  refine transparent_bind (lifted _) fun name => ?_
  refine transparent_bind (transparent_mapM fun file _ => importsOf_transparent importer file) ?_
  -- The rest is computed from the imports and the files.
  refine fun imports => transparent_bind (lifted _) fun declarations => ?_
  extract_lets bare typed
  split
  · exact transparent_throw _
  · exact transparent_pure _

end Check

/-! ## Weaving a file -/

namespace Imports

private theorem missing_transparent (i : Importer) (existing : List ExistingImport)
    (requests : List (Text × Text)) : Transparent i (missing i existing requests) := by
  induction requests with
  | nil => exact transparent_pure _
  | cons request rest ih =>
    obtain ⟨path, wanted⟩ := request
    rw [missing]
    split
    · exact ih
    · cases clash? existing path wanted with
      | some holder => exact transparent_pure _
      | none =>
        refine transparent_bind (import?_transparent i path) fun info => ?_
        exact transparent_bind ih fun lines => transparent_pure _

private theorem reconcile_transparent (i : Importer) (file : SourceFile) (references : ReferenceMap)
    (b : Buffer) : Transparent i (reconcile i file references b) := by
  -- The lookup is asked for the names of imports alone.
  have existing : Transparent i (ExistingImport.ofFile i file) := by
    unfold ExistingImport.ofFile
    refine transparent_mapM fun part _ => ?_
    obtain ⟨declaration, spec, path, givenName⟩ := part
    cases givenName with
    | some name => exact transparent_pure _
    | none => exact transparent_bind (packageName_transparent i path) fun _ => transparent_pure _
  unfold reconcile
  refine transparent_bind existing fun imports => ?_
  refine transparent_bind (missing_transparent i imports _) fun lines => ?_
  cases lines with
  | error fault => exact transparent_pure _
  | ok lines =>
    dsimp only
    split
    · exact transparent_pure _
    · split
      · exact transparent_pure _
      · exact transparent_pure _

end Imports

namespace Weave

/-- Weaving a file is transparent. -/
theorem file_transparent (i : Importer) (s : Scene) (aspects : List Aspect) (lines : Bool) :
    Transparent i (Weave.file s aspects i lines) := by
  unfold Weave.file
  split
  · exact transparent_throw _
  · rename_i d applied _
    extract_lets finish
    -- Once the imports are reconciled, nothing is looked up.
    have rest : ∀ buffer, Transparent i (finish buffer) := by
      intro buffer
      dsimp only [finish]
      split
      · exact transparent_pure _
      · split
        · exact transparent_pure _
        · exact transparent_throw _
    split
    · refine transparent_bind (Imports.reconcile_transparent i s.file _ _) fun reconciled => ?_
      cases reconciled with
      | ok b => exact transparent_bind (transparent_pure b) rest
      | error fault => exact transparent_bind (transparent_throw _) rest
    · exact transparent_bind (transparent_pure _) rest

end Weave

end Interlace
