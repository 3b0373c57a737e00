import Interlace.Proofs.ImportMemory

/-!
# Calls to an importer, one after another

An importer remembers what its lookup yielded, and nothing else tells a call of the calls before it.
So every call gives what it would give to an importer that remembers nothing, which is what the
lookup alone comes to; and once a lookup has not failed for a path, the path is not looked up again.

## Key results

- `Importer.run_import?`, `Importer.run_reply`: what a call does
- `Importer.Remembers`: what holds of the memory of an importer
- `Importer.Remembers.reply`: every call keeps it
- `Importer.serve_memoryless`: calls one after another
-/

namespace Interlace

open Importing

/-- What may be asked of an importer. -/
inductive ImportCall where
  /-- The metadata of a path. -/
  | metadata (path : Text)
  /-- The name that the package of a path declares. -/
  | packageName (path : Text)

/-- What an importer gives. -/
inductive ImportReply where
  | metadata (info : Option ArchiveInfo)
  | packageName (name : Text)
  deriving DecidableEq

namespace ImportCall

/-- The path that a call is about. -/
def path : ImportCall → Text
  | metadata path => path
  | packageName path => path

/-- What a call gives for the metadata of its path. The name is guessed if they do not tell it. -/
def give : ImportCall → Option ArchiveInfo → ImportReply
  | metadata _, info => .metadata info
  | packageName path, info =>
    .packageName ((info.bind ArchiveInfo.packageName).getD (PackageName.guess path))

end ImportCall

namespace Importer

variable {i : Importer} {s : ImportState} {path : Text}

/-- Answers a call. -/
def reply (i : Importer) : ImportCall → Importing ImportReply
  | .metadata path => return .metadata (← i.import? path)
  | .packageName path => return .packageName (← i.packageName path)

/-- The replies to calls made one after another, and what is remembered behind them. -/
def serve (i : Importer) : List ImportCall → ImportState →
    List (Except Failure ImportReply) × ImportState
  | [], s => ([], s)
  | call :: calls, s =>
    let (first, s) := (i.reply call).run.run s
    let (others, s) := i.serve calls s
    (first :: others, s)

/-! ## Without a memory -/

/-- What the lookup alone says of a path. -/
def lookedUp (i : Importer) (path : Text) : Except Failure (Option ArchiveInfo) :=
  if isBuiltIn path then .ok none else (interpret path (i.lookup path)).bind (vet path)

/-- What the lookup alone says to a call. -/
def direct (i : Importer) (call : ImportCall) : Except Failure ImportReply :=
  (i.lookedUp call.path).map call.give

/-! ## What a call does -/

/-- Paths with an archive are fetched, and what was fetched is checked each time. -/
theorem run_import? (i : Importer) (path : Text) (s : ImportState) :
    (i.import? path).run.run s =
      if isBuiltIn path then (.ok none, s)
      else (((i.fetch path).run.run s).1.bind (vet path), ((i.fetch path).run.run s).2) := by
  unfold import?
  split
  · rfl
  · rw [run_bind]
    rcases (i.fetch path).run.run s with ⟨failure | info, s'⟩
    · rfl
    · dsimp only [Except.bind]
      cases vet path info <;> rfl

/-- A call gives what the metadata of its path come to. -/
theorem run_reply (i : Importer) (call : ImportCall) (s : ImportState) :
    (i.reply call).run.run s =
      (((i.import? call.path).run.run s).1.map call.give,
        ((i.import? call.path).run.run s).2) := by
  cases call with
  | metadata path =>
    unfold reply
    rw [run_bind]
    dsimp only [ImportCall.path]
    rcases (i.import? path).run.run s with ⟨failure | info, s'⟩ <;> rfl
  | packageName path =>
    unfold reply packageName
    rw [run_bind, run_bind]
    dsimp only [ImportCall.path]
    rcases (i.import? path).run.run s with ⟨failure | info, s'⟩ <;> rfl

/-- A call that nothing is remembered for gives what the lookup alone says. -/
private theorem reply_fresh (going : i.cancelled = false) (call : ImportCall) :
    ((i.reply call).run.run .fresh).1 = i.direct call := by
  have answered (path : Text) : i.answer .fresh path = interpret path (i.lookup path) := by
    rw [answer, going]
    rfl
  have metadata (path : Text) : ((i.import? path).run.run .fresh).1 = i.lookedUp path := by
    rw [run_import?, lookedUp, ← answered, ← fetch_eq_answer]
    split <;> rfl
  rw [run_reply, metadata]
  rfl

private theorem reply_transparent (i : Importer) (call : ImportCall) :
    Transparent i (i.reply call) := by
  cases call with
  | metadata path => exact transparent_bind (import?_transparent i path) fun _ => transparent_pure _
  | packageName path =>
    exact transparent_bind (packageName_transparent i path) fun _ => transparent_pure _

/-! ## What is remembered -/

/-- An importer remembers what its lookup comes to. Lookups that fail apart, it asked once for what
it remembers, and for nothing else. -/
structure Remembers (i : Importer) (s : ImportState) : Prop where
  cached : ∀ path info, s.cache.get? path = some info → interpret path (i.lookup path) = .ok info
  asked : ∀ path found, i.lookup path = .ok found →
    s.asked.count path = if s.cache.contains path then 1 else 0

private theorem remembers_fresh (i : Importer) : i.Remembers .fresh :=
  ⟨fun _ _ => nofun, fun _ _ _ => rfl⟩

/-- What the lookup finds comes to something. -/
private theorem interpret_ok (path : Text) (found : Option Text) :
    interpret path (.ok found) = .ok (found.bind fun bytes => (Archive.read bytes).toOption) := by
  cases found <;> rfl

theorem Remembers.fetch (h : i.Remembers s) (path : Text) :
    i.Remembers ((i.fetch path).run.run s).2 := by
  rw [run_fetch]
  cases known : s.cache.get? path with
  | some info => exact h
  | none =>
    dsimp only
    split
    · exact h
    cases answer : interpret path (i.lookup path) with
    | error failure =>
      -- Only the number of failing lookups has changed.
      refine ⟨h.cached, fun other found yields => ?_⟩
      have apart : path ≠ other := by
        rintro rfl
        rw [yields, interpret_ok] at answer
        cases answer
      exact (List.count_cons_of_ne apart).trans (h.asked other found yields)
    | ok info =>
      refine ⟨fun other remembered held => ?_, fun other found yields => ?_⟩
      · rw [Dict.get?_insert] at held
        split at held
        · rename_i same
          cases held
          exact same ▸ answer
        · exact h.cached other remembered held
      · have before := h.asked other found yields
        rw [Dict.contains] at before
        rw [Dict.contains, Dict.get?_insert]
        by_cases same : path = other
        · subst same
          rw [known] at before
          rw [if_pos rfl, List.count_cons_self, before]
          rfl
        · rw [if_neg same, ← before]
          exact List.count_cons_of_ne same

/-- Every call keeps what holds of the memory. -/
theorem Remembers.reply (h : i.Remembers s) (call : ImportCall) :
    i.Remembers ((i.reply call).run.run s).2 := by
  rw [run_reply, run_import?]
  split
  · exact h
  · exact h.fetch call.path

theorem Remembers.serve (h : i.Remembers s) (calls : List ImportCall) :
    i.Remembers (i.serve calls s).2 := by
  induction calls generalizing s with
  | nil => exact h
  | cons call calls ih => exact ih (h.reply call)

/-! ## Calls one after another -/

/-- Calls give what they give to an importer whose memory gives the same answers. -/
private theorem serve_eq_map (i : Importer) (calls : List ImportCall) {s' : ImportState}
    (same : i.Agree s' s) :
    (i.serve calls s).1 = calls.map fun call => ((i.reply call).run.run s').1 := by
  induction calls generalizing s with
  | nil => rfl
  | cons call calls ih =>
    have transparent := i.reply_transparent call
    have first := transparent.result s' s same
    have others := ih (same.trans (transparent.kept s))
    rw [List.map_cons, first, ← others]
    rfl

/-- Whatever was asked before, a call gives what it gives to an importer that remembers nothing,
which is what the lookup alone says. Only what the lookup yields is remembered, and no path is
looked up again after a lookup that did not fail. -/
theorem serve_memoryless (going : i.cancelled = false) (calls : List ImportCall) :
    (i.serve calls .fresh).1 = calls.map (fun call => ((i.reply call).run.run .fresh).1) ∧
    (i.serve calls .fresh).1 = calls.map i.direct ∧
    (∀ path info, (i.serve calls .fresh).2.cache.get? path = some info →
      ∃ found, i.lookup path = .ok found ∧
        info = found.bind fun bytes => (Archive.read bytes).toOption) ∧
    ∀ path found, i.lookup path = .ok found → (i.serve calls .fresh).2.asked.count path ≤ 1 := by
  have alone := i.serve_eq_map calls (s := .fresh) fun _ => rfl
  have remembers := i.remembers_fresh.serve calls
  refine ⟨alone, ?_, fun path info held => ?_, fun path found yields => ?_⟩
  · rw [alone]
    exact List.map_congr_left fun call _ => reply_fresh going call
  · have answer := remembers.cached path info held
    cases yields : i.lookup path with
    | ok found =>
      rw [yields, interpret_ok] at answer
      cases answer
      exact ⟨found, rfl, rfl⟩
    | error failure =>
      -- A lookup that fails comes to a failure.
      rw [yields, interpret] at answer
      split at answer <;> cases answer
  · rw [remembers.asked path found yields]
    split <;> decide

/-- Archives that can be read, that are too new, that cannot be read and that are missing; all else
fails. -/
def mixedLookup : ArchiveLookup := fun path =>
  if path = "x/yaml" then .ok (some (Archive.build (Archive.definition "go1.22" "yaml" [])))
  else if path = "new" then .ok (some (Archive.build (Archive.definition "go1.99" "new" [])))
  else if path = "broken" then .ok (some "no archive")
  else if path = "go-mux" then .ok none
  else .error (.validation "no such package")

/-- Calls for paths of all kinds, each made twice. -/
def mixedCalls : List ImportCall :=
  [.packageName "x/yaml", .metadata "new", .metadata "gone", .packageName "broken",
    .packageName "go-mux", .metadata "gone", .packageName "go-mux", .packageName "broken",
    .metadata "new", .packageName "x/yaml"]

/-- An archive that cannot be read is remembered as such, and one that is missing is looked up once
for both calls. -/
theorem serve_memoryless_mixed :
    let i : Importer := ⟨mixedLookup, false⟩
    let (replies, s) := i.serve mixedCalls .fresh
    i.cancelled = false ∧
    replies = mixedCalls.map (fun call => ((i.reply call).run.run .fresh).1) ∧
    replies = mixedCalls.map i.direct ∧
    (s.cache.get? "broken" = some none ∧ ∃ found, i.lookup "broken" = .ok found ∧
      none = found.bind fun bytes => (Archive.read bytes).toOption) ∧
    i.lookup "go-mux" = .ok none ∧ s.asked.count (Text.ofString "go-mux") ≤ 1 := by
  obtain ⟨fresh, direct, cached, once⟩ :=
    serve_memoryless (i := ⟨mixedLookup, false⟩) rfl mixedCalls
  have remembered : (serve ⟨mixedLookup, false⟩ mixedCalls .fresh).2.cache.get? "broken" =
      some none := by decide +kernel
  exact ⟨rfl, fresh, direct, ⟨remembered, cached _ _ remembered⟩, rfl, once _ none rfl⟩

end Importer

end Interlace
