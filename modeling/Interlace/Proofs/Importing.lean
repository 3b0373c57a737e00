import Interlace.Dict.Lemmas
import Interlace.Typing.Check
import Mathlib.Data.List.Forall2

/-!
# What looking dependencies up ensures

A computation that may look dependencies up is described by what its successful runs keep and
give: `Importing.Ensures I x Q` says that a run of `x` that starts in a state with `I` and gives
a value ends in a state with `I` and gives a value with `Q`.

## Key results

- `Importing.ensures_bind`, `Importing.ensures_mapM`: the rules for composed computations
- `Importer.import?_ensures_lookup`: what an import map lets through is in the map, unless it
  needs no archive
- `Check.importsOf_ensures`: the imports of a file come from its import specifications
-/

namespace Interlace

open Syntax

namespace Importing

variable {α β : Type}

/-- A run from one state gives a value and ends in another state. -/
def Yields (x : Importing α) (s : ImportState) (a : α) (s' : ImportState) : Prop :=
  x.run.run s = (.ok a, s')

/-- Successful runs keep `I` and give values with `Q`. -/
def Ensures (I : ImportState → Prop) (x : Importing α) (Q : α → Prop) : Prop :=
  ∀ s a s', I s → x.Yields s a s' → I s' ∧ Q a

/-! ## Runs -/

/-- A returned value changes nothing. -/
theorem yields_pure {a b : α} {s s' : ImportState} :
    Yields (pure a) s b s' ↔ a = b ∧ s = s' := by
  show ((Except.ok a, s) : Except Failure α × ImportState) = (.ok b, s') ↔ _
  simp

/-- A failure gives no value. -/
theorem not_yields_throw {failure : Failure} {a : α} {s s' : ImportState} :
    ¬ Yields (throw failure) s a s' := by
  show ¬ ((Except.error failure, s) : Except Failure α × ImportState) = (.ok a, s')
  simp

/-- A composed run is a run of the first part and then one of the second. -/
theorem yields_bind {x : Importing α} {f : α → Importing β} {s s'' : ImportState} {b : β} :
    Yields (x >>= f) s b s'' ↔ ∃ a s', Yields x s a s' ∧ Yields (f a) s' b s'' := by
  unfold Yields
  rw [ExceptT.run_bind, StateT.run_bind]
  -- A failure of the first part is the failure of the whole, and both sides are false.
  rcases first : x.run.run s with ⟨failure | a, s'⟩
  · constructor
    · intro h
      cases h
    · rintro ⟨a, s', h, -⟩
      cases h
  · constructor
    · exact fun h => ⟨a, s', rfl, h⟩
    · rintro ⟨a, s', h, second⟩
      cases h
      exact second

/-- The state is read as it is. -/
private theorem yields_get {a s s' : ImportState} : Yields get s a s' ↔ s = a ∧ s = s' := by
  show ((Except.ok s, s) : Except Failure ImportState × ImportState) = (.ok a, s') ↔ _
  simp

/-- The state is changed. -/
private theorem yields_modify {f : ImportState → ImportState} {s s' : ImportState} {u : Unit} :
    Yields (modify f) s u s' ↔ f s = s' := by
  show ((Except.ok (), f s) : Except Failure Unit × ImportState) = (.ok u, s') ↔ _
  simp

/-- A run that gives a value ends in some state. -/
theorem exists_yields_iff {x : Importing α} {s : ImportState} {a : α} :
    (∃ s', Yields x s a s') ↔ (x.run.run s).1 = .ok a := by
  constructor
  · rintro ⟨s', run⟩
    exact congrArg Prod.fst run
  · intro value
    exact ⟨(x.run.run s).2, Prod.ext value rfl⟩

/-! ## Rules -/

variable {I : ImportState → Prop} {x : Importing α} {Q : α → Prop} {R : β → Prop}

theorem ensures_pure {a : α} (h : Q a) : Ensures I (pure a) Q := by
  intro s b s' hs run
  obtain ⟨rfl, rfl⟩ := yields_pure.1 run
  exact ⟨hs, h⟩

theorem ensures_throw {failure : Failure} : Ensures I (throw failure) Q :=
  fun _ _ _ _ run => absurd run not_yields_throw

theorem ensures_bind {f : α → Importing β} (hx : Ensures I x Q)
    (hf : ∀ a, Q a → Ensures I (f a) R) : Ensures I (x >>= f) R := by
  intro s b s'' hs run
  obtain ⟨a, s', first, second⟩ := yields_bind.1 run
  obtain ⟨hs', ha⟩ := hx s a s' hs first
  exact hf a ha s' b s'' hs' second

private theorem ensures_mono {Q' : α → Prop} (hx : Ensures I x Q) (h : ∀ a, Q a → Q' a) :
    Ensures I x Q' := by
  intro s a s' hs run
  obtain ⟨hs', ha⟩ := hx s a s' hs run
  exact ⟨hs', h a ha⟩

/-- Every element is treated in turn. -/
theorem ensures_mapM {f : α → Importing β} {T : α → β → Prop} {l : List α}
    (h : ∀ a ∈ l, Ensures I (f a) (T a)) : Ensures I (l.mapM f) (List.Forall₂ T l) := by
  induction l with
  | nil =>
    rw [List.mapM_nil]
    exact ensures_pure .nil
  | cons a l ih =>
    rw [List.mapM_cons]
    refine ensures_bind (h a List.mem_cons_self) fun b hb => ?_
    refine ensures_bind (ih fun c hc => h c (List.mem_cons_of_mem a hc)) fun bs hbs => ?_
    exact ensures_pure (.cons hb hbs)

/-- What is related to a list, element by element, comes from its elements. -/
theorem exists_of_forall₂ {T : α → β → Prop} {l : List α} {m : List β}
    (h : List.Forall₂ T l m) {b : β} (hb : b ∈ m) : ∃ a ∈ l, T a b := by
  obtain ⟨n, hn, rfl⟩ := List.getElem_of_mem hb
  have hl : n < l.length := h.length_eq ▸ hn
  exact ⟨l[n], List.getElem_mem hl, h.get hl hn⟩

end Importing

open Importing

/-! ## Looking up in an import map -/

/-- Everything that is remembered is in an import map. -/
def ImportState.Within (m : ImportMap) (s : ImportState) : Prop :=
  ∀ path, s.cache.contains path → m.contains path

/-- Nothing is remembered at first. -/
theorem ImportState.fresh_within (m : ImportMap) : ImportState.fresh.Within m := by
  intro path h
  cases h

/-- A path that is found in an import map is in the map. -/
private theorem ImportMap.contains_of_lookup {m : ImportMap} {disk : Disk} {path : Text}
    {info : Option ArchiveInfo} (h : Importer.interpret path (m.lookup disk path) = .ok info) :
    m.contains path := by
  unfold ImportMap.contains
  cases found : m.archive? path with
  | some file => rfl
  | none =>
    -- The lookup fails, and whatever it fails with, interpreting the failure fails.
    simp only [ImportMap.lookup, found, Importer.interpret] at h
    split at h <;> cases h

namespace Importer

/-- What an importer over an import map fetches is in the map. -/
private theorem fetch_ensures_lookup (m : ImportMap) (disk : Disk) (cancelled : Bool)
    (path : Text) : Ensures (ImportState.Within m) (fetch ⟨m.lookup disk, cancelled⟩ path)
      fun _ => m.contains path := by
  intro s info s' hs run
  unfold fetch at run
  obtain ⟨_, _, read, run⟩ := yields_bind.1 run
  obtain ⟨rfl, rfl⟩ := yields_get.1 read
  cases known : s.cache.get? path with
  | some remembered =>
    -- What is remembered is in the map, since `Within` held before.
    simp only [known] at run
    obtain ⟨-, rfl⟩ := yields_pure.1 run
    exact ⟨hs, hs path (by simp [Dict.contains, known])⟩
  | none =>
    simp only [known] at run
    cases cancelled with
    | true =>
      -- An importer that is cancelled looks nothing up.
      obtain ⟨_, _, stopped, -⟩ := yields_bind.1 run
      exact absurd stopped not_yields_throw
    | false =>
      simp only [Bool.false_eq_true, ↓reduceIte] at run
      obtain ⟨_, _, asked, run⟩ := yields_bind.1 run
      cases yields_modify.1 asked
      cases answer : interpret path (m.lookup disk path) with
      | error failure =>
        simp only [answer] at run
        exact absurd run not_yields_throw
      | ok found =>
        simp only [answer] at run
        obtain ⟨_, _, kept, run⟩ := yields_bind.1 run
        cases yields_modify.1 kept
        obtain ⟨-, rfl⟩ := yields_pure.1 run
        -- Only the path that was just found is added to what is remembered.
        have listed := ImportMap.contains_of_lookup answer
        refine ⟨fun other h => ?_, listed⟩
        simp only [Dict.contains, Dict.get?_insert] at h
        split at h
        · rename_i same
          exact same ▸ listed
        · exact hs other h

/-- What an importer over an import map lets through needs no archive or is in the map. -/
theorem import?_ensures_lookup (m : ImportMap) (disk : Disk) (cancelled : Bool) (path : Text) :
    Ensures (ImportState.Within m) (import? ⟨m.lookup disk, cancelled⟩ path)
      fun _ => isBuiltIn path ∨ m.contains path := by
  unfold import?
  split
  · rename_i builtIn
    exact ensures_pure (.inl builtIn)
  · refine ensures_bind (fetch_ensures_lookup m disk cancelled path) fun info listed => ?_
    split
    · exact ensures_pure (.inr listed)
    · exact ensures_throw

end Importer

/-! ## The imports of a file -/

namespace Check

variable {I : ImportState → Prop} {P : Text → Prop} {importer : Importer}

/-- The import of a specification has its path, and the importer let the path through. -/
private theorem importOf_ensures (h : ∀ path, Ensures I (importer.import? path) fun _ => P path)
    (path : Text) (givenName : Option Text) :
    Ensures I (importOf importer path givenName) fun i => i.path = path ∧ P path := by
  unfold importOf
  cases givenName with
  | none =>
    -- Without a name of its own, an import takes the name of the package that it leads to.
    have named : Ensures I (importer.packageName path) fun _ => P path := by
      unfold Importer.packageName
      exact ensures_bind (h path) fun _ listed => ensures_pure listed
    exact ensures_bind named fun _ listed => ensures_pure ⟨rfl, listed⟩
  | some name => exact ensures_bind (h path) fun _ listed => ensures_pure ⟨rfl, listed⟩

/-- The path is the contents of a literal in the file. -/
def Spells (file : SourceFile) (path : Text) : Prop :=
  ∃ literal, path = Text.unquote (file.text literal)

/-- The path of an import specification is spelled in the file. -/
private theorem spells_of_specParts? {file : SourceFile} {spec : Tree} {path : Text}
    {givenName : Option Text} (h : specParts? file spec = some (path, givenName)) :
    Spells file path := by
  obtain ⟨literal, -, eq⟩ := Option.map_eq_some_iff.1 h
  cases eq
  exact ⟨literal, rfl⟩

/-- The imports of a file are spelled in it, and the importer let them through. -/
theorem importsOf_ensures (h : ∀ path, Ensures I (importer.import? path) fun _ => P path)
    (file : SourceFile) :
    Ensures I (importsOf importer file) fun imports =>
      ∀ i ∈ imports, Spells file i.path ∧ P i.path := by
  unfold importsOf
  refine ensures_mono (ensures_mapM fun part _ => importOf_ensures h part.1 part.2) ?_
  intro imports related i hi
  obtain ⟨part, hpart, path, listed⟩ := exists_of_forall₂ related hi
  obtain ⟨spec, -, parts⟩ := List.mem_filterMap.1 hpart
  exact ⟨path ▸ spells_of_specParts? parts, path ▸ listed⟩

end Check

end Interlace
