import Interlace.Dict.Lemmas
import Interlace.Proofs.Decimals
import Interlace.Weave.Draft
import Mathlib.Data.List.Nodup
import Mathlib.Data.List.Perm.Subperm
import Mathlib.Data.Nat.Find

/-!
# Names for packages

Added code refers to a package by a name that means nothing else in the file. The search for it
tries one name after the other; no two of them are the same, and only so many names are taken, so
the search ends.

## Key results

- `Draft.candidate_injective`: the names that are tried differ
- `Draft.Finds`: what an unbounded search for a name comes to
- `Draft.bind_finds`: binding a new package finds what the search finds
- `Draft.ClashFree`: the names of packages mean nothing else and tell the packages apart
- `Draft.bindAll_tellsApart`: the names that any calls get
-/

namespace Interlace

namespace Draft

/-! ## The names that are tried -/

private theorem ofNat_injective {m n : Nat} (h : Text.ofNat m = Text.ofNat n) : m = n := by
  rw [← Text.foldl_addDigit_ofNat m, h, Text.foldl_addDigit_ofNat]

/-- No name is tried twice. -/
theorem candidate_injective (wanted : Text) : Function.Injective (candidate wanted) := by
  have marked : ("__" : Text).length = 2 := rfl
  intro m n same
  have long := congrArg List.length same
  match m, n with
  | 0, 0 | 1, 1 => rfl
  | 0, 1 | 1, 0 | 0, n + 2 | m + 2, 0 =>
    simp only [candidate, List.length_append, marked] at long
    omega
  | 1, n + 2 =>
    -- The number is what makes the name longer.
    have digits := List.length_pos_of_ne_nil (Text.ofNat_ne_nil (n + 2))
    simp only [candidate, List.length_append, marked] at long
    omega
  | m + 2, 1 =>
    have digits := List.length_pos_of_ne_nil (Text.ofNat_ne_nil (m + 2))
    simp only [candidate, List.length_append, marked] at long
    omega
  | m + 2, n + 2 => exact ofNat_injective (List.append_cancel_left same)

variable {d : Draft} {s : Scene} {path wanted name : Text}

/-! ## Names that are taken -/

theorem isTaken_eq_false_iff : d.isTaken s path name = false ↔
    s.types.binds s.index name path = false ∧
      ∀ other, d.names.get? other = some name → other = path := by
  unfold isTaken
  rw [Bool.or_eq_false_iff, List.any_eq_false]
  refine and_congr_right fun _ => ⟨fun free other bound => ?_, fun free (other, bound) listed => ?_⟩
  · have := free (other, name) (d.names.mem_entries_iff.2 bound)
    simpa using this
  · simp only [ne_eq, decide_not, Bool.and_eq_true, decide_eq_true_eq, Bool.not_eq_eq_eq_not,
      Bool.not_true, decide_eq_false_iff_not, not_and, not_not]
    rintro rfl
    exact free other (d.names.mem_entries_iff.1 listed)

/-- The names that can be taken: those of declarations, locals, imports and packages in added
code. -/
def knownNames (d : Draft) (s : Scene) : List Text :=
  let file := s.types.file? s.index
  s.types.declarations.keys
    ++ (file.map fun f => f.locals.keys ++ f.imports.map ImportedPackage.localName).getD []
    ++ d.names.entries.map Prod.snd

private theorem length_knownNames (d : Draft) (s : Scene) :
    (d.knownNames s).length = d.nameCount s := by
  unfold knownNames nameCount
  cases s.types.file? s.index <;> simp [Dict.keys, Dict.size, Nat.add_assoc]

/-- A taken name is one of these. -/
private theorem mem_knownNames_of_isTaken (h : d.isTaken s path name = true) :
    name ∈ d.knownNames s := by
  unfold isTaken PackageTypes.binds at h
  unfold knownNames
  dsimp only
  simp only [List.mem_append]
  -- The cases are those of the test: declared, known in the file, imported, or bound by the run.
  rcases Bool.or_eq_true_iff.1 h with inFile | added
  · left
    rcases Bool.or_eq_true_iff.1 inFile with declared | known
    · exact .inl ((Dict.contains_iff_mem_keys _ _).1 declared)
    · right
      obtain ⟨f, found, known⟩ := (Option.any_eq_true _ _).1 known
      rw [found]
      refine List.mem_append.2 ?_
      rcases Bool.or_eq_true_iff.1 known with local_ | imported
      · exact .inl ((Dict.contains_iff_mem_keys _ _).1 local_)
      · obtain ⟨i, hi, same⟩ := List.any_eq_true.1 imported
        have same := of_decide_eq_true (Bool.and_eq_true_iff.1 same).1
        exact .inr (same ▸ List.mem_map_of_mem hi)
  · right
    obtain ⟨⟨other, bound⟩, listed, same⟩ := List.any_eq_true.1 added
    have same := of_decide_eq_true (Bool.and_eq_true_iff.1 same).1
    exact List.mem_map.2 ⟨(other, bound), listed, same⟩

/-- Some name that is tried is free. -/
private theorem exists_free (d : Draft) (s : Scene) (path wanted : Text) :
    ∃ n ≤ d.nameCount s, d.isTaken s path (candidate wanted n) = false := by
  by_contra none_free
  -- Otherwise there are more names than names that can be taken.
  have taken : ∀ name ∈ (List.range (d.nameCount s + 1)).map (candidate wanted),
      name ∈ d.knownNames s := by
    intro name tried
    obtain ⟨n, small, rfl⟩ := List.mem_map.1 tried
    have small := Nat.le_of_lt_succ (List.mem_range.1 small)
    exact mem_knownNames_of_isTaken
      ((Bool.not_eq_false _).mp fun free => none_free ⟨n, small, free⟩)
  have differ : ((List.range (d.nameCount s + 1)).map (candidate wanted)).Nodup :=
    List.nodup_range.map (candidate_injective wanted)
  have fits := (List.subperm_of_subset differ taken).length_le
  rw [length_knownNames, List.length_map, List.length_range] at fits
  omega

/-! ## The search -/

/-- What a search without bounds comes to: the first name that is not taken, all earlier ones
being taken. -/
def Finds (d : Draft) (s : Scene) (path wanted name : Text) : Prop :=
  ∃ n, name = candidate wanted n ∧ d.isTaken s path name = false ∧
    ∀ m < n, d.isTaken s path (candidate wanted m) = true

/-- The search finds one name. -/
theorem Finds.unique {name' : Text} (h : d.Finds s path wanted name)
    (h' : d.Finds s path wanted name') : name = name' := by
  obtain ⟨n, rfl, free, earlier⟩ := h
  obtain ⟨n', rfl, free', earlier'⟩ := h'
  rcases Nat.lt_trichotomy n n' with lower | rfl | higher
  · rw [earlier' n lower] at free
    cases free
  · rfl
  · rw [earlier n' higher] at free'
    cases free'

/-- With enough fuel, the first free name is found. -/
private theorem freeName_eq {taken : Text → Bool} {fuel attempt n : Nat} (from_ : attempt ≤ n)
    (enough : n < attempt + fuel) (free : taken (candidate wanted n) = false)
    (earlier : ∀ m, attempt ≤ m → m < n → taken (candidate wanted m) = true) :
    freeName taken wanted fuel attempt = candidate wanted n := by
  induction fuel generalizing attempt with
  | zero => omega
  | succ fuel ih =>
    rw [freeName]
    rcases Nat.eq_or_lt_of_le from_ with rfl | later
    · rw [free]
      rfl
    · rw [earlier attempt (Nat.le_refl _) later]
      exact ih later (by omega) fun m low high => earlier m (by omega) high

/-- The bounded search finds what the unbounded one does. -/
private theorem freeName_finds (d : Draft) (s : Scene) (path wanted : Text) :
    d.Finds s path wanted (freeName (d.isTaken s path) wanted (d.nameCount s + 1) 0) := by
  classical
  obtain ⟨bound, small, free⟩ := exists_free d s path wanted
  have some_free : ∃ n, d.isTaken s path (candidate wanted n) = false := ⟨bound, free⟩
  have first := Nat.find_spec some_free
  have least := Nat.find_min' some_free free
  have earlier : ∀ m < Nat.find some_free, d.isTaken s path (candidate wanted m) = true :=
    fun m low => (Bool.not_eq_false _).mp (Nat.find_min some_free low)
  rw [freeName_eq (Nat.zero_le _) (by omega) first fun m _ low => earlier m low]
  exact ⟨_, rfl, first, earlier⟩

/-! ## One call -/

/-- The name that is asked for gives a package a name in the file. -/
def IsName (wanted : Text) : Prop :=
  wanted ≠ blankName ∧ wanted ≠ dotName

/-- A package that has a name keeps it. -/
theorem bind_of_bound (asked : IsName wanted) (bound : d.names.get? path = some name) :
    d.bind s path wanted = (name, d) := by
  unfold bind
  rw [if_neg (by simpa [IsName] using asked), bound]

theorem bind_of_new (asked : IsName wanted) (new : d.names.get? path = none) :
    ∃ name, d.Finds s path wanted name ∧
      d.bind s path wanted = (name, { d with names := d.names.insert path name }) := by
  unfold bind
  rw [if_neg (by simpa [IsName] using asked), new]
  exact ⟨_, freeName_finds d s path wanted, rfl⟩

/-- A name that stands for no package is given back as it is. -/
theorem bind_of_unnamed (unnamed : ¬ IsName wanted) : d.bind s path wanted = (wanted, d) := by
  unfold bind
  rw [if_pos]
  simpa [IsName, or_iff_not_imp_left] using unnamed

/-! ## The invariant -/

/-- The names of packages in added code mean nothing else in the file, and no two packages have
one. -/
structure ClashFree (s : Scene) (d : Draft) : Prop where
  free : ∀ path name, d.names.get? path = some name → s.types.binds s.index name path = false
  apart : ∀ path other name, d.names.get? path = some name → d.names.get? other = some name →
    path = other

/-- The second draft has all names of the first. -/
def Extends (d d' : Draft) : Prop :=
  ∀ path name, d.names.get? path = some name → d'.names.get? path = some name

theorem Extends.refl (d : Draft) : d.Extends d := fun _ _ h => h

theorem Extends.trans {d' d'' : Draft} (h : d.Extends d') (h' : d'.Extends d'') : d.Extends d'' :=
  fun path name bound => h' path name (h path name bound)

theorem clashFree_ofSource (s : Scene) (source : Text) : ClashFree s (ofSource source) :=
  ⟨nofun, nofun⟩

/-- Naming a package keeps all names. -/
theorem extends_bind (d : Draft) (s : Scene) (path wanted : Text) :
    d.Extends (d.bind s path wanted).2 := by
  by_cases asked : IsName wanted
  · -- Only a path without a name gets one, so no name is replaced.
    cases bound : d.names.get? path with
    | some name =>
      rw [bind_of_bound asked bound]
      exact .refl d
    | none =>
      obtain ⟨name, -, eq⟩ := bind_of_new (s := s) asked bound
      intro key given h
      rw [eq, Dict.get?_insert, if_neg]
      · exact h
      · rintro rfl
        rw [bound] at h
        cases h
  · rw [bind_of_unnamed asked]
    exact .refl d

/-- A package has the name that it was given. -/
theorem get?_bind (d : Draft) (s : Scene) (path : Text) (asked : IsName wanted) :
    (d.bind s path wanted).2.names.get? path = some (d.bind s path wanted).1 := by
  cases bound : d.names.get? path with
  | some name => rw [bind_of_bound asked bound, bound]
  | none =>
    obtain ⟨name, -, eq⟩ := bind_of_new (s := s) asked bound
    rw [eq, Dict.get?_insert, if_pos rfl]

/-- Naming a package keeps the names free of clashes. -/
theorem ClashFree.bind (clashFree : ClashFree s d) (path wanted : Text) :
    ClashFree s (d.bind s path wanted).2 := by
  by_cases asked : IsName wanted
  · cases bound : d.names.get? path with
    | some name =>
      rw [bind_of_bound asked bound]
      exact clashFree
    | none =>
      obtain ⟨name, ⟨_, -, free, -⟩, eq⟩ := bind_of_new (s := s) asked bound
      obtain ⟨unbound, other⟩ := isTaken_eq_false_iff.1 free
      have named : ∀ key, (d.names.insert path name).get? key =
          if path = key then some name else d.names.get? key :=
        fun key => d.names.get?_insert path key name
      rw [eq]
      refine ⟨fun key given h => ?_, fun key key' given h h' => ?_⟩
      · rw [named] at h
        split at h
        · rename_i same
          cases h
          exact same ▸ unbound
        · exact clashFree.free key given h
      · -- Of the two packages, one, both or neither may be the new one.
        rw [named] at h h'
        split at h <;> split at h'
        · rename_i same same'
          exact same.symm.trans same'
        · rename_i same _
          cases h
          rw [← same, other key' h']
        · rename_i _ same'
          cases h'
          rw [← same', other key h]
        · exact clashFree.apart key key' given h h'
  · rw [bind_of_unnamed asked]
    exact clashFree

/-! ## Any calls -/

/-- The names that packages get one after the other, and the draft that knows them all. -/
def bindAll (s : Scene) : Draft → List (Text × Text) → List Text × Draft
  | d, [] => ([], d)
  | d, (path, wanted) :: calls =>
    let (name, d) := d.bind s path wanted
    let (names, d) := bindAll s d calls
    (name :: names, d)

private theorem length_bindAll (s : Scene) (d : Draft) (calls : List (Text × Text)) :
    (bindAll s d calls).1.length = calls.length := by
  induction calls generalizing d with
  | nil => rfl
  | cons call calls ih => exact congrArg Nat.succ (ih _)

theorem ClashFree.bindAll (clashFree : ClashFree s d) (calls : List (Text × Text)) :
    ClashFree s (bindAll s d calls).2 := by
  induction calls generalizing d with
  | nil => exact clashFree
  | cons call calls ih => exact ih (clashFree.bind call.1 call.2)

private theorem extends_bindAll (d : Draft) (s : Scene) (calls : List (Text × Text)) :
    d.Extends (bindAll s d calls).2 := by
  induction calls generalizing d with
  | nil => exact .refl d
  | cons call calls ih => exact (extends_bind d s call.1 call.2).trans (ih _)

/-- Every call is made on the draft that the calls before it lead to. -/
private theorem bindAll_getElem? (s : Scene) (d : Draft) (calls : List (Text × Text)) (i : Nat)
    (inside : i < calls.length) :
    (bindAll s d calls).1[i]? =
      some ((bindAll s d (calls.take i)).2.bind s calls[i].1 calls[i].2).1 := by
  induction calls generalizing d i with
  | nil => cases inside
  | cons call calls ih =>
    cases i with
    | zero => rfl
    | succ i => exact ih _ i (Nat.lt_of_succ_lt_succ inside)

/-- After all calls, every package has the name that it got. -/
private theorem get?_bindAll (d : Draft) (s : Scene) {calls : List (Text × Text)}
    (asked : ∀ call ∈ calls, IsName call.2) (i : Nat) (inside : i < calls.length) :
    (bindAll s d calls).2.names.get? calls[i].1 = (bindAll s d calls).1[i]? := by
  induction calls generalizing d i with
  | nil => cases inside
  | cons call calls ih =>
    obtain ⟨first, others⟩ := List.forall_mem_cons.1 asked
    cases i with
    | zero => exact extends_bindAll _ s calls _ _ (get?_bind d s call.1 first)
    | succ i => exact ih _ others i (Nat.lt_of_succ_lt_succ inside)

/-- One call on a draft gives the name of the package, or what the unbounded search finds. -/
private theorem bind_outcome (d : Draft) (s : Scene) (path : Text) (asked : IsName wanted) :
    d.names.get? path = some (d.bind s path wanted).1 ∨
      d.names.get? path = none ∧ d.Finds s path wanted (d.bind s path wanted).1 := by
  cases bound : d.names.get? path with
  | some name => exact .inl (by rw [bind_of_bound asked bound])
  | none =>
    obtain ⟨name, found, eq⟩ := bind_of_new (s := s) asked bound
    exact .inr ⟨rfl, by rwa [eq]⟩

/-- The names that calls get, each with what it was asked for. -/
def answers (s : Scene) (d : Draft) (calls : List (Text × Text)) : List ((Text × Text) × Text) :=
  calls.zip (bindAll s d calls).1

/-- The names that calls get which are made one after the other on a draft: each gets one, one
package gets one name, two packages get two, and none of the names means anything else. -/
structure TellsApart (s : Scene) (d : Draft) (calls : List (Text × Text)) : Prop where
  total : (bindAll s d calls).1.length = calls.length
  /-- A call gets the name that its package has, and otherwise what the unbounded search comes
  to. -/
  ends : ∀ (i : Nat) path wanted name,
    (answers s d calls)[i]? = some ((path, wanted), name) →
      let known := (bindAll s d (calls.take i)).2
      name = (known.bind s path wanted).1 ∧ (known.names.get? path = some name ∨
        known.names.get? path = none ∧ known.Finds s path wanted name)
  unbound : ∀ path wanted name, ((path, wanted), name) ∈ answers s d calls →
    s.types.binds s.index name path = false
  apart : ∀ path wanted name other wanted' name', ((path, wanted), name) ∈ answers s d calls →
    ((other, wanted'), name') ∈ answers s d calls → (path = other ↔ name = name')

/-- Whatever names are asked for while a file is woven, packages are told apart. -/
theorem bindAll_tellsApart (s : Scene) (source : Text) {calls : List (Text × Text)}
    (asked : ∀ call ∈ calls, IsName call.2) : TellsApart s (.ofSource source) calls := by
  have long := length_bindAll s (.ofSource source) calls
  have clashFree := (clashFree_ofSource s source).bindAll calls
  -- After all calls, every package has the name that each of its calls got.
  have known : ∀ path wanted name, ((path, wanted), name) ∈ answers s (.ofSource source) calls →
      (bindAll s (.ofSource source) calls).2.names.get? path = some name := by
    intro path wanted name listed
    obtain ⟨i, at_i⟩ := List.mem_iff_getElem?.1 listed
    obtain ⟨called, answered⟩ := List.getElem?_zip_eq_some.1 at_i
    obtain ⟨below, call⟩ := List.getElem?_eq_some_iff.1 called
    have got := get?_bindAll (.ofSource source) s asked i below
    rwa [call, answered] at got
  refine ⟨long, fun i path wanted name found => ?_, fun path wanted name listed => ?_,
    fun path wanted name other wanted' name' listed listed' => ⟨?_, ?_⟩⟩
  · obtain ⟨called, answered⟩ := List.getElem?_zip_eq_some.1 found
    obtain ⟨below, call⟩ := List.getElem?_eq_some_iff.1 called
    have got := bindAll_getElem? s (.ofSource source) calls i below
    rw [call, answered] at got
    have got := Option.some.inj got
    have named : IsName wanted := asked _ (List.mem_of_getElem? called)
    have outcome := bind_outcome (bindAll s (.ofSource source) (calls.take i)).2 s path named
    rw [← got] at outcome
    exact ⟨got, outcome⟩
  · exact clashFree.free path name (known path wanted name listed)
  · rintro rfl
    exact Option.some.inj ((known path wanted name listed).symm.trans
      (known path wanted' name' listed'))
  · rintro rfl
    exact clashFree.apart path other name (known _ _ _ listed) (known _ _ _ listed')

end Draft

end Interlace
