import Interlace.Dict

/-!
# Dictionaries through their lookup

What the operations on dictionaries do to `Dict.get?`.

## Key results

- `Dict.get?_insert`: setting a key changes the value of that key only
- `Dict.mem_entries_iff`: the entries are the keys with their values
- `Dict.ext_get?`: a dictionary is determined by the values of its keys, since the order of the
  entries is part of the type
- `Dict.ofList_entries`, `TextSet.ofList_toList`: dictionaries and sets are what their entries make
-/

namespace Interlace.Dict

variable {α β : Type}

/-- Looking up in an entry list after setting a key. -/
theorem find?_insertEntry (key other : Text) (value : α) (l : List (Text × α)) :
    (insertEntry key value l).find? (fun e => e.1 = other) =
      if key = other then some (key, value) else l.find? fun e => e.1 = other := by
  induction l with
  | nil => by_cases h : key = other <;> simp [insertEntry, h]
  | cons a l ih =>
    obtain ⟨k, v⟩ := a
    rw [insertEntry]
    split
    · by_cases h : key = other <;> simp [List.find?_cons, h]
    · split
      · rename_i eq
        subst eq
        by_cases h : key = other <;> simp [h]
      · rename_i ne
        -- An entry that is passed over has another key than the one that is set.
        by_cases hk : k = other
        · have h : key ≠ other := fun e => ne (e.trans hk.symm)
          simp [hk, h]
        · simp [hk, ih]

@[simp] theorem get?_empty (key : Text) : (empty : Dict α).get? key = none := rfl

/-- After setting a key, it has the value, and the others are as before. -/
theorem get?_insert (d : Dict α) (key other : Text) (value : α) :
    (d.insert key value).get? other = if key = other then some value else d.get? other := by
  rw [get?, insert, find?_insertEntry]
  split <;> rfl

/-- In a list with ascending keys, the entries are what is found by their keys. -/
theorem find?_eq_some_iff_mem {l : List (Text × α)} (h : Ascending l) {e : Text × α} :
    l.find? (fun x => x.1 = e.1) = some e ↔ e ∈ l := by
  induction l with
  | nil => simp
  | cons a l ih =>
    obtain ⟨first, rest⟩ := List.pairwise_cons.1 h
    rw [List.find?_cons]
    by_cases hk : a.1 = e.1
    · simp only [hk, decide_true, Option.some.injEq, List.mem_cons]
      constructor
      · exact fun eq => Or.inl eq.symm
      · rintro (eq | mem)
        · exact eq.symm
        · exact absurd (hk ▸ first e mem) (List.lt_irrefl _)
    · have ne : e ≠ a := fun eq => hk (eq ▸ rfl)
      simp [hk, ih rest, ne]

/-- The entries are the keys with their values. -/
theorem mem_entries_iff (d : Dict α) {key : Text} {value : α} :
    (key, value) ∈ d.entries ↔ d.get? key = some value := by
  rw [← find?_eq_some_iff_mem d.ascending, get?, Option.map_eq_some_iff]
  constructor
  · exact fun h => ⟨_, h, rfl⟩
  · rintro ⟨⟨k, v⟩, h, rfl⟩
    have hk : k = key := by simpa using List.find?_some h
    exact hk ▸ h

/-- No key is listed twice. -/
theorem nodup_keys (d : Dict α) : d.keys.Nodup := by
  refine List.pairwise_map.2 (d.ascending.imp fun {a b} less same => ?_)
  exact List.lt_irrefl b.1 (same ▸ less)

/-- Lists with ascending keys and the same entries are equal. -/
theorem eq_of_mem_iff {l m : List (Text × α)} (hl : Ascending l) (hm : Ascending m)
    (h : ∀ e, e ∈ l ↔ e ∈ m) : l = m := by
  induction l generalizing m with
  | nil =>
    cases m with
    | nil => rfl
    | cons b m => exact absurd ((h b).2 List.mem_cons_self) List.not_mem_nil
  | cons a l ih =>
    cases m with
    | nil => exact absurd ((h a).1 List.mem_cons_self) List.not_mem_nil
    | cons b m =>
      obtain ⟨la, hl'⟩ := List.pairwise_cons.1 hl
      obtain ⟨mb, hm'⟩ := List.pairwise_cons.1 hm
      -- Each head is the least entry of its list, so it cannot stand further down in the other.
      have heads : a = b := by
        rcases List.mem_cons.1 ((h a).1 List.mem_cons_self) with eq | ha
        · exact eq
        · rcases List.mem_cons.1 ((h b).2 List.mem_cons_self) with eq | hb
          · exact eq.symm
          · exact absurd (List.lt_trans (mb a ha) (la b hb)) (List.lt_irrefl _)
      subst heads
      refine congrArg (a :: ·) (ih hl' hm' fun e => ?_)
      constructor
      · intro he
        rcases List.mem_cons.1 ((h e).1 (List.mem_cons_of_mem _ he)) with eq | he'
        · exact absurd (eq ▸ la e he) (List.lt_irrefl _)
        · exact he'
      · intro he
        rcases List.mem_cons.1 ((h e).2 (List.mem_cons_of_mem _ he)) with eq | he'
        · exact absurd (eq ▸ mb e he) (List.lt_irrefl _)
        · exact he'

/-- The order of the entries is part of the type, so dictionaries with the same are equal. -/
theorem ext_entries {d e : Dict α} (h : d.entries = e.entries) : d = e := by
  cases d
  cases e
  cases h
  rfl

/-- A dictionary is determined by the values of its keys. -/
theorem ext_get? {d e : Dict α} (h : ∀ key, d.get? key = e.get? key) : d = e := by
  refine ext_entries (eq_of_mem_iff d.ascending e.ascending fun (key, value) => ?_)
  rw [mem_entries_iff, mem_entries_iff, h]

theorem eq_empty_of_isEmpty {d : Dict α} (h : d.isEmpty) : d = .empty :=
  ext_entries (List.isEmpty_iff.1 h)

/-- A key has a value if it is among the keys. -/
theorem contains_iff_mem_keys (d : Dict α) (key : Text) : d.contains key ↔ key ∈ d.keys := by
  rw [contains, Option.isSome_iff_exists, keys, List.mem_map]
  constructor
  · rintro ⟨value, h⟩
    exact ⟨(key, value), d.mem_entries_iff.2 h, rfl⟩
  · rintro ⟨⟨k, value⟩, h, rfl⟩
    exact ⟨value, d.mem_entries_iff.1 h⟩

/-- Changing the value of a key leaves the others as they are. -/
theorem get?_alter (d : Dict α) (key other : Text) (f : Option α → α) :
    (d.alter key f).get? other = if key = other then some (f (d.get? key)) else d.get? other :=
  d.get?_insert key other _

/-- Every value is changed and no key. -/
theorem get?_map (f : α → β) (d : Dict α) (key : Text) :
    (d.map f).get? key = (d.get? key).map f := by
  simp only [get?, map, List.find?_map, Option.map_map]
  rfl

/-- A key that comes after all others is set at the end. -/
theorem insertEntry_of_forall_lt {key : Text} {l : List (Text × α)} (last : ∀ e ∈ l, e.1 < key)
    (value : α) : insertEntry key value l = l ++ [(key, value)] := by
  induction l with
  | nil => rfl
  | cons e l ih =>
    have before : e.1 < key := last e List.mem_cons_self
    have apart : key ≠ e.1 := by
      rintro rfl
      exact List.lt_irrefl _ before
    rw [insertEntry, if_neg (List.lt_asymm before), if_neg apart,
      ih fun other h => last other (List.mem_cons_of_mem e h)]
    rfl

/-- Entries that go on in the order of keys are added at the end. -/
theorem entries_foldl_insert {l : List (Text × α)} {d : Dict α}
    (ascending : Ascending (d.entries ++ l)) :
    (l.foldl (fun d e => d.insert e.1 e.2) d).entries = d.entries ++ l := by
  induction l generalizing d with
  | nil => exact (List.append_nil _).symm
  | cons e l ih =>
    have last : ∀ other ∈ d.entries, other.1 < e.1 := by
      intro other h
      exact (List.pairwise_append.1 ascending).2.2 other h e List.mem_cons_self
    have added : (d.insert e.1 e.2).entries = d.entries ++ [e] :=
      insertEntry_of_forall_lt last e.2
    rw [List.foldl_cons, ih (by rwa [added, List.append_assoc]), added, List.append_assoc]
    rfl

/-- A dictionary is what its entries make. -/
theorem ofList_entries (d : Dict α) : ofList d.entries = d :=
  ext_entries (entries_foldl_insert (d := empty) d.ascending)

end Interlace.Dict

/-- A set is what its members make. -/
theorem Interlace.TextSet.ofList_toList (s : TextSet) : TextSet.ofList s.toList = s := by
  rw [ofList, toList, Dict.keys, List.foldl_map]
  exact Dict.ofList_entries s
