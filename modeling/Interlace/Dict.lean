import Interlace.Text.Basic

/-!
# Dictionaries

A dictionary maps texts to values and lists its entries in byte order of the keys. The order
is part of the type, so two dictionaries with the same entries are equal.
-/

namespace Interlace

/-- Inserts into a list ordered by `le`, after the elements that do not come later. -/
def insertBy {α : Type} (le : α → α → Bool) (a : α) : List α → List α
  | [] => [a]
  | b :: l => if le b a then b :: insertBy le a l else a :: b :: l

/-- Sorts by `le`; elements that `le` does not tell apart keep their order. -/
def sortBy {α : Type} (le : α → α → Bool) (l : List α) : List α :=
  l.foldl (fun sorted a => insertBy le a sorted) []

/-- Removes every element that equals an earlier one. -/
def distinct {α : Type} [DecidableEq α] (l : List α) : List α :=
  l.foldl (fun seen a => if a ∈ seen then seen else seen ++ [a]) []

/-- The keys of the entries ascend. -/
def Ascending {α : Type} (entries : List (Text × α)) : Prop :=
  entries.Pairwise fun a b => a.1 < b.1

/-- A finite map from texts. -/
structure Dict (α : Type) where
  /-- The entries, in byte order of their keys. -/
  entries : List (Text × α)
  ascending : Ascending entries

namespace Dict

variable {α β : Type}

instance [DecidableEq α] : DecidableEq (Dict α) := fun a b =>
  if h : a.entries = b.entries then
    isTrue (by cases a; cases b; simp_all)
  else
    isFalse fun e => h (e ▸ rfl)

/-- The dictionary without entries. -/
def empty : Dict α := ⟨[], List.Pairwise.nil⟩

instance : Inhabited (Dict α) := ⟨empty⟩

/-- Sets `key` to `value` in an ordered entry list. -/
def insertEntry (key : Text) (value : α) : List (Text × α) → List (Text × α)
  | [] => [(key, value)]
  | (k, v) :: rest =>
    if key < k then (key, value) :: (k, v) :: rest
    else if key = k then (key, value) :: rest
    else (k, v) :: insertEntry key value rest

/-- The keys after setting one are the old ones and the new one. -/
theorem mem_insertEntry {key : Text} {value : α} {l : List (Text × α)} {e : Text × α}
    (h : e ∈ insertEntry key value l) : e = (key, value) ∨ e ∈ l := by
  induction l with
  | nil => simpa [insertEntry] using h
  | cons a l ih =>
    obtain ⟨k, v⟩ := a
    rw [insertEntry] at h
    split at h
    · rcases List.mem_cons.1 h with h | h
      · exact Or.inl h
      · exact Or.inr h
    · split at h
      · rcases List.mem_cons.1 h with h | h
        · exact Or.inl h
        · exact Or.inr (List.mem_cons_of_mem _ h)
      · rcases List.mem_cons.1 h with h | h
        · exact Or.inr (h ▸ List.mem_cons_self)
        · rcases ih h with h | h
          · exact Or.inl h
          · exact Or.inr (List.mem_cons_of_mem _ h)

/-- Setting a key keeps the keys ascending. -/
theorem ascending_insertEntry (key : Text) (value : α) {l : List (Text × α)}
    (h : Ascending l) : Ascending (insertEntry key value l) := by
  induction l with
  | nil => simp [insertEntry, Ascending]
  | cons a l ih =>
    obtain ⟨k, v⟩ := a
    have hk : ∀ e ∈ l, k < e.1 := fun e he => (List.pairwise_cons.1 h).1 e he
    have hl : Ascending l := (List.pairwise_cons.1 h).2
    rw [insertEntry]
    split
    · rename_i lt
      refine List.pairwise_cons.2 ⟨fun e he => ?_, h⟩
      rcases List.mem_cons.1 he with rfl | he
      · exact lt
      · exact List.lt_trans lt (hk e he)
    · split
      · rename_i eq
        subst eq
        exact List.pairwise_cons.2 ⟨hk, hl⟩
      · rename_i nlt ne
        refine List.pairwise_cons.2 ⟨fun e he => ?_, ih hl⟩
        rcases mem_insertEntry he with rfl | he
        · exact Std.lt_of_le_of_ne (Std.not_lt.1 nlt) (Ne.symm ne)
        · exact hk e he

/-- The dictionary with `key` set to `value`. -/
def insert (d : Dict α) (key : Text) (value : α) : Dict α :=
  ⟨insertEntry key value d.entries, ascending_insertEntry key value d.ascending⟩

/-- The value of a key. -/
def get? (d : Dict α) (key : Text) : Option α :=
  (d.entries.find? fun e => e.1 = key).map Prod.snd

/-- The dictionary has a value for the key. -/
def contains (d : Dict α) (key : Text) : Bool :=
  (d.get? key).isSome

/-- The keys, ascending. -/
def keys (d : Dict α) : List Text :=
  d.entries.map Prod.fst

/-- The number of entries. -/
def size (d : Dict α) : Nat :=
  d.entries.length

/-- The dictionary has no entry. -/
def isEmpty (d : Dict α) : Bool :=
  d.entries.isEmpty

/-- The entries of a list, a later one for a key replacing an earlier one. -/
def ofList (l : List (Text × α)) : Dict α :=
  l.foldl (fun d e => d.insert e.1 e.2) empty

/-- Changes the value of a key, given its present value. -/
def alter (d : Dict α) (key : Text) (f : Option α → α) : Dict α :=
  d.insert key (f (d.get? key))

/-- Applies a function to every value. -/
def map (f : α → β) (d : Dict α) : Dict β :=
  ⟨d.entries.map fun e => (e.1, f e.2), by
    have h := d.ascending
    unfold Ascending at h ⊢
    exact List.pairwise_map.2 h⟩

end Dict

/-- A finite set of texts, listed in byte order. -/
abbrev TextSet := Dict Unit

namespace TextSet

/-- The set with one more member. -/
def add (s : TextSet) (t : Text) : TextSet :=
  s.insert t ()

/-- The members, ascending. -/
def toList (s : TextSet) : List Text :=
  s.keys

/-- The set of the members of a list. -/
def ofList (l : List Text) : TextSet :=
  l.foldl add Dict.empty

/-- The members of either set. -/
def union (s t : TextSet) : TextSet :=
  t.toList.foldl add s

end TextSet

end Interlace
