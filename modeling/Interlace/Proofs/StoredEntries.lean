import Interlace.Cache.Entry
import Interlace.Dict.Lemmas
import Interlace.Proofs.JsonReading

/-!
# Stored entries

What is kept of the result for a package reads back from its text: dictionaries and sets are
written in the order of their keys, and every field of a record is found under its name again.

## Key results

- `Json.asDict_ofDict`, `Json.asTextSet_ofTextSet`: dictionaries and sets are decoded as they were
- `CacheEntry.decode_toJson`: the decoder undoes the encoder
- `CacheEntry.parse_render`: an entry reads back from its text
-/

namespace Interlace

namespace Json

/-! ## Decoding what was encoded -/

variable {α : Type} {encode : α → Json} {decode : Json → Decoded α}

private theorem asEntries_map {l : List (Text × α)} (d : Dict α)
    (back : ∀ e ∈ l, decode (encode e.2) = .ok e.2) :
    (l.map fun (key, a) => (key, encode a)).foldlM
      (fun (d : Dict α) (member : Text × Json) => do
        let a ← decode member.2
        return d.insert member.1 a) d = .ok (l.foldl (fun d e => d.insert e.1 e.2) d) := by
  induction l generalizing d with
  | nil => rfl
  | cons e l ih =>
    rw [List.map_cons, List.foldlM_cons, back e List.mem_cons_self]
    exact ih (d.insert e.1 e.2) fun other h => back other (List.mem_cons_of_mem e h)

/-- A dictionary is decoded as it was if its values are. -/
theorem asDict_ofDict {d : Dict α} (back : ∀ e ∈ d.entries, decode (encode e.2) = .ok e.2) :
    asDict decode (ofDict encode d) = .ok d := by
  -- The entries of a dictionary, inserted one by one, make up the dictionary.
  have entries : asEntries decode (d.entries.map fun (key, a) => (key, encode a)) = .ok d := by
    have := asEntries_map .empty back
    rwa [← Dict.ofList, Dict.ofList_entries] at this
  show (asEntries decode _ >>= _) = _
  rw [entries]
  rfl

/-- A set is decoded as it was. -/
theorem asTextSet_ofTextSet (s : TextSet) : asTextSet (ofTextSet s) = .ok s := by
  -- A set is written as the list of its texts, and lists of texts are read back.
  have texts : ∀ l : List Text, (l.map .string).mapM asText = .ok l := by
    intro l
    induction l with
    | nil => rfl
    | cons t l ih =>
      rw [List.map_cons, List.mapM_cons, ih]
      rfl
  have list : asList asText (ofTextSet s) = .ok s.toList := by
    show ((s.toList.map .string).mapM asText >>= _) = _
    rw [texts]
    rfl
  rw [asTextSet, list]
  exact congrArg Except.ok (TextSet.ofList_toList s)

/-- A member that names a field sets it. -/
theorem RecordShape.setMembers_cons {σ : Type} {shape : RecordShape σ} {field : FieldShape σ}
    {seen : List Text} {key : Text} {value : Json} {s : σ} (s' : σ) (rest : List (Text × Json))
    (found : shape.fields.find? (·.name = key) = some field) (fresh : key ∉ seen)
    (set : field.set value s = .ok s') :
    shape.setMembers seen s ((key, value) :: rest) = shape.setMembers (key :: seen) s' rest := by
  conv_lhs => whnf
  rw [found]
  dsimp only
  rw [if_neg fresh, set]
  rfl

/-! ## Values that fit -/

/-- The value is whole and has no more than `n` values inside one another. -/
def WholeWithin (n : Nat) (j : Json) : Prop :=
  j.IsWhole ∧ j.depth ≤ n

theorem wholeWithin_string {t : Text} (good : t.WellFormed) (n : Nat) :
    WholeWithin (n + 1) (.string t) :=
  ⟨good, Nat.le_add_left 1 n⟩

theorem WholeWithin.mono {n m : Nat} {j : Json} (h : WholeWithin n j) (le : n ≤ m) :
    WholeWithin m j :=
  ⟨h.1, Nat.le_trans h.2 le⟩

private theorem wholeWithin_list {n : Nat} {items : List Json} (h : ∀ j ∈ items, WholeWithin n j) :
    WholeWithin (n + 1) (.list items) := by
  suffices all : AllWhole items ∧ depthItems items ≤ n from ⟨all.1, Nat.succ_le_succ all.2⟩
  induction items with
  | nil => exact ⟨trivial, Nat.zero_le n⟩
  | cons j items ih =>
    obtain ⟨whole, shallow⟩ := h j List.mem_cons_self
    obtain ⟨others, below⟩ := ih fun k hk => h k (List.mem_cons_of_mem j hk)
    exact ⟨⟨whole, others⟩, Nat.max_le.2 ⟨shallow, below⟩⟩

private theorem wholeWithin_record {n : Nat} {members : List (Text × Json)}
    (h : ∀ m ∈ members, m.1.WellFormed ∧ WholeWithin n m.2) :
    WholeWithin (n + 1) (.record members) := by
  suffices all : MembersWhole members ∧ depthMembers members ≤ n from
    ⟨all.1, Nat.succ_le_succ all.2⟩
  induction members with
  | nil => exact ⟨trivial, Nat.zero_le n⟩
  | cons m members ih =>
    obtain ⟨key, whole, shallow⟩ := h m List.mem_cons_self
    obtain ⟨others, below⟩ := ih fun k hk => h k (List.mem_cons_of_mem m hk)
    exact ⟨⟨key, whole, others⟩, Nat.max_le.2 ⟨shallow, below⟩⟩

theorem wholeWithin_ofDict {n : Nat} {α : Type} {encode : α → Json} {d : Dict α}
    (h : ∀ e ∈ d.entries, e.1.WellFormed ∧ WholeWithin n (encode e.2)) :
    WholeWithin (n + 1) (ofDict encode d) := by
  refine wholeWithin_record fun m hm => ?_
  obtain ⟨e, he, rfl⟩ := List.mem_map.1 hm
  exact h e he

private theorem wholeWithin_ofTextSet {s : TextSet} (h : ∀ t ∈ s.toList, t.WellFormed) :
    WholeWithin 2 (ofTextSet s) := by
  refine wholeWithin_list fun j hj => ?_
  obtain ⟨t, ht, rfl⟩ := List.mem_map.1 hj
  exact wholeWithin_string (h t ht) 0

end Json

/-! ## The parts of an entry -/

open Json

private theorem ReferenceKind.ofJson_render (k : ReferenceKind) :
    ofJson .text (.string k.render) = .ok k := by
  cases k <;> rfl

/-- References are decoded as they were. -/
theorem ReferenceMap.decode_toJson (m : ReferenceMap) :
    (shape .text).decode .text m.toJson = .ok m := by
  obtain ⟨entries, aliases, keepAlive⟩ := m
  -- One step for each field. The last two are left out when empty, so any of them may come next.
  have first : ∀ rest, (shape .text).setMembers [] .empty
      (member "entries" (ofDict (fun k => .string (ReferenceKind.render k)) entries) :: rest) =
        (shape .text).setMembers ["entries"] ⟨entries, .empty, .empty⟩ rest := by
    intro rest
    refine RecordShape.setMembers_cons _ rest rfl (List.not_mem_nil) ?_
    dsimp only
    rw [asDict_ofDict fun e _ => ReferenceKind.ofJson_render e.2]
    rfl
  have second : ∀ rest, (shape .text).setMembers ["entries"] ⟨entries, .empty, .empty⟩
      (member "aliases" (ofDict ofTextSet aliases) :: rest) =
        (shape .text).setMembers ["aliases", "entries"] ⟨entries, aliases, .empty⟩ rest := by
    intro rest
    refine RecordShape.setMembers_cons _ rest rfl (by decide) ?_
    dsimp only
    rw [asDict_ofDict fun e _ => asTextSet_ofTextSet e.2]
    rfl
  have third : ∀ seen aliases, ("keep_alive" : Text) ∉ seen →
      (shape .text).setMembers seen ⟨entries, aliases, .empty⟩
        [member "keep_alive" (ofTextSet keepAlive)] =
          .ok ("keep_alive" :: seen, ⟨entries, aliases, keepAlive⟩) := by
    intro seen aliases fresh
    refine RecordShape.setMembers_cons _ [] rfl fresh ?_
    dsimp only
    rw [asTextSet_ofTextSet]
    rfl
  unfold toJson
  show (shape .text).ofMembers _ none = _
  unfold RecordShape.ofMembers
  rw [List.cons_append, show (shape .text).blank = .empty from rfl, first]
  -- A field that is left out keeps its blank value, which is the empty one.
  cases noAliases : aliases.isEmpty <;> cases noneKept : keepAlive.isEmpty
  · simp only [Bool.false_eq_true, if_false, List.singleton_append]
    rw [second, third _ _ (by decide)]
    rfl
  · simp only [Bool.false_eq_true, if_false, if_true, List.append_nil]
    rw [second, Dict.eq_empty_of_isEmpty noneKept]
    rfl
  · simp only [Bool.false_eq_true, if_false, if_true, List.nil_append]
    rw [third _ _ (by decide), Dict.eq_empty_of_isEmpty noAliases]
    rfl
  · simp only [if_true, List.nil_append]
    rw [Dict.eq_empty_of_isEmpty noAliases, Dict.eq_empty_of_isEmpty noneKept]
    rfl

/-- A file is decoded as it was. -/
theorem CachedFile.decode_toJson (f : CachedFile) :
    (shape .text).decode .text f.toJson = .ok f := by
  have references : (ReferenceMap.shape .text).decode .text f.references.toJson =
      .ok f.references := ReferenceMap.decode_toJson f.references
  show (shape .text).ofMembers [("contents", .string f.contents),
    ("references", f.references.toJson)] none = _
  unfold RecordShape.ofMembers
  rw [RecordShape.setMembers_cons _ _ rfl List.not_mem_nil rfl,
    RecordShape.setMembers_cons f _ rfl (by decide) (by dsimp only; rw [references]; rfl)]
  rfl

namespace CacheEntry

/-- The version of an entry is one that can be written. -/
def Fits (e : CacheEntry) : Prop :=
  ∀ v ∈ e.version, v.Fits

instance (e : CacheEntry) : Decidable e.Fits :=
  inferInstanceAs (Decidable (∀ v ∈ e.version, v.Fits))

private theorem decode_version {e : CacheEntry} (fits : e.Fits) :
    asOption Version.ofJson ((e.version.map Version.toJson).getD .null) = .ok e.version := by
  cases given : e.version with
  | none => rfl
  | some v =>
    have read := Version.parse?_render (fits v (by rw [given]; rfl))
    -- A version is a string that has to parse.
    have decoded : Version.ofJson (.string v.render) = .ok v := by
      simp only [Version.ofJson, asText, bind, Except.bind, read]
    show (Version.ofJson (.string v.render)).map some = _
    rw [decoded]
    rfl

/-- The decoder undoes the encoder. -/
theorem decode_toJson {e : CacheEntry} (fits : e.Fits) :
    (shape .text).decode .text e.toJson = .ok e := by
  have files : asDict ((CachedFile.shape .text).decode .text) (ofDict CachedFile.toJson e.files) =
      .ok e.files := asDict_ofDict fun f _ => CachedFile.decode_toJson f.2
  have version := decode_version fits
  show (shape .text).ofMembers [("files", ofDict CachedFile.toJson e.files),
    ("go_version", (e.version.map Version.toJson).getD .null)] none = _
  unfold RecordShape.ofMembers
  rw [RecordShape.setMembers_cons ⟨e.files, none⟩ _ rfl List.not_mem_nil
      (by dsimp only; rw [files]; rfl),
    RecordShape.setMembers_cons e _ rfl (by decide) (by dsimp only; rw [version]; rfl)]
  rfl

end CacheEntry

/-! ## Entries as texts -/

/-- All texts of the references are UTF-8. -/
def ReferenceMap.Legible (m : ReferenceMap) : Prop :=
  (∀ e ∈ m.entries.entries, e.1.WellFormed) ∧
    (∀ e ∈ m.aliases.entries, e.1.WellFormed ∧ ∀ t ∈ e.2.toList, t.WellFormed) ∧
    ∀ t ∈ m.keepAlive.toList, t.WellFormed

instance (m : ReferenceMap) : Decidable m.Legible :=
  inferInstanceAs (Decidable (_ ∧ _ ∧ _))

theorem ReferenceKind.wellFormed_render (k : ReferenceKind) : k.render.WellFormed := by
  cases k <;> decide

private theorem ReferenceMap.wholeWithin_toJson {m : ReferenceMap} (legible : m.Legible) :
    WholeWithin 4 m.toJson := by
  obtain ⟨paths, names, kept⟩ := legible
  -- The field of aliases is the deepest one: an object of lists.
  refine wholeWithin_record (List.forall_mem_append.2 ⟨List.forall_mem_cons.2 ⟨?_, ?_⟩, ?_⟩)
  · have demands : WholeWithin 3
        (ofDict (fun k => .string (ReferenceKind.render k)) m.entries) :=
      wholeWithin_ofDict fun e he =>
        ⟨paths e he, wholeWithin_string (ReferenceKind.wellFormed_render e.2) 1⟩
    exact ⟨rfl, demands⟩
  · split
    · exact List.forall_mem_nil _
    · refine List.forall_mem_singleton.2 ⟨rfl, wholeWithin_ofDict fun e he => ?_⟩
      exact ⟨(names e he).1, wholeWithin_ofTextSet (names e he).2⟩
  · split
    · exact List.forall_mem_nil _
    · refine List.forall_mem_singleton.2 ⟨rfl, ?_⟩
      exact (wholeWithin_ofTextSet kept).mono (by decide)

/-- All texts of the file are UTF-8. -/
def CachedFile.Legible (f : CachedFile) : Prop :=
  f.contents.WellFormed ∧ f.references.Legible

instance (f : CachedFile) : Decidable f.Legible :=
  inferInstanceAs (Decidable (_ ∧ _))

private theorem CachedFile.wholeWithin_toJson {f : CachedFile} (legible : f.Legible) :
    WholeWithin 5 f.toJson := by
  refine wholeWithin_record
    (List.forall_mem_cons.2 ⟨⟨rfl, ?_⟩, List.forall_mem_singleton.2 ⟨rfl, ?_⟩⟩)
  · exact wholeWithin_string legible.1 3
  · exact ReferenceMap.wholeWithin_toJson legible.2

namespace CacheEntry

/-- All texts of the entry are UTF-8, and its version can be written. -/
def Storable (e : CacheEntry) : Prop :=
  (∀ f ∈ e.files.entries, f.1.WellFormed ∧ f.2.Legible) ∧ e.Fits

instance (e : CacheEntry) : Decidable e.Storable :=
  inferInstanceAs (Decidable (_ ∧ _))

private theorem wholeWithin_toJson {e : CacheEntry} (storable : e.Storable) :
    WholeWithin 7 e.toJson := by
  refine wholeWithin_record
    (List.forall_mem_cons.2 ⟨⟨rfl, ?_⟩, List.forall_mem_singleton.2 ⟨rfl, ?_⟩⟩)
  · refine wholeWithin_ofDict fun f hf => ?_
    exact ⟨(storable.1 f hf).1, CachedFile.wholeWithin_toJson (storable.1 f hf).2⟩
  · cases e.version with
    | none => exact ⟨trivial, by decide⟩
    | some v => exact wholeWithin_string (Text.wellFormed_of_isVisible v.isVisible_render) 5

/-- An entry reads back from its text. -/
theorem parse_render {e : CacheEntry} (storable : e.Storable) : parse e.render = .ok e := by
  -- Entries are far less deep than the reader allows.
  obtain ⟨whole, shallow⟩ := wholeWithin_toJson storable
  have nested := (nesting_le_depth e.toJson).trans shallow
  have read := Json.parse_render whole (Nat.lt_of_le_of_lt nested (by decide))
  unfold parse render decodeText
  rw [read]
  dsimp only
  rw [decode_toJson storable.2]
  rfl

end CacheEntry

end Interlace
