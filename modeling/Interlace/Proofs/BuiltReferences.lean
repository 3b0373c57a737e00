import Interlace.Proofs.Folds
import Interlace.Proofs.StoredEntries

/-!
# References that were put together

The references of a file are put together by demanding imports, demanding links, keeping expressions
in use and merging. No step makes up a text, so references that were put together from texts that
are UTF-8 can be written, and an entry of the store that holds them reads back as it was.

## Key results

- `Dict.Holds.insert`: what holds of all entries of a dictionary, after setting a key
- `ReferenceMap.Built.legible`: references put together from UTF-8 are UTF-8
- `CacheEntry.render_distinguishes`: entries read back from their bytes, which tell them apart
-/

namespace Interlace

/-! ## Entries of dictionaries -/

/-- Something holds of every key with its value. -/
def Dict.Holds {α : Type} (P : Text → α → Prop) (d : Dict α) : Prop :=
  ∀ e ∈ d.entries, P e.1 e.2

namespace Dict

variable {α : Type} {P : Text → α → Prop} {d : Dict α} {key : Text}

private theorem holds_empty : (empty : Dict α).Holds P :=
  List.forall_mem_nil _

/-- Setting a key adds one entry at most. -/
theorem Holds.insert (h : d.Holds P) {value : α} (here : P key value) :
    (d.insert key value).Holds P := by
  intro e he
  rcases mem_insertEntry he with rfl | he
  · exact here
  · exact h e he

/-- The present value of a key is one that the property holds of. -/
theorem Holds.get? (h : d.Holds P) : ∀ value ∈ d.get? key, P key value :=
  fun _ found => h _ ((mem_entries_iff d).2 found)

end Dict

/-- The members of a set are those of either set that it was made of. -/
private theorem TextSet.holds_union {P : Text → Unit → Prop} {s t : TextSet} (hs : s.Holds P)
    (ht : t.Holds P) : (s.union t).Holds P := by
  refine foldl_keeps (K := fun s : TextSet => s.Holds P) (fun s text listed kept => ?_) hs
  obtain ⟨e, he, rfl⟩ := List.mem_map.1 listed
  exact kept.insert (ht e he)

namespace TextSet

variable {s : TextSet} {text : Text}

theorem mem_toList_iff : text ∈ s.toList ↔ s.get? text = some () := by
  rw [toList, ← Dict.contains_iff_mem_keys, Dict.contains, Option.isSome_iff_exists]
  constructor
  · rintro ⟨_, h⟩
    exact h
  · exact fun h => ⟨_, h⟩

theorem mem_add_iff {added : Text} :
    text ∈ (s.add added).toList ↔ added = text ∨ text ∈ s.toList := by
  rw [mem_toList_iff, mem_toList_iff, add, Dict.get?_insert]
  by_cases here : added = text <;> simp [here]

end TextSet

/-! ## References -/

namespace ReferenceMap

section

variable {m : ReferenceMap} {path wanted : Text}

/-- The names that a path is to be imported by. -/
theorem mem_imports_iff :
    (path, wanted) ∈ m.imports ↔ ∃ names, m.aliases.get? path = some names ∧
      wanted ∈ names.toList := by
  simp only [imports, List.mem_flatMap, List.mem_map, Prod.mk.injEq, Prod.exists]
  constructor
  · rintro ⟨p, names, listed, name, member, rfl, rfl⟩
    exact ⟨names, m.aliases.mem_entries_iff.1 listed, member⟩
  · rintro ⟨names, found, member⟩
    exact ⟨path, names, m.aliases.mem_entries_iff.2 found, wanted, member, rfl, rfl⟩

/-- Asking for an import adds one request. -/
theorem mem_imports_addImport {p w : Text} :
    (path, wanted) ∈ (m.addImport p w).imports ↔
      (p = path ∧ w = wanted) ∨ (path, wanted) ∈ m.imports := by
  rw [mem_imports_iff, mem_imports_iff, addImport, Dict.get?_alter]
  by_cases here : p = path
  · subst here
    cases m.aliases.get? p with
    | none => simp [TextSet.mem_toList_iff, TextSet.add, Dict.get?_insert]
    | some names => simp [TextSet.mem_add_iff]
  · simp [here]

end

/-- References that were put together from texts of some kind. -/
inductive Built (kind : Text → Prop) : ReferenceMap → Prop where
  | empty : Built kind .empty
  | addImport {m : ReferenceMap} {path wanted : Text} (before : Built kind m) (hp : kind path)
      (hw : kind wanted) : Built kind (m.addImport path wanted)
  | addRelocation {m : ReferenceMap} {path : Text} (before : Built kind m) (hp : kind path) :
      Built kind (m.addRelocation path)
  | keep {m : ReferenceMap} {expression : Text} (before : Built kind m) (he : kind expression) :
      Built kind (m.keep expression)
  | merge {m other : ReferenceMap} (before : Built kind m) (beside : Built kind other) :
      Built kind (m.merge other)

/-- All texts of the references are of a kind. -/
structure Holds (kind : Text → Prop) (m : ReferenceMap) : Prop where
  entries : m.entries.Holds fun path _ => kind path
  aliases : m.aliases.Holds fun path names => kind path ∧ names.Holds fun name _ => kind name
  keepAlive : m.keepAlive.Holds fun expression _ => kind expression

variable {kind : Text → Prop} {m other : ReferenceMap} {path wanted : Text}

/-- The names of a path, or none. -/
theorem Holds.names (h : m.Holds kind) (path : Text) :
    ((m.aliases.get? path).getD .empty).Holds fun name _ => kind name := by
  cases found : m.aliases.get? path with
  | none => exact Dict.holds_empty
  | some names => exact (h.aliases.get? names found).2

theorem Holds.addImport (h : m.Holds kind) (hp : kind path) (hw : kind wanted) :
    (m.addImport path wanted).Holds kind where
  entries := h.entries.insert hp
  aliases := h.aliases.insert ⟨hp, (h.names path).insert hw⟩
  keepAlive := h.keepAlive

theorem Holds.addRelocation (h : m.Holds kind) (hp : kind path) :
    (m.addRelocation path).Holds kind :=
  ⟨h.entries.insert hp, h.aliases, h.keepAlive⟩

theorem Holds.keep (h : m.Holds kind) {expression : Text} (he : kind expression) :
    (m.keep expression).Holds kind :=
  ⟨h.entries, h.aliases, h.keepAlive.insert he⟩

theorem Holds.merge (h : m.Holds kind) (h' : other.Holds kind) : (m.merge other).Holds kind where
  entries := foldl_keeps (K := fun d : Dict ReferenceKind => d.Holds fun path _ => kind path)
    (fun _ e listed kept => kept.insert (h'.entries e listed)) h.entries
  aliases := by
    refine foldl_keeps (K := fun d : Dict TextSet =>
      d.Holds fun path names => kind path ∧ names.Holds fun name _ => kind name)
      (fun d e listed kept => ?_) h.aliases
    obtain ⟨hp, names⟩ := h'.aliases e listed
    refine kept.insert ⟨hp, TextSet.holds_union ?_ names⟩
    cases found : d.get? e.1 with
    | none => exact Dict.holds_empty
    | some present => exact (kept.get? present found).2
  keepAlive := TextSet.holds_union h.keepAlive h'.keepAlive

theorem Built.holds (h : Built kind m) : m.Holds kind := by
  induction h with
  | empty => exact ⟨Dict.holds_empty, Dict.holds_empty, Dict.holds_empty⟩
  | addImport before hp hw ih => exact ih.addImport hp hw
  | addRelocation before hp ih => exact ih.addRelocation hp
  | keep before he ih => exact ih.keep he
  | merge before beside ih ih' => exact ih.merge ih'

/-- References that were put together from UTF-8 can be written. -/
theorem Built.legible (h : Built Text.WellFormed m) : m.Legible := by
  obtain ⟨entries, aliases, keepAlive⟩ := h.holds
  have members {s : TextSet} (hs : s.Holds fun t _ => t.WellFormed) :
      ∀ t ∈ s.toList, t.WellFormed := by
    intro t ht
    obtain ⟨e, he, rfl⟩ := List.mem_map.1 ht
    exact hs e he
  exact ⟨entries, fun e he => ⟨(aliases e he).1, members (aliases e he).2⟩, members keepAlive⟩

end ReferenceMap

/-! ## Entries -/

namespace CacheEntry

/-- An entry as it comes about: paths and contents are UTF-8, the references of every file were put
together from UTF-8, and the numbers of the version fit 32 bits. -/
structure Built (e : CacheEntry) : Prop where
  files : e.files.Holds fun path file =>
    path.WellFormed ∧ file.contents.WellFormed ∧ file.references.Built Text.WellFormed
  version : e.Fits

theorem Built.storable {e : CacheEntry} (h : e.Built) : e.Storable := by
  refine ⟨fun f hf => ?_, h.version⟩
  obtain ⟨path, contents, references⟩ := h.files f hf
  exact ⟨path, contents, references.legible⟩

/-- An entry is read back from its bytes as it was, and no other entry that can be written has the
same bytes. -/
theorem render_distinguishes {e : CacheEntry} (built : e.Built) :
    parse e.render = .ok e ∧
      ∀ e' : CacheEntry, e'.Storable → e'.render = e.render → e' = e := by
  have read := parse_render built.storable
  refine ⟨read, fun e' storable same => ?_⟩
  have read' := parse_render storable
  rw [same, read] at read'
  exact (Except.ok.inj read').symm

/-- Quotes, backslashes, control characters and letters of several bytes; references that were
merged; and a version. -/
theorem render_distinguishes_escapes :
    let path : Text := "a \"b\"\\é.go"
    let contents : Text := "package main\r\n\n// \"q\" \\ \x01\t😀 \x7f\n"
    let tool := (ReferenceMap.empty.addRelocation "x/tool").addImport "x/tool" "tool"
    let other := (ReferenceMap.empty.addImport "x/tool" "_").keep "pkg.Ünï\n"
    let e : CacheEntry := ⟨.ofList [(path, ⟨contents, tool.merge other⟩), ("", ⟨[], .empty⟩)],
      some ⟨1, 21⟩⟩
    e.Built ∧ parse e.render = .ok e := by
  intro path contents tool other e
  have utf8 : path.WellFormed ∧ contents.WellFormed := by decide +kernel
  have built : e.Built := by
    -- Both are built by the operations, and merging is one of them.
    have tools : tool.Built Text.WellFormed :=
      .addImport (.addRelocation .empty (by decide)) (by decide) (by decide)
    have others : other.Built Text.WellFormed :=
      .keep (.addImport .empty (by decide) (by decide)) (by decide)
    refine ⟨?_, by decide⟩
    refine (Dict.holds_empty.insert ?_).insert ?_
    · exact ⟨utf8.1, utf8.2, tools.merge others⟩
    · exact ⟨rfl, rfl, .empty⟩
  exact ⟨built, (render_distinguishes built).1⟩

end CacheEntry

end Interlace
