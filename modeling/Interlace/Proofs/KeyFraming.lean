import Interlace.Cache.Key
import Interlace.Proofs.Decimals
import Interlace.Proofs.Sorting

/-!
# What the bytes of a key tell

Every field is preceded by its length in eight bytes and every list by its count, so the bytes that
are hashed fall into fields in one way only, whatever the fields hold. A list is told up to its
order, since its items are sorted before they are written.

## Key results

- `KeyInputs.field_append_inj`: a field ends where its length says
- `KeyInputs.listField_append_inj`: a list tells its items, and where it ends
- `KeyInputs.sortBy_le_eq_iff`: sorting gives the same for lists of the same items
- `KeyInputs.stream_tells`: two inputs have the same bytes iff they are alike
-/

namespace Interlace

/-- A version is told by its written form. -/
private theorem Version.eq_of_render_eq {v w : Version} (hv : v.Fits) (hw : w.Fits)
    (same : v.render = w.render) : v = w := by
  have read := parse?_render hv
  rw [same, parse?_render hw] at read
  exact (Option.some.inj read).symm

/-- A version whose numbers fit 32 bits is written with at most 23 bytes. -/
private theorem Version.length_render_le {v : Version} (fits : v.Fits) : v.render.length ≤ 23 := by
  have digits : ∀ n < Text.bound32, (Text.ofNat n).length ≤ 10 := fun n small =>
    Text.length_ofNat_le (by decide) (Nat.lt_trans small (by decide))
  have major := digits v.major fits.1
  have minor := digits v.minor fits.2
  rw [render_eq, List.length_cons, List.length_cons, List.length_append, List.length_cons]
  omega

namespace KeyInputs

/-! ## Numbers -/

private theorem length_littleEndian (width n : Nat) : (littleEndian width n).length = width := by
  induction width generalizing n with
  | zero => rfl
  | succ width ih => rw [littleEndian, List.length_cons, ih]

/-- A number that fits is told by its bytes. -/
private theorem littleEndian_inj {width m n : Nat} (hm : m < 256 ^ width) (hn : n < 256 ^ width)
    (same : littleEndian width m = littleEndian width n) : m = n := by
  induction width generalizing m n with
  | zero =>
    rw [Nat.pow_zero] at hm hn
    omega
  | succ width ih =>
    obtain ⟨low, high⟩ := List.cons.inj same
    rw [Nat.pow_succ, Nat.mul_comm] at hm hn
    have quotient := ih (Nat.div_lt_of_lt_mul hm) (Nat.div_lt_of_lt_mul hn) high
    -- The low byte is the remainder, the others are the quotient.
    have remainder : m % 256 = n % 256 := by
      have := congrArg UInt8.toNat low
      simpa [UInt8.toNat_ofNat'] using this
    omega

@[simp] theorem length_word (n : Nat) : (word n).length = 8 :=
  length_littleEndian 8 n

/-! ## Fields -/

variable {s t u v : Text} {items items' : List Text}

/-- The text is shorter than what eight bytes can count. -/
def Short (t : Text) : Prop :=
  t.length < 2 ^ 64

instance (t : Text) : Decidable (Short t) :=
  inferInstanceAs (Decidable (_ < _))

private theorem word_inj {m n : Nat} (hm : m < 2 ^ 64) (hn : n < 2 ^ 64) (same : word m = word n) :
    m = n :=
  littleEndian_inj hm hn same

/-- A field tells its bytes and what follows it. -/
theorem field_append_inj (hs : Short s) (ht : Short t) (same : field s ++ u = field t ++ v) :
    s = t ∧ u = v := by
  unfold field at same
  rw [List.append_assoc, List.append_assoc] at same
  obtain ⟨lengths, rest⟩ := List.append_inj same (by simp)
  exact List.append_inj rest (word_inj hs ht lengths)

/-- So do as many fields one after the other. -/
private theorem flatMap_field_append_inj (count : items.length = items'.length)
    (hs : ∀ t ∈ items, Short t) (ht : ∀ t ∈ items', Short t)
    (same : items.flatMap field ++ u = items'.flatMap field ++ v) : items = items' ∧ u = v := by
  induction items generalizing items' with
  | nil =>
    obtain rfl := List.length_eq_zero_iff.1 count.symm
    exact ⟨rfl, same⟩
  | cons t items ih =>
    obtain ⟨t', items', rfl⟩ := List.exists_cons_of_length_eq_add_one count.symm
    obtain ⟨short, shorts⟩ := List.forall_mem_cons.1 hs
    obtain ⟨short', shorts'⟩ := List.forall_mem_cons.1 ht
    rw [List.flatMap_cons, List.flatMap_cons, List.append_assoc, List.append_assoc] at same
    obtain ⟨rfl, rest⟩ := field_append_inj short short' same
    obtain ⟨rfl, behind⟩ := ih (Nat.succ.inj count) shorts shorts' rest
    exact ⟨rfl, behind⟩

/-! ## Lists -/

/-- Lists are sorted alike exactly if they have the same items. -/
theorem sortBy_le_eq_iff : sortBy Text.le items = sortBy Text.le items' ↔ items.Perm items' := by
  -- Texts are ordered linearly, so what sorts them has one result.
  have trans : ∀ a b c : Text, Text.le a b → Text.le b c → Text.le a c := by
    simpa [Text.le] using fun a b c : Text => List.le_trans
  have total : ∀ a b : Text, Text.le a b || Text.le b a := by
    simpa [Text.le] using fun a b : Text => List.le_total a b
  constructor
  · intro same
    have perm := (sortBy_perm Text.le items).symm
    rw [same] at perm
    exact perm.trans (sortBy_perm _ _)
  · intro perm
    refine List.Perm.eq_of_pairwise (fun a b _ _ below above => ?_)
      (sortBy_pairwise trans total items) (sortBy_pairwise trans total items') ?_
    · exact List.le_antisymm (of_decide_eq_true below) (of_decide_eq_true above)
    · exact (sortBy_perm _ _).trans (perm.trans (sortBy_perm _ _).symm)

/-- The list and its items are shorter than what eight bytes can count. -/
def ShortList (items : List Text) : Prop :=
  items.length < 2 ^ 64 ∧ ∀ t ∈ items, Short t

instance (items : List Text) : Decidable (ShortList items) :=
  inferInstanceAs (Decidable (_ ∧ _))

/-- A list tells its items and what follows it. -/
theorem listField_append_inj (hs : ShortList items) (ht : ShortList items')
    (same : listField items ++ u = listField items' ++ v) : items.Perm items' ∧ u = v := by
  unfold listField at same
  rw [List.append_assoc, List.append_assoc] at same
  have eight (n : Nat) : Short (word n) := by
    rw [Short, length_word]
    decide
  obtain ⟨counts, rest⟩ := field_append_inj (eight _) (eight _) same
  -- The lists say how long they are, so their fields are read in step.
  have count := word_inj hs.1 ht.1 counts
  have perm := sortBy_perm Text.le items
  have perm' := sortBy_perm Text.le items'
  obtain ⟨sorted, behind⟩ := flatMap_field_append_inj
    (perm.length_eq.trans (count.trans perm'.length_eq.symm))
    (fun t ht => hs.2 t (perm.mem_iff.1 ht)) (fun t hl => ht.2 t (perm'.mem_iff.1 hl)) rest
  exact ⟨sortBy_le_eq_iff.1 sorted, behind⟩

/-! ## Inputs -/

/-- The numbers of the version fit 32 bits, and the sizes of texts and lists fit 64. -/
structure Fits (k : KeyInputs) : Prop where
  toolVersion : Short k.toolVersion
  importPath : Short k.importPath
  version : ∀ v ∈ k.version, v.Fits
  sources : ShortList k.sources
  aspects : ShortList k.aspects
  imports : ShortList k.imports

/-- The same inputs, but for the order of the lists. -/
structure Alike (k k' : KeyInputs) : Prop where
  toolVersion : k.toolVersion = k'.toolVersion
  importPath : k.importPath = k'.importPath
  version : k.version = k'.version
  testMain : k.testMain = k'.testMain
  sources : k.sources.Perm k'.sources
  aspects : k.aspects.Perm k'.aspects
  imports : k.imports.Perm k'.imports

/-- How a version is written that may be absent. -/
def versionText (version : Option Version) : Text :=
  (version.map Version.render).getD []

private theorem short_versionText {version : Option Version} (fits : ∀ v ∈ version, v.Fits) :
    Short (versionText version) := by
  cases version with
  | none => exact Nat.two_pow_pos 64
  | some v => exact Nat.lt_of_le_of_lt (Version.length_render_le (fits v rfl)) (by decide)

/-- An absent version is written like no other. -/
private theorem versionText_inj {version version' : Option Version} (fits : ∀ v ∈ version, v.Fits)
    (fits' : ∀ v ∈ version', v.Fits) (same : versionText version = versionText version') :
    version = version' := by
  cases version with
  | none =>
    cases version' with
    | none => rfl
    | some w =>
      have empty : [] = w.render := same
      rw [w.render_eq] at empty
      cases empty
  | some v =>
    cases version' with
    | none =>
      have empty : v.render = [] := same
      rw [v.render_eq] at empty
      cases empty
    | some w => exact congrArg some (Version.eq_of_render_eq (fits v rfl) (fits' w rfl) same)

private theorem listField_congr (perm : items.Perm items') :
    listField items = listField items' := by
  rw [listField, listField, sortBy_le_eq_iff.2 perm, perm.length_eq]

/-- The order of the lists does not matter to what is hashed. -/
theorem Alike.stream_eq {k k' : KeyInputs} (h : Alike k k') : k.stream = k'.stream := by
  rw [stream, stream, h.toolVersion, h.importPath, h.version, h.testMain,
    listField_congr h.sources, listField_congr h.aspects, listField_congr h.imports]

/-- What is hashed tells the inputs, but for the order of the lists. -/
theorem alike_of_stream_eq {k k' : KeyInputs} (fits : k.Fits) (fits' : k'.Fits)
    (same : k.stream = k'.stream) : Alike k k' := by
  unfold stream at same
  simp only [List.append_assoc] at same
  obtain ⟨toolVersion, rest⟩ := field_append_inj fits.toolVersion fits'.toolVersion same
  obtain ⟨importPath, rest⟩ := field_append_inj fits.importPath fits'.importPath rest
  obtain ⟨version, rest⟩ := field_append_inj (short_versionText fits.version)
    (short_versionText fits'.version) rest
  have flag (b : Bool) : Short [if b then 1 else 0] := Nat.one_lt_two_pow (by decide)
  obtain ⟨testMain, rest⟩ := field_append_inj (flag _) (flag _) rest
  obtain ⟨sources, rest⟩ := listField_append_inj fits.sources fits'.sources rest
  obtain ⟨aspects, rest⟩ := listField_append_inj fits.aspects fits'.aspects rest
  -- The last list is followed by nothing.
  rw [← List.append_nil (listField k.imports), ← List.append_nil (listField k'.imports)] at rest
  obtain ⟨imports, -⟩ := listField_append_inj fits.imports fits'.imports rest
  refine ⟨toolVersion, importPath, versionText_inj fits.version fits'.version version, ?_, sources,
    aspects, imports⟩
  revert testMain
  cases k.testMain <;> cases k'.testMain <;> decide

/-- Inputs that differ in the order of the lists only have the same key, since the same bytes are
hashed. No other inputs have the same bytes. -/
theorem stream_tells (k k' : KeyInputs) :
    (Alike k k' → k.key = k'.key) ∧
      (k.Fits → k'.Fits → (k.stream = k'.stream ↔ Alike k k')) :=
  ⟨fun h => congrArg Digest.hex h.stream_eq,
    fun fits fits' => ⟨alike_of_stream_eq fits fits', Alike.stream_eq⟩⟩

/-- The order of two sources does not matter. The hash of an aspect that looks like the count of a
list makes other bytes when it is among the sources. -/
theorem stream_tells_moved :
    let k : KeyInputs := ⟨"0.1.0", "p", some ⟨1, 22⟩, false, ["b", "a"], [word 0], []⟩
    let reordered : KeyInputs := { k with sources := ["a", "b"] }
    let moved : KeyInputs := { k with sources := ["b", "a", word 0], aspects := [] }
    Alike k reordered ∧ k.key = reordered.key ∧ k.Fits ∧ moved.Fits ∧ k.stream ≠ moved.stream := by
  intro k reordered moved
  have alike : Alike k reordered := ⟨rfl, rfl, rfl, rfl, .swap _ _ _, .refl _, .refl _⟩
  have fits : k.Fits := ⟨by decide, by decide, by decide, by decide, by decide, by decide⟩
  have fits' : moved.Fits := ⟨by decide, by decide, by decide, by decide, by decide, by decide⟩
  refine ⟨alike, (stream_tells k reordered).1 alike, fits, fits', fun same => ?_⟩
  have sources := (((stream_tells k moved).2 fits fits').1 same).sources.length_eq
  exact absurd sources (by decide)

end KeyInputs

end Interlace
