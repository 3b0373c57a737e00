import Interlace.Proofs.AspectReading
import Interlace.Proofs.CachedCalls
import Interlace.Proofs.KeyFraming
import Mathlib.Data.Set.Function

/-!
# Calls that share a key

A key is a hash of hashes. If hashing takes no two of the texts that are hashed to one hash, then
two calls have one key exactly if they are the same in what keys cover: the import path, the
version, whether the package is a test main, the contents of the files and the aspects in some
order, and the packages with archives.

## Key results

- `Digest.length_hex`: all hashes have one length
- `CachedCall.Covered`: what keys cover is the same for two calls
- `CachedCall.key_eq_iff_covered`: calls with one key
-/

namespace Interlace

/-! ## Hashes -/

/-- A hash has 64 digits. -/
theorem Digest.length_hex (t : Text) : (hex t).length = 64 := by
  have digits (b : UInt8) : (Text.hexByte b).length = 2 := rfl
  have word (w : UInt32) : (wordBytes w).length = 4 := rfl
  -- Eight words with four bytes each, and two digits for a byte.
  simp only [hex, bytes, List.length_flatMap, digits, word, List.map_const', Vector.length_toList]
  rfl

/-- If a function tells the items of two lists apart, then lists that have the same images up to
order have the same items up to order. -/
private theorem perm_of_map_perm {α β : Type} {f : α → β} {l l' : List α}
    (apart : Set.InjOn f {a | a ∈ l ∨ a ∈ l'}) (same : (l.map f).Perm (l'.map f)) :
    l.Perm l' := by
  cases l with
  | nil =>
    rw [List.map_nil, List.nil_perm, List.map_eq_nil_iff] at same
    rw [same]
  | cons a rest =>
    have : Nonempty α := ⟨a⟩
    have back := Set.InjOn.leftInvOn_invFunOn apart
    generalize Function.invFunOn f _ = g at back
    -- Both lists are brought back from their images.
    have restored : ∀ m : List α, (∀ b ∈ m, b ∈ a :: rest ∨ b ∈ l') → (m.map f).map g = m := by
      intro m inside
      rw [List.map_map]
      exact (List.map_congr_left fun b hb => back (inside b hb)).trans (List.map_id m)
    have front := same.map g
    rwa [restored _ fun b hb => .inl hb, restored _ fun b hb => .inr hb] at front

namespace CachedCall

/-! ## What keys cover -/

/-- The contents of the files with their paths; none if they cannot all be read. -/
def sources (c : CachedCall) : List (Text × Text) :=
  (c.disk.sources? c.paths).getD []

/-- What the key of a call is taken of. -/
def inputs (c : CachedCall) : KeyInputs :=
  ⟨toolVersion, c.injector.config.importPath, c.injector.config.version, c.injector.config.testMain,
    c.sources.map fun s => Digest.hex s.2, c.aspects.map Aspect.fingerprint,
    c.injector.config.importMap.paths⟩

/-- All files of the call can be read. -/
def Readable (c : CachedCall) : Prop :=
  c.disk.sources? c.paths = some c.sources

/-- A call whose files can be read has the key of its inputs. -/
theorem key?_of_readable {c : CachedCall} (readable : c.Readable) : c.key? = some c.inputs.key := by
  unfold key?
  rw [readable]
  rfl

/-- A call that has a key can read its files. -/
theorem readable_of_key? {c : CachedCall} {key : Text} (keyed : c.key? = some key) :
    c.Readable ∧ c.inputs.key = key := by
  obtain ⟨sources, readable, -⟩ := Option.map_eq_some_iff.1 keyed
  have given : c.Readable := by rw [Readable, CachedCall.sources, readable, Option.getD_some]
  exact ⟨given, Option.some.inj ((key?_of_readable given).symm.trans keyed)⟩

/-- What keys cover is the same for two calls. -/
structure Covered (c d : CachedCall) : Prop where
  importPath : c.injector.config.importPath = d.injector.config.importPath
  version : c.injector.config.version = d.injector.config.version
  testMain : c.injector.config.testMain = d.injector.config.testMain
  /-- Neither the paths of the files matter nor their order. -/
  contents : (c.sources.map Prod.snd).Perm (d.sources.map Prod.snd)
  aspects : c.aspects.Perm d.aspects
  packages : c.injector.config.importMap.paths = d.injector.config.importMap.paths

/-- The sizes of texts and lists fit 64 bits and the numbers of the version 32, and the aspects can
be read back from their texts. -/
structure Measured (c : CachedCall) : Prop where
  importPath : KeyInputs.Short c.injector.config.importPath
  version : ∀ v ∈ c.injector.config.version, v.Fits
  files : c.sources.length < 2 ^ 64
  packages : KeyInputs.ShortList c.injector.config.importMap.paths
  aspects : c.aspects.length < 2 ^ 64
  legible : ∀ a ∈ c.aspects, a.Legible ∧ a.toJson.nesting < Json.levelLimit

/-- No two of the texts that are hashed for some calls have one hash: not two contents of files, nor
the texts of two aspects, nor the bytes that two keys are taken of. -/
structure HashesApart (calls : List CachedCall) : Prop where
  contents : Set.InjOn Digest.hex {t | ∃ c ∈ calls, t ∈ c.sources.map Prod.snd}
  aspects : Set.InjOn Digest.hex {t | ∃ c ∈ calls, t ∈ c.aspects.map Aspect.render}
  streams : Set.InjOn Digest.hex {t | ∃ c ∈ calls, t = c.inputs.stream}

variable {calls : List CachedCall} {c d : CachedCall}

private theorem Measured.fits (h : c.Measured) : c.inputs.Fits := by
  have short (t : Text) : KeyInputs.Short (Digest.hex t) := by
    rw [KeyInputs.Short, Digest.length_hex]
    decide
  refine ⟨(by decide : KeyInputs.Short toolVersion), h.importPath, h.version, ⟨?_, ?_⟩, ⟨?_, ?_⟩,
    h.packages⟩
  · rw [inputs, List.length_map]
    exact h.files
  · exact List.forall_mem_map.2 fun s _ => short s.2
  · rw [inputs, List.length_map]
    exact h.aspects
  · exact List.forall_mem_map.2 fun a _ => short a.render

/-- Lists of contents with the same hashes are the same up to order. -/
private theorem contents_perm (apart : HashesApart calls) (hc : c ∈ calls) (hd : d ∈ calls)
    (same : c.inputs.sources.Perm d.inputs.sources) :
    (c.sources.map Prod.snd).Perm (d.sources.map Prod.snd) := by
  refine perm_of_map_perm (f := Digest.hex) (apart.contents.mono ?_) ?_
  · rintro t (ht | ht)
    · exact ⟨c, hc, ht⟩
    · exact ⟨d, hd, ht⟩
  · rw [List.map_map, List.map_map]
    exact same

/-- Lists of aspects with the same hashes are the same up to order, since aspects are told by their
texts. -/
private theorem aspects_perm (apart : HashesApart calls) (hc : c ∈ calls) (hd : d ∈ calls)
    (legible : c.Measured) (legible' : d.Measured)
    (same : c.inputs.aspects.Perm d.inputs.aspects) : c.aspects.Perm d.aspects := by
  have texts : (c.aspects.map Aspect.render).Perm (d.aspects.map Aspect.render) := by
    refine perm_of_map_perm (f := Digest.hex) (apart.aspects.mono ?_) ?_
    · rintro t (ht | ht)
      · exact ⟨c, hc, ht⟩
      · exact ⟨d, hd, ht⟩
    · rw [List.map_map, List.map_map]
      exact same
  -- The text of an aspect is decoded to it, so texts tell aspects apart.
  have back : ∀ a, a ∈ c.aspects ∨ a ∈ d.aspects → Aspect.parse a.render = .ok a := by
    rintro a (ha | ha)
    · exact Aspect.parse_render (legible.legible a ha).1 (legible.legible a ha).2
    · exact Aspect.parse_render (legible'.legible a ha).1 (legible'.legible a ha).2
  refine perm_of_map_perm (fun a ha b hb same => ?_) texts
  have read := back a ha
  rw [same, back b hb] at read
  exact (Except.ok.inj read).symm

/-- Calls that are the same in what keys cover have one key. -/
theorem Covered.key_eq (h : c.Covered d) : c.inputs.key = d.inputs.key := by
  have alike : KeyInputs.Alike c.inputs d.inputs := by
    refine ⟨rfl, h.importPath, h.version, h.testMain, ?_, h.aspects.map _, .of_eq h.packages⟩
    have hashed := h.contents.map Digest.hex
    rw [List.map_map, List.map_map] at hashed
    exact hashed
  exact congrArg Digest.hex alike.stream_eq

/-- Two calls have one key exactly if what keys cover is the same for them. -/
theorem key_eq_iff_covered (apart : HashesApart calls) (hc : c ∈ calls) (hd : d ∈ calls)
    (measured : c.Measured) (measured' : d.Measured) :
    c.inputs.key = d.inputs.key ↔ c.Covered d := by
  refine ⟨fun same => ?_, Covered.key_eq⟩
  -- The hashed bytes are the same, and they tell the inputs.
  have bytes := apart.streams ⟨c, hc, rfl⟩ ⟨d, hd, rfl⟩ same
  have alike := KeyInputs.alike_of_stream_eq measured.fits measured'.fits bytes
  refine ⟨alike.importPath, alike.version, alike.testMain, contents_perm apart hc hd alike.sources,
    aspects_perm apart hc hd measured measured' alike.aspects, ?_⟩
  -- The packages are listed in the order of their paths.
  have ascending (m : ImportMap) : m.paths.Pairwise (· < ·) :=
    List.pairwise_map.2 m.packages.ascending
  refine List.Perm.eq_of_pairwise (fun a b _ _ less more => ?_) (ascending _) (ascending _)
    alike.imports
  exact absurd (List.lt_trans less more) (List.lt_irrefl a)

end CachedCall

end Interlace
