import Interlace.Proofs.Folds
import Interlace.Proofs.MendedTexts
import Interlace.Proofs.Words
import Interlace.Typing.Archive

/-!
# Members of an archive

A member is written as a header of fixed width, its body and a byte that makes the length even.
The header says how long the body is, so a reader passes over the members that it does not want.

## Key results

- `Archive.findFrom_render`: a member is taken or passed over, whatever follows it
- `Archive.find_renderAll`: the first member with a name is found in an archive of members
-/

namespace Interlace.Archive

open Text

/-! ## Headers -/

/-- A name that fits a member header: ASCII without white space. -/
def FitsHeader (name : Text) : Prop :=
  name.length ≤ 16 ∧ name.Solid ∧ ∀ b ∈ name, b < 0x80

instance (name : Text) : Decidable (FitsHeader name) :=
  inferInstanceAs (Decidable (_ ∧ _ ∧ _))

/-- A body whose length fits the ten digits of a member header. -/
def FitsSize (body : Text) : Prop :=
  body.length < 10 ^ 10

instance (body : Text) : Decidable (FitsSize body) :=
  inferInstanceAs (Decidable (_ < _))

private theorem length_padded {width : Nat} {t : Text} (fits : t.length ≤ width) :
    (padded width t).length = width := by
  rw [padded, List.length_append, List.length_replicate]
  omega

section Headers

variable {title fields : Text} {size : Nat}

private theorem trimStart_spaces (n : Nat) : trimStart (List.replicate n 0x20) = [] := by
  unfold trimStart
  induction n with
  | zero => rfl
  | succ n ih =>
    have white : whiteWidth (0x20 :: List.replicate n 0x20) = 1 := rfl
    rw [List.replicate_succ, dropWhite, white]
    exact ih

private theorem mended_padded (width : Nat) (ascii : ∀ b ∈ title, b < 0x80) :
    mended (padded width title) = padded width title := by
  refine (wellFormed_of_ascii fun b hb => ?_).mended_eq
  rcases List.mem_append.1 hb with hb | hb
  · exact ascii b hb
  · rw [List.eq_of_mem_replicate hb]
    decide

private theorem length_headerEnd : headerEnd.length = 2 := by
  decide

/-- The header of a member; between its title and its size it has fields that are not read. -/
def header (title fields : Text) (size : Nat) : Text :=
  padded 16 title ++ fields ++ padded 10 (Text.ofNat size) ++ headerEnd

section Fitting

variable (fits : FitsHeader title) (wide : fields.length = 32) (small : size < 10 ^ 10)

include fits wide small in
private theorem length_header : (header title fields size).length = 60 := by
  rw [header, List.length_append, List.length_append, List.length_append, wide,
    length_headerEnd, length_padded fits.1, length_padded (length_ofNat_le (by decide) small)]

include fits wide small in
/-- A header ends as every header does. -/
private theorem drop_header : (header title fields size).drop 58 = headerEnd := by
  have long := length_header fits wide small
  rw [header, List.length_append, length_headerEnd] at long
  exact List.drop_left' (by omega)

include fits in
/-- The name is read from where it stands. -/
private theorem headerName_header : headerName (header title fields size) = dropSlashes title := by
  have first : (header title fields size).take 16 = padded 16 title := by
    rw [header, List.append_assoc, List.append_assoc]
    exact List.take_left' (length_padded fits.1)
  rw [headerName, first, mended_padded 16 fits.2.2, padded,
    trimEnd_append_of_blank (trimStart_spaces _), fits.2.1.trimEnd]

include fits wide small in
/-- The size is read from where it stands. -/
private theorem headerSize_header : headerSize (header title fields size) = .ok size := by
  have digits : ∀ b ∈ Text.ofNat size, isVisible b := fun b hb =>
    (isVisible_of_isDigit (isDigit_of_mem_ofNat hb)).1
  -- The fields before the size are as wide as the format wants them.
  have field : (header title fields size).slice 48 58 = padded 10 (Text.ofNat size) := by
    have front : (padded 16 title ++ fields).length = 48 := by
      rw [List.length_append, wide, length_padded fits.1]
    rw [slice, header, List.append_assoc, List.drop_left' front]
    exact List.take_left' (length_padded (length_ofNat_le (by decide) small))
  have read : decimal bound64 (Text.ofNat size) = .ok size :=
    toOption_eq_some_iff.1 (decimal?_ofNat (small.trans (by decide)))
  rw [headerSize, field, mended_padded 10 fun b hb => ?_, padded,
    (solid_of_isVisible digits).trim_append (trimStart_spaces _), read]
  have visible := digits b hb
  simp only [isVisible, Bool.and_eq_true, decide_eq_true_eq] at visible
  exact visible.2

end Fitting

end Headers

/-! ## Members -/

/-- A member of an archive. -/
structure Member where
  name : Text
  /-- The header has a slash behind the name. -/
  slash : Bool
  /-- The date, the owner, the group and the mode, as they stand in the header. -/
  fields : Text
  body : Text
  /-- What makes the length of the body even. -/
  pad : UInt8

namespace Member

/-- The name as it stands in the header. -/
def title (m : Member) : Text :=
  m.name ++ if m.slash then [0x2F] else []

/-- What stands behind the body. -/
def filler (m : Member) : Text :=
  if m.body.length % 2 = 1 then [m.pad] else []

/-- The member as it is written. -/
def render (m : Member) : Text :=
  header m.title m.fields m.body.length ++ (m.body ++ m.filler)

/-- A member that fits the widths of a header. -/
structure Fits (m : Member) : Prop where
  title : FitsHeader m.title
  fields : m.fields.length = 32
  size : FitsSize m.body

/-- A member whose name is ASCII, without white space and slashes, and leaves room for a slash in
the header. -/
structure Named (m : Member) : Prop where
  short : m.name.length ≤ 15
  solid : m.name.Solid
  ascii : ∀ b ∈ m.name, b < 0x80
  unsplit : 0x2F ∉ m.name
  fields : m.fields.length = 32
  size : FitsSize m.body

instance (m : Member) : Decidable m.Named :=
  decidable_of_iff (m.name.length ≤ 15 ∧ FitsHeader m.name ∧ 0x2F ∉ m.name ∧
      m.fields.length = 32 ∧ FitsSize m.body)
    ⟨fun ⟨short, ⟨_, solid, ascii⟩, unsplit, fields, size⟩ =>
      ⟨short, solid, ascii, unsplit, fields, size⟩,
    fun named => ⟨named.short, ⟨Nat.le_succ_of_le named.short, named.solid, named.ascii⟩,
      named.unsplit, named.fields, named.size⟩⟩

variable {m : Member}

private theorem length_filler (m : Member) : m.filler.length = m.body.length % 2 := by
  rw [filler]
  split
  · rename_i odd
    exact odd.symm
  · rw [List.length_nil]
    omega

private theorem Fits.length_render (fits : m.Fits) :
    m.render.length = 60 + (m.body.length + m.body.length % 2) := by
  rw [render, List.length_append, length_header fits.title fits.fields fits.size,
    List.length_append, m.length_filler]

private theorem Named.dropSlashes_name (named : m.Named) : dropSlashes m.name = m.name := by
  rw [dropSlashes, List.dropWhile_eq_self_iff.2, List.reverse_reverse]
  intro given
  have : m.name.reverse[0] ∈ m.name := List.mem_reverse.1 (List.getElem_mem _)
  exact fun slash => named.unsplit (of_decide_eq_true slash ▸ this)

/-- The slash in the header is not taken for the name. -/
theorem Named.dropSlashes_title (named : m.Named) : dropSlashes m.title = m.name := by
  rw [title]
  split
  · rw [dropSlashes, List.reverse_append, List.reverse_singleton, List.singleton_append,
      List.dropWhile_cons_of_pos (by decide)]
    exact named.dropSlashes_name
  · rw [List.append_nil]
    exact named.dropSlashes_name

theorem Named.fits (named : m.Named) : m.Fits := by
  refine ⟨⟨?_, ?_, ?_⟩, named.fields, named.size⟩
  · have := named.short
    rw [title, List.length_append]
    split <;> simp only [List.length_singleton, List.length_nil] <;> omega
  · rw [title]
    split
    · exact Solid.append_ascii named.solid named.ascii (by decide)
    · rw [List.append_nil]
      exact named.solid
  · -- The slash that closes the title is ASCII, like the name.
    intro b hb
    rcases List.mem_append.1 hb with hb | hb
    · exact named.ascii b hb
    · split at hb
      · rw [List.mem_singleton.1 hb]
        decide
      · cases hb

/-- A member whose fields are filled in as `Archive.member` does. -/
def plain (name body : Text) : Member :=
  ⟨name, false, padded 12 "0" ++ padded 6 "0" ++ padded 6 "0" ++ padded 8 "644", body, 0x0A⟩

private theorem render_plain (name body : Text) : (plain name body).render = member name body := by
  simp [plain, render, header, title, filler, member]

theorem fits_plain {name body : Text} (fits : FitsHeader name) (small : FitsSize body) :
    (plain name body).Fits :=
  ⟨by simpa [plain, title] using fits, rfl, small⟩

end Member

variable {m : Member} {fuel : Nat}

/-- A member is taken, or passed over, whatever follows it. -/
theorem findFrom_render (fits : m.Fits) (wanted rest : Text) (fuel offset : Nat) :
    findFrom wanted (fuel + 1) offset (m.render ++ rest) =
      if dropSlashes m.title = wanted then .ok (some m.body)
      else findFrom wanted fuel (offset + m.render.length) rest := by
  have long := length_header fits.title fits.fields fits.size
  have whole : m.render ++ rest =
      header m.title m.fields m.body.length ++ (m.body ++ (m.filler ++ rest)) := by
    rw [Member.render, List.append_assoc, List.append_assoc]
  have first : (m.render ++ rest).take 60 = header m.title m.fields m.body.length := by
    rw [whole]
    exact List.take_left' long
  have behind : (m.render ++ rest).drop 60 = m.body ++ (m.filler ++ rest) := by
    rw [whole]
    exact List.drop_left' long
  have enough : ¬ (m.render ++ rest).length < 60 := by
    rw [List.length_append, fits.length_render]
    omega
  have inside : ¬ (m.body ++ (m.filler ++ rest)).length < m.body.length := by
    rw [List.length_append]
    omega
  have passed : (m.body ++ (m.filler ++ rest)).drop (m.body.length + m.body.length % 2) = rest := by
    rw [← List.append_assoc]
    exact List.drop_left' (by rw [List.length_append, m.length_filler])
  -- The parts of the member answer every test that is made.
  rw [findFrom, if_neg enough]
  dsimp only
  rw [first, behind, drop_header fits.title fits.fields fits.size, if_neg (not_not.2 rfl),
    headerSize_header fits.title fits.fields fits.size]
  dsimp only
  rw [if_neg inside, headerName_header fits.title, List.take_left, passed,
    fits.length_render, Nat.add_assoc]

/-! ## Archives -/

/-- An archive of members. -/
def renderAll (l : List Member) : Text :=
  magic ++ l.flatMap Member.render

theorem members_eq (l : List (Text × Text)) :
    members l = renderAll (l.map fun m => .plain m.1 m.2) := by
  simp only [members, renderAll, List.flatMap_map, Member.render_plain]

private theorem findFrom_flatMap {l : List Member} (fits : ∀ m ∈ l, m.Fits)
    (enough : l.length ≤ fuel) (wanted : Text) (offset : Nat) :
    findFrom wanted fuel offset (l.flatMap Member.render) =
      .ok ((l.find? (dropSlashes ·.title = wanted)).map Member.body) := by
  induction l generalizing fuel offset with
  | nil => cases fuel <;> rfl
  | cons m l ih =>
    obtain ⟨first, others⟩ := List.forall_mem_cons.1 fits
    cases fuel with
    | zero => cases enough
    | succ fuel =>
      rw [List.flatMap_cons, findFrom_render first, List.find?_cons]
      by_cases same : dropSlashes m.title = wanted
      · simp [same]
      · simpa [same] using ih others (Nat.le_of_succ_le_succ enough) _

/-- The first member with a name is found in an archive of members. -/
theorem find_renderAll {l : List Member} (fits : ∀ m ∈ l, m.Fits) (wanted : Text) :
    find wanted (renderAll l) =
      .ok ((l.find? (dropSlashes ·.title = wanted)).map Member.body) := by
  have stripped : stripPrefix? magic (renderAll l) = some (l.flatMap Member.render) :=
    stripPrefix?_eq_some_iff.2 rfl
  -- Every member has a header, so the fuel is enough for all of them.
  have enough : l.length ≤ (l.flatMap Member.render).length := by
    clear stripped
    induction l with
    | nil => exact Nat.le_refl 0
    | cons m l ih =>
      obtain ⟨first, others⟩ := List.forall_mem_cons.1 fits
      have := ih others
      rw [List.flatMap_cons, List.length_append, first.length_render, List.length_cons]
      omega
  rw [find, stripped]
  exact findFrom_flatMap fits enough wanted magic.length

end Interlace.Archive
