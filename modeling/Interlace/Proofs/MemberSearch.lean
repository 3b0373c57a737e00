import Interlace.Proofs.ArchiveMembers
import Mathlib.Data.List.Find

/-!
# Searching an archive by offsets

The members of an archive are found through the sizes that their headers tell, which come from the
archive itself. The search is told here as a machine with an offset does it, round by round: a round
that asks for bytes which are not there, or for a sum that does not fit 64 bits, traps. No archive
brings it there, however damaged it is, and every round moves on by a header at least.

## Key results

- `Archive.size_lt_of_headerSize`: a size in a header is short of what ten digits can tell
- `Archive.round_eq`: what a round comes to, which is no trap
- `Archive.searches_find`: the search ends for every text with what `Archive.find` gives
- `Archive.find_searches`: what is found in an archive, and how the search for it goes
-/

namespace Interlace

namespace Text

/-- A character beyond ASCII is written with bytes beyond ASCII. -/
private theorem not_ascii_of_mem_utf8EncodeChar {c : Char} (beyond : ¬ c.val.toNat ≤ 127) :
    ∀ b ∈ String.utf8EncodeChar c, ¬ b < 0x80 := by
  -- Each byte has its highest bit set, whatever the length of the form.
  have high (n : Nat) (low : 0x80 ≤ n) (small : n < 0x100) : ¬ UInt8.ofNat n < 0x80 := by
    rw [UInt8.lt_iff_toNat_lt, UInt8.toNat_ofNat_of_lt' small]
    exact Nat.not_lt.2 low
  simp only [String.utf8EncodeChar, if_neg beyond]
  split
  · simp only [List.forall_mem_cons]
    exact ⟨high _ (by omega) (by omega), high _ (by omega) (by omega), nofun⟩
  split
  · simp only [List.forall_mem_cons]
    exact ⟨high _ (by omega) (by omega), high _ (by omega) (by omega),
      high _ (by omega) (by omega), nofun⟩
  · simp only [List.forall_mem_cons]
    exact ⟨high _ (by omega) (by omega), high _ (by omega) (by omega),
      high _ (by omega) (by omega), high _ (by omega) (by omega), nofun⟩

/-- A character is written with one byte of ASCII at most. -/
private theorem countP_utf8EncodeChar_le (c : Char) :
    (String.utf8EncodeChar c).countP (· < 0x80) ≤ 1 := by
  by_cases ascii : c.val.toNat ≤ 127
  · refine List.countP_le_length.trans ?_
    simp only [String.utf8EncodeChar, if_pos ascii]
    exact Nat.le_refl 1
  · have none_there := not_ascii_of_mem_utf8EncodeChar ascii
    rw [List.countP_eq_zero.2 fun b hb => by simpa using none_there b hb]
    exact Nat.zero_le 1

private theorem length_charsFrom_le (offset skip : Nat) (t : Text) :
    (charsFrom offset skip t).length ≤ t.length := by
  fun_induction charsFrom offset skip t <;> simp <;> omega

/-- Mending does not add bytes of ASCII. -/
private theorem countP_mended_le (t : Text) : (mended t).countP (· < 0x80) ≤ t.length := by
  -- A character gives at most one byte of ASCII, and comes from a byte at least.
  have each : ∀ cs : List Char, (ofChars cs).countP (· < 0x80) ≤ cs.length := by
    intro cs
    induction cs with
    | nil => exact Nat.le_refl 0
    | cons c cs ih =>
      have := countP_utf8EncodeChar_le c
      rw [ofChars] at ih
      rw [ofChars, List.flatMap_cons, List.countP_append, List.length_cons]
      omega
  refine (each _).trans ?_
  rw [chars, List.length_map]
  exact length_charsFrom_le 0 0 t

end Text

namespace Archive

open Text

/-! ## Sizes -/

/-- A size has ten digits at most. -/
theorem size_lt_of_headerSize {header : Text} {size : Nat} (h : headerSize header = .ok size) :
    size < 10 ^ 10 := by
  obtain ⟨small, ascii⟩ := decimal_lt h
  generalize field : header.slice 48 58 = t at *
  have short : t.length ≤ 10 := by
    rw [← field, slice, List.length_take]
    exact Nat.min_le_left ..
  have inside : (trim (mended t)).Sublist (mended t) :=
    ((trimEnd_isPrefix _).isInfix.trans (dropWhite_isSuffix 0 _).isInfix).sublist
  -- The field is mended and trimmed before it is read, and neither adds digits.
  have digits : (trim (mended t)).length ≤ 10 := by
    calc (trim (mended t)).length
      _ = (trim (mended t)).countP (· < 0x80) :=
        (List.countP_eq_length.2 fun b hb => by simpa using ascii b hb).symm
      _ ≤ (mended t).countP (· < 0x80) := inside.countP_le
      _ ≤ t.length := countP_mended_le t
      _ ≤ 10 := short
  exact small.trans_le (Nat.pow_le_pow_right (by decide) digits)

/-! ## A machine with an offset -/

/-- What would stop the search short of an answer. -/
inductive Trap where
  /-- Bytes are asked for that are not there. -/
  | outside (start stop : Nat)
  /-- A sum does not fit 64 bits. -/
  | overflow (a b : Nat)
  deriving DecidableEq

/-- The bytes in a range of a text, which has to lie in it. -/
def bytesAt (t : Text) (start stop : Nat) : Except Trap Text :=
  if start ≤ stop ∧ stop ≤ t.length then .ok (t.slice start stop)
  else .error (.outside start stop)

/-- A sum, which has to fit 64 bits. -/
def plus (a b : Nat) : Except Trap Nat :=
  if a + b < bound64 then .ok (a + b) else .error (.overflow a b)

/-- What a round comes to: an answer, or the offset where the next one starts. -/
inductive Turn where
  | answer (result : Except ArchiveFault (Option Text))
  | next (offset : Nat)

/-- A round of the search, at an offset into the archive. -/
def round (wanted t : Text) (offset : Nat) : Except Trap Turn := do
  let bodyStart ← plus offset 60
  if t.length < bodyStart then return .answer (.ok none)
  let header ← bytesAt t offset bodyStart
  if (← bytesAt header 58 60) ≠ headerEnd then return .answer (.error (.corruptHeader offset))
  let name := dropSlashes (trimEnd (mended (← bytesAt header 0 16)))
  match decimal bound64 (trim (mended (← bytesAt header 48 58))) with
  | .error cause => return .answer (.error (.corruptSize offset cause))
  | .ok size =>
    let bodyStop ← plus bodyStart size
    if t.length < bodyStop then return .answer (.error (.truncated name))
    if name = wanted then return .answer (.ok (some (← bytesAt t bodyStart bodyStop)))
    return .next (← plus bodyStop (size % 2))

/-- From an offset on, the search comes to an answer in a number of rounds, and none of them
traps. -/
inductive Rounds (wanted t : Text) : (offset : Nat) → (count : Nat) →
    Except ArchiveFault (Option Text) → Prop
  | last {offset : Nat} {result : Except ArchiveFault (Option Text)}
      (done : round wanted t offset = .ok (.answer result)) : Rounds wanted t offset 1 result
  | more {offset next count : Nat} {result : Except ArchiveFault (Option Text)}
      (on : round wanted t offset = .ok (.next next)) (rest : Rounds wanted t next count result) :
      Rounds wanted t offset (count + 1) result

/-- The search through a text comes to an answer in a number of rounds. -/
inductive Searches (wanted t : Text) : (count : Nat) → Except ArchiveFault (Option Text) → Prop
  | refused (other : ¬ startsWith t magic) : Searches wanted t 0 (.error .notArchive)
  | through {count : Nat} {result : Except ArchiveFault (Option Text)} (starts : startsWith t magic)
      (rounds : Rounds wanted t magic.length count result) : Searches wanted t count result

variable {wanted t : Text} {offset : Nat}

/-! ## Rounds -/

/-- What a round comes to, told by the text that is left. -/
def turn (wanted t : Text) (offset : Nat) : Turn :=
  let rest := t.drop offset
  let header := rest.take 60
  let body := rest.drop 60
  if rest.length < 60 then .answer (.ok none)
  else if header.drop 58 ≠ headerEnd then .answer (.error (.corruptHeader offset))
  else
    match headerSize header with
    | .error cause => .answer (.error (.corruptSize offset cause))
    | .ok size =>
      if body.length < size then .answer (.error (.truncated (headerName header)))
      else if headerName header = wanted then .answer (.ok (some (body.take size)))
      else .next (offset + 60 + (size + size % 2))

private theorem bytesAt_eq {start stop : Nat} (le : start ≤ stop) (within : stop ≤ t.length) :
    bytesAt t start stop = .ok (t.slice start stop) :=
  if_pos ⟨le, within⟩

private theorem plus_eq {a b : Nat} (fits : a + b < bound64) : plus a b = .ok (a + b) :=
  if_pos fits

/-- No round traps: the bytes that it asks for are there, and its sums fit. -/
theorem round_eq (short : t.length < 2 ^ 63) (within : offset ≤ t.length + 1) :
    round wanted t offset = .ok (turn wanted t offset) := by
  have room : bound64 = 2 ^ 64 := rfl
  unfold round turn
  -- Every sum and every slice is within the bounds that the tests before it have left.
  rw [plus_eq (by omega)]
  dsimp only [bind, Except.bind]
  by_cases few : t.length < offset + 60
  · rw [if_pos few, if_pos (by rw [List.length_drop]; omega)]
    rfl
  rw [if_neg few, if_neg (by rw [List.length_drop]; omega), bytesAt_eq (by omega) (by omega)]
  dsimp only
  have header_eq : t.slice offset (offset + 60) = (t.drop offset).take 60 := by
    rw [slice, Nat.add_sub_cancel_left]
  rw [header_eq]
  generalize header_is : (t.drop offset).take 60 = header
  have wide : header.length = 60 := by
    rw [← header_is, List.length_take, List.length_drop]
    omega
  rw [bytesAt_eq (by omega) (by omega)]
  dsimp only
  have mark : slice header 58 60 = header.drop 58 :=
    List.take_of_length_le (by rw [List.length_drop, wide])
  rw [mark]
  by_cases ends : header.drop 58 = headerEnd
  · rw [if_neg (not_not.2 ends), if_neg (not_not.2 ends), bytesAt_eq (by omega) (by omega)]
    have name_is : dropSlashes (trimEnd (mended (slice header 0 16))) = headerName header := rfl
    have size_is : decimal bound64 (trim (mended (slice header 48 58))) = headerSize header := rfl
    dsimp only
    rw [bytesAt_eq (by omega) (by omega)]
    dsimp only
    rw [name_is, size_is]
    cases read : headerSize header with
    | error cause => rfl
    | ok size =>
      have small := size_lt_of_headerSize read
      have left : ((t.drop offset).drop 60).length = t.length - (offset + 60) := by
        rw [List.length_drop, List.length_drop, Nat.sub_sub]
      dsimp only
      rw [plus_eq (by omega), left]
      dsimp only
      by_cases cut : t.length < offset + 60 + size
      · have missing : t.length - (offset + 60) < size := by omega
        rw [if_pos cut, if_pos missing]
        rfl
      have there : ¬ t.length - (offset + 60) < size := by omega
      rw [if_neg cut, if_neg there]
      by_cases same : headerName header = wanted
      · rw [if_pos same, if_pos same, bytesAt_eq (by omega) (by omega), slice, List.drop_drop,
          Nat.add_sub_cancel_left]
        rfl
      · rw [if_neg same, if_neg same, plus_eq (by omega), Nat.add_assoc (offset + 60)]
        rfl
  · rw [if_pos ends, if_pos ends]
    rfl

/-- A round that gives no answer moves on by a header at least, and not beyond the text and its last
padding. -/
private theorem next_of_turn {next : Nat} (h : turn wanted t offset = .next next) :
    offset + 60 ≤ next ∧ next ≤ t.length + 1 ∧ offset + 60 ≤ t.length := by
  unfold turn at h
  dsimp only at h
  split at h
  · cases h
  -- A round goes on only if a whole header is left and its member lies in the text.
  rename_i enough
  split at h
  · cases h
  split at h
  · cases h
  rename_i size _
  split at h
  · cases h
  rename_i inside
  split at h
  · cases h
  cases h
  simp only [List.length_drop] at enough inside
  omega

/-- The search by what is left goes round by round. -/
private theorem findFrom_eq_turn (wanted t : Text) (fuel offset : Nat) :
    findFrom wanted (fuel + 1) offset (t.drop offset) =
      match turn wanted t offset with
      | .answer result => result
      | .next next => findFrom wanted fuel next (t.drop next) := by
  rw [findFrom]
  unfold turn
  dsimp only
  split
  · rfl
  split
  · rfl
  cases headerSize ((t.drop offset).take 60) with
  | error cause => rfl
  | ok size =>
    dsimp only
    split
    · rfl
    split
    · rfl
    · rw [List.drop_drop, List.drop_drop, Nat.add_assoc offset]

/-- With enough fuel, the search by what is left gives what the rounds come to. -/
private theorem rounds_findFrom (short : t.length < 2 ^ 63) {fuel : Nat}
    (within : offset ≤ t.length + 1) (enough : t.length - offset ≤ fuel) :
    ∃ count ≤ (t.length - offset) / 60 + 1,
      Rounds wanted t offset count (findFrom wanted fuel offset (t.drop offset)) := by
  have round : round wanted t offset = .ok (turn wanted t offset) := round_eq short within
  induction fuel generalizing offset with
  | zero =>
    -- Nothing is left, and so a round ends the search.
    have ended : turn wanted t offset = .answer (.ok none) := by
      unfold turn
      exact if_pos (by rw [List.length_drop]; omega)
    rw [ended] at round
    exact ⟨1, Nat.le_add_left 1 _, .last round⟩
  | succ fuel ih =>
    rw [findFrom_eq_turn]
    cases came : turn wanted t offset with
    | answer result =>
      rw [came] at round
      exact ⟨1, Nat.le_add_left 1 _, .last round⟩
    | next next =>
      rw [came] at round
      obtain ⟨on, inside, room⟩ := next_of_turn came
      obtain ⟨count, few, rest⟩ := ih inside (by omega) (round_eq short inside)
      exact ⟨count + 1, by omega, .more round rest⟩

/-- The search ends for every text, in rounds that do not trap, with what is found. -/
theorem searches_find (wanted : Text) (short : t.length < 2 ^ 63) :
    ∃ count ≤ t.length / 60 + 1, Searches wanted t count (find wanted t) := by
  unfold find
  cases stripped : stripPrefix? magic t with
  | none => exact ⟨0, Nat.zero_le _, .refused (by simp [startsWith, stripped])⟩
  | some members =>
    have whole := stripPrefix?_eq_some_iff.1 stripped
    have behind : t.drop magic.length = members := by
      rw [whole]
      exact List.drop_left
    have left : t.length - magic.length = members.length := by rw [← behind, List.length_drop]
    -- The rounds start behind the magic of the archive.
    have within : magic.length ≤ t.length + 1 := by
      rw [whole, List.length_append]
      omega
    obtain ⟨count, few, rounds⟩ := @rounds_findFrom wanted t _ short _ within left.le
    rw [behind] at rounds
    exact ⟨count, by omega, .through (by simp [startsWith, stripped]) rounds⟩

/-! ## Searches -/

/-- In an archive of members the body of the first member with a name is found, whether its header
has a slash behind the name or not. For every text whatsoever the search comes to an answer, through
rounds that stay inside the text and whose sums fit 64 bits. No text is as long as `2 ^ 63` bytes:
that is more than can be addressed. -/
theorem find_searches :
    (∀ l : List Member, (∀ m ∈ l, m.Named) → ∀ wanted : Text,
      find wanted (renderAll l) = .ok ((l.find? (·.name = wanted)).map Member.body)) ∧
    (∀ wanted t : Text, t.length < 2 ^ 63 →
      ∃ count ≤ t.length / 60 + 1, Searches wanted t count (find wanted t)) := by
  refine ⟨fun l named wanted => ?_, fun wanted t short => searches_find wanted short⟩
  have titled : l.find? (dropSlashes ·.title = wanted) = l.find? (·.name = wanted) :=
    List.find?_congr fun m hm => by rw [(named m hm).dropSlashes_title]
  rw [find_renderAll fun m hm => (named m hm).fits, titled]

/-- Two members share a name; their bodies have odd and even lengths. -/
def sharedName : List Member :=
  let fields : Text := List.replicate 32 0x20
  [⟨"go.o", true, fields, "abc", 0x0A⟩, ⟨"main", false, fields, "", 0⟩,
    ⟨"main", true, fields, "first", 0⟩, ⟨"go.o", false, fields, "late", 0x0A⟩]

/-- The header tells of more bytes than follow it. -/
def cutShort : Text :=
  magic ++ header "go.o" (List.replicate 32 0x20) 9999999999 ++ "abc"

theorem find_searches_shared :
    find "go.o" (renderAll sharedName) = .ok (some "abc") ∧
      find "main" (renderAll sharedName) = .ok (some "") ∧
      find "main/" (renderAll sharedName) = .ok none ∧
      ∃ count ≤ 2, Searches "go.o" cutShort count (find "go.o" cutShort) := by
  have named : ∀ m ∈ sharedName, m.Named := by decide +kernel
  have short : cutShort.length < 2 ^ 63 := by decide
  exact ⟨find_searches.1 _ named _, find_searches.1 _ named _, find_searches.1 _ named _,
    find_searches.2 _ _ short⟩

end Archive

end Interlace
