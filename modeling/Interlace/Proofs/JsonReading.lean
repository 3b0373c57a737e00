import Interlace.Json.Decode
import Interlace.Proofs.Decimals
import Interlace.Proofs.Folds

/-!
# Reading JSON back

A value that is written out is read back as it was. Writing puts no white space between the parts
of a value, and every value ends where a comma, a closing bracket or the end of the text follows,
so reading finds the same parts.

## Key results

- `Json.readString_renderString`: strings, with every escape
- `Json.readValue_render`: values, by recursion over the value
- `Json.parse_render`: whole texts
-/

namespace Interlace

/-- The text is UTF-8 to its end. -/
def Text.WellFormed (t : Text) : Prop :=
  t.illFormedAt? = none

instance (t : Text) : Decidable t.WellFormed :=
  inferInstanceAs (Decidable (_ = _))

/-- ASCII is UTF-8. -/
theorem Text.wellFormed_of_ascii {t : Text} (h : ∀ b ∈ t, b < 0x80) : t.WellFormed := by
  have scan : ∀ offset, firstIllFormed offset 0 t = none := by
    induction t with
    | nil => exact fun _ => rfl
    | cons b t ih =>
      intro offset
      obtain ⟨ascii, others⟩ := List.forall_mem_cons.1 h
      rw [firstIllFormed, readPoint, if_pos ascii]
      exact ih others (offset + 1)
  exact scan 0

theorem Text.wellFormed_of_isVisible {t : Text} (h : ∀ b ∈ t, isVisible b) : t.WellFormed := by
  refine wellFormed_of_ascii fun b hb => ?_
  have := h b hb
  simp only [isVisible, Bool.and_eq_true, decide_eq_true_eq] at this
  exact this.2

namespace Json

/-! ## Strings -/

private theorem hexValue?_hexDigit : ∀ n < 16, hexValue? (Text.hexDigit n) = some n := by decide

private theorem utf8EncodeChar_ofNat :
    ∀ n < 32, String.utf8EncodeChar (Char.ofNat n) = [UInt8.ofNat n] := by decide

/-- A control character is read back from its number. -/
private theorem unicodeEscape_hexByte {b : UInt8} (control : b.toNat < 32) (t : Text) :
    unicodeEscape (0x30 :: 0x30 :: (Text.hexByte b ++ t)) = .ok (Char.ofNat b.toNat, t) := by
  have high := hexValue?_hexDigit (b.toNat / 16) (by omega)
  have low := hexValue?_hexDigit (b.toNat % 16) (by omega)
  have zero : hexValue? 0x30 = some 0 := by decide
  have unit : hexUnit (0x30 :: 0x30 :: (Text.hexByte b ++ t)) = .ok (b.toNat, t) := by
    simp only [Text.hexByte, List.cons_append, List.nil_append, hexUnit, high, low, zero]
    congr
    omega
  -- It is no half of a surrogate pair.
  have plain : ¬ (0xDC00 ≤ b.toNat && b.toNat ≤ 0xDFFF) = true ∧
      ¬ (0xD800 ≤ b.toNat && b.toNat ≤ 0xDBFF) = true := by
    simp only [Bool.and_eq_true, decide_eq_true_eq]
    omega
  unfold unicodeEscape
  rw [unit]
  dsimp only
  rw [if_neg plain.1, if_neg plain.2]

/-- A byte of a string is read back. -/
private theorem readString_escapeByte (fuel : Nat) (read : Text) (b : UInt8) (t : Text) :
    readString (fuel + 1) read (escapeByte b ++ t) = readString fuel (b :: read) t := by
  unfold escapeByte
  -- The bytes with a letter of their own.
  iterate 7
    split
    · subst_vars
      rfl
  split
  · rename_i low
    have control : b.toNat < 32 := by simpa [UInt8.lt_iff_toNat_lt] using low
    have spelled : Text.ofString "\\u00" ++ Text.hexByte b ++ t =
        0x5C :: 0x75 :: 0x30 :: 0x30 :: (Text.hexByte b ++ t) := rfl
    have back := utf8EncodeChar_ofNat b.toNat control
    rw [UInt8.ofNat_toNat] at back
    rw [spelled, readString, unicodeEscape_hexByte control]
    dsimp only
    rw [back]
    rfl
  · rename_i printed
    rw [List.cons_append, List.nil_append, readString]
    · rw [if_neg printed]
    -- It is neither the closing quote nor the start of an escape.
    all_goals simp_all

private theorem length_le_flatMap_escapeByte (t : Text) :
    t.length ≤ (t.flatMap escapeByte).length := by
  induction t with
  | nil => exact Nat.le_refl _
  | cons b t ih =>
    have one : 1 ≤ (escapeByte b).length := by
      unfold escapeByte
      repeat' split
      all_goals exact Nat.succ_le_succ (Nat.zero_le _)
    rw [List.flatMap_cons, List.length_append, List.length_cons]
    omega

/-- The bytes of a string are read back up to the closing quote. -/
private theorem readString_flatMap {t : Text} {fuel : Nat} (enough : t.length < fuel)
    (read rest : Text) (good : Text.WellFormed (read.reverse ++ t)) :
    readString fuel read (t.flatMap escapeByte ++ 0x22 :: rest) =
      .ok (read.reverse ++ t, rest) := by
  induction t generalizing fuel read with
  | nil =>
    rw [List.append_nil] at good ⊢
    cases fuel with
    | zero => cases enough
    | succ fuel =>
      have legible : Text.illFormedAt? read.reverse = none := good
      rw [List.flatMap_nil, List.nil_append, readString, legible]
      rfl
  | cons b t ih =>
    cases fuel with
    | zero => cases enough
    | succ fuel =>
      rw [List.flatMap_cons, List.append_assoc, readString_escapeByte]
      -- What is read and what is left make up the same text before and after.
      have here : (b :: read).reverse ++ t = read.reverse ++ b :: t := by simp
      rw [ih (Nat.lt_of_succ_lt_succ enough) (b :: read) (here ▸ good), here]

/-- A string is read back behind its opening quote. -/
theorem readString_renderString {t : Text} (good : t.WellFormed) (rest : Text) :
    ∃ body, renderString t ++ rest = 0x22 :: body ∧
      readString (body.length + 1) [] body = .ok (t, rest) := by
  refine ⟨t.flatMap escapeByte ++ 0x22 :: rest, ?_, ?_⟩
  · show ([0x22] ++ t.flatMap escapeByte ++ [0x22]) ++ rest = _
    simp
  · refine readString_flatMap ?_ [] rest good
    have := length_le_flatMap_escapeByte t
    rw [List.length_append, List.length_cons]
    omega

/-! ## Values that are written out -/

mutual

/-- The value has all its parts, no number that does not fit 64 bits, and no text that is not
UTF-8. -/
def IsWhole : Json → Prop
  | null => True
  | bool _ => True
  | nat n => n < 0x10000000000000000
  | string t => t.WellFormed
  | array items none => AllWhole items
  | object members none => MembersWhole members
  | _ => False

/-- All values are whole. -/
def AllWhole : List Json → Prop
  | [] => True
  | j :: rest => IsWhole j ∧ AllWhole rest

/-- All members are whole, and their keys are UTF-8. -/
def MembersWhole : List (Text × Json) → Prop
  | [] => True
  | (key, j) :: rest => key.WellFormed ∧ IsWhole j ∧ MembersWhole rest

end

mutual

/-- The number of lists and objects inside one another. -/
def nesting : Json → Nat
  | array items _ => nestingItems items + 1
  | object members _ => nestingMembers members + 1
  | badKey members _ => nestingMembers members + 1
  | _ => 0

/-- The greatest nesting of several values. -/
def nestingItems : List Json → Nat
  | [] => 0
  | j :: rest => max (nesting j) (nestingItems rest)

/-- The greatest nesting of the members of an object. -/
def nestingMembers : List (Text × Json) → Nat
  | [] => 0
  | (_, j) :: rest => max (nesting j) (nestingMembers rest)

end

mutual

/-- Lists and objects inside one another are values inside one another. -/
theorem nesting_le_depth : (j : Json) → j.nesting ≤ j.depth
  | .array items _ => Nat.succ_le_succ (nestingItems_le_depth items)
  | .object members _ => Nat.succ_le_succ (nestingMembers_le_depth members)
  | .badKey members _ => Nat.succ_le_succ (nestingMembers_le_depth members)
  | .null | .bool _ | .nat _ | .neg _ | .float _ | .string _ | .broken _ | .missing =>
    Nat.zero_le _

private theorem nestingItems_le_depth : (items : List Json) → nestingItems items ≤ depthItems items
  | [] => Nat.le_refl _
  | j :: items => by
    have first := nesting_le_depth j
    have others := nestingItems_le_depth items
    rw [nestingItems, depthItems]
    omega

private theorem nestingMembers_le_depth : (members : List (Text × Json)) →
    nestingMembers members ≤ depthMembers members
  | [] => Nat.le_refl _
  | (key, j) :: members => by
    have first := nesting_le_depth j
    have others := nestingMembers_le_depth members
    rw [nestingMembers, depthMembers]
    omega

end

/-- A byte that a value starts with. -/
def opensValue (b : UInt8) : Bool :=
  b = 0x6E || b = 0x74 || b = 0x66 || b = 0x22 || b = 0x5B || b = 0x7B || Text.isDigit b

/-- The text of a whole value starts as one. -/
private theorem render_start {j : Json} (whole : j.IsWhole) :
    ∃ b t, j.render = b :: t ∧ opensValue b := by
  -- The cases are those of the values; each has its own first byte.
  cases j with
  | null => exact ⟨_, _, rfl, rfl⟩
  | bool b => cases b <;> exact ⟨_, _, rfl, rfl⟩
  | nat n =>
    obtain ⟨b, t, spelled⟩ := List.exists_cons_of_ne_nil (Text.ofNat_ne_nil n)
    have digit : Text.isDigit b := Text.isDigit_of_mem_ofNat (spelled ▸ List.mem_cons_self)
    refine ⟨b, t, spelled, ?_⟩
    simp [opensValue, digit]
  | string t => exact ⟨_, _, rfl, rfl⟩
  | array items fault => exact ⟨_, _, rfl, rfl⟩
  | object members fault => exact ⟨_, _, rfl, rfl⟩
  | neg _ | float _ | badKey _ _ | broken _ | missing => cases whole

/-- What may follow a value: the end, a comma or a closing bracket. -/
def Stops : Text → Prop
  | [] => True
  | b :: _ => b = 0x2C ∨ b = 0x5D ∨ b = 0x7D

/-- A value has no white space before it. -/
private theorem dropSpace_of_opensValue {b : UInt8} (h : opensValue b) (t : Text) :
    dropSpace (b :: t) = b :: t := by
  have shown : ¬ (b = 0x20 || b = 0x09 || b = 0x0A || b = 0x0D) = true := by
    intro space
    simp only [Bool.or_eq_true, decide_eq_true_eq] at space
    rcases space with ((rfl | rfl) | rfl) | rfl <;> cases h
  exact List.dropWhile_cons_of_neg shown

/-! ## Numbers -/

/-- What may follow a value goes on neither with digits, nor with a fraction, nor with an
exponent. -/
theorem Stops.parts {rest : Text} (stops : Stops rest) :
    rest.takeWhile Text.isDigit = [] ∧ rest.dropWhile Text.isDigit = rest ∧
      fractionPart rest = .ok (none, rest) ∧ exponentPart rest = .ok (none, rest) := by
  cases rest with
  | nil => exact ⟨rfl, rfl, rfl, rfl⟩
  | cons b t => rcases stops with rfl | rfl | rfl <;> exact ⟨rfl, rfl, rfl, rfl⟩

/-- A number is read back from its digits. -/
private theorem readNumber_ofNat {n : Nat} (small : n < 0x10000000000000000) {rest : Text}
    (stops : Stops rest) : readNumber false (Text.ofNat n ++ rest) = .ok (.nat n, rest) := by
  have digits : ∀ b ∈ Text.ofNat n, Text.isDigit b := fun b hb => Text.isDigit_of_mem_ofNat hb
  have nonempty := Text.ofNat_ne_nil n
  obtain ⟨noDigit, whole, noFraction, noExponent⟩ := stops.parts
  have spelled : someDigits (Text.ofNat n ++ rest) = .ok (Text.ofNat n, rest) := by
    unfold someDigits
    split
    · rename_i h
      exact absurd (List.append_eq_nil_iff.1 h).1 nonempty
    · dsimp only
      rw [List.takeWhile_append_of_pos digits, List.dropWhile_append_of_pos digits, noDigit, whole,
        List.append_nil, if_neg nonempty]
  -- The only number that starts with a zero has no second digit.
  have leading : ¬ (1 < (Text.ofNat n).length && (Text.ofNat n).head? = some 0x30) = true := by
    simp only [Bool.and_eq_true, decide_eq_true_eq, not_and]
    intro long
    apply Text.head?_ofNat_ne
    by_contra zero
    rw [Text.length_ofNat_of_lt (by omega)] at long
    omega
  have value : numberValue false (Text.ofNat n) none none = .nat n := by
    have read : digitsValue (Text.ofNat n) = n := Text.foldl_addDigit_ofNat n
    unfold numberValue
    rw [read]
    exact if_pos (decide_eq_true small)
  refine bind_eq_ok_iff.2 ⟨_, spelled, ?_⟩
  dsimp only
  rw [if_neg leading]
  refine bind_eq_ok_iff.2 ⟨_, noFraction, bind_eq_ok_iff.2 ⟨_, noExponent, ?_⟩⟩
  exact congrArg (Except.ok <| Prod.mk · rest) value

/-! ## Lists and objects, one step at a time -/

section

variable {fuel levels : Nat} {t rest : Text} {j : Json}

/-- The first item of a list. -/
private theorem readItems_first {b : UInt8} (starts : opensValue b)
    (read : readValue fuel levels (b :: t) = (j, some rest)) :
    readItems (fuel + 1) levels true (b :: t) =
      let (items, fault, after) := readItems fuel levels false rest
      (j :: items, fault, after) := by
  rw [readItems, dropSpace_of_opensValue starts]
  -- A value starts neither with the end of the list nor with a comma.
  split
  · rename_i h
    cases h
  · rename_i h
    cases h
    cases starts
  · rename_i h
    cases h
    cases starts
  · simp only [if_true, read]

/-- A further item of a list. -/
private theorem readItems_next {b : UInt8} (starts : opensValue b)
    (read : readValue fuel levels (b :: t) = (j, some rest)) :
    readItems (fuel + 1) levels false (0x2C :: b :: t) =
      let (items, fault, after) := readItems fuel levels false rest
      (j :: items, fault, after) := by
  have comma : dropSpace (0x2C :: b :: t) = 0x2C :: b :: t := rfl
  rw [readItems, comma]
  simp only [Bool.false_eq_true, if_false, dropSpace_of_opensValue starts]
  split
  · rename_i h
    cases h
  · rename_i h
    cases h
    cases starts
  · simp only [read]

/-- A list is its items. -/
private theorem readValue_list (open_ : 1 < levels) :
    readValue (fuel + 1) levels (0x5B :: t) =
      let (items, fault, after) := readItems fuel (levels - 1) true t
      (.array items fault, after) :=
  if_neg (Nat.not_le.2 open_)

/-- An object is its members. -/
private theorem readValue_object (open_ : 1 < levels) :
    readValue (fuel + 1) levels (0x7B :: t) = readMembers fuel (levels - 1) [] t :=
  if_neg (Nat.not_le.2 open_)

/-- What starts with a digit is a number. -/
private theorem readValue_number {b : UInt8} (digit : Text.isDigit b) :
    readValue (fuel + 1) levels (b :: t) = settle (readNumber false (b :: t)) := by
  have starts : opensValue b := by simp [opensValue, digit]
  rw [readValue, dropSpace_of_opensValue starts]
  split
  case h_9 h =>
    cases h
    exact if_pos digit
  -- The other values start with something else.
  all_goals
    rename_i h
    cases h
    try cases digit

variable {key body behind : Text}
  (named : readString (body.length + 1) [] body = .ok (key, 0x3A :: behind))
  (read : readValue fuel levels behind = (j, some rest))

include named read

/-- The first member of an object. -/
private theorem readMembers_first :
    readMembers (fuel + 1) levels [] (0x22 :: body) =
      readMembers fuel levels [(key, j)] rest := by
  have colon : dropSpace (0x3A :: behind) = 0x3A :: behind := rfl
  have quote : dropSpace (0x22 :: body) = 0x22 :: body := rfl
  rw [readMembers, quote]
  simp [named, read, colon]

/-- A further member of an object. -/
private theorem readMembers_next (first : Text × Json) (before : List (Text × Json)) :
    readMembers (fuel + 1) levels (first :: before) (0x2C :: 0x22 :: body) =
      readMembers fuel levels ((key, j) :: first :: before) rest := by
  have colon : dropSpace (0x3A :: behind) = 0x3A :: behind := rfl
  have quote : dropSpace (0x22 :: body) = 0x22 :: body := rfl
  have comma : dropSpace (0x2C :: 0x22 :: body) = 0x2C :: 0x22 :: body := rfl
  rw [readMembers, comma]
  simp [named, read, colon, quote]

end

/-! ## Values -/

/-- The text of a list: its first item, and each other one behind a comma. -/
private theorem render_list (j : Json) (items : List Json) (rest : Text) :
    render (.array (j :: items) none) ++ rest =
      0x5B :: (j.render ++ ((renderItems items).flatMap (0x2C :: ·) ++ 0x5D :: rest)) := by
  rw [render, renderItems, Text.join_cons]
  simp only [List.append_assoc]
  rfl

/-- The text of an object: its first member, and each other one behind a comma. -/
private theorem render_object (key : Text) (j : Json) (members : List (Text × Json)) (rest : Text) :
    render (.object ((key, j) :: members) none) ++ rest =
      0x7B :: (renderString key ++ 0x3A :: (j.render ++
        ((renderMembers members).flatMap (0x2C :: ·) ++ 0x7D :: rest))) := by
  rw [render, renderMembers, Text.join_cons]
  simp only [List.append_assoc]
  rfl

private theorem stops_items (items : List Json) (rest : Text) :
    Stops ((renderItems items).flatMap (0x2C :: ·) ++ 0x5D :: rest) := by
  cases items with
  | nil => exact .inr (.inl rfl)
  | cons j items => exact .inl rfl

private theorem stops_members (members : List (Text × Json)) (rest : Text) :
    Stops ((renderMembers members).flatMap (0x2C :: ·) ++ 0x7D :: rest) := by
  cases members with
  | nil => exact .inr (.inr rfl)
  | cons member members => exact .inl rfl

mutual

/-- A whole value is read back, if there is fuel for its text and levels for its nesting. -/
theorem readValue_render : (j : Json) → j.IsWhole → (fuel levels : Nat) → (rest : Text) →
    2 * j.render.length ≤ fuel + 1 → j.nesting < levels → Stops rest →
      readValue (fuel + 1) levels (j.render ++ rest) = (j, some rest)
  | .null, _, _, _, _, _, _, _ => rfl
  | .bool true, _, _, _, _, _, _, _ => rfl
  | .bool false, _, _, _, _, _, _, _ => rfl
  | .nat n, whole, fuel, levels, rest, _, _, stops => by
    have read := readNumber_ofNat whole stops
    obtain ⟨b, t, spelled⟩ := List.exists_cons_of_ne_nil (Text.ofNat_ne_nil n)
    have digit : Text.isDigit b := Text.isDigit_of_mem_ofNat (spelled ▸ List.mem_cons_self)
    rw [spelled] at read
    rw [render, spelled, List.cons_append, readValue_number digit, ← List.cons_append, read]
    rfl
  | .string t, whole, fuel, levels, rest, _, _, _ => by
    obtain ⟨body, spelled, read⟩ := readString_renderString whole rest
    rw [render, spelled]
    show settle ((readString (body.length + 1) [] body).map fun (s, t) => (.string s, t)) = _
    rw [read]
    rfl
  | .array [] none, _, fuel, levels, rest, enough, shallow, _ => by
    change 4 ≤ fuel + 1 at enough
    obtain ⟨fuel, rfl⟩ : ∃ more, fuel = more + 1 := ⟨fuel - 1, by omega⟩
    exact readValue_list shallow
  | .array (j :: items) none, ⟨hj, hitems⟩, fuel, levels, rest, enough, shallow, _ => by
    -- The opening bracket and the comma or bracket behind each item pay for the calls.
    have size := congrArg List.length (render_list j items [])
    simp only [List.append_nil, List.length_cons, List.length_append, List.length_nil] at size
    rw [size] at enough
    rw [nesting, nestingItems] at shallow
    obtain ⟨fuel, rfl⟩ : ∃ more, fuel = more + 2 := ⟨fuel - 2, by omega⟩
    have first := readValue_render j hj fuel (levels - 1) _ (by omega) (by omega)
      (stops_items items rest)
    have others := readItems_render items hitems fuel (levels - 1) rest (by omega) (by omega)
    obtain ⟨b, t, spelled, starts⟩ := render_start hj
    rw [render_list, readValue_list (by omega)]
    rw [spelled, List.cons_append] at first ⊢
    rw [readItems_first starts first, others]
  | .object [] none, _, fuel, levels, rest, enough, shallow, _ => by
    change 4 ≤ fuel + 1 at enough
    obtain ⟨fuel, rfl⟩ : ∃ more, fuel = more + 1 := ⟨fuel - 1, by omega⟩
    exact readValue_object shallow
  | .object ((key, j) :: members) none, ⟨hkey, hj, hmembers⟩, fuel, levels, rest, enough, shallow,
      _ => by
    have size := congrArg List.length (render_object key j members [])
    simp only [List.append_nil, List.length_cons, List.length_append, List.length_nil] at size
    rw [size] at enough
    rw [nesting, nestingMembers] at shallow
    obtain ⟨fuel, rfl⟩ : ∃ more, fuel = more + 2 := ⟨fuel - 2, by omega⟩
    have value := readValue_render j hj fuel (levels - 1) _ (by omega) (by omega)
      (stops_members members rest)
    have others := readMembers_render members hmembers fuel (levels - 1) (key, j) [] rest
      (by omega) (by omega)
    obtain ⟨body, spelled, named⟩ := readString_renderString hkey (0x3A :: (j.render ++
      ((renderMembers members).flatMap (0x2C :: ·) ++ 0x7D :: rest)))
    rw [render_object, readValue_object (by omega), spelled, readMembers_first named value, others]
    rfl

/-- Further items of a list are read back. -/
private theorem readItems_render : (items : List Json) → AllWhole items → (fuel levels : Nat) →
    (rest : Text) → 2 * ((renderItems items).flatMap (0x2C :: ·)).length ≤ fuel →
      nestingItems items < levels →
      readItems (fuel + 1) levels false
          ((renderItems items).flatMap (0x2C :: ·) ++ 0x5D :: rest) =
        (items, none, some rest)
  | [], _, _, _, _, _, _ => rfl
  | j :: items, ⟨hj, hitems⟩, fuel, levels, rest, enough, shallow => by
    obtain ⟨b, t, spelled, starts⟩ := render_start hj
    rw [renderItems, List.flatMap_cons, List.length_append, List.length_cons] at enough
    rw [nestingItems] at shallow
    obtain ⟨fuel, rfl⟩ : ∃ more, fuel = more + 1 := ⟨fuel - 1, by omega⟩
    have first := readValue_render j hj fuel levels _ (by omega) (by omega) (stops_items items rest)
    have others := readItems_render items hitems fuel levels rest (by omega) (by omega)
    rw [renderItems, List.flatMap_cons, List.append_assoc, List.cons_append]
    rw [spelled, List.cons_append] at first ⊢
    rw [readItems_next starts first, others]

/-- Further members of an object are read back. -/
private theorem readMembers_render : (members : List (Text × Json)) → MembersWhole members →
    (fuel levels : Nat) → (first : Text × Json) → (before : List (Text × Json)) → (rest : Text) →
    2 * ((renderMembers members).flatMap (0x2C :: ·)).length ≤ fuel →
      nestingMembers members < levels →
      readMembers (fuel + 1) levels (first :: before)
          ((renderMembers members).flatMap (0x2C :: ·) ++ 0x7D :: rest) =
        (.object ((first :: before).reverse ++ members) none, some rest)
  | [], _, _, _, first, before, _, _, _ => by
    rw [List.append_nil]
    rfl
  | (key, j) :: members, ⟨hkey, hj, hmembers⟩, fuel, levels, first, before, rest, enough,
      shallow => by
    rw [renderMembers, List.flatMap_cons, List.length_append, List.length_cons, List.length_append,
      List.length_append] at enough
    rw [nestingMembers] at shallow
    obtain ⟨fuel, rfl⟩ : ∃ more, fuel = more + 1 := ⟨fuel - 1, by omega⟩
    have value := readValue_render j hj fuel levels _ (by omega) (by omega)
      (stops_members members rest)
    have others := readMembers_render members hmembers fuel levels (key, j) (first :: before) rest
      (by omega) (by omega)
    obtain ⟨body, spelled, named⟩ := readString_renderString hkey (0x3A :: (j.render ++
      ((renderMembers members).flatMap (0x2C :: ·) ++ 0x7D :: rest)))
    have text : (renderMembers ((key, j) :: members)).flatMap (0x2C :: ·) ++ 0x7D :: rest =
        0x2C :: 0x22 :: body := by
      rw [renderMembers, List.flatMap_cons, ← spelled]
      simp only [List.append_assoc, List.cons_append]
      rfl
    rw [text, readMembers_next named value, others]
    simp

end

/-- The text of a whole value is read as the value and nothing else. -/
theorem parse_render {j : Json} (whole : j.IsWhole) (shallow : j.nesting < levelLimit) :
    parse j.render = (j, false) := by
  have read := readValue_render j whole (2 * j.render.length + 1) levelLimit [] (by omega) shallow
    trivial
  rw [List.append_nil] at read
  unfold parse
  rw [read]
  rfl

end Json

end Interlace
