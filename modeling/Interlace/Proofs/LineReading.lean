import Interlace.Proofs.Decimals
import Interlace.Proofs.LineFacts
import Interlace.Weave.Positions

/-!
# How the compiler reads positions

The compiler takes a line `//line file:line` or `//line file:line:column` for no code, but gives the
position in it to the next line; the lines after that count on. This is read off here for texts into
which directives have been inserted at the starts of lines: the code is as it was, and the latest
directive before a line decides its position.

## Key results

- `Compiler.directive?_long`, `Compiler.directive?_short`: written directives read back, those
  without a column only if the file's name does not end like a position
- `Compiler.getElem?_readFrom_insertLines`: the positions of a text with directives
-/

namespace Interlace

/-! ## Line numbers -/

namespace Text

variable {t : Text} {offset other : Nat}

private theorem lineOf_eq_add (t : Text) (le : offset ≤ other) :
    t.lineOf other = t.lineOf offset + (t.slice offset other).count newline := by
  have whole : t.take other = t.take offset ++ t.slice offset other :=
    slice_split t (Nat.zero_le offset) le
  unfold lineOf
  rw [whole, List.count_append]

theorem lineOf_mono (t : Text) (le : offset ≤ other) : t.lineOf offset ≤ t.lineOf other := by
  rw [lineOf_eq_add t le]
  exact Nat.le_add_right _ _

theorem lineOf_lineStart (t : Text) (offset : Nat) :
    t.lineOf (t.lineStart offset) = t.lineOf offset := by
  obtain ⟨le, -, none_between⟩ := startsLine_lineStart t offset
  rw [lineOf_eq_add t le, List.count_eq_zero.2, Nat.add_zero]
  intro listed
  obtain ⟨k, low, high, found⟩ := mem_slice.1 listed
  exact none_between k low high found

theorem lineStart_mono (t : Text) (le : offset ≤ other) :
    t.lineStart offset ≤ t.lineStart other := by
  have inside := lineStart_le t offset
  rcases (startsLine_lineStart t offset).2.1 with zero | broken
  · omega
  · by_contra low
    have := lt_lineStart broken (show t.lineStart offset - 1 < other by omega)
    omega

/-- A line that starts later has a greater number. -/
theorem lineOf_lt (less : t.lineStart offset < t.lineStart other) :
    t.lineOf offset < t.lineOf other := by
  have broken := (startsLine_lineStart t other).2.1.resolve_left (by omega)
  have before : offset ≤ t.lineStart other - 1 := by
    by_contra behind
    have := lt_lineStart broken (show t.lineStart other - 1 < offset by omega)
    omega
  calc t.lineOf offset ≤ t.lineOf (t.lineStart other - 1) := lineOf_mono t before
    _ < t.lineOf (t.lineStart other - 1 + 1) := by
      rw [lineOf_eq_add t (Nat.le_succ (t.lineStart other - 1)), slice_succ broken]
      exact Nat.lt_succ_self _
    _ = t.lineOf other := by
      rw [show t.lineStart other - 1 + 1 = t.lineStart other by omega, lineOf_lineStart]

end Text

/-! ## Written directives -/

namespace LineDirective

private theorem colon_eq : (":" : Text) = [0x3A] := by decide

theorem render_short (file : Text) (line : Nat) :
    render ⟨file, some line, none⟩ = "//line " ++ (file ++ 0x3A :: Text.ofNat line) := by
  simp only [render, colon_eq, List.append_assoc, List.singleton_append]

theorem render_long (file : Text) (line column : Nat) :
    render ⟨file, some line, some column⟩ =
      "//line " ++ ((file ++ 0x3A :: Text.ofNat line) ++ 0x3A :: Text.ofNat column) := by
  simp only [render, colon_eq, List.append_assoc, List.cons_append, List.nil_append]

/-- A directive for a file whose name has no line break is one line. -/
theorem newline_not_mem_render {file : Text} (plain : Text.newline ∉ file) (line : Nat)
    (column : Option Nat) : Text.newline ∉ render ⟨file, some line, column⟩ := by
  have lead : Text.newline ∉ ("//line " : Text) := by decide
  have colon : Text.newline ≠ 0x3A := by decide
  have digits : ∀ n, Text.newline ∉ Text.ofNat n :=
    fun n listed => absurd (Text.isDigit_of_mem_ofNat listed) (by decide)
  cases column with
  | none =>
    rw [render_short]
    simp [lead, colon, digits, plain]
  | some column =>
    rw [render_long]
    simp [lead, colon, digits, plain]

end LineDirective

namespace Compiler

/-- A text and the number behind its last colon. -/
def numbered? (t : Text) : Option (Text × Nat) :=
  match Text.splitLast? 0x3A t with
  | some (head, tail) =>
    if tail ≠ [] ∧ tail.all Text.isDigit then some (head, tail.foldl Text.addDigit 0) else none
  | none => none

/-- The file and the line that a directive gives to the next line. Of two numbers the second is
a column. -/
def directive? (line : Text) : Option (Text × Nat) := do
  let body ← Text.stripPrefix? "//line " line
  let (head, last) ← numbered? body
  return (numbered? head).getD (head, last)

/-- A line of code with the position that is reported for it. -/
structure Line where
  text : Text
  file : Text
  number : Nat
  deriving DecidableEq, Repr

/-- The lines of a text, without their line breaks. -/
def linesOf (t : Text) : List Text :=
  Text.splitWhere (· = Text.newline) t

/-- Reads lines, the first of which has a given position unless it is a directive. -/
def readFrom : (file : Text) → (number : Nat) → List Text → List Line
  | _, _, [] => []
  | file, number, t :: ts =>
    match directive? t with
    | some (file, number) => readFrom file number ts
    | none => ⟨t, file, number⟩ :: readFrom file (number + 1) ts

/-- Reads the text of a file. -/
def read (path t : Text) : List Line :=
  readFrom path 1 (linesOf t)

/-! ## Directives -/

private theorem findLast?_append {b : UInt8} {s t : Text} (h : b ∉ t) :
    Text.findLast? b (s ++ b :: t) = some s.length := by
  induction s with
  | nil =>
    have absent : Text.findLast? b t = none := by
      cases found : Text.findLast? b t with
      | none => rfl
      | some i => exact absurd (List.mem_of_getElem? (Text.findLast?_eq_some found).1) h
    rw [List.nil_append, Text.findLast?, absent]
    exact if_pos rfl
  | cons c s ih =>
    rw [List.cons_append, Text.findLast?, ih]
    rfl

private theorem splitLast?_append {b : UInt8} {s t : Text} (h : b ∉ t) :
    Text.splitLast? b (s ++ b :: t) = some (s, t) := by
  rw [Text.splitLast?, findLast?_append h, Option.map_some, List.take_left]
  have behind : (s ++ b :: t).drop (s.length + 1) = t := by
    rw [← List.drop_drop, List.drop_left]
    rfl
  rw [behind]

/-- The digits of a number hold no colon, so the last colon is the one before them. -/
theorem splitLast?_append_ofNat (t : Text) (n : Nat) :
    Text.splitLast? 0x3A (t ++ 0x3A :: Text.ofNat n) = some (t, Text.ofNat n) :=
  splitLast?_append fun colon => absurd (Text.isDigit_of_mem_ofNat colon) (by decide)

theorem all_isDigit_ofNat (n : Nat) : (Text.ofNat n).all Text.isDigit = true :=
  List.all_eq_true.2 fun _ hb => Text.isDigit_of_mem_ofNat hb

/-- A number behind a colon is read back. -/
private theorem numbered?_append (t : Text) (n : Nat) :
    numbered? (t ++ 0x3A :: Text.ofNat n) = some (t, n) := by
  unfold numbered?
  rw [splitLast?_append_ofNat]
  show (if _ then some (t, (Text.ofNat n).foldl Text.addDigit 0) else none) = _
  rw [if_pos ⟨Text.ofNat_ne_nil n, all_isDigit_ofNat n⟩, Text.foldl_addDigit_ofNat]

private theorem directive?_append (body : Text) :
    directive? ("//line " ++ body) =
      (numbered? body).map fun p => (numbered? p.1).getD (p.1, p.2) := by
  have stripped : Text.stripPrefix? "//line " (("//line " : Text) ++ body) = some body :=
    Text.stripPrefix?_eq_some_iff.2 rfl
  unfold directive?
  rw [stripped]
  cases found : numbered? body with
  | none => simp [found]
  | some p => simp [found]

/-- A directive with a column is read back. -/
theorem directive?_long (file : Text) (line column : Nat) :
    directive? (LineDirective.render ⟨file, some line, some column⟩) = some (file, line) := by
  rw [LineDirective.render_long, directive?_append, numbered?_append, Option.map_some,
    numbered?_append]
  rfl

/-- A directive without a column is read back if the file's name does not end like a position. -/
theorem directive?_short {file : Text} (unnumbered : numbered? file = none) (line : Nat) :
    directive? (LineDirective.render ⟨file, some line, none⟩) = some (file, line) := by
  rw [LineDirective.render_short, directive?_append, numbered?_append, Option.map_some, unnumbered]
  rfl

/-! ## Lines -/

/-- Lines that are no directives count on. -/
private theorem getElem?_readFrom_append {ts : List Text} (code : ∀ t ∈ ts, directive? t = none)
    (file : Text) (number : Nat) (us : List Text) (i : Nat) :
    (readFrom file number (ts ++ us))[i]? =
      if i < ts.length then ts[i]?.map (⟨·, file, number + i⟩)
      else (readFrom file (number + ts.length) us)[i - ts.length]? := by
  induction ts generalizing number i with
  | nil => rfl
  | cons t ts ih =>
    have first := code t List.mem_cons_self
    have rest := ih fun u hu => code u (List.mem_cons_of_mem t hu)
    rw [List.cons_append, readFrom, first]
    -- Each line without a directive has the next number.
    cases i with
    | zero => rfl
    | succ i =>
      simp only [List.getElem?_cons_succ, List.length_cons, Nat.succ_lt_succ_iff, rest]
      split
      · rw [Nat.add_assoc, Nat.add_comm 1 i]
      · rw [Nat.add_assoc, Nat.add_comm 1 ts.length, Nat.add_sub_add_right]

/-- Text before and behind a line break has the lines of both. -/
private theorem linesOf_append (s t : Text) :
    linesOf (s ++ Text.newline :: t) = linesOf s ++ linesOf t := by
  induction s with
  | nil => exact Text.splitWhere_append (s := []) nofun (by decide)
  | cons c s ih =>
    unfold linesOf at ih ⊢
    rw [List.cons_append, Text.splitWhere, Text.splitWhere, ih]
    cases split : Text.splitWhere (· = Text.newline) s with
    | nil => exact absurd split (Text.splitWhere_ne_nil _ s)
    | cons piece pieces =>
      rw [List.cons_append]
      dsimp only
      split
      · rfl
      · rfl

private theorem linesOf_line {s : Text} (one_line : Text.newline ∉ s) (t : Text) :
    linesOf (s ++ Text.newline :: t) = s :: linesOf t := by
  refine Text.splitWhere_append (fun c hc => ?_) (by decide)
  exact decide_eq_false fun here => one_line (here ▸ hc)

/-- There is one more line than there are line breaks. -/
theorem length_linesOf (t : Text) : (linesOf t).length = t.count Text.newline + 1 := by
  induction t with
  | nil => rfl
  | cons c t ih =>
    unfold linesOf at ih ⊢
    rw [Text.splitWhere, List.count_cons]
    cases split : Text.splitWhere (· = Text.newline) t with
    | nil => exact absurd split (Text.splitWhere_ne_nil _ t)
    | cons piece pieces =>
      rw [split] at ih
      dsimp only
      by_cases here : c = Text.newline
      · simp [here] at ih ⊢
        omega
      · simp [here] at ih ⊢
        omega

/-- A line starts at an offset in the text. -/
structure BeginsLine (text : Text) (offset : Nat) : Prop where
  le_length : offset ≤ text.length
  start : offset = 0 ∨ text[offset - 1]? = some Text.newline

theorem beginsLine_zero (text : Text) : BeginsLine text 0 :=
  ⟨Nat.zero_le _, .inl rfl⟩

theorem beginsLine_lineStart {text : Text} {offset : Nat} (h : offset ≤ text.length) :
    BeginsLine text (text.lineStart offset) :=
  ⟨Nat.le_trans (Text.lineStart_le text offset) h, (Text.startsLine_lineStart text offset).2.1⟩

/-- Whole lines in front of a text stay lines of their own, whatever the text. -/
private theorem exists_front {text : Text} {offset place : Nat} (le : offset ≤ place)
    (begins : BeginsLine text place) :
    ∃ front : List Text, text.lineOf offset + front.length = text.lineOf place ∧
      ∀ t, linesOf (text.slice offset place ++ t) = front ++ linesOf t := by
  have counted := Text.lineOf_eq_add text le
  rcases Nat.eq_or_lt_of_le le with same | less
  · refine ⟨[], by rw [same]; rfl, fun t => ?_⟩
    rw [same, Text.slice, Nat.sub_self]
    rfl
  · -- The line break before the place ends the last line in front.
    have broken := begins.start.resolve_left (by omega)
    have split : text.slice offset place = text.slice offset (place - 1) ++ [Text.newline] := by
      have last := Text.slice_succ broken
      rw [show place - 1 + 1 = place by omega] at last
      rw [Text.slice_split text (show offset ≤ place - 1 by omega) (Nat.sub_le place 1), last]
    refine ⟨linesOf (text.slice offset (place - 1)), ?_, fun t => ?_⟩
    · rw [counted, length_linesOf, split, List.count_append]
      rfl
    · rw [split, List.append_assoc]
      exact linesOf_append _ t

/-! ## Texts with directives -/

/-- The directive is one line, and is read for what it says. -/
structure Readable (d : LineDirective) : Prop where
  one_line : Text.newline ∉ d.render
  reads : directive? d.render = some (d.file, d.line.getD 1)

/-- A name that can be given in a directive: one line that does not end like a position. -/
structure Nameable (file : Text) : Prop where
  one_line : Text.newline ∉ file
  unnumbered : numbered? file = none

theorem Nameable.readable {file : Text} (h : Nameable file) (line : Nat) :
    Readable ⟨file, some line, none⟩ :=
  ⟨LineDirective.newline_not_mem_render h.one_line line none, directive?_short h.unnumbered line⟩

theorem readable_long {file : Text} (h : Text.newline ∉ file) (line column : Nat) :
    Readable ⟨file, some line, some column⟩ :=
  ⟨LineDirective.newline_not_mem_render h line column, directive?_long file line column⟩

/-- The position that is reported for a line of a text, by the directives that were put into it,
the latest first. -/
def believed (text : Text) (placed : List (Nat × LineDirective)) (line : Nat) :
    Option (Text × Nat) :=
  (placed.find? fun p => text.lineOf p.1 ≤ line).map fun p =>
    (p.2.file, p.2.line.getD 1 + (line - text.lineOf p.1))

theorem believed_cons_of_le {text : Text} {p : Nat × LineDirective}
    {placed : List (Nat × LineDirective)} {line : Nat} (h : text.lineOf p.1 ≤ line) :
    believed text (p :: placed) line =
      some (p.2.file, p.2.line.getD 1 + (line - text.lineOf p.1)) := by
  rw [believed, List.find?_cons_of_pos (by simpa using h), Option.map_some]

theorem believed_cons_of_lt {text : Text} {p : Nat × LineDirective}
    {placed : List (Nat × LineDirective)} {line : Nat} (h : line < text.lineOf p.1) :
    believed text (p :: placed) line = believed text placed line := by
  rw [believed, List.find?_cons_of_neg (by simpa using h), believed]

/-- What is placed first counts where nothing later does. -/
private theorem believed_concat {text : Text} {p : Nat × LineDirective}
    {placed : List (Nat × LineDirective)} {line : Nat} (h : text.lineOf p.1 ≤ line) :
    believed text (placed ++ [p]) line = some ((believed text placed line).getD
      (p.2.file, p.2.line.getD 1 + (line - text.lineOf p.1))) := by
  induction placed with
  | nil => exact believed_cons_of_le h
  | cons q placed ih =>
    rw [List.cons_append]
    by_cases here : text.lineOf q.1 ≤ line
    · rw [believed_cons_of_le here, believed_cons_of_le here]
      rfl
    · rw [believed_cons_of_lt (by omega), believed_cons_of_lt (by omega), ih]

private theorem believed_eq_none {text : Text} {placed : List (Nat × LineDirective)} {line : Nat}
    (h : ∀ p ∈ placed, line < text.lineOf p.1) : believed text placed line = none := by
  rw [believed, Option.map_eq_none_iff, List.find?_eq_none]
  intro p hp
  have := h p hp
  simp
  omega

/-- The lines in front of a directive stay, and then comes the directive. -/
private theorem linesOf_insertLines {text : Text} {offset : Nat} {p : Nat × LineDirective}
    (le : offset ≤ p.1) (begins : BeginsLine text p.1) (one_line : Text.newline ∉ p.2.render)
    (ds : List (Nat × LineDirective)) :
    ∃ front : List Text, text.lineOf offset + front.length = text.lineOf p.1 ∧
      linesOf (text.drop offset) = front ++ linesOf (text.drop p.1) ∧
      linesOf (Positions.insertLines offset (p :: ds) (text.drop offset)) =
        front ++ p.2.render :: linesOf (Positions.insertLines p.1 ds (text.drop p.1)) := by
  -- The directive goes before a line, so the lines before it are whole.
  obtain ⟨front, counted, split⟩ := exists_front le begins
  have left : (text.drop offset).drop (p.1 - offset) = text.drop p.1 := by
    rw [List.drop_drop, Nat.add_sub_cancel' le]
  have whole : text.slice offset p.1 ++ text.drop p.1 = text.drop offset := by
    rw [← left]
    exact List.take_append_drop _ _
  have inserted : Positions.insertLines offset (p :: ds) (text.drop offset) =
      text.slice offset p.1 ++
        (p.2.render ++ Text.newline :: Positions.insertLines p.1 ds (text.drop p.1)) := by
    rw [Positions.insertLines, left, List.append_assoc, List.append_assoc]
    rfl
  refine ⟨front, counted, ?_, ?_⟩
  · rw [← whole, split]
  · rw [inserted, split, linesOf_line one_line]

/-- The positions of a text into which directives were put, from a line on. -/
theorem getElem?_readFrom_insertLines {text : Text} {ds : List (Nat × LineDirective)}
    {offset : Nat} (begins : ∀ p ∈ ds, BeginsLine text p.1) (readable : ∀ p ∈ ds, Readable p.2)
    (ordered : (offset :: ds.map Prod.fst).Pairwise (· ≤ ·))
    (code : ∀ t ∈ linesOf (text.drop offset), directive? t = none) (file : Text)
    (number i : Nat) :
    (readFrom file number (linesOf (Positions.insertLines offset ds (text.drop offset))))[i]? =
      (linesOf (text.drop offset))[i]?.map fun t =>
        let reported := (believed text ds.reverse (text.lineOf offset + i)).getD (file, number + i)
        ⟨t, reported.1, reported.2⟩ := by
  induction ds generalizing offset file number i with
  | nil =>
    have plain := getElem?_readFrom_append code file number [] i
    rw [List.append_nil] at plain
    show (readFrom file number (linesOf (text.drop offset)))[i]? =
      (linesOf (text.drop offset))[i]?.map (⟨·, file, number + i⟩)
    rw [plain]
    split
    · rfl
    · rename_i behind
      rw [List.getElem?_eq_none (l := linesOf (text.drop offset)) (by omega)]
      rfl
  | cons p ds ih =>
    have le : offset ≤ p.1 := (List.pairwise_cons.1 ordered).1 p.1 List.mem_cons_self
    have later := (List.pairwise_cons.1 ordered).2
    -- The first directive parts the lines: those in front of it, and those that it is believed for.
    obtain ⟨front, counted, lines, spelled⟩ := linesOf_insertLines le (begins p List.mem_cons_self)
      (readable p List.mem_cons_self).one_line ds
    rw [lines] at code ⊢
    have rest := ih (fun q hq => begins q (List.mem_cons_of_mem p hq))
      (fun q hq => readable q (List.mem_cons_of_mem p hq)) later
      (fun t ht => code t (List.mem_append_right front ht))
    rw [spelled, getElem?_readFrom_append fun t ht => code t (List.mem_append_left _ ht)]
    split
    · -- No directive comes before the lines in front.
      rename_i before
      have none_yet : believed text (p :: ds).reverse (text.lineOf offset + i) = none := by
        refine believed_eq_none fun q hq => ?_
        have behind : p.1 ≤ q.1 := by
          rcases List.mem_cons.1 (List.mem_reverse.1 hq) with rfl | hq
          · exact Nat.le_refl _
          · exact (List.pairwise_cons.1 later).1 q.1 (List.mem_map_of_mem hq)
        have := Text.lineOf_mono text behind
        omega
      rw [none_yet, List.getElem?_append_left before]
      rfl
    · rename_i behind
      have line : text.lineOf p.1 + (i - front.length) = text.lineOf offset + i := by omega
      rw [readFrom, (readable p List.mem_cons_self).reads]
      dsimp only
      rw [rest, line, List.getElem?_append_right (by omega), List.reverse_cons,
        believed_concat (by omega), show text.lineOf offset + i - text.lineOf p.1 =
          i - front.length by omega]
      rfl

end Compiler

end Interlace
