import Interlace.Proofs.LineReading
import Interlace.Proofs.WhiteSpace

/-!
# Written directives

The name of a file in a `//line` directive may hold colons and digits, and at most two numbers are
taken off behind it. So what is left as the name may end like a position once more, and it depends
on how many numbers are written behind it whether it is read back.

## Key results

- `LineDirective.parse?_eq_some_iff`: what a comment is read as, by the numbers that come off
- `LineDirective.parse?_render_long`: a directive with both numbers is read back
- `SourceFile.leadingLine?_append`: a directive on the first line of a text is split off
- `LineDirective.render_reads_back`: what has been read is written in a form that reads the same
-/

namespace Interlace

namespace Text

/-- There is nothing to trim behind a number. -/
private theorem trimEnd_append_ofNat (t : Text) (n : Nat) :
    trimEnd (t ++ ofNat n) = t ++ ofNat n := by
  have last := digit_facts (n % 10) (Nat.mod_lt n (by decide))
  have visible := (isVisible_of_isDigit last.1).1
  have ascii : digit (n % 10) < 0x80 := by
    rw [isVisible, Bool.and_eq_true] at visible
    exact of_decide_eq_true visible.2
  rw [ofNat_eq, ← List.append_assoc]
  exact trimEnd_concat ascii (whiteWidth_of_isVisible visible []) _

end Text

namespace LineDirective

variable {body head file comment : Text} {line column n : Nat} {d : LineDirective}

/-! ## Numbers at the end -/

/-- A number behind a colon comes off. -/
private theorem peel?_append (t : Text) (fits : n < Text.bound64) :
    peel? (t ++ 0x3A :: Text.ofNat n) = some (t, some n) := by
  have digits : (Text.ofNat n ≠ [] && (Text.ofNat n).all Text.isDigit) = true := by
    simp [Text.ofNat_ne_nil, Compiler.all_isDigit_ofNat]
  unfold peel?
  rw [Compiler.splitLast?_append_ofNat]
  dsimp only
  rw [if_pos digits, Text.decimal?_ofNat fits]

/-- A number that comes off fits 64 bits. -/
private theorem lt_of_peel? (h : peel? body = some (head, some n)) : n < Text.bound64 := by
  unfold peel? at h
  split at h
  · split at h
    · have read := congrArg Prod.snd (Option.some.inj h)
      exact Text.lt_of_decimal?_eq_some (by decide) read
    · cases h
  · cases h

private theorem trimEnd_append_numbered (lead t : Text) (n : Nat) :
    Text.trimEnd (lead ++ (t ++ 0x3A :: Text.ofNat n)) = lead ++ (t ++ 0x3A :: Text.ofNat n) := by
  have whole : lead ++ (t ++ 0x3A :: Text.ofNat n) = (lead ++ t ++ [0x3A]) ++ Text.ofNat n := by
    simp
  rw [whole, Text.trimEnd_append_ofNat]

/-! ## Reading -/

/-- What comes off a text. A number is taken off as long as there is one, but no third. -/
inductive Peels : Text → LineDirective → Prop where
  | bare {file : Text} : peel? file = none → Peels file ⟨file, none, none⟩
  | line {body file : Text} {line : Nat} : peel? body = some (file, some line) →
      peel? file = none → Peels body ⟨file, some line, none⟩
  | column {body head file : Text} {line column : Nat} : peel? body = some (head, some column) →
      peel? head = some (file, some line) → Peels body ⟨file, some line, some column⟩

/-- A comment is read as what comes off behind its start, once it is trimmed. -/
theorem parse?_eq_some_iff : parse? comment = some d ↔
    ∃ body, Text.trimEnd comment = "//line " ++ body ∧ Peels body d ∧ d.file ≠ [] := by
  constructor
  · intro h
    obtain ⟨body, stripped, h⟩ := Option.bind_eq_some_iff.1 h
    refine ⟨body, Text.stripPrefix?_eq_some_iff.1 stripped, ?_⟩
    -- A number that comes off but is too large ends the reading, at either place.
    split at h
    · rename_i plain
      obtain ⟨given, ⟨⟩⟩ := Option.ite_none_left_eq_some.1 h
      exact ⟨.bare plain, given⟩
    · cases h
    · rename_i first
      split at h
      · rename_i plain
        obtain ⟨given, ⟨⟩⟩ := Option.ite_none_left_eq_some.1 h
        exact ⟨.line first plain, given⟩
      · cases h
      · rename_i second
        obtain ⟨given, ⟨⟩⟩ := Option.ite_none_left_eq_some.1 h
        exact ⟨.column first second, given⟩
  · rintro ⟨body, trimmed, peels, given⟩
    have stripped := Text.stripPrefix?_eq_some_iff.2 trimmed
    unfold parse?
    rw [stripped]
    cases peels with
    | bare plain => simp [plain, given]
    | line first plain => simp [first, plain, given]
    | column first second => simp [first, second, given]

/-- A directive with both numbers is read back. -/
theorem parse?_render_long (given : file ≠ []) (line_fits : line < Text.bound64)
    (column_fits : column < Text.bound64) :
    parse? (render ⟨file, some line, some column⟩) = some ⟨file, some line, some column⟩ := by
  rw [render_long]
  refine parse?_eq_some_iff.2 ⟨_, ?_, .column (peel?_append _ column_fits)
    (peel?_append _ line_fits), given⟩
  exact trimEnd_append_numbered _ _ _

/-- A directive with a line only is read back if the name does not end like a position. -/
private theorem parse?_render_short (given : file ≠ []) (plain : peel? file = none)
    (fits : line < Text.bound64) :
    parse? (render ⟨file, some line, none⟩) = some ⟨file, some line, none⟩ := by
  rw [render_short]
  refine parse?_eq_some_iff.2 ⟨_, ?_, .line (peel?_append _ fits) plain, given⟩
  exact trimEnd_append_numbered _ _ _

/-- What has been read is read again. -/
private theorem parse?_render_of_parse? (h : parse? comment = some d) :
    parse? d.render = some d := by
  obtain ⟨body, trimmed, peels, given⟩ := parse?_eq_some_iff.1 h
  cases peels with
  -- Without a number the text is written as it was trimmed.
  | bare plain =>
    have again : Text.trimEnd ("//line " ++ body) = "//line " ++ body := by
      rw [← trimmed, Text.trimEnd_trimEnd]
    exact parse?_eq_some_iff.2 ⟨body, again, .bare plain, given⟩
  | line first plain => exact parse?_render_short given plain (lt_of_peel? first)
  | column first second => exact parse?_render_long given (lt_of_peel? second) (lt_of_peel? first)

end LineDirective

/-- A directive on the first line of a text is split off. -/
theorem SourceFile.leadingLine?_append {comment : Text} {d : LineDirective}
    (one_line : Text.newline ∉ comment) (read : LineDirective.parse? comment = some d)
    (rest : Text) : leadingLine? (comment ++ Text.newline :: rest) = some (d, rest) := by
  have starts : Text.startsWith (comment ++ Text.newline :: rest) "//line " := by
    obtain ⟨body, trimmed, -⟩ := LineDirective.parse?_eq_some_iff.1 read
    obtain ⟨white, whole⟩ := Text.trimEnd_isPrefix comment
    rw [trimmed] at whole
    exact Text.startsWith_iff.2 ⟨body ++ white ++ Text.newline :: rest, by simp [← whole]⟩
  -- The comment is all of the first line, so it is what is cut off.
  have first : (comment ++ Text.newline :: rest).takeWhile (· ≠ Text.newline) = comment := by
    rw [List.takeWhile_append_of_pos, List.takeWhile_cons_of_neg (by simp), List.append_nil]
    intro b hb
    exact decide_eq_true (ne_of_mem_of_not_mem hb one_line)
  have behind : (comment ++ Text.newline :: rest).drop (comment.length + 1) = rest := by
    rw [← List.drop_drop, List.drop_left]
    rfl
  unfold leadingLine?
  rw [if_pos starts]
  dsimp only
  rw [first, read, behind]
  rfl

namespace LineDirective

/-- A directive that has been read is written in a form that reads the same. So is any directive
with both numbers, whatever the name of its file ends in, and on a line of its own it gives the file
that follows the name and the line. -/
theorem render_reads_back :
    (∀ comment d, parse? comment = some d → parse? d.render = some d) ∧
    (∀ file line column, file ≠ [] → line < Text.bound64 → column < Text.bound64 →
      parse? (render ⟨file, some line, some column⟩) = some ⟨file, some line, some column⟩) ∧
    (∀ file line column rest, file ≠ [] → Text.newline ∉ file → line < Text.bound64 →
      column < Text.bound64 →
      SourceFile.leadingLine? (render ⟨file, some line, some column⟩ ++ Text.newline :: rest) =
        some (⟨file, some line, some column⟩, rest)) := by
  refine ⟨fun _ _ h => parse?_render_of_parse? h,
    fun _ _ _ given line column => parse?_render_long given line column, ?_⟩
  intro file line column rest given plain line_fits column_fits
  have one_line := newline_not_mem_render plain line (some column)
  exact SourceFile.leadingLine?_append one_line
    (parse?_render_long given line_fits column_fits) rest

/-- Zeros in front and white space behind are not written again, and a name may end like a
position. -/
theorem render_reads_back_colons :
    (parse? "//line C:/a b:7:012:3 \t" = some ⟨"C:/a b:7", some 12, some 3⟩ ∧
      parse? (render ⟨"C:/a b:7", some 12, some 3⟩) = some ⟨"C:/a b:7", some 12, some 3⟩) ∧
    (("2:7" : Text) ≠ [] ∧ Text.newline ∉ ("2:7" : Text) ∧ 1 < Text.bound64 ∧
      8 < Text.bound64 ∧
      parse? (render ⟨"2:7", some 1, some 8⟩) = some ⟨"2:7", some 1, some 8⟩ ∧
      SourceFile.leadingLine? (render ⟨"2:7", some 1, some 8⟩ ++ Text.newline :: "package p") =
        some ((⟨"2:7", some 1, some 8⟩ : LineDirective), ("package p" : Text))) := by
  obtain ⟨again, written, leading⟩ := render_reads_back
  have read : parse? "//line C:/a b:7:012:3 \t" = some ⟨"C:/a b:7", some 12, some 3⟩ := by decide
  have given : ("2:7" : Text) ≠ [] := by decide
  have plain : Text.newline ∉ ("2:7" : Text) := by decide
  have line : 1 < Text.bound64 := by decide
  have column : 8 < Text.bound64 := by decide
  exact ⟨⟨read, again _ _ read⟩, given, plain, line, column,
    written _ _ _ given line column, leading _ _ _ _ given plain line column⟩

end LineDirective

end Interlace
