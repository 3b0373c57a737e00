import Interlace.Comment.Directive
import Interlace.SourceFile
import Interlace.Text.Lemmas
import Interlace.Text.Quoted

/-!
# What occurs in a text

The parts that parsing and matching cut out of a text occur in it: slices, unquoted literals,
trimmed comments, and what stands behind a leading `//line` directive.

## Key results

- `Text.contains_iff_isInfix`: the search for a pattern is exact
- `Text.unquote_isInfix`: the contents of a literal stand in the literal
- `Directive.lead_isPrefix`: a directive starts with two slashes and its name
- `SourceFile.source_isSuffix`: the parsed source is the end of the file
-/

namespace Interlace

namespace Text

/-! ## Searching -/

/-- A text starts with each of its prefixes. -/
private theorem startsWith_iff_isPrefix {t lead : Text} : startsWith t lead ↔ lead <+: t := by
  rw [startsWith_iff]
  constructor
  · rintro ⟨rest, rfl⟩
    exact List.prefix_append lead rest
  · rintro ⟨rest, rfl⟩
    exact ⟨rest, rfl⟩

/-- A pattern is found exactly if it stands somewhere in the text. -/
theorem contains_iff_isInfix {t pattern : Text} : contains t pattern ↔ pattern <:+: t := by
  induction t with
  | nil => by_cases h : pattern = [] <;> simp [contains, find?, h]
  | cons b t ih =>
    -- An infix starts at the head or stands in the rest, which is how `find?` looks.
    rw [List.infix_cons_iff, ← startsWith_iff_isPrefix, ← ih]
    unfold contains
    rw [find?]
    by_cases h : startsWith (b :: t) pattern <;> simp [h]

/-! ## Cutting -/

/-- A slice stands in its text. -/
theorem slice_isInfix (t : Text) (start stop : Nat) : slice t start stop <:+: t :=
  (List.take_prefix _ _).isInfix.trans (List.drop_suffix _ _).isInfix

/-- Trimming the end leaves a prefix. -/
theorem trimEnd_isPrefix (t : Text) : trimEnd t <+: t := by
  induction t with
  | nil => exact List.nil_prefix
  | cons b t ih =>
    rw [trimEnd]
    split
    · exact List.nil_prefix
    · exact (List.prefix_cons_inj b).2 ih

/-- What stands between marks stands in the text. -/
private theorem between?_isInfix {mark : UInt8} {t inner : Text}
    (h : between? mark t = some inner) : inner <:+: t := by
  obtain ⟨rest, lead, tail⟩ := Option.bind_eq_some_iff.1 h
  rw [stripPrefix?_eq_some_iff] at lead
  rw [stripSuffix?_eq_some_iff] at tail
  exact ⟨[mark], [mark], by rw [lead, tail, List.append_assoc]⟩

/-- The contents of a literal stand in it. -/
theorem unquote_isInfix (literal : Text) : unquote literal <:+: literal := by
  unfold unquote
  cases double : between? 0x22 literal with
  | some inner => exact between?_isInfix double
  | none =>
    cases back : between? 0x60 literal with
    | some inner => exact between?_isInfix back
    | none => exact List.infix_rfl

end Text

/-! ## Comments -/

/-- The name that is split off leads the text. -/
private theorem Directive.splitName?_eq_some {t name rest : Text}
    (h : splitName? t = some (name, rest)) : t = name ++ rest := by
  rw [splitName?] at h
  split at h
  · rename_i after eq
    dsimp only at h
    split at h
    · cases h
    · obtain ⟨rfl, rfl⟩ : _ ∧ _ := by simpa using h
      -- The name is cut twice, around its colon, and the three pieces make up the text.
      have whole : t = t.takeWhile isSpaceByte ++ 0x3A :: after := by
        rw [← eq, List.takeWhile_append_dropWhile]
      have colon : Text.ofString ":" = [0x3A] := rfl
      rw [List.append_assoc, List.append_assoc, List.takeWhile_append_dropWhile, colon]
      exact whole
  · cases h

/-- The comment of a directive starts with two slashes and its name. -/
theorem Directive.lead_isPrefix {comment : Text} {d : Directive}
    (h : parse? comment = some d) : (("//" : Text) ++ d.name) <+: comment := by
  obtain ⟨body, lead, h⟩ := Option.bind_eq_some_iff.1 h
  obtain ⟨⟨name, rest⟩, named, h⟩ := Option.bind_eq_some_iff.1 h
  -- Whatever the arguments are read as, the name is the one split off.
  have found : d.name = name := by
    dsimp only at h
    split at h
    · cases h
      rfl
    · split at h
      · cases h
        rfl
      · cases h
  have start : (("//" : Text) ++ d.name) <+: Text.trimEnd comment := by
    refine ⟨rest, ?_⟩
    rw [Text.stripPrefix?_eq_some_iff.1 lead, splitName?_eq_some named, found,
      List.append_assoc]
  exact start.trans (Text.trimEnd_isPrefix comment)

/-! ## Files -/

namespace SourceFile

/-- Behind a leading `//line` directive stands the end of the text. -/
private theorem leadingLine?_isSuffix {t rest : Text} {d : LineDirective}
    (h : leadingLine? t = some (d, rest)) : rest <:+ t := by
  unfold leadingLine? at h
  split at h
  · obtain ⟨_, -, eq⟩ := Option.map_eq_some_iff.1 h
    cases eq
    exact List.drop_suffix _ _
  · cases h

/-- The source of a parsed file is the end of its bytes. -/
theorem source_isSuffix {path bytes : Text} {file : SourceFile}
    (h : parse path bytes = .ok file) : file.source <:+ bytes := by
  unfold parse at h
  split at h
  · cases h
  · unfold ofText at h
    cases lead : leadingLine? bytes with
    -- Without a leading directive, the source is all of the bytes.
    | none =>
      simp only [lead] at h
      split at h
      · cases h
      · cases h
        exact List.suffix_rfl
    | some found =>
      obtain ⟨d, rest⟩ := found
      simp only [lead] at h
      split at h
      · cases h
      · cases h
        exact leadingLine?_isSuffix lead

/-- The decorations of a parsed file are those of its tree. -/
theorem decorations_eq {path bytes : Text} {file : SourceFile}
    (h : parse path bytes = .ok file) :
    file.decorations = Decorations.ofTree file.source file.tree := by
  unfold parse at h
  split at h
  · cases h
  · unfold ofText at h
    dsimp only at h
    split at h
    · cases h
    · cases h
      rfl

/-- The text of a node stands in the bytes of the file. -/
theorem text_isInfix {path bytes : Text} {file : SourceFile} (h : parse path bytes = .ok file)
    (node : Syntax.Tree) : file.text node <:+: bytes :=
  (Text.slice_isInfix _ _ _).trans (source_isSuffix h).isInfix

end SourceFile

end Interlace
