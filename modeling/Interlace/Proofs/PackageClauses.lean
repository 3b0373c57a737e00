import Interlace.Proofs.CommentPlaces
import Interlace.Proofs.NameCharacters
import Interlace.Proofs.ScannedLines

/-!
# Package clauses

A file that starts with the keyword `package` is parsed with a package clause as its first
declaration. The name in it is the identifier behind the keyword, whatever comments the file has:
they are put before the clause or behind it.

## Key results

- `Rules.fileItem_package`: what is read of a package clause
- `declaredPackage_eq`: a file declares the identifier behind the keyword
- `SourceFile.scanPackage?_eq`: the name that is found line by line, told by the declared one
-/

namespace Interlace.Syntax

open Text Reading

variable {source tail : Text} {s s' : Scan} {t : Tree} {ts : List Tree}

/-! ## Reading a clause -/

/-- The keyword is a word of its own if white space follows it. -/
private theorem identifierWidth_package (white : whiteWidth tail ≠ 0) :
    identifierWidth ("package" ++ tail) = 7 := by
  have ended := identifierRestWidth_of_white white
  have seven : identifierWidth ("package" ++ tail) = identifierRestWidth 0 tail + 7 :=
    rfl
  rw [seven, ended]

private theorem aheadWord_package (left : (s.skip true).rest = "package" ++ tail)
    (white : whiteWidth tail ≠ 0) : aheadWord true s = some (("package" : Text), s) := by
  have word : (s.skip true).rest.take (identifierWidth (s.skip true).rest) = "package" := by
    rw [left, identifierWidth_package white]
    rfl
  exact congrArg (fun w => some (w, s)) word

private theorem keyword_eq_some {breaks : Bool} {spelling : String}
    (h : keyword breaks spelling s = some (t, s')) :
    t = .leaf (.symbol spelling) (s.skip breaks).offset
        ((s.skip breaks).offset + (spelling : Text).length) ∧
      s' = (s.skip breaks).take (spelling : Text).length := by
  obtain ⟨_, _, looked, h⟩ := bind_eq_some.1 h
  cases looked
  split at h
  · cases h
    exact ⟨rfl, rfl⟩
  · cases h

private theorem word_eq_some {breaks : Bool} {kind : Kind} {reserved : List Text} {next : Scan}
    {w : Text}
    (skipped : s.skip breaks = next) (word : next.rest.take (identifierWidth next.rest) = w)
    (h : Reading.word breaks kind reserved s = some (t, s')) :
    w ≠ [] ∧ t = .leaf kind next.offset (next.offset + w.length) ∧ s' = next.take w.length := by
  subst skipped word
  obtain ⟨_, _, looked, h⟩ := bind_eq_some.1 h
  cases looked
  split at h
  · cases h
  · rename_i free
    cases h
    refine ⟨fun bare => free ?_, rfl, rfl⟩
    rw [bare]
    rfl

/-- A package clause that starts at an offset, with a name of a width at another one. -/
def Tree.packageClause (start offset width : Nat) : Tree :=
  .node .packageClause none start (offset + width)
    [.leaf (.symbol "package") start (start + 7), .leaf .packageIdentifier offset (offset + width)]

/-- A package clause is its keyword and the identifier behind it. -/
theorem Rules.fileItem_package (rules : Rules) {item : Tree} {next : Scan} {w : Text}
    (left : (s.skip true).rest = "package" ++ tail) (white : whiteWidth tail ≠ 0)
    (skipped : ((s.skip true).take 7).skip true = next)
    (word : next.rest.take (identifierWidth next.rest) = w)
    (h : rules.fileItem s = some (item, s')) :
    w ≠ [] ∧ s' = next.take w.length ∧
      item = .packageClause (s.skip true).offset next.offset w.length := by
  have ahead := aheadWord_package left white
  rcases orElse_eq_some h with h | h
  · obtain ⟨_, _, looked, h⟩ := bind_eq_some.1 h
    cases ahead.symm.trans looked
    rw [if_pos rfl] at h
    obtain ⟨_, s₁, first, h⟩ := bind_eq_some.1 h
    obtain ⟨rfl, rfl⟩ := keyword_eq_some first
    obtain ⟨_, s₂, second, h⟩ := bind_eq_some.1 h
    obtain ⟨given, rfl, rfl⟩ := word_eq_some skipped word second
    cases h
    exact ⟨given, rfl, rfl⟩
  · -- No other item starts with the keyword.
    obtain ⟨_, _, looked, h⟩ := bind_eq_some.1 h
    cases ahead.symm.trans looked
    cases h

/-- The grammar passes over white space only to the name in a clause, if no comment is there. -/
private theorem skip_behind_package (left : (s.skip true).rest = "package" ++ tail)
    (plain : Scan.commentWidth? (trimStart tail) = none) :
    (((s.skip true).take 7).skip true).rest = trimStart tail ∧
      (((s.skip true).take 7).skip true).comments = (s.skip true).comments := by
  have behind : ((s.skip true).take 7).rest = tail := congrArg (List.drop 7) left
  obtain ⟨n, skipped, name_left⟩ := Scan.skip_of_trimStart (s := (s.skip true).take 7)
    (by rw [behind]; exact plain)
  rw [behind] at name_left
  rw [skipped, ← name_left, ← behind]
  exact ⟨rfl, rfl⟩

/-- If there is something left, the items of a file are a first one, what ends it and the others. -/
private theorem Rules.fileItems_eq_some {rules : Rules} {fuel : Nat}
    (left : (s.skip true).rest ≠ []) (h : rules.fileItems fuel s = some (ts, s')) :
    ∃ item s₁ stop s₂ others fuel', ts = item :: stop ++ others ∧
      rules.fileItem s = some (item, s₁) ∧ itemEnd s₁ = some (stop, s₂) ∧
      rules.fileItems fuel' s₂ = some (others, s') := by
  cases fuel with
  | zero => cases h
  | succ fuel =>
    obtain ⟨_, _, looked, h⟩ := bind_eq_some.1 h
    cases looked
    rw [if_neg (by simpa using left)] at h
    obtain ⟨item, s₁, first, h⟩ := bind_eq_some.1 h
    obtain ⟨stop, s₂, behind, h⟩ := bind_eq_some.1 h
    obtain ⟨others, _, more, h⟩ := bind_eq_some.1 h
    cases h
    exact ⟨item, s₁, stop, s₂, others, fuel, rfl, first, behind, more⟩

/-- An item of a file ends at the end of the text, a line break, a semicolon or a zero byte. -/
private theorem rest_of_itemEnd (h : Rules.itemEnd s = some (ts, s')) :
    (s.skip false).rest = [] ∨
      ∃ b t, (s.skip false).rest = b :: t ∧ (b = 0x0A ∨ b = 0x3B ∨ b = 0x00) := by
  -- An item is ended by one of three bytes, which is left there, or by the end of the text.
  rcases orElse_eq_some h with h | h
  · right
    obtain ⟨_, _, looked, h⟩ := bind_eq_some.1 h
    cases looked
    generalize (s.skip false).rest = left at h ⊢
    revert h
    split
    · exact fun _ => ⟨_, _, rfl, .inl rfl⟩
    · exact fun _ => ⟨_, _, rfl, .inr (.inl rfl)⟩
    · exact fun _ => ⟨_, _, rfl, .inr (.inr rfl)⟩
    · exact fun h => nomatch h
  · left
    obtain ⟨_, _, looked, h⟩ := bind_eq_some.1 h
    cases looked
    split at h
    · assumption
    · cases h

/-- What follows an item does not go on with a word. -/
private theorem endsName_of_itemEnd (h : Rules.itemEnd s = some (ts, s')) : EndsName s.rest := by
  by_cases white : whiteWidth s.rest = 0
  · cases comment : Scan.commentWidth? s.rest with
    | some width =>
      obtain ⟨more, whole⟩ := Scan.exists_of_commentWidth? comment
      rw [whole]
      exact endsName_of_ascii (by decide) (by decide +kernel)
    | none =>
      -- Neither white space nor a comment is passed, so a line break or the end stands here.
      have still : s.skip false = s := by
        unfold Scan.skip
        cases s.rest.length with
        | zero => rfl
        | succ fuel => rw [Scan.skipFrom, white, comment]
      rcases still ▸ rest_of_itemEnd h with bare | ⟨b, t, whole, ending⟩
      · rw [bare]
        intro _ first
        cases first
      · rw [whole]
        rcases ending with rfl | rfl | rfl <;>
          exact endsName_of_ascii (by decide) (by decide +kernel)
  · exact endsName_of_endsWord (.inr white)

/-! ## Comments around a clause -/

/-- A comment before a node or behind it leaves it where it is found among its siblings. -/
private theorem find?_placeAmong {kind : Kind} (other : kind ≠ .comment) {start stop : Nat}
    (found : ts.find? (·.kind = kind) = some t) (apart : start < t.start ∨ t.stop ≤ start) :
    (Tree.placeAmong start stop ts).find? (·.kind = kind) = some t := by
  induction ts with
  | nil => cases found
  | cons u ts ih =>
    obtain ⟨k, f, s, e, cs⟩ := u
    rw [Tree.placeAmong]
    rw [List.find?_cons] at found
    split
    · refine (List.find?_cons_of_neg fun same => other (of_decide_eq_true same).symm).trans ?_
      rw [List.find?_cons]
      exact found
    split
    · -- The comment is inside of a node, which is not the one that is found.
      rename_i begun inside
      rw [List.find?_cons, Tree.kind_place]
      split at found
      · cases found
        have inside : start < e := inside
        have begun : ¬ start < s := begun
        exact absurd apart (not_or.2 ⟨begun, Nat.not_le.2 inside⟩)
      · exact found
    · rw [List.find?_cons]
      split at found
      · exact found
      · exact ih found

private theorem childOf?_placeAll {kind : Kind} (other : kind ≠ .comment)
    {comments : List (Nat × Nat)} {root : Tree} (found : root.childOf? kind = some t)
    (apart : ∀ c ∈ comments, c.1 < t.start ∨ t.stop ≤ c.1) :
    (root.placeAll comments).childOf? kind = some t := by
  induction comments generalizing root with
  | nil => exact found
  | cons c comments ih =>
    obtain ⟨here, later⟩ := List.forall_mem_cons.1 apart
    have placed : (root.place c.1 c.2).childOf? kind = some t := by
      obtain ⟨k, f, s, e, cs⟩ := root
      exact find?_placeAmong other found here
    exact ih placed later

/-! ## The first declaration -/

/-- What the grammar reads first behind the keyword `package` and white space is a package clause,
whose name is the identifier behind them; a comment starts before the clause or behind it. -/
private theorem fileParser_package {depth : Nat} {items : List Tree} {comments : List (Nat × Nat)}
    (read : (fileParser depth).run' (Scan.ofSource source) = some (items, comments))
    (left : ((Scan.ofSource source).skip true).rest = "package" ++ tail)
    (white : whiteWidth tail ≠ 0) (plain : Scan.commentWidth? (trimStart tail) = none) {w : Text}
    (word : (trimStart tail).take (identifierWidth (trimStart tail)) = w) :
    ∃ p q more, items = .packageClause p q w.length :: more ∧ source.slice q (q + w.length) = w ∧
      EndsName ((trimStart tail).drop w.length) ∧
      ∀ c ∈ comments, c.1 < p ∨ q + w.length ≤ c.1 := by
  obtain ⟨⟨result, last⟩, run, rfl⟩ := Option.map_eq_some_iff.1 read
  obtain ⟨_, _, looked, run⟩ := bind_eq_some.1 run
  cases looked
  obtain ⟨trees, final, found, run⟩ := bind_eq_some.1 run
  cases run
  have more : ((Scan.ofSource source).skip true).rest ≠ [] := by
    rw [left]
    exact List.cons_ne_nil _ _
  obtain ⟨item, s₁, stop, s₂, others, fuel, rfl, first, behind, others_read⟩ :=
    Rules.fileItems_eq_some more found
  have here := Scan.ofSource_in source
  generalize Scan.ofSource source = s at *
  obtain ⟨next_rest, passed⟩ := skip_behind_package left plain
  have fits : 7 ≤ (s.skip true).rest.length := by
    rw [left, List.length_append]
    exact Nat.le_add_right _ _
  have there : (((s.skip true).take 7).skip true).In source :=
    ((here.skip true).take ((here.skip true).fits (by decide) fits)).skip true
  generalize skipped : ((s.skip true).take 7).skip true = next at *
  obtain ⟨given, rfl, rfl⟩ :=
    (rulesTo depth).fileItem_package (w := w) left white skipped (by rwa [next_rest]) first
  have part : w <+: next.rest := by
    rw [next_rest, ← word]
    exact List.take_prefix _ _
  have beyond := there.take (there.fits (List.length_pos_iff.2 given) part.length_le)
  -- What is read behind the name adds comments that start behind it.
  have ordered := Rules.fileItems_lays (rulesTo_ordered source depth)
  obtain ⟨beyond₂, grows₂, -⟩ := Rules.itemEnd_lays _ _ _ _ beyond (Nat.le_refl _) behind
  obtain ⟨beyond₃, grows₃, -⟩ := ordered _ _ _ _ _ beyond₂ (Nat.le_refl _) others_read
  obtain ⟨later, all, low⟩ := ((grows₂.trans grows₃).trans (beyond₃.grows_skip true)).comments
  refine ⟨(s.skip true).offset, next.offset, _, rfl, ?_, ?_, ?_⟩
  · rw [slice, Nat.add_sub_cancel_left, ← there.rest_eq]
    exact (List.prefix_iff_eq_take.1 part).symm
  · rw [← next_rest]
    exact endsName_of_itemEnd behind
  · intro c hc
    rw [List.mem_reverse, all] at hc
    rcases List.mem_append.1 hc with hc | hc
    · exact .inr (low c hc)
    · exact .inl ((here.skip true).comments.starts c (passed ▸ hc))

private theorem declaredPackage_of_childOf? {root : Tree} {p q width : Nat}
    (h : root.childOf? .packageClause = some (.packageClause p q width)) :
    SourceFile.declaredPackage source root = source.slice q (q + width) := by
  rw [SourceFile.declaredPackage, h]
  rfl

/-- A file that starts with the keyword `package` and white space declares the name that is the
identifier behind them. -/
theorem declaredPackage_eq {tree : Tree} (h : parse? source = some tree)
    (left : ((Scan.ofSource source).skip true).rest = "package" ++ tail)
    (white : whiteWidth tail ≠ 0) (plain : Scan.commentWidth? (trimStart tail) = none) {w : Text}
    (word : (trimStart tail).take (identifierWidth (trimStart tail)) = w) :
    SourceFile.declaredPackage source tree = w ∧ EndsName ((trimStart tail).drop w.length) := by
  unfold parse? at h
  split at h
  · cases h
  rename_i items comments read
  cases h
  obtain ⟨p, q, more, rfl, spelled, ends, apart⟩ := fileParser_package read left white plain word
  let bare : Tree := .node .sourceFile none 0 source.length (.packageClause p q w.length :: more)
  have first : bare.childOf? .packageClause = some (.packageClause p q w.length) := rfl
  have placed := childOf?_placeAll (by decide) first apart
  refine ⟨(declaredPackage_of_childOf? (p := p) ?_).trans spelled, ends⟩
  exact placed

end Interlace.Syntax

namespace Interlace.SourceFile

open Text Syntax

variable {path bytes name : Text} {f : SourceFile}

/-! ## The name of a file -/

/-- A file is parsed from UTF-8, with the declared package, behind a leading line directive. -/
private theorem eq_of_parse (h : parse path bytes = .ok f) :
    bytes.WellFormed ∧ f.source = ((leadingLine? bytes).map Prod.snd).getD bytes ∧
      f.packageName = declaredPackage f.source f.tree := by
  unfold parse at h
  split at h
  · cases h
  rename_i utf8
  refine ⟨utf8, ?_⟩
  unfold ofText at h
  cases led : leadingLine? bytes <;> rw [led] at h <;> dsimp only at h <;> split at h <;> cases h
  all_goals exact ⟨rfl, rfl⟩

/-- A text that starts with a word starts between characters, and with no comment. -/
private theorem starts_of_word {s : Text} (first : (chars s).takeWhile isWordChar ≠ []) :
    s ≠ [] ∧ WrapPattern.StartsWhole s ∧ ∀ z, Syntax.Scan.commentWidth? (s ++ z) = none := by
  obtain ⟨b, rest, point, width, rfl, read, word⟩ := exists_of_takeWhile_ne_nil first
  obtain ⟨lead, more, rfl, -, whole, -, -⟩ := exists_of_readPoint read
  refine ⟨List.cons_ne_nil _ _, ?_, fun z => ?_⟩
  · rintro b ⟨⟩
    exact whole
  · cases comment : Syntax.Scan.commentWidth? (b :: (lead ++ more) ++ z) with
    | none => rfl
    | some _ =>
      -- A comment starts with a slash, which is no character of words.
      obtain ⟨_, slash⟩ := Syntax.Scan.exists_of_commentWidth? comment
      cases (List.cons.inj slash).1
      cases read
      exact absurd word (by decide +kernel)

/-- A text starts with the word that the identifier at its start does, whatever follows behind
it. -/
private theorem takeWhile_chars_identifier {s z : Text} (utf8 : s.WellFormed) (ends : EndsName z)
    (behind : EndsName ((s ++ z).drop ((s ++ z).take (identifierWidth (s ++ z))).length)) :
    (chars s).takeWhile isWordChar =
      (chars ((s ++ z).take (identifierWidth (s ++ z)))).takeWhile isWordChar := by
  have front : (s ++ z).take (identifierWidth (s ++ z)) <+: s ++ z := List.take_prefix _ _
  calc (chars s).takeWhile isWordChar
    _ = (chars (s ++ z)).takeWhile isWordChar := (takeWhile_chars_append utf8 ends).symm
    _ = (chars ((s ++ z).take (identifierWidth (s ++ z)))).takeWhile isWordChar := by
      conv_lhs => rw [← List.prefix_iff_eq_append.1 front]
      exact takeWhile_chars_append (wellFormed_take_identifierWidth _) behind

/-- When the lines of a file hold a package clause, the name that is found in them is the front of
the declared one that words are made of; so it is the declared one exactly if that is made of
letters, numbers and underscores. -/
theorem scanPackage?_eq (parsed : parse path bytes = .ok f)
    (scanned : scanPackage? bytes = some name) :
    name = ofChars ((chars f.packageName).takeWhile isWordChar) ∧
      (name = f.packageName ↔ ∀ c ∈ chars f.packageName, isWordChar c) := by
  obtain ⟨utf8, source_eq, declared⟩ := eq_of_parse parsed
  obtain ⟨tail, z, passes, white, ends, behind, given, value⟩ := exists_of_scanPackage? utf8 scanned
  -- A leading directive is passed like any other line.
  have passes : Syntax.Scan.Passes f.source ("package" ++ (tail ++ z)) := by
    rw [source_eq]
    cases led : leadingLine? bytes with
    | none => exact passes
    | some found => exact passes_leadingLine led passes
  obtain ⟨solid, plain⟩ := plain_package (tail ++ z)
  -- So the clause is the first thing that a scan of the file comes to, and names are read there.
  have left : ((Syntax.Scan.ofSource f.source).skip true).rest = "package" ++ (tail ++ z) := by
    rw [ofSource_of_passes passes]
    exact Syntax.Scan.skip_of_passes passes solid plain
  have white' : whiteWidth (tail ++ z) ≠ 0 := by
    rw [(whiteWidth_append white z).1]
    exact white
  -- A name is read only where something follows the white space.
  have first : (chars (trimStart tail)).takeWhile isWordChar ≠ [] := by
    intro bare
    rw [bare] at value
    exact given value
  obtain ⟨more, starts, plain⟩ := starts_of_word first
  have front : trimStart (tail ++ z) = trimStart tail ++ z :=
    dropWhite_append_of_endsWord more ends
  obtain ⟨tree, -⟩ := tree_of_parse parsed
  obtain ⟨name_eq, stops⟩ := declaredPackage_eq tree left white' (front ▸ plain z) rfl
  rw [← declared, front] at name_eq
  rw [front] at stops
  have utf8_tail : WellFormed (trimStart tail) := by
    obtain ⟨_, split, -⟩ := exists_eq_append_trimStart tail
    have own := ((wellFormed_append_iff (startsWhole_of_endsWord ends)).1 behind).1
    rw [split] at own
    exact ((wellFormed_append_iff starts).1 own).2
  -- Both names are cut from one text, by characters of words and by those of identifiers.
  rw [value, takeWhile_chars_identifier utf8_tail (endsName_of_endsWord ends) stops, ← name_eq]
  have utf8_name : f.packageName.WellFormed := name_eq ▸ wellFormed_take_identifierWidth _
  exact ⟨rfl, utf8_name.ofChars_takeWhile_eq_iff isWordChar⟩

/-- Comments, blank lines and carriage returns before the clause, a line directive, and more text
behind it. -/
def commented : Text :=
  "//line a.go:7\n/* of\r\n lines */\r\n\r\n\t/**/ /* */package  main // and on\n"

theorem scanPackage?_commented :
    ∃ f, parse "p.go" commented = .ok f ∧ scanPackage? commented = some "main" ∧
      "main" = f.packageName := by
  have passed : ((parse "p.go" commented).toOption.map fun f =>
      (chars f.packageName).all isWordChar) = some true := by decide +kernel
  obtain ⟨f, parsed, word⟩ := Option.map_eq_some_iff.1 passed
  rw [toOption_eq_some_iff] at parsed
  have scanned : scanPackage? commented = some "main" := by decide +kernel
  exact ⟨f, parsed, scanned, (scanPackage?_eq parsed scanned).2.2 (List.all_eq_true.1 word)⟩

/-- The name of a package may have an accent written as a character of its own. It goes on with the
identifier but is no letter, so the lines give a shorter name. -/
theorem not_scanPackage?_declared :
    ¬ ∀ (path bytes name : Text) (f : SourceFile), parse path bytes = .ok f →
      scanPackage? bytes = some name → name = f.packageName := by
  have passed : ((parse "p.go" "package cafe\u0301\n").toOption.map fun f =>
      decide (("cafe" : Text) ≠ f.packageName)) = some true := by decide +kernel
  obtain ⟨f, parsed, other⟩ := Option.map_eq_some_iff.1 passed
  rw [toOption_eq_some_iff] at parsed
  have scanned : scanPackage? "package cafe\u0301\n" = some "cafe" := by decide +kernel
  exact fun always => of_decide_eq_true other (always _ _ _ f parsed scanned)

end Interlace.SourceFile
