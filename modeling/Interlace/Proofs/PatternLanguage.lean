import Interlace.Proofs.CharacterCuts

/-!
# The language of a wrap pattern

A text belongs to a pattern if it can be cut between characters into pieces that fit those of the
pattern: a literal piece is that literal, a placeholder stands for anything, and the hole ends where
a scan from its start has no bracket open. The scan passes over literals, and one that is not ended
runs to the end of the text. Matching finds exactly the texts that belong to the pattern, and the
hole of the way to cut them whose pieces end earliest. It never looks at a text from inside a
character on.

## Key results

- `Balance.after_eq_some_iff`: what the scan of bytes comes to, by brackets and whole literals
- `WrapPattern.decomposes_iff_reads`: readings are cut between characters
- `WrapPattern.matchSliced_eq`: no text is taken from inside a character on
- `WrapPattern.hole?_decomposes`: matching decides which texts belong to a pattern
-/

namespace Interlace

namespace Balance

/-! ## Passing over brackets and literals -/

/-- The text has all its literals ended and no closing bracket too many: with some brackets open
before it, so many are open behind it. -/
inductive Passes : (before : Nat) → Text → (behind : Nat) → Prop where
  | nil (depth : Nat) : Passes depth [] depth
  | plain {depth behind : Nat} {b : UInt8} {t : Text} (plain : isPlain b)
      (rest : Passes depth t behind) : Passes depth (b :: t) behind
  | opening {depth behind : Nat} {b : UInt8} {t : Text} (opens : isOpening b)
      (rest : Passes (depth + 1) t behind) : Passes depth (b :: t) behind
  | closing {depth behind : Nat} {b : UInt8} {t : Text} (closes : isClosing b)
      (rest : Passes depth t behind) : Passes (depth + 1) (b :: t) behind
  | literal {depth behind : Nat} {mark : UInt8} {body t : Text} (quote : isQuote mark)
      (inside : QuotedBody mark body) (rest : Passes depth t behind) :
      Passes depth (mark :: (body ++ mark :: t)) behind

/-- The text is a literal that is not ended. What it ends with may be a backslash that escapes
nothing. -/
def Unended (t : Text) : Prop :=
  ∃ mark body, isQuote mark ∧ QuotedBody mark body ∧
    (t = mark :: body ∨ mark ≠ 0x60 ∧ t = mark :: (body ++ [0x5C]))

variable {depth behind : Nat} {t : Text}

/-- Behind its mark a literal is ended or not. -/
private theorem exists_quotedBody (mark : UInt8) : ∀ t : Text, ∃ body, QuotedBody mark body ∧
    (t = body ∨ mark ≠ 0x60 ∧ t = body ++ [0x5C] ∨ ∃ rest, t = body ++ mark :: rest)
  | [] => ⟨[], .nil, .inl rfl⟩
  | b :: t => by
    have longer : ∀ {front body t : Text}, (t = body ∨ mark ≠ 0x60 ∧ t = body ++ [0x5C] ∨
        ∃ rest, t = body ++ mark :: rest) →
        (front ++ t = front ++ body ∨ mark ≠ 0x60 ∧ front ++ t = front ++ body ++ [0x5C] ∨
          ∃ rest, front ++ t = front ++ body ++ mark :: rest) := by
      rintro front body t (rfl | ⟨escapes, rfl⟩ | ⟨rest, rfl⟩)
      · exact .inl rfl
      · exact .inr (.inl ⟨escapes, (List.append_assoc ..).symm⟩)
      · exact .inr (.inr ⟨rest, (List.append_assoc ..).symm⟩)
    -- The first byte ends the literal, escapes the next one, or belongs to it.
    by_cases ended : b = mark
    · exact ⟨[], .nil, .inr (.inr ⟨t, by rw [ended]; rfl⟩)⟩
    by_cases escapes : b = 0x5C ∧ mark ≠ 0x60
    · obtain ⟨rfl, other⟩ := escapes
      match t with
      | [] => exact ⟨[], .nil, .inr (.inl ⟨other, rfl⟩)⟩
      | c :: t =>
        obtain ⟨body, inside, shape⟩ := exists_quotedBody mark t
        exact ⟨0x5C :: c :: body, .escape c other inside, @longer [0x5C, c] _ _ shape⟩
    · obtain ⟨body, inside, shape⟩ := exists_quotedBody mark t
      have bare : b ≠ 0x5C ∨ mark = 0x60 := by
        rwa [not_and_or, not_not] at escapes
      exact ⟨b :: body, .byte ended bare inside, @longer [b] _ _ shape⟩

private theorem pass_closing {b : UInt8} (closes : isClosing b) (depth : Nat) :
    pass (depth + 1, .code) b = some (depth, .code) := by
  simp only [isClosing, Bool.or_eq_true, decide_eq_true_eq] at closes
  rcases closes with (rfl | rfl) | rfl <;> rfl

/-- A byte of code is a bracket, or the mark of a literal, or none of these. -/
private theorem isPlain_of_isQuote_eq_false {b : UInt8} (opens : ¬ isOpening b)
    (closes : ¬ isClosing b) (quote : ¬ isQuote b) : isPlain b := by
  simp [isPlain, opens, closes, quote]

theorem Passes.after (h : Passes depth t behind) : after depth .code t = some (behind, .code) := by
  -- The induction is on how the text is passed; a literal is passed as a whole.
  induction h with
  | nil depth => rfl
  | plain plain rest ih =>
    rw [after_cons, pass_plain plain]
    exact ih
  | opening opens rest ih => simpa [after_cons, pass, opens] using ih
  | @closing depth behind b t closes rest ih =>
    rw [after_cons, pass_closing closes]
    exact ih
  | @literal depth behind mark body t quote inside rest ih =>
    obtain ⟨opened, closed⟩ := pass_mark quote depth
    simp [after_cons, after_append, opened, inside.after quote depth, closed, ih]

theorem Passes.append {middle : Nat} {s : Text} (hs : Passes depth s middle)
    (ht : Passes middle t behind) : Passes depth (s ++ t) behind := by
  induction hs with
  | nil depth => exact ht
  | plain plain rest ih => exact .plain plain (ih ht)
  | opening opens rest ih => exact .opening opens (ih ht)
  | closing closes rest ih => exact .closing closes (ih ht)
  | @literal depth behind mark body t quote inside rest ih =>
    rw [List.cons_append, List.append_assoc, List.cons_append]
    exact .literal quote inside (ih ht)

theorem Unended.after (h : Unended t) (depth : Nat) :
    ∃ state, after depth .code t = some (depth, state) ∧ state ≠ .code := by
  obtain ⟨mark, body, quote, inside, shape⟩ := h
  obtain ⟨opened, -⟩ := pass_mark quote depth
  rcases shape with rfl | ⟨escapes, rfl⟩
  · refine ⟨.quoted mark, ?_, nofun⟩
    rw [after_cons, opened]
    exact inside.after quote depth
  · refine ⟨.escaped mark, ?_, nofun⟩
    have last : pass (depth, .quoted mark) 0x5C = some (depth, .escaped mark) := by
      rw [pass, afterQuoted_backslash quote escapes]
    rw [after_cons, opened, Option.bind_some, after_append, inside.after quote depth,
      Option.bind_some, after_cons, last]
    rfl

/-- The text has all its literals ended, or all but the last, and the scan is in that one. -/
def Scanned (depth : Nat) (t : Text) (behind : Nat) (state : QuoteState) : Prop :=
  state = .code ∧ Passes depth t behind ∨
    state ≠ .code ∧ ∃ u v, t = u ++ v ∧ Passes depth u behind ∧ Unended v

variable {state : QuoteState}

/-- Something that is passed over can be put before what was scanned. -/
private theorem Scanned.after_passes {middle : Nat} {s : Text} (passes : Passes depth s middle)
    (h : Scanned middle t behind state) : Scanned depth (s ++ t) behind state := by
  rcases h with ⟨code, rest⟩ | ⟨literal, u, v, rfl, rest, unended⟩
  · exact .inl ⟨code, passes.append rest⟩
  · exact .inr ⟨literal, s ++ u, v, (List.append_assoc ..).symm, passes.append rest, unended⟩

/-- An unended literal is scanned to its end. -/
theorem Unended.scanned (h : Unended t)
    (scan : Balance.after depth .code t = some (behind, state)) :
    Scanned depth t behind state := by
  obtain ⟨state', last, other⟩ := h.after depth
  cases last.symm.trans scan
  exact .inr ⟨other, [], t, rfl, .nil _, h⟩

private theorem scanned_of_after {depth behind : Nat} {state : QuoteState} (t : Text)
    (h : after depth .code t = some (behind, state)) : Scanned depth t behind state := by
  match t with
  | [] =>
    cases h
    exact .inl ⟨rfl, .nil _⟩
  | b :: t =>
    have scan := h
    rw [after_cons] at h
    obtain ⟨⟨depth', state'⟩, passed, rest⟩ := Option.bind_eq_some_iff.1 h
    by_cases opens : isOpening b
    · simp only [pass, opens, if_true, Option.some.injEq, Prod.mk.injEq] at passed
      obtain ⟨rfl, rfl⟩ := passed
      exact (scanned_of_after t rest).after_passes (.opening opens (.nil _))
    by_cases closes : isClosing b
    · simp only [pass, opens, closes, if_true] at passed
      cases depth with
      | zero => cases passed
      | succ depth =>
        cases passed
        exact (scanned_of_after t rest).after_passes (.closing closes (.nil _))
    by_cases quote : isQuote b
    · obtain ⟨opened, closed⟩ := pass_mark quote depth
      cases opened.symm.trans passed
      obtain ⟨body, inside, shape⟩ := exists_quotedBody b t
      rcases shape with rfl | ⟨escapes, rfl⟩ | ⟨t, rfl⟩
      · exact Unended.scanned ⟨b, _, quote, inside, .inl rfl⟩ scan
      · exact Unended.scanned ⟨b, body, quote, inside, .inr ⟨escapes, rfl⟩⟩ scan
      · -- Behind the mark that ends the literal the scan is in code again.
        rw [after_append, inside.after quote, Option.bind_some, after_cons, closed] at rest
        have literal : Passes depth (b :: (body ++ b :: [])) depth := .literal quote inside (.nil _)
        have tail := (scanned_of_after t rest).after_passes literal
        rwa [List.cons_append, List.append_assoc] at tail
    · have plain := isPlain_of_isQuote_eq_false opens closes quote
      cases (pass_plain plain depth).symm.trans passed
      exact (scanned_of_after t rest).after_passes (.plain plain (.nil _))
termination_by t.length

/-- The text may stand in the hole before another: every bracket of it is closed, and every literal
ended, but that the last one may run to the end of all text. -/
def Fills (t rest : Text) : Prop :=
  Passes 0 t 0 ∨ rest = [] ∧ ∃ u v, t = u ++ v ∧ Passes 0 u 0 ∧ Unended v

/-- The scan of bytes has no bracket open, and no literal but at the end of all text, exactly if the
text may stand in the hole. -/
theorem after_eq_some_iff {rest : Text} :
    (∃ state, after 0 .code t = some (0, state) ∧ (rest ≠ [] → state = .code)) ↔ Fills t rest := by
  constructor
  · rintro ⟨state, scan, ended⟩
    rcases scanned_of_after t scan with ⟨-, passes⟩ | ⟨literal, shape⟩
    · exact .inl passes
    · exact .inr ⟨Decidable.of_not_not (mt ended literal), shape⟩
  · rintro (passes | ⟨rfl, u, v, rfl, passes, unended⟩)
    · exact ⟨.code, passes.after, fun _ => rfl⟩
    · obtain ⟨state, scan, -⟩ := unended.after 0
      refine ⟨state, ?_, fun more => absurd rfl more⟩
      rw [after_append, passes.after]
      exact scan

end Balance

namespace WrapPattern

/-! ## Cutting a text between characters -/

/-- Pieces of a text, cut between characters, that fit the pieces of a pattern. -/
inductive Decomposes : List WrapPiece → List Text → Prop where
  | nil : Decomposes [] []
  | literal {pieces : List WrapPiece} {u : Text} {us : List Text} (whole : u.WellFormed)
      (rest : Decomposes pieces us) : Decomposes (.literal u :: pieces) (u :: us)
  | any {pieces : List WrapPiece} {u : Text} {us : List Text} (whole : u.WellFormed)
      (rest : Decomposes pieces us) : Decomposes (.any :: pieces) (u :: us)
  | hole {pieces : List WrapPiece} {u : Text} {us : List Text} (whole : u.WellFormed)
      (given : u ≠ []) (fills : Balance.Fills u us.flatten) (rest : Decomposes pieces us) :
      Decomposes (.hole :: pieces) (u :: us)

variable {pieces : List WrapPiece} {us : List Text}

theorem Decomposes.wellFormed (h : Decomposes pieces us) : Text.WellFormed us.flatten := by
  induction h with
  | nil => rfl
  | literal whole rest ih | any whole rest ih | hole whole given fills rest ih =>
    exact whole.append ih

theorem fillsHole_iff {u rest : Text} :
    FillsHole u rest ↔ u ≠ [] ∧ Balance.Fills u rest ∧ StartsWhole rest := by
  rw [← Balance.after_eq_some_iff]
  exact ⟨fun ⟨given, closed, whole⟩ => ⟨given, closed, whole⟩,
    fun ⟨given, closed, whole⟩ => ⟨given, closed, whole⟩⟩

theorem Decomposes.reads (h : Decomposes pieces us) : Reads pieces us := by
  induction h with
  | nil => exact .nil
  | literal whole rest ih => exact .literal _ ih
  | any whole rest ih => exact .any _ rest.wellFormed.startsWhole ih
  | hole whole given fills rest ih =>
    exact .hole (fillsHole_iff.2 ⟨given, fills, rest.wellFormed.startsWhole⟩) ih

/-- Readings of a text by literals that are whole characters are cut between characters. -/
private theorem Reads.decomposes (h : Reads pieces us)
    (literals : ∀ u, .literal u ∈ pieces → u.WellFormed)
    (whole : Text.WellFormed us.flatten) : Decomposes pieces us := by
  -- The text is whole characters, so where the next piece starts with one this piece ends with one.
  induction h with
  | nil => exact .nil
  | @literal pieces us u rest ih =>
    have front := literals u List.mem_cons_self
    exact .literal front (ih (fun v hv => literals v (List.mem_cons_of_mem _ hv))
      (whole.of_append_left front))
  | @hole pieces u us fills rest ih =>
    obtain ⟨given, fills, starts⟩ := fillsHole_iff.1 fills
    obtain ⟨front, back⟩ := (Text.wellFormed_append_iff starts).1 whole
    exact .hole front given fills (ih (fun v hv => literals v (List.mem_cons_of_mem _ hv)) back)
  | @any pieces u us starts rest ih =>
    obtain ⟨front, back⟩ := (Text.wellFormed_append_iff starts).1 whole
    exact .any front (ih (fun v hv => literals v (List.mem_cons_of_mem _ hv)) back)

/-! ## Matching by offsets into the whole text -/

end WrapPattern

/-- The text from an offset on; nothing where that is behind its end or inside a character. -/
def Text.from? (t : Text) (offset : Nat) : Option Text :=
  if offset ≤ t.length && (t.drop offset).head?.all (! isContinuation ·) then some (t.drop offset)
  else none

namespace WrapPattern

/-- Matching a text from an offset on, as `matchFrom` does, where literals are looked for in the
text from an offset on; nothing if the text is taken from inside a character on. -/
def matchSliced (text : Text) :
    List WrapPiece → (offset : Nat) → Option (Option (Option (Nat × Nat)))
  | [], offset => some (if offset = text.length then some none else none)
  | .literal lead :: pieces, offset => do
    let rest ← text.from? offset
    if Text.startsWith rest lead then matchSliced text pieces (offset + lead.length)
    else return none
  | .hole :: pieces, offset =>
    (Balance.ends (text.drop offset)).findSomeM? fun n => do
      let found ← matchSliced text pieces (offset + n)
      return found.map fun _ => some (offset, offset + n)
  | .any :: pieces, offset =>
    (boundaries 0 (text.drop offset)).findSomeM? fun n => matchSliced text pieces (offset + n)

/-- A search none of whose steps fails is a search. -/
private theorem findSomeM?_eq_some {α β : Type} {f : α → Option (Option β)} {g : α → Option β}
    {l : List α} (h : ∀ a ∈ l, f a = some (g a)) : l.findSomeM? f = some (l.findSome? g) := by
  induction l with
  | nil => rfl
  | cons a l ih =>
    obtain ⟨first, rest⟩ := List.forall_mem_cons.1 h
    rw [List.findSomeM?, List.findSome?_cons, first, Option.bind_eq_bind, Option.bind_some]
    cases g a with
    | none => exact ih rest
    | some b => rfl

private theorem from?_append {s t : Text} (ht : t.WellFormed) :
    Text.from? (s ++ t) s.length = some t := by
  have starts : t.head?.all (! Text.isContinuation ·) := by
    rw [Option.all_eq_true]
    exact fun b hb => by simp [ht.startsWhole b hb]
  rw [Text.from?, List.drop_left, starts, List.length_append, decide_eq_true (Nat.le_add_right ..)]
  rfl

/-- Matching well-formed text never takes it from inside a character on. -/
theorem matchSliced_eq {pieces : List WrapPiece}
    (literals : ∀ u, .literal u ∈ pieces → u.WellFormed) {s t : Text} (ht : t.WellFormed) :
    matchSliced (s ++ t) pieces s.length = some (matchFrom pieces s.length t) := by
  induction pieces generalizing s t with
  | nil =>
    have ended : s.length = (s ++ t).length ↔ t = [] := by simp
    simp only [matchSliced, matchFrom, ended]
  | cons piece pieces ih =>
    replace ih := @ih fun u hu => literals u (List.mem_cons_of_mem _ hu)
    -- Behind a well-formed front the text is matched as it is at the offset where it ends.
    have behind : ∀ {u v : Text}, v.WellFormed →
        matchSliced (s ++ (u ++ v)) pieces (s.length + u.length) =
          some (matchFrom pieces (s.length + u.length) v) := by
      intro u v hv
      rw [← List.append_assoc, ← List.length_append]
      exact ih hv
    cases piece with
    | literal lead =>
      have front := literals lead List.mem_cons_self
      rw [matchSliced, from?_append ht, matchFrom, Option.bind_eq_bind, Option.bind_some]
      cases found : Text.stripPrefix? lead t with
      | none => rw [if_neg (by simp [Text.startsWith, found])]; rfl
      | some rest =>
        obtain rfl := Text.stripPrefix?_eq_some_iff.1 found
        rw [if_pos (by simp [Text.startsWith, found])]
        exact behind (ht.of_append_left front)
    | hole =>
      rw [matchSliced, List.drop_left, matchFrom]
      refine findSomeM?_eq_some fun n hn => ?_
      obtain ⟨u, v, rfl, rfl, fills⟩ := mem_ends_iff.1 hn
      rw [behind ((Text.wellFormed_append_iff fills.whole).1 ht).2, List.drop_left]
      rfl
    | any =>
      rw [matchSliced, List.drop_left, matchFrom]
      refine findSomeM?_eq_some fun n hn => ?_
      obtain ⟨u, v, rfl, rfl, starts⟩ := mem_boundaries_iff.1 hn
      rw [Nat.zero_add, behind ((Text.wellFormed_append_iff starts).1 ht).2, List.drop_left]

/-! ## What matching decides -/

private theorem literals_of_wrapPattern? {t : Template} {p : WrapPattern} (utf8 : t.text.WellFormed)
    (wraps : t.wrapPattern? = some p) :
    .hole ∈ p.pieces ∧ ∀ u, .literal u ∈ p.pieces → u.WellFormed := by
  rw [Template.wrapPattern?] at wraps
  split at wraps
  · rename_i single
    cases wraps
    have hole : .hole ∈ t.parts := List.count_pos_iff.1 (by rw [single]; decide)
    refine ⟨List.mem_map.2 ⟨.hole, hole, rfl⟩, fun u hu => ?_⟩
    obtain ⟨part, listed, same⟩ := List.mem_map.1 hu
    cases part with
    | literal text =>
      cases same
      exact Template.wellFormed_of_mem_parts utf8 listed
    | hole => cases same
    | named name => cases same
  · cases wraps

/-- In a text something is found exactly if the text can be cut between characters as the pattern
says, and it is the hole of the way to cut it whose pieces end earliest, from left to right.
Matching never takes the text from inside a character on. -/
theorem hole?_decomposes {t : Template} {p : WrapPattern} (utf8 : t.text.WellFormed)
    (wraps : t.wrapPattern? = some p) {text : Text} (whole : text.WellFormed) :
    ((p.hole? text).isSome ↔ ∃ us, Decomposes p.pieces us ∧ us.flatten = text) ∧
    (∀ range, p.hole? text = some range ↔
      ∃ us, (Decomposes p.pieces us ∧ us.flatten = text) ∧
        (∀ vs, Decomposes p.pieces vs → vs.flatten = text → ¬ Before vs us) ∧
        holeIn p.pieces 0 us = some range) ∧
    matchSliced text p.pieces 0 = some (matchFrom p.pieces 0 text) := by
  obtain ⟨hole, literals⟩ := literals_of_wrapPattern? utf8 wraps
  -- Between characters, a reading of the pieces is a way to cut the text.
  have cut : ∀ us, Reads p.pieces us → us.flatten = text → Decomposes p.pieces us :=
    fun us reads same => reads.decomposes literals (same ▸ whole)
  refine ⟨?_, fun range => ?_, @matchSliced_eq _ literals [] text whole⟩
  · constructor
    · intro found
      obtain ⟨range, found⟩ := Option.isSome_iff_exists.1 found
      obtain ⟨us, earliest, -⟩ := hole?_eq_some_iff_earliest.1 found
      exact ⟨us, cut us earliest.reads earliest.whole, earliest.whole⟩
    · rintro ⟨us, decomposes, rfl⟩
      obtain ⟨vs, earliest⟩ := decomposes.reads.exists_earliest
      obtain ⟨range, found⟩ := Option.isSome_iff_exists.1 (earliest.reads.isSome_holeIn hole 0)
      exact Option.isSome_iff_exists.2
        ⟨range, hole?_eq_some_iff_earliest.2 ⟨vs, earliest, found⟩⟩
  · rw [hole?_eq_some_iff_earliest]
    constructor
    · rintro ⟨us, earliest, found⟩
      exact ⟨us, ⟨cut us earliest.reads earliest.whole, earliest.whole⟩,
        fun vs decomposes => earliest.first vs decomposes.reads, found⟩
    · rintro ⟨us, ⟨decomposes, same⟩, first, found⟩
      exact ⟨us, ⟨decomposes.reads, same,
        fun vs reads rest => first vs (cut vs reads rest) rest⟩, found⟩

/-- A name and an argument with a letter of two bytes. -/
theorem hole?_decomposes_multibyte :
    let t : Template := ⟨"Wrap\x7b\x7bFuncName\x7d\x7d(\x7b\x7b.\x7d\x7d)", .empty, none⟩
    let text : Text := "Wrapé(hé)"
    t.text.WellFormed ∧ text.WellFormed ∧
      ∃ p, t.wrapPattern? = some p ∧ p.hole? text = some (7, 10) ∧
        ∃ us, Decomposes p.pieces us ∧ us.flatten = text := by
  intro t text
  have utf8 : t.text.WellFormed := by decide
  have whole : text.WellFormed := by decide
  obtain ⟨p, wraps⟩ : ∃ p, t.wrapPattern? = some p := ⟨_, rfl⟩
  have found : p.hole? text = some (7, 10) := by
    cases wraps
    decide
  obtain ⟨decides, -⟩ := hole?_decomposes utf8 wraps whole
  exact ⟨utf8, whole, p, wraps, found, decides.1 (by rw [found]; rfl)⟩

end WrapPattern

end Interlace
