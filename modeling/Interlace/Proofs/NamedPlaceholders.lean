import Interlace.Dict.Lemmas
import Interlace.Proofs.Folds
import Interlace.Proofs.PatternReadings

/-!
# Templates with named placeholders

What a named placeholder stood for is not known when the wrapped expression is looked for, so its
piece of the pattern fits any text, and a rendered text may have several readings. The one it was
rendered by is among them, but the expression found is that of the earliest.

## Key results

- `SingleExpression.cut`: where a scan may stop inside an expression
- `Template.Spelled.reads`: what was rendered is read as it was put together
- `Template.Delimited.found`: texts that end where what follows them first occurs
- `Template.unwrapped_iff`: when the wrapped expression is found
-/

namespace Interlace

/-! ## Expressions without comments -/

theorem Enclosed.mono {kind kind' : Text → Prop} {t : Text} (h : Enclosed kind t)
    (weaker : ∀ comment, kind comment → kind' comment) : Enclosed kind' t := by
  induction h with
  | nil => exact .nil
  | byte plain code rest ih => exact .byte plain code ih
  | group pair inside rest ih ih' => exact .group pair ih ih'
  | literal quote inside rest ih => exact .literal quote inside ih
  | comment is allowed rest ih => exact .comment is (weaker _ allowed) ih

/-- Code without comments in which every bracket and literal is closed, and every comma stands
between brackets or in a literal. -/
inductive SingleExpression : Text → Prop where
  | nil : SingleExpression []
  | byte {b : UInt8} {t : Text} (plain : isPlain b) (comma : b ≠ 0x2C)
      (code : startsComment (b :: t) = false) (rest : SingleExpression t) :
      SingleExpression (b :: t)
  | group {opening closing : UInt8} {inner t : Text} (pair : isPair opening closing)
      (inside : Enclosed (fun _ => False) inner) (rest : SingleExpression t) :
      SingleExpression (opening :: (inner ++ closing :: t))
  | literal {mark : UInt8} {body t : Text} (quote : Balance.isQuote mark)
      (inside : QuotedBody mark body) (rest : SingleExpression t) :
      SingleExpression (mark :: (body ++ mark :: t))

theorem SingleExpression.enclosed {h : Text} (single : SingleExpression h) :
    Enclosed (fun _ => False) h := by
  induction single with
  | nil => exact .nil
  | byte plain comma code rest ih => exact .byte plain code ih
  | group pair inside rest ih => exact .group pair inside ih
  | literal quote inside rest ih => exact .literal quote inside ih

private theorem Enclosed.closed_of_plain {h : Text} (enclosed : Enclosed (fun _ => False) h) :
    Balance.Closed h :=
  (enclosed.mono fun _ => False.elim).closed

/-- A byte that ends an argument or a group. -/
def isBound (b : UInt8) : Bool :=
  b = 0x2C || Balance.isClosing b

/-- Between the marks of a literal the scan is never back in code. -/
private theorem QuotedBody.not_code {mark : UInt8} {u v : Text} {depth depth' : Nat}
    (h : QuotedBody mark (u ++ v)) (quote : Balance.isQuote mark) :
    Balance.after depth (.quoted mark) u ≠ some (depth', .code) := by
  intro code
  generalize whole : u ++ v = body at h
  -- The induction is on the literal; a cut within an escape leaves the scan in the escape.
  induction h generalizing u with
  | nil =>
    obtain ⟨rfl, -⟩ := List.append_eq_nil_iff.1 whole
    cases code
  | byte inside plain rest ih =>
    cases u with
    | nil => cases code
    | cons c u =>
      obtain ⟨rfl, cut⟩ := List.cons.inj whole
      rw [Balance.after_cons, Balance.pass, Balance.afterQuoted_plain inside plain] at code
      exact ih code cut
  | escape b escapes rest ih =>
    cases u with
    | nil => cases code
    | cons c u =>
      obtain ⟨rfl, cut⟩ := List.cons.inj whole
      rw [Balance.after_cons, Balance.pass, Balance.afterQuoted_backslash quote escapes] at code
      cases u with
      | nil => cases code
      | cons d u => exact ih code (List.cons.inj cut).2

/-- A scan that stops, but not inside brackets or a literal, stops behind the byte that closes
them. -/
private theorem Balance.exists_behind {inner t u v : Text} {closing : UInt8} {depth : Nat}
    {state : QuoteState} (cut : u ++ v = inner ++ closing :: t)
    (stops : Balance.after depth state u = some (0, .code))
    (inside : ∀ front more, front ++ more = inner →
      Balance.after depth state front ≠ some (0, .code)) :
    ∃ w, u = inner ++ closing :: w ∧ w ++ v = t := by
  rcases List.append_eq_append_iff.1 cut with ⟨w, rfl, -⟩ | ⟨w, rfl, behind⟩
  · exact absurd stops (inside u w rfl)
  · cases w with
    | nil =>
      rw [List.append_nil] at stops
      exact absurd stops (inside inner [] (List.append_nil inner))
    | cons c w =>
      obtain ⟨rfl, tail⟩ := List.cons.inj behind
      exact ⟨w, rfl, tail.symm⟩

/-- Where the scan stops inside an expression, neither a comma nor a closing bracket follows. -/
theorem SingleExpression.cut {u v : Text} (single : SingleExpression (u ++ v))
    (stops : Balance.Closed u) : ∀ b ∈ v.head?, isBound b = false := by
  generalize whole : u ++ v = h at single
  induction single generalizing u with
  | nil =>
    obtain ⟨-, rfl⟩ := List.append_eq_nil_iff.1 whole
    exact nofun
  | @byte b t plain comma code rest ih =>
    cases u with
    | nil =>
      obtain rfl : v = b :: t := whole
      rintro c ⟨⟩
      simp only [isPlain, Bool.not_eq_true', Bool.or_eq_false_iff] at plain
      simp [isBound, comma, plain.1.2]
    | cons c u =>
      obtain ⟨rfl, cut⟩ := List.cons.inj whole
      refine ih ?_ cut
      rwa [Balance.Closed, Balance.after_cons, Balance.pass_plain plain] at stops
  | @group opening closing inner t pair inside rest ih =>
    cases u with
    | nil =>
      obtain rfl : v = _ := whole
      rintro c ⟨⟩
      simp only [isPair, List.mem_cons, Prod.mk.injEq, List.not_mem_nil, or_false,
        decide_eq_true_eq] at pair
      rcases pair with ⟨rfl, rfl⟩ | ⟨rfl, rfl⟩ | ⟨rfl, rfl⟩ <;> rfl
    | cons c u =>
      obtain ⟨rfl, cut⟩ := List.cons.inj whole
      obtain ⟨opens, closes⟩ := Balance.pass_pair pair
      have closed : Balance.after 0 .code inner = some (0, .code) := inside.closed_of_plain
      rw [Balance.Closed, Balance.after_cons, opens] at stops
      -- Inside the brackets one is open.
      obtain ⟨w, rfl, tail⟩ := Balance.exists_behind cut stops fun front more split here => by
        rw [← split, Balance.after_append] at closed
        obtain ⟨⟨depth, state⟩, reached, -⟩ := Option.bind_eq_some_iff.1 closed
        have deeper := Balance.after_add reached 1
        rw [Nat.zero_add] at deeper
        cases deeper.symm.trans here
      refine ih ?_ tail
      have deeper := Balance.after_add closed 1
      simpa [Balance.Closed, Balance.after_append, Balance.after_cons, deeper, closes] using stops
  | @literal mark body t quote inside rest ih =>
    cases u with
    | nil =>
      obtain rfl : v = _ := whole
      rintro c ⟨⟩
      simp only [Balance.isQuote, Bool.or_eq_true, decide_eq_true_eq] at quote
      rcases quote with (rfl | rfl) | rfl <;> rfl
    | cons c u =>
      obtain ⟨rfl, cut⟩ := List.cons.inj whole
      obtain ⟨opened, ended⟩ := Balance.pass_mark quote 0
      rw [Balance.Closed, Balance.after_cons, opened] at stops
      -- Up to its closing mark a literal is not code.
      obtain ⟨w, rfl, tail⟩ := Balance.exists_behind cut stops fun front more split =>
        QuotedBody.not_code (v := more) (split ▸ inside) quote
      refine ih ?_ tail
      simpa [Balance.Closed, Balance.after_append, Balance.after_cons, inside.after quote 0,
        ended] using stops

namespace Template

open WrapPattern

/-! ## What was rendered -/

/-- Texts that the parts of a template stand for, one by one. -/
def Fills (values : Values) (parts : List TemplatePart) (us : List Text) : Prop :=
  List.Forall₂ (fun part u => values.fill part = .ok u) parts us

variable {values : Values} {parts : List TemplatePart} {us : List Text} {t : Text}

private theorem exists_fills {t : Template} {text : Text} (rendered : t.render values = .ok text) :
    ∃ us, Fills values t.parts us ∧ text = us.flatten := by
  rw [render] at rendered
  cases filled : t.parts.mapM values.fill with
  | error name =>
    rw [filled] at rendered
    cases rendered
  | ok us =>
    rw [filled] at rendered
    cases rendered
    exact ⟨us, forall₂_of_mapM filled, rfl⟩

/-- What the parts around a hole stand for stands around the expression. -/
theorem Fills.around {front back : List TemplatePart} {h : Text} {named : Dict Text}
    (filled : Fills ⟨some h, named⟩ (front ++ .hole :: back) us) :
    ∃ before behind, Fills ⟨some h, named⟩ front before ∧ Fills ⟨some h, named⟩ back behind ∧
      us = before ++ h :: behind := by
  have first := List.forall₂_take front.length filled
  have second := List.forall₂_drop front.length filled
  rw [List.take_left] at first
  rw [List.drop_left] at second
  obtain ⟨u, behind, same, others, rest⟩ := List.forall₂_cons_left_iff.1 second
  cases same
  exact ⟨us.take front.length, behind, first, others, by rw [← rest, List.take_append_drop]⟩

/-- The texts that a template is filled in with are well formed. -/
structure Values.WellFormed (values : Values) : Prop where
  hole : ∀ h, values.hole = some h → h.WellFormed
  named : ∀ e ∈ values.named.entries, e.2.WellFormed

theorem Values.WellFormed.fill (good : values.WellFormed) {part : TemplatePart} {u : Text}
    (filled : values.fill part = .ok u) (other : ∀ text, part ≠ .literal text) :
    u.WellFormed := by
  -- Both kinds of placeholder get a value, and all values are well formed.
  cases part with
  | literal text => exact absurd rfl (other text)
  | hole =>
    rw [Values.fill] at filled
    split at filled
    · rename_i given
      cases filled
      exact good.hole _ given
    · cases filled
  | named name =>
    rw [Values.fill] at filled
    split at filled
    · rename_i given
      cases filled
      exact good.named _ ((Dict.mem_entries_iff _).2 given)
    · cases filled

/-- What follows two closing braces in a well-formed text is well formed. -/
private theorem exists_firstIllFormed_behind {s front t : Text} {offset : Nat}
    (whole : Text.firstIllFormed offset 0 (s ++ (front ++ "\x7d\x7d" ++ t)) = none) :
    ∃ offset, Text.firstIllFormed offset 0 t = none := by
  have brace : ("\x7d\x7d" : Text) = [0x7D, 0x7D] := by decide
  have cut : s ++ (front ++ ("\x7d\x7d" : Text) ++ t) = (s ++ front ++ [0x7D]) ++ 0x7D :: t := by
    simp [brace]
  rw [cut] at whole
  exact Text.exists_firstIllFormed_of_ascii (by decide) (by simp) whole

/-- What the parts of a well-formed text stand for starts with a character. -/
theorem Spelled.startsWhole (spelled : Spelled parts t) (good : values.WellFormed)
    (filled : Fills values parts us) {offset : Nat}
    (whole : Text.firstIllFormed offset 0 t = none) : StartsWhole us.flatten := by
  -- An empty piece hands the question on to those behind it.
  induction spelled generalizing us offset with
  | nil =>
    cases filled
    exact nofun
  | literal text rest ih =>
    obtain ⟨u, us, same, others, rfl⟩ := List.forall₂_cons_left_iff.1 filled
    cases same
    cases text with
    | nil => exact @ih us others _ whole
    | cons b text =>
      rintro c ⟨⟩
      exact Text.isContinuation_of_firstIllFormed whole
  | placeholder front other rest ih =>
    obtain ⟨u, us, here, others, rfl⟩ := List.forall₂_cons_left_iff.1 filled
    cases u with
    | nil =>
      obtain ⟨offset, whole⟩ := exists_firstIllFormed_behind (s := []) whole
      exact @ih us others _ whole
    | cons b u =>
      rintro c ⟨⟩
      exact Text.isContinuation_of_firstIllFormed (good.fill here other)

/-- What was rendered is read as it was put together. -/
theorem Spelled.reads (spelled : Spelled parts t) (good : values.WellFormed)
    (closed : ∀ h, values.hole = some h → h ≠ [] ∧ Balance.Closed h)
    (filled : Fills values parts us) {s : Text} {offset : Nat}
    (whole : Text.firstIllFormed offset 0 (s ++ t) = none) :
    Reads (parts.map .ofPart) us := by
  -- The induction is on the parts; the text before them only carries the count of characters.
  induction spelled generalizing us offset s with
  | nil =>
    cases filled
    exact .nil
  | literal text rest ih =>
    obtain ⟨u, us, same, others, rfl⟩ := List.forall₂_cons_left_iff.1 filled
    cases same
    rw [← List.append_assoc] at whole
    exact .literal text (ih others whole)
  | @placeholder part parts t front other rest ih =>
    obtain ⟨u, us, here, others, rfl⟩ := List.forall₂_cons_left_iff.1 filled
    obtain ⟨offset, whole⟩ := exists_firstIllFormed_behind whole
    have starts := rest.startsWhole good others whole
    have inner := ih (s := []) others whole
    cases part with
    | literal text => exact absurd rfl (other text)
    | named name => exact .any u starts inner
    | hole =>
      rw [Values.fill] at here
      split at here
      · -- The hole was filled with an expression, so it may end where that closes.
        rename_i h given
        cases here
        obtain ⟨more, closed⟩ := closed _ given
        exact .hole ⟨more, ⟨.code, closed, fun _ => rfl⟩, starts⟩ inner
      · cases here

/-- In a reading of a template the hole is where the parts before it end. -/
private theorem holeIn_append {front back : List TemplatePart} {before behind : List Text}
    {h : Text} (plain : .hole ∉ front) (size : before.length = front.length) (offset : Nat) :
    holeIn ((front ++ .hole :: back).map .ofPart) offset (before ++ h :: behind) =
      some (offset + before.flatten.length, offset + before.flatten.length + h.length) := by
  -- The induction is on the parts before the hole, each of which moves it on by its text.
  induction front generalizing before offset with
  | nil =>
    obtain rfl := List.length_eq_zero_iff.1 size
    rfl
  | cons part front ih =>
    obtain ⟨u, before, rfl⟩ := List.exists_cons_of_length_eq_add_one size
    have rest := ih (fun hh => plain (List.mem_cons_of_mem _ hh)) (Nat.succ.inj size)
      (offset + u.length)
    rw [List.flatten_cons, List.length_append, ← Nat.add_assoc]
    cases part with
    | hole => exact absurd List.mem_cons_self plain
    | literal text => exact rest
    | named name => exact rest

/-! ## Texts that end where the next one starts -/

/-- What each placeholder before the hole stands for ends where the text behind the placeholder
first occurs, and the hole is at the end or before a comma or a closing bracket. -/
inductive Delimited (values : Values) : List TemplatePart → Prop where
  | literal {parts : List TemplatePart} (text : Text) (rest : Delimited values parts) :
      Delimited values (.literal text :: parts)
  | named {name value text : Text} {parts : List TemplatePart}
      (stands : values.named.get? name = some value)
      (first : Text.find? text (value ++ text) = some value.length)
      (rest : Delimited values parts) :
      Delimited values (.named name :: .literal text :: parts)
  | last : Delimited values [.hole]
  | bounded {b : UInt8} {text : Text} {parts : List TemplatePart} (bound : isBound b) :
      Delimited values (.hole :: .literal (b :: text) :: parts)

/-- What ends where the text behind it first occurs is not read shorter. -/
private theorem length_le_of_first {value text u r r' : Text}
    (first : Text.find? text (value ++ text) = some value.length)
    (same : u ++ (text ++ r) = value ++ (text ++ r')) : value.length ≤ u.length := by
  by_contra less
  rw [← List.append_assoc, ← List.append_assoc] at same
  obtain ⟨rest, whole⟩ : u ++ text <+: value ++ text := by
    refine List.prefix_of_prefix_length_le ⟨r, same⟩ (List.prefix_append _ r') ?_
    simp only [List.length_append]
    omega
  rw [← whole] at first
  exact less (Text.le_of_find? first)

/-- The earliest reading of what was rendered has the expression in its hole, if that has a comma
and a closing bracket only in brackets. -/
private theorem Delimited.holeIn_eq (delimited : Delimited values parts)
    (single : ∀ h, values.hole = some h → SingleExpression h) (filled : Fills values parts us)
    (reads : Reads (parts.map .ofPart) us) {vs : List Text}
    (earliest : Earliest (parts.map .ofPart) us.flatten vs) (offset : Nat) :
    holeIn (parts.map .ofPart) offset vs = holeIn (parts.map .ofPart) offset us := by
  induction delimited generalizing us vs offset with
  | literal text rest ih =>
    obtain ⟨u, us, same, others, rfl⟩ := List.forall₂_cons_left_iff.1 filled
    cases same
    obtain ⟨vs, rfl, -⟩ := reads_literal_iff.1 earliest.reads
    exact ih others reads.tail earliest.tail _
  | @named name value text parts stands first rest ih =>
    obtain ⟨u, ws, here, further, rfl⟩ := List.forall₂_cons_left_iff.1 filled
    obtain ⟨w, us, same, others, rfl⟩ := List.forall₂_cons_left_iff.1 further
    cases same
    obtain rfl : value = u := by
      rw [Values.fill, stands] at here
      exact Except.ok.inj here
    obtain ⟨v, ws, rfl, -, inner⟩ := reads_any_iff.1 earliest.reads
    obtain ⟨vs, rfl, -⟩ := reads_literal_iff.1 inner
    have whole : v ++ (text ++ vs.flatten) = value ++ (text ++ us.flatten) := earliest.whole
    have size : v.length = value.length :=
      Nat.le_antisymm (earliest.length_le reads rfl) (length_le_of_first first whole)
    obtain ⟨rfl, -⟩ := List.append_inj whole size
    exact ih others reads.tail.tail earliest.tail.tail _
  | last =>
    obtain ⟨u, us, -, others, rfl⟩ := List.forall₂_cons_left_iff.1 filled
    cases others
    obtain ⟨v, vs, rfl, -, inner⟩ := reads_hole_iff.1 earliest.reads
    cases inner
    have whole : v = u := by simpa using earliest.whole
    rw [whole]
  | @bounded b text parts bound =>
    obtain ⟨u, ws, here, further, rfl⟩ := List.forall₂_cons_left_iff.1 filled
    obtain ⟨w, us, same, others, rfl⟩ := List.forall₂_cons_left_iff.1 further
    cases same
    obtain ⟨v, ws, rfl, fills, inner⟩ := reads_hole_iff.1 earliest.reads
    obtain ⟨vs, rfl, -⟩ := reads_literal_iff.1 inner
    have whole : v ++ b :: (text ++ vs.flatten) = u ++ b :: (text ++ us.flatten) := earliest.whole
    have expression : SingleExpression u := by
      rw [Values.fill] at here
      split at here
      · rename_i given
        cases here
        exact single _ given
      · cases here
    -- If the scan stopped inside the expression, the bound would follow there.
    obtain ⟨rest, split⟩ : v <+: u :=
      List.prefix_of_prefix_length_le ⟨_, whole⟩ (List.prefix_append _ _)
        (earliest.length_le reads rfl)
    obtain rfl : rest = [] := by
      subst split
      rw [List.append_assoc] at whole
      cases rest with
      | nil => rfl
      | cons c rest =>
        obtain ⟨rfl, -⟩ := List.cons.inj (List.append_cancel_left whole)
        obtain ⟨state, closed, code⟩ := fills.closed
        obtain rfl := code (List.cons_ne_nil _ _)
        exact absurd (expression.cut closed b rfl) (by simp [bound])
    rw [List.append_nil] at split
    subst split
    rfl

/-- What was rendered from a template with one hole can be read again, and what is found in it is
where the expression stands exactly if every reading with another hole is later than some reading
with this one. So the expression is found if what stands for the placeholders before it ends where
the text behind each first occurs and it is itself at the end or before a comma or a closing
bracket. -/
theorem unwrapped_iff {t : Template} {front back : List TemplatePart} {named : Dict Text}
    {h text : Text} (utf8 : t.text.WellFormed) (good : Values.WellFormed ⟨some h, named⟩)
    (parts : t.parts = front ++ .hole :: back) (single : t.parts.count .hole = 1)
    (expression : SingleExpression h) (given : h ≠ [])
    (rendered : t.render ⟨some h, named⟩ = .ok text) :
    ∃ pattern before behind, t.wrapPattern? = some pattern ∧
      Fills ⟨some h, named⟩ front before ∧ Fills ⟨some h, named⟩ back behind ∧
      text = before.flatten ++ h ++ behind.flatten ∧ (pattern.hole? text).isSome ∧
      let range := (before.flatten.length, before.flatten.length + h.length)
      (pattern.hole? text = some range ↔
        ∀ vs, Reads pattern.pieces vs → vs.flatten = text →
          holeIn pattern.pieces 0 vs ≠ some range →
          ∃ us, Reads pattern.pieces us ∧ us.flatten = text ∧
            holeIn pattern.pieces 0 us = some range ∧ Before us vs) ∧
      (Delimited ⟨some h, named⟩ t.parts → pattern.hole? text = some range) := by
  obtain ⟨us, filled, rfl⟩ := exists_fills rendered
  obtain ⟨before, behind, before_filled, behind_filled, rfl⟩ := (parts ▸ filled).around
  have plain : .hole ∉ front := by
    rw [parts, List.count_append, List.count_cons_self] at single
    exact List.count_eq_zero.1 (by omega)
  have expressions : ∀ e, some h = some e → e = h := fun e he => (Option.some.inj he).symm
  -- The text as it was filled is one of its readings, and the earliest is what is found.
  have reads : Reads (t.parts.map .ofPart) (before ++ h :: behind) := by
    refine (spelled_partsFrom 0 t.text).reads good (fun e he => ?_) filled (s := []) utf8
    rw [expressions e he]
    exact ⟨given, expression.enclosed.closed_of_plain⟩
  have here : holeIn (t.parts.map .ofPart) 0 (before ++ h :: behind) =
      some (before.flatten.length, before.flatten.length + h.length) := by
    rw [parts, holeIn_append plain before_filled.length_eq.symm, Nat.zero_add]
  obtain ⟨vs, earliest⟩ := reads.exists_earliest
  refine ⟨⟨t.parts.map .ofPart⟩, before, behind, if_pos single, before_filled, behind_filled,
    by simp, ?_, hole?_eq_some_iff_before reads rfl, fun delimited => ?_⟩
  · have hole : .hole ∈ t.parts.map WrapPiece.ofPart := by
      rw [parts]
      simp [WrapPiece.ofPart]
    obtain ⟨range, found⟩ := Option.isSome_iff_exists.1 (earliest.reads.isSome_holeIn hole 0)
    rw [hole?_eq_some_iff_earliest.2 ⟨vs, earliest, found⟩]
    rfl
  · refine hole?_eq_some_iff_earliest.2 ⟨vs, earliest, ?_⟩
    rw [← here]
    exact delimited.holeIn_eq (fun e he => expressions e he ▸ expression) filled reads earliest 0

/-- An argument between two values, the second of them in a string. -/
theorem unwrapped_between_values :
    let t : Template :=
      ⟨"w(\x7b\x7bCtx\x7d\x7d, \x7b\x7b.\x7d\x7d, \"\x7b\x7bName\x7d\x7d\")", .empty, none⟩
    let named : Dict Text := .ofList [("Ctx", "c"), ("Name", "f")]
    t.text.WellFormed ∧ Values.WellFormed ⟨some "g(a, \")\")", named⟩ ∧
      t.parts.count .hole = 1 ∧ SingleExpression "g(a, \")\")" ∧
      t.render ⟨some "g(a, \")\")", named⟩ = .ok "w(c, g(a, \")\"), \"f\")" ∧
      ∃ pattern, t.wrapPattern? = some pattern ∧
        pattern.hole? "w(c, g(a, \")\"), \"f\")" = some (5, 14) := by
  intro t named
  have utf8 : t.text.WellFormed := by decide
  have parts : t.parts = [.literal "w(", .named "Ctx", .literal ", "] ++ .hole ::
      [.literal ", \"", .named "Name", .literal "\")"] := by decide
  have good : Values.WellFormed ⟨some "g(a, \")\")", named⟩ := by
    refine ⟨?_, by decide⟩
    rintro h ⟨⟩
    decide
  have single : t.parts.count .hole = 1 := by
    rw [parts]
    decide
  -- The argument is a call, and has a parenthesis in a string.
  have expression : SingleExpression "g(a, \")\")" := by
    have text : ("g(a, \")\")" : Text) =
        0x67 :: 0x28 :: ((0x61 :: 0x2C :: 0x20 :: 0x22 :: ([0x29] ++ 0x22 :: [])) ++
          0x29 :: []) := by decide
    rw [text]
    refine .byte rfl (by decide) rfl (.group rfl ?_ .nil)
    refine .byte rfl rfl (.byte rfl rfl (.byte rfl rfl (.literal rfl ?_ .nil)))
    exact .byte (by decide) (.inl (by decide)) .nil
  have rendered : t.render ⟨some "g(a, \")\")", named⟩ = .ok "w(c, g(a, \")\"), \"f\")" := by
    decide
  -- The literal pieces around the hole end where a value can.
  have delimited : Delimited ⟨some "g(a, \")\")", named⟩ t.parts := by
    rw [parts]
    exact .literal _ (.named rfl (by decide) (.bounded rfl))
  refine ⟨utf8, good, single, expression, rendered, ?_⟩
  obtain ⟨pattern, before, behind, wraps, filled, -, -, -, -, found⟩ :=
    unwrapped_iff utf8 good parts single expression (by decide) rendered
  obtain rfl : before = [("w(" : Text), "c", ", "] :=
    List.right_unique_forall₂' (fun _ _ _ h h' => Except.ok.inj (h.symm.trans h')) filled
      (.cons rfl (.cons rfl (.cons rfl .nil)))
  exact ⟨pattern, wraps, found delimited⟩

/-- What follows the expression may occur in it, and then a shorter one is found. -/
theorem unwrapped_shortened :
    let t : Template :=
      ⟨"\x7b\x7b.\x7d\x7d + \"\x7b\x7bFuncName\x7d\x7d\"", .empty, none⟩
    let named : Dict Text := .ofList [("FuncName", "run")]
    t.text.WellFormed ∧ t.parts = [.hole, .literal " + \"", .named "FuncName", .literal "\""] ∧
      SingleExpression "a + \"x\"" ∧
      t.render ⟨some "a + \"x\"", named⟩ = .ok "a + \"x\" + \"run\"" ∧
      ∃ pattern, t.wrapPattern? = some pattern ∧
        pattern.hole? "a + \"x\" + \"run\"" = some (0, 1) := by
  refine ⟨by decide, by decide, ?_, by decide, _, rfl, by decide⟩
  have text : ("a + \"x\"" : Text) =
      0x61 :: 0x20 :: 0x2B :: 0x20 :: 0x22 :: ([0x78] ++ 0x22 :: []) := by decide
  rw [text]
  refine .byte rfl (by decide) rfl (.byte rfl (by decide) rfl ?_)
  refine .byte rfl (by decide) rfl (.byte rfl (by decide) rfl (.literal rfl ?_ .nil))
  exact .byte (by decide) (.inl (by decide)) .nil

end Template

end Interlace
