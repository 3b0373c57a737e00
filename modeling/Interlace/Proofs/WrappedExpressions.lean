import Interlace.Aspect.WrapPattern
import Interlace.Proofs.TypeReferences

/-!
# Wrapped expressions and how they are found

A template with one hole leaves an expression between two literal texts. To find it again, a scan
passes over the text behind the first of them and looks for places where no bracket and no literal
is open. The scan knows literals but not comments: it takes them for code. So whether an expression
is found depends on what its comments would be as code.

## Key results

- `Balance.length_mem_ends_iff`: the places that the scan stops at
- `Template.Spelled.around`: the literal texts around the only placeholder of a template
- `Enclosed.closed`: code with harmless comments leaves nothing open
- `Template.wrapped_found_iff`: when the wrapped expression is found
-/

namespace Interlace

namespace Text

/-! ## Characters behind ASCII -/

/-- A continuation byte starts no well-formed text. -/
theorem isContinuation_of_firstIllFormed {offset : Nat} {b : UInt8} {t : Text}
    (h : firstIllFormed offset 0 (b :: t) = none) : isContinuation b = false := by
  by_contra later
  have bounds : 0x80 ≤ b ∧ b ≤ 0xBF := by
    simpa only [isContinuation, Bool.and_eq_true, decide_eq_true_eq, Bool.not_eq_false] using later
  have high : ¬ b < 0x80 := UInt8.not_lt.2 bounds.1
  have low : b < 0xC2 := UInt8.lt_of_le_of_lt bounds.2 (by decide)
  rw [firstIllFormed] at h
  simp [readPoint, high, demand, low] at h

/-- What follows an ASCII byte in a well-formed text is well formed. -/
theorem exists_firstIllFormed_of_ascii {offset skip : Nat} {s t : Text} {a : UInt8}
    (ascii : a < 0x80) (skipped : ∀ c ∈ (s ++ a :: t).take skip, 0x80 ≤ c)
    (h : firstIllFormed offset skip (s ++ a :: t) = none) :
    ∃ offset, firstIllFormed offset 0 t = none := by
  induction s generalizing offset skip with
  | nil =>
    cases skip with
    | succ skip => exact absurd ascii (UInt8.not_lt.2 (skipped a (by simp)))
    | zero =>
      rw [List.nil_append, firstIllFormed, readPoint, if_pos ascii] at h
      exact ⟨_, h⟩
  | cons c s ih =>
    cases skip with
    | succ skip => exact ih (fun d hd => skipped d (by simp [hd])) h
    | zero =>
      rw [List.cons_append, firstIllFormed] at h
      split at h
      · -- A character takes continuation bytes along, and an ASCII byte is none.
        rename_i point width read
        refine ih (fun d hd => ?_) h
        have inside : width = (readPoint c (s ++ a :: t)).2 := by rw [read]
        exact le_of_mem_take_readPoint (inside ▸ hd)
      · cases h

private theorem isContinuation_head?_of_wellFormed (s : Text) {t : Text} {a : UInt8}
    (ascii : a < 0x80)
    (h : (s ++ a :: t).WellFormed) : ∀ b ∈ t.head?, isContinuation b = false := by
  obtain ⟨offset, rest⟩ := exists_firstIllFormed_of_ascii ascii (by simp) h
  cases t with
  | nil => exact nofun
  | cons c t =>
    rintro b ⟨⟩
    exact isContinuation_of_firstIllFormed rest

end Text

/-! ## Passing over a text -/

namespace Balance

/-- The open brackets and the state behind a byte; nothing at a closing bracket that was never
opened. -/
def pass : Nat × QuoteState → UInt8 → Option (Nat × QuoteState)
  | (depth, .quoted mark), b => some (depth, afterQuoted mark b)
  | (depth, .escaped mark), _ => some (depth, .quoted mark)
  | (depth, .code), b =>
    if isOpening b then some (depth + 1, .code)
    else if isClosing b then if depth = 0 then none else some (depth - 1, .code)
    else if isQuote b then some (depth, .quoted b)
    else some (depth, .code)

/-- The open brackets and the state behind a text, comments being taken for code. -/
def after (depth : Nat) (state : QuoteState) (t : Text) : Option (Nat × QuoteState) :=
  t.foldlM pass (depth, state)

/-- Passing over the text leaves no bracket and no literal open. -/
def Closed (t : Text) : Prop :=
  after 0 .code t = some (0, .code)

instance (t : Text) : Decidable (Closed t) :=
  inferInstanceAs (Decidable (_ = _))

theorem after_append (depth : Nat) (state : QuoteState) (s t : Text) :
    after depth state (s ++ t) = (after depth state s).bind fun p => after p.1 p.2 t := by
  rw [after, List.foldlM_append]
  rfl

theorem after_cons (depth : Nat) (state : QuoteState) (b : UInt8) (t : Text) :
    after depth state (b :: t) = (pass (depth, state) b).bind fun p => after p.1 p.2 t := rfl

/-- More open brackets around a text stay open. -/
theorem after_add {depth depth' : Nat} {state state' : QuoteState} {t : Text}
    (h : after depth state t = some (depth', state')) (more : Nat) :
    after (depth + more) state t = some (depth' + more, state') := by
  induction t generalizing depth state with
  | nil =>
    cases h
    rfl
  | cons b t ih =>
    rw [after_cons] at h ⊢
    obtain ⟨⟨d, q⟩, passed, rest⟩ := Option.bind_eq_some_iff.1 h
    -- Only in code are brackets counted, and none closes more than was opened.
    have passed' : pass (depth + more, state) b = some (d + more, q) := by
      cases state with
      | code =>
        unfold pass at passed ⊢
        grind
      | quoted mark =>
        cases passed
        rfl
      | escaped mark =>
        cases passed
        rfl
    rw [passed']
    exact ih rest

/-- No end lies before the place where the scan stands. -/
theorem le_of_mem_endsFrom {n offset depth : Nat} {state : QuoteState} {t : Text}
    (h : n ∈ endsFrom offset depth state t) : offset ≤ n := by
  induction t generalizing offset depth state with
  | nil =>
    simp only [endsFrom] at h
    grind
  | cons b t ih =>
    cases state with
    | quoted mark => exact Nat.le_of_succ_le (ih h)
    | escaped mark => exact Nat.le_of_succ_le (ih h)
    | code =>
      rw [endsFrom] at h
      grind

/-- What is found behind the place where the scan stands is found behind the next byte. -/
private theorem mem_endsFrom_cons {n offset depth : Nat} {state : QuoteState} {b : UInt8} {t : Text}
    (later : offset < n) :
    n ∈ endsFrom offset depth state (b :: t) ↔
      ∃ p, pass (depth, state) b = some p ∧ n ∈ endsFrom (offset + 1) p.1 p.2 t := by
  cases state with
  | quoted mark => simp [endsFrom, pass]
  | escaped mark => simp [endsFrom, pass]
  | code =>
    have other : n ≠ offset := Nat.ne_of_gt later
    simp only [endsFrom, pass]
    by_cases opening : isOpening b
    · simp [opening, other]
    · by_cases closing : isClosing b
      · by_cases bottom : depth = 0 <;> simp [opening, closing, bottom, other]
      · by_cases quote : isQuote b <;> simp [opening, closing, quote, other]

/-- Where the scan stands is an end if nothing is open there: at the end of all text but for a
literal, before that where a character starts. -/
private theorem mem_endsFrom_self {offset depth : Nat} {state : QuoteState} {t : Text} :
    offset ∈ endsFrom offset depth state t ↔
      0 < offset ∧ depth = 0 ∧ ∀ b ∈ t.head?, state = .code ∧ Text.isContinuation b = false := by
  -- Every end that is found later lies behind this place.
  have later : ∀ {depth state t}, offset ∉ endsFrom (offset + 1) depth state t := by
    intro depth state t h
    have := le_of_mem_endsFrom h
    omega
  cases t with
  | nil => simp [endsFrom, and_comm]
  | cons b t =>
    cases state with
    | quoted mark => simp [endsFrom, later]
    | escaped mark => simp [endsFrom, later]
    | code =>
      simp only [endsFrom]
      have order : (depth = 0 ∧ 0 < offset) ∧ Text.isContinuation b = false ↔
          0 < offset ∧ depth = 0 ∧ Text.isContinuation b = false := by
        rw [and_assoc, and_left_comm]
      by_cases opening : isOpening b
      · simp [opening, later, order]
      · by_cases closing : isClosing b
        · by_cases bottom : depth = 0 <;> simp [opening, closing, bottom, later]
        · by_cases quote : isQuote b <;> simp [opening, closing, quote, later, order]

/-- A leading part of a text is balanced exactly if passing over it leaves nothing open. -/
theorem mem_endsFrom_iff {offset depth : Nat} {state : QuoteState} {s t : Text} :
    offset + s.length ∈ endsFrom offset depth state (s ++ t) ↔
      0 < offset + s.length ∧ ∃ state', after depth state s = some (0, state') ∧
        ∀ b ∈ t.head?, state' = .code ∧ Text.isContinuation b = false := by
  induction s generalizing offset depth state with
  | nil =>
    rw [List.length_nil, Nat.add_zero, List.nil_append, mem_endsFrom_self]
    have here : ∀ state', after depth state [] = some (0, state') ↔ depth = 0 ∧ state = state' := by
      intro state'
      simp [after]
    simp [here, and_assoc]
  | cons b s ih =>
    -- The scan passes one byte at a time, so the rest starts one further.
    have moved : offset + (b :: s).length = (offset + 1) + s.length := by
      rw [List.length_cons]
      omega
    rw [List.cons_append, mem_endsFrom_cons (by simp), after_cons, moved]
    cases passed : pass (depth, state) b with
    | none => simp
    | some p => simp [ih]

theorem le_length_of_mem_endsFrom {n offset depth : Nat} {state : QuoteState} {t : Text}
    (h : n ∈ endsFrom offset depth state t) : n ≤ offset + t.length := by
  induction t generalizing offset depth state with
  | nil =>
    simp only [endsFrom] at h
    grind
  | cons b t ih =>
    by_cases here : n = offset
    · omega
    · have low := le_of_mem_endsFrom h
      obtain ⟨p, -, later⟩ := (mem_endsFrom_cons (by omega)).1 h
      have := ih later
      rw [List.length_cons]
      omega

/-- A leading part of a text is balanced exactly if passing over it leaves nothing open. -/
theorem length_mem_ends_iff {s t : Text} :
    s.length ∈ ends (s ++ t) ↔ s ≠ [] ∧ ∃ state, after 0 .code s = some (0, state) ∧
      ∀ b ∈ t.head?, state = .code ∧ Text.isContinuation b = false := by
  have scan := @mem_endsFrom_iff 0 0 .code s t
  rw [Nat.zero_add, List.length_pos_iff] at scan
  exact scan

end Balance

/-! ## Matching -/

namespace WrapPattern

private theorem matchFrom_literals (l : List Text) (pieces : List WrapPiece) (offset : Nat)
    (t : Text) : matchFrom (l.map .literal ++ pieces) offset (l.flatten ++ t) =
      matchFrom pieces (offset + l.flatten.length) t := by
  induction l generalizing offset with
  | nil => rfl
  | cons u l ih =>
    have found : Text.stripPrefix? u (u ++ (l.flatten ++ t)) = some (l.flatten ++ t) :=
      Text.stripPrefix?_eq_some_iff.2 rfl
    rw [List.map_cons, List.flatten_cons, List.cons_append, List.append_assoc, matchFrom, found]
    dsimp only
    rw [ih, List.length_append, Nat.add_assoc]

/-- Literal texts match themselves alone. -/
private theorem matchFrom_literals_eq (l : List Text) (offset : Nat) (t : Text) :
    matchFrom (l.map .literal) offset t = if t = l.flatten then some none else none := by
  induction l generalizing offset t with
  | nil => rfl
  | cons u l ih =>
    rw [List.map_cons, List.flatten_cons, matchFrom]
    cases found : Text.stripPrefix? u t with
    | none =>
      have other : t ≠ u ++ l.flatten := by
        rintro rfl
        rw [Text.stripPrefix?_eq_some_iff.2 rfl] at found
        cases found
      rw [if_neg other]
    | some rest =>
      rw [Text.stripPrefix?_eq_some_iff.1 found]
      dsimp only
      rw [ih]
      simp

/-- The hole is found exactly where the wrapped text is one of the balanced leading parts of what
follows the pattern's first literal texts. -/
theorem hole?_eq_some_iff {before behind : List Text} {h : Text} {range : Nat × Nat} :
    hole? ⟨before.map .literal ++ .hole :: behind.map .literal⟩
        (before.flatten ++ (h ++ behind.flatten)) = some range ↔
      range = (before.flatten.length, before.flatten.length + h.length) ∧
        h.length ∈ Balance.ends (h ++ behind.flatten) := by
  rw [hole?, matchFrom_literals, Nat.zero_add]
  generalize before.flatten.length = offset
  -- The lengths tell the ends apart, so the rest fits at one of them only.
  have here : ∀ n ∈ Balance.ends (h ++ behind.flatten),
      ((h ++ behind.flatten).drop n = behind.flatten ↔ n = h.length) := by
    intro n hn
    have inside := Balance.le_length_of_mem_endsFrom hn
    constructor
    · intro same
      have := congrArg List.length same
      simp only [List.length_drop, List.length_append] at this inside
      omega
    · rintro rfl
      exact List.drop_left
  simp only [matchFrom, matchFrom_literals_eq]
  generalize Balance.ends (h ++ behind.flatten) = ends at here
  induction ends with
  | nil => simp
  | cons n ends ih =>
    have others := ih fun m hm => here m (List.mem_cons_of_mem n hm)
    by_cases this : n = h.length
    · simp [this, eq_comm]
    · have missed := mt (here n List.mem_cons_self).1 this
      rw [List.findSome?_cons, if_neg missed, Option.map_none]
      refine others.trans ?_
      rw [List.mem_cons, or_iff_right (Ne.symm this)]

/-- What is wrapped is found exactly if the scan leaves no bracket open in it, nor a literal if text
follows. -/
private theorem hole?_around {before behind : List Text} {h : Text} (given : h ≠ [])
    (starts : ∀ b ∈ behind.flatten.head?, Text.isContinuation b = false) (range : Nat × Nat) :
    hole? ⟨before.map .literal ++ .hole :: behind.map .literal⟩
        (before.flatten ++ h ++ behind.flatten) = some range ↔
      range = (before.flatten.length, before.flatten.length + h.length) ∧
        ∃ state, Balance.after 0 .code h = some (0, state) ∧
          (behind.flatten ≠ [] → state = .code) := by
  have boundary : ∀ state : QuoteState, (∀ b ∈ behind.flatten.head?, state = .code ∧
      Text.isContinuation b = false) ↔ (behind.flatten ≠ [] → state = .code) := by
    intro state
    cases rest : behind.flatten with
    | nil => simp
    | cons b rest' => simp [starts b (by rw [rest]; rfl)]
  rw [List.append_assoc, hole?_eq_some_iff, Balance.length_mem_ends_iff]
  simp only [boundary, given, ne_eq, not_false_eq_true, true_and]

end WrapPattern

/-! ## The literal texts of a template -/

namespace Template

/-- The text is made of the literal parts and, for each placeholder, something that ends with two
closing braces. -/
inductive Spelled : List TemplatePart → Text → Prop where
  | nil : Spelled [] []
  | literal {parts : List TemplatePart} {t : Text} (text : Text) (rest : Spelled parts t) :
      Spelled (.literal text :: parts) (text ++ t)
  | placeholder {part : TemplatePart} {parts : List TemplatePart} {t : Text} (front : Text)
      (other : ∀ text, part ≠ .literal text) (rest : Spelled parts t) :
      Spelled (part :: parts) (front ++ "\x7d\x7d" ++ t)

/-- A placeholder is no literal text, and what follows it is behind two closing braces. -/
theorem placeholder?_eq_some {t rest : Text} {part : TemplatePart}
    (h : placeholder? t = some (part, rest)) :
    (∀ text, part ≠ .literal text) ∧ ∃ front, t = front ++ "\x7d\x7d" ++ rest := by
  have named : ∀ {t rest}, placeholderName? t = some (part, rest) →
      (∀ text, part ≠ .literal text) ∧ rest <:+ t := by
    intro t rest found
    unfold placeholderName? at found
    split at found
    · cases found
      exact ⟨nofun, List.suffix_cons ..⟩
    · split at found
      · cases found
        exact ⟨nofun, (List.dropWhile_suffix _).trans (List.suffix_cons ..)⟩
      · cases found
    · cases found
  unfold placeholder? at h
  obtain ⟨inner, opened, h⟩ := Option.bind_eq_some_iff.1 h
  obtain ⟨⟨p, u⟩, name, h⟩ := Option.bind_eq_some_iff.1 h
  obtain ⟨r, closed, h⟩ := Option.bind_eq_some_iff.1 h
  cases h
  obtain ⟨other, behind⟩ := named name
  refine ⟨other, ?_⟩
  -- Each step leaves an end of what it is given.
  have tail : ("\x7d\x7d" : Text) ++ rest <:+ t := by
    rw [← Text.stripPrefix?_eq_some_iff.1 closed]
    refine (Text.dropWhite_isSuffix 0 u).trans (behind.trans
      ((Text.dropWhite_isSuffix 0 inner).trans ?_))
    rw [Text.stripPrefix?_eq_some_iff.1 opened]
    exact List.suffix_append _ _
  obtain ⟨front, whole⟩ := tail
  exact ⟨front, by rw [List.append_assoc, whole]⟩

private theorem spelled_pushByte {parts : List TemplatePart} {t : Text} (h : Spelled parts t)
    (b : UInt8) : Spelled (pushByte b parts) (b :: t) := by
  cases h with
  | nil => exact .literal [b] .nil
  | literal text rest => exact .literal (b :: text) rest
  | @placeholder part parts t front other rest =>
    have alone : pushByte b (part :: parts) = .literal [b] :: part :: parts := by
      cases part with
      | literal text => exact absurd rfl (other text)
      | hole => rfl
      | named name => rfl
    rw [alone]
    exact .literal [b] (.placeholder front other rest)

theorem spelled_partsFrom (skip : Nat) (t : Text) : Spelled (partsFrom skip t) (t.drop skip) := by
  induction t generalizing skip with
  | nil =>
    rw [partsFrom, List.drop_nil]
    exact .nil
  | cons b t ih =>
    cases skip with
    | succ skip => exact ih skip
    | zero =>
      rw [partsFrom]
      split
      · rename_i part rest found
        obtain ⟨other, front, whole⟩ := placeholder?_eq_some found
        -- The placeholder is not empty, so what is passed over are bytes behind the first one.
        obtain ⟨mid, behind⟩ : ∃ mid, t = mid ++ rest := by
          cases front with
          | nil => exact ⟨_, (List.cons.inj whole).2⟩
          | cons c front => exact ⟨_, (List.cons.inj whole).2⟩
        have passed : t.drop (t.length - rest.length) = rest := by
          rw [behind, List.length_append, Nat.add_sub_cancel, List.drop_left]
        have spelled := ih (t.length - rest.length)
        rw [passed] at spelled
        rw [List.drop_zero, whole]
        exact .placeholder front other spelled
      · exact spelled_pushByte (ih 0) b

/-- Parts without placeholders make up the text. -/
theorem Spelled.literals {parts : List TemplatePart} {t : Text} (h : Spelled parts t)
    (plain : ∀ name, .named name ∉ parts) (whole : .hole ∉ parts) :
    ∃ l : List Text, parts = l.map .literal ∧ t = l.flatten := by
  induction h with
  | nil => exact ⟨[], rfl, rfl⟩
  | literal text rest ih =>
    obtain ⟨l, rfl, rfl⟩ := ih (fun name hn => plain name (List.mem_cons_of_mem _ hn))
      fun hh => whole (List.mem_cons_of_mem _ hh)
    exact ⟨text :: l, rfl, rfl⟩
  | @placeholder part parts t front other rest ih =>
    cases part with
    | literal text => exact absurd rfl (other text)
    | hole => exact absurd List.mem_cons_self whole
    | named name => exact absurd List.mem_cons_self (plain name)

/-- The literal texts before and behind the only placeholder of a template. -/
theorem Spelled.around {parts : List TemplatePart} {t : Text} (h : Spelled parts t)
    (plain : ∀ name, .named name ∉ parts) (single : parts.count .hole = 1) :
    ∃ (before behind : List Text) (front : Text),
      parts = before.map .literal ++ .hole :: behind.map .literal ∧
        t = before.flatten ++ front ++ "\x7d\x7d" ++ behind.flatten := by
  -- The induction is on the parts: literals are put before the hole, or it is met.
  induction h with
  | nil => cases single
  | literal text rest ih =>
    have other : TemplatePart.literal text ≠ .hole := nofun
    rw [List.count_cons_of_ne other] at single
    obtain ⟨before, behind, front, rfl, rfl⟩ := ih
      (fun name hn => plain name (List.mem_cons_of_mem _ hn)) single
    refine ⟨text :: before, behind, front, rfl, ?_⟩
    simp only [List.flatten_cons, List.append_assoc]
  | @placeholder part parts t front other rest ih =>
    cases part with
    | literal text => exact absurd rfl (other text)
    | named name => exact absurd List.mem_cons_self (plain name)
    | hole =>
      rw [List.count_cons_self, Nat.add_eq_right, List.count_eq_zero] at single
      obtain ⟨behind, rfl, rfl⟩ := rest.literals
        (fun name hn => plain name (List.mem_cons_of_mem _ hn)) single
      exact ⟨[], behind, front, rfl, rfl⟩

/-- Filling in the hole puts the expression between the literal texts. -/
private theorem render_around {t : Template} {before behind : List Text}
    (parts : t.parts = before.map .literal ++ .hole :: behind.map .literal) (h : Text)
    (named : Dict Text) :
    t.render ⟨some h, named⟩ = .ok (before.flatten ++ h ++ behind.flatten) := by
  have literal : ∀ l : List Text, (l.map .literal).mapM (Values.fill ⟨some h, named⟩) = .ok l := by
    intro l
    induction l with
    | nil => rfl
    | cons u l ih =>
      rw [List.map_cons, List.mapM_cons, ih]
      rfl
  rw [render, parts, List.mapM_append, List.mapM_cons, literal, literal]
  show Except.ok (before ++ h :: behind).flatten = _
  rw [List.flatten_append, List.flatten_cons, List.append_assoc]

end Template

/-! ## Expressions -/

/-- What stands between the marks of a literal. -/
inductive QuotedBody (mark : UInt8) : Text → Prop where
  | nil : QuotedBody mark []
  | byte {b : UInt8} {t : Text} (inside : b ≠ mark) (plain : b ≠ 0x5C ∨ mark = 0x60)
      (rest : QuotedBody mark t) : QuotedBody mark (b :: t)
  | escape {t : Text} (b : UInt8) (escapes : mark ≠ 0x60) (rest : QuotedBody mark t) :
      QuotedBody mark (0x5C :: b :: t)

/-- A comment, up to the line break or the mark that ends it. -/
inductive IsComment : Text → Prop where
  | line {body : Text} (short : Text.newline ∉ body) : IsComment ("//" ++ body ++ [Text.newline])
  | block {body : Text} (first : Text.find? "*/" (body ++ "*/") = some body.length) :
      IsComment ("/*" ++ body ++ "*/")

/-- A comment starts the text. -/
def startsComment (t : Text) : Bool :=
  Text.startsWith t "//" || Text.startsWith t "/*"

/-- A byte that is neither a bracket nor the mark of a literal. -/
def isPlain (b : UInt8) : Bool :=
  ! (Balance.isOpening b || Balance.isClosing b || Balance.isQuote b)

/-- Two brackets that belong together. -/
def isPair (opening closing : UInt8) : Bool :=
  (opening, closing) ∈ [((0x28 : UInt8), (0x29 : UInt8)), (0x5B, 0x5D), (0x7B, 0x7D)]

/-- Code in which every bracket, literal and comment is closed; only comments of a kind occur. -/
inductive Enclosed (kind : Text → Prop) : Text → Prop where
  | nil : Enclosed kind []
  | byte {b : UInt8} {t : Text} (plain : isPlain b) (code : startsComment (b :: t) = false)
      (rest : Enclosed kind t) : Enclosed kind (b :: t)
  | group {opening closing : UInt8} {inner t : Text} (pair : isPair opening closing)
      (inside : Enclosed kind inner) (rest : Enclosed kind t) :
      Enclosed kind (opening :: (inner ++ closing :: t))
  | literal {mark : UInt8} {body t : Text} (quote : Balance.isQuote mark)
      (inside : QuotedBody mark body) (rest : Enclosed kind t) :
      Enclosed kind (mark :: (body ++ mark :: t))
  | comment {comment t : Text} (is : IsComment comment) (allowed : kind comment)
      (rest : Enclosed kind t) : Enclosed kind (comment ++ t)

/-- A byte inside a literal that neither ends nor escapes. -/
theorem Balance.afterQuoted_plain {mark b : UInt8} (inside : b ≠ mark)
    (plain : b ≠ 0x5C ∨ mark = 0x60) : afterQuoted mark b = .quoted mark := by
  rcases plain with plain | rfl
  · simp [afterQuoted, inside, plain]
  · simp [afterQuoted, inside]

theorem Balance.afterQuoted_backslash {mark : UInt8} (quote : isQuote mark)
    (escapes : mark ≠ 0x60) : afterQuoted mark 0x5C = .escaped mark := by
  have other : (0x5C : UInt8) ≠ mark := by
    rintro rfl
    exact absurd quote (by decide)
  simp [afterQuoted, other, escapes]

/-- A literal starts and ends with its mark. -/
theorem Balance.pass_mark {mark : UInt8} (quote : isQuote mark) (depth : Nat) :
    pass (depth, .code) mark = some (depth, .quoted mark) ∧
      pass (depth, .quoted mark) mark = some (depth, .code) := by
  constructor
  · simp only [isQuote, Bool.or_eq_true, decide_eq_true_eq] at quote
    rcases quote with (rfl | rfl) | rfl <;> rfl
  · simp [pass, afterQuoted]

theorem Balance.pass_pair {opening closing : UInt8} (pair : isPair opening closing) :
    pass (0, .code) opening = some (1, .code) ∧ pass (1, .code) closing = some (0, .code) := by
  simp only [isPair, List.mem_cons, Prod.mk.injEq, List.not_mem_nil, or_false,
    decide_eq_true_eq] at pair
  rcases pair with ⟨rfl, rfl⟩ | ⟨rfl, rfl⟩ | ⟨rfl, rfl⟩ <;> decide

theorem Balance.pass_plain {b : UInt8} (plain : isPlain b) (depth : Nat) :
    pass (depth, .code) b = some (depth, .code) := by
  simp only [isPlain, Bool.not_eq_true', Bool.or_eq_false_iff] at plain
  obtain ⟨⟨opening, closing⟩, quote⟩ := plain
  simp [pass, opening, closing, quote]

/-- The scan stays inside a literal up to its closing mark. -/
theorem QuotedBody.after {mark : UInt8} {body : Text} (h : QuotedBody mark body)
    (quote : Balance.isQuote mark) (depth : Nat) :
    Balance.after depth (.quoted mark) body = some (depth, .quoted mark) := by
  induction h with
  | nil => rfl
  | byte inside plain rest ih =>
    rw [Balance.after_cons, Balance.pass, Balance.afterQuoted_plain inside plain]
    exact ih
  | escape b escapes rest ih =>
    rw [Balance.after_cons, Balance.pass, Balance.afterQuoted_backslash quote escapes]
    exact ih

/-- Code whose comments leave nothing open when they are taken for code leaves nothing open. -/
theorem Enclosed.closed {h : Text} (enclosed : Enclosed Balance.Closed h) : Balance.Closed h := by
  unfold Balance.Closed
  induction enclosed with
  | nil => rfl
  | byte plain code rest ih =>
    rw [Balance.after_cons, Balance.pass_plain plain]
    exact ih
  | @group opening closing inner t pair inside rest ih ih' =>
    obtain ⟨opens, closes⟩ := Balance.pass_pair pair
    -- Inside the brackets one more is open, all along.
    have deeper : Balance.after 1 .code inner = some (1, .code) := Balance.after_add ih 1
    simp [Balance.after_cons, Balance.after_append, opens, closes, deeper, ih']
  | @literal mark body t quote inside rest ih =>
    obtain ⟨opened, closed⟩ := Balance.pass_mark quote 0
    simp [Balance.after_cons, Balance.after_append, opened, inside.after quote 0, closed, ih]
  | comment is allowed rest ih =>
    rw [Balance.after_append, show Balance.after 0 .code _ = _ from allowed]
    exact ih

/-- Texts are put around everything in one way only. -/
private theorem around_unique {before behind before' behind' : Text}
    (h : ∀ t, before ++ t ++ behind = before' ++ t ++ behind') :
    before = before' ∧ behind = behind' := by
  have shorter : ∀ {s u s' u' : Text}, (∀ t, s ++ t ++ u = s' ++ t ++ u') →
      s'.length ≤ s.length := by
    intro s u s' u' same
    by_contra longer
    -- Behind the shorter text stands whatever is put there, in the longer one a fixed byte.
    have fixed : ∀ b, s'[s.length]? = some b := by
      intro b
      have here := congrArg (·[s.length]?) (same [b])
      simp only [List.append_assoc, List.getElem?_append_right (Nat.le_refl _), Nat.sub_self,
        List.getElem?_append_left (Nat.lt_of_not_le longer)] at here
      exact here.symm
    have := (fixed 0).symm.trans (fixed 1)
    exact absurd this (by decide)
  have length : before.length = before'.length :=
    Nat.le_antisymm (shorter fun t => (h t).symm) (shorter h)
  have whole := h []
  rw [List.append_nil, List.append_nil] at whole
  exact List.append_inj whole length

/-- A wrapped expression is found exactly if the scan, which takes comments for code, leaves no
bracket open in it, nor a literal if text follows; nothing else is ever found. So an expression is
found if every comment in it is closed as code, as one without comments is. -/
theorem Template.wrapped_found_iff {t : Template} {before behind : Text}
    (utf8 : t.text.WellFormed) (single : t.parts.count .hole = 1)
    (plain : ∀ name, .named name ∉ t.parts)
    (around : ∀ h, t.render ⟨some h, .empty⟩ = .ok (before ++ h ++ behind)) :
    ∃ pattern, t.wrapPattern? = some pattern ∧ ∀ h ≠ [],
      (∀ range, pattern.hole? (before ++ h ++ behind) = some range ↔
        range = (before.length, before.length + h.length) ∧
          ∃ state, Balance.after 0 .code h = some (0, state) ∧ (behind ≠ [] → state = .code)) ∧
      (Enclosed Balance.Closed h →
        pattern.hole? (before ++ h ++ behind) =
          some (before.length, before.length + h.length)) := by
  obtain ⟨l, l', front, parts, text⟩ := (spelled_partsFrom 0 t.text).around plain single
  obtain ⟨rfl, rfl⟩ : before = l.flatten ∧ behind = l'.flatten :=
    around_unique fun h =>
      Except.ok.inj ((around h).symm.trans (render_around parts h .empty))
  have pattern : t.wrapPattern? = some ⟨l.map .literal ++ .hole :: l'.map .literal⟩ := by
    rw [wrapPattern?, if_pos single, Template.parts, parts, List.map_append, List.map_cons,
      List.map_map, List.map_map]
    rfl
  -- What follows the hole follows a brace, so it starts with a character.
  have starts : ∀ b ∈ l'.flatten.head?, Text.isContinuation b = false := by
    rw [← List.drop_zero (l := t.text), text] at utf8
    have brace : ("\x7d\x7d" : Text) = [0x7D, 0x7D] := by decide
    rw [brace] at utf8
    refine Text.isContinuation_head?_of_wellFormed (l.flatten ++ front ++ [0x7D])
      (by decide : (0x7D : UInt8) < 0x80) ?_
    simpa using utf8
  refine ⟨_, pattern, fun h given => ?_⟩
  have found := @WrapPattern.hole?_around l l' h given starts
  exact ⟨found, fun enclosed => (found _).2 ⟨rfl, .code, enclosed.closed, fun _ => rfl⟩⟩

/-- A call with a bracket in a string, and with a comment whose brackets are closed. -/
theorem Template.wrapped_found_call :
    let t : Template := ⟨"w(\x7b\x7b.\x7d\x7d)", .empty, none⟩
    t.text.WellFormed ∧ t.parts = [.literal "w(", .hole, .literal ")"] ∧
      ∃ pattern, t.wrapPattern? = some pattern ∧
        pattern.hole? ("w(" ++ "f(\")\") /* [a] */" ++ ")") = some (2, 18) := by
  intro t
  have parts : t.parts = [.literal "w(", .hole, .literal ")"] := by decide
  have around : ∀ h, t.render ⟨some h, .empty⟩ = .ok ("w(" ++ h ++ ")") := fun h =>
    @render_around t ["w("] [")"] parts h .empty
  have utf8 : t.text.WellFormed := by decide
  obtain ⟨pattern, wraps, found⟩ := wrapped_found_iff utf8 (by rw [parts]; decide)
    (by simp [parts]) around
  refine ⟨utf8, parts, pattern, wraps, (found "f(\")\") /* [a] */" (by decide)).2 ?_⟩
  have text : ("f(\")\") /* [a] */" : Text) =
      0x66 :: 0x28 :: (0x22 :: ([0x29] ++ 0x22 :: []) ++ 0x29 :: 0x20 ::
        (("/*" ++ " [a] " ++ "*/" : Text) ++ [])) := by decide
  rw [text]
  -- The string and the comment are passed whole, so their brackets do not count.
  refine .byte rfl rfl (.group rfl ?_ (.byte rfl rfl (.comment (.block rfl) ?_ .nil)))
  · exact .literal rfl (.byte (by decide) (.inl (by decide)) .nil) .nil
  · decide

/-- A bracket in a comment is taken for one of the code, and the expression is not found. -/
theorem Template.wrapped_missed :
    let t : Template := ⟨"w(\x7b\x7b.\x7d\x7d)", .empty, none⟩
    t.parts = [.literal "w(", .hole, .literal ")"] ∧ Enclosed (fun _ => True) "h /* ) */" ∧
      ∃ pattern, t.wrapPattern? = some pattern ∧
        pattern.hole? ("w(" ++ "h /* ) */" ++ ")") = none := by
  refine ⟨by decide, ?_, _, rfl, by decide⟩
  have text : ("h /* ) */" : Text) =
      0x68 :: 0x20 :: (("/*" ++ " ) " ++ "*/" : Text) ++ []) := by decide
  rw [text]
  exact .byte rfl rfl (.byte rfl rfl (.comment (.block rfl) trivial .nil))

end Interlace
