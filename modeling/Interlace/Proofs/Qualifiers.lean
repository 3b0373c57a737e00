import Interlace.Aspect.Template
import Interlace.Proofs.Folds
import Interlace.Text.Lemmas
import Mathlib.Logic.Basic

/-!
# Qualifiers of code

A text is made of qualifiers and of bytes between them. Renaming one qualifier replaces its
occurrences and leaves everything else as it is; renaming qualifiers one after the other replaces
them all at once, but by the names that the later steps make of the new ones.

## Key results

- `Text.Wordy.continues`: behind the start of a word, no identifier starts
- `Qualifier.pieces`: the qualifiers of a text, and what is between them
- `Qualifier.rename_eq`: renaming replaces the pieces that are the qualifier
- `Qualifier.rename_renameAll`: renaming what has been renamed
-/

namespace Interlace

namespace Text

variable {b : UInt8} {t u x : Text}

/-! ## Words -/

/-- A character that is read to its end is a byte that leads and bytes that continue it. -/
theorem exists_of_readPoint {point width : Nat} (h : readPoint b t = (some point, width)) :
    ∃ tail rest, t = tail ++ rest ∧ width = tail.length + 1 ∧ isContinuation b = false ∧
      (∀ c ∈ tail, isContinuation c = true) ∧ readPoint b tail = (some point, width) := by
  by_cases ascii : b < 0x80
  · refine ⟨[], t, rfl, ?_, ?_, nofun, ?_⟩
    · simp only [readPoint, ascii, if_true, Prod.mk.injEq] at h
      simp [← h.2]
    · simpa [isContinuation] using fun above => absurd above (UInt8.not_le.2 ascii)
    · simpa only [readPoint, ascii, if_true] using h
  · -- A byte that calls for more leads, and the bounds of the first of them make it continue.
    have leads : (demand b).1 ≠ 0 → isContinuation b = false := by
      intro more
      unfold demand at more
      by_cases low : b < 0xC2
      · simp [low] at more
      · simp only [isContinuation, Bool.and_eq_false_iff, decide_eq_false_iff_not]
        simp only [UInt8.lt_iff_toNat_lt, UInt8.le_iff_toNat_le, UInt8.toNat_ofNat] at low ⊢
        omega
    have bounds : 0x80 ≤ (demand b).2.1 ∧ (demand b).2.2 ≤ 0xBF ∨
        (demand b).2.2 < (demand b).2.1 := by
      unfold demand
      repeat' split
      all_goals decide
    have first : ∀ c, (demand b).2.1 ≤ c → c ≤ (demand b).2.2 → isContinuation c = true := by
      intro c above below
      simp only [isContinuation, Bool.and_eq_true, decide_eq_true_eq]
      simp only [UInt8.lt_iff_toNat_lt, UInt8.le_iff_toNat_le] at bounds above below ⊢
      omega
    unfold readPoint at h ⊢
    simp only [ascii, if_false] at h ⊢
    clear bounds
    generalize demand b = wanted at leads first h ⊢
    obtain ⟨n, low, high⟩ := wanted
    dsimp only at leads first h ⊢
    split at h
    · rename_i c rest
      refine ⟨[c], rest, rfl, ?_⟩
      grind
    · rename_i c d rest
      refine ⟨[c, d], rest, rfl, ?_⟩
      grind
    · rename_i c d e rest
      refine ⟨[c, d, e], rest, rfl, ?_⟩
      grind
    all_goals grind

/-- A character that words are made of, as it is written. -/
structure WritesWordChar (b : UInt8) (tail : Text) : Prop where
  leads : isContinuation b = false
  continued : ∀ c ∈ tail, isContinuation c = true
  read : ∃ point, readPoint b tail = (some point, tail.length + 1) ∧
    isWordChar (Char.ofNat point) = true

/-- Characters that words are made of, one after the other. -/
inductive Wordy : Text → Prop
  | nil : Wordy []
  | char {b : UInt8} {tail rest : Text} (first : WritesWordChar b tail) (others : Wordy rest) :
      Wordy (b :: (tail ++ rest))

/-- The text is a word: UTF-8, not empty, and without characters that words are not made of. -/
def isWord (t : Text) : Bool :=
  ! t.isEmpty && (illFormedAt? t).isNone && (chars t).all isWordChar

theorem charsFrom_append (offset : Nat) (s t : Text) :
    charsFrom offset s.length (s ++ t) = charsFrom (offset + s.length) 0 t := by
  induction s generalizing offset with
  | nil => rfl
  | cons b s ih =>
    rw [List.length_cons, List.cons_append, charsFrom, ih, Nat.add_right_comm, Nat.add_assoc]

theorem firstIllFormed_skipped (offset : Nat) (s t : Text) :
    firstIllFormed offset s.length (s ++ t) = firstIllFormed (offset + s.length) 0 t := by
  induction s generalizing offset with
  | nil => rfl
  | cons b s ih =>
    rw [List.length_cons, List.cons_append, firstIllFormed, ih, Nat.add_right_comm, Nat.add_assoc]

/-- A text is read character by character. -/
private theorem wordy_of_chars {offset : Nat} (wellFormed : firstIllFormed offset 0 t = none)
    (word : ∀ c ∈ charsFrom offset 0 t, isWordChar c.2 = true) : Wordy t := by
  -- The induction is on the length, since a character takes several bytes at once.
  induction long : t.length using Nat.strongRecOn generalizing t offset with
  | _ n ih =>
    cases t with
    | nil => exact .nil
    | cons b t =>
      rw [firstIllFormed] at wellFormed
      rw [charsFrom] at word
      rcases read : readPoint b t with ⟨_ | point, width⟩ <;> rw [read] at wellFormed word
      · cases wellFormed
      · obtain ⟨tail, rest, rfl, rfl, leads, continued, alone⟩ := exists_of_readPoint read
        dsimp only at wellFormed word
        rw [Nat.add_sub_cancel, firstIllFormed_skipped] at wellFormed
        rw [Nat.add_sub_cancel, charsFrom_append] at word
        obtain ⟨here, others⟩ := List.forall_mem_cons.1 word
        have shorter : rest.length < n := by
          simp only [List.length_cons, List.length_append] at long
          omega
        exact .char ⟨leads, continued, point, alone, here⟩ (ih _ shorter wellFormed others rfl)

theorem wordy_of_isWord (h : isWord t) : Wordy t := by
  obtain ⟨h, word⟩ := Bool.and_eq_true_iff.1 h
  have wellFormed := Option.isNone_iff_eq_none.1 (Bool.and_eq_true_iff.1 h).2
  refine wordy_of_chars wellFormed fun c hc => ?_
  exact List.all_eq_true.1 word c.2 (List.mem_map_of_mem hc)

theorem ne_nil_of_isWord (h : isWord t) : t ≠ [] := by
  rintro rfl
  cases h

theorem Wordy.append (ht : Wordy t) (hu : Wordy u) : Wordy (t ++ u) := by
  induction ht with
  | nil => exact hu
  | char first _ ih =>
    rw [List.cons_append, List.append_assoc]
    exact .char first ih

/-- There is no dot in a word. -/
theorem Wordy.dotless (h : Wordy t) : 0x2E ∉ t := by
  -- A dot is a character of its own, and no word character.
  induction h with
  | nil => exact List.not_mem_nil
  | @char b tail rest first _ ih =>
    intro dot
    rcases List.mem_cons.1 dot with rfl | dot
    · obtain ⟨point, read, word⟩ := first.read
      have ascii : readPoint 0x2E tail = (some 0x2E, 1) := rfl
      rw [ascii, Prod.mk.injEq] at read
      cases read.1
      exact absurd word (by decide)
    · rcases List.mem_append.1 dot with inside | behind
      · exact absurd (first.continued _ inside) (by decide)
      · exact ih behind

theorem Wordy.head?_continuation (h : Wordy t) : ∀ c ∈ t.head?, isContinuation c = false := by
  cases h with
  | nil => nofun
  | char first _ =>
    intro c hc
    cases hc
    exact first.leads

/-- The last character of what ends with a character. -/
theorem lastChar?_of_character {tail : Text} {point : Nat} (leads : isContinuation b = false)
    (continued : ∀ c ∈ tail, isContinuation c = true)
    (read : readPoint b tail = (some point, tail.length + 1)) (before : Text) :
    Qualifier.lastChar? (tail.reverse ++ b :: before) = some (Char.ofNat point) := by
  -- Read backwards, the continuation bytes lead to the first byte of the character.
  have run : (tail.reverse ++ b :: before).takeWhile isContinuation = tail.reverse := by
    rw [List.takeWhile_append_of_pos (by simpa using continued), List.takeWhile_cons_of_neg]
    · exact List.append_nil _
    · simp [leads]
  have read' : charsFrom 0 0 (b :: tail) = [(0, Char.ofNat point)] := by
    have passed : ∀ offset (t : Text), charsFrom offset t.length t = [] := by
      intro offset t
      induction t generalizing offset with
      | nil => rfl
      | cons c t ih => exact ih (offset + 1)
    rw [charsFrom, read]
    simp [passed]
  unfold Qualifier.lastChar?
  rw [run]
  simp [chars, charOffsets, read']

/-- Behind the start of a word, at a place where a character can start, no identifier starts. -/
theorem Wordy.continues (h : Wordy t) (before : Text) (split : t = u ++ x) (inside : u ≠ [])
    (start : ∀ c ∈ x.head?, isContinuation c = false) :
    Qualifier.continues (u.reverse ++ before) = true := by
  induction h generalizing u before with
  | nil => exact absurd (List.append_eq_nil_iff.1 split.symm).1 inside
  | @char b tail rest first others ih =>
    obtain ⟨_, u, rfl⟩ := List.exists_cons_of_ne_nil inside
    obtain ⟨rfl, behind⟩ := List.cons.inj split
    have ends : Qualifier.continues (tail.reverse ++ b :: before) = true := by
      obtain ⟨point, read, word⟩ := first.read
      rw [Qualifier.continues, lastChar?_of_character first.leads first.continued read]
      simp [word]
    -- The place is behind a character, or within one, where none can start.
    rcases List.append_eq_append_iff.1 behind with ⟨more, rfl, rfl⟩ | ⟨cut, rfl, rfl⟩
    · by_cases none_ : more = []
      · subst none_
        simpa using ends
      · have := ih (tail.reverse ++ b :: before) rfl none_
        simpa using this
    · cases cut with
      | nil => simpa using ends
      | cons c cut =>
        have stays := first.continued c (by simp)
        rw [start c rfl] at stays
        cases stays

end Text

namespace Qualifier

open Text

/-! ## The pieces of a text -/

theorem dot_eq : ofString "." = [0x2E] := rfl

/-- A piece of a text. -/
inductive Piece where
  | byte (b : UInt8)
  /-- An alias and the dot behind it. -/
  | qualifier (a : Text)
  deriving DecidableEq

/-- The text of a piece when aliases go by other names. -/
def Piece.render (name : Text → Text) : Piece → Text
  | byte b => [b]
  | qualifier a => name a ++ "."

/-- The text of pieces when aliases go by other names. -/
def renderAll (name : Text → Text) (pieces : List Piece) : Text :=
  pieces.flatMap (·.render name)

/-- The alias whose qualifier the text starts with. -/
def aliasAt? (aliases : List Text) (t : Text) : Option Text :=
  aliases.find? fun a => startsWith t (a ++ ".")

/-- The pieces of a text behind `before`, whose bytes are given from the last to the first, and
behind the first `skip` bytes. A qualifier starts where an identifier can. -/
def piecesFrom (aliases : List Text) : (before : Text) → (skip : Nat) → Text → List Piece
  | _, _, [] => []
  | before, skip + 1, b :: t => piecesFrom aliases (b :: before) skip t
  | before, 0, b :: t =>
    match if continues before then none else aliasAt? aliases (b :: t) with
    | some a => .qualifier a :: piecesFrom aliases (b :: before) a.length t
    | none => .byte b :: piecesFrom aliases (b :: before) 0 t

/-- The pieces of a text: the qualifiers of some aliases, and the bytes between them. -/
def pieces (aliases : List Text) (t : Text) : List Piece :=
  piecesFrom aliases [] 0 t

/-- The text with the qualifiers of all aliases renamed at once. -/
def renameAll (aliases : List Text) (name : Text → Text) (t : Text) : Text :=
  renderAll name (pieces aliases t)

variable {aliases : List Text} {a before rest t u x : Text} {b : UInt8} {name : Text → Text}

@[simp] theorem renderAll_nil : renderAll name [] = [] := rfl

@[simp] theorem renderAll_byte (ps : List Piece) :
    renderAll name (.byte b :: ps) = b :: renderAll name ps := rfl

@[simp] theorem renderAll_qualifier (ps : List Piece) :
    renderAll name (.qualifier a :: ps) = name a ++ 0x2E :: renderAll name ps := by
  show (name a ++ [0x2E]) ++ _ = _
  rw [List.append_assoc]
  rfl

/-! ## Reading pieces -/

/-- What stands before the first dot is told by a text. -/
theorem eq_of_append_dot {s t u v : Text} (hs : 0x2E ∉ s) (ht : 0x2E ∉ t)
    (same : s ++ 0x2E :: u = t ++ 0x2E :: v) : s = t := by
  induction s generalizing t with
  | nil =>
    cases t with
    | nil => rfl
    | cons c t =>
      obtain ⟨rfl, -⟩ := List.cons.inj same
      exact absurd List.mem_cons_self ht
  | cons c s ih =>
    cases t with
    | nil =>
      obtain ⟨rfl, -⟩ := List.cons.inj same
      exact absurd List.mem_cons_self hs
    | cons d t =>
      obtain ⟨rfl, behind⟩ := List.cons.inj same
      rw [ih (fun h => hs (List.mem_cons_of_mem _ h)) (fun h => ht (List.mem_cons_of_mem _ h))
        behind]

theorem startsWith_qualifier_iff : startsWith t (a ++ ".") ↔ ∃ rest, t = a ++ 0x2E :: rest := by
  rw [startsWith_iff]
  refine exists_congr fun rest => ?_
  show t = (a ++ [0x2E]) ++ rest ↔ _
  rw [List.append_assoc]
  rfl

private theorem piecesFrom_skip (aliases : List Text) (before u t : Text) :
    piecesFrom aliases before u.length (u ++ t) = piecesFrom aliases (u.reverse ++ before) 0 t := by
  induction u generalizing before with
  | nil => rfl
  | cons b u ih =>
    rw [List.length_cons, List.cons_append, piecesFrom, ih]
    simp

/-- All aliases are words. -/
def Words (aliases : List Text) : Prop :=
  ∀ a ∈ aliases, Wordy a ∧ a ≠ []

/-- Where an identifier can start, a qualifier is read. -/
private theorem piecesFrom_qualifier (words : Words aliases) (listed : a ∈ aliases)
    (free : continues before = false) (rest : Text) :
    piecesFrom aliases before 0 (a ++ 0x2E :: rest) =
      .qualifier a :: piecesFrom aliases (0x2E :: (a.reverse ++ before)) 0 rest := by
  -- Names have no dots, so no other of them fits up to the dot.
  have found : aliasAt? aliases (a ++ 0x2E :: rest) = some a := by
    cases hit : aliasAt? aliases (a ++ 0x2E :: rest) with
    | none =>
      have := List.find?_eq_none.1 hit a listed
      exact absurd (startsWith_qualifier_iff.2 ⟨rest, rfl⟩) (by simpa using this)
    | some other =>
      have starts : startsWith (a ++ 0x2E :: rest) (other ++ ".") = true := by
        simpa using List.find?_some hit
      obtain ⟨_, same⟩ := startsWith_qualifier_iff.1 starts
      have listed' := List.mem_of_find?_eq_some hit
      exact congrArg some (eq_of_append_dot (words other listed').1.dotless
        (words a listed).1.dotless same.symm)
  obtain ⟨b, u, rfl⟩ := List.exists_cons_of_ne_nil (words a listed).2
  rw [List.cons_append] at found ⊢
  rw [piecesFrom, free, found]
  have skipped := piecesFrom_skip aliases (b :: before) (u ++ [0x2E]) rest
  simp only [List.length_append, List.length_cons, List.length_nil, List.append_assoc,
    List.cons_append, List.nil_append, List.reverse_append, List.reverse_cons,
    List.reverse_nil] at skipped
  simp only [Bool.false_eq_true, if_false, List.length_cons, List.reverse_cons, List.append_assoc,
    List.cons_append, List.nil_append]
  rw [skipped]

/-- Anywhere else, a byte is read. -/
private theorem piecesFrom_byte (other : continues before = true ∨
    ∀ a ∈ aliases, ∀ rest, b :: t ≠ a ++ 0x2E :: rest) :
    piecesFrom aliases before 0 (b :: t) = .byte b :: piecesFrom aliases (b :: before) 0 t := by
  rw [piecesFrom]
  rcases other with inside | other
  · rw [inside]
    rfl
  · have missed : aliasAt? aliases (b :: t) = none := by
      refine List.find?_eq_none.2 fun a ha hit => ?_
      obtain ⟨rest, same⟩ := startsWith_qualifier_iff.1 hit
      exact other a ha rest same
    rw [missed, ite_self]

/-- A text is read as a qualifier or as a byte. -/
theorem piecesFrom_cases (words : Words aliases) (before : Text) (b : UInt8) (t : Text) :
    (∃ a ∈ aliases, ∃ rest, b :: t = a ++ 0x2E :: rest ∧ continues before = false ∧
      piecesFrom aliases before 0 (b :: t) =
        .qualifier a :: piecesFrom aliases (0x2E :: (a.reverse ++ before)) 0 rest) ∨
    ((continues before = true ∨ ∀ a ∈ aliases, ∀ rest, b :: t ≠ a ++ 0x2E :: rest) ∧
      piecesFrom aliases before 0 (b :: t) = .byte b :: piecesFrom aliases (b :: before) 0 t) := by
  by_cases other : continues before = true ∨ ∀ a ∈ aliases, ∀ rest, b :: t ≠ a ++ 0x2E :: rest
  · exact .inr ⟨other, piecesFrom_byte other⟩
  · obtain ⟨free, hit⟩ := not_or.1 other
    simp only [ne_eq, not_forall, not_not] at hit
    obtain ⟨a, listed, rest, same⟩ := hit
    have free := (Bool.not_eq_true _).mp free
    exact .inl ⟨a, listed, rest, same, free, same ▸ piecesFrom_qualifier words listed free rest⟩

/-- Behind the start of a word, or where no identifier starts, the rest of the word is read as
bytes, with its dot. -/
private theorem piecesFrom_word (words : Words aliases) {w : Text} (word : Wordy w)
    (split : w = u ++ x) (before : Text) (inside : u = [] → continues before = true) (rest : Text) :
    piecesFrom aliases (u.reverse ++ before) 0 (x ++ 0x2E :: rest) =
      x.map .byte ++ .byte 0x2E ::
        piecesFrom aliases (0x2E :: (w.reverse ++ before)) 0 rest := by
  have held (start : ∀ c ∈ x.head?, isContinuation c = false) :
      continues (u.reverse ++ before) = true := by
    by_cases none_ : u = []
    · simpa [none_] using inside none_
    · exact word.continues before split none_ start
  induction x generalizing u with
  | nil =>
    rw [List.nil_append, piecesFrom_byte (.inl (held nofun)), split]
    simp
  | cons c x ih =>
    have other : continues (u.reverse ++ before) = true ∨
        ∀ a ∈ aliases, ∀ r, c :: (x ++ 0x2E :: rest) ≠ a ++ 0x2E :: r := by
      by_cases tail : isContinuation c = true
      · -- In the middle of a character, no alias starts.
        refine .inr fun a ha r same => ?_
        obtain ⟨d, v, rfl⟩ := List.exists_cons_of_ne_nil (words a ha).2
        obtain ⟨rfl, -⟩ := List.cons.inj same
        rw [(words _ ha).1.head?_continuation c rfl] at tail
        cases tail
      · refine .inl (held fun d hd => ?_)
        cases hd
        exact (Bool.not_eq_true _).mp tail
    have next := ih (u := u ++ [c]) (by simpa using split) (by simp)
      fun start => word.continues before (by simpa using split) (by simp) start
    rw [List.cons_append, piecesFrom_byte other]
    simpa using next

/-! ## Renaming one qualifier -/

/-- The piece is a qualifier. -/
def Piece.isQualifier : Piece → Bool
  | byte _ => false
  | qualifier _ => true

private theorem renderAll_append (name : Text → Text) (ps qs : List Piece) :
    renderAll name (ps ++ qs) = renderAll name ps ++ renderAll name qs :=
  List.flatMap_append

private theorem renderAll_map_byte (name : Text → Text) (t : Text) :
    renderAll name (t.map .byte) = t := by
  induction t with
  | nil => rfl
  | cons b t ih => exact congrArg (b :: ·) ih

/-- A text is what its pieces say under their own names. -/
theorem renderAll_id (words : Words aliases) (before t : Text) :
    renderAll id (piecesFrom aliases before 0 t) = t := by
  -- The induction is on the length, since a qualifier takes several bytes at once.
  induction long : t.length using Nat.strongRecOn generalizing before t with
  | _ n ih =>
    cases t with
    | nil => rfl
    | cons b t =>
      rcases piecesFrom_cases words before b t with ⟨a, _, rest, same, -, eq⟩ | ⟨-, eq⟩
      · have shorter : rest.length < n := by
          rw [← long, same, List.length_append, List.length_cons]
          omega
        rw [eq, renderAll_qualifier, ih _ shorter _ _ rfl, same]
        rfl
      · rw [eq, renderAll_byte, ih _ (by simp [← long]) _ _ rfl]

private theorem renameFrom_skip (old new before u t : Text) :
    renameFrom old new before u.length (u ++ t) = renameFrom old new (u.reverse ++ before) 0 t := by
  induction u generalizing before with
  | nil => rfl
  | cons b u ih =>
    rw [List.length_cons, List.cons_append, renameFrom, ih]
    simp

theorem words_singleton (word : Wordy a) (given : a ≠ []) : Words [a] := by
  intro other listed
  cases List.mem_singleton.1 listed
  exact ⟨word, given⟩

/-- Renaming reads the pieces and replaces the qualifiers, and tells whether there are any. -/
theorem renameFrom_eq (word : Wordy a) (given : a ≠ []) (new before t : Text) :
    renameFrom (a ++ ".") (new ++ ".") before 0 t =
      (renderAll (fun _ => new) (piecesFrom [a] before 0 t),
        (piecesFrom [a] before 0 t).any Piece.isQualifier) := by
  have words := words_singleton word given
  induction long : t.length using Nat.strongRecOn generalizing before t with
  | _ n ih =>
    cases t with
    | nil => rfl
    | cons b t =>
      by_cases starts : startsWith (b :: t) (a ++ ".") = true
      · obtain ⟨rest, same⟩ := startsWith_qualifier_iff.1 starts
        have shorter : rest.length < n := by
          rw [← long, same, List.length_append, List.length_cons]
          omega
        have next : renameFrom (a ++ ".") (new ++ ".") (b :: before) ((a ++ ".").length - 1) t =
            renameFrom (a ++ ".") (new ++ ".") (0x2E :: (a.reverse ++ before)) 0 rest := by
          obtain ⟨c, u, rfl⟩ := List.exists_cons_of_ne_nil given
          obtain ⟨rfl, rfl⟩ := List.cons.inj same
          have skipped := renameFrom_skip (b :: u ++ ".") (new ++ ".") (b :: before) (u ++ [0x2E])
            rest
          simpa [dot_eq] using skipped
        rw [renameFrom, if_pos starts, next, ih _ shorter _ _ rfl]
        dsimp only
        rw [same]
        cases held : continues before with
        | true =>
          -- The qualifier stays, which is how its bytes are read.
          have kept := piecesFrom_word words word (x := a) (u := []) rfl before (fun _ => held) rest
          rw [List.reverse_nil, List.nil_append] at kept
          rw [kept, renderAll_append, renderAll_map_byte, List.any_append, List.any_map]
          simp [Function.comp_def, Piece.isQualifier, dot_eq]
        | false =>
          rw [piecesFrom_qualifier words List.mem_cons_self held]
          simp [Piece.isQualifier, dot_eq]
      · have other : ∀ c ∈ [a], ∀ rest, b :: t ≠ c ++ 0x2E :: rest := by
          intro c hc rest same
          cases List.mem_singleton.1 hc
          exact starts (startsWith_qualifier_iff.2 ⟨rest, same⟩)
        rw [renameFrom, if_neg starts, ih _ (by simp [← long]) _ _ rfl,
          piecesFrom_byte (.inr other)]
        rfl

/-- Only the names of the qualifiers matter. -/
theorem renderAll_congr {ps : List Piece} {name' : Text → Text}
    (same : ∀ a, .qualifier a ∈ ps → name a = name' a) :
    renderAll name ps = renderAll name' ps := by
  induction ps with
  | nil => rfl
  | cons p ps ih =>
    have rest := ih fun a ha => same a (List.mem_cons_of_mem p ha)
    cases p with
    | byte b => rw [renderAll_byte, renderAll_byte, rest]
    | qualifier a =>
      rw [renderAll_qualifier, renderAll_qualifier, rest, same a List.mem_cons_self]

/-- Qualifiers are those of the aliases. -/
theorem mem_of_mem_piecesFrom {skip : Nat} (h : .qualifier a ∈ piecesFrom aliases before skip t) :
    a ∈ aliases := by
  induction t generalizing before skip with
  | nil => cases h
  | cons b t ih =>
    cases skip with
    | succ skip => exact ih h
    | zero =>
      rw [piecesFrom] at h
      split at h
      · rename_i found
        -- A qualifier is read only where one of the aliases was found.
        split at found
        · cases found
        · rcases List.mem_cons.1 h with eq | h
          · cases eq
            exact List.mem_of_find?_eq_some found
          · exact ih h
      · rcases List.mem_cons.1 h with eq | h
        · cases eq
        · exact ih h

/-- Renaming a qualifier replaces the pieces that are the qualifier. -/
theorem rename_eq (word : Wordy a) (given : a ≠ []) (t new : Text) :
    rename t a new = renameAll [a] (fun _ => new) t := by
  have same := renderAll_id (words_singleton word given) [] t
  unfold rename rename? renameAll pieces
  split
  · -- A qualifier that keeps its name.
    rename_i kept
    refine same.symm.trans (renderAll_congr fun other listed => ?_)
    exact (List.mem_singleton.1 (mem_of_mem_piecesFrom listed)).trans kept
  · rw [renameFrom_eq word given]
    cases found : (piecesFrom [a] [] 0 t).any Piece.isQualifier with
    | true => rfl
    | false =>
      refine same.symm.trans (renderAll_congr fun other listed => ?_)
      exact absurd (List.any_eq_false.1 found _ listed) (by simp [Piece.isQualifier])

/-! ## Renaming what has been renamed -/

/-- Two texts, given from the last byte to the first, agree on whether an identifier can follow, and
on what follows a common continuation of them. -/
def EndAlike (before before' : Text) : Prop :=
  before = before' ∨ ∃ p u u', before = p ++ 0x2E :: u ∧ before' = p ++ 0x2E :: u'

theorem EndAlike.cons {before' : Text} (h : EndAlike before before') (b : UInt8) :
    EndAlike (b :: before) (b :: before') := by
  rcases h with rfl | ⟨p, u, u', rfl, rfl⟩
  · exact .inl rfl
  · exact .inr ⟨b :: p, u, u', rfl, rfl⟩

private theorem endAlike_dot (u u' : Text) : EndAlike (0x2E :: u) (0x2E :: u') :=
  .inr ⟨[], u, u', rfl, rfl⟩

/-- A dot is a character, whatever stands before it. -/
private theorem lastChar?_dot (p u u' : Text) :
    lastChar? (p ++ 0x2E :: u) = lastChar? (p ++ 0x2E :: u') := by
  -- The dot stops the search for the start of the character.
  have run (u : Text) : (p ++ 0x2E :: u).takeWhile isContinuation = p.takeWhile isContinuation := by
    rw [List.takeWhile_append, List.takeWhile_cons_of_neg (by decide), List.append_nil]
    split
    · rename_i whole
      exact (List.takeWhile_prefix _).eq_of_length whole |>.symm
    · rfl
  have rest (u : Text) : (p ++ 0x2E :: u).drop (p.takeWhile isContinuation).length =
      p.dropWhile isContinuation ++ 0x2E :: u := by
    have whole : p ++ 0x2E :: u =
        p.takeWhile isContinuation ++ (p.dropWhile isContinuation ++ 0x2E :: u) := by
      rw [← List.append_assoc, List.takeWhile_append_dropWhile]
    rw [whole, List.drop_left]
  unfold lastChar?
  simp only [run, rest, List.length_reverse]
  cases p.dropWhile isContinuation <;> rfl

theorem EndAlike.continues {before' : Text} (h : EndAlike before before') :
    continues before = continues before' := by
  rcases h with rfl | ⟨p, u, u', rfl, rfl⟩
  · rfl
  · rw [Qualifier.continues, Qualifier.continues, lastChar?_dot]

/-- A word that is no alias is read as bytes, with its dot. -/
private theorem piecesFrom_other (words : Words aliases) {w : Text} (word : Wordy w)
    (given : w ≠ []) (other : w ∉ aliases) (before rest : Text) :
    piecesFrom aliases before 0 (w ++ 0x2E :: rest) =
      w.map .byte ++ .byte 0x2E ::
        piecesFrom aliases (0x2E :: (w.reverse ++ before)) 0 rest := by
  have missed : ∀ a ∈ aliases, ∀ r, w ++ 0x2E :: rest ≠ a ++ 0x2E :: r := by
    intro a ha r same
    exact other (eq_of_append_dot word.dotless (words a ha).1.dotless same ▸ ha)
  obtain ⟨b, x, rfl⟩ := List.exists_cons_of_ne_nil given
  have next := piecesFrom_word words word (u := [b]) (x := x) rfl before nofun rest
  rw [List.cons_append, piecesFrom_byte (t := x ++ 0x2E :: rest) (.inr missed)]
  simpa using next

/-- Names are given to aliases by words. -/
def Names (aliases : List Text) (name : Text → Text) : Prop :=
  ∀ a ∈ aliases, Wordy (name a) ∧ name a ≠ []

/-- Behind the start of a word, renaming makes no rest of the word that was not there. -/
private theorem starts_of_renderAll (words : Words aliases) (names : Names aliases name) {w : Text}
    (word : Wordy w) (split : w = u ++ x) (inside : u ≠ []) {r : Text}
    (h : renderAll name (piecesFrom aliases (u.reverse ++ before) 0 t) = x ++ 0x2E :: r) :
    ∃ rest, t = x ++ 0x2E :: rest := by
  -- The rest of the word is compared byte by byte; in a word no qualifier starts.
  induction x generalizing u t with
  | nil =>
    cases t with
    | nil => cases h
    | cons b t =>
      rw [piecesFrom_byte (.inl (word.continues before split inside nofun)), renderAll_byte] at h
      obtain ⟨rfl, -⟩ := List.cons.inj h
      exact ⟨t, rfl⟩
  | cons c x ih =>
    cases t with
    | nil => cases h
    | cons b t =>
      rcases piecesFrom_cases words (u.reverse ++ before) b t with
        ⟨a, listed, rest, -, free, eq⟩ | ⟨-, eq⟩
      · -- A new name starts a character, and in a word no identifier follows a character.
        rw [eq, renderAll_qualifier] at h
        have start : isContinuation c = false := by
          obtain ⟨d, v, found⟩ := List.exists_cons_of_ne_nil (names a listed).2
          have leads := (names a listed).1.head?_continuation
          rw [found] at h leads
          obtain ⟨rfl, -⟩ := List.cons.inj h
          exact leads d rfl
        rw [word.continues before split inside fun d hd => by cases hd; exact start] at free
        cases free
      · rw [eq, renderAll_byte] at h
        obtain ⟨rfl, h⟩ := List.cons.inj h
        obtain ⟨rest, rfl⟩ := ih (u := u ++ [b]) (t := t) (by simpa using split) (by simp)
          (by simpa using h)
        exact ⟨rest, rfl⟩

/-- The names after one more renaming. -/
def thenRename (name : Text → Text) (a new k : Text) : Text :=
  if name k = a then new else name k

/-- Renaming a qualifier where others have been renamed renames all of them at once; a qualifier
that has become the one that is renamed goes along. -/
private theorem renderAll_piecesFrom_renderAll (words : Words aliases) (names : Names aliases name)
    (word : Wordy a) (given : a ≠ []) (unlisted : a ∉ aliases) (kept : name a = a) (new : Text)
    {before' : Text} (alike : EndAlike before before') (t : Text) :
    renderAll (fun _ => new)
        (piecesFrom [a] before' 0 (renderAll name (piecesFrom aliases before 0 t))) =
      renderAll (thenRename name a new) (piecesFrom (aliases ++ [a]) before 0 t) := by
  have alone := words_singleton word given
  have all : Words (aliases ++ [a]) := List.forall_mem_append.2 ⟨words, alone⟩
  induction long : t.length using Nat.strongRecOn generalizing before before' t with
  | _ n ih =>
    cases t with
    | nil => rfl
    | cons b t =>
      have shorter {k rest : Text} (same : b :: t = k ++ 0x2E :: rest) : rest.length < n := by
        rw [← long, same, List.length_append, List.length_cons]
        omega
      rcases piecesFrom_cases words before b t with ⟨k, listed, rest, same, free, eq⟩ | ⟨other, eq⟩
      · have next := fun v => ih _ (shorter same)
          (endAlike_dot (k.reverse ++ before) (v ++ before')) rest rfl
        have both := piecesFrom_qualifier all (List.mem_append_left [a] listed) free rest
        rw [eq, same, both, renderAll_qualifier, renderAll_qualifier, thenRename]
        rw [alike.continues] at free
        -- What the earlier qualifier has become may be the one that is renamed now.
        by_cases renamed : name k = a
        · rw [if_pos renamed, renamed, piecesFrom_qualifier alone List.mem_cons_self free,
            renderAll_qualifier, next]
        · have bytes := piecesFrom_other alone (names k listed).1 (names k listed).2
            (fun h => renamed (List.mem_singleton.1 h)) before'
          rw [if_neg renamed, bytes, renderAll_append, renderAll_map_byte,
            renderAll_byte, next]
      · by_cases here : continues before = false ∧ ∃ rest, b :: t = a ++ 0x2E :: rest
        · obtain ⟨free, rest, same⟩ := here
          have next := ih _ (shorter same)
            (endAlike_dot (a.reverse ++ before) (a.reverse ++ before')) rest rfl
          have bytes := piecesFrom_other words word given unlisted before rest
          have both := piecesFrom_qualifier all
            (List.mem_append_right aliases List.mem_cons_self) free rest
          rw [alike.continues] at free
          rw [same, bytes, both, renderAll_append, renderAll_map_byte, renderAll_byte,
            piecesFrom_qualifier alone List.mem_cons_self free, renderAll_qualifier,
            renderAll_qualifier, next, thenRename, if_pos kept]
        · have stays : continues before = true ∨
              ∀ k ∈ aliases ++ [a], ∀ rest, b :: t ≠ k ++ 0x2E :: rest := by
            rcases other with inside | other
            · exact .inl inside
            · cases held : continues before with
              | true => exact .inl rfl
              | false =>
                refine .inr (List.forall_mem_append.2 ⟨other, fun k hk rest same => ?_⟩)
                cases List.mem_singleton.1 hk
                exact here ⟨held, rest, same⟩
          -- Nor does the qualifier start here once what follows is renamed.
          have stays' : continues before' = true ∨ ∀ k ∈ [a], ∀ rest,
              b :: renderAll name (piecesFrom aliases (b :: before) 0 t) ≠ k ++ 0x2E :: rest := by
            cases held : continues before' with
            | true => exact .inl rfl
            | false =>
              refine .inr fun k hk r same => ?_
              cases List.mem_singleton.1 hk
              obtain ⟨c, x, rfl⟩ := List.exists_cons_of_ne_nil given
              obtain ⟨rfl, behind⟩ := List.cons.inj same
              obtain ⟨rest, rfl⟩ := starts_of_renderAll words names word (u := [b]) (x := x)
                rfl nofun behind
              exact here ⟨alike.continues.trans held, rest, rfl⟩
          rw [eq, renderAll_byte, piecesFrom_byte stays, piecesFrom_byte stays', renderAll_byte,
            renderAll_byte, ih _ (by simp [← long]) (alike.cons b) t rfl]

/-- Renaming a qualifier where others have been renamed renames all of them at once. -/
theorem rename_renameAll (words : Words aliases) (names : Names aliases name) (word : Wordy a)
    (given : a ≠ []) (unlisted : a ∉ aliases) (kept : name a = a) (t new : Text) :
    rename (renameAll aliases name t) a new =
      renameAll (aliases ++ [a]) (thenRename name a new) t := by
  rw [rename_eq word given]
  exact renderAll_piecesFrom_renderAll words names word given unlisted kept new (.inl rfl) t

/-! ## Renaming one after the other -/

/-- The text with qualifiers renamed one after the other. -/
def renameEach (t : Text) (renamings : List (Text × Text)) : Text :=
  renamings.foldl (fun t e => rename t e.1 e.2) t

/-- The name that renamings make of a name one after the other. -/
def settle (renamings : List (Text × Text)) (name : Text) : Text :=
  renamings.foldl (fun name e => if name = e.1 then e.2 else name) name

/-- A name is left alone by renamings of other names, and by those that give it back. -/
theorem settle_eq_self {renamings : List (Text × Text)}
    (left : ∀ e ∈ renamings, x = e.1 → e.2 = x) : settle renamings x = x := by
  refine foldl_keeps (K := fun y : Text => y = x) (fun y e listed kept => ?_) rfl
  subst kept
  split
  · rename_i same
    exact left e listed same
  · rfl

/-- An alias that is renamed once goes by what the later renamings make of its name. -/
theorem settle_alias {earlier later : List (Text × Text)} (once : x ∉ earlier.map Prod.fst)
    (new : Text) : settle (earlier ++ (x, new) :: later) x = settle later new := by
  have before : settle earlier x = x :=
    settle_eq_self fun e listed same => absurd (same ▸ List.mem_map_of_mem listed) once
  unfold settle at before ⊢
  rw [List.foldl_append, before, List.foldl_cons, if_pos rfl]

theorem Words.settle {renamings : List (Text × Text)} (words : Words (renamings.map Prod.snd))
    (word : Wordy x) (given : x ≠ []) :
    Wordy (Qualifier.settle renamings x) ∧ Qualifier.settle renamings x ≠ [] := by
  refine foldl_keeps (K := fun x : Text => Wordy x ∧ x ≠ []) (fun x e listed kept => ?_)
    ⟨word, given⟩
  split
  · exact words e.2 (List.mem_map_of_mem listed)
  · exact kept

/-- One more renaming gives a name to each of the qualifiers that were renamed, and to its own. -/
theorem Names.thenRename (names : Names aliases name) (kept : name a = a) (word : Wordy new)
    (given : new ≠ []) : Names (aliases ++ [a]) (Qualifier.thenRename name a new) := by
  intro k listed
  unfold Qualifier.thenRename
  split
  · exact ⟨word, given⟩
  · rename_i other
    rcases List.mem_append.1 listed with before | here
    · exact names k before
    · cases List.mem_singleton.1 here
      exact absurd kept other

/-- One more renaming leaves alone what neither it nor the others are for. -/
private theorem thenRename_eq_self (kept : ∀ k ∉ aliases, name k = k) (new : Text) :
    ∀ k ∉ aliases ++ [a], thenRename name a new k = k := by
  intro k outside
  have outside := not_or.1 fun h => outside (List.mem_append.2 h)
  rw [thenRename, kept k outside.1, if_neg]
  rintro rfl
  exact outside.2 List.mem_cons_self

/-- Where qualifiers have been renamed all at once, renaming others one after the other renames
these at once with them. -/
private theorem renameEach_renameAll {rest : List (Text × Text)} (words : Words aliases)
    (names : Names aliases name) (kept : ∀ k ∉ aliases, name k = k)
    (words' : Words (rest.map Prod.fst)) (new : Words (rest.map Prod.snd))
    (distinct : (aliases ++ rest.map Prod.fst).Nodup) (t : Text) :
    renameEach (renameAll aliases name t) rest =
      renameAll (aliases ++ rest.map Prod.fst) (fun k => settle rest (name k)) t := by
  induction rest generalizing aliases name with
  | nil =>
    rw [List.map_nil, List.append_nil]
    rfl
  | cons e rest ih =>
    obtain ⟨⟨word, given⟩, others⟩ := List.forall_mem_cons.1 words'
    obtain ⟨⟨word', given'⟩, news⟩ := List.forall_mem_cons.1 new
    have unlisted : e.1 ∉ aliases := by
      intro listed
      exact (List.nodup_append.1 distinct).2.2 _ listed _ List.mem_cons_self rfl
    have all : Words (aliases ++ [e.1]) :=
      List.forall_mem_append.2 ⟨words, words_singleton word given⟩
    have named := names.thenRename (kept _ unlisted) word' given'
    have still := thenRename_eq_self (a := e.1) kept e.2
    -- The first renaming is done, and now counts among those that were.
    show renameEach (rename (renameAll aliases name t) e.1 e.2) rest = _
    rw [rename_renameAll words names word given unlisted (kept _ unlisted)]
    have next := ih all named still others news (by simpa using distinct)
    simpa [settle, thenRename] using next

/-- Renaming qualifiers one after the other renames them all at once, each by the name that its own
renaming and the later ones make of it. -/
theorem renameEach_eq {renamings : List (Text × Text)}
    (words : Words (renamings.map Prod.fst)) (new : Words (renamings.map Prod.snd))
    (distinct : (renamings.map Prod.fst).Nodup) (t : Text) :
    renameEach t renamings = renameAll (renamings.map Prod.fst) (settle renamings) t := by
  have nothing : Words [] := nofun
  have unnamed : Names [] id := nofun
  have whole : renameAll [] id t = t := renderAll_id nothing [] t
  have all := renameEach_renameAll nothing unnamed (fun _ _ => rfl) words new
    (by simpa using distinct) t
  rwa [whole] at all

/-- Names keep dots out, so a text tells the names that its qualifiers were given. -/
theorem renderAll_eq_iff {name' : Text → Text} {ps : List Piece}
    (dotless : ∀ a, .qualifier a ∈ ps → 0x2E ∉ name a ∧ 0x2E ∉ name' a) :
    renderAll name ps = renderAll name' ps ↔ ∀ a, .qualifier a ∈ ps → name a = name' a := by
  refine ⟨fun same => ?_, renderAll_congr⟩
  induction ps with
  | nil => nofun
  | cons p ps ih =>
    have rest := ih fun a ha => dotless a (List.mem_cons_of_mem p ha)
    intro a listed
    -- Bytes are the same in both texts; a name ends at its dot in both.
    cases p with
    | byte b =>
      rw [renderAll_byte, renderAll_byte] at same
      rcases List.mem_cons.1 listed with eq | later
      · cases eq
      · exact rest (List.cons.inj same).2 a later
    | qualifier k =>
      obtain ⟨clean, clean'⟩ := dotless k List.mem_cons_self
      rw [renderAll_qualifier, renderAll_qualifier] at same
      have names := eq_of_append_dot clean clean' same
      rw [names] at same
      rcases List.mem_cons.1 listed with eq | later
      · cases eq
        exact names
      · exact rest (List.cons.inj (List.append_cancel_left same)).2 a later

end Qualifier

end Interlace
