import Interlace.Proofs.CharacterCuts
import Interlace.Proofs.Qualifiers

/-!
# Where a qualifier is renamed

A qualifier stands where its name and a dot follow a character that is neither part of a word nor a
dot, or nothing. Renaming cuts a text at these places and puts the new name in. The new name stands
at the same places then and at no others, so renaming it back gives the text, unless it stood
somewhere before.

## Key results

- `Text.WellFormed.lastChar?_reverse`: the last character, read from the end of a text
- `Qualifier.exists_piecesFrom_iff_stands`: the qualifiers among the pieces are those that stand
- `Qualifier.cutAt_parts`: the parts between the pieces that are qualifiers
- `Qualifier.rename?_reversible`: what renaming replaces, and when it can be undone
-/

namespace Interlace

namespace Text

/-- A text that goes on ends with a character. -/
private theorem exists_last_of_wellFormed {t : Text} {offset : Nat} (given : t ≠ [])
    (utf8 : firstIllFormed offset 0 t = none) :
    ∃ front b tail point, t = front ++ b :: tail ∧ isContinuation b = false ∧
      (∀ c ∈ tail, isContinuation c = true) ∧
      readPoint b tail = (some point, tail.length + 1) ∧
      ((charsFrom offset 0 t).map Prod.snd).getLast? = some (Char.ofNat point) := by
  induction long : t.length using Nat.strongRecOn generalizing t offset with
  | _ n ih =>
    obtain ⟨b, t, rfl⟩ := List.exists_cons_of_ne_nil given
    rw [firstIllFormed] at utf8
    rw [charsFrom]
    rcases read : readPoint b t with ⟨_ | point, width⟩ <;> rw [read] at utf8
    · cases utf8
    · obtain ⟨tail, rest, rfl, rfl, leads, continued, alone⟩ := exists_of_readPoint read
      dsimp only at utf8 ⊢
      rw [Nat.add_sub_cancel, firstIllFormed_skipped] at utf8
      rw [Nat.add_sub_cancel, charsFrom_append]
      -- The character is the last, or there is one in what follows it.
      by_cases last : rest = []
      · subst last
        exact ⟨[], b, tail, point, by simp, leads, continued, alone, rfl⟩
      · have shorter : rest.length < n := by
          simp only [List.length_cons, List.length_append] at long
          omega
        obtain ⟨front, c, tail', point', rfl, leads', continued', alone', ends⟩ :=
          ih _ shorter last utf8 rfl
        refine ⟨b :: (tail ++ front), c, tail', point', by simp, leads', continued', alone', ?_⟩
        rw [List.map_cons, List.getLast?_cons, ends]
        rfl

/-- The last character is read from the end of a text. -/
theorem WellFormed.lastChar?_reverse {t : Text} (utf8 : t.WellFormed) :
    Qualifier.lastChar? t.reverse = (chars t).getLast? := by
  by_cases given : t = []
  · subst given
    rfl
  · obtain ⟨front, b, tail, point, rfl, leads, continued, alone, last⟩ :=
      exists_last_of_wellFormed given utf8
    rw [List.reverse_append, List.reverse_cons, List.append_assoc, List.singleton_append]
    exact (lastChar?_of_character leads continued alone _).trans last.symm

end Text

namespace Qualifier

open Text

/-! ## Places -/

/-- An identifier can start behind the text: it ends neither with a character of a word nor with
a dot. -/
def Free (before : Text) : Prop :=
  ∀ c ∈ (chars before).getLast?, isWordChar c = false ∧ c ≠ '.'

/-- A qualifier stands in a text behind one part and before another. -/
def Stands (a t before behind : Text) : Prop :=
  t = before ++ (a ++ "." ++ behind) ∧ Free before

/-- The parts of a text that is cut where a qualifier stands, and nowhere else. -/
structure CutAt (a t : Text) (parts : List Text) : Prop where
  given : parts ≠ []
  whole : join (a ++ ".") parts = t
  places : ∀ before behind, Stands a t before behind ↔
    ∃ us vs, us ≠ [] ∧ vs ≠ [] ∧ parts = us ++ vs ∧
      join (a ++ ".") us = before ∧ join (a ++ ".") vs = behind

variable {aliases : List Text} {a front t u v : Text}

theorem continues_reverse_iff (utf8 : t.WellFormed) : continues t.reverse = false ↔ Free t := by
  rw [continues, utf8.lastChar?_reverse, Free]
  cases (chars t).getLast? <;> simp

theorem stands_iff (utf8 : t.WellFormed) (word : Wordy a) (given : a ≠ []) :
    Stands a t u v ↔ t = u ++ (a ++ 0x2E :: v) ∧ continues u.reverse = false := by
  have dot : a ++ "." ++ v = a ++ 0x2E :: v := by
    rw [dot_eq, List.append_assoc]
    rfl
  rw [Stands, dot]
  refine and_congr_right fun whole => ?_
  have starts : WrapPattern.StartsWhole (a ++ 0x2E :: v) := by
    intro b hb
    refine word.head?_continuation b ?_
    rwa [List.head?_append_of_ne_nil _ given] at hb
  subst whole
  exact (continues_reverse_iff ((wellFormed_append_iff starts).1 utf8).1).symm

/-- Where an alias stands, its qualifier is read. -/
private theorem exists_piecesFrom_of_stands (words : Words aliases) (listed : a ∈ aliases)
    (whole : t = u ++ (a ++ 0x2E :: v)) (free : continues (u.reverse ++ front) = false) :
    ∃ ps qs, piecesFrom aliases front 0 t = ps ++ .qualifier a :: qs ∧
      renderAll id ps = u ∧ renderAll id qs = v := by
  induction long : t.length using Nat.strongRecOn generalizing t u front with
  | _ n ih =>
    cases t with
    | nil => simp at whole
    | cons b t =>
      rcases piecesFrom_cases words front b t with ⟨k, known, rest, same, -, eq⟩ | ⟨other, eq⟩
      · have shorter : rest.length < n := by
          rw [← long, same, List.length_append, List.length_cons]
          omega
        rcases List.append_eq_append_iff.1 (same.symm.trans whole) with
          ⟨x, rfl, behind⟩ | ⟨x, rfl, behind⟩
        · cases x with
          | nil =>
            -- A name does not start with a dot.
            obtain ⟨c, w, rfl⟩ := List.exists_cons_of_ne_nil (words a listed).2
            obtain ⟨rfl, -⟩ := List.cons.inj behind
            exact absurd List.mem_cons_self (words _ listed).1.dotless
          | cons c x =>
            obtain ⟨rfl, rest_eq⟩ := List.cons.inj behind
            have still : continues (x.reverse ++ 0x2E :: (k.reverse ++ front)) = false := by
              simpa using free
            obtain ⟨ps, qs, split, rfl, rfl⟩ := ih _ shorter rest_eq still rfl
            exact ⟨.qualifier k :: ps, qs, by rw [eq, split]; rfl, by simp, rfl⟩
        · -- The name that is read has the other one at its end; so it is the other one.
          have dotless := (words _ known).1.dotless
          have ends := eq_of_append_dot (words a listed).1.dotless
            (fun h => dotless (List.mem_append_right u h)) behind
          subst ends
          obtain rfl := (List.cons.inj (List.append_cancel_left behind)).2
          by_cases first : u = []
          · subst first
            exact ⟨[], _, eq, rfl, renderAll_id words _ _⟩
          · rw [(words _ known).1.continues front rfl first
              (words a listed).1.head?_continuation] at free
            cases free
      · cases u with
        | nil =>
          rcases other with inside | other
          · rw [List.reverse_nil, List.nil_append, inside] at free
            cases free
          · exact absurd whole (other a listed v)
        | cons c u =>
          obtain ⟨rfl, behind⟩ := List.cons.inj whole
          have still : continues (u.reverse ++ b :: front) = false := by simpa using free
          obtain ⟨ps, qs, split, rfl, rfl⟩ := ih _ (by simp [← long]) behind still rfl
          exact ⟨.byte b :: ps, qs, by rw [eq, split]; rfl, rfl, rfl⟩

/-- Where a qualifier is read, its alias stands. -/
private theorem stands_of_piecesFrom (words : Words aliases) {ps qs : List Piece}
    (split : piecesFrom aliases front 0 t = ps ++ .qualifier a :: qs) :
    a ∈ aliases ∧ t = renderAll id ps ++ (a ++ 0x2E :: renderAll id qs) ∧
      continues ((renderAll id ps).reverse ++ front) = false := by
  -- The induction is on the length, since a qualifier takes several bytes at once.
  induction long : t.length using Nat.strongRecOn generalizing t ps front with
  | _ n ih =>
    cases t with
    | nil => simp [piecesFrom] at split
    | cons b t =>
      rcases piecesFrom_cases words front b t with ⟨k, known, rest, same, free, eq⟩ | ⟨-, eq⟩
      · -- A qualifier is read here: it is the one asked for, or one before that.
        have shorter : rest.length < n := by
          rw [← long, same, List.length_append, List.length_cons]
          omega
        rw [eq] at split
        cases ps with
        | nil =>
          obtain ⟨first, rfl⟩ := List.cons.inj split
          cases first
          rw [renderAll_id words]
          exact ⟨known, same, free⟩
        | cons p ps =>
          obtain ⟨rfl, behind⟩ := List.cons.inj split
          obtain ⟨listed, whole, free⟩ := ih _ shorter behind rfl
          refine ⟨listed, ?_, by simpa using free⟩
          rw [same, whole]
          simp
      · -- A byte is read here, which is no qualifier.
        rw [eq] at split
        cases ps with
        | nil => cases (List.cons.inj split).1
        | cons p ps =>
          obtain ⟨rfl, behind⟩ := List.cons.inj split
          obtain ⟨listed, whole, free⟩ := ih _ (by simp [← long]) behind rfl
          refine ⟨listed, ?_, by simpa using free⟩
          rw [renderAll_byte, List.cons_append, ← whole]

/-- The qualifiers among the pieces of a text are those that stand in it. -/
theorem exists_piecesFrom_iff_stands (utf8 : t.WellFormed) (words : Words aliases)
    (listed : a ∈ aliases) : Stands a t u v ↔
      ∃ ps qs, pieces aliases t = ps ++ .qualifier a :: qs ∧ renderAll id ps = u ∧
        renderAll id qs = v := by
  rw [stands_iff utf8 (words a listed).1 (words a listed).2]
  constructor
  · rintro ⟨whole, free⟩
    exact exists_piecesFrom_of_stands words listed whole (by rwa [List.append_nil])
  · rintro ⟨ps, qs, split, rfl, rfl⟩
    obtain ⟨-, whole, free⟩ := stands_of_piecesFrom words split
    exact ⟨whole, by rwa [List.append_nil] at free⟩

/-! ## Parts -/

/-- What is between the qualifiers. -/
def parts : List Piece → List Text
  | [] => [[]]
  | .byte b :: ps => (parts ps).modifyHead (b :: ·)
  | .qualifier _ :: ps => [] :: parts ps

private theorem exists_parts_eq_cons (ps : List Piece) : ∃ p rest, parts ps = p :: rest := by
  induction ps with
  | nil => exact ⟨[], [], rfl⟩
  | cons piece ps ih =>
    cases piece with
    | byte b =>
      obtain ⟨p, rest, eq⟩ := ih
      exact ⟨b :: p, rest, by rw [parts, eq]; rfl⟩
    | qualifier a => exact ⟨[], parts ps, rfl⟩

/-- The parts with a name between them are the pieces by that name. -/
private theorem join_parts (name : Text) (ps : List Piece) :
    join (name ++ ".") (parts ps) = renderAll (fun _ => name) ps := by
  induction ps with
  | nil => rfl
  | cons piece ps ih =>
    obtain ⟨p, rest, eq⟩ := exists_parts_eq_cons ps
    rw [eq, join_cons] at ih
    cases piece with
    | byte b => rw [parts, eq, List.modifyHead_cons, join_cons, renderAll_byte, ← ih]; rfl
    | qualifier a =>
      rw [parts, eq, join_cons, renderAll_qualifier, ← ih, List.flatMap_cons, dot_eq]
      simp

private theorem parts_append (ps qs : List Piece) :
    parts (ps ++ .qualifier a :: qs) = parts ps ++ parts qs := by
  induction ps with
  | nil => rfl
  | cons piece ps ih =>
    cases piece with
    | byte b =>
      obtain ⟨p, rest, eq⟩ := exists_parts_eq_cons ps
      rw [List.cons_append, parts, parts, ih, eq]
      rfl
    | qualifier k => rw [List.cons_append, parts, parts, ih, List.cons_append]

/-- Between two parts there is a qualifier. -/
private theorem exists_of_parts_eq_append {ps : List Piece} {us vs : List Text} (hu : us ≠ [])
    (hv : vs ≠ []) (split : parts ps = us ++ vs) :
    ∃ front a back, ps = front ++ .qualifier a :: back ∧ parts front = us ∧ parts back = vs := by
  induction ps generalizing us with
  | nil =>
    obtain ⟨u, us, rfl⟩ := List.exists_cons_of_ne_nil hu
    exact absurd (List.append_eq_nil_iff.1 (List.cons.inj split).2.symm).2 hv
  | cons piece ps ih =>
    obtain ⟨u, us, rfl⟩ := List.exists_cons_of_ne_nil hu
    -- A byte goes to the first part; a qualifier ends it.
    cases piece with
    | byte b =>
      obtain ⟨p, rest, eq⟩ := exists_parts_eq_cons ps
      rw [parts, eq] at split
      obtain ⟨rfl, rfl⟩ := List.cons.inj split
      obtain ⟨front, a, back, rfl, first, last⟩ := ih (List.cons_ne_nil p us) eq
      exact ⟨.byte b :: front, a, back, rfl, by rw [parts, first]; rfl, last⟩
    | qualifier k =>
      obtain ⟨rfl, behind⟩ := List.cons.inj split
      by_cases here : us = []
      · subst here
        exact ⟨[], k, ps, rfl, rfl, behind⟩
      · obtain ⟨front, a, back, rfl, first, last⟩ := ih here behind
        exact ⟨.qualifier k :: front, a, back, rfl, by rw [parts, first], last⟩

/-- There is one part if there is no qualifier. -/
theorem length_parts_eq_one_iff (ps : List Piece) :
    (parts ps).length = 1 ↔ ps.any Piece.isQualifier = false := by
  have counted : (parts ps).length = ps.countP Piece.isQualifier + 1 := by
    induction ps with
    | nil => rfl
    | cons piece ps ih => cases piece <;> simp [parts, ih, List.countP_cons, Piece.isQualifier]
  rw [counted, Nat.add_eq_right, List.countP_eq_zero, List.any_eq_false]

/-- The parts between the pieces that are qualifiers. -/
theorem cutAt_parts (utf8 : t.WellFormed) (word : Wordy a) (given : a ≠ []) :
    CutAt a t (parts (pieces [a] t)) := by
  have words := words_singleton word given
  -- All qualifiers among the pieces are this one, so they go by their name.
  have named {ps : List Piece} (within : ps ⊆ pieces [a] t) :
      join (a ++ ".") (parts ps) = renderAll id ps := by
    rw [join_parts]
    refine renderAll_congr fun k listed => ?_
    exact (List.mem_singleton.1 (mem_of_mem_piecesFrom (within listed))).symm
  have within {ps qs : List Piece} {k : Text} (split : pieces [a] t = ps ++ .qualifier k :: qs) :
      join (a ++ ".") (parts ps) = renderAll id ps ∧
        join (a ++ ".") (parts qs) = renderAll id qs := by
    rw [split] at named
    exact ⟨named (List.subset_append_left ..),
      named (List.subset_append_of_subset_right _ (List.subset_cons_self ..))⟩
  have some_ (ps : List Piece) : parts ps ≠ [] := by
    obtain ⟨p, rest, eq⟩ := exists_parts_eq_cons ps
    exact eq ▸ List.cons_ne_nil p rest
  refine ⟨some_ _, (named (List.Subset.refl _)).trans (renderAll_id words _ _), fun u v => ?_⟩
  rw [exists_piecesFrom_iff_stands utf8 words List.mem_cons_self]
  constructor
  · rintro ⟨ps, qs, split, rfl, rfl⟩
    exact ⟨parts ps, parts qs, some_ ps, some_ qs, by rw [split, parts_append], within split⟩
  · rintro ⟨us, vs, hu, hv, split, rfl, rfl⟩
    obtain ⟨ps, k, qs, whole, rfl, rfl⟩ := exists_of_parts_eq_append hu hv split
    obtain ⟨first, last⟩ := within whole
    have listed : .qualifier k ∈ pieces [a] t := by simp [whole]
    obtain rfl := List.mem_singleton.1 (mem_of_mem_piecesFrom listed)
    exact ⟨ps, qs, whole, first.symm, last.symm⟩

/-! ## Renaming -/

variable {old new : Text}

/-- Renaming puts the new name between the parts. -/
private theorem rename?_eq (word : Wordy old) (given : old ≠ []) (other : old ≠ new) (t : Text) :
    rename? t old new =
      if (parts (pieces [old] t)).length = 1 then none
      else some (join (new ++ ".") (parts (pieces [old] t))) := by
  rw [rename?, if_neg other, renameFrom_eq word given, join_parts]
  simp only [length_parts_eq_one_iff, pieces]
  cases (piecesFrom [old] [] 0 t).any Piece.isQualifier <;> rfl

/-- There is one part if the qualifier stands nowhere. -/
theorem CutAt.length_eq_one_iff {ps : List Text} (h : CutAt a t ps) :
    ps.length = 1 ↔ ∀ before behind, ¬ Stands a t before behind := by
  have given := h.given
  constructor
  · intro single before behind stands
    obtain ⟨us, vs, hu, hv, rfl, -, -⟩ := (h.places before behind).1 stands
    have := List.length_pos_iff.2 hu
    have := List.length_pos_iff.2 hv
    rw [List.length_append] at single
    omega
  · -- Between two parts the qualifier would stand.
    intro nowhere
    match ps with
    | [p] => rfl
    | p :: q :: rest =>
      exact absurd ((h.places _ _).2 ⟨[p], q :: rest, nofun, nofun, rfl, rfl, rfl⟩) (nowhere _ _)

/-- What is renamed is changed. -/
private theorem ne_of_rename?_eq_some (hold : Wordy old ∧ old ≠ []) (hnew : Wordy new)
    (other : old ≠ new) (found : rename? t old new = some u) : u ≠ t := by
  have whole := renderAll_id (words_singleton hold.1 hold.2) [] t
  rw [rename?_eq hold.1 hold.2 other] at found
  split at found
  · cases found
  · rename_i several
    cases found
    rw [join_parts]
    -- Names keep dots out, so a text tells by which names its qualifiers go.
    intro same
    rw [length_parts_eq_one_iff, Bool.not_eq_false, List.any_eq_true] at several
    obtain ⟨piece, listed, qualifier⟩ := several
    cases piece with
    | byte b => cases qualifier
    | qualifier k =>
      have names := (renderAll_eq_iff fun a ha => ?_).1 (same.trans whole.symm) k listed
      · exact other ((List.mem_singleton.1 (mem_of_mem_piecesFrom listed)).symm.trans names.symm)
      · obtain rfl := List.mem_singleton.1 (mem_of_mem_piecesFrom ha)
        exact ⟨hnew.dotless, hold.1.dotless⟩

/-- Where the new name stands nowhere, renaming back gives the text. -/
private theorem rename_rename (utf8 : t.WellFormed) (hold : Wordy old ∧ old ≠ [])
    (hnew : Wordy new ∧ new ≠ []) (other : old ≠ new)
    (nowhere : ∀ before behind, ¬ Stands new t before behind) :
    rename (rename t old new) new old = t := by
  have words : Words [old] := words_singleton hold.1 hold.2
  have both : Words ([old] ++ [new]) :=
    List.forall_mem_append.2 ⟨words, words_singleton hnew.1 hnew.2⟩
  rw [rename_eq hold.1 hold.2, rename_renameAll words (fun _ _ => hnew) hnew.1 hnew.2
    (by simpa using other.symm) rfl]
  -- No piece is the new name as a qualifier, so all that are qualifiers have the old name again.
  refine (renderAll_congr fun k listed => ?_).trans (renderAll_id both [] t)
  rcases List.mem_append.1 (mem_of_mem_piecesFrom listed) with first | second
  · rw [thenRename, if_pos rfl]
    exact (List.mem_singleton.1 first).symm
  · obtain ⟨ps, qs, split⟩ := List.append_of_mem listed
    obtain rfl := List.mem_singleton.1 second
    refine absurd ?_ (nowhere (renderAll id ps) (renderAll id qs))
    exact (exists_piecesFrom_iff_stands utf8 both (by simp)).2 ⟨ps, qs, split, rfl, rfl⟩

/-- In a text, renaming a qualifier to another name cuts the text where the qualifier stands and
puts the new name there; the parts between are left as they are. Nothing is renamed exactly if it
stands nowhere. If the new name stands nowhere as a qualifier, renaming it to the old one gives
the text back. -/
theorem rename?_reversible (utf8 : t.WellFormed) (hold : isWord old) (hnew : isWord new)
    (other : old ≠ new) :
    (∃ parts, CutAt old t parts ∧
      rename? t old new = if parts.length = 1 then none else some (join (new ++ ".") parts)) ∧
    (rename? t old new = none ↔ ∀ before behind, ¬ Stands old t before behind) ∧
    ((∀ before behind, ¬ Stands new t before behind) →
      rename (rename t old new) new old = t ∧
        ∀ renamed, rename? t old new = some renamed → rename? renamed new old = some t) := by
  have word := wordy_of_isWord hold
  have given := ne_nil_of_isWord hold
  have cut := cutAt_parts utf8 word given
  have renamed := rename?_eq word given other t
  refine ⟨⟨_, cut, renamed⟩, ?_, fun nowhere => ?_⟩
  · rw [renamed, ← cut.length_eq_one_iff]
    split <;> simp_all
  · have hnew' := wordy_of_isWord hnew
    -- The new name stands exactly where the old one did, so the way back meets all of them.
    have back := rename_rename utf8 ⟨word, given⟩ ⟨hnew', ne_nil_of_isWord hnew⟩ other nowhere
    refine ⟨back, fun text found => ?_⟩
    have changed := ne_of_rename?_eq_some ⟨word, given⟩ hnew' other found
    have same : rename t old new = text := by rw [rename, found]; rfl
    rw [same, rename] at back
    cases again : rename? text new old with
    | some result =>
      rw [again] at back
      exact congrArg some back
    | none =>
      rw [again] at back
      exact absurd back changed

/-- Behind an arrow the qualifier stands, but neither behind a letter of two bytes, nor behind a
dot, nor behind itself. -/
theorem rename?_reversible_arrow :
    let t : Text := "x →a.B(éa.C, x.a.D, a.a.E)"
    let renamed : Text := "x →b1.B(éa.C, x.a.D, b1.a.E)"
    t.WellFormed ∧ isWord "a" ∧ isWord "b1" ∧ ("a" : Text) ≠ "b1" ∧
      (∀ before behind, ¬ Stands "b1" t before behind) ∧
      rename? t "a" "b1" = some renamed ∧ rename? renamed "b1" "a" = some t := by
  intro t renamed
  have utf8 : t.WellFormed := by decide +kernel
  have hold : isWord "a" := by decide +kernel
  have hnew : isWord "b1" := by decide +kernel
  have other : ("a" : Text) ≠ "b1" := by decide
  have found : rename? t "a" "b1" = some renamed := by decide +kernel
  have nothing : rename? t "b1" "a" = none := by decide +kernel
  have nowhere := (rename?_reversible utf8 hnew hold other.symm).2.1.1 nothing
  have back := ((rename?_reversible utf8 hold hnew other).2.2 nowhere).2 renamed found
  exact ⟨utf8, hold, hnew, other, nowhere, found, back⟩

end Qualifier

end Interlace
