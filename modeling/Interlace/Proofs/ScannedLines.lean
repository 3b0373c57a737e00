import Interlace.Proofs.CharacterCuts
import Interlace.Proofs.MendedTexts
import Interlace.Proofs.OrderedReading
import Interlace.Proofs.Words
import Interlace.SourceFile

/-!
# Lines against tokens

The name of a package is looked for line by line, each line trimmed, and with a block comment that
may be open at the end of a line. The grammar passes over white space and comments wherever lines
end. Both come to the same place: if the lines hold a package clause, the grammar finds it behind
the white space and the comments that the text starts with.

## Key results

- `Scan.Passes`: white space and comments lead from a text to what is left
- `Scan.skip_of_passes`: the grammar passes over them
- `SourceFile.Resumes.of_passComments`: so do the comments that a line starts with
- `SourceFile.resumes_of_scanLines`: lines with a package clause lead to it
-/

namespace Interlace

namespace Text

variable {s t pattern : Text}

/-! ## Patterns -/

/-- What is found in a text is found when more follows. -/
theorem find?_append {i : Nat} (h : find? pattern s = some i) (t : Text) :
    find? pattern (s ++ t) = some i := by
  induction s generalizing i with
  | nil =>
    rw [find?] at h
    split at h
    · rename_i bare
      cases h
      subst bare
      cases t <;> rfl
    · cases h
  | cons b s ih =>
    rw [find?] at h
    rw [List.cons_append, find?]
    split at h
    · rename_i starts
      obtain ⟨rest, whole⟩ := startsWith_iff.1 starts
      have still : startsWith (b :: (s ++ t)) pattern :=
        startsWith_iff.2 ⟨rest ++ t, by rw [← List.cons_append, whole, List.append_assoc]⟩
      rw [if_pos still, h]
    · rename_i other
      obtain ⟨j, found, rfl⟩ := Option.map_eq_some_iff.1 h
      split
      · -- The pattern would reach over the end of what it is found behind.
        rename_i starts
        obtain ⟨rest, whole⟩ := startsWith_iff.1 starts
        obtain ⟨before, behind, -, split⟩ := find?_eq_some found
        refine absurd (startsWith_iff.2 ?_) other
        have short : pattern.length ≤ (b :: s).length := by
          simp only [split, List.length_cons, List.length_append]
          omega
        rw [← List.cons_append] at whole
        obtain ⟨d, own⟩ := List.prefix_of_prefix_length_le ⟨rest, whole.symm⟩
          (List.prefix_append (b :: s) t) short
        exact ⟨d, own.symm⟩
      · rw [ih found]
        rfl

/-- A pattern starts behind a text that does not have its first byte. -/
private theorem find?_append_of_not_mem {a : UInt8} (absent : a ∉ s) (t : Text) :
    find? (a :: pattern) (s ++ t) = (find? (a :: pattern) t).map (· + s.length) := by
  induction s with
  | nil => exact Option.map_id.symm ▸ rfl
  | cons b s ih =>
    obtain ⟨other, absent⟩ := List.ne_and_not_mem_of_not_mem_cons absent
    have off : startsWith (b :: (s ++ t)) (a :: pattern) = false := by
      rw [startsWith, stripPrefix?, if_neg other]
      rfl
    rw [List.cons_append, find?, off, ih absent, Option.map_map]
    rfl

/-- A pattern of two bytes starts behind a text where it is not found, unless its second byte comes
next. -/
private theorem find?_append_of_none {a b : UInt8} (h : find? [a, b] s = none)
    (next : t.head? ≠ some b) : find? [a, b] (s ++ t) = (find? [a, b] t).map (· + s.length) := by
  induction s with
  | nil => exact Option.map_id.symm ▸ rfl
  | cons c s ih =>
    rw [find?] at h
    split at h
    · cases h
    rename_i other
    have later := ih (Option.map_eq_none_iff.1 h)
    -- A match at the seam would need its second byte right behind the text.
    have off : ¬ startsWith (c :: (s ++ t)) [a, b] := by
      intro starts
      obtain ⟨rest, whole⟩ := startsWith_iff.1 starts
      obtain ⟨rfl, behind⟩ := List.cons.inj whole
      cases s with
      | nil => exact next (by rw [← List.nil_append t, behind]; rfl)
      | cons d s =>
        obtain ⟨rfl, -⟩ := List.cons.inj behind
        exact other (startsWith_iff.2 ⟨s, rfl⟩)
    rw [List.cons_append, find?, if_neg off, later, Option.map_map]
    rfl

end Text

namespace Syntax.Scan

open Text

/-! ## White space and comments -/

/-- White space and comments lead from a text to what is left of it. -/
inductive Passes : Text → Text → Prop
  | done (t : Text) : Passes t t
  | white {t u : Text} {width : Nat} (starts : whiteWidth t = width + 1)
      (rest : Passes (t.drop (width + 1)) u) : Passes t u
  | comment {t u : Text} {width : Nat} (solid : whiteWidth t = 0)
      (starts : commentWidth? t = some width) (rest : Passes (t.drop width) u) : Passes t u

variable {s : Scan} {t u z : Text} {fuel : Nat}

private theorem Passes.isSuffix (h : Passes t u) : u <:+ t := by
  induction h with
  | done t => exact List.suffix_rfl
  | white _ _ ih => exact ih.trans (List.drop_suffix _ _)
  | comment _ _ _ ih => exact ih.trans (List.drop_suffix _ _)

/-- From white space on, there is one way to go. -/
private theorem Passes.of_white {width : Nat} (white : whiteWidth t = width + 1) (h : Passes t u)
    (solid : whiteWidth u = 0) : Passes (t.drop (width + 1)) u := by
  cases h with
  | done => rw [white] at solid; cases solid
  | white starts rest =>
    cases white.symm.trans starts
    exact rest
  | comment starts => rw [white] at starts; cases starts

/-- From a comment on, there is one way to go. -/
private theorem Passes.of_comment {width : Nat} (first : whiteWidth t = 0)
    (comment : commentWidth? t = some width) (h : Passes t u) (plain : commentWidth? u = none) :
    Passes (t.drop width) u := by
  cases h with
  | done => rw [comment] at plain; cases plain
  | white starts => rw [first] at starts; cases starts
  | comment _ starts rest =>
    cases comment.symm.trans starts
    exact rest

/-- What is no white space and no comment is left. -/
private theorem Passes.eq_of_plain (first : whiteWidth t = 0) (plain : commentWidth? t = none)
    (h : Passes t u) : u = t := by
  cases h with
  | done => rfl
  | white starts => rw [first] at starts; cases starts
  | comment _ starts => rw [plain] at starts; cases starts

/-- A comment starts with a slash. -/
theorem exists_of_commentWidth? {width : Nat} (h : commentWidth? t = some width) :
    ∃ more, t = 0x2F :: more := by
  unfold commentWidth? at h
  split at h
  · rename_i starts
    exact (startsWith_iff.1 starts).imp' _ fun _ whole => whole
  split at h
  · rename_i starts
    exact (startsWith_iff.1 starts).imp' _ fun _ whole => whole
  · cases h

/-- A line comment goes to the end of its line. -/
private theorem commentWidth?_line {r w : Text} (comment : startsWith r "//")
    (one_line : newline ∉ r ++ w) (rest : Text) :
    commentWidth? (r ++ (w ++ newline :: rest)) = some (r ++ w).length := by
  obtain ⟨more, opens⟩ := startsWith_iff.1 comment
  have start : startsWith (r ++ (w ++ newline :: rest)) "//" :=
    startsWith_iff.2 ⟨more ++ (w ++ newline :: rest), by rw [opens, List.append_assoc]⟩
  have line : (r ++ (w ++ newline :: rest)).takeWhile (· ≠ newline) = r ++ w := by
    rw [← List.append_assoc, List.takeWhile_append_of_pos, List.takeWhile_cons_of_neg,
      List.append_nil]
    · simp
    · exact fun b hb => decide_eq_true fun same => one_line (same ▸ hb)
  rw [commentWidth?, if_pos start, line]

/-- White space that is trimmed is passed over. -/
private theorem Passes.of_trimStart (h : Passes (trimStart t ++ z) u) : Passes (t ++ z) u := by
  induction t using white_induction with
  | solid t solid => rwa [trimStart_eq_self solid] at h
  | white t width white ih =>
    obtain ⟨same, inside⟩ := whiteWidth_append (s := t) (by omega) z
    rw [trimStart_of_white white] at h
    refine .white (same.trans white) ?_
    rw [List.drop_append_of_le_length (by omega)]
    exact ih h

/-- The grammar passes over white space and comments. -/
private theorem skipFrom_of_passes (h : Passes s.rest u) (solid : whiteWidth u = 0)
    (plain : commentWidth? u = none) (enough : s.rest.length ≤ fuel) :
    (skipFrom true fuel s).rest = u := by
  generalize whole : s.rest = t at h
  -- The induction is on what is passed over; every part of it takes at least one byte.
  induction h generalizing s fuel with
  | done t =>
    cases fuel with
    | zero => exact whole
    | succ fuel =>
      rw [skipFrom, whole, solid, plain]
      exact whole
  | @white t u width white rest ih =>
    cases fuel with
    | zero =>
      rw [whole] at enough
      rw [List.length_eq_zero_iff.1 (Nat.le_zero.1 enough)] at white
      cases white
    | succ fuel =>
      rw [skipFrom, whole, white]
      dsimp only
      rw [Bool.not_true, Bool.and_false, if_neg Bool.false_ne_true]
      refine ih solid plain ?_ (congrArg (List.drop _) whole)
      show (s.rest.drop (width + 1)).length ≤ fuel
      rw [List.length_drop]
      omega
  | @comment t u width first comment rest ih =>
    have pos := commentWidth_pos comment
    cases fuel with
    | zero =>
      rw [whole] at enough
      rw [List.length_eq_zero_iff.1 (Nat.le_zero.1 enough)] at comment
      cases comment
    | succ fuel =>
      rw [skipFrom, whole, first, comment]
      dsimp only
      refine ih solid plain ?_ (congrArg (List.drop _) whole)
      show (s.rest.drop width).length ≤ fuel
      rw [List.length_drop]
      omega

theorem skip_of_passes (h : Passes s.rest u) (solid : whiteWidth u = 0)
    (plain : commentWidth? u = none) : (s.skip true).rest = u :=
  skipFrom_of_passes h solid plain (Nat.le_refl _)

/-- White space before something else is all that is passed over. -/
private theorem skipFrom_of_trimStart (plain : commentWidth? (trimStart s.rest) = none)
    (enough : s.rest.length ≤ fuel) :
    ∃ n, skipFrom true fuel s = s.drop n ∧ s.rest.drop n = trimStart s.rest := by
  generalize whole : s.rest = t at plain ⊢
  -- The scan takes white space one character at a time, as trimming does.
  induction t using white_induction generalizing s fuel with
  | solid t solid =>
    rw [trimStart_eq_self solid] at plain ⊢
    refine ⟨0, ?_, rfl⟩
    cases fuel with
    | zero => rfl
    | succ fuel =>
      rw [skipFrom, whole, solid, plain]
      rfl
  | white t width white ih =>
    rw [trimStart_of_white white] at plain ⊢
    cases fuel with
    | zero =>
      rw [whole] at enough
      rw [List.length_eq_zero_iff.1 (Nat.le_zero.1 enough)] at white
      cases white
    | succ fuel =>
      have shorter : (s.drop (width + 1)).rest.length ≤ fuel := by
        show (s.rest.drop (width + 1)).length ≤ fuel
        rw [List.length_drop]
        omega
      obtain ⟨n, skipped, left⟩ := ih shorter (congrArg (List.drop _) whole) plain
      rw [skipFrom, whole, white]
      dsimp only
      rw [Bool.not_true, Bool.and_false, if_neg Bool.false_ne_true, skipped]
      refine ⟨width + 1 + n, ?_, by rw [← left, List.drop_drop]⟩
      simp only [Scan.drop, List.drop_drop, Nat.add_assoc]

theorem skip_of_trimStart (plain : commentWidth? (trimStart s.rest) = none) :
    ∃ n, s.skip true = s.drop n ∧ s.rest.drop n = trimStart s.rest :=
  skipFrom_of_trimStart plain (Nat.le_refl _)

end Syntax.Scan

namespace SourceFile

open Text Syntax.Scan

variable {inComment inComment' : Bool} {r r' t u z : Text} {name : Text} {fuel : Nat}

/-! ## Lines -/

/-- From outside or inside of a block comment, white space and comments lead to what is left. -/
def Resumes : (inComment : Bool) → Text → Text → Prop
  | false, t, u => Passes t u
  | true, t, u => ∃ i, find? "*/" t = some i ∧ Passes (t.drop (i + 2)) u

/-- White space that is trimmed is passed over, in a comment or not. -/
private theorem Resumes.of_trimStart (h : Resumes inComment (trimStart t ++ z) u) :
    Resumes inComment (t ++ z) u := by
  cases inComment with
  | false => exact Passes.of_trimStart h
  | true =>
    obtain ⟨i, found, rest⟩ := h
    obtain ⟨lead, split, bytes⟩ := exists_eq_append_trimStart t
    have absent : 0x2A ∉ lead := not_mem_of_bytes bytes (by decide) (by decide)
    rw [split, List.append_assoc]
    refine ⟨i + lead.length, ?_, ?_⟩
    · exact (find?_append_of_not_mem absent _).trans (congrArg (Option.map _) found)
    · rw [Nat.add_right_comm, Nat.add_comm, ← List.drop_drop, List.drop_left]
      exact rest

/-- What is left of a line behind the comments that it starts with leads where the line does. -/
theorem Resumes.of_passComments
    (passed : passComments fuel inComment r = (inComment', r'))
    (h : Resumes inComment' (r' ++ z) u) : Resumes inComment (r ++ z) u := by
  -- The induction is on the fuel: in a comment the end is looked for, outside of one another
  -- opening.
  induction fuel generalizing inComment r with
  | zero =>
    cases passed
    exact h
  | succ fuel ih =>
    cases inComment with
    | true =>
      rw [passComments] at passed
      split at passed
      · rename_i i found
        -- The comment ends in the line, so that its end is found before anything behind the line.
        obtain ⟨before, rest, rfl, whole⟩ := find?_eq_some found
        have two : (ofString "*/").length = 2 := rfl
        refine ⟨before.length, find?_append found z, ?_⟩
        rw [List.drop_append_of_le_length]
        · exact Passes.of_trimStart (ih passed)
        · rw [whole, List.length_append, List.length_append, two]
          omega
      · cases passed
        exact h
    | false =>
      rw [passComments] at passed
      split at passed
      · rename_i after opened
        obtain ⟨i, found, rest⟩ := ih passed
        rw [stripPrefix?_eq_some_iff.1 opened, List.append_assoc]
        -- The width of a comment is counted from its opening, with both marks.
        have width : commentWidth? ("/*" ++ (after ++ z)) = some (i + 4) := by
          have opens : startsWith ("/*" ++ (after ++ z)) "/*" := startsWith_iff.2 ⟨_, rfl⟩
          rw [commentWidth?, if_neg (by exact Bool.false_ne_true), if_pos opens]
          exact congrArg (Option.map _) found
        exact .comment rfl width rest
      · cases passed
        exact h

/-- What is left of a line is a part of it, with the end of no comment if one is open. -/
private theorem passComments_left (passed : passComments fuel inComment r = (inComment', r'))
    (enough : r.length < fuel) : r' <:+ r ∧ (inComment' = true → find? "*/" r' = none) := by
  induction fuel generalizing inComment r with
  | zero => exact absurd enough (Nat.not_lt_zero _)
  | succ fuel ih =>
    cases inComment with
    | true =>
      rw [passComments] at passed
      split at passed
      · rename_i i found
        -- Each round takes the end of a comment off the line, so the fuel is enough.
        have later : trimStart (r.drop (i + 2)) <:+ r.drop (i + 2) := dropWhite_isSuffix 0 _
        obtain ⟨before, rest, rfl, whole⟩ := find?_eq_some found
        have two : (ofString "*/").length = 2 := rfl
        have long := congrArg List.length whole
        simp only [List.length_append, two] at long
        have shorter := later.length_le
        rw [List.length_drop] at shorter
        obtain ⟨part, ends⟩ := ih passed (by omega)
        exact ⟨part.trans (later.trans (List.drop_suffix _ _)), ends⟩
      · rename_i ends
        cases passed
        exact ⟨List.suffix_rfl, fun _ => ends⟩
    | false =>
      rw [passComments] at passed
      split at passed
      · rename_i after opened
        have whole := stripPrefix?_eq_some_iff.1 opened
        have two : (ofString "/*").length = 2 := rfl
        have long := congrArg List.length whole
        rw [List.length_append, two] at long
        obtain ⟨part, ends⟩ := ih passed (by omega)
        exact ⟨part.trans ⟨_, whole.symm⟩, ends⟩
      · cases passed
        exact ⟨List.suffix_rfl, nofun⟩

/-- A comment that is open at the end of a line goes on behind the line. -/
private theorem Resumes.past_open {w rest : Text} (blank : trimStart w = [])
    (ends : find? "*/" r = none)
    (h : Resumes true rest u) : Resumes true (r ++ (w ++ newline :: rest)) u := by
  obtain ⟨i, found, rest_leads⟩ := h
  -- White space and the line break have no byte of the end mark, so it cannot reach into them.
  have bytes : ∀ b ∈ w ++ [newline], 0x80 ≤ b ∨ whiteWidth [b] ≠ 0 :=
    List.forall_mem_append.2 ⟨bytes_of_blank blank, List.forall_mem_singleton.2 (.inr nofun)⟩
  have star : 0x2A ∉ w ++ [newline] := not_mem_of_bytes bytes (by decide) (by decide)
  have slash : 0x2F ∉ w ++ [newline] := not_mem_of_bytes bytes (by decide) (by decide)
  have next : ((w ++ [newline]) ++ rest).head? ≠ some 0x2F := by
    rw [List.head?_append_of_ne_nil _ (List.append_ne_nil_of_right_ne_nil _ (by simp))]
    exact fun first => slash (List.mem_of_mem_head? first)
  have behind : find? "*/" ((w ++ [newline]) ++ rest) =
      (find? "*/" rest).map (· + (w ++ [newline]).length) := find?_append_of_not_mem star rest
  have whole : find? "*/" (r ++ ((w ++ [newline]) ++ rest)) =
      (find? "*/" ((w ++ [newline]) ++ rest)).map (· + r.length) :=
    find?_append_of_none (a := 0x2A) (b := 0x2F) ends next
  rw [List.append_cons w]
  refine ⟨i + (w ++ [newline]).length + r.length, ?_, ?_⟩
  · rw [whole, behind, found]
    rfl
  · have cut : i + (w ++ [newline]).length + r.length + 2 =
        r.length + ((w ++ [newline]).length + (i + 2)) := by omega
    rw [cut, ← List.drop_drop, List.drop_left, ← List.drop_drop, List.drop_left]
    exact rest_leads

/-- A line that holds no more than comments is passed over with its end. -/
private theorem Resumes.past_line {w rest : Text} (one_line : newline ∉ r ++ w)
    (blank : trimStart w = []) (ends : inComment = true → find? "*/" r = none)
    (plain : inComment = false → r = [] ∨ startsWith r "//")
    (h : Resumes inComment rest u) : Resumes inComment (r ++ (w ++ newline :: rest)) u := by
  -- In a comment the line is passed with it; outside, what is on it is a line comment or nothing.
  cases inComment with
  | true => exact h.past_open blank (ends rfl)
  | false =>
    have broken : Passes (newline :: rest) u := .white rfl h
    rcases plain rfl with rfl | comment
    · have left : Passes (trimStart w ++ newline :: rest) u := by
        rw [blank]
        exact broken
      exact left.of_trimStart
    · have solid : whiteWidth (r ++ (w ++ newline :: rest)) = 0 := by
        obtain ⟨more, opens⟩ := startsWith_iff.1 comment
        rw [opens]
        rfl
      refine .comment solid (commentWidth?_line comment one_line rest) ?_
      rw [← List.append_assoc, List.drop_left]
      exact broken

/-- A line with nothing else than white space and comments is passed over; another one holds the
name. -/
private theorem scanLines_cons {line : Text} {lines : List Text} (one_line : newline ∉ line)
    (h : scanLines inComment (line :: lines) = some name) (behind : Text) :
    (∃ r w, packageWord? r = some name ∧ trimStart w = [] ∧
      Resumes inComment (line ++ behind) (r ++ (w ++ behind))) ∨
    ∃ later, scanLines later lines = some name ∧ ∀ w rest u, behind = w ++ newline :: rest →
      newline ∉ w → trimStart w = [] → Resumes later rest u →
      Resumes inComment (line ++ behind) u := by
  rw [scanLines] at h
  obtain ⟨white, split, blank⟩ := exists_eq_trimEnd_append (trimStart line)
  have inside : trimStart line <:+ line := dropWhite_isSuffix 0 _
  -- The line is what is trimmed, between white space.
  have trimmed {later : Bool} {r : Text} (u : Text)
      (passed : passComments (line.length + 1) inComment (trim line) = (later, r))
      (h : Resumes later (r ++ (white ++ behind)) u) : Resumes inComment (line ++ behind) u := by
    have left := h.of_passComments passed
    rw [trim, ← List.append_assoc, ← split] at left
    exact left.of_trimStart
  rcases passed : passComments (line.length + 1) inComment (trim line) with ⟨later, r⟩
  rw [passed] at h
  dsimp only at h
  have shorter : (trim line).length < line.length + 1 := by
    have long := congrArg List.length split
    have short := inside.length_le
    rw [List.length_append] at long
    rw [trim]
    omega
  obtain ⟨part, ends⟩ := passComments_left passed shorter
  split at h
  · rename_i empty
    right
    refine ⟨later, h, fun w rest u whole no_break bare resumes => trimmed u passed ?_⟩
    subst whole
    rw [← List.append_assoc white]
    refine resumes.past_line ?_ ?_ ends fun outside => ?_
    · refine fun broken => one_line (inside.subset ?_)
      rw [split]
      rcases List.mem_append.1 broken with broken | broken
      · exact List.mem_append_left _ (part.subset broken)
      · rcases List.mem_append.1 broken with broken | broken
        · exact List.mem_append_right _ broken
        · exact absurd broken no_break
    · exact (trimStart_append_eq_nil_iff bare).2 blank
    · subst outside
      simpa using empty
  · rename_i given
    left
    cases later with
    | true => exact absurd rfl given
    | false => exact ⟨r, white, h, blank, trimmed _ passed (.done _)⟩

/-- Lines that hold a package clause lead to it, from outside or inside of a comment. -/
theorem resumes_of_scanLines (h : scanLines inComment (lines t) = some name) :
    ∃ r z, packageWord? r = some name ∧ EndsWord z ∧ Resumes inComment t (r ++ z) := by
  induction long : t.length using Nat.strongRecOn generalizing t inComment with
  | _ n ih =>
    -- The name is on the first line, or on the lines behind it.
    by_cases broken : newline ∈ t
    · obtain ⟨line, rest, rfl, one_line⟩ := List.eq_append_cons_of_mem broken
      obtain ⟨ret, split, bare⟩ := exists_eq_dropReturn_append line
      rw [lines_line one_line] at h
      rw [split] at one_line
      have front : newline ∉ dropReturn line := fun hn => one_line (List.mem_append_left _ hn)
      have no_break : newline ∉ ret := fun hn => one_line (List.mem_append_right _ hn)
      have whole : line ++ newline :: rest = dropReturn line ++ (ret ++ newline :: rest) := by
        rw [← List.append_assoc, ← split]
      rw [whole]
      rcases scanLines_cons front h (ret ++ newline :: rest) with
        ⟨r, w, word, blank, resumes⟩ | ⟨later, h, past⟩
      · have ends : EndsWord (newline :: rest) := .inr nofun
        exact ⟨r, _, word, (endsWord_of_blank blank).append ((endsWord_of_blank bare).append ends),
          resumes⟩
      · have shorter : rest.length < n := by
          rw [← long, List.length_append, List.length_cons]
          omega
        obtain ⟨r, z, word, ends, resumes⟩ := ih _ shorter h rfl
        exact ⟨r, z, word, ends, past ret rest _ rfl no_break bare resumes⟩
    · rw [lines_last broken] at h
      split at h
      · cases h
      rcases scanLines_cons broken h [] with ⟨r, w, word, blank, resumes⟩ | ⟨_, h, -⟩
      · rw [List.append_nil, List.append_nil] at resumes
        exact ⟨r, w, word, endsWord_of_blank blank, resumes⟩
      · cases h

/-! ## The package clause -/

private theorem packageWord?_eq_some (h : packageWord? r = some name) :
    ∃ tail, r = "package" ++ tail ∧ whiteWidth tail ≠ 0 ∧ name ≠ [] ∧
      name = ofChars ((chars (trimStart tail)).takeWhile isWordChar) := by
  obtain ⟨tail, stripped, h⟩ := Option.bind_eq_some_iff.1 h
  split at h
  · rename_i white
    dsimp only at h
    split at h
    · cases h
    · rename_i given
      cases h
      exact ⟨tail, stripPrefix?_eq_some_iff.1 stripped, of_decide_eq_true white, given, rfl⟩
  · cases h

/-- What starts with the word `package` is left when white space and comments are passed over. -/
theorem plain_package (tail : Text) :
    whiteWidth ("package" ++ tail) = 0 ∧ commentWidth? ("package" ++ tail) = none :=
  ⟨rfl, rfl⟩

/-- A leading line directive is a comment to the lines. -/
theorem passes_leadingLine {bytes rest : Text} {d : LineDirective} {tail : Text}
    (h : leadingLine? bytes = some (d, rest)) (passes : Passes bytes ("package" ++ tail)) :
    Passes rest ("package" ++ tail) := by
  unfold leadingLine? at h
  split at h
  · rename_i starts
    obtain ⟨_, -, same⟩ := Option.map_eq_some_iff.1 h
    cases same
    have comment : whiteWidth bytes = 0 ∧
        commentWidth? bytes = some (bytes.takeWhile (· ≠ newline)).length := by
      obtain ⟨more, rfl⟩ := startsWith_iff.1 starts
      exact ⟨rfl, rfl⟩
    have behind := passes.of_comment comment.1 comment.2 (plain_package tail).2
    -- The directive is cut off up to its line break.
    have cut : bytes.drop (bytes.takeWhile (· ≠ newline)).length =
        bytes.dropWhile (· ≠ newline) := by
      have whole := List.prefix_iff_eq_append.1 (List.takeWhile_prefix (· ≠ newline) (l := bytes))
      exact List.append_cancel_left (whole.trans List.takeWhile_append_dropWhile.symm)
    have stopped := List.head?_dropWhile_not (· ≠ newline) bytes
    rw [← List.drop_drop, cut]
    rw [cut] at behind
    -- The line break behind it is white space; without one there would be no clause.
    cases left : bytes.dropWhile (· ≠ newline) with
    | nil =>
      rw [left] at behind
      cases List.suffix_nil.1 behind.isSuffix
    | cons b later =>
      rw [left] at behind stopped
      have broken : b = newline := by simpa using stopped
      subst broken
      have break_wide : whiteWidth (newline :: later) = 0 + 1 := rfl
      exact behind.of_white break_wide (plain_package tail).1
  · cases h

/-- In front of a package clause there is no byte order mark. -/
theorem ofSource_of_passes {source tail : Text} (h : Passes source ("package" ++ tail)) :
    ofSource source = ⟨0, source, 0, []⟩ := by
  unfold ofSource
  split
  · cases h.eq_of_plain rfl rfl
  · rfl

/-- Lines that hold a package clause lead to it: to the keyword, white space, and what the name is
taken from, which ends with the line. -/
theorem exists_of_scanPackage? {bytes : Text} (utf8 : bytes.WellFormed)
    (h : scanPackage? bytes = some name) :
    ∃ tail z, Passes bytes ("package" ++ (tail ++ z)) ∧ whiteWidth tail ≠ 0 ∧ EndsWord z ∧
      (tail ++ z).WellFormed ∧ name ≠ [] ∧
      name = ofChars ((chars (trimStart tail)).takeWhile isWordChar) := by
  rw [scanPackage?, utf8.mended_eq] at h
  obtain ⟨r, z, word, ends, passes⟩ := resumes_of_scanLines h
  obtain ⟨tail, rfl, white, given, value⟩ := packageWord?_eq_some word
  have passes : Passes bytes ("package" ++ (tail ++ z)) := by
    rw [← List.append_assoc]
    exact passes
  obtain ⟨front, whole⟩ := passes.isSuffix
  -- The keyword starts with a character, so the text behind its front is well formed.
  have starts : WrapPattern.StartsWhole ("package" ++ (tail ++ z)) := by
    rintro b ⟨⟩
    rfl
  have behind : Text.WellFormed ("package" ++ (tail ++ z)) :=
    ((wellFormed_append_iff starts).1 (whole ▸ utf8)).2
  exact ⟨tail, z, passes, white, ends, behind.of_append_left (by decide), given, value⟩

end SourceFile

end Interlace
