import Interlace.Proofs.OccurringOnce
import Interlace.Proofs.Words
import Interlace.Weave.Draft

/-!
# Lines that declare a context

A span without a context of its own declares one, at the start of a line. How often a text declares
it is the number of such lines. Indenting the lines of a text does not change it, and a text that
does not have the name of the context may stand at the start of a line without declaring it.

## Key results

- `contextDeclarations_line`: declarations are counted line by line
- `contextDeclarations_indentLines`: indented lines declare as often
- `contextDeclarations_append`: what a name at the start of a line declares
-/

namespace Interlace

open Text

/-- The name of the context that a span declares. -/
def spanContext : Text := "__toolCtx"

/-- The line starts with a declaration of the context. -/
def declaresContext (line : Text) : Bool :=
  startsWith (line.dropWhile isBlank) (spanContext ++ " := ")

/-- How many lines of a text declare the context. -/
def contextDeclarations (t : Text) : Nat :=
  (splitWhere (· = newline) t).countP declaresContext

variable {line rest t u z : Text}

/-! ## One line -/

/-- A line declares the context behind blanks. -/
private theorem exists_of_declaresContext (h : declaresContext line = true) :
    ∃ blanks rest, line = blanks ++ (spanContext ++ " := " ++ rest) ∧ ∀ b ∈ blanks, isBlank b := by
  obtain ⟨rest, behind⟩ := startsWith_iff.1 h
  refine ⟨line.takeWhile isBlank, rest, ?_, List.all_eq_true.1 List.all_takeWhile⟩
  rw [← behind, List.takeWhile_append_dropWhile]

theorem declaresContext_append_of_blank {indent : Text} (blank : ∀ b ∈ indent, isBlank b)
    (line : Text) : declaresContext (indent ++ line) = declaresContext line := by
  rw [declaresContext, List.dropWhile_append_of_pos blank]
  rfl

/-- A line that declares the context has its name. -/
private theorem spanContext_isInfix (h : declaresContext line = true) : spanContext <:+: line := by
  obtain ⟨blanks, rest, rfl, -⟩ := exists_of_declaresContext h
  exact ⟨blanks, " := " ++ rest, by simp only [List.append_assoc]⟩

/-- A line that declares the context is not blank. -/
private theorem trim_ne_nil_of_declaresContext (h : declaresContext line = true) :
    trim line ≠ [] := by
  obtain ⟨blanks, rest, rfl, blank⟩ := exists_of_declaresContext h
  -- The blanks are trimmed away, and what is declared stays.
  have passed : dropWhite 0 blanks = [] := by
    clear h
    induction blanks with
    | nil => rfl
    | cons b blanks ih =>
      obtain ⟨first, others⟩ := List.forall_mem_cons.1 blank
      have cases_ : b = 0x20 ∨ b = 0x09 := by simpa [isBlank] using first
      rcases cases_ with rfl | rfl <;> exact ih others
  have start : trimStart (blanks ++ (spanContext ++ " := " ++ rest)) =
      spanContext ++ " := " ++ rest :=
    (dropWhite_append passed (Nat.zero_le _) _).trans (trimStart_eq_self rfl)
  have solid : ∀ t : Text, trimStart t ≠ [] → trimEnd t ≠ [] := by
    intro t left
    cases t with
    | nil => exact absurd rfl left
    | cons b t =>
      rw [trimEnd, if_neg left]
      exact List.cons_ne_nil _ _
  rw [trim, start]
  refine solid _ ?_
  rw [trimStart_eq_self rfl]
  exact List.cons_ne_nil _ _

/-- A carriage return at the end of a line makes no difference. -/
private theorem declaresContext_stripReturn (line : Text) :
    declaresContext ((stripSuffix? [0x0D] line).getD line) = declaresContext line := by
  cases stripped : stripSuffix? [0x0D] line with
  | none => rfl
  | some front =>
    obtain rfl := stripSuffix?_eq_some_iff.1 stripped
    -- What is looked for does not end in a carriage return, so it cannot reach into that one.
    have kept : ∀ t : Text, startsWith (t ++ [0x0D]) (spanContext ++ " := ") =
        startsWith t (spanContext ++ " := ") := by
      intro t
      rw [Bool.eq_iff_iff, startsWith_iff, startsWith_iff]
      constructor
      · rintro ⟨rest, whole⟩
        rcases List.eq_nil_or_concat rest with rfl | ⟨rest, b, rfl⟩
        · have last := congrArg List.getLast? whole
          rw [List.getLast?_concat] at last
          exact absurd last (by decide)
        · rw [List.concat_eq_append, ← List.append_assoc] at whole
          exact ⟨rest, (List.append_inj' whole rfl).1⟩
      · rintro ⟨rest, rfl⟩
        exact ⟨rest ++ [0x0D], List.append_assoc ..⟩
    rw [Option.getD_some, declaresContext, declaresContext, List.dropWhile_append]
    split
    · rename_i bare
      rw [List.isEmpty_iff.1 bare]
      rfl
    · exact (kept _).symm

/-! ## Many lines -/

/-- Declarations are counted line by line. -/
theorem contextDeclarations_line (one_line : newline ∉ line) (rest : Text) :
    contextDeclarations (line ++ newline :: rest) =
      (if declaresContext line then 1 else 0) + contextDeclarations rest := by
  rw [contextDeclarations, splitWhere_line one_line, List.countP_cons, Nat.add_comm]
  rfl

/-- The lines of a text, with line breaks of whichever kind, declare what the text does. -/
private theorem countP_lines (t : Text) :
    (lines t).countP declaresContext = contextDeclarations t := by
  -- Returns at the ends of lines make no difference.
  have counted : ∀ pieces : List Text,
      (pieces.map fun piece => (stripSuffix? [0x0D] piece).getD piece).countP declaresContext =
        pieces.countP declaresContext := by
    intro pieces
    rw [List.countP_map]
    exact List.countP_congr fun piece _ => by
      rw [Function.comp, declaresContext_stripReturn]
  obtain ⟨pieces, last, split⟩ := (List.eq_nil_or_concat (splitWhere (· = newline) t)).resolve_left
    (splitWhere_ne_nil _ t)
  unfold lines contextDeclarations
  dsimp only
  rw [split, List.concat_eq_append, List.getLast?_concat, List.dropLast_concat, List.countP_append]
  -- The piece behind the last line break is a line only if it is not empty.
  cases last with
  | nil => exact counted pieces
  | cons b last => exact (List.countP_append ..).trans (congrArg (· + _) (counted pieces))

private theorem newline_not_mem_of_mem_lines (listed : line ∈ lines t) : newline ∉ line := by
  -- A piece between line breaks has none, and a line is a piece, or one without its return.
  have uncut : ∀ piece ∈ splitWhere (· = newline) t, newline ∉ piece := fun piece hp hn =>
    absurd (not_cut_of_mem_splitWhere hp hn) (by decide)
  have trimmed : ∀ piece : Text, newline ∉ piece →
      newline ∉ (stripSuffix? [0x0D] piece).getD piece := by
    intro piece one_line
    cases stripped : stripSuffix? [0x0D] piece with
    | none => exact one_line
    | some front =>
      rw [stripSuffix?_eq_some_iff.1 stripped] at one_line
      exact fun hn => one_line (List.mem_append_left _ hn)
  have front : ∀ line ∈ (splitWhere (· = newline) t).dropLast.map
      fun piece => (stripSuffix? [0x0D] piece).getD piece, newline ∉ line :=
    List.forall_mem_map.2 fun piece hp => trimmed piece (uncut piece (List.dropLast_subset _ hp))
  unfold lines at listed
  dsimp only at listed
  split at listed
  · exact front line listed
  · rename_i last _ found
    rcases List.mem_append.1 listed with early | late
    · exact front line early
    · cases List.mem_singleton.1 late
      exact uncut _ (List.mem_of_getLast? found)
  · cases listed

/-- Indented lines declare what the lines do. -/
theorem contextDeclarations_indentLines {indent : Text} (blank : ∀ b ∈ indent, isBlank b)
    (t rest : Text) : contextDeclarations (Draft.indentLines indent t ++ rest) =
      contextDeclarations t + contextDeclarations rest := by
  have one_line : ∀ line ∈ lines t, newline ∉ line := fun _ => newline_not_mem_of_mem_lines
  have unbroken : newline ∉ indent := fun hn => absurd (blank _ hn) (by decide)
  rw [← countP_lines t, Draft.indentLines]
  generalize lines t = ls at one_line
  induction ls with
  | nil => exact (Nat.zero_add _).symm
  | cons line ls ih =>
    obtain ⟨first, others⟩ := List.forall_mem_cons.1 one_line
    rw [List.flatMap_cons, List.append_assoc, List.countP_cons]
    have behind := ih others
    split
    · -- An empty line is left without indent, and declares nothing either way.
      rename_i empty
      have none_here : declaresContext line = false :=
        Bool.eq_false_iff.2 fun here => trim_ne_nil_of_declaresContext here empty
      rw [none_here, if_neg Bool.false_ne_true, Nat.add_zero, ← behind]
      exact (contextDeclarations_line List.not_mem_nil _).trans (Nat.zero_add _)
    · have whole : newline ∉ indent ++ line := List.not_mem_append unbroken first
      rw [List.append_assoc (indent ++ line)]
      refine (contextDeclarations_line whole _).trans ?_
      rw [declaresContext_append_of_blank blank]
      refine (congrArg (_ + ·) behind).trans ?_
      omega

/-! ## Names at the start of a line -/

/-- How many lines behind the first declare the context. -/
def laterDeclarations (t : Text) : Nat :=
  (splitWhere (· = newline) t).tail.countP declaresContext

/-- The text goes on with a byte that is neither blank nor a part of the name of the context. -/
def StopsName (t : Text) : Prop :=
  ∃ b rest, t = b :: rest ∧ b ∉ spanContext ∧ isBlank b = false ∧ b ≠ newline

/-- The first line ends where the line of what is behind does. -/
private theorem exists_split_append (one_line : newline ∉ u) (z : Text) :
    ∃ piece pieces, splitWhere (· = newline) z = piece :: pieces ∧
      splitWhere (· = newline) (u ++ z) = (u ++ piece) :: pieces := by
  obtain ⟨piece, pieces, split⟩ := List.exists_cons_of_ne_nil (splitWhere_ne_nil (· = newline) z)
  refine ⟨piece, pieces, split, splitWhere_append_of_uncut (fun c hc => ?_) split⟩
  exact decide_eq_false fun same => one_line (same ▸ hc)

theorem laterDeclarations_append (one_line : newline ∉ u) (z : Text) :
    laterDeclarations (u ++ z) = laterDeclarations z := by
  obtain ⟨piece, pieces, split, whole⟩ := exists_split_append one_line z
  rw [laterDeclarations, laterDeclarations, split, whole]
  rfl

private theorem laterDeclarations_line (one_line : newline ∉ line) (rest : Text) :
    laterDeclarations (line ++ newline :: rest) = contextDeclarations rest := by
  rw [laterDeclarations, splitWhere_line one_line]
  rfl

theorem laterDeclarations_newline (rest : Text) :
    laterDeclarations (newline :: rest) = contextDeclarations rest :=
  laterDeclarations_line List.not_mem_nil rest

/-- A line does not declare the context where something else comes before it. -/
private theorem declaresContext_eq_false {b : UInt8} (free : ¬ spanContext <:+: u)
    (other : b ∉ spanContext)
    (solid : isBlank b = false) : declaresContext (u ++ b :: z) = false := by
  rw [Bool.eq_false_iff]
  intro h
  obtain ⟨blanks, rest, whole, blank⟩ := exists_of_declaresContext h
  rw [List.append_assoc] at whole
  rcases List.append_eq_append_iff.1 whole with ⟨passed, rfl, split⟩ | ⟨front, rfl, split⟩
  · -- The byte would be a blank, or the first of the name.
    cases passed with
    | nil =>
      rw [(List.cons.inj split).1] at other
      exact other List.mem_cons_self
    | cons c passed =>
      cases (List.cons.inj split).1
      rw [blank b (List.mem_append_right _ List.mem_cons_self)] at solid
      cases solid
  · rcases List.append_eq_append_iff.1 split with ⟨more, rfl, -⟩ | ⟨back, name, split⟩
    · exact free ⟨blanks, more, by rw [List.append_assoc]⟩
    · cases back with
      | nil =>
        rw [List.append_nil] at name
        exact free ⟨blanks, [], by rw [name, List.append_nil]⟩
      | cons c back =>
        cases (List.cons.inj split).1
        exact other (name ▸ List.mem_append_right _ List.mem_cons_self)

/-- Without the name of the context, what stands at the start of a line does not declare it. -/
theorem contextDeclarations_append (free : ¬ spanContext <:+: u) (bounded : StopsName z) :
    contextDeclarations (u ++ z) = laterDeclarations z := by
  obtain ⟨b, z, rfl, other, solid, unbroken⟩ := bounded
  induction size : u.length using Nat.strong_induction_on generalizing u with
  | _ n ih =>
    by_cases broken : newline ∈ u
    · -- The lines before the last one do not have the name, so the last one is left.
      obtain ⟨line, later, rfl, one_line⟩ := List.eq_append_cons_of_mem broken
      have none_here : declaresContext line = false := Bool.eq_false_iff.2 fun here =>
        free ((spanContext_isInfix here).trans (List.prefix_append _ _).isInfix)
      have still : ¬ spanContext <:+: later := fun held =>
        free (held.trans ((List.suffix_cons _ _).trans (List.suffix_append _ _)).isInfix)
      rw [List.append_assoc, List.cons_append, contextDeclarations_line one_line, none_here,
        if_neg Bool.false_ne_true, Nat.zero_add]
      refine ih _ ?_ still rfl
      rw [← size, List.length_append, List.length_cons]
      omega
    · obtain ⟨piece, pieces, split, whole⟩ := exists_split_append broken (b :: z)
      obtain ⟨first, rfl⟩ : ∃ first, piece = b :: first := by
        obtain ⟨first, more, behind⟩ :=
          List.exists_cons_of_ne_nil (splitWhere_ne_nil (· = newline) z)
        rw [splitWhere, behind] at split
        dsimp only at split
        rw [if_neg (by simpa using unbroken)] at split
        exact ⟨first, (List.cons.inj split).1.symm⟩
      rw [contextDeclarations, laterDeclarations, whole, split, List.countP_cons]
      rw [declaresContext_eq_false free other solid]
      rfl

/-- Nor does it behind the start. -/
theorem laterDeclarations_append_of_free (free : ¬ spanContext <:+: u) (bounded : StopsName z) :
    laterDeclarations (u ++ z) = laterDeclarations z := by
  by_cases broken : newline ∈ u
  · obtain ⟨line, later, rfl, one_line⟩ := List.eq_append_cons_of_mem broken
    have still : ¬ spanContext <:+: later := fun held =>
      free (held.trans ((List.suffix_cons _ _).trans (List.suffix_append _ _)).isInfix)
    rw [List.append_assoc, List.cons_append, laterDeclarations_line one_line,
      contextDeclarations_append still bounded]
  · exact laterDeclarations_append broken z

/-- Giving another variable a value declares nothing. -/
theorem contextDeclarations_assigned (free : ¬ spanContext <:+: u) (z : Text) :
    contextDeclarations (u ++ (" = " ++ z)) = laterDeclarations z := by
  have spaced : ¬ spanContext <:+: u ++ " " := fun held =>
    (infix_of_not_mem (by decide) held).elim free (by decide)
  have equals : StopsName ("= " ++ z) := ⟨0x3D, _, rfl, by decide, by decide, by decide⟩
  have split : u ++ (" = " ++ z) = u ++ " " ++ ("= " ++ z) := by
    rw [List.append_assoc]
    rfl
  rw [split, contextDeclarations_append spaced equals, laterDeclarations_append (by decide)]

end Interlace
