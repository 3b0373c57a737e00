import Interlace.Proofs.AnchorOrder
import Interlace.Proofs.Folds
import Interlace.Proofs.LineReading

/-!
# Reported positions are right

Directives are placed in one pass over the anchors of the woven text, which keeps what the compiler
believes: behind the last directive it counts on from there. At every anchor the belief is compared
with the position that should be reported, so the anchors passed are right and stay so, since later
directives stand on later lines.

## Key results

- `Positions.step_placed`: what looking at one anchor keeps
- `Positions.run_placed`: what the whole pass comes to
- `Positions.annotate_reported`: the compiler reports every anchor that is first on its line where
  it came from, or as added code
-/

namespace Interlace.Positions

open Syntax Compiler

/-- The position that should be reported for the code at an offset of the woven text: its line in
the source, or any line of the file for added code. -/
def IsPositionOf (file : SourceFile) (rendered : Rendered) (offset : Nat) (reported : Text × Nat) :
    Prop :=
  match rendered.sourceOffset? offset with
  | some source => reported = (file.origin, file.lineBase + file.source.lineOf source)
  | none => reported.1 = generatedFile

variable {file : SourceFile} {rendered : Rendered}

/-! ## One step -/

private theorem isPositionOf_of_wanted?_eq_none {reported : Reported} {offset : Nat}
    (h : wanted? file rendered reported offset = none) (line : Nat) :
    IsPositionOf file rendered offset (reported.file, line) := by
  unfold wanted? at h
  unfold IsPositionOf
  cases traced : rendered.sourceOffset? offset with
  | some source => simp [traced] at h
  | none => simpa [traced] using h

private theorem isPositionOf_of_wanted? {reported r : Reported} {offset : Nat}
    (h : wanted? file rendered reported offset = some r) :
    IsPositionOf file rendered offset (r.file, r.line) ∧ r.since = rendered.text.lineOf offset ∧
      (r.file = file.origin ∨ r.file = generatedFile) := by
  unfold wanted? at h
  unfold IsPositionOf
  cases traced : rendered.sourceOffset? offset with
  | some source =>
    simp only [traced, Option.some.injEq] at h
    subst h
    refine ⟨?_, rfl, .inl rfl⟩
    simp only [Nat.add_comm]
  | none =>
    simp only [traced, Option.ite_none_left_eq_some, Option.some.injEq] at h
    obtain ⟨-, rfl⟩ := h
    exact ⟨rfl, rfl, .inr rfl⟩

/-- Nothing happens at an anchor that is not the first of its line. -/
private theorem step_eq_self {s : State} {anchor : Tree}
    (h : rendered.text.isFirstOnLine anchor.start = false ∨
      s.lastLine = some (rendered.text.lineStart anchor.start)) :
    step file rendered s anchor = s := by
  unfold step
  rw [if_pos]
  rcases h with other | same
  · simp [other]
  · simp [same]

/-- At the first anchor of a line either the belief is right or a directive is placed that is. -/
private theorem step_cases {s : State} {anchor : Tree}
    (first : rendered.text.isFirstOnLine anchor.start)
    (new : s.lastLine ≠ some (rendered.text.lineStart anchor.start)) :
    let s' := { s with lastLine := some (rendered.text.lineStart anchor.start) }
    (IsPositionOf file rendered anchor.start
        (s.reported.file, s.reported.lineAt (rendered.text.lineOf anchor.start)) ∧
      step file rendered s anchor = s') ∨
    ∃ r : Reported, IsPositionOf file rendered anchor.start (r.file, r.line) ∧
      r.since = rendered.text.lineOf anchor.start ∧
      (r.file = file.origin ∨ r.file = generatedFile) ∧
      step file rendered s anchor = place s' (rendered.text.lineStart anchor.start) r := by
  unfold step
  rw [if_neg (by simp [first, new])]
  dsimp only
  cases want : wanted? file rendered s.reported anchor.start with
  | none => exact .inl ⟨isPositionOf_of_wanted?_eq_none want _, rfl⟩
  | some r =>
    obtain ⟨right, since, named⟩ := isPositionOf_of_wanted? want
    dsimp only
    -- What is believed of the line may be right already.
    split
    · rename_i agrees
      obtain ⟨sameFile, sameLine⟩ : s.reported.file = r.file ∧ s.reported.lineAt r.since = r.line :=
        by simpa using agrees
      rw [← since, sameFile, sameLine]
      exact .inl ⟨right, rfl⟩
    · exact .inr ⟨r, right, since, named, rfl⟩

/-! ## Directives and belief -/

/-- The directives that have been placed, and what is believed behind the last of them. -/
structure Marked (text : Text) (s : State) : Prop where
  readable : ∀ p ∈ s.placed, Readable p.2
  begins : ∀ p ∈ s.placed, BeginsLine text p.1
  descending : s.placed.Pairwise fun p q => q.1 < p.1
  reached : ∀ p ∈ s.placed, p.1 = 0 ∨ ∃ last, s.lastLine = some last ∧ p.1 ≤ last
  counts : ∀ offset, (∀ p ∈ s.placed, p.1 ≤ offset) →
    believed text s.placed (text.lineOf offset) =
      some (s.reported.file, s.reported.lineAt (text.lineOf offset))

namespace Marked

variable {text : Text} {s : State} {line : Nat} {r : Reported}

/-- Nothing is placed behind the line that is looked at next. -/
private theorem le_of_new (h : Marked text s) (new : ∀ last, s.lastLine = some last → last < line)
    (p : Nat × LineDirective) (hp : p ∈ s.placed) : p.1 = 0 ∨ p.1 < line := by
  rcases h.reached p hp with zero | ⟨last, looked, le⟩
  · exact .inl zero
  · exact .inr (Nat.lt_of_le_of_lt le (new last looked))

/-- Going on to another line places nothing. -/
theorem moved (h : Marked text s) (new : ∀ last, s.lastLine = some last → last < line) :
    Marked text { s with lastLine := some line } where
  readable := h.readable
  begins := h.begins
  descending := h.descending
  reached p hp := (h.le_of_new new p hp).imp_right fun less => ⟨line, rfl, Nat.le_of_lt less⟩
  counts := h.counts

/-- The directive that has been placed last is believed. -/
private theorem believed_latest {offset place : Nat} {placed : List (Nat × LineDirective)}
    {column : Option Nat} (since : r.since = text.lineOf place) (le : place ≤ offset) :
    believed text ((place, ⟨r.file, some r.line, column⟩) :: placed) (text.lineOf offset) =
      some (r.file, r.lineAt (text.lineOf offset)) := by
  rw [believed_cons_of_le (Text.lineOf_mono text le), Reported.lineAt, since]
  rfl

/-- A directive on a new line is placed and believed. -/
theorem place (h : Marked text s) (new : ∀ last, s.lastLine = some last → last < line)
    (begins : BeginsLine text line) (since : r.since = text.lineOf line)
    (named : Nameable r.file) :
    Marked text (Positions.place { s with lastLine := some line } line r) := by
  have low := h.le_of_new new
  unfold Positions.place
  split
  · -- All that is at the very start is the directive there.
    rename_i zero
    subst zero
    have none_else : s.placed.dropLast = [] := by
      match placed : s.placed with
      | [] => rfl
      | [_] => rfl
      | p :: q :: rest =>
        have less : q.1 < p.1 := by
          have descending := h.descending
          rw [placed] at descending
          exact (List.pairwise_cons.1 descending).1 q List.mem_cons_self
        have start := low p (placed ▸ List.mem_cons_self)
        omega
    dsimp only
    rw [none_else]
    refine ⟨?_, ?_, List.pairwise_singleton _ _, ?_, fun offset _ => ?_⟩
    · simpa using readable_long named.one_line r.line 1
    · simpa using begins
    · simp
    · exact believed_latest since (Nat.zero_le offset)
  · rename_i positive
    refine ⟨?_, ?_, ?_, ?_, fun offset behind => ?_⟩
    · exact List.forall_mem_cons.2 ⟨named.readable r.line, h.readable⟩
    · exact List.forall_mem_cons.2 ⟨begins, h.begins⟩
    · refine List.pairwise_cons.2 ⟨fun p hp => ?_, h.descending⟩
      rcases low p hp with zero | less
      · exact zero ▸ Nat.pos_of_ne_zero positive
      · exact less
    · intro p hp
      rcases List.mem_cons.1 hp with rfl | hp
      · exact .inr ⟨line, rfl, Nat.le_refl line⟩
      · exact (low p hp).imp_right fun less => ⟨line, rfl, Nat.le_of_lt less⟩
    · exact believed_latest since (behind _ List.mem_cons_self)

/-- Behind the line looked at last the compiler counts on from the last directive. -/
private theorem believed_eq {offset : Nat} (h : Marked text s) (looked : s.lastLine = some line)
    (le : line ≤ offset) :
    believed text s.placed (text.lineOf offset) =
      some (s.reported.file, s.reported.lineAt (text.lineOf offset)) := by
  refine h.counts offset fun p hp => ?_
  rcases h.reached p hp with zero | ⟨last, same, below⟩
  · omega
  · rw [looked, Option.some.injEq] at same
    omega

end Marked

private theorem place_lastLine (s : State) (offset : Nat) (r : Reported) :
    (place s offset r).lastLine = s.lastLine := by
  unfold place
  split <;> rfl

private theorem place_reported (s : State) (offset : Nat) (r : Reported) :
    (place s offset r).reported = r := by
  unfold place
  split <;> rfl

/-- A directive changes nothing for the lines before it. -/
private theorem believed_place {text : Text} {s : State} {offset line : Nat} {r : Reported}
    (less : line < text.lineOf offset) :
    believed text (place s offset r).placed line = believed text s.placed line := by
  unfold place
  split
  · rename_i zero
    rw [zero] at less
    cases less
  · exact believed_cons_of_lt less

/-! ## The pass over the anchors -/

/-- The anchors that have been passed are reported right. -/
structure Placed (file : SourceFile) (rendered : Rendered) (seen : List Tree) (s : State) : Prop
    extends Marked rendered.text s where
  last : ∀ line, s.lastLine = some line → ∃ a ∈ seen, rendered.text.isFirstOnLine a.start ∧
    rendered.text.lineStart a.start = line
  passed : ∀ a ∈ seen, rendered.text.isFirstOnLine a.start →
    ∃ line, s.lastLine = some line ∧ rendered.text.lineStart a.start ≤ line
  right : ∀ a ∈ seen, rendered.text.isFirstOnLine a.start →
    ∃ reported, believed rendered.text s.placed (rendered.text.lineOf a.start) = some reported ∧
      IsPositionOf file rendered a.start reported

/-- What is first on a line and where a token could start is the only such place on the line. -/
private theorem eq_of_isFirstOnLine {text : Text} {offset other : Nat} (le : offset ≤ other)
    (solid : Solid text offset) (first : text.isFirstOnLine other)
    (same : text.lineStart offset = text.lineStart other) : offset = other := by
  obtain ⟨b, found, code⟩ := solid
  by_contra distinct
  have low := Text.lineStart_le text offset
  have blank := Text.isFirstOnLine_iff.1 first offset b (by omega) (by omega) found
  rw [code] at blank
  cases blank

namespace Placed

variable {seen : List Tree} {s : State} {anchor : Tree}

/-- Lines come in order, so one that is looked at for the first time is behind all others. -/
private theorem new_line (h : Placed file rendered seen s)
    (ordered : ∀ a ∈ seen, a.start ≤ anchor.start)
    (new : s.lastLine ≠ some (rendered.text.lineStart anchor.start)) (last : Nat)
    (looked : s.lastLine = some last) : last < rendered.text.lineStart anchor.start := by
  obtain ⟨a, ha, -, start⟩ := h.last last looked
  have le := Text.lineStart_mono rendered.text (ordered a ha)
  rw [start] at le
  refine Nat.lt_of_le_of_ne le fun same => new ?_
  rw [looked, same]

/-- An anchor that leaves the state as it is has been reported before or is not first. -/
theorem skip (h : Placed file rendered seen s)
    (right : rendered.text.isFirstOnLine anchor.start →
      ∃ a ∈ seen, rendered.text.isFirstOnLine a.start ∧ a.start = anchor.start) :
    Placed file rendered (seen ++ [anchor]) s where
  toMarked := h.toMarked
  last line looked := by
    obtain ⟨a, ha, found⟩ := h.last line looked
    exact ⟨a, List.mem_append_left _ ha, found⟩
  passed a ha first := by
    rcases List.mem_append.1 ha with ha | ha
    · exact h.passed a ha first
    · obtain rfl := List.mem_singleton.1 ha
      -- An anchor that is first has been seen before, on the same line.
      obtain ⟨a', ha', first', same⟩ := right first
      exact same ▸ h.passed a' ha' first'
  right a ha first := by
    rcases List.mem_append.1 ha with ha | ha
    · exact h.right a ha first
    · obtain rfl := List.mem_singleton.1 ha
      obtain ⟨a', ha', first', same⟩ := right first
      exact same ▸ h.right a' ha' first'

/-- An anchor on a new line is passed if it is reported right and what was reported stays so. -/
theorem advance {s' : State} (h : Placed file rendered seen s) (marked : Marked rendered.text s')
    (first : rendered.text.isFirstOnLine anchor.start)
    (line : s'.lastLine = some (rendered.text.lineStart anchor.start))
    (new : ∀ last, s.lastLine = some last → last < rendered.text.lineStart anchor.start)
    (right : IsPositionOf file rendered anchor.start
      (s'.reported.file, s'.reported.lineAt (rendered.text.lineOf anchor.start)))
    (kept : ∀ before < rendered.text.lineOf anchor.start,
      believed rendered.text s'.placed before = believed rendered.text s.placed before) :
    Placed file rendered (seen ++ [anchor]) s' where
  toMarked := marked
  last l looked := by
    rw [line, Option.some.injEq] at looked
    exact ⟨anchor, List.mem_append_right _ List.mem_cons_self, first, looked⟩
  passed a ha started := by
    refine ⟨_, line, ?_⟩
    rcases List.mem_append.1 ha with ha | ha
    · obtain ⟨l, looked, le⟩ := h.passed a ha started
      exact Nat.le_of_lt (Nat.lt_of_le_of_lt le (new l looked))
    · rw [List.mem_singleton.1 ha]
  right a ha started := by
    rcases List.mem_append.1 ha with ha | ha
    · obtain ⟨l, looked, le⟩ := h.passed a ha started
      -- Earlier anchors stand on earlier lines, about which the belief has not changed.
      rw [kept _ (Text.lineOf_lt (Nat.lt_of_le_of_lt le (new l looked)))]
      exact h.right a ha started
    · rw [List.mem_singleton.1 ha]
      exact ⟨_, marked.believed_eq line (Text.lineStart_le _ _), right⟩

/-- What looking at one anchor keeps. -/
theorem step (h : Placed file rendered seen s) (ordered : ∀ a ∈ seen, a.start ≤ anchor.start)
    (solids : ∀ a ∈ seen, Solid rendered.text a.start) (solid : Solid rendered.text anchor.start)
    (named : Nameable file.origin) :
    Placed file rendered (seen ++ [anchor]) (Positions.step file rendered s anchor) := by
  -- Only the first anchor of a line can need a directive.
  cases first : rendered.text.isFirstOnLine anchor.start with
  | false =>
    rw [step_eq_self (.inl first)]
    exact h.skip fun other => by rw [first] at other; cases other
  | true =>
    by_cases same : s.lastLine = some (rendered.text.lineStart anchor.start)
    · rw [step_eq_self (.inr same)]
      obtain ⟨a, ha, started, line⟩ := h.last _ same
      exact h.skip fun _ => ⟨a, ha, started,
        eq_of_isFirstOnLine (ordered a ha) (solids a ha) first line⟩
    · have new := h.new_line ordered same
      rcases step_cases first same with ⟨right, eq⟩ | ⟨r, right, since, name, eq⟩
      · rw [eq]
        exact h.advance (h.moved new) first rfl new right fun _ _ => rfl
      · have line := Text.lineOf_lineStart rendered.text anchor.start
        have nameable : Nameable r.file := by
          rcases name with own | added
          · rwa [own]
          · rw [added]
            exact ⟨by decide, by decide⟩
        have begins := beginsLine_lineStart solid.le_length
        rw [eq]
        refine h.advance (h.place new begins (since.trans line.symm) nameable) first ?_ new ?_ ?_
        · rw [place_lastLine]
        · rw [place_reported, Reported.lineAt, since, Nat.sub_self]
          exact right
        · intro before less
          exact believed_place (by rwa [line])

end Placed

/-- What the whole pass comes to. -/
private theorem placed_foldl {seen anchors : List Tree} {s : State}
    (h : Placed file rendered seen s) (named : Nameable file.origin)
    (ordered : (seen ++ anchors).Pairwise fun a b => a.start ≤ b.start)
    (solid : ∀ a ∈ seen ++ anchors, Solid rendered.text a.start) :
    Placed file rendered (seen ++ anchors) (anchors.foldl (Positions.step file rendered) s) := by
  induction anchors generalizing seen s with
  | nil => simpa using h
  | cons anchor anchors ih =>
    have before := (List.pairwise_append.1 ordered).2.2
    have next := h.step (fun a ha => before a ha anchor List.mem_cons_self)
      (fun a ha => solid a (List.mem_append_left _ ha))
      (solid anchor (List.mem_append_right _ List.mem_cons_self)) named
    rw [List.append_cons] at ordered solid ⊢
    exact ih next ordered solid

/-! ## Line numbers -/

/-- No line number in the state is above a bound. -/
def Below (most : Nat) (s : State) : Prop :=
  s.reported.line ≤ most ∧ ∀ p ∈ s.placed, p.2.line.getD 1 ≤ most

/-- Placing a directive keeps a bound of all lines. -/
theorem Below.place {most : Nat} {s : State} {r : Reported} (h : Below most s)
    (low : r.line ≤ most) (offset : Nat) : Below most (Positions.place s offset r) := by
  unfold Positions.place
  split
  · refine ⟨low, List.forall_mem_append.2 ⟨fun p hp => h.2 p (List.dropLast_subset _ hp), ?_⟩⟩
    exact List.forall_mem_singleton.2 low
  · exact ⟨low, List.forall_mem_cons.2 ⟨low, h.2⟩⟩

/-- The line of a position is one of the source, or the first of added code. -/
private theorem line_le_of_wanted? {reported r : Reported} {offset : Nat}
    (h : wanted? file rendered reported offset = some r) :
    r.line ≤ file.lineBase + file.source.count Text.newline + 1 := by
  unfold wanted? at h
  cases traced : rendered.sourceOffset? offset with
  | some source =>
    simp only [traced, Option.some.injEq] at h
    subst h
    -- An offset of the source stands on one of its lines.
    have low : file.source.lineOf source ≤ file.source.count Text.newline :=
      (List.take_sublist _ _).count_le _
    dsimp only
    omega
  | none =>
    simp only [traced, Option.ite_none_left_eq_some, Option.some.injEq] at h
    obtain ⟨-, rfl⟩ := h
    exact Nat.le_add_left ..

theorem Below.step {s : State} (h : Below (file.lineBase + file.source.count Text.newline + 1) s)
    (anchor : Tree) :
    Below (file.lineBase + file.source.count Text.newline + 1)
      (Positions.step file rendered s anchor) := by
  -- Looking at a line leaves the numbers as they are.
  have looked : Below (file.lineBase + file.source.count Text.newline + 1)
      { s with lastLine := some (rendered.text.lineStart anchor.start) } := h
  unfold Positions.step
  dsimp only
  split
  · exact h
  · split
    · exact h
    · rename_i r wanted
      split
      · exact h
      · exact looked.place (line_le_of_wanted? wanted) _

/-- The lines of the directives are lines of the source, or the first of added code. -/
private theorem directives_line_le (file : SourceFile) (rendered : Rendered) (tree : Tree) :
    ∀ p ∈ directives file rendered tree,
      p.2.line.getD 1 ≤ file.lineBase + file.source.count Text.newline + 1 := by
  have first : file.lineBase ≤ file.lineBase + file.source.count Text.newline + 1 := by omega
  have start : Below (file.lineBase + file.source.count Text.newline + 1)
      ⟨[(0, ⟨file.origin, some file.lineBase, some 1⟩)], ⟨file.origin, file.lineBase, 0⟩, none⟩ :=
    ⟨first, List.forall_mem_singleton.2 first⟩
  have kept := foldl_keeps (K := Below _) (l := anchors tree)
    (fun _ anchor _ (low : Below _ _) => @Below.step _ rendered _ low anchor) start
  exact fun p hp => kept.2 p (List.mem_reverse.1 hp)

/-! ## The woven text -/

/-- The directives of a woven text report its anchors right. -/
private theorem placed_directives {tree : Tree} (named : Nameable file.origin)
    (parsed : parse? rendered.text = some tree) :
    ∃ s, directives file rendered tree = s.placed.reverse ∧
      Placed file rendered (anchors tree) s := by
  have start : Placed file rendered [] ⟨[(0, ⟨file.origin, some file.lineBase, some 1⟩)],
      ⟨file.origin, file.lineBase, 0⟩, none⟩ := by
    refine ⟨⟨?_, ?_, List.pairwise_singleton _ _, ?_, fun offset _ => ?_⟩, nofun, nofun, nofun⟩
    · simpa using readable_long named.one_line file.lineBase 1
    · simpa using beginsLine_zero rendered.text
    · simp
    · exact Marked.believed_latest (r := ⟨file.origin, file.lineBase, 0⟩) rfl (Nat.zero_le offset)
  refine ⟨_, rfl, ?_⟩
  exact placed_foldl start named (anchors_ordered parsed) fun a ha => solid_of_mem_anchors parsed ha

/-- The lines of a text with directives, as the compiler reads them. -/
private theorem getElem?_read {s : State} {text : Text} (marked : Marked text s)
    (code : ∀ line ∈ linesOf text, directive? line = none) (path : Text) (i : Nat) :
    (read path (insertLines 0 s.placed.reverse text))[i]? = (linesOf text)[i]?.map fun t =>
      let reported := (believed text s.placed i).getD (path, 1 + i)
      ⟨t, reported.1, reported.2⟩ := by
  have ordered : (0 :: s.placed.reverse.map Prod.fst).Pairwise (· ≤ ·) := by
    refine List.pairwise_cons.2 ⟨fun _ _ => Nat.zero_le _, ?_⟩
    rw [List.pairwise_map, List.pairwise_reverse]
    exact marked.descending.imp Nat.le_of_lt
  have lines := getElem?_readFrom_insertLines
    (fun p hp => marked.begins p (List.mem_reverse.1 hp))
    (fun p hp => marked.readable p (List.mem_reverse.1 hp)) ordered code path 1 i
  rw [List.reverse_reverse, show text.lineOf 0 + i = i from Nat.zero_add i] at lines
  exact lines

/-- What the compiler makes of a woven text with directives: without them it is the woven text, and
every anchor that is first on its line is reported where it should be. -/
structure Reports (file : SourceFile) (rendered : Rendered) (tree : Tree) (lines : List Line) :
    Prop where
  text_eq : Text.join "\n" (lines.map Line.text) = rendered.text
  right : ∀ anchor ∈ anchors tree, rendered.text.isFirstOnLine anchor.start →
    ∃ line, lines[rendered.text.lineOf anchor.start]? = some line ∧
      IsPositionOf file rendered anchor.start (line.file, line.number)

/-- The compiler reports every anchor that is first on its line where it came from, or as added
code, if the file can be named in directives and the woven text has none of its own. The numbers are
sums without a bound; they are those of 64 bits as long as the number of the first line leaves room
for the lines of both texts, because then every directive leaves room for all lines behind it. -/
theorem annotate_reported {b : Buffer} {out : Text}
    (render : (canonical file b).render = .ok rendered) (done : annotate file b = .ok out)
    (named : Nameable file.origin)
    (code : ∀ line ∈ linesOf rendered.text, directive? line = none) (path : Text) :
    ∃ tree, parse? rendered.text = some tree ∧
      Reports file rendered tree (Compiler.read path out) ∧
      out = insertLines 0 (directives file rendered tree) rendered.text ∧
      (file.lineBase + file.source.count Text.newline + rendered.text.count Text.newline + 1
          < 2 ^ 64 →
        ∀ p ∈ directives file rendered tree,
          p.2.line.getD 1 + rendered.text.count Text.newline < 2 ^ 64) := by
  unfold annotate at done
  rw [render] at done
  dsimp only at done
  split at done
  · cases done
  · rename_i tree parsed
    cases done
    -- What holds of every round of the annotator holds in the end, read by the lines of the text.
    obtain ⟨s, placed, reported⟩ := placed_directives named parsed
    have lines := getElem?_read reported.toMarked code path
    refine ⟨tree, parsed, ⟨?_, fun anchor listed first => ?_⟩, rfl, fun room p hp => ?_⟩
    · have texts : (Compiler.read path (insertLines 0 s.placed.reverse rendered.text)).map
          Line.text = linesOf rendered.text := by
        refine List.ext_getElem? fun i => ?_
        rw [List.getElem?_map, lines, Option.map_map]
        exact congrFun Option.map_id _
      rw [placed, texts]
      exact Text.join_splitWhere Text.newline rendered.text
    · obtain ⟨position, believes, right⟩ := reported.right anchor listed first
      have inside : rendered.text.lineOf anchor.start < (linesOf rendered.text).length := by
        rw [length_linesOf]
        exact Nat.lt_succ_of_le ((List.take_sublist _ _).count_le _)
      refine ⟨⟨(linesOf rendered.text).get ⟨_, inside⟩, position.1, position.2⟩, ?_, right⟩
      rw [placed, lines, List.getElem?_eq_getElem inside, believes]
      rfl
    · -- No directive names a line beyond those of the file it is for.
      have low := directives_line_le file rendered tree p hp
      omega

/-- Two declarations on one line. -/
def sharedLine : Text := "package p\nvar x = 1; var y = 2\n"

/-- The file of two declarations on one line, under a name. -/
def sharedFile (name : Text) : SourceFile :=
  let tree := (parse? sharedLine).getD default
  ⟨name, name, 1, sharedLine, tree, .ofTree sharedLine tree,
    SourceFile.declaredPackage sharedLine tree⟩

private theorem parse_sharedLine (name : Text) :
    SourceFile.parse name sharedLine = .ok (sharedFile name) := by
  have wellFormed : Text.illFormedAt? sharedLine = none := by decide +kernel
  have unmoved : SourceFile.leadingLine? sharedLine = none := by decide +kernel
  have follows : (parse? sharedLine).isSome := by decide +kernel
  obtain ⟨tree, parsed⟩ := Option.isSome_iff_exists.1 follows
  simp [SourceFile.parse, SourceFile.ofText, sharedFile, wellFormed, unmoved, parsed]

/-- A declaration before the line. -/
def addedBefore : Buffer :=
  (Buffer.ofSource sharedLine).insert 10 "var z = 3\n" .left

/-- The added declaration, and then those of the line on two lines. -/
def wovenLines : Rendered where
  text := "package p\nvar z = 3\nvar x = 1; \nvar y = 2\n"
  segments :=
    [⟨0, 10, some 0⟩, ⟨10, 20, none⟩, ⟨20, 31, some 10⟩, ⟨31, 32, none⟩, ⟨32, 42, some 21⟩]

theorem annotate_reported_added :
    ∃ out tree, annotate (sharedFile "m.go") addedBefore = .ok out ∧
      parse? wovenLines.text = some tree ∧
      Reports (sharedFile "m.go") wovenLines tree (Compiler.read "out/m.go" out) ∧
      (Compiler.read "out/m.go" out).map Line.file =
        ["m.go", "<generated>", "m.go", "m.go", "m.go"] ∧
      (Compiler.read "out/m.go" out).map Line.number = [1, 1, 2, 2, 3] := by
  have done : annotate (sharedFile "m.go") addedBefore = .ok
      ("//line m.go:1:1\npackage p\n//line <generated>:1\nvar z = 3\n" ++
        "//line m.go:2\nvar x = 1; \n//line m.go:2\nvar y = 2\n") := by decide +kernel
  have render : (canonical (sharedFile "m.go") addedBefore).render = .ok wovenLines := by
    decide +kernel
  obtain ⟨tree, parsed, reports, -⟩ :=
    annotate_reported render done ⟨by decide, by decide⟩ (by decide +kernel) "out/m.go"
  exact ⟨_, tree, done, parsed, reports, by decide +kernel, by decide +kernel⟩

/-- The name of the file has to be one that can be given: without a column a directive for a name
that ends like a position is read as one for another file. -/
theorem not_reports_of_numbered :
    ¬ ∀ (name bytes : Text) (file : SourceFile) (b : Buffer) (rendered : Rendered)
        (out path : Text), SourceFile.parse name bytes = .ok file → b.source = file.source →
      (canonical file b).render = .ok rendered → annotate file b = .ok out →
      (∀ line ∈ linesOf rendered.text, directive? line = none) →
      ∃ tree, parse? rendered.text = some tree ∧
        Reports file rendered tree (Compiler.read path out) := by
  intro all
  have done : annotate (sharedFile "m.go:7") addedBefore = .ok
      ("//line m.go:7:1:1\npackage p\n//line <generated>:1\nvar z = 3\n" ++
        "//line m.go:7:2\nvar x = 1; \n//line m.go:7:2\nvar y = 2\n") := by decide +kernel
  obtain ⟨tree, parsed, reports⟩ := all "m.go:7" sharedLine (sharedFile "m.go:7") addedBefore
    wovenLines _ "out/m.go" (parse_sharedLine _) rfl (by decide +kernel) done (by decide +kernel)
  have starts : (parse? wovenLines.text).map (fun t => (anchors t).map Tree.start) =
      some [0, 10, 20, 32] := by decide +kernel
  rw [parsed, Option.map_some, Option.some.injEq] at starts
  obtain ⟨anchor, listed, start⟩ : ∃ anchor ∈ anchors tree, anchor.start = 20 :=
    List.mem_map.1 (by rw [starts]; decide)
  obtain ⟨line, found, right⟩ := reports.right anchor listed (by rw [start]; decide +kernel)
  rw [start] at found right
  -- The directive `//line m.go:7:2` is one for line 7 of `m.go`.
  have read : line = ⟨"var x = 1; ", "m.go", 7⟩ := by
    refine Option.some.inj (found.symm.trans ?_)
    decide +kernel
  have traced : wovenLines.sourceOffset? 20 = some 10 := by decide
  rw [IsPositionOf, traced, read] at right
  exact absurd right (by decide)

end Interlace.Positions
