import Interlace.Proofs.WrappedExpressions

/-!
# Readings of a text by a pattern

A pattern reads a text by cutting it into pieces that fit the pieces of the pattern. There may be
several readings, and matching finds the earliest: the one whose first piece is the shortest, and
among those the one whose second piece is, and so on.

## Key results

- `WrapPattern.Reads`: the pieces that a pattern can cut a text into
- `WrapPattern.finds_matchFrom`: matching finds the earliest reading if there is one
- `WrapPattern.hole?_eq_some_iff_earliest`: the hole found is that of the earliest reading
-/

namespace Interlace

/-- Whoever goes through ascending numbers stops at the least that will do. -/
private theorem findSome?_ascending {α : Type} {f : Nat → Option α} {l : List Nat}
    (ascending : l.Pairwise (· < ·)) {a : α} (h : l.findSome? f = some a) :
    ∃ n ∈ l, f n = some a ∧ ∀ m ∈ l, m < n → f m = none := by
  obtain ⟨before, n, behind, rfl, found, missed⟩ := List.findSome?_eq_some_iff.1 h
  refine ⟨n, by simp, found, fun m hm less => ?_⟩
  rw [List.mem_append, List.mem_cons] at hm
  have later := (List.pairwise_cons.1 (List.pairwise_append.1 ascending).2.1).1
  rcases hm with early | rfl | late
  · exact missed m early
  · exact absurd less (Nat.lt_irrefl m)
  · exact absurd (later m late) (Nat.lt_asymm less)

namespace Balance

/-- The scan finds its ends from left to right. -/
private theorem endsFrom_ascending (offset depth : Nat) (state : QuoteState) (t : Text) :
    (endsFrom offset depth state t).Pairwise (· < ·) := by
  induction t generalizing offset depth state with
  | nil =>
    rw [endsFrom]
    split <;> simp
  | cons b t ih =>
    -- All ends that the rest of the scan finds are behind this byte.
    have later : ∀ {depth : Nat} {state : QuoteState} {n : Nat},
        n ∈ endsFrom (offset + 1) depth state t → offset < n := le_of_mem_endsFrom
    have here : ∀ {c : Bool} {depth : Nat} {state : QuoteState},
        ((if c then [offset] else []) ++ endsFrom (offset + 1) depth state t).Pairwise
          (· < ·) := by
      intro c depth state
      cases c with
      | true => exact List.pairwise_cons.2 ⟨fun n hn => later hn, ih ..⟩
      | false => exact ih ..
    cases state with
    | quoted mark => exact ih ..
    | escaped mark => exact ih ..
    | code =>
      rw [endsFrom]
      split
      · exact here
      split
      · split
        · split <;> simp
        · exact here
      split
      · exact here
      · exact here

end Balance

namespace WrapPattern

/-! ## Where a piece may end -/

/-- What comes before the text ends with a whole character. -/
def StartsWhole (t : Text) : Prop :=
  ∀ b ∈ t.head?, Text.isContinuation b = false

theorem mem_boundaries_iff {n offset : Nat} {t : Text} :
    n ∈ boundaries offset t ↔ ∃ u v, t = u ++ v ∧ n = offset + u.length ∧ StartsWhole v := by
  induction t generalizing offset with
  | nil => simp [boundaries, StartsWhole]
  | cons b t ih =>
    -- The boundaries behind the first byte are those of the rest.
    have behind : n ∈ boundaries (offset + 1) t ↔
        ∃ u v, b :: t = (b :: u) ++ v ∧ n = offset + (b :: u).length ∧ StartsWhole v := by
      rw [ih]
      simp [Nat.add_assoc, Nat.add_comm 1]
    rw [boundaries]
    constructor
    · intro h
      split at h
      · obtain ⟨u, v, cut⟩ := behind.1 h
        exact ⟨b :: u, v, cut⟩
      · rename_i whole
        rcases List.mem_cons.1 h with rfl | h
        · exact ⟨[], b :: t, rfl, rfl, by simpa [StartsWhole] using whole⟩
        · obtain ⟨u, v, cut⟩ := behind.1 h
          exact ⟨b :: u, v, cut⟩
    · rintro ⟨u, v, cut, rfl, whole⟩
      cases u with
      | nil =>
        obtain rfl : b :: t = v := cut
        have first : ¬ Text.isContinuation b = true := by simpa [StartsWhole] using whole
        rw [if_neg first]
        exact List.mem_cons_self
      | cons c u =>
        obtain ⟨rfl, rfl⟩ := List.cons.inj cut
        have listed := behind.2 ⟨u, v, rfl, rfl, whole⟩
        split
        · exact listed
        · exact List.mem_cons_of_mem _ listed

private theorem boundaries_ascending (offset : Nat) (t : Text) :
    (boundaries offset t).Pairwise (· < ·) := by
  induction t generalizing offset with
  | nil => simp [boundaries]
  | cons b t ih =>
    rw [boundaries]
    split
    · exact ih _
    · refine List.pairwise_cons.2 ⟨fun n hn => ?_, ih _⟩
      obtain ⟨u, v, -, rfl, -⟩ := mem_boundaries_iff.1 hn
      omega

/-- A text may stand in the hole before another: it is not empty and ends where a scan from its
start has no bracket open, and no literal but at the end of everything. -/
structure FillsHole (u rest : Text) : Prop where
  given : u ≠ []
  closed : ∃ state, Balance.after 0 .code u = some (0, state) ∧ (rest ≠ [] → state = .code)
  whole : StartsWhole rest

theorem mem_ends_iff {n : Nat} {t : Text} :
    n ∈ Balance.ends t ↔ ∃ u v, t = u ++ v ∧ n = u.length ∧ FillsHole u v := by
  -- Where the text ends no character has to start, so that case stands for itself.
  have cut : ∀ u v : Text, u.length ∈ Balance.ends (u ++ v) ↔ FillsHole u v := by
    intro u v
    rw [Balance.length_mem_ends_iff]
    cases v with
    | nil =>
      refine ⟨fun ⟨given, state, closed, _⟩ => ⟨given, ⟨state, closed, nofun⟩, nofun⟩,
        fun ⟨given, ⟨state, closed, _⟩, _⟩ => ⟨given, state, closed, nofun⟩⟩
    | cons b v =>
      constructor
      · rintro ⟨given, state, closed, next⟩
        obtain ⟨code, whole⟩ := next b rfl
        exact ⟨given, ⟨state, closed, fun _ => code⟩, by simpa [StartsWhole] using whole⟩
      · rintro ⟨given, ⟨state, closed, code⟩, whole⟩
        exact ⟨given, state, closed, fun c hc => ⟨code (List.cons_ne_nil b v), whole c hc⟩⟩
  constructor
  · intro h
    have inside : n ≤ t.length := by simpa using Balance.le_length_of_mem_endsFrom h
    have size : (t.take n).length = n := List.length_take_of_le inside
    refine ⟨t.take n, t.drop n, (List.take_append_drop n t).symm, size.symm, (cut _ _).1 ?_⟩
    rwa [size, List.take_append_drop]
  · rintro ⟨u, v, rfl, rfl, fills⟩
    exact (cut u v).2 fills

/-! ## Readings -/

/-- Pieces of a text that fit the pieces of a pattern, one by one. -/
inductive Reads : List WrapPiece → List Text → Prop where
  | nil : Reads [] []
  | literal {pieces : List WrapPiece} {us : List Text} (u : Text) (rest : Reads pieces us) :
      Reads (.literal u :: pieces) (u :: us)
  | hole {pieces : List WrapPiece} {u : Text} {us : List Text} (fills : FillsHole u us.flatten)
      (rest : Reads pieces us) : Reads (.hole :: pieces) (u :: us)
  | any {pieces : List WrapPiece} (u : Text) {us : List Text} (whole : StartsWhole us.flatten)
      (rest : Reads pieces us) : Reads (.any :: pieces) (u :: us)

/-- One reading is earlier than another: the first pieces of different lengths are shorter. -/
def Before (us vs : List Text) : Prop :=
  us.map List.length < vs.map List.length

/-- The range of the hole in a reading of a text that starts at an offset. -/
def holeIn : List WrapPiece → (offset : Nat) → List Text → Option (Nat × Nat)
  | .hole :: _, offset, u :: _ => some (offset, offset + u.length)
  | _ :: pieces, offset, u :: us => holeIn pieces (offset + u.length) us
  | _, _, _ => none

/-- A reading of a text that no other is earlier than. -/
structure Earliest (pieces : List WrapPiece) (t : Text) (us : List Text) : Prop where
  reads : Reads pieces us
  whole : us.flatten = t
  first : ∀ vs, Reads pieces vs → vs.flatten = t → ¬ Before vs us

theorem Reads.length_eq {pieces : List WrapPiece} {us : List Text} (h : Reads pieces us) :
    us.length = pieces.length := by
  induction h with
  | nil => rfl
  | literal u rest ih => exact congrArg (· + 1) ih
  | hole fills rest ih => exact congrArg (· + 1) ih
  | any u whole rest ih => exact congrArg (· + 1) ih

theorem reads_literal_iff {u : Text} {pieces : List WrapPiece} {ws : List Text} :
    Reads (.literal u :: pieces) ws ↔ ∃ us, ws = u :: us ∧ Reads pieces us := by
  constructor
  · intro read
    cases read with
    | literal _ rest => exact ⟨_, rfl, rest⟩
  · rintro ⟨us, rfl, rest⟩
    exact .literal u rest

theorem reads_hole_iff {pieces : List WrapPiece} {ws : List Text} :
    Reads (.hole :: pieces) ws ↔
      ∃ u us, ws = u :: us ∧ FillsHole u us.flatten ∧ Reads pieces us := by
  constructor
  · intro read
    cases read with
    | hole fills rest => exact ⟨_, _, rfl, fills, rest⟩
  · rintro ⟨u, us, rfl, fills, rest⟩
    exact .hole fills rest

theorem reads_any_iff {pieces : List WrapPiece} {ws : List Text} :
    Reads (.any :: pieces) ws ↔
      ∃ u us, ws = u :: us ∧ StartsWhole us.flatten ∧ Reads pieces us := by
  constructor
  · intro read
    cases read with
    | any u whole rest => exact ⟨_, _, rfl, whole, rest⟩
  · rintro ⟨u, us, rfl, whole, rest⟩
    exact .any u whole rest

/-- Whether a piece fits depends on the text behind it, not on how that is read. -/
private theorem Reads.replace_tail {piece : WrapPiece} {pieces : List WrapPiece} {u : Text}
    {us vs : List Text} (h : Reads (piece :: pieces) (u :: us)) (rest : Reads pieces vs)
    (same : vs.flatten = us.flatten) : Reads (piece :: pieces) (u :: vs) := by
  cases h with
  | literal _ _ => exact .literal u rest
  | hole fills _ => exact .hole (same ▸ fills) rest
  | any _ whole _ => exact .any u (same ▸ whole) rest

theorem Reads.tail {piece : WrapPiece} {pieces : List WrapPiece} {u : Text} {us : List Text}
    (h : Reads (piece :: pieces) (u :: us)) : Reads pieces us := by
  cases h with
  | literal _ rest => exact rest
  | hole _ rest => exact rest
  | any _ _ rest => exact rest

/-- A reading has a hole if the pattern has one. -/
theorem Reads.isSome_holeIn {pieces : List WrapPiece} {us : List Text} (h : Reads pieces us)
    (mem : .hole ∈ pieces) (offset : Nat) : (holeIn pieces offset us).isSome := by
  induction h generalizing offset with
  | nil => cases mem
  | literal u rest ih => exact ih ((List.mem_cons.1 mem).resolve_left nofun) _
  | hole fills rest ih => rfl
  | any u whole rest ih => exact ih ((List.mem_cons.1 mem).resolve_left nofun) _

theorem before_cons_iff {u v : Text} {us vs : List Text} :
    Before (u :: us) (v :: vs) ↔ u.length < v.length ∨ u.length = v.length ∧ Before us vs :=
  List.cons_lt_cons_iff

/-- Of two different readings of a text one is earlier. -/
private theorem before_or_eq {us vs : List Text} (size : us.length = vs.length)
    (same : us.flatten = vs.flatten) : Before us vs ∨ us = vs ∨ Before vs us := by
  induction us generalizing vs with
  | nil =>
    rw [List.length_nil, eq_comm, List.length_eq_zero_iff] at size
    exact .inr (.inl size.symm)
  | cons u us ih =>
    obtain ⟨v, vs, rfl⟩ := List.exists_cons_of_length_eq_add_one size.symm
    rw [before_cons_iff, before_cons_iff]
    -- The first pieces are compared; if they are equally long they are the same.
    rcases Nat.lt_trichotomy u.length v.length with less | equal | more
    · exact .inl (.inl less)
    · rw [List.flatten_cons, List.flatten_cons] at same
      obtain ⟨rfl, rest⟩ := List.append_inj same equal
      rcases ih (Nat.succ.inj size) rest with before | rfl | behind
      · exact .inl (.inr ⟨rfl, before⟩)
      · exact .inr (.inl rfl)
      · exact .inr (.inr (.inr ⟨rfl, behind⟩))
    · exact .inr (.inr (.inl more))

theorem Earliest.unique {pieces : List WrapPiece} {t : Text} {us vs : List Text}
    (h : Earliest pieces t us) (h' : Earliest pieces t vs) : us = vs := by
  have size := h.reads.length_eq.trans h'.reads.length_eq.symm
  rcases before_or_eq size (h.whole.trans h'.whole.symm) with before | same | behind
  · exact absurd before (h'.first us h.reads h.whole)
  · exact same
  · exact absurd behind (h.first vs h'.reads h'.whole)

/-- Behind its first piece the earliest reading is the earliest. -/
theorem Earliest.tail {piece : WrapPiece} {pieces : List WrapPiece} {t u : Text} {us : List Text}
    (h : Earliest (piece :: pieces) (u ++ t) (u :: us)) : Earliest pieces t us := by
  have whole : us.flatten = t := List.append_cancel_left h.whole
  refine ⟨h.reads.tail, whole, fun vs read same earlier => ?_⟩
  have other := h.reads.replace_tail read (same.trans whole.symm)
  exact h.first _ other (congrArg (u ++ ·) same) (before_cons_iff.2 (.inr ⟨rfl, earlier⟩))

/-- The first piece of the earliest reading is no longer than that of any other. -/
theorem Earliest.length_le {pieces : List WrapPiece} {t u v : Text} {us vs : List Text}
    (h : Earliest pieces t (u :: us)) (read : Reads pieces (v :: vs))
    (same : (v :: vs).flatten = t) : u.length ≤ v.length := by
  by_contra longer
  exact h.first _ read same (before_cons_iff.2 (.inl (Nat.lt_of_not_le longer)))

/-! ## Matching -/

/-- What matching comes to: nothing if the text cannot be read, and otherwise the hole of its
earliest reading. -/
def Finds (pieces : List WrapPiece) (offset : Nat) (t : Text)
    (result : Option (Option (Nat × Nat))) : Prop :=
  (result = none ∧ ∀ us, Reads pieces us → us.flatten ≠ t) ∨
    ∃ us, Earliest pieces t us ∧ result = some (holeIn pieces offset us)

/-- A piece that may end at several places ends at the first behind which the rest can be read. -/
private theorem finds_findSome? {piece : WrapPiece} {pieces : List WrapPiece} {offset : Nat}
    {t : Text} {Fits : Text → Text → Prop} {ends : List Nat}
    (reads : ∀ ws, Reads (piece :: pieces) ws ↔
      ∃ u us, ws = u :: us ∧ Fits u us.flatten ∧ Reads pieces us)
    (ascending : ends.Pairwise (· < ·))
    (listed : ∀ n, n ∈ ends ↔ ∃ u v, t = u ++ v ∧ n = u.length ∧ Fits u v)
    {f : Nat → Option (Option (Nat × Nat))}
    (rest : ∀ n, Finds pieces (offset + n) (t.drop n) (f n))
    (wrap : Option (Nat × Nat) → Nat → Option (Nat × Nat))
    (hole : ∀ u us, holeIn (piece :: pieces) offset (u :: us) =
      wrap (holeIn pieces (offset + u.length) us) u.length) :
    Finds (piece :: pieces) offset t
      (ends.findSome? fun n => (f n).map fun found => wrap found n) := by
  -- A reading has its first piece end at one of the ends, and the rest is read behind it.
  have split : ∀ ws, Reads (piece :: pieces) ws → ws.flatten = t → ∃ u us, ws = u :: us ∧
      u.length ∈ ends ∧ Reads pieces us ∧ us.flatten = t.drop u.length := by
    rintro ws read rfl
    obtain ⟨u, us, rfl, fits, inner⟩ := (reads ws).1 read
    exact ⟨u, us, rfl, (listed _).2 ⟨u, us.flatten, rfl, rfl, fits⟩, inner, by simp⟩
  cases found : ends.findSome? fun n => (f n).map fun found => wrap found n with
  | none =>
    refine .inl ⟨rfl, fun ws read whole => ?_⟩
    obtain ⟨u, us, rfl, here, inner, behind⟩ := split ws read whole
    have missed := List.findSome?_eq_none_iff.1 found _ here
    rcases rest u.length with ⟨-, none_left⟩ | ⟨vs, -, given⟩
    · exact none_left us inner behind
    · rw [given] at missed
      cases missed
  | some result =>
    obtain ⟨n, here, chosen, missed⟩ := findSome?_ascending ascending found
    obtain ⟨inner, given, rfl⟩ := Option.map_eq_some_iff.1 chosen
    obtain ⟨u, v, rfl, rfl, fits⟩ := (listed n).1 here
    rcases rest u.length with ⟨lost, -⟩ | ⟨us, earliest, same⟩
    · rw [lost] at given
      cases given
    obtain rfl := Option.some.inj (given.symm.trans same)
    rw [List.drop_left] at earliest
    refine .inr ⟨u :: us, ⟨(reads _).2 ⟨u, us, rfl, ?_, earliest.reads⟩, ?_, ?_⟩, ?_⟩
    · rwa [earliest.whole]
    · rw [List.flatten_cons, earliest.whole]
    · intro ws read whole earlier
      obtain ⟨w, ws, rfl, place, later, behind⟩ := split ws read whole
      rcases before_cons_iff.1 earlier with less | ⟨equal, less⟩
      · -- Behind an earlier end nothing can be read.
        have lost := missed _ place less
        rcases rest w.length with ⟨-, none_left⟩ | ⟨vs, -, given⟩
        · exact none_left ws later behind
        · rw [given] at lost
          cases lost
      · rw [equal, List.drop_left] at behind
        exact earliest.first ws later behind less
    · rw [hole]

/-- Matching finds the earliest reading, if there is one. -/
theorem finds_matchFrom (pieces : List WrapPiece) (offset : Nat) (t : Text) :
    Finds pieces offset t (matchFrom pieces offset t) := by
  induction pieces generalizing offset t with
  | nil =>
    rw [matchFrom]
    split
    · rename_i ended
      subst ended
      refine .inr ⟨[], ⟨.nil, rfl, fun vs read _ earlier => ?_⟩, rfl⟩
      cases read
      exact absurd earlier (List.lt_irrefl _)
    · rename_i more
      refine .inl ⟨rfl, fun us read whole => ?_⟩
      cases read
      exact more whole.symm
  | cons piece pieces ih =>
    cases piece with
    | literal lead =>
      rw [matchFrom]
      cases found : Text.stripPrefix? lead t with
      | none =>
        refine .inl ⟨rfl, fun ws read whole => ?_⟩
        obtain ⟨us, rfl, -⟩ := reads_literal_iff.1 read
        rw [Text.stripPrefix?_eq_some_iff.2 (whole.symm.trans List.flatten_cons)] at found
        cases found
      | some rest =>
        obtain rfl := Text.stripPrefix?_eq_some_iff.1 found
        rcases ih (offset + lead.length) rest with ⟨lost, none_left⟩ | ⟨us, earliest, given⟩
        · refine .inl ⟨lost, fun ws read whole => ?_⟩
          obtain ⟨us, rfl, inner⟩ := reads_literal_iff.1 read
          exact none_left us inner (List.append_cancel_left whole)
        · refine .inr ⟨lead :: us, ⟨.literal lead earliest.reads, ?_, ?_⟩, given⟩
          · rw [List.flatten_cons, earliest.whole]
          · intro ws read whole earlier
            obtain ⟨vs, rfl, inner⟩ := reads_literal_iff.1 read
            rcases before_cons_iff.1 earlier with less | ⟨-, less⟩
            · exact Nat.lt_irrefl _ less
            · exact earliest.first vs inner (List.append_cancel_left whole) less
    | hole =>
      -- Of all ends of the expression, the first from which the rest can be read is taken.
      exact finds_findSome? (fun ws => reads_hole_iff) (Balance.endsFrom_ascending ..)
        (fun n => mem_ends_iff) (fun n => ih (offset + n) (t.drop n))
        (fun _ n => some (offset, offset + n)) fun _ _ => rfl
    | any =>
      have listed : ∀ n, n ∈ boundaries 0 t ↔
          ∃ u v, t = u ++ v ∧ n = u.length ∧ StartsWhole v := by
        simp [mem_boundaries_iff]
      have plain := @finds_findSome? .any pieces offset t (fun _ => StartsWhole) _
        (fun ws => reads_any_iff) (boundaries_ascending 0 t) listed _
        (fun n => ih (offset + n) (t.drop n)) (fun found _ => found) fun _ _ => rfl
      rw [matchFrom]
      simpa only [Option.map_id'] using plain

/-- Of all readings of a text one is the earliest. -/
theorem Reads.exists_earliest {pieces : List WrapPiece} {us : List Text} (h : Reads pieces us) :
    ∃ vs, Earliest pieces us.flatten vs := by
  rcases finds_matchFrom pieces 0 us.flatten with ⟨-, none_left⟩ | ⟨vs, earliest, -⟩
  · exact absurd rfl (none_left us h)
  · exact ⟨vs, earliest⟩

/-- What is found is the hole of the earliest reading. -/
theorem hole?_eq_some_iff_earliest {p : WrapPattern} {t : Text} {range : Nat × Nat} :
    p.hole? t = some range ↔
      ∃ us, Earliest p.pieces t us ∧ holeIn p.pieces 0 us = some range := by
  rw [hole?]
  -- The search finds the earliest reading if there is any.
  rcases finds_matchFrom p.pieces 0 t with ⟨lost, none_left⟩ | ⟨us, earliest, given⟩
  · rw [lost]
    refine iff_of_false (by simp) ?_
    rintro ⟨us, earliest, -⟩
    exact none_left us earliest.reads earliest.whole
  · rw [given, Option.join_some]
    constructor
    · intro found
      exact ⟨us, earliest, found⟩
    · rintro ⟨vs, earliest', found⟩
      rwa [earliest.unique earliest']

private theorem Reads.holeIn_bounds {pieces : List WrapPiece} {us : List Text} (h : Reads pieces us)
    {offset : Nat} {range : Nat × Nat} (found : holeIn pieces offset us = some range) :
    offset ≤ range.1 ∧ range.1 < range.2 ∧ range.2 ≤ offset + us.flatten.length := by
  induction h generalizing offset with
  | nil => cases found
  | hole fills rest ih =>
    cases found
    have := List.length_pos_iff.2 fills.given
    rw [List.flatten_cons, List.length_append]
    omega
  | literal u rest ih | any u whole rest ih =>
    have := ih found
    rw [List.flatten_cons, List.length_append]
    omega

/-- A hole is not empty, and lies in the text. -/
theorem hole?_bounds {p : WrapPattern} {t : Text} {range : Nat × Nat}
    (h : p.hole? t = some range) : range.1 < range.2 ∧ range.2 ≤ t.length := by
  obtain ⟨us, earliest, found⟩ := hole?_eq_some_iff_earliest.1 h
  have := earliest.reads.holeIn_bounds found
  rw [earliest.whole] at this
  omega

/-- In a text that can be read, the hole found is a given one exactly if every reading with another
hole is later than some reading with this one. -/
theorem hole?_eq_some_iff_before {p : WrapPattern} {t : Text} {range : Nat × Nat} {us : List Text}
    (reads : Reads p.pieces us) (whole : us.flatten = t) :
    p.hole? t = some range ↔
      ∀ vs, Reads p.pieces vs → vs.flatten = t → holeIn p.pieces 0 vs ≠ some range →
        ∃ us, Reads p.pieces us ∧ us.flatten = t ∧ holeIn p.pieces 0 us = some range ∧
          Before us vs := by
  rw [hole?_eq_some_iff_earliest]
  constructor
  · rintro ⟨us, earliest, found⟩ vs read same other
    refine ⟨us, earliest.reads, earliest.whole, found, ?_⟩
    -- Of two readings one is earlier, and none is earlier than the earliest.
    have size := earliest.reads.length_eq.trans read.length_eq.symm
    rcases before_or_eq size (earliest.whole.trans same.symm) with before | rfl | behind
    · exact before
    · exact absurd found other
    · exact absurd behind (earliest.first vs read same)
  · intro later
    obtain ⟨vs, earliest⟩ := reads.exists_earliest
    rw [whole] at earliest
    refine ⟨vs, earliest, ?_⟩
    by_contra other
    obtain ⟨ws, read, same, -, before⟩ := later vs earliest.reads earliest.whole other
    exact earliest.first ws read same before

end WrapPattern

end Interlace
