import Interlace.Text.Basic

/-!
# Cutting and joining texts

What the operations that take texts apart say about `++`.

## Key results

- `Text.stripPrefix?_eq_some_iff`: a prefix comes off exactly where it stands
- `Text.stripSuffix?_eq_some_iff`: and so does a suffix
- `Text.find?_eq_some`: a pattern stands where it is found
- `Text.join_splitWhere`: splitting at a byte loses nothing else
-/

namespace Interlace.Text

/-- A prefix is stripped exactly from the texts that continue it. -/
theorem stripPrefix?_eq_some_iff {lead t rest : Text} :
    stripPrefix? lead t = some rest ↔ t = lead ++ rest := by
  induction lead generalizing t with
  | nil => simp [stripPrefix?]
  | cons a lead ih =>
    cases t with
    | nil => simp [stripPrefix?]
    | cons b t =>
      rw [stripPrefix?]
      split
      · rename_i h
        simp [ih, h]
      · rename_i h
        simp [Ne.symm h]

/-- A text starts with what it continues. -/
theorem startsWith_iff {t lead : Text} : startsWith t lead ↔ ∃ rest, t = lead ++ rest := by
  simp [startsWith, Option.isSome_iff_exists, stripPrefix?_eq_some_iff]

/-- A suffix is stripped exactly from the texts that lead to it. -/
theorem stripSuffix?_eq_some_iff {tail t rest : Text} :
    stripSuffix? tail t = some rest ↔ t = rest ++ tail := by
  simp only [stripSuffix?, Option.map_eq_some_iff, stripPrefix?_eq_some_iff]
  constructor
  · rintro ⟨a, h, rfl⟩
    rw [← List.reverse_reverse t, h]
    simp
  · rintro rfl
    exact ⟨rest.reverse, by simp⟩

/-- The pattern stands at the offset where it is found. -/
theorem find?_eq_some {pattern t : Text} {i : Nat} (h : find? pattern t = some i) :
    ∃ before rest, before.length = i ∧ t = before ++ pattern ++ rest := by
  induction t generalizing i with
  | nil =>
    rw [find?] at h
    split at h
    · rename_i blank
      cases h
      exact ⟨[], [], rfl, by simp [blank]⟩
    · cases h
  | cons b t ih =>
    rw [find?] at h
    split at h
    · rename_i starts
      cases h
      obtain ⟨rest, eq⟩ := startsWith_iff.1 starts
      exact ⟨[], rest, rfl, by simpa using eq⟩
    · obtain ⟨j, found, rfl⟩ := Option.map_eq_some_iff.1 h
      obtain ⟨before, rest, rfl, rfl⟩ := ih found
      exact ⟨b :: before, rest, rfl, rfl⟩

/-- A pattern is found no later than where it stands. -/
theorem le_of_find? {pattern u v : Text} {i : Nat}
    (h : find? pattern (u ++ pattern ++ v) = some i) :
    i ≤ u.length := by
  induction u generalizing i with
  | nil =>
    have starts : startsWith (pattern ++ v) pattern := startsWith_iff.2 ⟨v, rfl⟩
    rw [List.nil_append] at h
    cases whole : pattern ++ v with
    | nil =>
      have blank : pattern = [] := (List.append_eq_nil_iff.1 whole).1
      rw [whole, find?, if_pos blank] at h
      cases h
      exact Nat.le_refl _
    | cons b t =>
      rw [whole] at starts
      rw [whole, find?, if_pos starts] at h
      cases h
      exact Nat.le_refl _
  | cons b u ih =>
    rw [List.cons_append, List.cons_append, find?] at h
    split at h
    · cases h
      exact Nat.zero_le _
    · obtain ⟨j, found, rfl⟩ := Option.map_eq_some_iff.1 h
      exact Nat.succ_le_succ (ih found)

/-- A text has at least one piece. -/
theorem splitWhere_ne_nil (cut : UInt8 → Bool) (t : Text) : splitWhere cut t ≠ [] := by
  cases t with
  | nil => simp [splitWhere]
  | cons b t =>
    rw [splitWhere]
    split
    · simp
    · split <;> simp

/-- No piece holds a byte that was cut at. -/
theorem not_cut_of_mem_splitWhere {cut : UInt8 → Bool} {t piece : Text} {b : UInt8}
    (hp : piece ∈ splitWhere cut t) (hb : b ∈ piece) : cut b = false := by
  induction t generalizing piece with
  | nil =>
    simp only [splitWhere, List.mem_singleton] at hp
    subst hp
    cases hb
  | cons c t ih =>
    rw [splitWhere] at hp
    split at hp
    · rename_i absent
      exact absurd absent (splitWhere_ne_nil cut t)
    · rename_i first rest eq
      split at hp
      · rcases List.mem_cons.1 hp with rfl | hp
        · cases hb
        · exact ih (eq ▸ hp) hb
      · rename_i uncut
        rcases List.mem_cons.1 hp with rfl | hp
        · rcases List.mem_cons.1 hb with rfl | hb
          · simpa using uncut
          · exact ih (eq ▸ List.mem_cons_self) hb
        · exact ih (eq ▸ List.mem_cons_of_mem _ hp) hb

/-- Joining the pieces with the byte between them gives the text back. -/
theorem join_splitWhere (b : UInt8) (t : Text) : join [b] (splitWhere (· = b) t) = t := by
  induction t with
  | nil => rfl
  | cons c t ih =>
    rw [splitWhere]
    split
    · rename_i absent
      exact absurd absent (splitWhere_ne_nil _ t)
    · rename_i piece pieces eq
      rw [eq] at ih
      split
      · rename_i cut
        have hc : c = b := by simpa using cut
        rw [join, ih, hc]
        rfl
      · cases pieces with
        | nil => simpa [join] using ih
        | cons next pieces => simpa [join] using ih

/-- A text with one byte to cut at has two pieces. -/
theorem splitWhere_append {cut : UInt8 → Bool} {s t : Text} {b : UInt8}
    (hs : ∀ c ∈ s, cut c = false) (hb : cut b) :
    splitWhere cut (s ++ b :: t) = s :: splitWhere cut t := by
  induction s with
  | nil =>
    rw [List.nil_append, splitWhere]
    split
    · rename_i absent
      exact absurd absent (splitWhere_ne_nil cut t)
    · rename_i pieces
      rw [if_pos hb, pieces]
  | cons c s ih =>
    have rest := ih fun d hd => hs d (List.mem_cons_of_mem c hd)
    have uncut : ¬ cut c := Bool.eq_false_iff.1 (hs c List.mem_cons_self)
    rw [List.cons_append, splitWhere, rest]
    exact if_neg uncut

/-- A text without a byte to cut at is one piece. -/
theorem splitWhere_of_uncut {cut : UInt8 → Bool} {s : Text} (hs : ∀ c ∈ s, cut c = false) :
    splitWhere cut s = [s] := by
  induction s with
  | nil => rfl
  | cons c s ih =>
    have uncut : ¬ cut c := Bool.eq_false_iff.1 (hs c List.mem_cons_self)
    rw [splitWhere, ih fun d hd => hs d (List.mem_cons_of_mem c hd)]
    exact if_neg uncut

/-- The pieces around a cut are those before it and those behind it. -/
theorem splitWhere_append_cons {cut : UInt8 → Bool} {b : UInt8} (hb : cut b) (s t : Text) :
    splitWhere cut (s ++ b :: t) = splitWhere cut s ++ splitWhere cut t := by
  induction s with
  | nil => exact splitWhere_append nofun hb
  | cons c s ih =>
    obtain ⟨piece, pieces, first⟩ := List.exists_cons_of_ne_nil (splitWhere_ne_nil cut s)
    rw [List.cons_append, splitWhere, splitWhere, ih, first]
    simp only [List.cons_append]
    split <;> rfl

/-- What has no byte to cut at belongs to the first piece of what follows. -/
theorem splitWhere_append_of_uncut {cut : UInt8 → Bool} {s t piece : Text} {pieces : List Text}
    (uncut : ∀ c ∈ s, cut c = false) (split : splitWhere cut t = piece :: pieces) :
    splitWhere cut (s ++ t) = (s ++ piece) :: pieces := by
  induction s with
  | nil => exact split
  | cons b s ih =>
    obtain ⟨first, others⟩ := List.forall_mem_cons.1 uncut
    rw [List.cons_append, splitWhere, ih others]
    dsimp only
    rw [if_neg (Bool.eq_false_iff.1 first)]
    rfl

/-- Joined texts are the first one and then each other behind the separator. -/
theorem join_cons (separator t : Text) (ts : List Text) :
    join separator (t :: ts) = t ++ ts.flatMap (separator ++ ·) := by
  induction ts generalizing t with
  | nil => simp [join]
  | cons u ts ih =>
    rw [join, ih, List.flatMap_cons]
    simp only [List.append_assoc]

theorem length_slice {t : Text} {start stop : Nat} (h : stop ≤ t.length) :
    (t.slice start stop).length = stop - start := by
  rw [slice, List.length_take, List.length_drop]
  omega

theorem slice_append_append (front middle back : Text) :
    (front ++ middle ++ back).slice front.length (front.length + middle.length) = middle := by
  unfold slice
  rw [List.append_assoc, List.drop_left, Nat.add_sub_cancel_left, List.take_left]

end Interlace.Text
