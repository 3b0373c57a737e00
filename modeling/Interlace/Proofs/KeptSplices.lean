import Interlace.Proofs.EditMeaning
import Interlace.Proofs.Splicing
import Mathlib.Data.List.Nodup

/-!
# Splices and recorded replacements

Splices are sorted and filtered, and what is kept is applied from the back to the front. A buffer
sweeps over its edits from the front to the back. Where the buffer has the splices that are kept,
recorded in any order, both give the same text: what stands between two splices, then the text of
the next one.

## Key results

- `Splice.exists_dropped`: what is passed over is out of bounds or starts in what is kept
- `Splice.render_recorded`: recorded splices that lie apart are written from front to back
- `Splice.kept_eq_of_perm`: where no two splices meet, their order does not matter
- `Splice.applyAll_rendered`: splicing a text is rendering what is kept of the splices
-/

namespace Interlace

namespace Splice

/-- The splices that are applied to a text. -/
def kept (source : Text) (splices : List Splice) : List Splice :=
  keep source.length 0 (sortBy before splices)

/-- The splices both replace some byte. -/
def meets (a b : Splice) : Bool :=
  a.start < b.stop && b.start < a.stop

/-- The splice as an edit of a buffer. -/
def edit (s : Splice) : Edit := ⟨s.start, s.stop, s.text, .right⟩

/-- A buffer in which splices are recorded as replacements, one after the other. -/
def recorded (source : Text) (splices : List Splice) : Buffer :=
  splices.foldl (fun b s => b.replace s.start s.stop s.text) (.ofSource source)

variable {source : Text} {splices order : List Splice}

private theorem meets_symm {a b : Splice} (h : a.meets b = false) : b.meets a = false := by
  simpa only [meets, Bool.and_comm] using h

private theorem meets_eq_false_of_le {a b : Splice} (h : a.stop ≤ b.start) : a.meets b = false := by
  simp only [meets, Bool.and_eq_false_iff, decide_eq_false_iff_not]
  omega

/-! ## What is kept -/

theorem before_iff {a b : Splice} :
    a.before b ↔ a.start < b.start ∨ a.start = b.start ∧ b.stop ≤ a.stop := by
  simp [before]

theorem before_trans (a b c : Splice) (hab : a.before b) (hbc : b.before c) : a.before c := by
  rw [before_iff] at *
  omega

theorem before_total (a b : Splice) : a.before b || b.before a := by
  rw [Bool.or_eq_true, before_iff, before_iff]
  omega

/-- Of splices in order, those that are not kept end behind the text, start in what was covered
before, or start in one that is kept and starts no later. -/
theorem exists_dropped {length reached : Nat} (sorted : splices.Pairwise fun s t => s.before t) :
    ∃ dropped, (keep length reached splices ++ dropped).Perm splices ∧
      ∀ s ∈ dropped, length < s.stop ∨ s.start < reached ∨
        ∃ k ∈ keep length reached splices,
          k.start ≤ s.start ∧ s.start < max k.stop k.start := by
  induction splices generalizing reached with
  | nil => exact ⟨[], .nil, nofun⟩
  | cons t splices ih =>
    obtain ⟨first, rest⟩ := List.pairwise_cons.1 sorted
    rw [keep]
    split
    · rename_i misfit
      simp only [Bool.or_eq_true, decide_eq_true_eq] at misfit
      obtain ⟨dropped, perm, passed⟩ := @ih reached rest
      refine ⟨t :: dropped, ?_, List.forall_mem_cons.2 ⟨?_, passed⟩⟩
      · exact List.perm_middle.trans (perm.cons t)
      · exact misfit.symm.imp_right .inl
    · obtain ⟨dropped, perm, passed⟩ := @ih (max t.stop t.start) rest
      refine ⟨dropped, perm.cons t, fun s hs => ?_⟩
      -- What starts before the end of the one that was just kept starts in it.
      have later : t.start ≤ s.start := by
        have order := before_iff.1 (first s (perm.mem_iff.1 (List.mem_append_right _ hs)))
        omega
      rcases passed s hs with far | early | ⟨k, listed, low, inside⟩
      · exact .inl far
      · exact .inr (.inr ⟨t, List.mem_cons_self, later, early⟩)
      · exact .inr (.inr ⟨k, List.mem_cons_of_mem _ listed, low, inside⟩)

section

variable (proper : ∀ s ∈ splices, s.start < s.stop)

include proper

/-- What is kept are some of the splices, in bounds and one behind the other. -/
theorem kept_apart : kept source splices ⊆ splices ∧ Apart 0 source.length (kept source splices) ∧
    (kept source splices).Pairwise fun s t => s.stop ≤ t.start := by
  obtain ⟨listed, apart⟩ := @keep_apart source.length 0 (sortBy before splices)
  have given : kept source splices ⊆ splices :=
    fun s hs => (sortBy_perm _ _).mem_iff.1 (listed s hs).1
  refine ⟨given, .of_pairwise (Nat.zero_le _) (fun s hs => ?_) (fun s hs => (listed s hs).2) apart,
    apart⟩
  exact Nat.le_of_lt (proper s (given hs))

/-- What is kept, applied from the back, is written from front to back. -/
theorem applyAll_eq_spliced_kept :
    applyAll source splices = spliced source 0 source.length (kept source splices) := by
  rw [applyAll, List.foldl_reverse]
  exact foldr_apply (kept_apart proper).2.1

/-- Every splice in bounds that is not kept meets one that is kept and starts no later. -/
theorem exists_dropped_of_kept :
    ∃ dropped, (kept source splices ++ dropped).Perm splices ∧
      ∀ s ∈ dropped, s.stop ≤ source.length →
        ∃ k ∈ kept source splices, k.start ≤ s.start ∧ k.meets s := by
  have sorted := sortBy_pairwise before_trans before_total splices
  obtain ⟨dropped, perm, passed⟩ := @exists_dropped _ source.length 0 sorted
  replace perm : (kept source splices ++ dropped).Perm splices := perm.trans (sortBy_perm _ _)
  refine ⟨dropped, perm, fun s hs fits => ?_⟩
  -- It was dropped for ending outside the text, or for starting before the last kept one ended.
  rcases passed s hs with far | early | ⟨k, listed, low, inside⟩
  · omega
  · omega
  · have wide := proper s (perm.mem_iff.1 (List.mem_append_right _ hs))
    have long := proper k (perm.mem_iff.1 (List.mem_append_left _ listed))
    refine ⟨k, listed, low, ?_⟩
    simp only [meets, Bool.and_eq_true, decide_eq_true_eq]
    omega

/-- Splices in bounds that do not meet each other are all kept. -/
private theorem kept_perm (fit : ∀ s ∈ splices, s.stop ≤ source.length)
    (alone : splices.Pairwise fun s t => s.meets t = false) :
    (kept source splices).Perm splices := by
  obtain ⟨dropped, perm, met⟩ := @exists_dropped_of_kept source _ proper
  have apart := (perm.pairwise_iff meets_symm).2 alone
  have none : dropped = [] := by
    refine List.eq_nil_iff_forall_not_mem.2 fun s hs => ?_
    obtain ⟨k, listed, -, meets⟩ := met s hs (fit s (perm.mem_iff.1 (List.mem_append_right _ hs)))
    exact absurd meets (Bool.eq_false_iff.1 ((List.pairwise_append.1 apart).2.2 k listed s hs))
  rwa [none, List.append_nil] at perm

/-- What is kept does not depend on the order in which splices are given that do not meet. -/
theorem kept_eq_of_perm (fit : ∀ s ∈ splices, s.stop ≤ source.length)
    (alone : splices.Pairwise fun s t => s.meets t = false) (perm : order.Perm splices) :
    kept source order = kept source splices := by
  have proper' : ∀ s ∈ order, s.start < s.stop := fun s hs => proper s (perm.mem_iff.1 hs)
  have same : (kept source order).Perm (kept source splices) := by
    refine (kept_perm proper' (fun s hs => fit s (perm.mem_iff.1 hs)) ?_).trans
      (perm.trans (kept_perm proper fit alone).symm)
    exact (perm.pairwise_iff meets_symm).2 alone
  obtain ⟨given, -, apart⟩ := @kept_apart source _ proper
  refine same.eq_of_pairwise (fun s t hs ht below above => ?_) (kept_apart proper').2.2 apart
  -- Two splices cannot each end before the other starts.
  have := proper s (given (same.mem_iff.1 hs))
  have := proper t (given ht)
  omega

end

/-! ## What edits are rendered to -/

end Splice

/-- The edit as a splice. -/
def Edit.splice (e : Edit) : Splice := ⟨e.start, e.stop, e.text⟩

/-- A sweep over edits writes their splices from front to back. -/
private theorem Sweep.spread_eq_spliced {source : Text} {edits : List Edit} {lo : Nat}
    (ordered : ∀ e ∈ edits, e.start ≤ e.stop) (fits : Fits source.length lo edits)
    (inside : lo ≤ source.length) :
    Splice.Apart lo source.length (edits.map Edit.splice) ∧
      (spread source lo edits).map Prod.fst =
        Splice.spliced source lo source.length (edits.map Edit.splice) := by
  induction edits generalizing lo with
  | nil => exact ⟨inside, copied_map_fst source lo source.length⟩
  | cons e edits ih =>
    obtain ⟨wide, ordered⟩ := List.forall_mem_cons.1 ordered
    obtain ⟨low, high, rest⟩ := fits
    rw [Nat.max_eq_left wide] at rest
    obtain ⟨apart, text⟩ := ih ordered rest high
    refine ⟨⟨low, wide, apart⟩, ?_⟩
    rw [List.map_cons, spread, Nat.max_eq_left wide, List.map_append, List.map_append, text,
      copied_map_fst, made_map_fst]
    rfl

/-- A rendered text is the source with the edits as splices, in the order in which they are
applied. -/
theorem Buffer.render_eq_spliced {b : Buffer} {r : Rendered}
    (ordered : ∀ e ∈ b.edits, e.start ≤ e.stop) (rendered : b.render = .ok r) :
    Splice.Apart 0 b.source.length (b.sorted.map Edit.splice) ∧
      r.text = Splice.spliced b.source 0 b.source.length (b.sorted.map Edit.splice) := by
  have fits := Sweep.exists_sweep_eq_ok_iff.1 ⟨r, rendered⟩
  obtain ⟨apart, text⟩ := Sweep.spread_eq_spliced
    (fun e he => ordered e (mem_sorted.1 he)) fits (Nat.zero_le _)
  exact ⟨apart, by rw [Sweep.text_of_sweep rendered, List.nil_append]; exact text⟩

namespace Splice

variable {source : Text} {splices order : List Splice}

/-! ## What is recorded -/

private theorem recorded_eq : recorded source order = ⟨source, order.map edit⟩ := by
  induction order using List.reverseRecOn with
  | nil => rfl
  | append_singleton order s ih =>
    rw [recorded, List.foldl_append] at *
    rw [List.foldl_cons, List.foldl_nil, ih, List.map_append]
    rfl

/-- However splices that lie one behind the other are recorded, the buffer applies them in that
order. -/
private theorem sorted_recorded {ss : List Splice} (perm : order.Perm ss)
    (apart : ss.Pairwise fun s t => s.stop ≤ t.start) (proper : ∀ s ∈ ss, s.start < s.stop) :
    (recorded source order).sorted = ss.map edit := by
  have ahead : (ss.map edit).Pairwise fun e f => e.start < f.start := by
    rw [List.pairwise_map]
    exact apart.imp_of_mem fun hs _ le => Nat.lt_of_lt_of_le (proper _ hs) le
  have listed : (recorded source order).sorted.Perm (ss.map edit) := by
    rw [recorded_eq]
    exact (sortBy_perm _ _).trans (perm.map edit)
  -- No two of them start at the same offset.
  have starts : ((ss.map edit).map Edit.start).Nodup :=
    List.pairwise_map.2 (ahead.imp Nat.ne_of_lt)
  refine listed.eq_of_pairwise (fun e f he hf below above => ?_) Buffer.sorted_pairwise
    (ahead.imp fun less => Edit.before_iff.2 (.inl less))
  rw [Edit.before_iff] at below above
  exact List.inj_on_of_nodup_map starts (listed.mem_iff.1 he) hf (by omega)

/-- Splices that lie apart can be recorded in any order, and the buffer is rendered to the text
written from front to back. -/
theorem render_recorded {ss : List Splice} (perm : order.Perm ss) (apart : Apart 0 source.length ss)
    (behind : ss.Pairwise fun s t => s.stop ≤ t.start) (proper : ∀ s ∈ ss, s.start < s.stop) :
    ∃ r, (recorded source order).render = .ok r ∧ r.text = spliced source 0 source.length ss := by
  have sorted := @sorted_recorded source _ _ perm behind proper
  have same : (ss.map edit).map Edit.splice = ss := by
    rw [List.map_map]
    exact List.map_id _
  have ordered : ∀ e ∈ (recorded source order).edits, e.start ≤ e.stop := by
    rw [recorded_eq]
    refine List.forall_mem_map.2 fun s hs => Nat.le_of_lt (proper s (perm.mem_iff.1 hs))
  -- Splices that lie apart are edits without conflict.
  have fits : Sweep.Fits source.length 0 (ss.map edit) := by
    refine (Sweep.fits_iff (List.forall_mem_map.2 fun s hs => Nat.le_of_lt (proper s hs))).2 ?_
    refine ⟨List.forall_mem_map.2 fun s hs => ⟨Nat.zero_le _, ?_⟩, List.pairwise_map.2 behind⟩
    exact (apart.mem s hs).2.2
  obtain ⟨r, rendered⟩ := (@Sweep.exists_sweep_eq_ok_iff source 0 ⟨[], []⟩ _).2 fits
  have done : (recorded source order).render = .ok r := by
    show Buffer.sweep (recorded source order).source 0 _ (recorded source order).sorted = _
    rw [sorted, recorded_eq]
    exact rendered
  refine ⟨r, done, ?_⟩
  rw [(Buffer.render_eq_spliced ordered done).2, sorted, same, recorded_eq]

/-! ## The two together -/

/-- Splicing a text gives what a buffer is rendered to that has the splices that are kept, recorded
in any order. These are in bounds and replace no byte twice, and every other splice in bounds meets
one of them that starts no later. Of splices that are all in bounds and do not meet each other
none is passed over, and the order in which they are given does not matter. -/
theorem applyAll_rendered (proper : ∀ s ∈ splices, s.start < s.stop) :
    let kept := kept source splices
    ((∀ s ∈ kept, s.stop ≤ source.length) ∧ kept.Pairwise fun s t => s.meets t = false) ∧
    (∃ dropped, (kept ++ dropped).Perm splices ∧
      ∀ s ∈ dropped, s.stop ≤ source.length → ∃ k ∈ kept, k.start ≤ s.start ∧ k.meets s) ∧
    (∀ order, order.Perm kept →
      ∃ r, (recorded source order).render = .ok r ∧ r.text = applyAll source splices) ∧
    ((∀ s ∈ splices, s.stop ≤ source.length) →
      splices.Pairwise (fun s t => s.meets t = false) →
        kept.Perm splices ∧
          ∀ order, order.Perm splices → applyAll source order = applyAll source splices) := by
  intro kept
  obtain ⟨given, bounds, apart⟩ := @kept_apart source _ proper
  have properKept : ∀ s ∈ kept, s.start < s.stop := fun s hs => proper s (given hs)
  refine ⟨⟨fun s hs => ?_, ?_⟩, exists_dropped_of_kept proper, fun order same => ?_,
    fun fit alone => ⟨kept_perm proper fit alone, fun order perm => ?_⟩⟩
  · exact (keep_apart.1 s hs).2.2
  · exact apart.imp meets_eq_false_of_le
  · obtain ⟨r, rendered, text⟩ := render_recorded same bounds apart properKept
    exact ⟨r, rendered, text.trans (applyAll_eq_spliced_kept proper).symm⟩
  · rw [applyAll_eq_spliced_kept proper, applyAll_eq_spliced_kept,
      kept_eq_of_perm proper fit alone perm]
    exact fun s hs => proper s (perm.mem_iff.1 hs)

/-- Of two splices one inside the other the inner one is passed over. -/
theorem applyAll_rendered_nested :
    let source : Text := "0123456789"
    let splices : List Splice := [⟨2, 4, []⟩, ⟨7, 8, "y"⟩, ⟨6, 9, "x"⟩]
    (∀ s ∈ splices, s.start < s.stop) ∧ applyAll source splices = "0145x9" ∧
      ∃ r, (recorded source [⟨6, 9, "x"⟩, ⟨2, 4, []⟩]).render = .ok r ∧
        r.text = applyAll source splices := by
  intro source splices
  have proper : ∀ s ∈ splices, s.start < s.stop := by decide
  obtain ⟨-, -, agree, -⟩ := @applyAll_rendered source _ proper
  exact ⟨proper, by decide, agree _ (.swap _ _ _)⟩

end Splice

end Interlace
