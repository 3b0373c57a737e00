import Interlace.Proofs.Folds
import Interlace.Proofs.MarkerComments
import Interlace.Proofs.ParsedNodes
import Interlace.Proofs.RevertedText
import Interlace.Weave.Removal

/-!
# How far removal reaches

A pass removes blocks whole, the markers around statements, and what advice left in the statements
between them. All of it lies within the extents of the pairs of markers: blocks, and statements with
what is removed for their markers. What lies outside stays as it is, markers without a partner
included. A text without markers is where the passes stop.

## Key results

- `Removal.passes_succ_eq_ok_iff`: what the first pass makes of a text
- `Removal.pass_of_markers_eq_nil`: a text without markers stays as it is
- `SourceFile.parse_of_path`: the path makes no difference to the decorations of a text
- `Removal.revertStatements_within`: taking advice back touches marked statements only
- `Removal.edits_within`: every edit of a pass lies within the extent of a pair
- `Removal.pass_spares_outside`: what a pass leaves as it is
-/

namespace Interlace

open Syntax

namespace Removal

/-! ## Passes -/

variable {path text result : Text} {reverts : List Revert} {added : Dict Text} {fuel : Nat}

theorem passes_succ_eq_ok_iff :
    passes path reverts (fuel + 1) added text = .ok result ↔
      (∃ known, pass path text reverts added = .ok (none, known) ∧ result = text) ∨
        ∃ next between, pass path text reverts added = .ok (some next, between) ∧
          passes path reverts fuel between next = .ok result := by
  rw [passes, bind_eq_ok_iff]
  constructor
  · rintro ⟨⟨next, between⟩, done, h⟩
    cases next with
    | none => exact .inl ⟨between, done, (Except.ok.inj h).symm⟩
    | some next => exact .inr ⟨next, between, done, h⟩
  · rintro (⟨known, done, rfl⟩ | ⟨next, between, done, h⟩)
    · exact ⟨(none, known), done, rfl⟩
    · exact ⟨(some next, between), done, h⟩

/-! ## Texts without markers -/

private theorem pairMarkers_eq_nil {file : SourceFile} (clean : file.decorations.markers = [])
    (opening : Marker) : pairMarkers file opening = [] := by
  unfold pairMarkers
  cases opening.partner? with
  | none => rfl
  | some closing =>
    rw [clean]
    rfl

/-- A text without markers stays as it is. -/
theorem pass_of_markers_eq_nil {file : SourceFile} (parsed : SourceFile.parse path text = .ok file)
    (clean : file.decorations.markers = []) (reverts : List Revert) (added : Dict Text) :
    ∃ known, pass path text reverts added = .ok (none, known) := by
  refine ⟨merged added (addedImports file []), bind_eq_ok_iff.2 ⟨file, parsed, ?_⟩⟩
  simp only [pairMarkers_eq_nil clean]
  rfl

end Removal

/-- The decorations of a text do not depend on its path. -/
theorem SourceFile.parse_of_path {path text : Text} {file : SourceFile}
    (h : SourceFile.parse path text = .ok file) (other : Text) :
    ∃ same, SourceFile.parse other text = .ok same ∧ same.decorations = file.decorations := by
  revert h
  unfold parse
  cases text.illFormedAt? with
  | some offset => exact nofun
  | none =>
    unfold ofText
    -- A leading directive says where positions are reported, which the path does only without one.
    cases leadingLine? text with
    | none =>
      dsimp only
      cases parse? text with
      | none => exact nofun
      | some root => exact fun h => ⟨_, rfl, by cases h; rfl⟩
    | some line =>
      dsimp only
      cases parse? line.2 with
      | none => exact nofun
      | some root => exact fun h => ⟨_, rfl, by cases h; rfl⟩

/-- The range is proper and lies within another. -/
structure Range.Within (inner outer : Range) : Prop where
  low : outer.start ≤ inner.start
  wide : inner.start ≤ inner.stop
  high : inner.stop ≤ outer.stop

/-- The range lies within one of the others. -/
def Range.WithinAny (outers : List Range) (inner : Range) : Prop :=
  ∃ outer ∈ outers, inner.Within outer

namespace Removal

/-! ## Marked statements -/

section

variable {source : Text} {patterns : List WrapPattern} {window last : Range} {layers : List Layer}

/-- What is left when something came off is not empty. -/
theorem Peels.proper (h : Peels source patterns window layers last) :
    last = window ∨ last.start < last.stop := by
  induction h with
  | bare missed => exact .inl rfl
  | layer missed found rest ih =>
    right
    rcases ih with rfl | wide
    · exact Nat.add_lt_add_left (WrapPattern.hole?_bounds found).1 _
    · exact wide

end

section

variable {source : Text} {statements : List Range} {t : Tree}

theorem isInside_iff : isInside statements t ↔
    ∃ s ∈ statements, s.start ≤ t.start ∧ t.stop ≤ s.stop := by
  simp [isInside, Range.holds]

/-- What comes off values in marked statements lies in them. -/
private theorem unwrap_within {patterns : List (WrapSite × WrapPattern)} {sites : List Wrapped}
    (inside : ∀ w ∈ sites, isInside statements w.node) :
    ∀ r ∈ unwrap source patterns sites, r.WithinAny statements := by
  -- The induction is from the back, as the sites are gone through by a left fold.
  induction sites using List.reverseRecOn with
  | nil => exact nofun
  | append_singleton sites w ih =>
    obtain ⟨inside, here⟩ := List.forall_mem_append.1 inside
    obtain ⟨s, marked, low, high⟩ := isInside_iff.1 (here w List.mem_cons_self)
    rw [unwrap_concat]
    split
    · exact ih inside
    split
    · exact ih inside
    · rename_i other
      obtain ⟨layers, peels⟩ := @peels_peel source (patternsFor w.site patterns) (.ofTree w.node) _
        (Nat.le_refl _)
      obtain ⟨low', high', -⟩ := peels.covered_around_iff (i := 0)
      have wide := peels.proper.resolve_left other
      have low' : w.node.start ≤ (peeled source patterns w).start := low'
      have high' : (peeled source patterns w).stop ≤ w.node.stop := high'
      refine List.forall_mem_append.2 ⟨ih inside, List.forall_mem_cons.2 ⟨?_, ?_⟩⟩
      · exact ⟨s, marked, low, low', Nat.le_trans (Nat.le_of_lt wide) (Nat.le_trans high' high)⟩
      · exact List.forall_mem_singleton.2
          ⟨s, marked, Nat.le_trans low (Nat.le_trans low' (Nat.le_of_lt wide)), high', high⟩

end

section

variable {file : SourceFile} {statements : List Range} {t : Tree}

theorem mem_ofKind_iff {k : Kind} :
    t ∈ file.tree.ofKind k ↔ t ∈ file.tree.preorder ∧ t.kind = k := by
  simp [Tree.ofKind]

/-- The operand of a call in a marked statement lies in it. -/
private theorem callOperand?_within (parsed : parse? file.source = some file.tree)
    {call operand : Tree}
    (listed : call ∈ calls file statements) (found : callOperand? call = some operand) :
    (Range.ofTree operand).WithinAny statements := by
  obtain ⟨listed, inside⟩ := List.mem_filter.1 listed
  obtain ⟨listed, kind⟩ := mem_ofKind_iff.1 listed
  obtain ⟨s, marked, low, high⟩ := isInside_iff.1 inside
  obtain ⟨selector, function, found⟩ := Option.bind_eq_some_iff.1 found
  obtain ⟨function, -⟩ := Option.filter_eq_some_iff.1 function
  have part := (Tree.mem_children_of_child? function).1
  have fits := fits_of_parse parsed listed (kind.trans_ne nofun) (List.ne_nil_of_mem part)
  -- The operand is a part of a part of the call, and parts lie within their nodes.
  have read := fits.arranged.read_of_child? function
  have inner := fits.arranged.fits part read
  have part' := (Tree.mem_children_of_child? found).1
  have read' := inner.arranged.read_of_child? found
  have le := Tree.Orderly.le _ (inner.arranged.fits part' read').orderly
  rw [Tree.start_plain, Tree.stop_plain] at le
  obtain ⟨low', high'⟩ := fits.inside part read
  obtain ⟨low'', high''⟩ := inner.inside part' read'
  exact ⟨s, marked, Nat.le_trans low (Nat.le_trans low' low''), le,
    Nat.le_trans high'' (Nat.le_trans high' high)⟩

private theorem declaredEnd?_eq_some {ts : List Tree} {stop : Nat}
    (h : declaredEnd? ts = some stop) :
    ∃ front before equals back, ts = front ++ before :: equals :: back ∧
      equals.kind = .symbol "=" ∧ stop = before.stop := by
  -- The induction is on the parts, two of which are looked at together.
  induction ts with
  | nil => cases h
  | cons before ts ih =>
    cases ts with
    | nil => cases h
    | cons equals back =>
      rw [declaredEnd?] at h
      split at h
      · rename_i kind
        cases h
        exact ⟨[], before, equals, back, rfl, kind, rfl⟩
      · obtain ⟨front, before', equals', back', whole, rest⟩ := ih h
        exact ⟨before :: front, before', equals', back', by rw [whole]; rfl, rest⟩

/-- The value of a variable stands behind the equals sign, and what is dropped with it lies in the
specification. -/
private theorem dropped_bounds (parsed : parse? file.source = some file.tree) {spec given : Tree}
    {stop : Nat}
    (listed : spec ∈ file.tree.ofKind .varSpec) (value : spec.child? .value = some given)
    (left : declaredEnd? spec.children = some stop) :
    spec.start ≤ stop ∧ stop ≤ given.stop ∧ given.stop ≤ spec.stop := by
  obtain ⟨listed, kind⟩ := mem_ofKind_iff.1 listed
  obtain ⟨part, plays⟩ := Tree.mem_children_of_child? value
  have below : spec.kind ≠ .sourceFile := kind.trans_ne nofun
  have fits := fits_of_parse parsed listed below (List.ne_nil_of_mem part)
  have read := fits.arranged.read_of_child? value
  obtain ⟨front, before, equals, back, whole, sign, rfl⟩ := declaredEnd?_eq_some left
  have spaced := (spaced_of_parse parsed listed below).laid
  rw [whole] at spaced part
  obtain ⟨lo, low, low', inner, rest⟩ := SpacedFrom.behind spaced
  have wide : before.start ≤ before.stop :=
    (Tree.Spaced.low before inner before (before.preorder_eq ▸ List.mem_cons_self)).2
  refine ⟨by omega, ?_, (fits.inside (whole ▸ part) read).2⟩
  -- The names and the type before the sign do not play the part of the value.
  have later : given ∈ equals :: back := by
    have last := fits.orderly.takes.value (spec.kind_plain.trans kind)
    rw [Tree.children_plain, plainAll_eq, whole, List.append_cons, List.filter_append,
      List.map_append, List.dropLast_append_of_ne_nil (by simp [sign])] at last
    refine (List.mem_append.1 (List.append_cons .. ▸ part)).resolve_left fun before => ?_
    refine last given.plain (List.mem_append_left _ (List.mem_map_of_mem ?_)) ?_
    · exact List.mem_filter.2 ⟨before, decide_eq_true read⟩
    · rw [Tree.field_plain, plays]
  have := SpacedFrom.low _ rest given
    (preorder_subset_of_mem later (given.preorder_eq ▸ List.mem_cons_self))
  omega

/-- Taking advice back touches marked statements only. -/
theorem revertStatements_within (parsed : parse? file.source = some file.tree)
    {reverts : List Revert} {added : Dict Text} :
    ∀ e ∈ revertStatements file statements reverts added, e.range.WithinAny statements := by
  by_cases given : statements = []
  · subst given
    exact nofun
  rw [revertStatements_eq given]
  refine foldl_keeps (K := fun edits : List Splice => ∀ e ∈ edits, e.range.WithinAny statements)
    (fun edits revert _ kept => ?_) ?_
  · cases revert with
    | unwrap site template => exact kept
    | retarget wanted source target =>
      rw [restore]
      split
      · exact kept
      split
      · exact kept
      · -- Of the edits that are there already, none is changed.
        refine foldl_keeps (K := fun edits : List Splice =>
          ∀ e ∈ edits, e.range.WithinAny statements) (fun edits call listed kept => ?_) kept
        split
        · exact kept
        · rename_i operand found
          dsimp only
          split
          · refine List.forall_mem_append.2 ⟨kept, List.forall_mem_singleton.2 ?_⟩
            exact callOperand?_within parsed listed found
          · exact kept
    | unassign template =>
      rw [restore]
      split
      · exact kept
      refine List.forall_mem_append.2 ⟨kept, fun e he => ?_⟩
      obtain ⟨spec, marked, dropped⟩ := List.mem_filterMap.1 he
      obtain ⟨listed, inside⟩ := List.mem_filter.1 marked
      obtain ⟨s, marked, low, high⟩ := isInside_iff.1 inside
      split at dropped
      · rename_i given start value left
        obtain ⟨-, found⟩ := Option.ite_none_right_eq_some.1 dropped
        cases found
        obtain ⟨low', le, high'⟩ := dropped_bounds parsed listed value left
        exact ⟨s, marked, Nat.le_trans low low', le, Nat.le_trans high' high⟩
      · cases dropped
  · refine List.forall_mem_map.2 fun r hr => ?_
    exact unwrap_within (fun w hw => isInside_of_mem_wrapSites hw) r (List.mem_of_mem_filter hr)

end

/-! ## Passes -/

/-- What is removed for blocks of added lines. -/
def blocks (file : SourceFile) : List Range :=
  (pairMarkers file .startInstrument).map fun (a, b) => blockRange file.source a b

/-- What is removed for the markers of statements, for each pair at both ends. -/
def wraps (file : SourceFile) : List (Range × Range) :=
  (pairMarkers file .startWrap).map fun (a, b) =>
    (openingRange file.source a, closingRange file.source b)

/-- The extents of the pairs of markers: blocks, and statements with all that is removed for their
markers. -/
def extents (file : SourceFile) : List Range :=
  blocks file ++ (wraps file).map fun (a, b) => ⟨a.start, b.stop⟩

/-- The names of the packages that the blocks of a file import. -/
def addedNames (file : SourceFile) : Dict Text :=
  merged .empty (addedImports file (blocks file))

/-- The edits of a pass. -/
def edits (file : SourceFile) (reverts : List Revert) (added : Dict Text) : List Splice :=
  (blocks file).map Range.removal ++ (wraps file).flatMap (fun (a, b) => [a.removal, b.removal])
    ++ revertStatements file (Weave.markedStatements file) reverts
      (merged added (addedImports file (blocks file)))

variable {path text : Text} {file : SourceFile} {reverts : List Revert} {added : Dict Text}

theorem pass_eq (parsed : SourceFile.parse path text = .ok file) :
    pass path text reverts added = .ok
      (if edits file reverts added = [] then none
        else some (text.take (text.length - file.source.length) ++
          Splice.applyAll file.source (edits file reverts added)),
        merged added (addedImports file (blocks file))) := by
  refine bind_eq_ok_iff.2 ⟨file, parsed, ?_⟩
  show (if (edits file reverts added).isEmpty then _ else _) = _
  by_cases nothing : edits file reverts added = []
  · rw [if_pos (List.isEmpty_iff.2 nothing), if_pos nothing]
    rfl
  · rw [if_neg (by rwa [List.isEmpty_iff]), if_neg nothing]
    rfl

private theorem blocks_proper (parsed : SourceFile.parse path text = .ok file) :
    ∀ r ∈ blocks file, r.start ≤ r.stop := by
  refine List.forall_mem_map.2 fun p listed => ?_
  obtain ⟨a, b⟩ := p
  have pair : MarkerPair file.source a b := markerPair_of_mem parsed _ listed
  obtain ⟨low, high⟩ := pair.blockRange_bounds
  have := pair.opening.ends.1
  have := pair.closing.ends.1
  have := pair.apart
  dsimp only
  omega

/-- What is removed for the markers of a statement lies between where the one part starts and the
other ends. -/
private theorem wraps_proper (parsed : SourceFile.parse path text = .ok file) :
    ∀ r ∈ wraps file,
      r.1.Within ⟨r.1.start, r.2.stop⟩ ∧ r.2.Within ⟨r.1.start, r.2.stop⟩ := by
  refine List.forall_mem_map.2 fun p listed => ?_
  obtain ⟨a, b⟩ := p
  have pair : MarkerPair file.source a b := markerPair_of_mem parsed _ listed
  obtain ⟨low, wide, high⟩ := pair.openingRange_bounds
  obtain ⟨low', wide', high'⟩ := pair.closingRange_bounds
  have := pair.opening.ends.1
  have := pair.closing.ends.1
  refine ⟨⟨Nat.le_refl _, ?_, ?_⟩, ⟨?_, ?_, Nat.le_refl _⟩⟩ <;> dsimp only <;> omega

/-- Every edit of a pass lies within the extent of a pair of markers. -/
theorem edits_within (parsed : SourceFile.parse path text = .ok file) :
    ∀ e ∈ edits file reverts added, e.range.WithinAny (extents file) := by
  have wrapped := wraps_proper parsed
  -- The extent of a pair has both of its comments and the statement between them.
  have extent : ∀ r ∈ wraps file, (⟨r.1.start, r.2.stop⟩ : Range) ∈ extents file :=
    fun r hr => List.mem_append_right _ (List.mem_map_of_mem hr)
  refine List.forall_mem_append.2 ⟨List.forall_mem_append.2 ⟨?_, ?_⟩, ?_⟩
  · refine List.forall_mem_map.2 fun r hr => ?_
    exact ⟨r, List.mem_append_left _ hr, Nat.le_refl _, blocks_proper parsed r hr, Nat.le_refl _⟩
  · intro e he
    obtain ⟨r, hr, he⟩ := List.mem_flatMap.1 he
    rcases List.mem_pair.1 he with rfl | rfl
    · exact ⟨_, extent r hr, (wrapped r hr).1⟩
    · exact ⟨_, extent r hr, (wrapped r hr).2⟩
  · intro e he
    obtain ⟨s, marked, within⟩ :=
      revertStatements_within (SourceFile.tree_of_parse parsed).1 e he
    obtain ⟨r, hr, rfl⟩ := List.mem_map.1 marked
    have listed := List.mem_of_mem_filter hr
    obtain ⟨opening, closing⟩ := wrapped r listed
    exact ⟨_, extent r listed, Nat.le_trans opening.wide within.low, within.wide,
      Nat.le_trans within.high closing.wide⟩

/-- Without a pair of markers a text stays as it is. -/
private theorem uninstrument_of_extents_eq_nil (parsed : SourceFile.parse path text = .ok file)
    (alone : extents file = []) (aspects : List Aspect) :
    uninstrument text aspects = .ok text := by
  obtain ⟨same, parsed, decorations⟩ := SourceFile.parse_of_path parsed "<source>"
  obtain ⟨blockless, wrapless⟩ := List.append_eq_nil_iff.1 alone
  -- Removal reads the text under another name, which changes no decoration.
  have paired (opening : Marker) : pairMarkers same opening = pairMarkers file opening := by
    unfold pairMarkers
    rw [decorations]
  have nothing : extents same = [] := by
    simp only [blocks, wraps, List.map_eq_nil_iff] at blockless wrapless
    simp [extents, blocks, wraps, paired, blockless, wrapless]
  have unedited : edits same (reverts aspects) .empty = [] := by
    refine List.eq_nil_iff_forall_not_mem.2 fun e he => ?_
    obtain ⟨x, listed, -⟩ := edits_within parsed e he
    rw [nothing] at listed
    cases listed
  have removed := @pass_eq _ _ same (reverts aspects) .empty parsed
  rw [if_pos unedited] at removed
  exact passes_succ_eq_ok_iff.2 (.inl ⟨_, removed, rfl⟩)

/-- For every file: a pass makes its edits in what follows a leading line directive, and each of
them lies within the extent of a pair of markers. Of the edits some are kept, one behind the other,
and the text is written out with them. A range that no extent meets, with or without a marker that
has no partner, is written as it is, behind what is left of the text before it and before what is
left of the rest. And without a pair of markers, removal gives the text back. -/
theorem pass_spares_outside (parsed : SourceFile.parse path text = .ok file)
    (aspects : List Aspect) (added : Dict Text) :
    let source := file.source
    let edits := edits file (Removal.reverts aspects) added
    (∃ lead known, text = lead ++ source ∧ pass path text (Removal.reverts aspects) added = .ok
      (if edits = [] then none else some (lead ++ Splice.applyAll source edits), known)) ∧
    (∀ e ∈ edits, e.range.WithinAny (extents file)) ∧
    (∃ kept ⊆ edits, Splice.Apart 0 source.length kept ∧
      Splice.applyAll source edits = Splice.spliced source 0 source.length kept ∧
      ∀ i j, i ≤ j → j ≤ source.length → (∀ x ∈ extents file, x.stop ≤ i ∨ j ≤ x.start) →
        ∃ front behind, kept = front ++ behind ∧ Splice.Apart 0 i front ∧
          Splice.Apart j source.length behind ∧
          Splice.applyAll source edits = Splice.spliced source 0 i front ++ source.slice i j ++
            Splice.spliced source j source.length behind) ∧
    (extents file = [] → uninstrument text aspects = .ok text) := by
  intro source edits
  have within : ∀ e ∈ edits, e.range.WithinAny (extents file) := edits_within parsed
  obtain ⟨kept, given, apart, written⟩ := @Splice.applyAll_eq_spliced source edits fun e he =>
    (within e he).choose_spec.2.wide
  refine ⟨⟨_, _, ?_, pass_eq parsed⟩, within, ⟨kept, given, apart, written, ?_⟩,
    fun alone => uninstrument_of_extents_eq_nil parsed alone aspects⟩
  · exact (List.suffix_iff_eq_append.1 (SourceFile.source_isSuffix parsed)).symm
  · intro i j le inside avoid
    -- No edit meets the range, so each is before it or behind it.
    have clear : ∀ e ∈ kept, e.stop ≤ i ∨ j ≤ e.start := by
      intro e he
      obtain ⟨x, listed, inner⟩ := within e (given he)
      refine (avoid x listed).imp (fun before => ?_) fun behind => ?_
      · exact Nat.le_trans inner.high before
      · exact Nat.le_trans behind inner.low
    obtain ⟨front, behind, rfl, first, last⟩ := apart.split ⟨Nat.zero_le _, inside⟩ clear
    exact ⟨front, behind, rfl, first, last, written.trans (Splice.spliced_append first le last)⟩

/-- A block of added lines behind an end marker without a partner. -/
def strayMarker : Text :=
  "package p\n\nfunc f() \x7b\n\t//tool:endwrap\n\t//tool:startinstrument\n\ta()\n"
    ++ "\t//tool:endinstrument\n\x7d\n"

/-- The block is removed, and the line of the other marker stays. -/
theorem pass_spares_strayMarker :
    ∃ file, SourceFile.parse "p.go" strayMarker = .ok file ∧ extents file ≠ [] ∧
      ∃ front behind known, pass "p.go" strayMarker (Removal.reverts builtinAspects) .empty =
        .ok (some (front ++ "\t//tool:endwrap\n" ++ behind), known) := by
  -- The stray marker stands on its own line, before the extent of the only pair.
  have test : (SourceFile.parse "p.go" strayMarker).toOption.map (fun file =>
      decide ((∀ x ∈ extents file, 38 ≤ x.start) ∧ 38 ≤ file.source.length ∧
        file.source.slice 22 38 = "\t//tool:endwrap\n" ∧ extents file ≠ [] ∧
        edits file (Removal.reverts builtinAspects) .empty ≠ [])) = some true := by decide +kernel
  obtain ⟨file, parsed, test⟩ := Option.map_eq_some_iff.1 test
  obtain ⟨far, inside, line, paired, edited⟩ := of_decide_eq_true test
  rw [toOption_eq_some_iff] at parsed
  obtain ⟨⟨lead, known, -, removed⟩, -, ⟨kept, -, -, -, spares⟩, -⟩ :=
    pass_spares_outside parsed builtinAspects .empty
  obtain ⟨front, behind, -, -, -, written⟩ :=
    spares 22 38 (by decide) inside fun x hx => .inr (far x hx)
  rw [if_neg edited, written, line, ← List.append_assoc, ← List.append_assoc] at removed
  exact ⟨file, parsed, paired, _, _, known, removed⟩

end Removal

end Interlace
