import Interlace.Proofs.FileLayout
import Interlace.Proofs.Folds
import Interlace.Proofs.Importing
import Interlace.Weave.Imports
import Mathlib.Data.List.Flatten
import Mathlib.Data.List.Nodup
import Mathlib.Data.List.Perm.Subperm

/-!
# Imports that are written twice

Of the imports of a path under one local name, all but one are removed. What is removed are nodes of
the tree: a declaration all of whose imports go, and single specifications otherwise.

## Key results

- `ExistingImport.survivor?`: the import that stays
- `ExistingImport.mem_repeated_iff`: all others are counted as repeated
- `Imports.collapse_eq`: the edits that remove nodes
- `Imports.removed_iff`: an import is removed, by itself or with its declaration, iff it is repeated
-/

namespace Interlace

open Syntax

/-! ## Keeping one of each -/

/-- An element is kept iff it is one of the list. -/
private theorem mem_distinct {α : Type} [DecidableEq α] {l : List α} {a : α} :
    a ∈ distinct l ↔ a ∈ l := by
  -- The induction is on what is left, with what was seen as it may be.
  have step : ∀ (l seen : List α),
      a ∈ l.foldl (fun seen a => if a ∈ seen then seen else seen ++ [a]) seen ↔
        a ∈ seen ∨ a ∈ l := by
    intro l
    induction l with
    | nil => simp
    | cons b l ih =>
      intro seen
      rw [List.foldl_cons, ih]
      split
      · rename_i had
        constructor
        · exact fun h => h.imp_right (List.mem_cons_of_mem b)
        · rintro (h | h)
          · exact .inl h
          · rcases List.mem_cons.1 h with rfl | h
            · exact .inl had
            · exact .inr h
      · simp [or_assoc]
  simpa [distinct] using step l []

private theorem nodup_distinct {α : Type} [DecidableEq α] (l : List α) : (distinct l).Nodup := by
  refine foldl_keeps (K := List.Nodup) (fun seen a _ nodup => ?_) List.nodup_nil
  split
  · exact nodup
  · rename_i fresh
    rw [List.nodup_append]
    refine ⟨nodup, List.pairwise_singleton _ _, ?_⟩
    rintro b hb _ hc rfl
    exact fresh (List.mem_singleton.1 hc ▸ hb)

/-- What is read off the elements of a list, and tells the element, is a part of the list. -/
private theorem map_filterMap_sublist {α β : Type} {f : α → Option β} {g : β → α}
    (told : ∀ a b, f a = some b → g b = a) (l : List α) : ((l.filterMap f).map g).Sublist l := by
  induction l with
  | nil => exact .slnil
  | cons a l ih =>
    cases read : f a with
    | none =>
      rw [List.filterMap_cons_none read]
      exact ih.cons a
    | some b =>
      rw [List.filterMap_cons_some read, List.map_cons, told a b read]
      exact ih.cons_cons a

namespace ExistingImport

/-- Of imports with one path and local name, the first that spells the name, or the first. -/
def survivor? (group : List ExistingImport) : Option ExistingImport :=
  (group.find? (·.givenName.isSome)).or group.head?

/-- The import that stays of those with the path and local name of another. -/
def survivorOf? (existing : List ExistingImport) (pair : Text × Text) : Option ExistingImport :=
  survivor? (existing.filter (·.pair = pair))

variable {group existing : List ExistingImport} {e : ExistingImport}

/-- The survivor stands at the index that is kept. -/
private theorem getElem?_kept (group : List ExistingImport) :
    group[(group.findIdx? (·.givenName.isSome)).getD 0]? = survivor? group := by
  rw [survivor?, List.find?_eq_bind_findIdx?_getElem?]
  cases found : group.findIdx? (·.givenName.isSome) with
  | none => exact List.head?_eq_getElem?.symm
  | some i =>
    obtain ⟨inside, -⟩ := List.findIdx?_eq_some_iff_getElem.1 found
    show group[i]? = group[i]?.or group.head?
    rw [List.getElem?_eq_getElem inside]
    rfl

/-- All but the survivor are surplus. -/
theorem mem_surplus_iff (nodup : group.Nodup) :
    e ∈ surplus group ↔ e ∈ group ∧ survivor? group ≠ some e := by
  rw [← getElem?_kept]
  unfold surplus
  dsimp only
  -- The survivor is told by its index, and nothing is twice in the group.
  generalize (group.findIdx? (·.givenName.isSome)).getD 0 = kept
  constructor
  · intro h
    obtain ⟨⟨f, i⟩, listed, rfl⟩ := List.mem_map.1 h
    obtain ⟨here, other⟩ := List.mem_filter.1 listed
    obtain ⟨inside, rfl⟩ := List.getElem?_eq_some_iff.1 (List.mk_mem_zipIdx_iff_getElem?.1 here)
    refine ⟨List.getElem_mem inside, fun same => of_decide_eq_true other ?_⟩
    obtain ⟨inside', same⟩ := List.getElem?_eq_some_iff.1 same
    exact ((nodup.getElem_inj_iff).1 same).symm
  · rintro ⟨listed, other⟩
    obtain ⟨i, inside, rfl⟩ := List.getElem_of_mem listed
    have here := List.getElem?_eq_getElem inside
    refine List.mem_map.2 ⟨(group[i], i), List.mem_filter.2 ⟨?_, decide_eq_true ?_⟩, rfl⟩
    · exact List.mk_mem_zipIdx_iff_getElem?.2 here
    · rintro rfl
      exact other here

private theorem surplus_sublist (group : List ExistingImport) : (surplus group).Sublist group := by
  have whole : group.zipIdx.map Prod.fst = group := by simp
  conv_rhs => rw [← whole]
  exact (List.filter_sublist).map _

/-- A survivor is one of its group. -/
theorem mem_of_survivor? (h : survivor? group = some e) : e ∈ group := by
  rw [← getElem?_kept] at h
  exact List.mem_of_getElem? h

theorem exists_survivor? (given : group ≠ []) : ∃ e, survivor? group = some e := by
  obtain ⟨first, rest, rfl⟩ := List.exists_cons_of_ne_nil given
  unfold survivor?
  cases ((first :: rest).find? (·.givenName.isSome)) with
  | none => exact ⟨first, rfl⟩
  | some named => exact ⟨named, rfl⟩

/-- The repeated imports are those that do not stay. -/
theorem mem_repeated_iff (nodup : existing.Nodup) :
    e ∈ repeated existing ↔ e ∈ existing ∧ survivorOf? existing e.pair ≠ some e := by
  -- Repeated is what is surplus in the group of its own path and name.
  have group : ∀ p, e ∈ surplus (existing.filter (·.pair = p)) ↔
      (e ∈ existing ∧ e.pair = p) ∧ survivorOf? existing p ≠ some e := by
    intro p
    rw [mem_surplus_iff (nodup.filter _), List.mem_filter, decide_eq_true_iff]
    rfl
  unfold repeated
  rw [List.mem_flatMap]
  constructor
  · rintro ⟨p, -, h⟩
    obtain ⟨⟨listed, rfl⟩, other⟩ := (group p).1 h
    exact ⟨listed, other⟩
  · rintro ⟨listed, other⟩
    exact ⟨e.pair, mem_distinct.2 (List.mem_map_of_mem listed),
      (group e.pair).2 ⟨⟨listed, rfl⟩, other⟩⟩

/-- No import is counted as repeated more than once. -/
private theorem nodup_repeated (nodup : existing.Nodup) : (repeated existing).Nodup := by
  unfold repeated
  refine List.nodup_flatMap.2 ⟨fun p _ => (nodup.filter _).sublist (surplus_sublist _), ?_⟩
  refine (nodup_distinct _).imp fun {p q} other => ?_
  intro e hp hq
  have first := (List.mem_filter.1 ((surplus_sublist _).subset hp)).2
  have second := (List.mem_filter.1 ((surplus_sublist _).subset hq)).2
  exact other ((of_decide_eq_true first).symm.trans (of_decide_eq_true second))

/-! ## The imports of a file -/

/-- The import as it is written, without the local name. -/
def written (e : ExistingImport) : Tree × Tree × Text × Option Text :=
  (e.declaration, e.spec, e.path, e.givenName)

/-- The imports that are written in a file. -/
def writtenIn (file : SourceFile) : List (Tree × Tree × Text × Option Text) :=
  (file.tree.childrenOf .importDeclaration).flatMap fun declaration =>
    declaration.importSpecs.filterMap fun spec =>
      (Check.specParts? file spec).map fun parts => (declaration, spec, parts)

/-- The local name is the one that is written, or the one that the package declares. -/
def Named (importer : Importer) (e : ExistingImport) : Prop :=
  match e.givenName with
  | some name => e.localName = name
  | none => ∃ s s', (importer.packageName e.path).Yields s e.localName s'

/-- An import with its local name. -/
def complete (importer : Importer) :
    Tree × Tree × Text × Option Text → Importing ExistingImport
  | (declaration, spec, path, givenName) => do
    let localName ←
      match givenName with
      | some name => pure name
      | none => importer.packageName path
    return ⟨spec, declaration, path, givenName, localName⟩

theorem ofFile_eq (importer : Importer) (file : SourceFile) :
    ofFile importer file = (writtenIn file).mapM (complete importer) :=
  rfl

/-- An import is completed to itself with a name that it has. -/
private theorem complete_ensures (importer : Importer) (w : Tree × Tree × Text × Option Text) :
    Importing.Ensures (fun _ => True) (complete importer w)
      fun e => e.written = w ∧ e.Named importer := by
  obtain ⟨declaration, spec, path, givenName⟩ := w
  intro s e s' _ run
  refine ⟨trivial, ?_⟩
  cases givenName with
  | some name =>
    obtain ⟨rfl, -⟩ := Importing.yields_pure.1 run
    exact ⟨rfl, rfl⟩
  | none =>
    obtain ⟨localName, s₁, named, made⟩ := Importing.yields_bind.1 run
    obtain ⟨rfl, -⟩ := Importing.yields_pure.1 made
    exact ⟨rfl, _, _, named⟩

/-- The imports of a file are those that are written in it, in that order, with their names. -/
theorem ofFile_yields {importer : Importer} {file : SourceFile} {s s' : ImportState}
    (run : (ofFile importer file).Yields s existing s') :
    existing.map written = writtenIn file ∧ ∀ e ∈ existing, e.Named importer := by
  rw [ofFile_eq] at run
  obtain ⟨-, all⟩ := Importing.ensures_mapM (fun w _ => complete_ensures importer w) s existing s'
    trivial run
  refine ⟨?_, fun e he => ?_⟩
  · have same : List.Forall₂ (fun w v => v = w) (writtenIn file) (existing.map written) :=
      List.forall₂_map_right_iff.2 (all.imp fun _ _ both => both.1)
    exact (List.forall₂_eq_eq_eq ▸ same.flip : existing.map written = writtenIn file)
  · obtain ⟨-, -, -, named⟩ := Importing.exists_of_forall₂ all he
    exact named

end ExistingImport

namespace Imports

variable {file : SourceFile} {existing : List ExistingImport} {e : ExistingImport} {t : Tree}

/-! ## Removing nodes -/

/-- The edit that removes a node, with its line if it has it for itself. -/
def deletion (source : Text) (node : Tree) : Edit :=
  if source.isFirstOnLine node.start && source.restIsTrivia node.stop then
    ⟨source.lineStart node.start, min (source.lineEnd node.stop + 1) source.length, [], .right⟩
  else ⟨node.start, node.stop, [], .right⟩

private theorem deleteNode_eq (source : Text) (b : Buffer) (node : Tree) :
    deleteNode source b node = b.push (deletion source node) := by
  unfold deleteNode deletion
  split <;> rfl

/-- Before its node, a deletion takes away blanks only. -/
private theorem deletion_before (source : Text) (node : Tree) :
    (deletion source node).start ≤ node.start ∧
      ∀ k b, (deletion source node).start ≤ k → k < node.start → source[k]? = some b →
        Text.isBlank b := by
  unfold deletion
  split
  · rename_i alone
    have first := Text.isFirstOnLine_iff.1 (Bool.and_eq_true_iff.1 alone).1
    exact ⟨Text.lineStart_le _ _, first⟩
  · exact ⟨Nat.le_refl _, fun k b low high => absurd high (Nat.not_lt.2 low)⟩

/-- Behind its node, a deletion takes away spacing, a line comment and the end of the line only. -/
private theorem deletion_behind {source : Text} {node : Tree} (inside : node.stop ≤ source.length) :
    node.stop ≤ (deletion source node).stop ∧
      ∀ k b, node.stop ≤ k → k < (deletion source node).stop → source[k]? = some b →
        Text.isSpacing b ∨ b = Text.newline ∨
          ∃ j, node.stop ≤ j ∧ j ≤ k ∧ Text.startsWith (source.drop j) "//" := by
  unfold deletion
  split
  · rename_i alone
    obtain ⟨reaches, last, stops, -⟩ := Text.endsLine_lineEnd inside
    refine ⟨by dsimp only; omega, fun k b low high found => ?_⟩
    have high : k < source.lineEnd node.stop + 1 := Nat.lt_of_lt_of_le high (Nat.min_le_left _ _)
    -- On the line there may be a comment; behind it only its break is taken.
    by_cases onLine : k < source.lineEnd node.stop
    · cases spacing : Text.isSpacing b with
      | true => exact .inl rfl
      | false =>
        exact .inr (.inr (Text.exists_comment_of_restIsTrivia inside
          (Bool.and_eq_true_iff.1 alone).2 low onLine found spacing))
    · obtain rfl : k = source.lineEnd node.stop := by omega
      rcases stops with ended | broken
      · rw [ended, List.getElem?_eq_none (Nat.le_refl _)] at found
        cases found
      · exact .inr (.inl (Option.some.inj (found.symm.trans broken)))
  · exact ⟨Nat.le_refl _, fun k b low high => absurd high (Nat.not_lt.2 low)⟩

theorem deletion_forward {source : Text} {node : Tree} (forward : node.start ≤ node.stop)
    (inside : node.stop ≤ source.length) :
    (deletion source node).start ≤ (deletion source node).stop := by
  have before := (deletion_before source node).1
  have behind := (deletion_behind inside).1
  omega

/-! ## Which nodes are removed -/

/-- The repeated imports of a declaration. -/
def doomed (existing : List ExistingImport) (declaration : Tree) : List ExistingImport :=
  (ExistingImport.repeated existing).filter (·.declaration.start = declaration.start)

/-- What is removed of a declaration. -/
def removedFrom (existing : List ExistingImport) (declaration : Tree) : List Tree :=
  if declaration.importSpecs.length = (doomed existing declaration).length then [declaration]
  else (doomed existing declaration).map ExistingImport.spec

/-- The nodes that are removed from a file. -/
def removed (file : SourceFile) (existing : List ExistingImport) : List Tree :=
  (file.tree.childrenOf .importDeclaration).flatMap (removedFrom existing)

private theorem foldl_deleteNode (source : Text) {α : Type} (node : α → Tree) (l : List α)
    (b : Buffer) : l.foldl (fun b a => deleteNode source b (node a)) b =
      ⟨b.source, b.edits ++ (l.map node).map (deletion source)⟩ := by
  induction l generalizing b with
  | nil => simp
  | cons a l ih =>
    rw [List.foldl_cons, ih, deleteNode_eq]
    simp [Buffer.push]

/-- Repeated imports are removed by edits that remove nodes. -/
theorem collapse_eq (file : SourceFile) (existing : List ExistingImport) (b : Buffer) :
    collapse file existing b =
      ⟨b.source, b.edits ++ (removed file existing).map (deletion file.source)⟩ := by
  -- A declaration goes as a whole if all its specs are repeated, else spec by spec.
  have step : ∀ (b : Buffer) (declaration : Tree),
      (if declaration.importSpecs.length = (doomed existing declaration).length then
          deleteNode file.source b declaration
        else (doomed existing declaration).foldl (fun b e => deleteNode file.source b e.spec) b) =
        ⟨b.source, b.edits ++ (removedFrom existing declaration).map (deletion file.source)⟩ := by
    intro b declaration
    unfold removedFrom
    split
    · rw [deleteNode_eq]
      rfl
    · exact foldl_deleteNode file.source ExistingImport.spec _ b
  have all : ∀ (declarations : List Tree) (b : Buffer),
      declarations.foldl (fun b declaration =>
          if declaration.importSpecs.length = (doomed existing declaration).length then
            deleteNode file.source b declaration
          else (doomed existing declaration).foldl (fun b e => deleteNode file.source b e.spec) b)
        b =
        ⟨b.source, b.edits ++
          (declarations.flatMap (removedFrom existing)).map (deletion file.source)⟩ := by
    intro declarations
    induction declarations with
    | nil => simp
    | cons declaration declarations ih =>
      intro b
      rw [List.foldl_cons, step, ih]
      simp
  exact all _ b

/-! ## The imports that are left -/

/-- What is written in a file is read off a declaration and one of its specifications. -/
private theorem ofFile_parts
    (same : existing.map ExistingImport.written = ExistingImport.writtenIn file)
    (he : e ∈ existing) :
    e.declaration ∈ file.tree.childrenOf .importDeclaration ∧
      e.spec ∈ e.declaration.importSpecs := by
  have listed : e.written ∈ ExistingImport.writtenIn file := same ▸ List.mem_map_of_mem he
  obtain ⟨declaration, hd, listed⟩ := List.mem_flatMap.1 listed
  obtain ⟨spec, hs, parts⟩ := List.mem_filterMap.1 listed
  obtain ⟨parts, -, eq⟩ := Option.map_eq_some_iff.1 parts
  obtain ⟨rfl, rfl, -⟩ := Prod.mk.inj eq |>.imp_right Prod.mk.inj
  exact ⟨hd, hs⟩

private theorem kind_of_mem_importSpecs {declaration spec : Tree}
    (h : spec ∈ declaration.importSpecs) : spec.kind = .importSpec := by
  rcases List.mem_append.1 h with own | listed
  · exact of_decide_eq_true (List.mem_filter.1 own).2
  · obtain ⟨_, -, own⟩ := List.mem_flatMap.1 listed
    exact of_decide_eq_true (List.mem_filter.1 own).2

section

variable (parsed : parse? file.source = some file.tree)
  (same : existing.map ExistingImport.written = ExistingImport.writtenIn file)

include parsed same

/-- The imports of a file start at different offsets. -/
private theorem nodup_spec_starts : (existing.map (·.spec.start)).Nodup := by
  have specs : existing.map (·.spec) = (ExistingImport.writtenIn file).map (·.2.1) := by
    rw [← same, List.map_map]
    rfl
  -- They are read off the specs of the file in order, some of which are no imports.
  have fewer : ((ExistingImport.writtenIn file).map (·.2.1)).Sublist
      ((file.tree.childrenOf .importDeclaration).flatMap Tree.importSpecs) := by
    unfold ExistingImport.writtenIn
    rw [List.map_flatMap]
    refine List.Sublist.flatMap_right _ fun declaration _ => ?_
    refine map_filterMap_sublist (fun spec w parts => ?_) _
    obtain ⟨-, -, rfl⟩ := Option.map_eq_some_iff.1 parts
    rfl
  have nodup := (nodup_importSpecs parsed).2.sublist (fewer.map Tree.start)
  rw [← specs, List.map_map] at nodup
  exact nodup

theorem nodup_existing : existing.Nodup :=
  (nodup_spec_starts parsed same).of_map _

/-- An import is told by its specification. -/
private theorem eq_of_spec_eq {f : ExistingImport} (he : e ∈ existing) (hf : f ∈ existing)
    (h : e.spec = f.spec) : e = f :=
  List.inj_on_of_nodup_map (nodup_spec_starts parsed same) he hf (congrArg Tree.start h)

theorem mem_doomed_iff (he : e ∈ existing) {declaration : Tree}
    (hd : declaration ∈ file.tree.childrenOf .importDeclaration) :
    e ∈ doomed existing declaration ↔
      e ∈ ExistingImport.repeated existing ∧ e.declaration = declaration := by
  unfold doomed
  rw [List.mem_filter, decide_eq_true_iff]
  refine and_congr_right fun _ => ⟨fun start => ?_, congrArg Tree.start⟩
  exact List.inj_on_of_nodup_map (nodup_importSpecs parsed).1 (ofFile_parts same he).1 hd start

/-- A declaration goes as a whole only if all its imports are repeated. -/
private theorem mem_repeated_of_whole (he : e ∈ existing)
    (whole : e.declaration.importSpecs.length = (doomed existing e.declaration).length) :
    e ∈ ExistingImport.repeated existing := by
  obtain ⟨declared, specified⟩ := ofFile_parts same he
  have nodup := nodup_existing parsed same
  have listed : ∀ f ∈ doomed existing e.declaration,
      f ∈ existing ∧ f ∈ ExistingImport.repeated existing ∧ f.declaration = e.declaration := by
    intro f hf
    have old := ((ExistingImport.mem_repeated_iff nodup).1 (List.mem_filter.1 hf).1).1
    exact ⟨old, (mem_doomed_iff parsed same old declared).1 hf⟩
  have distinct : ((doomed existing e.declaration).map (·.spec)).Nodup := by
    refine List.Nodup.map_on (fun f hf g hg h => ?_)
      ((ExistingImport.nodup_repeated nodup).filter _)
    exact eq_of_spec_eq parsed same (listed f hf).1 (listed g hg).1 h
  have within : (doomed existing e.declaration).map (·.spec) ⊆ e.declaration.importSpecs := by
    intro spec hs
    obtain ⟨f, hf, rfl⟩ := List.mem_map.1 hs
    obtain ⟨old, -, here⟩ := listed f hf
    exact here ▸ (ofFile_parts same old).2
  -- As many specifications as there are, all different: these are all of them.
  have all : e.spec ∈ (doomed existing e.declaration).map (·.spec) :=
    ((List.Nodup.subperm distinct within).perm_of_length_le (by simp [whole])).mem_iff.2
      specified
  obtain ⟨f, hf, spec⟩ := List.mem_map.1 all
  obtain ⟨old, again, -⟩ := listed f hf
  exact eq_of_spec_eq parsed same old he spec ▸ again

/-- An import is removed, by itself or with its declaration, iff it is not the one that stays. -/
theorem removed_iff (he : e ∈ existing) :
    e.spec ∈ removed file existing ∨ e.declaration ∈ removed file existing ↔
      ExistingImport.survivorOf? existing e.pair ≠ some e := by
  obtain ⟨declared, specified⟩ := ofFile_parts same he
  have nodup := nodup_existing parsed same
  have repeated_iff : e ∈ ExistingImport.repeated existing ↔
      ExistingImport.survivorOf? existing e.pair ≠ some e := by
    rw [ExistingImport.mem_repeated_iff nodup, and_iff_right he]
  rw [← repeated_iff]
  -- Specifications and declarations are nodes of different kinds.
  have kinds : e.spec.kind = .importSpec ∧ e.declaration.kind = .importDeclaration :=
    ⟨kind_of_mem_importSpecs specified, of_decide_eq_true (List.mem_filter.1 declared).2⟩
  constructor
  · rintro (gone | gone)
    · obtain ⟨declaration, hd, gone⟩ := List.mem_flatMap.1 gone
      unfold removedFrom at gone
      split at gone
      · have kind := kinds.1
        rw [List.mem_singleton.1 gone, of_decide_eq_true (List.mem_filter.1 hd).2] at kind
        cases kind
      · obtain ⟨f, hf, spec⟩ := List.mem_map.1 gone
        have again := (List.mem_filter.1 hf).1
        have old := ((ExistingImport.mem_repeated_iff nodup).1 again).1
        exact eq_of_spec_eq parsed same old he spec ▸ again
    · obtain ⟨declaration, hd, gone⟩ := List.mem_flatMap.1 gone
      unfold removedFrom at gone
      split at gone
      · rename_i whole
        obtain rfl := List.mem_singleton.1 gone
        exact mem_repeated_of_whole parsed same he whole
      · obtain ⟨f, hf, spec⟩ := List.mem_map.1 gone
        have old := ((ExistingImport.mem_repeated_iff nodup).1 (List.mem_filter.1 hf).1).1
        have kind := kind_of_mem_importSpecs (ofFile_parts same old).2
        rw [spec, kinds.2] at kind
        cases kind
  · intro again
    have here := (mem_doomed_iff parsed same he declared).2 ⟨again, rfl⟩
    by_cases whole : e.declaration.importSpecs.length = (doomed existing e.declaration).length
    · refine .inr (List.mem_flatMap.2 ⟨_, declared, ?_⟩)
      rw [removedFrom, if_pos whole]
      exact List.mem_singleton_self _
    · refine .inl (List.mem_flatMap.2 ⟨_, declared, ?_⟩)
      rw [removedFrom, if_neg whole]
      exact List.mem_map_of_mem here

omit parsed same in
/-- What is removed is an import declaration or a repeated import. -/
private theorem mem_removed (nodup : existing.Nodup) (ht : t ∈ removed file existing) :
    t ∈ file.tree.childrenOf .importDeclaration ∨
      ∃ e ∈ existing, e.spec = t ∧ ExistingImport.survivorOf? existing e.pair ≠ some e := by
  obtain ⟨declaration, hd, gone⟩ := List.mem_flatMap.1 ht
  unfold removedFrom at gone
  split at gone
  · exact .inl (List.mem_singleton.1 gone ▸ hd)
  · obtain ⟨f, hf, rfl⟩ := List.mem_map.1 gone
    obtain ⟨old, other⟩ := (ExistingImport.mem_repeated_iff nodup).1 (List.mem_filter.1 hf).1
    exact .inr ⟨f, old, rfl, other⟩

/-- What is removed lies in the text. -/
theorem removed_inside (ht : t ∈ removed file existing) :
    t.start ≤ t.stop ∧ t.stop ≤ file.source.length := by
  have inside : ∀ u : Tree, u ∈ Tree.preorderAll file.tree.children → u.kind ≠ .comment →
      u.start ≤ u.stop ∧ u.stop ≤ file.source.length := fun u hu other =>
    (nodes_inside parsed u hu).resolve_left fun comment => other comment.1
  have self : ∀ u : Tree, u ∈ u.preorder := fun u => u.preorder_eq ▸ List.mem_cons_self
  -- It is a declaration of the file or a spec of one, and both are nodes of the file.
  obtain declared | ⟨e, he, rfl, -⟩ := mem_removed (nodup_existing parsed same) ht
  · obtain ⟨child, kind⟩ := List.mem_filter.1 declared
    refine inside t (mem_preorderAll_of_child child (self t)) ?_
    rw [of_decide_eq_true kind]
    nofun
  · obtain ⟨declared, specified⟩ := ofFile_parts same he
    refine inside e.spec (mem_preorderAll_of_child (List.mem_filter.1 declared).1 ?_) ?_
    · rw [e.declaration.preorder_eq]
      refine List.mem_cons_of_mem _ ?_
      rcases List.mem_append.1 specified with own | listed
      · exact mem_preorderAll_of_child (List.mem_filter.1 own).1 (self _)
      · obtain ⟨list, hl, own⟩ := List.mem_flatMap.1 listed
        refine mem_preorderAll_of_child (List.mem_filter.1 hl).1 ?_
        rw [list.preorder_eq]
        exact List.mem_cons_of_mem _ (mem_preorderAll_of_child (List.mem_filter.1 own).1 (self _))
    · rw [kind_of_mem_importSpecs specified]
      nofun

end

end Imports

end Interlace
