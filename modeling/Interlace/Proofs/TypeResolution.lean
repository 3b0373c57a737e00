import Interlace.Proofs.AliasCircles
import Interlace.Proofs.FileOrder

/-!
# What type expressions come to

A type expression is resolved part by part, and after every part the aliases are followed anew. In
a checked package this comes to an end for every type expression exactly if no alias comes back to
itself below pointers. If no alias of the files refers to itself, it always ends, and the names of
aliases are all gone from what it ends with exactly if no more than eight of them follow in a row.

## Key results

- `PackageTypes.Resolves`: resolving a type expression, without a bound on its parts or on pointers
- `PackageTypes.Resolves.eq`: if it comes to an end, `PackageTypes.resolveType` gives that end
- `Check.aliasTarget?_ne_none_iff`: the aliases of a checked package are those that its files
  declare
- `Check.package_resolves_iff`: when all type expressions of a checked package are resolved, and
  when they are rid of aliases
- `Check.package_resolves_cut`: a row of nine aliases is cut short
-/

namespace Interlace

open Syntax Relation Importing

/-! ## Parts of type expressions -/

namespace Syntax.Tree

private theorem length_preorder_le {ts : List Tree} {t : Tree} (h : t ∈ ts) :
    t.preorder.length ≤ (preorderAll ts).length := by
  induction ts with
  | nil => cases h
  | cons u ts ih =>
    rw [preorderAll, List.length_append]
    rcases List.mem_cons.1 h with rfl | later
    · exact Nat.le_add_right _ _
    · exact Nat.le_trans (ih later) (Nat.le_add_left _ _)

theorem length_preorder_lt {t child : Tree} (h : child ∈ t.children) :
    child.preorder.length < t.preorder.length := by
  cases t with
  | node k f s e cs =>
    rw [preorder, List.length_cons]
    exact Nat.lt_succ_of_le (length_preorder_le h)

theorem length_preorder_pos (t : Tree) : 0 < t.preorder.length := by
  cases t
  exact Nat.succ_pos _

/-- The part that a type expression is resolved by, and what the type of the part is made to. -/
def typePart? (node : Tree) : Option (Tree × (TypeRef → TypeRef)) :=
  match node.kind with
  | .pointerType => node.namedChildren.head?.map (·, TypeRef.pointer)
  | .parenthesizedType => node.namedChildren.head?.map (·, id)
  | .genericType => (node.child? .type).map (·, id)
  | _ => none

private theorem mem_children_of_typePart? {node part : Tree} {wrap : TypeRef → TypeRef}
    (h : node.typePart? = some (part, wrap)) : part ∈ node.children := by
  have named {t : Tree} (first : node.namedChildren.head? = some t) : t ∈ node.children :=
    (List.mem_filter.1 (List.mem_of_head? first)).1
  unfold typePart? at h
  split at h
  · obtain ⟨t, first, eq⟩ := Option.map_eq_some_iff.1 h
    cases eq
    exact named first
  · obtain ⟨t, first, eq⟩ := Option.map_eq_some_iff.1 h
    cases eq
    exact named first
  · obtain ⟨t, found, eq⟩ := Option.map_eq_some_iff.1 h
    cases eq
    exact List.mem_of_find?_eq_some found
  · cases h

end Syntax.Tree

namespace PackageTypes

variable {p : PackageTypes} {index : Nat} {source : Text} {node : Tree} {t u : TypeRef}

/-! ## Without a bound -/

/-- A type expression with a part comes to what the type of the part is made to. -/
private theorem resolveWith_of_part {part : Tree} {wrap : TypeRef → TypeRef}
    (found : node.typePart? = some (part, wrap)) (fuel : Nat) :
    p.resolveWith index source (fuel + 1) false node =
      wrap (p.resolveWith index source fuel true part) := by
  rw [resolveWith]
  unfold Tree.typePart? at found
  split at found
  · obtain ⟨t, first, eq⟩ := Option.map_eq_some_iff.1 found
    cases eq
    simp only [*, Bool.false_eq_true, if_false]
  · obtain ⟨t, first, eq⟩ := Option.map_eq_some_iff.1 found
    cases eq
    simp only [*, Bool.false_eq_true, if_false]
  · obtain ⟨t, first, eq⟩ := Option.map_eq_some_iff.1 found
    cases eq
    simp only [*, Bool.false_eq_true, if_false]
  · cases found

/-- A type expression without a part comes to the same with any fuel. -/
private theorem resolveWith_of_name (plain : node.typePart? = none) (fuel : Nat) :
    p.resolveWith index source (fuel + 1) false node =
      p.resolveWith index source 1 false node := by
  rw [resolveWith, resolveWith]
  simp only [Bool.false_eq_true, if_false]
  unfold Tree.typePart? at plain
  split
  all_goals rename_i kind
  all_goals simp only [kind] at plain ⊢
  · rw [Option.map_eq_none_iff.1 plain]
  · rw [Option.map_eq_none_iff.1 plain]
  · rw [Option.map_eq_none_iff.1 plain]

private theorem resolveWith_closed (p : PackageTypes) (index : Nat) (source : Text) (fuel : Nat)
    (node : Tree) : p.resolveWith index source (fuel + 1) true node =
      p.followAliases (p.resolveWith index source (fuel + 1) false node) := by
  rw [resolveWith, resolveWith]
  rfl

/-- A type expression is resolved by its part, and then aliases are followed. -/
inductive Resolves (p : PackageTypes) (index : Nat) (source : Text) : Tree → TypeRef → Prop
  | part {node part : Tree} {wrap : TypeRef → TypeRef} {t u : TypeRef} :
      node.typePart? = some (part, wrap) → Resolves p index source part t →
      p.Follows (wrap t) u → Resolves p index source node u
  | name {node : Tree} {u : TypeRef} :
      node.typePart? = none → p.Follows (p.resolveWith index source 1 false node) u →
      Resolves p index source node u

private theorem Resolves.eq_of_fuel (resolves : p.Resolves index source node t) {fuel : Nat}
    (enough : node.preorder.length ≤ fuel) : p.resolveWith index source fuel true node = t := by
  induction resolves generalizing fuel with
  | @part node part wrap t u found _ follows ih =>
    have smaller := Tree.length_preorder_lt (Tree.mem_children_of_typePart? found)
    obtain ⟨fuel, rfl⟩ : ∃ rest, fuel = rest + 1 := ⟨fuel - 1, by omega⟩
    rw [resolveWith_closed, resolveWith_of_part found, ih (by omega), follows.eq]
  | @name node u plain follows =>
    have := node.length_preorder_pos
    obtain ⟨fuel, rfl⟩ : ∃ rest, fuel = rest + 1 := ⟨fuel - 1, by omega⟩
    rw [resolveWith_closed, resolveWith_of_name plain, follows.eq]

/-- If resolving a type expression comes to an end, then `resolveType` gives that end. -/
theorem Resolves.eq (resolves : p.Resolves index source node t) :
    p.resolveType index source node = t :=
  resolves.eq_of_fuel (Nat.le_refl _)

/-- Without aliases that come back to themselves, resolving a type expression comes to an end. -/
private theorem exists_resolves (straight : ∀ name, ¬ p.Circles name) (index : Nat)
    (source : Text) : (fuel : Nat) → (node : Tree) → node.preorder.length ≤ fuel →
      ∃ t, p.Resolves index source node t
  | 0, node, enough => absurd node.length_preorder_pos (by omega)
  | fuel + 1, node, enough => by
    have ends (t : TypeRef) : ∃ u, p.Follows t u :=
      exists_follows_iff.2 fun name _ => straight name
    cases found : node.typePart? with
    | some entry =>
      obtain ⟨part, wrap⟩ := entry
      have smaller := Tree.length_preorder_lt (Tree.mem_children_of_typePart? found)
      obtain ⟨t, resolved⟩ := exists_resolves straight index source fuel part (by omega)
      obtain ⟨u, follows⟩ := ends (wrap t)
      exact ⟨u, .part found resolved follows⟩
    | none =>
      obtain ⟨u, follows⟩ := ends (p.resolveWith index source 1 false node)
      exact ⟨u, .name found follows⟩

private theorem resolves_resolveType (straight : ∀ name, ¬ p.Circles name) (index : Nat)
    (source : Text)
    (node : Tree) : p.Resolves index source node (p.resolveType index source node) := by
  obtain ⟨t, resolves⟩ := exists_resolves straight index source _ node (Nat.le_refl _)
  rwa [resolves.eq]

/-! ## Names of types -/

/-- The name of a type as a type expression, in a source that has nothing else. -/
def nameNode (name : Text) : Tree :=
  .leaf .typeIdentifier 0 name.length

private theorem resolveWith_nameNode {name : Text}
    (declared : (p.declaration? name).map Declaration.kind = some .type) :
    p.resolveWith index name 1 false (nameNode name) = .named p.importPath name := by
  have whole : (nameNode name).text name = name := by
    simp [nameNode, Tree.text, Tree.leaf, Tree.start, Tree.stop, Text.slice]
  have kind : (nameNode name).kind = .typeIdentifier := rfl
  rw [resolveWith]
  simp [kind, whole, declared]

/-- The name of a type of the package is resolved by following it. -/
theorem resolves_nameNode_iff {name : Text}
    (declared : (p.declaration? name).map Declaration.kind = some .type) :
    p.Resolves index name (nameNode name) t ↔ p.Follows (.named p.importPath name) t := by
  constructor
  · rintro (⟨found, _, _⟩ | ⟨_, follows⟩)
    · cases found
    · rwa [resolveWith_nameNode declared] at follows
  · intro follows
    exact .name rfl (by rwa [resolveWith_nameNode declared])

/-! ## What is left of aliases -/

theorem final_iff : p.Final t ↔ p.aliasTarget? t.innermost = none := by
  induction t with
  | pointer target ih => rw [final_pointer_iff, ih, TypeRef.innermost]
  | named _ _ | builtin _ | other _ =>
    show p.Final _ ↔ p.aliasTarget? _ = none
    rw [Option.eq_none_iff_forall_ne_some]
    refine ⟨fun final u found => final u (.here found), fun last u step => ?_⟩
    cases step with
    | here found => exact last u found

/-- Only a row that starts with an alias of the package can be too long. -/
theorem Overruns.named (h : p.Overruns t) : ∃ name, t = .named p.importPath name ∧
    p.aliasTarget? t ≠ none := by
  cases found : p.aliasTarget? t with
  | some u =>
    obtain ⟨name, -, same, -⟩ := aliasTarget?_eq_some_iff.1 found
    exact ⟨name, same, nofun⟩
  | none =>
    have cut := h.1
    rw [chase, found] at cut
    cases cut

/-- If no row of aliases is too long, none is left in what a type expression comes to. -/
theorem Resolves.final (resolves : p.Resolves index source node t)
    (short : ∀ name, ¬ p.Overruns (.named p.importPath name)) : p.Final t := by
  have reached {t u : TypeRef} (follows : p.Follows t u) : p.Final u := by
    refine follows.final_iff.2 fun v _ overruns => ?_
    obtain ⟨name, rfl, -⟩ := overruns.named
    exact short name overruns
  cases resolves with
  | part _ _ follows => exact reached follows
  | name _ follows => exact reached follows

end PackageTypes

namespace Check

variable {importer : Importer} {before after : ImportState} {importPath : Text}
  {version : Option Version} {files : List SourceFile} {base p : PackageTypes}

/-! ## The aliases of a checked package -/

/-- A file declares the name as an alias. -/
def DeclaresAlias (files : List SourceFile) (name : Text) : Prop :=
  name ≠ blankName ∧ ∃ file ∈ files, ∃ note ∈ typeNotes file, note.isAlias ∧ note.name = name

/-- The name of an alias is declared as that of a type. -/
private theorem Built.declared_of_note (built : Built importer before importPath version files base)
    {file : SourceFile} {index : Nat} (listed : (file, index) ∈ files.zipIdx) {note : TypeNote}
    (noted : note ∈ typeNotes file) (stands : note.isAlias) (real : note.name ≠ blankName) :
    ∃ d, base.declaration? note.name = some d ∧ d.kind = .type := by
  have entered := (declareFiles_eq_ok_iff _ _).1 built.declared
  -- Only the notes of type declarations are aliases; those of variables spell their types.
  rcases List.mem_append.1 noted with aliased | typed
  · obtain ⟨spec, inFile, eq⟩ := List.mem_filterMap.1 aliased
    obtain ⟨declaration, inTree, inDeclaration⟩ := List.mem_flatMap.1 inFile
    obtain ⟨name, named, eq⟩ := Option.bind_eq_some_iff.1 eq
    obtain ⟨target, -, eq⟩ := Option.bind_eq_some_iff.1 eq
    cases eq
    refine ⟨⟨.type, index, name.start, none, none⟩, entered.get?_eq_some_iff.2 (.inr ?_), rfl⟩
    refine List.mem_flatMap.2 ⟨(file, index), listed, List.mem_filterMap.2 ⟨(name, .type), ?_, ?_⟩⟩
    · obtain ⟨inChildren, kind⟩ := List.mem_filter.1 inTree
      have kind : declaration.kind = .typeDeclaration := by simpa using kind
      refine List.mem_flatMap.2 ⟨declaration, List.mem_filter.2 ⟨inChildren, ?_⟩, ?_⟩
      · rw [Tree.isNamed, kind]
        rfl
      · unfold declaredNames
        rw [kind]
        refine List.mem_flatMap.2 ⟨spec, List.mem_append_right _ inDeclaration, ?_⟩
        refine List.mem_map_of_mem ?_
        rw [List.take_one, Tree.childrenIn, List.head?_filter]
        rw [Tree.child?] at named
        rw [named]
        exact List.mem_singleton_self name
    · have real : file.text name ≠ "_" := real
      simp [listing?, real]
  · obtain ⟨spec, -, noted⟩ := List.mem_flatMap.1 typed
    unfold varNotes at noted
    split at noted
    · cases noted
    · obtain ⟨name, -, rfl⟩ := List.mem_map.1 noted
      cases stands

/-- The types that the files write down, each with what it comes to when no type is filled in. -/
def notedTypes (base : PackageTypes) (numbered : List (SourceFile × Nat)) :
    List (TypeNote × TypeRef) :=
  numbered.flatMap fun entry => (typeNotes entry.1).map fun note =>
    (note, base.resolveSpelled entry.2 entry.1.source note.node)

private theorem spellings_eq_map (base : PackageTypes) (numbered : List (SourceFile × Nat)) :
    spellings base numbered =
      (notedTypes base numbered).map fun e => (e.1.name, e.1.fill e.2) := by
  rw [spellings, notedTypes, List.map_flatMap]
  refine List.flatMap_congr fun entry _ => ?_
  rw [typeUpdates_eq_map, List.map_map]
  rfl

/-- Filling in makes an alias exactly if one of the notes is about one. -/
private theorem aliasOf_foldl_fill (notes : List (TypeNote × TypeRef)) (d : Declaration) :
    (notes.foldl (fun d e => e.1.fill e.2 d) d).aliasOf ≠ none ↔
      d.aliasOf ≠ none ∨ ∃ e ∈ notes, e.1.isAlias = true := by
  induction notes generalizing d with
  | nil => simp
  | cons e notes ih =>
    rw [List.foldl_cons, ih, List.exists_mem_cons_iff, ← or_assoc]
    refine or_congr_left ?_
    unfold TypeNote.fill
    cases e.1.isAlias <;> simp

/-- The blank name is not declared. -/
private theorem Built.ne_blankName (built : Built importer before importPath version files base)
    {name : Text} {d : Declaration} (declared : base.declaration? name = some d) :
    name ≠ blankName := by
  have entered := (declareFiles_eq_ok_iff _ _).1 built.declared
  obtain ⟨entry, -, listed⟩ :=
    List.mem_flatMap.1 ((entered.get?_eq_some_iff.1 declared).resolve_left nofun)
  obtain ⟨node, -, listed⟩ := List.mem_filterMap.1 listed
  unfold listing? at listed
  split at listed
  · cases listed
  · rename_i named
    cases listed
    rintro blank
    exact named (by simp [show entry.1.text node.1 = "_" from blank])

/-- The files spell an alias for exactly the names that they declare as aliases. -/
theorem Built.aliasTarget?_spelled_ne_none_iff
    (built : Built importer before importPath version files base) (name : Text) :
    (spelled base files.zipIdx).aliasTarget? (.named base.importPath name) ≠ none ↔
      DeclaresAlias files name := by
  have path : base.importPath = (spelled base files.zipIdx).importPath :=
    (importPath_spelled base files.zipIdx).symm
  have noted : (∃ e ∈ (notedTypes base files.zipIdx).filter (·.1.name = name),
      e.1.isAlias = true) ↔
      ∃ file ∈ files, ∃ note ∈ typeNotes file, note.isAlias = true ∧ note.name = name := by
    constructor
    · rintro ⟨e, listed, stands⟩
      obtain ⟨listed, named⟩ := List.mem_filter.1 listed
      obtain ⟨entry, inFiles, listed⟩ := List.mem_flatMap.1 listed
      obtain ⟨note, here, rfl⟩ := List.mem_map.1 listed
      exact ⟨entry.1, List.fst_mem_of_mem_zipIdx inFiles, note, here, stands, by simpa using named⟩
    · rintro ⟨file, inFiles, note, here, stands, named⟩
      obtain ⟨index, at_index⟩ := List.mem_iff_getElem?.1 inFiles
      refine ⟨(note, base.resolveSpelled index file.source note.node),
        List.mem_filter.2 ⟨List.mem_flatMap.2 ⟨(file, index), ?_, ?_⟩, by simpa using named⟩,
        stands⟩
      · exact List.mk_mem_zipIdx_iff_getElem?.2 at_index
      · exact List.mem_map_of_mem here
  -- The last note for a name counts, so there is an alias if one of them is an alias.
  rw [PackageTypes.aliasTarget?, if_pos path, spelled, foldl_update_declaration?, spellings_eq_map,
    DeclaresAlias, ← noted, List.filter_map]
  cases declared : base.declaration? name with
  | none =>
    refine iff_of_false (by simp) ?_
    rintro ⟨real, found⟩
    obtain ⟨file, inFiles, note, here, stands, rfl⟩ := noted.1 found
    obtain ⟨index, at_index⟩ := List.mem_iff_getElem?.1 inFiles
    obtain ⟨d, known, -⟩ := built.declared_of_note (List.mk_mem_zipIdx_iff_getElem?.2 at_index)
      here stands real
    rw [declared] at known
    cases known
  | some d =>
    rw [Option.map_some, Option.bind_some, List.foldl_map, aliasOf_foldl_fill,
      (built.ready.plain name d declared).2]
    simp [built.ne_blankName declared, Function.comp_def]

private theorem aliasTarget?_resolveUses (p : PackageTypes) (files : List SourceFile)
    (t : TypeRef) : (resolveUses p files).aliasTarget? t = p.aliasTarget? t := by
  cases t <;> rfl

/-- The aliases of a checked package are those that its files declare. -/
theorem aliasTarget?_ne_none_iff
    (checked : (package importPath version files importer).Yields before p after) (name : Text) :
    p.aliasTarget? (.named p.importPath name) ≠ none ↔ DeclaresAlias files name := by
  obtain ⟨base, built, rfl⟩ := exists_yields_package_iff.1 ⟨after, checked⟩
  have shortens := shortens_typed built.ready
  have path : (typed files base).importPath = base.importPath :=
    shortens.importPath.trans (importPath_spelled base files.zipIdx)
  have own : (resolveUses (typed files base) files).importPath =
      (typed files base).importPath := rfl
  rw [← built.aliasTarget?_spelled_ne_none_iff, ← path, aliasTarget?_resolveUses, own]
  refine not_congr ⟨shortens.complete _, fun unspelled => ?_⟩
  -- An alias that is on record is spelled, even if it is followed some way.
  cases found : (typed files base).aliasTarget? (.named (typed files base).importPath name) with
  | none => rfl
  | some u =>
    obtain ⟨v, spelled, -⟩ := shortens.leads _ u found
    rw [unspelled] at spelled
    cases spelled

/-- An alias of a checked package is declared as a type. -/
private theorem kind_of_alias
    (checked : (package importPath version files importer).Yields before p after) {name : Text}
    (found : p.aliasTarget? (.named p.importPath name) ≠ none) :
    (p.declaration? name).map Declaration.kind = some .type := by
  obtain ⟨real, file, inFiles, note, here, stands, rfl⟩ :=
    (aliasTarget?_ne_none_iff checked name).1 found
  obtain ⟨base, built, rfl⟩ := exists_yields_package_iff.1 ⟨after, checked⟩
  obtain ⟨index, at_index⟩ := List.mem_iff_getElem?.1 inFiles
  obtain ⟨d, declared, kind⟩ := built.declared_of_note
    (List.mk_mem_zipIdx_iff_getElem?.2 at_index) here stands real
  have kinds := kinds_of_erase (typed_erase built.ready note.name)
  rw [declared, Option.map_some, kind] at kinds
  exact kinds

/-- Aliases that do not refer to themselves as they are spelled do not as they are on record. -/
private theorem acyclic_of_spelled
    (checked : (package importPath version files importer).Yields before p after)
    (acyclic : (spelled p.bare files.zipIdx).Acyclic) : p.Acyclic := by
  obtain ⟨base, built, rfl⟩ := exists_yields_package_iff.1 ⟨after, checked⟩
  obtain ⟨rank, ranked⟩ := PackageTypes.acyclic_iff_exists_ranks.1 acyclic
  have ranked := ranked.congr built.importPath_spelled_bare built.aliasTarget?_spelled_bare
  exact PackageTypes.acyclic_iff_exists_ranks.2 ⟨rank,
    ((shortens_typed built.ready).ranks ranked).congr rfl (aliasTarget?_resolveUses _ files)⟩

/-! ## Type expressions of a checked package -/

/-- Every type expression of a checked package is resolved exactly if no alias comes back to itself
below pointers. If no alias that the files spell refers to itself, then all are, and the names of
aliases are gone from all that they come to exactly if no more than eight aliases follow in a
row. -/
theorem package_resolves_iff
    (checked : (package importPath version files importer).Yields before p after) :
    ((∀ index source node, p.Resolves index source node (p.resolveType index source node)) ↔
      ∀ name, ¬ p.Circles name) ∧
    ((spelled p.bare files.zipIdx).Acyclic →
      (∀ index source node, p.Resolves index source node (p.resolveType index source node)) ∧
      ((∀ index source node name,
          (p.resolveType index source node).innermost = .named p.importPath name →
            ¬ DeclaresAlias files name) ↔
        ∀ name, ¬ p.Overruns (.named p.importPath name))) := by
  refine ⟨⟨fun resolved name circle => ?_, fun straight => ?_⟩, fun acyclic => ?_⟩
  · -- The name of the alias is a type expression that is not resolved.
    obtain ⟨u, down, -⟩ := TransGen.head'_iff.1 circle
    obtain ⟨_, _, same, found⟩ := down.starts.resolve_left nofun
    have declared : (p.declaration? name).map Declaration.kind = some .type :=
      kind_of_alias checked (by rw [found]; nofun)
    have follows := (PackageTypes.resolves_nameNode_iff declared).1
      (resolved 0 name (PackageTypes.nameNode name))
    exact PackageTypes.exists_follows_iff.1 ⟨_, follows⟩ name .refl circle
  · exact PackageTypes.resolves_resolveType straight
  · have straight := (acyclic_of_spelled checked acyclic).not_circles
    have resolved := PackageTypes.resolves_resolveType straight
    refine ⟨resolved, fun rid name overruns => ?_, fun short index source node name left => ?_⟩
    · obtain ⟨_, -, found⟩ := overruns.named
      have follows := (PackageTypes.resolves_nameNode_iff (kind_of_alias checked found)).1
        (resolved 0 name (PackageTypes.nameNode name))
      have more := mt follows.final_iff.1 fun short => short _ .refl overruns
      rw [PackageTypes.final_iff] at more
      -- What is left to follow is an alias that a file declares.
      obtain ⟨u, target⟩ := Option.ne_none_iff_exists'.1 more
      obtain ⟨other, -, same, -⟩ := PackageTypes.aliasTarget?_eq_some_iff.1 target
      rw [same] at more
      exact rid 0 name _ other same ((aliasTarget?_ne_none_iff checked other).1 more)
    · have final := PackageTypes.final_iff.1 ((resolved index source node).final short)
      rw [left] at final
      exact fun declares => (aliasTarget?_ne_none_iff checked name).2 declares final

/-- Two aliases of which the first stands for a pointer to the second. -/
def shortRow : Text :=
  "package p\ntype A = *B\ntype B = int\nvar x A\n"

/-- Two aliases in a row are followed in every type expression. -/
theorem package_resolves_short :
    ∃ file p after, SourceFile.parse "p.go" shortRow = .ok file ∧
      (package "p" none [file] ⟨noArchives, false⟩).Yields .fresh p after ∧
      (∀ index source node, p.Resolves index source node (p.resolveType index source node)) ∧
      ∀ index source node name,
        (p.resolveType index source node).innermost = .named p.importPath name →
          ¬ DeclaresAlias [file] name := by
  have passed : ((SourceFile.parse "p.go" shortRow).toOption.bind fun file =>
      ((package "p" none [file] ⟨noArchives, false⟩).run.run .fresh).1.toOption.map fun p =>
        (spelled p.bare [file].zipIdx).isRankedBy (fun name => if name = "A" then 1 else 0) &&
          p.isTameBy (fun name => if name = "A" then 1 else 0)) = some true := by decide +kernel
  obtain ⟨file, p, after, parsed, checked, test⟩ := exists_of_test passed
  obtain ⟨ranked, tame⟩ := Bool.and_eq_true_iff.1 test
  obtain ⟨resolved, rid⟩ := (package_resolves_iff checked).2
    (PackageTypes.acyclic_iff_exists_ranks.2 ⟨_, PackageTypes.ranks_of_isRankedBy ranked⟩)
  refine ⟨file, p, after, parsed, checked, resolved, rid.2 fun name overruns => ?_⟩
  have ended := (PackageTypes.tame_of_isTameBy tame).short (.named p.importPath name)
  exact absurd (overruns.1.symm.trans ended) nofun

/-- Nine aliases in a row. -/
def longRow : Text :=
  "package p\ntype A9 = A8\ntype A8 = A7\ntype A7 = A6\ntype A6 = A5\ntype A5 = A4\n" ++
  "type A4 = A3\ntype A3 = A2\ntype A2 = A1\ntype A1 = int\nvar x A9\n"

/-- A row of nine aliases, none of which refers to itself, is cut short: what the type of a variable
comes to is still an alias. -/
theorem package_resolves_cut :
    ∃ file p after, SourceFile.parse "p.go" longRow = .ok file ∧
      (package "p" none [file] ⟨noArchives, false⟩).Yields .fresh p after ∧
      (spelled p.bare [file].zipIdx).Acyclic ∧
      ∃ node ∈ file.tree.preorder, node.text file.source = "A9" ∧
        p.resolveType 0 file.source node = .named "p" "A1" ∧ DeclaresAlias [file] "A1" := by
  -- The nine aliases are ranked by their digits, so none refers to itself.
  have passed : ((SourceFile.parse "p.go" longRow).toOption.bind fun file =>
      ((package "p" none [file] ⟨noArchives, false⟩).run.run .fresh).1.toOption.map fun p =>
        (spelled p.bare [file].zipIdx).isRankedBy (fun name => (name.getLastD 0).toNat) &&
          ((typeNotes file).any fun note => note.isAlias && note.name = "A1") &&
          file.tree.preorder.any fun node => node.text file.source = "A9" &&
            p.resolveType 0 file.source node = .named "p" "A1") = some true := by decide +kernel
  obtain ⟨file, p, after, parsed, checked, test⟩ := exists_of_test passed
  simp only [Bool.and_eq_true, List.any_eq_true, decide_eq_true_eq] at test
  obtain ⟨⟨ranked, note, noted, stands⟩, node, listed, spelledAs, cut⟩ := test
  refine ⟨file, p, after, parsed, checked, PackageTypes.acyclic_iff_exists_ranks.2
    ⟨_, PackageTypes.ranks_of_isRankedBy ranked⟩, node, listed, spelledAs, cut, by decide, file, ?_⟩
  exact ⟨List.mem_singleton_self file, note, noted, stands⟩

/-- An alias that stands for a pointer to itself. -/
def endless : Text :=
  "package p\ntype A = *A\nvar x A\n"

/-- An alias that stands for a pointer to itself is never resolved. -/
theorem package_resolves_endless :
    ∃ file p after, SourceFile.parse "p.go" endless = .ok file ∧
      (package "p" none [file] ⟨noArchives, false⟩).Yields .fresh p after ∧
      ∃ node ∈ file.tree.preorder, ∀ t, ¬ p.Resolves 0 file.source node t := by
  -- One round of following leads the alias back to itself, below a pointer.
  have passed : ((SourceFile.parse "p.go" endless).toOption.bind fun file =>
      ((package "p" none [file] ⟨noArchives, false⟩).run.run .fresh).1.toOption.map fun p =>
        p.chase 8 (.named p.importPath "A") = (.pointer (.named p.importPath "A"), true) &&
          file.tree.preorder.any fun node => node.kind = .typeIdentifier &&
            p.resolveWith 0 file.source 1 false node = .named p.importPath "A") = some true := by
    decide +kernel
  obtain ⟨file, p, after, parsed, checked, test⟩ := exists_of_test passed
  simp only [Bool.and_eq_true, List.any_eq_true, decide_eq_true_eq] at test
  obtain ⟨round, node, listed, kind, named⟩ := test
  refine ⟨file, p, after, parsed, checked, node, listed, fun t resolves => ?_⟩
  have plain : node.typePart? = none := by
    unfold Tree.typePart?
    rw [kind]
  cases resolves with
  | part found _ _ => exact absurd (plain.symm.trans found) nofun
  | name _ follows =>
    rw [named] at follows
    exact follows.not_transGen .refl (.single round)

end Check

end Interlace
