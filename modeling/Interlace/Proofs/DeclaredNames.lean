import Interlace.Proofs.CheckedPackage
import Mathlib.Data.List.Count
import Mathlib.Data.List.Perm.Basic

/-!
# The declared names of a package

The declarations of all files can be collected exactly if no name is declared twice, and then they
are what the files list. So the order of the files does not matter for them. Every type that a
declaration writes down belongs to a name of its own, so a name gets at most one type.

## Key results

- `Check.declareFiles_eq_ok_iff`: when the declarations of all files can be collected
- `Check.declareFiles_renumber`: files in another order declare the same
- `Check.count_notes_le`: a declared name gets at most one type
-/

namespace Interlace

open Syntax

/-- The declaration with the file under another number. -/
def Declaration.renumber (ρ : Nat → Nat) (d : Declaration) : Declaration :=
  { d with file := ρ d.file }

namespace Check

/-! ## Entries -/

/-- What a declared name adds to the package, unless it declares nothing. -/
def listing? (index : Nat) (file : SourceFile) (declared : Tree × DeclarationKind) :
    Option (Text × Declaration) :=
  if file.text declared.1 = "_" || (declared.2 = .func && file.text declared.1 = "init") then none
  else some (file.text declared.1, ⟨declared.2, index, declared.1.start, none, none⟩)

/-- What a file declares. -/
def entriesOf (numbered : SourceFile × Nat) : List (Text × Declaration) :=
  (numbered.1.tree.namedChildren.flatMap declaredNames).filterMap (listing? numbered.2 numbered.1)

/-- Entries with new names are added one after the other. -/
inductive Enters : Dict Declaration → List (Text × Declaration) → Dict Declaration → Prop
  | nil (d : Dict Declaration) : Enters d [] d
  | cons {d d' : Dict Declaration} {e : Text × Declaration} {es : List (Text × Declaration)} :
      d.get? e.1 = none → Enters (d.insert e.1 e.2) es d' → Enters d (e :: es) d'

namespace Enters

variable {d d' : Dict Declaration} {e : Text × Declaration} {es : List (Text × Declaration)}

theorem append_iff (d d'' : Dict Declaration) (es fs : List (Text × Declaration)) :
    Enters d (es ++ fs) d'' ↔ ∃ d', Enters d es d' ∧ Enters d' fs d'' := by
  induction es generalizing d with
  | nil =>
    refine ⟨fun h => ⟨d, .nil d, h⟩, ?_⟩
    rintro ⟨d', ⟨⟩, h⟩
    exact h
  | cons e es ih =>
    constructor
    · rintro (_ | ⟨new, h⟩)
      obtain ⟨d', first, second⟩ := (ih _).1 h
      exact ⟨d', .cons new first, second⟩
    · rintro ⟨d', _ | ⟨new, first⟩, second⟩
      exact .cons new ((ih _).2 ⟨d', first, second⟩)

/-- The names of the entries are new. -/
private theorem get?_eq_none (h : Enters d es d') (he : e ∈ es) : d.get? e.1 = none := by
  induction h with
  | nil => cases he
  | cons new _ ih =>
    rcases List.mem_cons.1 he with rfl | he
    · exact new
    · have later := ih he
      rw [Dict.get?_insert] at later
      split at later
      · cases later
      · exact later

/-- No two entries have the same name. -/
theorem nodup (h : Enters d es d') : (es.map Prod.fst).Nodup := by
  induction h with
  | nil => exact List.nodup_nil
  | @cons d d' e es new rest ih =>
    refine List.nodup_cons.2 ⟨fun again => ?_, ih⟩
    -- A second entry for the name would find the first.
    obtain ⟨e', he', same⟩ := List.mem_map.1 again
    have absent := rest.get?_eq_none he'
    rw [Dict.get?_insert, if_pos same.symm] at absent
    cases absent

/-- What is found afterwards was there before or is an entry. -/
theorem get?_eq_some_iff (h : Enters d es d') {name : Text} {found : Declaration} :
    d'.get? name = some found ↔ d.get? name = some found ∨ (name, found) ∈ es := by
  induction h with
  | nil => simp
  | @cons d d' e es new rest ih =>
    rw [ih, Dict.get?_insert, List.mem_cons, ← or_assoc]
    refine or_congr_left ?_
    -- An entry is new when it is made, so it replaces nothing.
    by_cases same : e.1 = name
    · obtain ⟨text, added⟩ := e
      cases same
      simp only [if_true, new, Option.some.injEq, Prod.mk.injEq, true_and, reduceCtorEq, false_or]
      exact eq_comm
    · rw [if_neg same, or_iff_left]
      rintro rfl
      exact same rfl

end Enters

/-- Entries whose names are new and differ can be added. -/
private theorem exists_enters {es : List (Text × Declaration)} {d : Dict Declaration}
    (nodup : (es.map Prod.fst).Nodup) (new : ∀ e ∈ es, d.get? e.1 = none) :
    ∃ d', Enters d es d' := by
  induction es generalizing d with
  | nil => exact ⟨d, .nil d⟩
  | cons e es ih =>
    obtain ⟨other, nodup⟩ := List.nodup_cons.1 nodup
    have absent : ∀ e' ∈ es, (d.insert e.1 e.2).get? e'.1 = none := by
      intro e' he'
      have differ : e.1 ≠ e'.1 := fun same => other (same ▸ List.mem_map_of_mem he')
      rw [Dict.get?_insert, if_neg differ]
      exact new e' (List.mem_cons_of_mem e he')
    obtain ⟨d', rest⟩ := ih nodup absent
    exact ⟨d', .cons (new e List.mem_cons_self) rest⟩

/-! ## Collecting declarations -/

private theorem foldlM_eq_ok_iff_enters {α : Type}
    {step : Dict Declaration → α → Except TypeFault (Dict Declaration)}
    {f : α → List (Text × Declaration)}
    (h : ∀ d a d', step d a = .ok d' ↔ Enters d (f a) d') (l : List α) (d d' : Dict Declaration) :
    l.foldlM step d = .ok d' ↔ Enters d (l.flatMap f) d' := by
  induction l generalizing d with
  | nil =>
    refine ⟨fun eq => ?_, fun entered => ?_⟩
    · cases eq
      exact .nil _
    · cases entered
      rfl
  | cons a l ih =>
    rw [List.foldlM_cons, bind_eq_ok_iff, List.flatMap_cons, Enters.append_iff]
    simp only [h, ih]

theorem declare_eq_ok_iff (index : Nat) (file : SourceFile) (d : Dict Declaration)
    (declared : Tree × DeclarationKind) (d' : Dict Declaration) :
    declare index file d declared = .ok d' ↔
      Enters d (listing? index file declared).toList d' := by
  obtain ⟨name, kind⟩ := declared
  unfold declare listing?
  dsimp only
  split
  · refine ⟨fun eq => ?_, fun entered => ?_⟩
    · cases eq
      exact .nil _
    · cases entered
      rfl
  · rw [Dict.contains]
    -- A name that is listed enters only if it is new.
    cases found : d.get? (file.text name) with
    | some other =>
      refine ⟨fun eq => ?_, ?_⟩
      · cases eq
      · rintro (_ | ⟨new, _⟩)
        rw [found] at new
        cases new
    | none =>
      refine ⟨fun eq => ?_, ?_⟩
      · cases eq
        exact .cons found (.nil _)
      · rintro (_ | ⟨_, ⟨⟩⟩)
        rfl

/-- The declarations of all files can be collected iff no name is declared twice. -/
theorem declareFiles_eq_ok_iff (numbered : List (SourceFile × Nat)) (d : Dict Declaration) :
    numbered.foldlM declareFile .empty = .ok d ↔ Enters .empty (numbered.flatMap entriesOf) d := by
  refine foldlM_eq_ok_iff_enters (fun d entry d' => ?_) numbered .empty d
  rw [entriesOf, List.filterMap_eq_flatMap_toList]
  exact foldlM_eq_ok_iff_enters (declare_eq_ok_iff entry.2 entry.1) _ d d'

/-! ## Files in another order -/

/-- The second list of numbered files has the files of the first, under other numbers. -/
def Renumbers (ρ : Nat → Nat) (numbered numbered' : List (SourceFile × Nat)) : Prop :=
  (numbered'.map fun entry => (entry.1, ρ entry.2)).Perm numbered

private theorem entriesOf_renumber (ρ : Nat → Nat) (file : SourceFile) (index : Nat) :
    entriesOf (file, ρ index) =
      (entriesOf (file, index)).map (Prod.map id (Declaration.renumber ρ)) := by
  unfold entriesOf
  dsimp only
  rw [List.map_filterMap]
  congr 1
  funext declared
  unfold listing?
  split <;> rfl

/-- Files in another order declare the same. -/
private theorem entries_renumber {ρ : Nat → Nat} {numbered numbered' : List (SourceFile × Nat)}
    (h : Renumbers ρ numbered numbered') :
    ((numbered'.flatMap entriesOf).map (Prod.map id (Declaration.renumber ρ))).Perm
      (numbered.flatMap entriesOf) := by
  have renumbered : (numbered'.flatMap entriesOf).map (Prod.map id (Declaration.renumber ρ)) =
      (numbered'.map fun entry => (entry.1, ρ entry.2)).flatMap entriesOf := by
    rw [List.map_flatMap, List.flatMap_map]
    simp only [entriesOf_renumber]
  rw [renumbered]
  exact h.flatMap_right entriesOf

/-- If the declarations of all files can be collected, they can be in any order of the files, and
come out the same. -/
theorem declareFiles_renumber {ρ : Nat → Nat} {numbered numbered' : List (SourceFile × Nat)}
    (h : Renumbers ρ numbered numbered') {d : Dict Declaration}
    (declared : numbered.foldlM declareFile .empty = .ok d) :
    ∃ d', numbered'.foldlM declareFile .empty = .ok d' ∧
      ∀ name, (d'.get? name).map (Declaration.renumber ρ) = d.get? name := by
  have entered := (declareFiles_eq_ok_iff numbered d).1 declared
  have same := entries_renumber h
  have nodup : ((numbered'.flatMap entriesOf).map Prod.fst).Nodup := by
    have names := (same.map Prod.fst).nodup_iff.2 entered.nodup
    rwa [List.map_map] at names
  obtain ⟨d', entered'⟩ := exists_enters nodup fun e _ => Dict.get?_empty e.1
  refine ⟨d', (declareFiles_eq_ok_iff numbered' d').2 entered', fun name => ?_⟩
  -- Both dictionaries find exactly their entries, and those are the same up to the numbers.
  have found (e : Declaration) (he : d'.get? name = some e) :
      d.get? name = some (e.renumber ρ) := by
    have listed := (entered'.get?_eq_some_iff.1 he).resolve_left nofun
    exact entered.get?_eq_some_iff.2 (.inr (same.mem_iff.1 (List.mem_map_of_mem listed)))
  cases before : d'.get? name with
  | some e => exact (found e before).symm
  | none =>
    cases after : d.get? name with
    | none => rfl
    | some e =>
      have listed := (entered.get?_eq_some_iff.1 after).resolve_left nofun
      obtain ⟨⟨name', e'⟩, listed', eq⟩ := List.mem_map.1 (same.mem_iff.2 listed)
      cases eq
      have found' := entered'.get?_eq_some_iff.2 (.inr listed')
      exact absurd (before.symm.trans found') nofun

/-! ## Types that declarations write down -/

/-- A type that a declaration writes down for a name: of a variable, or what an alias stands
for. -/
structure TypeNote where
  name : Text
  isAlias : Bool
  node : Tree

/-- The declaration with the type of a note. -/
def TypeNote.fill (note : TypeNote) (t : TypeRef) (d : Declaration) : Declaration :=
  if note.isAlias then { d with aliasOf := some t } else { d with type := some t }

/-- What an alias declaration writes down. -/
def aliasNote? (file : SourceFile) (spec : Tree) : Option TypeNote := do
  let name ← spec.child? .name
  let node ← spec.child? .type
  return ⟨file.text name, true, node⟩

/-- What a variable specification writes down. -/
def varNotes (file : SourceFile) (spec : Tree) : List TypeNote :=
  match spec.child? .type with
  | none => []
  | some node => (spec.childrenIn .name).map fun name => ⟨file.text name, false, node⟩

/-- The types that the declarations of a file write down. -/
def typeNotes (file : SourceFile) : List TypeNote :=
  ((file.tree.childrenOf .typeDeclaration).flatMap (Tree.childrenOf .typeAlias)).filterMap
      (aliasNote? file)
    ++ ((file.tree.childrenOf .varDeclaration).flatMap Tree.varSpecs).flatMap (varNotes file)

/-- Filling in types goes through the notes of the file. -/
theorem typeUpdates_eq_map (p : PackageTypes) (index : Nat) (file : SourceFile) :
    typeUpdates p index file = (typeNotes file).map fun note =>
      (note.name, note.fill (p.resolveSpelled index file.source note.node)) := by
  unfold typeUpdates typeNotes
  dsimp only
  rw [List.map_append, List.map_filterMap, List.map_flatMap]
  -- Types come first, then variables, and both go through their specs in order.
  congr 1
  · congr 1
    funext spec
    unfold aliasNote?
    cases spec.child? .name with
    | none => rfl
    | some name => cases spec.child? .type <;> rfl
  · congr 1
    funext spec
    unfold varNotes
    cases spec.child? .type with
    | none => rfl
    | some node =>
      dsimp only
      rw [List.map_map]
      rfl

/-! ## One type for each name -/

/-- The names that a declaration declares, by their text. -/
def namesOf (file : SourceFile) (index : Nat) (declaration : Tree) : List Text :=
  ((declaredNames declaration).filterMap (listing? index file)).map Prod.fst

section

variable {name : Text} (real : name ≠ "_") (file : SourceFile) (index : Nat)

private theorem count_flatMap_le {α : Type} {f g : α → List Text} {l : List α}
    (h : ∀ a ∈ l, (f a).count name ≤ (g a).count name) :
    (l.flatMap f).count name ≤ (l.flatMap g).count name := by
  induction l with
  | nil => exact Nat.le_refl _
  | cons a l ih =>
    rw [List.flatMap_cons, List.flatMap_cons, List.count_append, List.count_append]
    exact Nat.add_le_add (h a List.mem_cons_self) (ih fun b hb => h b (List.mem_cons_of_mem a hb))

include real

/-- Apart from functions, every name but the blank one is declared. -/
private theorem count_entries {kind : DeclarationKind} (hk : kind ≠ .func) (nodes : List Tree) :
    (((nodes.map (·, kind)).filterMap (listing? index file)).map Prod.fst).count name =
      (nodes.map file.text).count name := by
  induction nodes with
  | nil => rfl
  | cons node nodes ih =>
    simp only [List.map_cons, List.filterMap_cons, listing?, hk, decide_false, Bool.false_and,
      Bool.or_false, decide_eq_true_eq] at ih ⊢
    split
    · rename_i blank
      -- The blank name is not the one that is counted.
      split at blank
      · rename_i text
        rw [ih, List.count_cons_of_ne (text ▸ real.symm)]
      · cases blank
    · rename_i e listed
      split at listed
      · cases listed
      · cases listed
        rw [List.map_cons, List.count_cons, List.count_cons, ih]

private theorem count_aliasNote?_le (spec : Tree) :
    ((aliasNote? file spec).toList.map TypeNote.name).count name ≤
      (((((spec.childrenIn .name).take 1).map (·, DeclarationKind.type)).filterMap
        (listing? index file)).map Prod.fst).count name := by
  rw [count_entries real file index (by decide), Tree.childrenIn, List.take_one, List.head?_filter]
  unfold aliasNote? Tree.child?
  cases spec.children.find? (·.field = some .name) with
  | none => exact Nat.zero_le _
  | some node => cases spec.children.find? (·.field = some .type) <;> simp

private theorem count_varNotes_le (spec : Tree) :
    ((varNotes file spec).map TypeNote.name).count name ≤
      ((((spec.childrenIn .name).map (·, DeclarationKind.var)).filterMap
        (listing? index file)).map Prod.fst).count name := by
  rw [count_entries real file index (by decide)]
  unfold varNotes
  cases spec.child? .type with
  | none => exact Nat.zero_le _
  | some node =>
    rw [List.map_map]
    exact Nat.le_refl _

private theorem count_aliases_le {declaration : Tree} (hk : declaration.kind = .typeDeclaration) :
    (((declaration.childrenOf .typeAlias).filterMap (aliasNote? file)).map
      TypeNote.name).count name ≤ (namesOf file index declaration).count name := by
  unfold namesOf declaredNames
  rw [hk]
  dsimp only
  rw [List.flatMap_append, List.filterMap_append, List.map_append, List.count_append,
    List.filterMap_flatMap, List.filterMap_flatMap, List.map_flatMap, List.map_flatMap,
    List.filterMap_eq_flatMap_toList (aliasNote? file), List.map_flatMap]
  have each := count_flatMap_le (l := declaration.childrenOf .typeAlias)
    fun spec _ => count_aliasNote?_le real file index spec
  omega

private theorem count_variables_le {declaration : Tree} (hk : declaration.kind = .varDeclaration) :
    ((declaration.varSpecs.flatMap (varNotes file)).map TypeNote.name).count name ≤
      (namesOf file index declaration).count name := by
  unfold namesOf declaredNames
  rw [hk]
  dsimp only
  rw [List.filterMap_flatMap, List.map_flatMap, List.map_flatMap]
  exact count_flatMap_le fun spec _ => count_varNotes_le real file index spec

/-- In a list of declarations, a name but the blank one gets no more types than it is declared. -/
private theorem count_children_le (declarations : List Tree) :
    ((((declarations.filter (·.kind = .typeDeclaration)).flatMap
        (Tree.childrenOf .typeAlias)).filterMap (aliasNote? file)).map TypeNote.name).count name
      + ((((declarations.filter (·.kind = .varDeclaration)).flatMap Tree.varSpecs).flatMap
        (varNotes file)).map TypeNote.name).count name ≤
      ((declarations.filter Tree.isNamed).flatMap (namesOf file index)).count name := by
  induction declarations with
  | nil => exact Nat.le_refl _
  | cons declaration declarations ih =>
    simp only [List.filter_cons, decide_eq_true_eq]
    by_cases types : declaration.kind = .typeDeclaration
    · have here := count_aliases_le real file index types
      have named : declaration.isNamed = true := by
        rw [Tree.isNamed, types]
        rfl
      have other : declaration.kind ≠ .varDeclaration := by simp [types]
      rw [if_pos types, if_neg other, if_pos named]
      simp only [List.flatMap_cons, List.filterMap_append, List.map_append, List.count_append]
      omega
    · rw [if_neg types]
      by_cases vars : declaration.kind = .varDeclaration
      · have here := count_variables_le real file index vars
        have named : declaration.isNamed = true := by
          rw [Tree.isNamed, vars]
          rfl
        rw [if_pos vars, if_pos named]
        simp only [List.flatMap_cons, List.flatMap_append, List.map_append, List.count_append]
        omega
      · -- No other declaration writes a type down.
        rw [if_neg vars]
        split
        · simp only [List.flatMap_cons, List.count_append]
          omega
        · exact ih

/-- In a file, a name but the blank one gets no more types than it is declared. -/
private theorem count_typeNotes_le :
    ((typeNotes file).map TypeNote.name).count name ≤
      ((entriesOf (file, index)).map Prod.fst).count name := by
  have all := count_children_le real file index file.tree.children
  have names : (entriesOf (file, index)).map Prod.fst =
      (file.tree.children.filter Tree.isNamed).flatMap (namesOf file index) := by
    unfold entriesOf
    dsimp only
    rw [List.filterMap_flatMap, List.map_flatMap]
    rfl
  rw [typeNotes, List.map_append, List.count_append, names]
  exact all

end

/-- A declared name gets at most one type. -/
theorem count_notes_le {numbered : List (SourceFile × Nat)} {d : Dict Declaration}
    (declared : numbered.foldlM declareFile .empty = .ok d) {name : Text}
    (found : d.get? name ≠ none) :
    ((numbered.flatMap fun entry => typeNotes entry.1).map TypeNote.name).count name ≤ 1 := by
  have entered := (declareFiles_eq_ok_iff numbered d).1 declared
  -- The blank name is never declared.
  have real : name ≠ "_" := by
    rintro rfl
    obtain ⟨e, he⟩ := Option.ne_none_iff_exists'.1 found
    have listed := (entered.get?_eq_some_iff.1 he).resolve_left nofun
    obtain ⟨entry, -, listed⟩ := List.mem_flatMap.1 listed
    obtain ⟨declared, -, blank⟩ := List.mem_filterMap.1 listed
    unfold listing? at blank
    split at blank
    · cases blank
    · rename_i named
      have text := congrArg Prod.fst (Option.some.inj blank)
      dsimp only at text
      simp [text] at named
  have once := List.nodup_iff_count.1 entered.nodup name
  rw [List.map_flatMap] at once ⊢
  refine Nat.le_trans (count_flatMap_le fun entry _ => ?_) once
  exact count_typeNotes_le real entry.1 entry.2

end Check

end Interlace
