import Interlace.Proofs.AliasSteps
import Interlace.Proofs.DeclaredNames
import Mathlib.Data.List.Induction

/-!
# Declared types as they are spelled

Filling in the types of declarations resolves each type against what is known by then, so an alias
that is filled in later is not followed. Compared with this, the spelled types of a package are
those that come out if no alias is followed at all. They do not depend on the order of the files,
and every type that is filled in lies on the way along the aliases from the one that is spelled.

## Key results

- `Check.spelled`: the package with the types of its declarations as they are spelled
- `Check.spelled_renumber`: files in another order spell the same
- `Check.typed_along`: the types that are filled in lie on the way from the spelled ones
- `Check.shortens_typed`: so the aliases of the package are the spelled ones, followed some way
-/

namespace Interlace

open Syntax Relation

/-- The declaration without its types. -/
def Declaration.erase (d : Declaration) : Declaration :=
  { d with type := none, aliasOf := none }

namespace PackageTypes

/-! ## Type expressions against two packages -/

variable {p q : PackageTypes}

private theorem rel_of_part {R : TypeRef → TypeRef → Prop} (refl : ∀ t, R t t) {part : Option Tree}
    {f g : Tree → TypeRef} {other : TypeRef} (h : ∀ t, R (f t) (g t)) :
    R (match part with
        | some t => f t
        | none => other)
      (match part with
        | some t => g t
        | none => other) := by
  cases part with
  | none => exact refl other
  | some t => exact h t

/-- What a type expression comes to in two packages is related if following aliases keeps the
relation. -/
theorem resolveWith_rel {R : TypeRef → TypeRef → Prop} (refl : ∀ t, R t t)
    (pointer : ∀ t u, R t u → R (.pointer t) (.pointer u))
    (close : ∀ t u, R t u → R (p.followAliases t) (q.followAliases u))
    (path : q.importPath = p.importPath) {i j : Nat}
    (imports : (q.file? j).map FileTypes.imports = (p.file? i).map FileTypes.imports)
    (kinds : ∀ name, (q.declaration? name).map Declaration.kind =
      (p.declaration? name).map Declaration.kind)
    (source : Text) (fuel : Nat) (closed : Bool) (node : Tree) :
    R (p.resolveWith i source fuel closed node) (q.resolveWith j source fuel closed node) := by
  -- A package knows an import of the file by its name, and nothing else of the file.
  have named (name : Text) : (q.file? j).bind (·.importNamed? name) =
      (p.file? i).bind (·.importNamed? name) := by
    have found (f : Option FileTypes) : f.bind (·.importNamed? name) =
        (f.map FileTypes.imports).bind (List.find? (·.localName = name)) := by
      cases f <;> rfl
    rw [found, found, imports]
  induction fuel generalizing closed node with
  | zero => exact refl _
  | succ fuel ih =>
    have atTop {t u : TypeRef} (h : R t u) :
        R (if closed then p.followAliases t else t) (if closed then q.followAliases u else u) := by
      split
      · exact close t u h
      · exact h
    rw [resolveWith, resolveWith]
    dsimp only
    refine atTop ?_
    split
    -- Pointers, parentheses and generic types lead to a part.
    · exact rel_of_part refl fun t => pointer _ _ (ih true t)
    · exact rel_of_part refl fun t => ih true t
    · exact rel_of_part refl fun t => ih true t
    -- Names come to the same type in both packages.
    · simp only [named]
      exact refl _
    · rw [kinds, path]
      exact refl _
    · exact refl _

private theorem follow_plain (plain : ∀ t, p.aliasTarget? t = none) {depth : Nat} {t : TypeRef}
    (enough : t.depth < depth) : p.follow depth t = t := by
  -- The induction is on the fuel, which the pointers around the type stay below.
  induction depth generalizing t with
  | zero => cases enough
  | succ depth ih =>
    have chased : p.chase 8 t = (t, true) := by rw [chase, plain t]
    rw [follow, chased]
    cases t with
    | pointer target =>
      have inner : target.depth < depth := by
        simp only [TypeRef.depth] at enough
        omega
      exact congrArg TypeRef.pointer (ih inner)
    | named _ _ | builtin _ | other _ => rfl

/-- Without aliases there is nothing to follow. -/
private theorem followAliases_plain (plain : ∀ t, p.aliasTarget? t = none) (t : TypeRef) :
    p.followAliases t = t :=
  follow_plain plain (by omega)

private theorem chase_congr (same : ∀ t, q.aliasTarget? t = p.aliasTarget? t) (steps : Nat)
    (t : TypeRef) : q.chase steps t = p.chase steps t := by
  induction steps generalizing t with
  | zero => rfl
  | succ steps ih => simp only [chase, same, ih]

/-- Following aliases is about the declarations only. -/
theorem followAliases_congr (path : q.importPath = p.importPath)
    (same : q.declarations = p.declarations) (t : TypeRef) :
    q.followAliases t = p.followAliases t := by
  have targets (t : TypeRef) : q.aliasTarget? t = p.aliasTarget? t := by
    cases t <;> simp only [aliasTarget?, declaration?, path, same]
  have followed (depth : Nat) (t : TypeRef) : q.follow depth t = p.follow depth t := by
    induction depth generalizing t with
    | zero => rfl
    | succ depth ih => simp only [follow, chase_congr targets, ih]
  rw [followAliases, followAliases, pointerBound, pointerBound, same, followed]

/-- Ranks are about the aliases only. -/
theorem Ranks.congr {rank : Text → Nat} (ranked : p.Ranks rank) (path : q.importPath = p.importPath)
    (same : ∀ t, q.aliasTarget? t = p.aliasTarget? t) : q.Ranks rank := by
  intro name target inner found innermost
  rw [path] at found innermost
  exact ranked name target inner (same _ ▸ found) innermost

/-- Tameness is about the aliases only. -/
theorem Tame.congr (tame : p.Tame) (path : q.importPath = p.importPath)
    (same : ∀ t, q.aliasTarget? t = p.aliasTarget? t) : q.Tame := by
  obtain ⟨rank, ranked⟩ := tame.ends
  refine ⟨⟨rank, ranked.congr path same⟩, fun t => ?_⟩
  rw [chase_congr same]
  exact tame.short t

end PackageTypes

namespace Check

/-! ## Filling in -/

/-- Changes a declaration, if it is there. -/
def update (p : PackageTypes) (change : Text × (Declaration → Declaration)) : PackageTypes :=
  match p.declarations.get? change.1 with
  | some d => { p with declarations := p.declarations.insert change.1 (change.2 d) }
  | none => p

private theorem resolveDeclared_eq (p : PackageTypes) (file : SourceFile) (index : Nat) :
    resolveDeclared p (file, index) = (typeUpdates p index file).foldl update p :=
  rfl

private theorem update_declaration? (p : PackageTypes) (change : Text × (Declaration → Declaration))
    (name : Text) : (update p change).declaration? name =
      if change.1 = name then (p.declaration? name).map change.2 else p.declaration? name := by
  unfold update PackageTypes.declaration?
  by_cases same : change.1 = name
  · rw [if_pos same, ← same]
    cases found : p.declarations.get? change.1 with
    | none => exact found
    | some d => simp [Dict.get?_insert]
  · rw [if_neg same]
    cases p.declarations.get? change.1 with
    | none => rfl
    | some d => simp [Dict.get?_insert, same]

/-- Changes of declarations concern one name each. -/
theorem foldl_update_declaration? (p : PackageTypes)
    (changes : List (Text × (Declaration → Declaration))) (name : Text) :
    (changes.foldl update p).declaration? name =
      (p.declaration? name).map fun d =>
        (changes.filter (·.1 = name)).foldl (fun d change => change.2 d) d := by
  induction changes generalizing p with
  | nil => simp
  | cons change changes ih =>
    rw [List.foldl_cons, ih, update_declaration?, List.filter_cons]
    by_cases here : change.1 = name
    · simp only [here, if_true, decide_true, List.foldl_cons, Option.map_map]
      rfl
    · simp only [here, if_false, decide_false, Bool.false_eq_true]

/-- Changes of declarations change nothing else. -/
private theorem foldl_update_eq (p : PackageTypes)
    (changes : List (Text × (Declaration → Declaration))) :
    ∃ declarations, changes.foldl update p = { p with declarations := declarations } := by
  refine foldl_keeps (K := fun q => ∃ d, q = { p with declarations := d }) ?_
    ⟨p.declarations, rfl⟩
  rintro q change - ⟨d, rfl⟩
  unfold update
  split
  · exact ⟨_, rfl⟩
  · exact ⟨d, rfl⟩

/-- Filling in the types of all declarations changes nothing else. -/
theorem typed_eq (base : PackageTypes) (numbered : List (SourceFile × Nat)) :
    ∃ declarations, numbered.foldl resolveDeclared base =
      { base with declarations := declarations } := by
  refine foldl_keeps (K := fun q => ∃ d, q = { base with declarations := d }) ?_
    ⟨base.declarations, rfl⟩
  rintro q ⟨file, index⟩ - ⟨d, rfl⟩
  rw [resolveDeclared_eq]
  obtain ⟨d', eq⟩ := foldl_update_eq { base with declarations := d } (typeUpdates _ index file)
  exact ⟨d', eq⟩

/-! ## Spelled types -/

/-- What the types in the declarations of all files come to, no type being filled in yet. -/
def spellings (base : PackageTypes) (numbered : List (SourceFile × Nat)) :
    List (Text × (Declaration → Declaration)) :=
  numbered.flatMap fun entry => typeUpdates base entry.2 entry.1

/-- The package with the types of its declarations as they are spelled. -/
def spelled (base : PackageTypes) (numbered : List (SourceFile × Nat)) : PackageTypes :=
  (spellings base numbered).foldl update base

/-- Every change fills in the type of a note. -/
private theorem exists_note {base : PackageTypes} {numbered : List (SourceFile × Nat)}
    {change : Text × (Declaration → Declaration)} (h : change ∈ spellings base numbered) :
    ∃ (note : TypeNote) (t : TypeRef), change = (note.name, note.fill t) := by
  obtain ⟨entry, -, listed⟩ := List.mem_flatMap.1 h
  rw [typeUpdates_eq_map] at listed
  obtain ⟨note, -, rfl⟩ := List.mem_map.1 listed
  exact ⟨note, _, rfl⟩

/-- Spelled types are all that the package has more. -/
theorem spelled_erase (base : PackageTypes) (numbered : List (SourceFile × Nat)) (name : Text) :
    ((spelled base numbered).declaration? name).map Declaration.erase =
      (base.declaration? name).map Declaration.erase := by
  unfold spelled
  refine foldl_keeps (K := fun q : PackageTypes => (q.declaration? name).map Declaration.erase =
    (base.declaration? name).map Declaration.erase) (fun q change listed kept => ?_) rfl
  obtain ⟨note, t, rfl⟩ := exists_note listed
  have filled (d : Declaration) : (note.fill t d).erase = d.erase := by
    unfold TypeNote.fill
    split <;> rfl
  rw [update_declaration?, ← kept]
  split
  · simp only [Option.map_map, Function.comp_def, filled]
  · rfl

theorem importPath_spelled (base : PackageTypes) (numbered : List (SourceFile × Nat)) :
    (spelled base numbered).importPath = base.importPath := by
  obtain ⟨_, eq⟩ := foldl_update_eq base (spellings base numbered)
  rw [spelled, eq]

private theorem spelled_concat (base : PackageTypes) (numbered : List (SourceFile × Nat))
    (file : SourceFile) (index : Nat) :
    spelled base (numbered ++ [(file, index)]) =
      (typeUpdates base index file).foldl update (spelled base numbered) := by
  simp [spelled, spellings]

/-- The package knows no types yet, and each of its names will get one at most. -/
structure Ready (base : PackageTypes) (numbered : List (SourceFile × Nat)) : Prop where
  plain : ∀ name d, base.declaration? name = some d → d.type = none ∧ d.aliasOf = none
  once : ∀ name, base.declaration? name ≠ none →
    ((spellings base numbered).filter (·.1 = name)).length ≤ 1

private theorem map_fst_spellings (base : PackageTypes) (numbered : List (SourceFile × Nat)) :
    (spellings base numbered).map Prod.fst =
      (numbered.flatMap fun entry => typeNotes entry.1).map TypeNote.name := by
  unfold spellings
  rw [List.map_flatMap, List.map_flatMap]
  congr 1
  funext entry
  rw [typeUpdates_eq_map, List.map_map]
  rfl

/-- A package whose declarations were just collected is ready. -/
theorem ready_of_declareFiles {base : PackageTypes} {numbered : List (SourceFile × Nat)}
    (declared : numbered.foldlM declareFile .empty = .ok base.declarations) :
    Ready base numbered := by
  refine ⟨declareFiles_plain declared, fun name found => ?_⟩
  have once := count_notes_le declared found
  rw [← map_fst_spellings base, List.count, List.countP_map, List.countP_eq_length_filter] at once
  simpa [Function.comp_def, beq_eq_decide] using once

namespace Ready

variable {base : PackageTypes} {numbered : List (SourceFile × Nat)}

private theorem aliasTarget?_eq_none (ready : Ready base numbered) (t : TypeRef) :
    base.aliasTarget? t = none := by
  cases found : base.aliasTarget? t with
  | none => rfl
  | some u =>
    obtain ⟨name, d, -, declared, stands⟩ := PackageTypes.aliasTarget?_eq_some_iff.1 found
    rw [(ready.plain name d declared).2] at stands
    cases stands

/-- An alias that the first files spell is not spelled again. -/
theorem aliasTarget?_spelled {first rest : List (SourceFile × Nat)}
    (ready : Ready base (first ++ rest)) {t u : TypeRef}
    (found : (spelled base first).aliasTarget? t = some u) :
    (spelled base (first ++ rest)).aliasTarget? t = some u := by
  have path : (spelled base first).importPath = (spelled base (first ++ rest)).importPath := by
    rw [importPath_spelled, importPath_spelled]
  obtain ⟨name, d, rfl, declared, stands⟩ := PackageTypes.aliasTarget?_eq_some_iff.1 found
  refine PackageTypes.aliasTarget?_eq_some_iff.2 ⟨name, d, by rw [path], ?_, stands⟩
  unfold spelled at declared ⊢
  rw [foldl_update_declaration?] at declared ⊢
  obtain ⟨e, known, filled⟩ := Option.map_eq_some_iff.1 declared
  have once := ready.once name (by simp [known])
  have parts : spellings base (first ++ rest) = spellings base first ++ spellings base rest :=
    List.flatMap_append
  rw [parts, List.filter_append] at once ⊢
  -- The name was given its type by the first files, so nothing of the rest is about it.
  have early : (spellings base first).filter (·.1 = name) ≠ [] := by
    intro nothing
    rw [nothing, List.foldl_nil] at filled
    rw [← filled, (ready.plain name e known).2] at stands
    cases stands
  have late : (spellings base rest).filter (·.1 = name) = [] := by
    have := List.length_pos_of_ne_nil early
    rw [List.length_append] at once
    exact List.length_eq_zero_iff.1 (by omega)
  rw [late, List.append_nil, known]
  exact congrArg some filled

end Ready

/-! ## Files in another order -/

/-- Two packages differ in the numbers of their files only, as far as type expressions tell. -/
structure Alike (ρ : Nat → Nat) (numbered' : List (SourceFile × Nat)) (base base' : PackageTypes) :
    Prop where
  importPath : base'.importPath = base.importPath
  imports : ∀ entry ∈ numbered', (base'.file? entry.2).map FileTypes.imports =
    (base.file? (ρ entry.2)).map FileTypes.imports
  declarations : ∀ name,
    (base'.declaration? name).map (Declaration.renumber ρ) = base.declaration? name

namespace Alike

variable {ρ : Nat → Nat} {numbered numbered' : List (SourceFile × Nat)}
  {base base' : PackageTypes}

theorem plain (alike : Alike ρ numbered' base base') (ready : Ready base numbered) :
    ∀ name d, base'.declaration? name = some d → d.type = none ∧ d.aliasOf = none := by
  intro name d found
  have known := alike.declarations name
  rw [found] at known
  exact ready.plain name (d.renumber ρ) known.symm

theorem kinds (alike : Alike ρ numbered' base base') (name : Text) :
    (base'.declaration? name).map Declaration.kind =
      (base.declaration? name).map Declaration.kind := by
  rw [← alike.declarations name, Option.map_map]
  rfl

/-- Files in another order spell the same. -/
private theorem spellings_perm (alike : Alike ρ numbered' base base') (ready : Ready base numbered)
    (order : Renumbers ρ numbered numbered') :
    (spellings base' numbered').Perm (spellings base numbered) := by
  have plain' : ∀ t, base'.aliasTarget? t = none := by
    intro t
    cases found : base'.aliasTarget? t with
    | none => rfl
    | some u =>
      obtain ⟨name, d, -, declared, stands⟩ := PackageTypes.aliasTarget?_eq_some_iff.1 found
      rw [(alike.plain ready name d declared).2] at stands
      cases stands
  have same : spellings base' numbered' =
      (numbered'.map fun entry => (entry.1, ρ entry.2)).flatMap fun entry =>
        typeUpdates base entry.2 entry.1 := by
    unfold spellings
    rw [List.flatMap_map]
    refine List.flatMap_congr fun entry he => ?_
    rw [typeUpdates_eq_map, typeUpdates_eq_map]
    refine List.map_congr_left fun note _ => ?_
    -- No alias is known to either package, so the type expressions come to the same.
    have resolved := PackageTypes.resolveWith_rel (R := Eq) (fun _ => rfl)
      (fun _ _ h => congrArg _ h)
      (fun t u h => by
        rw [PackageTypes.followAliases_plain ready.aliasTarget?_eq_none,
          PackageTypes.followAliases_plain plain', h])
      alike.importPath (alike.imports entry he) alike.kinds entry.1.source
      note.node.preorder.length false note.node
    rw [PackageTypes.resolveSpelled, PackageTypes.resolveSpelled, resolved]
  rw [same]
  exact order.flatMap_right _

theorem ready (alike : Alike ρ numbered' base base') (ready : Ready base numbered)
    (order : Renumbers ρ numbered numbered') : Ready base' numbered' := by
  refine ⟨alike.plain ready, fun name found => ?_⟩
  have known : base.declaration? name ≠ none := by
    rw [← alike.declarations name]
    simpa using found
  rw [((alike.spellings_perm ready order).filter _).length_eq]
  exact ready.once name known

end Alike

/-- A list with at most one element has one order. -/
private theorem eq_of_perm_of_length_le_one {α : Type} {l m : List α} (h : l.Perm m)
    (short : m.length ≤ 1) : l = m := by
  match m, short with
  | [], _ => exact List.perm_nil.1 h
  | [a], _ => exact List.perm_singleton.1 h

/-- The changes of declarations do not look at the number of the file. -/
private theorem foldl_renumber {base : PackageTypes} {numbered : List (SourceFile × Nat)}
    (ρ : Nat → Nat) {changes : List (Text × (Declaration → Declaration))}
    (h : ∀ change ∈ changes, change ∈ spellings base numbered) (d : Declaration) :
    (changes.foldl (fun d change => change.2 d) d).renumber ρ =
      changes.foldl (fun d change => change.2 d) (d.renumber ρ) := by
  induction changes generalizing d with
  | nil => rfl
  | cons change changes ih =>
    obtain ⟨listed, others⟩ := List.forall_mem_cons.1 h
    have kept : (change.2 d).renumber ρ = change.2 (d.renumber ρ) := by
      obtain ⟨note, t, rfl⟩ := exists_note listed
      dsimp only [TypeNote.fill]
      split <;> rfl
    rw [List.foldl_cons, List.foldl_cons, ih others, kept]

section

variable {ρ : Nat → Nat} {numbered numbered' : List (SourceFile × Nat)}
  {base base' : PackageTypes}

/-- Files in another order give their declarations the same spelled types. -/
theorem spelled_renumber (alike : Alike ρ numbered' base base') (ready : Ready base numbered)
    (order : Renumbers ρ numbered numbered') (name : Text) :
    ((spelled base' numbered').declaration? name).map (Declaration.renumber ρ) =
      (spelled base numbered).declaration? name := by
  unfold spelled
  rw [foldl_update_declaration?, foldl_update_declaration?, Option.map_map,
    ← alike.declarations name, Option.map_map]
  cases found : base'.declaration? name with
  | none => rw [Option.map_none, Option.map_none]
  | some d =>
    -- A name is spelled once, so the order of the files has nothing to decide.
    have once := ready.once name (by rw [← alike.declarations name, found]; simp)
    have same := eq_of_perm_of_length_le_one
      ((alike.spellings_perm ready order).filter (·.1 = name)) once
    simp only [Option.map_some, Function.comp_apply]
    rw [same]
    exact congrArg some (foldl_renumber ρ (fun _ h => (List.mem_filter.1 h).1) d)

/-- Files in another order spell the same aliases. -/
theorem aliasTarget?_spelled_renumber (alike : Alike ρ numbered' base base')
    (ready : Ready base numbered) (order : Renumbers ρ numbered numbered') (t : TypeRef) :
    (spelled base' numbered').aliasTarget? t = (spelled base numbered).aliasTarget? t := by
  have path : (spelled base' numbered').importPath = (spelled base numbered).importPath := by
    rw [importPath_spelled, importPath_spelled, alike.importPath]
  cases t with
  | builtin _ | pointer _ | other _ => simp only [PackageTypes.aliasTarget?]
  | named own name =>
    simp only [PackageTypes.aliasTarget?, path, ← spelled_renumber alike ready order name,
      Option.bind_map]
    rfl

end

/-! ## Types that are filled in -/

/-- The second declaration has the types of the first, each followed some way along the aliases of
a package. -/
structure Along (q : PackageTypes) (d e : Declaration) : Prop where
  erase : e.erase = d.erase
  type : Option.Rel q.Leads d.type e.type
  aliasOf : Option.Rel q.Leads d.aliasOf e.aliasOf

/-- Every declaration of the second package lies along that of the first. -/
def AllAlong (q k m : PackageTypes) : Prop :=
  ∀ name, Option.Rel (Along q) (k.declaration? name) (m.declaration? name)

variable {q k m base : PackageTypes}

private theorem along_refl (d : Declaration) : Along q d d := by
  have refl (t : Option TypeRef) : Option.Rel q.Leads t t := by
    cases t with
    | none => exact .none
    | some t => exact .some .refl
  exact ⟨rfl, refl _, refl _⟩

theorem Along.fill {d e : Declaration} (h : Along q d e) (note : TypeNote) {t u : TypeRef}
    (leads : q.Leads t u) : Along q (note.fill t d) (note.fill u e) := by
  unfold TypeNote.fill
  split
  · exact ⟨h.erase, h.type, .some leads⟩
  · exact ⟨h.erase, .some leads, h.aliasOf⟩

/-- One type is filled in on both sides. -/
theorem AllAlong.update (h : AllAlong q k m) (note : TypeNote) {t u : TypeRef}
    (leads : q.Leads t u) :
    AllAlong q (Check.update k (note.name, note.fill t))
      (Check.update m (note.name, note.fill u)) := by
  intro name
  rw [update_declaration?, update_declaration?]
  have here := h name
  split
  · revert here
    generalize k.declaration? name = d
    generalize m.declaration? name = e
    rintro (along | _)
    · exact .some (along.fill note leads)
    · exact .none
  · exact here

theorem AllAlong.erase (h : AllAlong q k m) (name : Text) :
    (m.declaration? name).map Declaration.erase = (k.declaration? name).map Declaration.erase := by
  have here := h name
  revert here
  generalize k.declaration? name = d
  generalize m.declaration? name = e
  rintro (along | _)
  · exact congrArg some along.erase
  · rfl

/-- The kind of a declaration is not one of its types. -/
theorem kinds_of_erase {d e : Option Declaration}
    (h : e.map Declaration.erase = d.map Declaration.erase) :
    e.map Declaration.kind = d.map Declaration.kind := by
  have kinds := congrArg (Option.map Declaration.kind) h
  rwa [Option.map_map, Option.map_map] at kinds

/-- An alias that lies along an alias is the same alias, followed some way. -/
theorem AllAlong.aliasTarget? (h : AllAlong q k m) (path : m.importPath = k.importPath)
    (t : TypeRef) : Option.Rel q.Leads (k.aliasTarget? t) (m.aliasTarget? t) := by
  cases t with
  | builtin _ | pointer _ | other _ => exact .none
  | named own name =>
    simp only [PackageTypes.aliasTarget?, path]
    split
    · have here := h name
      revert here
      generalize k.declaration? name = d
      generalize m.declaration? name = e
      rintro (along | _)
      · exact along.aliasOf
      · exact .none
    · exact .none

private theorem exists_of_rel {α : Type} {r : α → α → Prop} {a : Option α} {c : α}
    (h : Option.Rel r a (some c)) : ∃ b, a = some b ∧ r b c := by
  cases h with
  | some h => exact ⟨_, rfl, h⟩

/-- The types of a file are filled in on both sides. -/
theorem AllAlong.fill (h : AllAlong q k m) (notes : List TypeNote) {f g : TypeNote → TypeRef}
    (leads : ∀ note, q.Leads (f note) (g note)) :
    AllAlong q ((notes.map fun note => (note.name, note.fill (f note))).foldl Check.update k)
      ((notes.map fun note => (note.name, note.fill (g note))).foldl Check.update m) := by
  rw [List.foldl_map, List.foldl_map]
  exact List.foldl_rel h fun note _ _ _ along => along.update note (leads note)

/-- The types that are filled in lie on the way from the spelled ones. -/
theorem typed_along {numbered : List (SourceFile × Nat)} (ready : Ready base numbered) :
    AllAlong (spelled base numbered) (spelled base numbered)
      (numbered.foldl resolveDeclared base) := by
  -- File by file, against the aliases that all files spell.
  suffices early : ∀ first rest, first ++ rest = numbered →
      AllAlong (spelled base numbered) (spelled base first)
        (first.foldl resolveDeclared base) from
    early numbered [] (List.append_nil numbered)
  intro first
  induction first using List.reverseRecOn with
  | nil =>
    intro rest _ name
    show Option.Rel _ (base.declaration? name) (base.declaration? name)
    cases base.declaration? name with
    | none => exact .none
    | some d => exact .some (along_refl d)
  | append_singleton first entry ih =>
    intro rest eq
    obtain ⟨file, index⟩ := entry
    rw [List.append_assoc, List.singleton_append] at eq
    have along := ih _ eq
    obtain ⟨declarations, inTyped⟩ := typed_eq base first
    rw [List.foldl_append, List.foldl_cons, List.foldl_nil, spelled_concat]
    generalize first.foldl resolveDeclared base = m at along inTyped ⊢
    -- An alias that is known by now was spelled by an earlier file.
    have known (t u : TypeRef) (found : m.aliasTarget? t = some u) :
        (spelled base numbered).Leads t u := by
      have path : m.importPath = (spelled base first).importPath := by
        rw [inTyped, importPath_spelled]
      obtain ⟨v, early, on⟩ := exists_of_rel (found ▸ along.aliasTarget? path t)
      subst eq
      exact .head (.here (ready.aliasTarget?_spelled early)) on
    have kinds (name : Text) : (m.declaration? name).map Declaration.kind =
        (base.declaration? name).map Declaration.kind :=
      kinds_of_erase ((along.erase name).trans (spelled_erase base first name))
    rw [resolveDeclared_eq, typeUpdates_eq_map, typeUpdates_eq_map]
    refine along.fill _ fun note => ?_
    refine PackageTypes.resolveWith_rel (R := (spelled base numbered).Leads) (fun _ => .refl)
      (fun _ _ => PackageTypes.Leads.pointer) (fun t u leads => ?_) (by rw [inTyped])
      (by rw [inTyped]; rfl) kinds _ _ _ _
    rw [PackageTypes.followAliases_plain ready.aliasTarget?_eq_none]
    exact ReflTransGen.trans leads (PackageTypes.followAliases_leads known u)

/-- The aliases of a package are the spelled ones, followed some way. -/
theorem shortens_typed {numbered : List (SourceFile × Nat)} (ready : Ready base numbered) :
    PackageTypes.Shortens (spelled base numbered) (numbered.foldl resolveDeclared base) := by
  obtain ⟨declarations, inTyped⟩ := typed_eq base numbered
  have path : (numbered.foldl resolveDeclared base).importPath =
      (spelled base numbered).importPath := by
    rw [inTyped, importPath_spelled]
  have targets := (typed_along ready).aliasTarget? path
  refine ⟨path, fun t u found => exists_of_rel (found ▸ targets t), fun t found => ?_⟩
  have target := targets t
  rw [found] at target
  generalize (spelled base numbered).aliasTarget? t = spelling at target ⊢
  cases target
  rfl

end Check

end Interlace
