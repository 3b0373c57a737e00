import Interlace.Proofs.PackageParts
import Interlace.Proofs.ScopeAgreement

/-!
# The order of the files of a package

A package that can be checked can be checked with its files in any order, with the same declared
names and the same meaning of every identifier, up to the types of variables. Types are resolved
while the aliases of later files are unknown, so what is on record of them depends on the order.
After following aliases it does not, if the aliases are tame; then the types that are on record for
variables of the package are all that can differ.

## Key results

- `Check.Reordered`: two checked packages are the same up to the numbers of the files
- `Check.Orders.reordered`: what two orders of the files come to, under a view of types
- `Check.package_reorder`: checking in another order
- `Check.package_reorder_fails`: the type on record for a variable depends on the order
-/

namespace Interlace

open Syntax Importing

/-! ## Views of a checked package -/

/-- The declaration under another number of its file and a view of types. -/
def Declaration.view (ρ : Nat → Nat) (g : TypeRef → TypeRef) (d : Declaration) : Declaration :=
  ⟨d.kind, ρ d.file, d.start, d.type.map g, d.aliasOf.map g⟩

/-- Nothing of the type is kept. -/
def TypeRef.forget (_ : TypeRef) : TypeRef :=
  .other []

/-- The package with the types of its declarations forgotten. -/
def PackageTypes.bare (p : PackageTypes) : PackageTypes :=
  { p with declarations := p.declarations.map Declaration.erase }

namespace Check

/-- Every file has the same imports, the same local names and, up to a view of types, the same
objects for its identifiers, but another number. -/
def SameFiles (ρ : Nat → Nat) (g : TypeRef → TypeRef) (p p' : PackageTypes) : Prop :=
  ∀ j f', p'.file? j = some f' → ∃ f, p.file? (ρ j) = some f ∧ f'.imports = f.imports ∧
    f'.locals = f.locals ∧
    ∀ node, (f'.objectAt? node).map (Object.view g) = (f.objectAt? node).map (Object.view g)

/-- Two packages are the same up to the numbers of the files and a view of types. -/
structure Reordered (ρ : Nat → Nat) (g : TypeRef → TypeRef) (p p' : PackageTypes) : Prop where
  importPath : p'.importPath = p.importPath
  packageName : p'.packageName = p.packageName
  version : p'.version = p.version
  declarations : ∀ name, (p'.declaration? name).map (Declaration.view ρ g) =
    (p.declaration? name).map (Declaration.view id g)
  files : SameFiles ρ g p p'

theorem AllAlong.view {q k m : PackageTypes} (h : AllAlong q k m) (ρ : Nat → Nat)
    {g : TypeRef → TypeRef} (hg : ∀ t u, q.Leads t u → g t = g u) (name : Text) :
    (m.declaration? name).map (Declaration.view ρ g) =
      (k.declaration? name).map (Declaration.view ρ g) := by
  -- Types that lie along each other look the same after following.
  have types {t u : Option TypeRef} (rel : Option.Rel q.Leads t u) : u.map g = t.map g := by
    cases rel with
    | none => rfl
    | some leads => exact congrArg some (hg _ _ leads).symm
  have here := h name
  revert here
  generalize k.declaration? name = d
  generalize m.declaration? name = e
  rintro (along | _)
  · rename_i d e
    obtain ⟨erase, type, aliasOf⟩ := along
    simp only [Declaration.erase, Declaration.mk.injEq] at erase
    simp only [Declaration.view, Option.map_some, erase, types type, types aliasOf]
  · rfl

section

variable {importer : Importer} {before : ImportState} {importPath : Text}
  {version : Option Version} {files files' : List SourceFile} {base base' : PackageTypes}
  {ρ : Nat → Nat}

/-- Two orders of the files of a package, both of which can be checked. -/
structure Orders (importer : Importer) (before : ImportState) (importPath : Text)
    (version : Option Version) (files files' : List SourceFile) (ρ : Nat → Nat)
    (base base' : PackageTypes) : Prop where
  built : Built importer before importPath version files base
  built' : Built importer before importPath version files' base'
  order : Renumbers ρ files.zipIdx files'.zipIdx
  alike : Alike ρ files'.zipIdx base base'
  packageName : base'.packageName = base.packageName

namespace Orders

variable (o : Orders importer before importPath version files files' ρ base base')
include o

theorem aliasTarget?_spelled (t : TypeRef) :
    (spelled base' files'.zipIdx).aliasTarget? t = (spelled base files.zipIdx).aliasTarget? t :=
  aliasTarget?_spelled_renumber o.alike o.built.ready o.order t

/-- The declarations are the same under every view that does not tell types apart of which one
leads to the other. -/
theorem declarations {g : TypeRef → TypeRef}
    (hg : ∀ t u, (spelled base files.zipIdx).Leads t u → g t = g u) (name : Text) :
    ((typed files' base').declaration? name).map (Declaration.view ρ g) =
      ((typed files base).declaration? name).map (Declaration.view id g) := by
  have steps := PackageTypes.step_congr o.aliasTarget?_spelled
  have hg' : ∀ t u, (spelled base' files'.zipIdx).Leads t u → g t = g u := by
    intro t u leads
    rw [PackageTypes.Leads, steps] at leads
    exact hg t u leads
  have first := (typed_along o.built.ready).view id hg name
  have second := (typed_along o.built'.ready).view ρ hg' name
  -- In between, files in another order spell the same.
  have between := congrArg (Option.map (Declaration.view id g))
    (spelled_renumber o.alike o.built.ready o.order name)
  rw [Option.map_map] at between
  exact second.trans (between.trans first.symm)

theorem imports {j : Nat} {file : SourceFile} (hj : files'[j]? = some file) :
    ((typed files' base').file? j).map FileTypes.imports =
      ((typed files base).file? (ρ j)).map FileTypes.imports := by
  rw [file?_typed, file?_typed]
  exact o.alike.imports (file, j) (List.mk_mem_zipIdx_iff_getElem?.2 hj)

theorem frame :
    (typed files' base').importPath = (typed files base).importPath ∧
      (typed files' base').packageName = (typed files base).packageName ∧
      (typed files' base').version = (typed files base).version := by
  obtain ⟨_, eq⟩ := typed_eq base files.zipIdx
  obtain ⟨_, eq'⟩ := typed_eq base' files'.zipIdx
  rw [typed, typed, eq, eq']
  exact ⟨o.alike.importPath, o.packageName, o.built'.version.trans o.built.version.symm⟩

theorem kinds (name : Text) :
    ((typed files' base').declaration? name).map Declaration.kind =
      ((typed files base).declaration? name).map Declaration.kind := by
  have same := congrArg (Option.map Declaration.kind)
    (o.declarations (g := TypeRef.forget) (fun _ _ _ => rfl) name)
  rwa [Option.map_map, Option.map_map] at same

/-- The walks through a file agree if the declared types and the type expressions do. -/
theorem agrees {g : TypeRef → TypeRef}
    (types : ∀ name, ((typed files' base').declaration? name).map (·.type.map g) =
      ((typed files base).declaration? name).map (·.type.map g))
    {j : Nat} {file : SourceFile} (hj : files'[j]? = some file)
    (resolved : ∀ node, g ((typed files base).resolveType (ρ j) file.source node) =
      g ((typed files' base').resolveType j file.source node))
    (pointer : ∀ t u, g t = g u → g (.pointer t) = g (.pointer u)) :
    ScopeWalk.Agrees g ⟨typed files base, ρ j, file⟩ ⟨typed files' base', j, file⟩ := by
  refine ⟨rfl, o.frame.1, o.frame.2.2, ?_, fun name => ?_, resolved, pointer⟩
  · simp only [ScopeWalk.imports, o.imports hj]
  · have kind := o.kinds name
    have type := types name
    revert kind type
    cases (typed files base).declaration? name <;> cases (typed files' base').declaration? name <;>
      simp
    exact fun kind type => ⟨kind.symm, type.symm⟩

/-- Walks that agree record the same. -/
private theorem sameFiles {g : TypeRef → TypeRef}
    (agrees : ∀ j file, files'[j]? = some file →
      ScopeWalk.Agrees g ⟨typed files base, ρ j, file⟩ ⟨typed files' base', j, file⟩) :
    SameFiles ρ g (resolveUses (typed files base) files)
      (resolveUses (typed files' base') files') := by
  intro j f' found
  simp only [PackageTypes.file?, resolveUses, List.getElem?_map, List.getElem?_zipIdx,
    Nat.zero_add] at found ⊢
  cases hj : files'[j]? with
  | none => simp [hj] at found
  | some file =>
    rw [o.order.getElem? hj]
    simp only [hj, Option.map_some, Option.some.injEq] at found
    subst found
    have walked := ScopeState.view_ext_iff.1 (ScopeWalk.run_same (agrees j file hj))
    refine ⟨_, rfl, ?_, walked.2.2.symm, fun node => ?_⟩
    · exact congrArg (Option.getD · []) (o.imports hj)
    · -- An object is found by the offset of the identifier, which no view changes.
      have viewed (uses : List (Nat × Object)) :
          ((uses.find? (·.1 = node.start)).map Prod.snd).map (Object.view g) =
            ((uses.map (Prod.map id (Object.view g))).find? (·.1 = node.start)).map Prod.snd := by
        rw [List.find?_map, Option.map_map, Option.map_map]
        rfl
      simp only [FileTypes.objectAt?, viewed, walked.2.1]

/-- The ends that types come to along tame aliases do not depend on the order. -/
theorem followAliases (tame : (spelled base files.zipIdx).Tame) (t : TypeRef) :
    (typed files' base').followAliases t = (typed files base).followAliases t := by
  have steps := PackageTypes.step_congr o.aliasTarget?_spelled
  have tame' : (spelled base' files'.zipIdx).Tame := by
    refine tame.congr ?_ o.aliasTarget?_spelled
    rw [importPath_spelled, importPath_spelled, o.alike.importPath]
  have first := (shortens_typed o.built.ready).followAliases_settles tame t
  have second := (shortens_typed o.built'.ready).followAliases_settles tame' t
  rw [PackageTypes.Settles, PackageTypes.Leads, PackageTypes.Final, steps] at second
  exact PackageTypes.Settles.unique second first

/-- Type expressions come to the same along tame aliases. -/
theorem resolveType (tame : (spelled base files.zipIdx).Tame) {j : Nat} {file : SourceFile}
    (hj : files'[j]? = some file) (node : Tree) :
    (typed files base).resolveType (ρ j) file.source node =
      (typed files' base').resolveType j file.source node := by
  refine PackageTypes.resolveWith_rel (R := Eq) (fun _ => rfl) (fun _ _ h => congrArg _ h)
    (fun t u h => ?_) o.frame.1 (o.imports hj) o.kinds _ _ _ _
  rw [h, o.followAliases tame]

/-- The checked packages are the same up to the numbers of the files and a view of types that keeps
to the aliases. -/
theorem reordered {g : TypeRef → TypeRef}
    (hg : ∀ t u, (spelled base files.zipIdx).Leads t u → g t = g u)
    (resolved : ∀ j file, files'[j]? = some file → ∀ node,
      g ((typed files base).resolveType (ρ j) file.source node) =
        g ((typed files' base').resolveType j file.source node))
    (pointer : ∀ t u, g t = g u → g (.pointer t) = g (.pointer u)) :
    Reordered ρ g (resolveUses (typed files base) files)
      (resolveUses (typed files' base') files') := by
  have types (name : Text) : ((typed files' base').declaration? name).map (·.type.map g) =
      ((typed files base).declaration? name).map (·.type.map g) := by
    have same := congrArg (Option.map Declaration.type) (o.declarations hg name)
    rwa [Option.map_map, Option.map_map] at same
  exact ⟨o.frame.1, o.frame.2.1, o.frame.2.2, o.declarations hg,
    o.sameFiles fun j file hj => o.agrees types hj (resolved j file hj) pointer⟩

end Orders

/-! ## Recording uses -/

private theorem followAliases_resolveUses (p : PackageTypes) (files : List SourceFile)
    (t : TypeRef) : (resolveUses p files).followAliases t = p.followAliases t :=
  PackageTypes.followAliases_congr (p := p) (q := resolveUses p files) rfl rfl t

namespace Built

variable (built : Built importer before importPath version files base)
include built

/-- Recording the uses of identifiers keeps the imports of the files. -/
theorem imports_resolveUses {index : Nat} {file : SourceFile} (h : files[index]? = some file) :
    ((resolveUses (typed files base) files).file? index).map FileTypes.imports =
      ((typed files base).file? index).map FileTypes.imports := by
  obtain ⟨imports, -, known⟩ := built.file?_eq h
  rw [← file?_typed files] at known
  rw [known]
  rw [PackageTypes.file?] at known
  simp [PackageTypes.file?, resolveUses, h, known]

/-- Forgetting the types of a checked package gives back the package before they were filled in, as
far as type expressions tell. -/
private theorem alike_bare :
    Alike id files.zipIdx base (resolveUses (typed files base) files).bare := by
  obtain ⟨_, eq⟩ := typed_eq base files.zipIdx
  refine ⟨?_, fun entry he => ?_, fun name => ?_⟩
  · show (typed files base).importPath = base.importPath
    rw [typed, eq]
  · have hi := List.mk_mem_zipIdx_iff_getElem?.1 he
    exact (built.imports_resolveUses hi).trans (by rw [file?_typed]; rfl)
  · -- Nothing is lost, because no types were known.
    have plain : (base.declaration? name).map Declaration.erase = base.declaration? name := by
      cases found : base.declaration? name with
      | none => rfl
      | some d =>
        obtain ⟨type, aliasOf⟩ := built.ready.plain name d found
        obtain ⟨kind, file, start, _, _⟩ := d
        cases type
        cases aliasOf
        rfl
    have erased : (resolveUses (typed files base) files).bare.declaration? name =
        ((typed files base).declaration? name).map Declaration.erase :=
      Dict.get?_map _ _ _
    rw [erased, typed_erase built.ready, plain]
    exact Option.map_id'

/-- Forgetting the types loses nothing of what the files spell. -/
theorem importPath_spelled_bare :
    (spelled base files.zipIdx).importPath =
      (spelled (resolveUses (typed files base) files).bare files.zipIdx).importPath := by
  rw [importPath_spelled, importPath_spelled, built.alike_bare.importPath]

theorem aliasTarget?_spelled_bare (t : TypeRef) :
    (spelled base files.zipIdx).aliasTarget? t =
      (spelled (resolveUses (typed files base) files).bare files.zipIdx).aliasTarget? t :=
  (aliasTarget?_spelled_renumber built.alike_bare built.ready (by simp [Renumbers]) t).symm

private theorem tame_of_bare
    (tame : (spelled (resolveUses (typed files base) files).bare files.zipIdx).Tame) :
    (spelled base files.zipIdx).Tame :=
  tame.congr built.importPath_spelled_bare built.aliasTarget?_spelled_bare

/-- Recording the uses of identifiers changes no type expression. -/
private theorem resolveType_resolveUses {index : Nat} {file : SourceFile}
    (h : files[index]? = some file) (node : Tree) :
    (resolveUses (typed files base) files).resolveType index file.source node =
      (typed files base).resolveType index file.source node := by
  refine (PackageTypes.resolveWith_rel (p := typed files base) (R := Eq) (fun _ => rfl)
    (fun _ _ h => congrArg _ h) (fun t u h => ?_) ?_ (built.imports_resolveUses h)
    (fun _ => rfl) _ _ _ _).symm
  · rw [h, followAliases_resolveUses]
  · rfl

end Built

end

/-! ## Checking in another order -/

section

variable {importer : Importer} {before after : ImportState} {importPath : Text}
  {version : Option Version} {files files' : List SourceFile} {base base' : PackageTypes}
  {ρ : Nat → Nat}

private theorem Built.orders (built : Built importer before importPath version files base)
    (order : Renumbers ρ files.zipIdx files'.zipIdx) :
    ∃ base', Orders importer before importPath version files files' ρ base base' := by
  obtain ⟨base', built', alike, name⟩ := built.reorder order
  exact ⟨base', built, built', order, alike, name⟩

/-- Along tame aliases nothing but the types on record for variables depends on the order. -/
private theorem Orders.reordered_of_tame
    (o : Orders importer before importPath version files files' ρ base base')
    (tame : (spelled base files.zipIdx).Tame) {p p' : PackageTypes}
    (hp : p = resolveUses (typed files base) files)
    (hp' : p' = resolveUses (typed files' base') files') :
    Reordered ρ p.followAliases p p' ∧ p'.followAliases = p.followAliases ∧
      (∀ j file, files'[j]? = some file → ∀ node,
        p'.resolveType j file.source node = p.resolveType (ρ j) file.source node) ∧
      ((∀ name, (p'.declaration? name).map Declaration.type =
          (p.declaration? name).map Declaration.type) → SameFiles ρ id p p') := by
  -- Uses are resolved without new aliases, so following goes on as before them.
  have followed : p.followAliases = (typed files base).followAliases := by
    funext t
    rw [hp, followAliases_resolveUses]
  have followed' : p'.followAliases = (typed files base).followAliases := by
    funext t
    rw [hp', followAliases_resolveUses, o.followAliases tame]
  -- Along tame aliases following comes to an end, and two ends of one type are the same.
  have settles := (shortens_typed o.built.ready).followAliases_settles tame
  subst hp hp'
  refine ⟨?_, followed'.trans followed.symm, fun j file hj node => ?_, fun types => ?_⟩
  · rw [followed]
    refine o.reordered (fun t u leads => ?_) (fun j file hj node => ?_) fun t u same => ?_
    · exact PackageTypes.Settles.unique ((settles t).of_leads leads) (settles u)
    · rw [o.resolveType tame hj]
    · have inside (t : TypeRef) : (typed files base).followAliases (.pointer t) =
          .pointer ((typed files base).followAliases t) :=
        PackageTypes.Settles.unique (settles (.pointer t)) (settles t).pointer
      rw [inside, inside, same]
  · rw [o.built'.resolveType_resolveUses hj, o.built.resolveType_resolveUses (o.order.getElem? hj),
      o.resolveType tame hj]
  · refine o.sameFiles fun j file hj => o.agrees (fun name => ?_) hj
      (fun node => o.resolveType tame hj node) fun _ _ => congrArg _
    have type : ((typed files' base').declaration? name).map Declaration.type =
      ((typed files base).declaration? name).map Declaration.type := types name
    simpa using type

/-- A package that can be checked can be checked with its files in any order, and comes out the same
up to the numbers of the files, the types forgotten. If the aliases that the files spell are tame,
it also comes out the same after following them, and every type expression comes to the same type;
and then, where the types on record for the variables of the package are the same as well, every
identifier stands for exactly the same object. -/
theorem package_reorder {p : PackageTypes}
    (checked : (package importPath version files importer).Yields before p after)
    (perm : files'.Perm files) :
    ∃ p' after', (package importPath version files' importer).Yields before p' after' ∧
      (∃ ρ, Renumbers ρ files.zipIdx files'.zipIdx) ∧
      ∀ ρ, Renumbers ρ files.zipIdx files'.zipIdx →
        Reordered ρ TypeRef.forget p p' ∧
        ((spelled p.bare files.zipIdx).Tame →
          Reordered ρ p.followAliases p p' ∧ p'.followAliases = p.followAliases ∧
          (∀ j file, files'[j]? = some file → ∀ node,
            p'.resolveType j file.source node = p.resolveType (ρ j) file.source node) ∧
          ((∀ name, (p'.declaration? name).map Declaration.type =
              (p.declaration? name).map Declaration.type) → SameFiles ρ id p p')) := by
  obtain ⟨base, built, rfl⟩ := exists_yields_package_iff.1 ⟨after, checked⟩
  obtain ⟨ρ₀, order₀⟩ := exists_renumbers perm
  obtain ⟨base', o₀⟩ := built.orders order₀
  obtain ⟨after', checked'⟩ := exists_yields_package_iff.2 ⟨base', o₀.built', rfl⟩
  refine ⟨_, after', checked', ⟨ρ₀, order₀⟩, fun ρ order => ?_⟩
  obtain ⟨other, o⟩ := built.orders order
  -- The package does not depend on the numbers that are looked at.
  have same : resolveUses (typed files' base') files' =
      resolveUses (typed files' other) files' := by
    have value := exists_yields_iff.1 ⟨after', checked'⟩
    rw [exists_yields_iff.1 (exists_yields_package_iff.2 ⟨other, o.built', rfl⟩)] at value
    exact (Except.ok.inj value).symm
  refine ⟨?_, fun tame => o.reordered_of_tame (built.tame_of_bare tame) rfl same⟩
  rw [same]
  exact o.reordered (fun _ _ _ => rfl) (fun _ _ _ _ => rfl) fun _ _ _ => rfl

end

/-! ## Two files -/

/-- A test that succeeds on two parsed files, checked in both orders, gives the files and what is
known of them. -/
private theorem exists_of_orders (first second : Text × Text)
    {test : SourceFile → SourceFile → PackageTypes → PackageTypes → Bool}
    (h : ((SourceFile.parse first.1 first.2).toOption.bind fun a =>
      (SourceFile.parse second.1 second.2).toOption.bind fun b =>
        ((package "p" none [a, b] ⟨noArchives, false⟩).run.run .fresh).1.toOption.bind fun p =>
          ((package "p" none [b, a] ⟨noArchives, false⟩).run.run .fresh).1.toOption.map fun p' =>
            test a b p p') = some true) :
    ∃ a b p p' after after', SourceFile.parse first.1 first.2 = .ok a ∧
      SourceFile.parse second.1 second.2 = .ok b ∧
      (package "p" none [a, b] ⟨noArchives, false⟩).Yields .fresh p after ∧
      (package "p" none [b, a] ⟨noArchives, false⟩).Yields .fresh p' after' ∧
      test a b p p' = true := by
  obtain ⟨a, parsed, h⟩ := Option.bind_eq_some_iff.1 h
  obtain ⟨b, parsed', h⟩ := Option.bind_eq_some_iff.1 h
  obtain ⟨p, checked, h⟩ := Option.bind_eq_some_iff.1 h
  obtain ⟨p', checked', h⟩ := Option.map_eq_some_iff.1 h
  obtain ⟨after, run⟩ := exists_yields_iff.2 (toOption_eq_some_iff.1 checked)
  obtain ⟨after', run'⟩ := exists_yields_iff.2 (toOption_eq_some_iff.1 checked')
  exact ⟨a, b, p, p', after, after', toOption_eq_some_iff.1 parsed, toOption_eq_some_iff.1 parsed',
    run, run', h⟩

/-- A file with a variable whose type is an alias, which stands for a pointer to another. -/
def usingAlias : Text :=
  "package p\ntype Alias = *Req\nvar x Alias\nfunc f(y *Req) \x7b\n\tg(x, y)\n\x7d\n"

/-- A file with a variable whose type is a pointer to an alias. -/
def usingPointer : Text :=
  "package p\nvar x *Req\nfunc f() \x7b\n\tg(x)\n\x7d\n"

/-- A file with an alias of an imported type. -/
def givingAlias : Text :=
  "package p\nimport \"net/http\"\ntype Req = http.Request\n"

/-- With tame aliases, and no pointer around the alias in the type of the variable, the order of two
files does not show. -/
theorem package_reorder_alias :
    ∃ a b p p' after after', SourceFile.parse "a.go" usingAlias = .ok a ∧
      SourceFile.parse "b.go" givingAlias = .ok b ∧
      (package "p" none [a, b] ⟨noArchives, false⟩).Yields .fresh p after ∧
      (package "p" none [b, a] ⟨noArchives, false⟩).Yields .fresh p' after' ∧
      (spelled p.bare [a, b].zipIdx).Tame ∧
      ∃ ρ, Renumbers ρ [a, b].zipIdx [b, a].zipIdx ∧ Reordered ρ p.followAliases p p' ∧
        SameFiles ρ id p p' := by
  -- Both orders are checked, the aliases are tame, and the variables have the same types.
  have passed : ((SourceFile.parse "a.go" usingAlias).toOption.bind fun a =>
      (SourceFile.parse "b.go" givingAlias).toOption.bind fun b =>
        ((package "p" none [a, b] ⟨noArchives, false⟩).run.run .fresh).1.toOption.bind fun p =>
          ((package "p" none [b, a] ⟨noArchives, false⟩).run.run .fresh).1.toOption.map fun p' =>
            (spelled p.bare [a, b].zipIdx).isTameBy List.length &&
              decide (p'.declarations.map Declaration.type = p.declarations.map Declaration.type)) =
      some true := by decide +kernel
  obtain ⟨a, b, p, p', after, after', parsed, parsed', checked, checked', test⟩ :=
    exists_of_orders ("a.go", usingAlias) ("b.go", givingAlias) passed
  simp only [Bool.and_eq_true, decide_eq_true_eq] at test
  have tame := PackageTypes.tame_of_isTameBy test.1
  obtain ⟨other, after'', checked'', ⟨ρ, order⟩, same⟩ :=
    package_reorder checked (List.Perm.swap a b [])
  have eq : other = p' := by
    have value := exists_yields_iff.1 ⟨after'', checked''⟩
    rw [exists_yields_iff.1 ⟨after', checked'⟩] at value
    exact (Except.ok.inj value).symm
  subst eq
  obtain ⟨reordered, -, -, objects⟩ := (same ρ order).2 tame
  refine ⟨a, b, p, other, after, after', parsed, parsed', checked, checked', tame, ρ, order,
    reordered, objects fun name => ?_⟩
  have types := congrArg (Dict.get? · name) test.2
  simp only [Dict.get?_map] at types
  exact types

/-- The type on record for a variable depends on whether the alias in it comes from an earlier file:
the same identifier stands for variables of different types. -/
theorem package_reorder_fails :
    ∃ a b p p' after after' node, SourceFile.parse "a.go" usingPointer = .ok a ∧
      SourceFile.parse "b.go" givingAlias = .ok b ∧
      (package "p" none [a, b] ⟨noArchives, false⟩).Yields .fresh p after ∧
      (package "p" none [b, a] ⟨noArchives, false⟩).Yields .fresh p' after' ∧
      node ∈ a.tree.preorder ∧
      (p.file? 0).bind (·.objectAt? node) = some (.var (some (.pointer (.named "p" "Req")))) ∧
      (p'.file? 1).bind (·.objectAt? node) =
        some (.var (some (.pointer (.named "net/http" "Request")))) := by
  -- The variable comes before the alias in one order and behind it in the other.
  have passed : ((SourceFile.parse "a.go" usingPointer).toOption.bind fun a =>
      (SourceFile.parse "b.go" givingAlias).toOption.bind fun b =>
        ((package "p" none [a, b] ⟨noArchives, false⟩).run.run .fresh).1.toOption.bind fun p =>
          ((package "p" none [b, a] ⟨noArchives, false⟩).run.run .fresh).1.toOption.map fun p' =>
            a.tree.preorder.any fun node =>
              (p.file? 0).bind (·.objectAt? node) =
                  some (.var (some (.pointer (.named "p" "Req")))) &&
                (p'.file? 1).bind (·.objectAt? node) =
                  some (.var (some (.pointer (.named "net/http" "Request"))))) = some true := by
    decide +kernel
  obtain ⟨a, b, p, p', after, after', parsed, parsed', checked, checked', test⟩ :=
    exists_of_orders ("a.go", usingPointer) ("b.go", givingAlias) passed
  obtain ⟨node, listed, test⟩ := List.any_eq_true.1 test
  simp only [Bool.and_eq_true, decide_eq_true_eq] at test
  exact ⟨a, b, p, p', after, after', node, parsed, parsed', checked, checked', listed, test.1,
    test.2⟩

end Check

end Interlace
