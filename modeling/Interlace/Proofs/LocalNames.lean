import Interlace.Proofs.PackageParts
import Interlace.Proofs.WalkedNames

/-!
# Local names of a checked package

In a checked package, a file knows the names that the code of its functions declares, and where such
a name is in scope it stands for no package, unless it is declared by a type parameter or by a
receive clause. Of these the walk takes no notice.

## Key results

- `Site.HasCode.leadsTo`: the walk comes to all code
- `Site.eq_of_start_eq`: two names do not start at one offset
- `Check.package_knows_locals`: the names that functions declare are known, and hide packages
- `Check.package_overlooks_receive`: a name that a receive clause declares does not
-/

namespace Interlace

open Syntax

namespace Syntax

variable {source : Text} {t c : Tree}

/-! ## Code -/

namespace Tree

private theorem codePart_of_part {f : Field} (h : c ∈ (t.child? f).toList.filter isNamed) :
    t.child? f = some c ∧ c ∈ t.namedChildren := by
  obtain ⟨found, named⟩ := List.mem_filter.1 h
  have found := Option.mem_toList.1 found
  exact ⟨found, List.mem_filter.2 ⟨(mem_children_of_child? found).1, named⟩⟩

private theorem clause_of_typeClauses (h : c ∈ t.typeClauses) :
    c ∈ t.namedChildren.filter fun c => c.kind = .typeCase || c.kind = .defaultCase := by
  obtain ⟨child, clause⟩ := List.mem_filter.1 h
  obtain ⟨-, kind⟩ := Bool.and_eq_true_iff.1 clause
  refine List.mem_filter.2 ⟨List.mem_filter.2 ⟨child, ?_⟩, kind⟩
  rcases Bool.or_eq_true_iff.1 kind with kind | kind
  all_goals
    rw [isNamed, of_decide_eq_true kind]
    rfl

/-- The body of a function is code, and so is what the walk goes through in other nodes. -/
private theorem codePart_cases (h : c ∈ t.codeParts) :
    (t.kind.isFunction = true ∧ t.child? .body = some c ∧ c.kind = .block) ∨
      (t.kind.isFunction = false ∧ ∀ inFunction, .visit [] c ∈ t.walkSteps inFunction) := by
  unfold codeParts at h
  split at h
  case h_1 kind | h_2 kind | h_3 kind =>
    obtain ⟨found, block⟩ := List.mem_filter.1 h
    exact .inl ⟨by rw [kind]; rfl, Option.mem_toList.1 found, of_decide_eq_true block⟩
  case h_4 kind | h_5 kind =>
    obtain ⟨found, named⟩ := codePart_of_part h
    refine .inr ⟨by rw [kind]; rfl, fun inFunction => ?_⟩
    simp only [walkSteps, kind]
    cases inFunction with
    | true => exact List.mem_append_left _ (visit_mem_visits.2 ⟨rfl, Option.mem_toList.2 found⟩)
    | false => exact visit_mem_visits.2 ⟨rfl, named⟩
  case h_6 kind =>
    obtain ⟨found, -⟩ := codePart_of_part h
    refine .inr ⟨by rw [kind]; rfl, fun _ => ?_⟩
    simp only [walkSteps, kind]
    exact List.mem_append_left _ (visit_mem_visits.2 ⟨rfl, Option.mem_toList.2 found⟩)
  case h_7 kind =>
    refine .inr ⟨by rw [kind]; rfl, fun _ => ?_⟩
    simp only [walkSteps, kind]
    rcases List.mem_append.1 h with right | left
    · exact List.mem_append_left _
        (visit_mem_visits.2 ⟨rfl, Option.mem_toList.2 (codePart_of_part right).1⟩)
    · refine List.mem_append_right _ ?_
      split at left
      · cases left
      · rename_i assigning
        rw [if_neg assigning]
        exact visit_mem_visits.2 ⟨rfl, Option.mem_toList.2 (codePart_of_part left).1⟩
  case h_8 kind =>
    refine .inr ⟨by rw [kind]; rfl, fun _ => ?_⟩
    simp only [walkSteps, kind, List.mem_append, visit_mem_visits, visit_mem_declares,
      Option.mem_toList, true_and, or_false]
    rcases List.mem_append.1 h with part | clause
    · rcases List.mem_append.1 part with initializer | value
      · exact .inl (.inl (codePart_of_part initializer).1)
      · exact .inl (.inr (codePart_of_part value).1)
    · exact .inr (clause_of_typeClauses clause)
  case h_9 kind =>
    obtain ⟨found, -⟩ := codePart_of_part h
    refine .inr ⟨by rw [kind]; rfl, fun _ => ?_⟩
    simp only [walkSteps, kind]
    exact visit_mem_visits.2 ⟨rfl, Option.mem_toList.2 found⟩
  case h_10 kind =>
    refine .inr ⟨by rw [kind]; rfl, fun _ => ?_⟩
    simp only [walkSteps, kind]
    cases named : t.namedChildren with
    | nil =>
      rw [named] at h
      cases h
    | cons key rest =>
      rw [named] at h
      dsimp only at h ⊢
      split at h
      · rename_i name
        rw [if_pos name]
        exact visit_mem_visits.2 ⟨rfl, h⟩
      · rename_i value
        rw [if_neg value]
        exact visit_mem_visits.2 ⟨rfl, h⟩
  case h_18 =>
    -- What is left are the nodes that the walk goes through part by part.
    refine .inr ⟨?_, fun _ => ?_⟩
    · refine Bool.eq_false_iff.2 fun function => ?_
      rcases Kind.isFunction_iff.1 function with kind | kind | kind
      all_goals contradiction
    · unfold walkSteps
      split
      case h_18 => exact visit_mem_visits.2 ⟨rfl, h⟩
      all_goals contradiction
  all_goals cases h

private theorem mem_children_of_codePart (h : c ∈ t.codeParts) : c ∈ t.children := by
  rcases codePart_cases h with ⟨-, found, -⟩ | ⟨function, visited⟩
  · exact (mem_children_of_child? found).1
  · rcases visit_cases (visited false) with ⟨-, child⟩ | ⟨function', -⟩
    · exact child
    · rw [function] at function'
      cases function'

end Tree

namespace Site

variable {s d u v : Site}

theorem HasCode.holds (h : s.HasCode d) : s.Holds d := by
  induction h with
  | refl => exact .refl _
  | step part _ ih => exact .child (Tree.mem_children_of_codePart part) ih

/-- The walk comes to all code. -/
theorem HasCode.leadsTo (h : s.HasCode d) (other : d.node.kind ≠ .block) : s.LeadsTo d := by
  induction h with
  | refl => exact .refl _
  | @step s d c part _ ih =>
    have leads := ih other
    rcases Tree.codePart_cases part with ⟨function, found, block⟩ | ⟨-, visited⟩
    · -- From a function the walk goes to the statements of the body.
      cases leads with
      | refl => exact absurd block other
      | @step _ _ _ inner visited leads =>
        have statement := visited
        simp only [walkSteps, Tree.walkSteps, block] at statement
        obtain ⟨rfl, listed⟩ := visit_mem_visits.1 statement
        have body : WalkStep.visit [c] inner ∈ (s.node.child? .body).toList.flatMap
            fun body => body.namedChildren.map (.visit [body]) :=
          List.mem_flatMap.2 ⟨c, Option.mem_toList.2 found, List.mem_map_of_mem listed⟩
        have visited' : .visit [c] inner ∈ s.walkSteps := by
          rcases Kind.isFunction_iff.1 function with kind | kind | kind
          all_goals
            simp only [walkSteps, Tree.walkSteps, kind]
            exact List.mem_append_right _ body
        exact .step visited' leads
    · exact .step (visited _) leads

private theorem Binds.kind_ne_block {form : BindingForm} {name : Tree}
    (h : d.Binds source form name) : d.node.kind ≠ .block := by
  intro kind
  obtain ⟨of, -⟩ := h.unfold
  rw [kind] at of
  cases form <;> cases of

/-! ## Names at one offset -/

theorem IsOccurrence.read (h : u.IsOccurrence) : u.IsRead :=
  List.forall_mem_cons.2 ⟨by simp [h.kind], fun a ha => (h.apart a ha).1⟩

/-- What is below the root fits. -/
theorem Holds.fits (h : s.Holds d) (arranged : s.node.Arranged source) (read : d.IsRead)
    (below : d ≠ s) : d.node.Fits source := by
  cases h with
  | refl => exact absurd rfl below
  | child listed h =>
    have plain := read.of_holds h _ List.mem_cons_self
    exact (Fits.holds (arranged.fits listed plain) h read).1

/-- What a name holds and what is not in a comment is the name itself. -/
private theorem Holds.eq_of_name (h : s.Holds d) (fits : s.node.Fits source)
    (name : s.node.kind = .identifier) (read : d.IsRead) : d = s := by
  cases h with
  | refl => rfl
  | child listed h =>
    exact absurd (fits.comments_of_name name _ listed) (read.of_holds h _ List.mem_cons_self)

/-- No other name starts where a name does. -/
theorem IsOccurrence.eq_of_start_eq (h : u.IsOccurrence) (arranged : s.node.Arranged source)
    (whole : s.node.kind ≠ .identifier ∧ s.node.kind ≠ .packageIdentifier)
    (hu : s.Holds u) (hv : s.Holds v) (read : v.IsRead)
    (name : v.node.kind = .identifier ∨ v.node.kind = .packageIdentifier)
    (same : v.node.start = u.node.start) : v = u := by
  have fits := hu.fits arranged h.read (by rintro rfl; exact whole.1 h.kind)
  have fits' := hv.fits arranged read (by rintro rfl; exact name.elim whole.1 whole.2)
  have wide := fits.wide (by rw [h.kind]; rfl)
  have wide' := fits'.wide (by rcases name with kind | kind <;> rw [kind] <;> rfl)
  rcases hu.comparable arranged hv h.read read same.symm wide wide' with holds | holds
  · exact holds.eq_of_name fits h.kind read
  · rcases name with kind | kind
    · exact (holds.eq_of_name fits' kind h.read).symm
    · rcases holds.eq_or_suffix with eq | inside
      · exact eq.symm
      · exact absurd kind (h.apart _ (inside.subset List.mem_cons_self)).2

end Site

end Syntax

/-! ## Names of a file -/

/-- A walk through a file learns the names that its code declares, and takes no name for a package
where such a name is in scope. -/
private theorem ScopeWalk.run_knows {w : ScopeWalk} (arranged : w.file.tree.Arranged w.file.source)
    {d : Site} {form : BindingForm} {name : Tree} (code : Site.HasCode ⟨w.file.tree, []⟩ d)
    (binds : d.Binds w.file.source form name) :
    w.run.locals.contains (w.file.text name) = true ∧
      ∀ u ∈ w.file.tree.sites, u.IsOccurrence → d.Covers form name u →
        w.file.text name = w.file.text u.node →
          ∀ path, (u.node.start, .package path) ∉ w.run.uses := by
  have placed : Site.Placed w.file.source ⟨w.file.tree, []⟩ :=
    ⟨arranged, fun above => absurd rfl above, by simp⟩
  have clean : ScopeState.start.Clean := by simp [ScopeState.Clean, ScopeState.start]
  have walked : w.Visited ⟨w.file.tree, []⟩ .start w.run :=
    visited_walk _ _ .start (Nat.le_succ _) (.inr placed) clean (by simp [ScopeState.start])
  have leads : Site.LeadsTo ⟨w.file.tree, []⟩ d := code.leadsTo binds.kind_ne_block
  refine ⟨(walked.names d form name leads binds).1, ?_⟩
  intro u listed occurs covers alike path used
  rcases walked.uses _ _ used with started | ⟨v, leads', same, exposed⟩
  · cases started
  -- The use was noted at a name without a declaration in scope, and that is the occurrence itself.
  have plain := exposed.plain.1
  have whole : w.file.tree.kind ≠ .identifier ∧ w.file.tree.kind ≠ .packageIdentifier := by
    cases leads with
    | refl => exact binds.kind_ne.2
    | step visited _ => exact (Site.kind_of_visit visited).2
  have names : v.node.kind = .identifier ∨ v.node.kind = .packageIdentifier :=
    exposed.symm.imp_left And.left
  obtain rfl := occurs.eq_of_start_eq arranged whole (Site.mem_sites_iff.1 listed) leads'.holds
    (placed.read leads' plain) names same
  rcases exposed with package | ⟨-, -, others⟩
  · rw [occurs.kind] at package
    cases package
  · exact others d form name leads binds covers alike

namespace Check

variable {importPath : Text} {version : Option Version} {files : List SourceFile}
  {importer : Importer} {before after : ImportState} {p : PackageTypes} {index : Nat}
  {file : SourceFile}

/-- What is on record for a file of a checked package is what a walk through the file has found. -/
private theorem exists_walk_of_file
    (checked : (package importPath version files importer).Yields before p after)
    (at_index : files[index]? = some file) :
    ∃ types known, p.file? index = some types ∧
      types.uses = (⟨known, index, file⟩ : ScopeWalk).run.uses ∧
      types.locals = (⟨known, index, file⟩ : ScopeWalk).run.locals := by
  obtain ⟨base, -, rfl⟩ := exists_yields_package_iff.1 ⟨after, checked⟩
  let w : ScopeWalk := ⟨typed files base, index, file⟩
  have found : ((resolveUses (typed files base) files).file? index).map
      (fun types => (types.uses, types.locals)) = some (w.run.uses, w.run.locals) := by
    simp [PackageTypes.file?, resolveUses, at_index, w]
  obtain ⟨types, there, same⟩ := Option.map_eq_some_iff.1 found
  obtain ⟨uses, locals⟩ := Prod.mk.inj same
  exact ⟨types, typed files base, there, uses, locals⟩

/-- In a checked package, every name that the code of a function declares, but by a type parameter
or by a receive clause, is one of the local names of its file, and no name of the same spelling
stands for a package where it is in scope. -/
theorem package_knows_locals
    (checked : (package importPath version files importer).Yields before p after)
    (at_index : files[index]? = some file) {path bytes : Text}
    (parsed : SourceFile.parse path bytes = .ok file) {d : Site} {form : BindingForm} {name : Tree}
    (walked : form.isWalked) (code : Site.HasCode ⟨file.tree, []⟩ d)
    (declared : name ∈ d.binds file.source form) :
    ∃ types, p.file? index = some types ∧ types.locals.contains (file.text name) = true ∧
      ∀ u ∈ file.tree.sites, u.IsOccurrence → d.Covers form name u →
        file.text name = file.text u.node →
          ∀ package, types.objectAt? u.node ≠ some (.package package) := by
  obtain ⟨types, known, found, uses, locals⟩ := exists_walk_of_file checked at_index
  have arranged := arranged_of_parse (SourceFile.tree_of_parse parsed).1
  obtain ⟨local_, hidden⟩ := ScopeWalk.run_knows (w := ⟨known, index, file⟩) arranged code
    ⟨walked, declared⟩
  refine ⟨types, found, locals ▸ local_, ?_⟩
  intro u listed occurs covers alike package taken
  obtain ⟨use, first, stands⟩ := Option.map_eq_some_iff.1 taken
  have start : use.1 = u.node.start := by simpa using List.find?_some first
  refine hidden u listed occurs covers alike package ?_
  rw [← uses, ← start, ← stands]
  exact List.mem_of_find?_eq_some first

end Check

/-! ## A name that hides a package -/

namespace Syntax.Site

variable {source text : Text} {form : BindingForm} {path : List Nat} {test : Tree → Bool}
  {s d scope : Site}

/-- The place that a path leads to, which tells the numbers of the parts with code. -/
def codeAt? : (path : List Nat) → Site → Option Site
  | [], s => some s
  | i :: path, s => s.node.codeParts[i]?.bind fun c => codeAt? path ⟨c, s.node :: s.ancestors⟩

private theorem hasCode_of_codeAt? (h : s.codeAt? path = some d) : s.HasCode d := by
  induction path generalizing s with
  | nil =>
    cases h
    exact .refl _
  | cons i path ih =>
    obtain ⟨c, part, rest⟩ := Option.bind_eq_some_iff.1 h
    exact .step (List.mem_of_getElem? part) (ih rest)

theorem HasCode.trans (h : s.HasCode scope) (h' : scope.HasCode d) : s.HasCode d := by
  induction h with
  | refl => exact h'
  | step part _ ih => exact .step part (ih h')

/-- The first statement of a scope declares a name in the form, and at the path there is a name of
the same spelling, of which the test holds. -/
def isHiding (source text : Text) (form : BindingForm) (path : List Nat) (test : Tree → Bool)
    (scope : Site) : Bool :=
  scope.node.kind.opensScope && (scope.codeAt? [0]).any fun d =>
    ! d.node.isOperand && ((d.binds source form).any fun name => name.text source = text) &&
      (scope.codeAt? path).any fun u => u.node.kind = .identifier &&
        (u.ancestors.all fun a => a.kind ≠ .comment && a.kind ≠ .packageIdentifier) &&
        d.node.stop ≤ u.node.start && u.node.text source = text && test u.node

private theorem exists_of_isHiding (h : scope.isHiding source text form path test = true)
    (code : s.HasCode scope) : ∃ d name u, s.HasCode d ∧ name ∈ d.binds source form ∧
      name.text source = text ∧ s.Holds u ∧ u.IsOccurrence ∧ d.Shares u ∧
      d.node.stop ≤ u.node.start ∧ u.node.text source = text ∧ test u.node = true := by
  unfold isHiding at h
  simp only [Bool.and_eq_true, Option.any_eq_true, List.any_eq_true, List.all_eq_true,
    decide_eq_true_eq, Bool.not_eq_true'] at h
  obtain ⟨opens, d, first, ⟨statement, name, listed, spelled⟩, u, found, rest⟩ := h
  obtain ⟨⟨⟨⟨kind, apart⟩, behind⟩, alike⟩, tested⟩ := rest
  have inside := (hasCode_of_codeAt? found).holds
  -- The occurrence lies below the scope, since a name opens none.
  have around : scope.line <:+ u.ancestors := by
    refine inside.eq_or_suffix.resolve_left ?_
    rintro rfl
    rw [kind] at opens
    cases opens
  have same : d.scope = scope.line := by
    obtain ⟨c, -, eq⟩ := Option.bind_eq_some_iff.1 first
    cases eq
    unfold Site.scope
    rw [scopeAbove, if_neg (by simpa using statement), if_pos opens]
    rfl
  refine ⟨d, name, u, code.trans (hasCode_of_codeAt? first), listed, spelled,
    code.holds.trans inside, ⟨kind, apart⟩, ⟨?_, ?_⟩, behind, alike, tested⟩
  · rw [same]
    exact List.cons_ne_nil _ _
  · rwa [same]

end Syntax.Site

namespace Check

/-- A function that declares a name which is also that of an import. -/
def hidingDefinition : Text :=
  "package p\n\nimport tool \"x/tool\"\n\nfunc f() \x7b\n\ttool := 1\n\tprintln(tool)\n\x7d\n"

/-- A variable hides the import of the same name. -/
theorem package_knows_definition :
    ∃ file p after types, SourceFile.parse "p.go" hidingDefinition = .ok file ∧
      (package "p" none [file] ⟨noArchives, false⟩).Yields .fresh p after ∧
      p.file? 0 = some types ∧ types.locals.contains "tool" = true ∧
      ∃ u ∈ file.tree.sites, file.text u.node = "tool" ∧
        ∀ package, types.objectAt? u.node ≠ some (.package package) := by
  -- The definition, its scope and the use below it are found in the parsed file.
  have passed : ((SourceFile.parse "p.go" hidingDefinition).toOption.bind fun file =>
      ((package "p" none [file] ⟨noArchives, false⟩).run.run .fresh).1.toOption.map fun _ =>
        (Site.codeAt? [2, 0] ⟨file.tree, []⟩).any
          (Site.isHiding file.source "tool" .definition [1, 0, 1, 0] fun _ => true)) =
      some true := by decide +kernel
  obtain ⟨file, p, after, parsed, checked, test⟩ := exists_of_test passed
  rw [Option.any_eq_true] at test
  obtain ⟨scope, found, hides⟩ := test
  obtain ⟨d, name, u, code, declared, spelled, holds, occurs, shares, behind, alike, -⟩ :=
    Site.exists_of_isHiding hides (Site.hasCode_of_codeAt? found)
  have at_index : [file][0]? = some file := rfl
  have walked : BindingForm.definition.isWalked := rfl
  obtain ⟨types, there, known, hidden⟩ :=
    package_knows_locals checked at_index parsed walked code declared
  have listed := Site.mem_sites_iff.2 holds
  rw [SourceFile.text, spelled] at known
  exact ⟨file, p, after, types, parsed, checked, there, known, u, listed, alike,
    hidden u listed occurs ⟨shares, behind⟩ (spelled.trans alike.symm)⟩

/-- A receive clause that declares a name which is also that of an import. -/
def hidingReceive : Text :=
  "package p\n\nimport tool \"x/tool\"\n\nfunc f(ch chan int) \x7b\n\tselect \x7b\n" ++
  "\tcase tool := <-ch:\n\t\tprintln(tool)\n\t\x7d\n\x7d\n"

/-- A name that a receive clause declares is no local name of its file, and where it is in scope it
stands for the import of the same name. -/
theorem package_overlooks_receive :
    ∃ file p after types, SourceFile.parse "p.go" hidingReceive = .ok file ∧
      (package "p" none [file] ⟨noArchives, false⟩).Yields .fresh p after ∧
      p.file? 0 = some types ∧
      ∃ d name u, Site.HasCode ⟨file.tree, []⟩ d ∧ name ∈ d.binds file.source .receive ∧
        types.locals.contains (file.text name) = false ∧
        u ∈ file.tree.sites ∧ u.IsOccurrence ∧ d.Covers .receive name u ∧
        file.text name = file.text u.node ∧ types.objectAt? u.node = some (.package "x/tool") := by
  -- The clause, its scope and a use that stands for the import are found in the parsed file.
  have passed : ((SourceFile.parse "p.go" hidingReceive).toOption.bind fun file =>
      ((package "p" none [file] ⟨noArchives, false⟩).run.run .fresh).1.toOption.map fun p =>
        (p.file? 0).any fun types => types.locals.contains "tool" = false &&
          (Site.codeAt? [2, 0, 0, 0] ⟨file.tree, []⟩).any
            (Site.isHiding file.source "tool" .receive [1, 0, 1, 0] fun u =>
              types.objectAt? u = some (.package "x/tool"))) = some true := by
    decide +kernel
  obtain ⟨file, p, after, parsed, checked, test⟩ := exists_of_test passed
  simp only [Option.any_eq_true, Bool.and_eq_true, decide_eq_true_eq] at test
  obtain ⟨types, there, unknown, scope, found, hides⟩ := test
  obtain ⟨d, name, u, code, declared, spelled, holds, occurs, shares, behind, alike, stands⟩ :=
    Site.exists_of_isHiding hides (Site.hasCode_of_codeAt? found)
  have same : file.text name = "tool" := spelled
  exact ⟨file, p, after, types, parsed, checked, there, d, name, u, code, declared, same ▸ unknown,
    Site.mem_sites_iff.2 holds, occurs, ⟨shares, behind⟩, same.trans alike.symm,
    of_decide_eq_true stands⟩

end Check

end Interlace
