import Interlace.Proofs.NameClashes

/-!
# Names that were asked for

A package goes by the name that some advice asked for, or by one that was tried in its place. So
what holds of these names holds of all names of packages in added code.

## Key results

- `Draft.Asked`: every name of a package was asked for
- `Advice.apply_asked`: every advice keeps this
- `Draft.newline_not_mem_bind`: names that are asked for on one line are given on one line
-/

namespace Interlace

open Syntax

/-! ## What applications give -/

/-- Whatever an application gives has a property. -/
def Gives {α : Type} (Q : α → Prop) (x : Except AdviceFault α) : Prop :=
  ∀ a, x = .ok a → Q a

section

variable {α β : Type} {Q : α → Prop} {R : β → Prop} {x : Except AdviceFault α}

private theorem gives_ok {a : α} (h : Q a) : Gives Q (.ok a) := by
  rintro _ ⟨⟩
  exact h

private theorem gives_error (fault : AdviceFault) : Gives Q (.error fault) := nofun

private theorem gives_bind {f : α → Except AdviceFault β} (hf : ∀ a, Gives R (f a)) :
    Gives R (x >>= f) := by
  intro b h
  obtain ⟨a, -, h⟩ := bind_eq_ok_iff.1 h
  exact hf a b h

private theorem gives_bind_of {f : α → Except AdviceFault β} (hx : Gives Q x)
    (hf : ∀ a, Q a → Gives R (f a)) : Gives R (x >>= f) := by
  intro b h
  obtain ⟨a, given, h⟩ := bind_eq_ok_iff.1 h
  exact hf a (hx a given) b h

end

/-! ## Drafts -/

namespace Draft

/-- Every name of a package is one that was tried for a name that was asked for. -/
def Asked (P : Text → Prop) (d : Draft) : Prop :=
  ∀ path name, d.names.get? path = some name → ∃ wanted n, P wanted ∧ name = candidate wanted n

variable {P : Text → Prop} {s : Scene} {d d' : Draft} {site : Site} {wanted : Text}

theorem asked_ofSource (source : Text) : Asked P (ofSource source) := nofun

/-- Only the names count. -/
theorem Asked.congr (h : Asked P d) (names : d'.names = d.names) : Asked P d' :=
  fun path name found => h path name (names ▸ found)

theorem Asked.bind (h : Asked P d) (asked : P wanted) (path : Text) :
    Asked P (d.bind s path wanted).2 := by
  by_cases named : IsName wanted
  · -- Only a path that has no name yet gets one, and that is made from what was wanted.
    cases bound : d.names.get? path with
    | some name =>
      rw [bind_of_bound named bound]
      exact h
    | none =>
      obtain ⟨name, ⟨n, rfl, -⟩, eq⟩ := bind_of_new (s := s) named bound
      rw [eq]
      intro other name found
      rw [Dict.get?_insert] at found
      split at found
      · cases found
        exact ⟨wanted, n, asked, rfl⟩
      · exact h other name found
  · rw [bind_of_unnamed named]
    exact h

theorem Asked.addImport (h : Asked P d) (path name : Text) : Asked P (d.addImport path name) :=
  h.congr rfl

theorem Asked.request (h : Asked P d) (asked : P wanted) (path : Text) :
    Asked P ((d.bind s path wanted).2.addImport path (d.bind s path wanted).1) :=
  (h.bind asked path).addImport path _

theorem Asked.localize (h : Asked P d) {t : Template} (asked : ∀ a ∈ t.imports.keys, P a)
    (text : Text) : Asked P (d.localize s t text).2 :=
  foldl_keeps (K := fun state : Text × Draft => Asked P state.2)
    (fun _ entry listed kept => kept.bind (asked entry.1 (List.mem_map_of_mem listed)) entry.2) h

theorem Asked.useTemplate (h : Asked P d) {t : Template} (asked : ∀ a ∈ t.imports.keys, P a) :
    Asked P (d.useTemplate s t) := by
  have kept := foldl_keeps (K := Asked P) (l := t.imports.entries)
    (fun (d : Draft) (entry : Text × Text) listed (kept : Asked P d) =>
      kept.request (s := s) (asked entry.1 (List.mem_map_of_mem listed)) entry.2) h
  unfold Draft.useTemplate
  cases t.version with
  | none => exact kept
  | some v => exact kept.congr rfl

theorem Asked.wrapStatement (h : Asked P d) (statement : Tree) :
    Asked P (d.wrapStatement s statement) := by
  unfold Draft.wrapStatement
  split
  · exact h
  · dsimp only
    split <;> split <;> exact h.congr rfl

theorem Asked.prependToBody (h : Asked P d) (body : Tree) (statements : Text) :
    Gives (Asked P) (d.prependToBody s body statements) := by
  unfold Draft.prependToBody
  split
  · exact gives_error _
  · dsimp only
    split <;> exact gives_ok (h.congr rfl)

theorem Asked.wrapNode (h : Asked P d) (target : Tree) {t : Template}
    (asked : ∀ a ∈ t.imports.keys, P a) : Gives (Asked P) (d.wrapNode s site target t) := by
  unfold Draft.wrapNode
  split
  · exact gives_error _
  · refine gives_bind fun rendered => ?_
    split
    · exact gives_error _
    · dsimp only
      split
      · exact gives_error _
      · exact gives_ok (((h.localize asked _).localize asked _).congr rfl)

/-- A node is wrapped, and then the template is recorded. -/
theorem Asked.wrapped (h : Asked P d) (target : Tree) {t : Template}
    (asked : ∀ a ∈ t.imports.keys, P a) :
    Gives (Asked P)
      (do return (← d.wrapNode s site target t).useTemplate s t : Except AdviceFault Draft) :=
  gives_bind_of (h.wrapNode target asked) fun _ kept => gives_ok (kept.useTemplate asked)

theorem Asked.inStatement (h : Asked P d) {change : Draft → Except AdviceFault Draft}
    (changes : Gives (Asked P) (change d)) :
    Gives (fun r => Asked P r.2) (d.inStatement s site change) := by
  unfold Draft.inStatement
  refine gives_bind fun statement => ?_
  split
  · exact gives_ok h
  · exact gives_bind_of changes fun _ kept => gives_ok (kept.wrapStatement statement)

theorem Asked.inBody (h : Asked P d) {advice : Text} {node : Tree}
    {change : Tree → Except AdviceFault Draft}
    (changes : ∀ body, Gives (Asked P) (change body)) :
    Gives (fun r => Asked P r.2) (d.inBody s advice node change) := by
  unfold Draft.inBody
  split
  · exact gives_error _
  · split
    · exact gives_ok h
    · rename_i body _
      split
      · exact gives_ok h
      · cases done : change body with
        | ok d' => exact gives_ok (changes body d' done)
        | error fault => exact gives_error fault

theorem Asked.spanStatements (h : Asked P d) (context : P "context") (site : Site)
    (tool tags : Text) : Asked P (d.spanStatements s site tool tags).2 := by
  unfold Draft.spanStatements
  dsimp only
  split
  · exact h
  · exact h
  · exact h.request context "context"

end Draft

/-! ## Advice -/

namespace Advice

open Draft

variable {P : Text → Prop} {s : Scene} {d : Draft} {site : Site}

private theorem wrapExpression_asked (h : Asked P d) {t : Template}
    (asked : ∀ a ∈ t.imports.keys, P a) :
    Gives (fun r => Asked P r.2) (d.wrapExpression s site t) := by
  unfold Draft.wrapExpression
  dsimp only
  split
  case h_1 | h_2 | h_3 =>
    rw [pure_bind]
    split
    · exact gives_error _
    · exact h.inStatement (h.wrapped _ asked)
  case h_4 => exact gives_error _

private theorem giveValue_asked (h : Asked P d) {t : Template} (asked : ∀ a ∈ t.imports.keys, P a) :
    Gives (fun r => Asked P r.2) (d.giveValue s site t) := by
  unfold Draft.giveValue
  dsimp only
  split
  · exact gives_error _
  · refine h.inStatement ?_
    split
    · exact gives_error _
    · refine gives_bind fun value => gives_ok (Asked.useTemplate ?_ asked)
      exact (h.localize asked value).congr rfl

private theorem replaceCallTarget_asked (h : Asked P d) (source target : Text) {wanted : Text}
    (asked : P wanted) :
    Gives (fun r => Asked P r.2) (d.replaceCallTarget s site source target wanted) := by
  unfold Draft.replaceCallTarget
  dsimp only
  split
  · exact gives_error _
  · split
    · exact gives_error _
    · split
      · split
        · exact gives_error _
        · exact h.inStatement (gives_ok ((h.bind asked target).congr rfl))
      · exact gives_error _

private theorem injectDeclarations_asked (h : Asked P d) {t : Template} (links : List Text)
    (asked : ∀ a ∈ t.imports.keys, P a) :
    Gives (fun r => Asked P r.2) (d.injectDeclarations s site t links) := by
  unfold Draft.injectDeclarations
  split
  · exact gives_error _
  · refine gives_bind fun rendered => ?_
    dsimp only
    split
    · exact gives_ok (h.localize asked rendered)
    · refine gives_ok (Asked.useTemplate ?_ asked)
      exact (h.localize asked rendered).congr rfl

/-- An advice gives packages only names that are tried for those that it asks for. -/
theorem apply_asked (h : Asked P d) (site : Site) {a : Advice} (tool : P toolAlias)
    (context : P "context") (asked : ∀ wanted ∈ a.wantedNames, P wanted) :
    Gives (fun r => Asked P r.2) (a.apply s site d) := by
  cases a with
  | wrapCallArgument index t =>
    show Gives _ (d.wrapCallArgument s site index t)
    unfold Draft.wrapCallArgument
    split
    · exact gives_error _
    · refine h.inStatement ?_
      dsimp only
      split
      · exact gives_error _
      · exact h.wrapped _ asked
  | wrapExpression t => exact wrapExpression_asked h asked
  | assignValue t =>
    show Gives _ (d.assignValue s site t)
    unfold Draft.assignValue
    split
    · exact wrapExpression_asked h asked
    · exact giveValue_asked h asked
  | prependStatements t =>
    refine h.inBody fun body => gives_bind fun statements => ?_
    exact gives_bind_of ((h.localize asked statements).prependToBody body _)
      fun _ kept => gives_ok (kept.useTemplate asked)
  | reportSpan tags =>
    refine h.inBody fun body => ?_
    -- A report asks for the tool first, then for the context.
    have spanned := (h.bind (s := s) tool toolPath).spanStatements (s := s) context site
      (d.bind s toolPath toolAlias).1 (spanTags s site tags)
    exact gives_bind_of (spanned.prependToBody body _) fun _ kept => gives_ok (kept.addImport _ _)
  | addBlankImport path => exact gives_ok (h.addImport path blankName)
  | replaceCallTarget source target wanted =>
    exact replaceCallTarget_asked h source target (asked wanted (List.mem_singleton_self _))
  | injectDeclarations t links => exact injectDeclarations_asked h links asked

end Advice

/-! ## Names on one line -/

namespace Draft

variable {s : Scene} {d : Draft} {wanted : Text}

private theorem newline_not_mem_candidate (one : Text.newline ∉ wanted) (attempt : Nat) :
    Text.newline ∉ candidate wanted attempt := by
  have lead : Text.newline ∉ ("__" : Text) := by decide
  match attempt with
  | 0 => exact one
  | 1 => exact List.not_mem_append lead one
  | n + 2 =>
    refine List.not_mem_append (List.not_mem_append lead one) fun listed => ?_
    have digit := Text.isDigit_of_mem_ofNat listed
    exact absurd digit (by decide)

/-- Where all names are asked for on one line, a package is given a name on one line. -/
theorem newline_not_mem_bind (h : Asked (Text.newline ∉ ·) d) (one : Text.newline ∉ wanted)
    (path : Text) : Text.newline ∉ (d.bind s path wanted).1 := by
  by_cases named : IsName wanted
  · obtain ⟨asked, n, one, eq⟩ := h.bind (s := s) one path path _ (get?_bind d s path named)
    rw [eq]
    exact newline_not_mem_candidate one n
  · rw [bind_of_unnamed named]
    exact one

end Draft

end Interlace
