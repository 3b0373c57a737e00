import Interlace.Proofs.ParsedNodes

/-!
# What counts as a statement

Advice takes for a statement whatever stands directly in a block or in a clause of a switch or
select. A block holds statements, but a clause holds its header as well, so the header of a clause
counts as a statement although none starts or ends there. It is told apart by the part that it
plays: statements play none.

## Key results

- `Tree.statements`: the statements of a block or clause
- `Site.enclosingStatement_stands_iff`: when the statement around a place is one
-/

namespace Interlace.Syntax

/-- The statements of a block, or of a clause: what stands behind its colon. -/
def Tree.statements (t : Tree) : List Tree :=
  (if t.kind = .block then t.children else (t.children.dropWhile (! ·.isColon)).drop 1).filter
    fun c => c.isNamed && c.kind ≠ .comment

/-! ## Blocks and clauses with their comments -/

variable {k : Kind} {cs : List Tree} {t p : Tree} {source : Text}

private theorem Tree.isItem_plain : t.plain.IsItem ↔ t.IsItem := by
  simp [IsItem, isNamed]

private theorem Tree.isColon_plain : t.plain.isColon = t.isColon := by
  simp [isColon]

private theorem Tree.isHead_plain : t.plain.IsHead k ↔ t.IsHead k := by
  simp [IsHead, isColon_plain, isNamed]

/-- Comments can stand anywhere in a clause. -/
private theorem Kind.HasClause.of_plain (h : k.HasClause (plainAll cs)) :
    ∃ header colon body, cs = header ++ colon :: body ∧
      (∀ t ∈ header, t.kind = .comment ∨ t.IsHead k) ∧ colon.isColon = true ∧
      ∀ t ∈ body, t.kind = .comment ∨ t.IsItem := by
  obtain ⟨header, colon, body, whole, heads, ends, items⟩ := h
  rw [plainAll_eq] at whole
  obtain ⟨front, back, found, rfl, split⟩ := List.map_eq_append_iff.1 whole
  obtain ⟨colon, body, rfl, rfl, rfl⟩ := List.map_eq_cons_iff.1 split
  -- The comments are put back, each into the header or the body it stands in.
  obtain ⟨front', back', rfl, rfl, split⟩ := List.filter_eq_append_iff.1 found
  obtain ⟨between, body', rfl, comments, -, rfl⟩ := List.filter_eq_cons_iff.1 split
  refine ⟨front' ++ between, colon, body', by simp, ?_, Tree.isColon_plain ▸ ends, ?_⟩
  · refine List.forall_mem_append.2 ⟨fun t ht => ?_, fun t ht => ?_⟩
    · by_cases comment : t.kind = .comment
      · exact .inl comment
      · refine .inr (Tree.isHead_plain.1 (heads _ (List.mem_map_of_mem ?_)))
        exact List.mem_filter.2 ⟨ht, decide_eq_true comment⟩
    · exact .inl (by simpa using comments t ht)
  · intro t ht
    by_cases comment : t.kind = .comment
    · exact .inl comment
    · refine .inr (Tree.isItem_plain.1 (items _ (List.mem_map_of_mem ?_)))
      exact List.mem_filter.2 ⟨ht, decide_eq_true comment⟩

/-- What a child of a block or clause is: a statement exactly if it has a name and plays no part;
otherwise, if it has a name, it is of the header. -/
structure Tree.Sorted (p t : Tree) : Prop where
  stands_iff : t ∈ p.statements ↔ t.isNamed = true ∧ t.field = none
  statement : t ∈ p.statements → t.kind.isStatement = true
  header : t.isNamed = true → t.field ≠ none → t.field = p.kind.headerPart?

private theorem Tree.Fits.sorted_of_block (h : p.Fits source) (block : p.kind = .block)
    (child : t ∈ p.children) (read : t.kind ≠ .comment) : p.Sorted t := by
  -- All parts of a block but its comments are items, which play no part in it.
  have items : ∀ c ∈ plainAll p.children, c.IsItem := by
    have takes := h.orderly.takes
    rw [kind_plain, children_plain] at takes
    exact takes.block block
  have item : t.IsItem := by
    refine isItem_plain.1 (items _ ?_)
    rw [plainAll_eq]
    exact List.mem_map_of_mem (List.mem_filter.2 ⟨child, decide_eq_true read⟩)
  have stands : t ∈ p.statements ↔ t.isNamed = true := by
    rw [statements, if_pos block, List.mem_filter]
    simp [child, read]
  refine ⟨stands.trans (and_iff_left item.1).symm, fun is => ?_, fun _ plays => absurd item.1 plays⟩
  exact item.2.resolve_right (by simp [stands.1 is])

private theorem Tree.Fits.sorted_of_clause (h : p.Fits source) (clause : p.kind.isClause = true)
    (child : t ∈ p.children) (read : t.kind ≠ .comment) : p.Sorted t := by
  have grouped : p.kind.HasClause (plainAll p.children) := by
    have takes := h.orderly.takes
    rw [kind_plain, children_plain] at takes
    exact takes.clause clause
  obtain ⟨header, colon, body, whole, heads, ends, items⟩ := grouped.of_plain
  have behind : (p.children.dropWhile (! ·.isColon)).drop 1 = body := by
    have before : ∀ c ∈ header, (! c.isColon) = true := by
      intro c hc
      rcases heads c hc with comment | head
      · simp [isColon, comment]
      · simp [head.1]
    rw [whole, List.dropWhile_append_of_pos before, List.dropWhile_cons_of_neg (by simp [ends])]
    rfl
  have stands : t ∈ p.statements ↔ t ∈ body ∧ t.isNamed = true := by
    have other : p.kind ≠ .block := by
      intro block
      rw [block] at clause
      cases clause
    rw [statements, if_neg other, behind, List.mem_filter]
    simp [read]
  have item : t ∈ body → t.IsItem := fun ht => (items t ht).resolve_left read
  have head : t ∈ header → t.IsHead p.kind := fun ht => (heads t ht).resolve_left read
  rw [whole, List.mem_append, List.mem_cons] at child
  -- The colon has no name, so what has one is of the header or of the body.
  have side : t.isNamed = true → t ∈ header ∨ t ∈ body := by
    intro named
    refine child.imp_right fun here => here.resolve_left ?_
    rintro rfl
    simp only [isColon, Bool.and_eq_true, decide_eq_true_eq] at ends
    rw [isNamed, ends.1] at named
    cases named
  refine ⟨?_, fun is => ?_, fun named plays => ?_⟩
  · rw [stands]
    constructor
    · rintro ⟨inside, named⟩
      exact ⟨named, (item inside).1⟩
    · rintro ⟨named, plain⟩
      exact ⟨(side named).resolve_left fun ht => ((head ht).2 named).1 plain, named⟩
  · obtain ⟨inside, named⟩ := stands.1 is
    exact (item inside).2.resolve_right (by simp [named])
  · have inside := (side named).resolve_right fun ht => plays (item ht).1
    exact ((head inside).2 named).2

/-! ## The statement around a place -/

/-- The places around a place are places of the same tree. -/
theorem Site.Holds.chain {s d : Site} (h : s.Holds d) :
    ∀ u ∈ d.chain, s.Holds u ∨ u ∈ chainOf s.ancestors := by
  induction h with
  | refl s => exact List.forall_mem_cons.2 ⟨.inl (.refl s), fun u hu => .inr hu⟩
  | @child s d c listed _ ih =>
    intro u hu
    rcases ih u hu with held | above
    · exact .inl (.child listed held)
    · rcases List.mem_cons.1 above with rfl | above
      · exact .inl (.refl _)
      · exact .inr above

/-- What is further down is a part of something that is there as well. -/
theorem Site.Holds.last {s d : Site} (h : s.Holds d) :
    d = s ∨ ∃ p above, d.ancestors = p :: above ∧ s.Holds ⟨p, above⟩ ∧ d.node ∈ p.children := by
  induction h with
  | refl => exact .inl rfl
  | @child s d c listed _ ih =>
    rcases ih with rfl | ⟨p, above, around, held, part⟩
    · exact .inr ⟨s.node, s.ancestors, rfl, .refl s, listed⟩
    · exact .inr ⟨p, above, around, .child listed held, part⟩

/-- What is further down is a node of the tree. -/
theorem Site.Holds.mem_preorder {s d : Site} (h : s.Holds d) : d.node ∈ s.node.preorder := by
  induction h with
  | refl s =>
    rw [s.node.preorder_eq]
    exact List.mem_cons_self
  | @child s d c listed _ ih =>
    rw [s.node.preorder_eq]
    exact List.mem_cons_of_mem _ (preorder_subset_of_mem listed ih)

private theorem Kind.holdsStatements_cases {k : Kind} (h : k.holdsStatements = true) :
    k = .sourceFile ∨ k = .block ∨ k.isClause = true := by
  unfold holdsStatements at h
  split at h
  all_goals first | exact .inl rfl | exact .inr (.inl rfl) | exact .inr (.inr rfl) | cases h

theorem Tree.Fits.sorted (h : p.Fits source) (kind : p.kind = .block ∨ p.kind.isClause = true)
    (child : t ∈ p.children) (read : t.kind ≠ .comment) : p.Sorted t := by
  rcases kind with block | clause
  · exact h.sorted_of_block block child read
  · exact h.sorted_of_clause clause child read

/-- For every place of a parsed file: what counts as the statement around it is a declaration of the
file, or it stands in a block or clause. There it is among the statements exactly if it has a name
and plays no part, and then it is of a kind of statements; if it has a name but plays a part, it is
of the header of the clause. -/
theorem Site.enclosingStatement_stands_iff {tree : Tree} (h : parse? source = some tree) {s : Site}
    (listed : s ∈ tree.sites) (found : s.enclosingStatement? = some t) :
    ∃ u ∈ s.chain, u.node = t ∧ ∃ p, u.parent? = some p ∧
      (p.kind = .sourceFile ∧ t.kind.isTopLevelDeclaration = true ∨
        (p.kind = .block ∨ p.kind.isClause = true) ∧
          (t ∈ p.statements ↔ t.isNamed = true ∧ t.field = none) ∧
          (t ∈ p.statements → t.kind.isStatement = true) ∧
          (t.isNamed = true → t.field ≠ none → t.field = p.kind.headerPart?)) := by
  obtain ⟨u, hu, rfl⟩ := Option.map_eq_some_iff.1 found
  have level := List.find?_some hu
  have around := List.mem_of_find?_eq_some hu
  have held : Site.Holds ⟨tree, []⟩ u :=
    ((Site.mem_sites_iff.1 listed).chain u around).resolve_right List.not_mem_nil
  rcases held.last with rfl | ⟨p, above, ancestors, held', part⟩
  · -- The root is in nothing.
    cases (Bool.and_eq_true_iff.1 level).2
  have parent : u.parent? = some p := by
    rw [parent?, ancestors]
    rfl
  rw [isStatementLevel, parent, Bool.and_eq_true] at level
  obtain ⟨read, level⟩ := level
  obtain ⟨holds, level⟩ := Bool.and_eq_true_iff.1 level
  refine ⟨u, around, rfl, p, parent, ?_⟩
  rcases p.kind.holdsStatements_cases holds with root | kind
  · exact .inl ⟨root, by simpa [root] using level⟩
  · have inner : p.kind ≠ .sourceFile := by
      intro root
      rw [root] at kind
      rcases kind with block | clause
      · cases block
      · cases clause
    have fits : p.Fits source :=
      fits_of_child h (Site.mem_sites_iff.2 held') inner (List.ne_nil_of_mem part)
    have sorted := fits.sorted kind part (of_decide_eq_true read)
    exact .inr ⟨kind, sorted.stands_iff, sorted.statement, sorted.header⟩

/-- A switch with a call in the header of a clause and another one below it. -/
def switching : Text :=
  "package p\n\nfunc f() \x7b\n\tswitch a \x7b\n\tcase g():\n\t\th()\n\t\x7d\n\x7d\n"

/-- The call below the clause is a statement of the clause. -/
theorem Site.enclosingStatement_switching :
    ∃ tree s t, parse? switching = some tree ∧ s ∈ tree.sites ∧
      s.enclosingStatement? = some t ∧ t.kind = .expressionStatement ∧
      ∃ p : Tree, (p.kind = .block ∨ p.kind.isClause = true) ∧ t ∈ p.statements := by
  have test : ((parse? switching).bind fun tree =>
      (tree.sites.find? (·.node.kind = .expressionStatement)).bind fun s =>
        s.enclosingStatement?.map fun t =>
          decide (t.kind = .expressionStatement ∧ t.field = none)) = some true := by decide +kernel
  obtain ⟨tree, parsed, test⟩ := Option.bind_eq_some_iff.1 test
  obtain ⟨s, found, test⟩ := Option.bind_eq_some_iff.1 test
  obtain ⟨t, encloses, test⟩ := Option.map_eq_some_iff.1 test
  obtain ⟨kind, plain⟩ := of_decide_eq_true test
  have listed := List.mem_of_find?_eq_some found
  obtain ⟨-, -, -, p, -, ⟨-, top⟩ | ⟨holds, stands, -⟩⟩ :=
    Site.enclosingStatement_stands_iff parsed listed encloses
  · rw [kind] at top
    -- An expression is no declaration of the file.
    cases top
  · refine ⟨tree, s, t, parsed, listed, encloses, kind, p, holds, stands.2 ⟨?_, plain⟩⟩
    rw [Tree.isNamed, kind]
    rfl

/-- The call in the header of the clause is in no statement of a clause or block that would count as
the one around it: what counts is the header. -/
theorem Site.not_enclosingStatement_stands :
    ¬ ∀ (source : Text) (tree : Tree) (s : Site) (t : Tree), parse? source = some tree →
      s ∈ tree.sites → s.enclosingStatement? = some t → t.kind.isTopLevelDeclaration = false →
      ∃ p ∈ tree.preorder, (p.kind = .block ∨ p.kind.isClause = true) ∧ t ∈ p.statements := by
  intro stands
  -- The list of a case is around the call, and no block or clause has it as a statement.
  have test : ((parse? switching).bind fun tree =>
      (tree.sites.find? (·.node.kind = .callExpression)).bind fun s =>
        s.enclosingStatement?.map fun t => t.kind = .expressionList &&
          tree.preorder.all fun p => ! (p.kind = .block || p.kind.isClause) ||
            p.statements.all (·.kind ≠ .expressionList)) = some true := by decide +kernel
  obtain ⟨tree, parsed, test⟩ := Option.bind_eq_some_iff.1 test
  obtain ⟨s, found, test⟩ := Option.bind_eq_some_iff.1 test
  obtain ⟨t, encloses, test⟩ := Option.map_eq_some_iff.1 test
  simp only [Bool.and_eq_true, decide_eq_true_eq, List.all_eq_true, Bool.or_eq_true,
    Bool.not_eq_true', Bool.or_eq_false_iff, decide_eq_false_iff_not] at test
  obtain ⟨kind, others⟩ := test
  have listed := List.mem_of_find?_eq_some found
  obtain ⟨p, inside, holds, is⟩ :=
    stands switching tree s t parsed listed encloses (by rw [kind]; rfl)
  rcases others p inside with ⟨block, clause⟩ | none_there
  · exact holds.elim block (by simp [clause])
  · exact none_there t is kind

end Interlace.Syntax
