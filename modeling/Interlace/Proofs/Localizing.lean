import Interlace.Proofs.BoundNames
import Interlace.Proofs.Qualifiers
import Interlace.Proofs.Recognition

/-!
# The packages of a template in the names of a file

Localizing the code of a template names its packages and renames their qualifiers, one alias after
the other. A package that was named before may go by a name that is a later alias of the template;
its qualifiers are then renamed twice.

## Key results

- `Draft.WordNames.localize`: names stay words
- `Draft.localize_eq_renameEach`: the qualifiers are renamed by the names that the packages get
- `Draft.localize_eq_renameAll_iff`: when they are renamed as if at once
-/

namespace Interlace

open Text Qualifier

namespace Draft

variable {d : Draft} {s : Scene} {path wanted name : Text}

/-! ## Names are words -/

private theorem wordy_of_ascii {t : Text}
    (h : ∀ b ∈ t, b < 0x80 ∧ isWordChar (Char.ofNat b.toNat) = true) : Wordy t := by
  induction t with
  | nil => exact .nil
  | cons b t ih =>
    obtain ⟨⟨ascii, word⟩, rest⟩ := List.forall_mem_cons.1 h
    have leads : isContinuation b = false := by
      simpa [isContinuation] using fun above => absurd above (UInt8.not_le.2 ascii)
    have character : WritesWordChar b [] :=
      ⟨leads, by simp, b.toNat, by simp [readPoint, ascii], word⟩
    exact .char character (ih rest)

private theorem wordy_ofNat (n : Nat) : Wordy (ofNat n) := by
  refine wordy_of_ascii fun b hb => ?_
  have digit := isDigit_of_mem_ofNat hb
  simp only [isDigit, Bool.and_eq_true, decide_eq_true_eq, UInt8.le_iff_toNat_le] at digit
  have low : 48 ≤ b.toNat := digit.1
  have high : b.toNat ≤ 57 := digit.2
  have digits : ∀ n < 58, 48 ≤ n → isWordChar (Char.ofNat n) = true := by decide
  refine ⟨UInt8.lt_iff_toNat_lt.2 (?_ : b.toNat < 128), digits _ ?_ low⟩ <;> omega

/-- Whatever is tried for a word is a word. -/
private theorem wordy_candidate (word : Wordy wanted) :
    (attempt : Nat) → Wordy (candidate wanted attempt)
  | 0 => word
  | 1 => (wordy_of_isWord (t := "__") (by decide +kernel)).append word
  | n + 2 => ((wordy_of_isWord (t := "__") (by decide +kernel)).append word).append (wordy_ofNat _)

private theorem candidate_ne_nil (given : wanted ≠ []) :
    (attempt : Nat) → candidate wanted attempt ≠ []
  | 0 => given
  | 1 | _ + 2 => List.cons_ne_nil _ _

/-- The names of packages are words. -/
def WordNames (d : Draft) : Prop :=
  ∀ path name, d.names.get? path = some name → Wordy name ∧ name ≠ []

theorem WordNames.bind (h : WordNames d) (word : Wordy wanted) (given : wanted ≠ [])
    (path : Text) : WordNames (d.bind s path wanted).2 := by
  by_cases asked : IsName wanted
  · cases bound : d.names.get? path with
    | some name =>
      rw [bind_of_bound asked bound]
      exact h
    | none =>
      -- A new name is a candidate, which is a word like what was wanted.
      obtain ⟨name, ⟨n, rfl, -⟩, eq⟩ := bind_of_new (s := s) asked bound
      rw [eq]
      intro other name' found
      rw [Dict.get?_insert] at found
      split at found
      · cases found
        exact ⟨wordy_candidate word n, candidate_ne_nil given n⟩
      · exact h other name' found
  · rw [bind_of_unnamed asked]
    exact h

/-! ## The renamings -/

/-- The name that a package goes by, or the one that was asked for. -/
def nameOf (d : Draft) (path wanted : Text) : Text :=
  if wanted = blankName ∨ wanted = dotName then wanted else (d.names.get? path).getD wanted

private theorem nameOf_eq_bind {d' : Draft} (more : (d.bind s path wanted).2.Extends d') :
    d'.nameOf path wanted = (d.bind s path wanted).1 := by
  unfold nameOf
  by_cases asked : IsName wanted
  · rw [if_neg (not_or.2 asked), more path _ (get?_bind d s path asked)]
    rfl
  · rw [if_pos (or_iff_not_and_not.2 asked), bind_of_unnamed asked]

/-- One step of localizing. -/
def localizeStep (s : Scene) (state : Text × Draft) (entry : Text × Text) : Text × Draft :=
  (rename state.1 entry.1 (state.2.bind s entry.2 entry.1).1,
    (state.2.bind s entry.2 entry.1).2)

private theorem localize_eq_foldl (d : Draft) (s : Scene) (t : Template) (text : Text) :
    d.localize s t text = t.imports.entries.foldl (localizeStep s) (text, d) :=
  rfl

private theorem extends_foldl_localizeStep (s : Scene) (entries : List (Text × Text)) (text : Text)
    (d : Draft) : d.Extends (entries.foldl (localizeStep s) (text, d)).2 :=
  foldl_keeps (K := fun state : Text × Draft => d.Extends state.2)
    (fun state entry _ more => more.trans (extends_bind state.2 s entry.2 entry.1)) (.refl d)

/-- What the qualifiers of a template are renamed to, in order. -/
def renamings (d : Draft) (t : Template) : List (Text × Text) :=
  t.imports.entries.map fun e => (e.1, d.nameOf e.2 e.1)

/-- Localizing renames the qualifiers one after the other, by the names that the packages have in
the end. -/
theorem localize_eq_renameEach (d : Draft) (s : Scene) (t : Template) (text : Text) :
    (d.localize s t text).1 = renameEach text ((d.localize s t text).2.renamings t) := by
  rw [localize_eq_foldl, renamings]
  generalize t.imports.entries = entries
  induction entries generalizing text d with
  | nil => rfl
  | cons e entries ih =>
    have more := extends_foldl_localizeStep s entries
      (rename text e.1 (d.bind s e.2 e.1).1) (d.bind s e.2 e.1).2
    have named := nameOf_eq_bind more
    refine (ih _ _).trans ?_
    exact congrArg (fun name => renameEach (rename text e.1 name) _) named.symm

private theorem map_fst_renamings (d : Draft) (t : Template) :
    (d.renamings t).map Prod.fst = t.imports.keys := by
  rw [renamings, List.map_map]
  rfl

/-- The name of the package of an alias. -/
def nameIn (d : Draft) (t : Template) (a : Text) : Text :=
  match t.imports.get? a with
  | some path => d.nameOf path a
  | none => a

private theorem nameIn_of_mem_renamings {t : Template} {a name : Text}
    (h : (a, name) ∈ d.renamings t) : d.nameIn t a = name := by
  obtain ⟨⟨_, path⟩, listed, eq⟩ := List.mem_map.1 h
  cases eq
  rw [nameIn, t.imports.mem_entries_iff.1 listed]

/-! ## At once -/

variable {t : Template}

/-- Localizing keeps names words. -/
theorem WordNames.localize (h : WordNames d) (words : Words t.imports.keys) (text : Text) :
    WordNames (d.localize s t text).2 := by
  refine foldl_keeps (K := fun state : Text × Draft => WordNames state.2)
    (fun state entry listed kept => ?_) h
  have word := words entry.1 (List.mem_map_of_mem listed)
  exact kept.bind word.1 word.2 entry.2

theorem WordNames.renamings (h : WordNames d) (words : Words t.imports.keys) :
    Words ((d.renamings t).map Prod.snd) := by
  intro name listed
  obtain ⟨_, pair, rfl⟩ := List.mem_map.1 listed
  obtain ⟨⟨a, path⟩, entry, rfl⟩ := List.mem_map.1 pair
  have word := words a (List.mem_map_of_mem entry)
  show Wordy (d.nameOf path a) ∧ d.nameOf path a ≠ []
  unfold nameOf
  split
  · exact word
  · cases named : d.names.get? path with
    | none => exact word
    | some name => exact h path name named

/-- Localizing the code of a template renames its qualifiers at once, each by what the later
renamings make of the name of its package. So the qualifiers go by the names of their packages iff
the later renamings leave the name of every qualifier that occurs. -/
theorem localize_eq_renameAll_iff (d : Draft) (s : Scene) (t : Template) (text : Text)
    (aliases : ∀ a ∈ t.imports.keys, isWord a = true)
    (names : ∀ path name, d.names.get? path = some name → isWord name = true) :
    let after := (d.localize s t text).2
    (d.localize s t text).1 = renameAll t.imports.keys (settle (after.renamings t)) text ∧
      ((d.localize s t text).1 = renameAll t.imports.keys (after.nameIn t) text ↔
        ∀ earlier a name later, after.renamings t = earlier ++ (a, name) :: later →
          .qualifier a ∈ pieces t.imports.keys text → settle later name = name) := by
  intro after
  have words : Words t.imports.keys :=
    fun a listed => ⟨wordy_of_isWord (aliases a listed), ne_nil_of_isWord (aliases a listed)⟩
  have known : WordNames d := fun path name found =>
    ⟨wordy_of_isWord (names path name found), ne_nil_of_isWord (names path name found)⟩
  have new := (known.localize (s := s) words text).renamings words
  have keys := map_fst_renamings after t
  have distinct : ((after.renamings t).map Prod.fst).Nodup := keys ▸ t.imports.nodup_keys
  have whole := renameEach_eq (keys ▸ words) new distinct text
  rw [← localize_eq_renameEach, keys] at whole
  refine ⟨whole, ?_⟩
  -- Every alias has its renaming, and is what the renamings start from once.
  have settled {earlier later : List (Text × Text)} {a name : Text}
      (split : after.renamings t = earlier ++ (a, name) :: later) :
      settle (after.renamings t) a = settle later name ∧ after.nameIn t a = name := by
    have once : a ∉ earlier.map Prod.fst := by
      rw [split, List.map_append, List.map_cons] at distinct
      exact fun listed => (List.nodup_append.1 distinct).2.2 a listed a List.mem_cons_self rfl
    refine ⟨split ▸ settle_alias once name, nameIn_of_mem_renamings ?_⟩
    rw [split]
    exact List.mem_append_right _ List.mem_cons_self
  have found {a : Text} (listed : a ∈ t.imports.keys) :
      ∃ earlier name later, after.renamings t = earlier ++ (a, name) :: later := by
    rw [← keys] at listed
    obtain ⟨⟨_, name⟩, pair, rfl⟩ := List.mem_map.1 listed
    obtain ⟨earlier, later, split⟩ := List.append_of_mem pair
    exact ⟨earlier, name, later, split⟩
  rw [whole, renameAll, renameAll, renderAll_eq_iff]
  · constructor
    · intro same earlier a name later split occurs
      have := same a occurs
      rwa [(settled split).1, (settled split).2] at this
    · intro left a occurs
      obtain ⟨earlier, name, later, split⟩ := found (mem_of_mem_piecesFrom occurs)
      rw [(settled split).1, (settled split).2]
      exact left earlier a name later split occurs
  · intro a occurs
    have listed := mem_of_mem_piecesFrom occurs
    obtain ⟨earlier, name, later, split⟩ := found listed
    refine ⟨(new.settle (words a listed).1 (words a listed).2).1.dotless, ?_⟩
    rw [(settled split).2]
    have pair : (a, name) ∈ after.renamings t := split ▸ List.mem_append_right _ List.mem_cons_self
    exact (new name (List.mem_map_of_mem pair)).1.dotless

/-- A template with one package, by the alias `wanted`. -/
def needing (wanted : Text) : Template :=
  ⟨"var x = 1", .ofList [(wanted, "x/one")], none⟩

/-- A template with two packages, one of them the same. -/
def adding : Template :=
  ⟨"var y = a.One() + b.Two()", .ofList [("a", "x/one"), ("b", "x/two")], none⟩

/-- The draft in which the package of both templates is named. -/
def named (s : Scene) (wanted : Text) : Draft :=
  (ofSource s.file.source).useTemplate s (needing wanted)

/-- Where the package that both templates have goes by a name that is no alias of the second, the
qualifiers of the second are renamed at once. -/
theorem localize_eq_renameAll_one :
    ∃ s : Scene, (∀ a ∈ adding.imports.keys, isWord a = true) ∧
      (∀ path name, (named s "one").names.get? path = some name → isWord name = true) ∧
      let r := (named s "one").localize s adding adding.text
      r.1 = "var y = one.One() + b.Two()" ∧
        r.1 = renameAll adding.imports.keys (r.2.nameIn adding) adding.text := by
  let pairs : List (Text × Text) := [("a", "one"), ("b", "b")]
  have passed : ((SourceFile.parse "p.go" "package p\n").toOption.bind fun file =>
      ((Check.package "p" none [file] ⟨noArchives, false⟩).run.run .fresh).1.toOption.map
        fun types =>
          let s := SourceOptions.standard.scene file types
          let r := (named s "one").localize s adding adding.text
          (named s "one").names.entries.all (fun e => isWord e.2) &&
            decide (r.1 = "var y = one.One() + b.Two()" ∧ r.2.renamings adding = pairs)) =
      some true := by decide +kernel
  obtain ⟨file, types, -, -, -, test⟩ := Check.exists_of_test passed
  obtain ⟨words, became⟩ := Bool.and_eq_true_iff.1 test
  obtain ⟨becomes, order⟩ := of_decide_eq_true became
  have aliases : ∀ a ∈ adding.imports.keys, isWord a = true := by decide +kernel
  have names : ∀ path name,
      (named (SourceOptions.standard.scene file types) "one").names.get? path = some name →
        isWord name = true :=
    fun path name found => List.all_eq_true.1 words (path, name) ((Dict.mem_entries_iff _).2 found)
  refine ⟨_, aliases, names, becomes, ?_⟩
  refine (localize_eq_renameAll_iff _ _ adding adding.text aliases names).2.2 ?_
  intro earlier a name later split _
  -- Neither name is an alias that is renamed to another.
  have left : ∀ p ∈ pairs, ∀ e ∈ pairs, p.2 = e.1 → e.2 = p.2 := by decide
  have parts : pairs = earlier ++ (a, name) :: later := order.symm.trans split
  have here : (a, name) ∈ pairs := parts ▸ List.mem_append_right _ List.mem_cons_self
  refine settle_eq_self fun e listed => left (a, name) here e ?_
  exact parts ▸ List.mem_append_right _ (List.mem_cons_of_mem _ listed)

/-- Where the package goes by the alias that the second template has for another one, its qualifier
is renamed for the other package, too. -/
theorem localize_renames_twice :
    ∃ s : Scene, (∀ a ∈ adding.imports.keys, isWord a = true) ∧
      (∀ path name, (named s "b").names.get? path = some name → isWord name = true) ∧
      let r := (named s "b").localize s adding adding.text
      r.2.nameIn adding "a" = "b" ∧ r.2.nameIn adding "b" = "__b" ∧
        r.1 = "var y = __b.One() + __b.Two()" ∧
        renameAll adding.imports.keys (r.2.nameIn adding) adding.text =
          "var y = b.One() + __b.Two()" ∧
        r.1 ≠ renameAll adding.imports.keys (r.2.nameIn adding) adding.text := by
  -- The name `b` is taken in the file, and is the alias of another package in the template.
  have passed : ((SourceFile.parse "p.go" "package p\n").toOption.bind fun file =>
      ((Check.package "p" none [file] ⟨noArchives, false⟩).run.run .fresh).1.toOption.map
        fun types =>
          let s := SourceOptions.standard.scene file types
          let r := (named s "b").localize s adding adding.text
          (named s "b").names.entries.all (fun e => isWord e.2) &&
            decide (r.2.nameIn adding "a" = "b" ∧ r.2.nameIn adding "b" = "__b" ∧
              r.1 = "var y = __b.One() + __b.Two()" ∧
              renameAll adding.imports.keys (r.2.nameIn adding) adding.text =
                "var y = b.One() + __b.Two()" ∧
              r.1 ≠ renameAll adding.imports.keys (r.2.nameIn adding) adding.text)) =
      some true := by decide +kernel
  obtain ⟨file, types, -, -, -, test⟩ := Check.exists_of_test passed
  obtain ⟨words, became⟩ := Bool.and_eq_true_iff.1 test
  refine ⟨_, by decide +kernel, fun path name found => ?_, of_decide_eq_true became⟩
  exact List.all_eq_true.1 words (path, name) ((Dict.mem_entries_iff _).2 found)

end Draft

end Interlace
