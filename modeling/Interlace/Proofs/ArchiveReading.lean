import Interlace.Dict.Lemmas
import Interlace.Proofs.ArchiveMembers
import Interlace.Proofs.CharacterCuts
import Interlace.Proofs.VersionWords

/-!
# Reading package definitions back

A package definition is read line by line, and of a line nothing but its words. So the exports of a
package are read as they were written. Its version stands in the header, which is cut into words as
well, and only one of them is taken for the version.

## Key results

- `Archive.readExports_eq_foldl`: an export section is read line by line
- `Archive.headerVersion?_eq`: the header tells the first word of the version text
- `Archive.read_build_definitionOf`: what is read of a package that has been written
-/

namespace Interlace.Archive

open Text

variable {v name line : Text} {info : ArchiveInfo}

/-! ## Names -/

/-- A name that stands in a line as one of its words. -/
structure IsOneWord (t : Text) : Prop where
  given : t ≠ []
  solid : t.Solid
  utf8 : t.WellFormed

theorem IsOneWord.words (h : IsOneWord name) : words name = [name] :=
  words_of_solid h.solid h.given

theorem IsOneWord.one_line (h : IsOneWord name) : newline ∉ name :=
  h.solid.not_mem (by decide)

private theorem isOneWord_keyword (k : ExportKind) : IsOneWord k.keyword := by
  cases k <;> exact ⟨by decide, by decide, by decide⟩

private theorem isOneWord_package : IsOneWord "package" :=
  ⟨by decide, by decide, by decide⟩

/-- The two words of a line that declares a name. -/
private theorem words_pair {word : Text} (first : IsOneWord word) (second : IsOneWord name) :
    words (word ++ 0x20 :: name) = [word, name] := by
  rw [words_append_cons rfl, first.words, second.words]
  rfl

/-! ## Export sections -/

/-- The mark around an export section. -/
def mark : Text := "$$"

/-- Takes what the words of a line tell. -/
def takeWords (info : ArchiveInfo) : List Text → ArchiveInfo
  | word :: name :: _ =>
    if word = "package" then { info with packageName := some name }
    else
      match ExportKind.ofKeyword? word with
      | some kind => { info with exports := info.exports.insert name kind }
      | none => info
  | _ => info

/-- A line is trimmed before it is cut into words, which makes no difference to them. -/
private theorem readExports_cons (info : ArchiveInfo) (line : Text) (rest : List Text) :
    readExports info (line :: rest) =
      if trimEnd line = mark then info else readExports (takeWords info (words line)) rest := by
  rw [readExports]
  refine if_congr Iff.rfl rfl ?_
  rw [words_trimEnd]
  cases words line with
  | nil => rfl
  | cons word names =>
    cases names with
    | nil => rfl
    | cons name more =>
      simp only [takeWords]
      split
      · rfl
      · cases ExportKind.ofKeyword? word <;> rfl

/-- An export section is read line by line up to its end, and nothing behind it is. -/
theorem readExports_eq_foldl {front : List Text} (inner : ∀ line ∈ front, trimEnd line ≠ mark)
    (info : ArchiveInfo) (rest : List Text) :
    readExports info (front ++ mark :: rest) =
      front.foldl (fun info line => takeWords info (words line)) info := by
  induction front generalizing info with
  | nil =>
    have own : trimEnd mark = mark := by decide
    rw [List.nil_append, readExports_cons, if_pos own]
    rfl
  | cons line front ih =>
    obtain ⟨other, others⟩ := List.forall_mem_cons.1 inner
    rw [List.cons_append, readExports_cons, if_neg other, ih others]
    rfl

/-- Nothing behind a mark is read, whether another one comes first or not. -/
private theorem readExports_append_mark (info : ArchiveInfo) (front rest : List Text) :
    readExports info (front ++ mark :: rest) = readExports info (front ++ [mark]) := by
  induction front generalizing info with
  | nil => rfl
  | cons line front ih =>
    rw [List.cons_append, List.cons_append, readExports_cons, readExports_cons, ih]

/-- A line of two words is no mark. -/
private theorem trimEnd_ne_mark {word : Text} (pair : words line = [word, name]) :
    trimEnd line ≠ mark := by
  intro same
  rw [← words_trimEnd, same] at pair
  have one : words mark = [mark] := by decide
  rw [one] at pair
  cases pair

private theorem takeWords_keyword (info : ArchiveInfo) (k : ExportKind) (name : Text) :
    takeWords info [k.keyword, name] = { info with exports := info.exports.insert name k } := by
  cases k <;> rfl

theorem get?_foldl_insert (l : List (ExportKind × Text)) (n : Text) :
    (l.foldl (fun d e => d.insert e.2 e.1) Dict.empty).get? n =
      (l.reverse.find? (·.2 = n)).map Prod.fst := by
  induction l using List.reverseRecOn with
  | nil => rfl
  | append_singleton l e ih =>
    rw [List.foldl_append, List.foldl_cons, List.foldl_nil, Dict.get?_insert, List.reverse_append,
      List.reverse_singleton, List.singleton_append, List.find?_cons, ih]
    by_cases same : e.2 = n <;> simp [same]

/-! ## Lines of a definition -/

/-- The line that says which package a definition is of. -/
def packageLine (name : Text) : Text :=
  "package" ++ 0x20 :: name

/-- A line of an export section, without its line break. -/
def exportWords (e : ExportKind × Text) : Text :=
  e.1.keyword ++ 0x20 :: e.2

private theorem lines_exports {exports : List (ExportKind × Text)}
    (listed : ∀ e ∈ exports, IsOneWord e.2) (rest : Text) :
    lines (exports.flatMap (exportWords · ++ [newline]) ++ rest) =
      exports.map (dropReturn <| exportWords ·) ++ lines rest := by
  induction exports with
  | nil => rfl
  | cons e exports ih =>
    obtain ⟨first, others⟩ := List.forall_mem_cons.1 listed
    have one_line : newline ∉ exportWords e := by
      have space : newline ≠ 0x20 := by decide
      simp [exportWords, (isOneWord_keyword e.1).one_line, first.one_line, space]
    rw [List.flatMap_cons, List.append_assoc, List.append_assoc, List.singleton_append,
      lines_line one_line, ih others]
    rfl

/-- The start of the header, before the version. -/
def lead : Text := "go object linux amd64 "

/-- The first line of a version text, which ends the header of a definition. -/
def headerLine (v : Text) : Text :=
  (splitWhere (· = newline) v).headD []

/-- The lines of a version text behind the first, which follow the header of a definition. -/
def looseLines (v : Text) : List Text :=
  (splitWhere (· = newline) v).tail

private theorem splitWhere_eq (v : Text) :
    splitWhere (· = newline) v = headerLine v :: looseLines v := by
  obtain ⟨piece, pieces, split⟩ := List.exists_cons_of_ne_nil (splitWhere_ne_nil (· = newline) v)
  rw [headerLine, looseLines, split]
  rfl

private theorem exists_eq_headerLine_append (v : Text) :
    ∃ later, v = headerLine v ++ later ∧ EndsWord later := by
  refine ⟨(looseLines v).flatMap ([newline] ++ ·), ?_, ?_⟩
  · rw [← join_cons, ← splitWhere_eq, join_splitWhere]
  · cases looseLines v with
    | nil => exact .inl rfl
    | cons line lines =>
      have white (t : Text) : whiteWidth (newline :: t) ≠ 0 := Nat.one_ne_zero
      exact .inr (white _)

/-- A package definition with exports of known kinds. -/
def definitionOf (v name : Text) (exports : List (ExportKind × Text)) : Text :=
  definition v name (exports.map fun e => (e.1.keyword, e.2))

private theorem definitionOf_eq (v name : Text) (exports : List (ExportKind × Text)) :
    definitionOf v name exports = (lead ++ v) ++ newline :: ([] ++ newline :: (mark ++ newline ::
      (packageLine name ++ newline :: (exports.flatMap (exportWords · ++ [newline]) ++
        (mark ++ newline :: []))))) := by
  have middle : ("\n\n$$\npackage " : Text) =
      newline :: newline :: (mark ++ newline :: (ofString "package" ++ [0x20])) := by decide
  have last : ("$$\n" : Text) = mark ++ [newline] := by decide
  have space : (" " : Text) = [0x20] := by decide
  have line : ("\n" : Text) = [newline] := by decide
  simp only [definitionOf, definition, exportLine, packageLine, exportWords, lead, middle, last,
    space, line, List.flatMap_map, List.append_assoc, List.cons_append, List.nil_append]

/-- The lines between the header and the export section. -/
def preamble (v : Text) : List Text :=
  (looseLines v).map dropReturn ++ [[]]

/-- The lines of the export section. -/
def exportSection (name : Text) (exports : List (ExportKind × Text)) : List Text :=
  dropReturn (packageLine name) :: exports.map (dropReturn <| exportWords ·)

/-- The lines of a definition, with the version text spread over the first of them. -/
private theorem lines_definitionOf (named : IsOneWord name) {exports : List (ExportKind × Text)}
    (listed : ∀ e ∈ exports, IsOneWord e.2) (v : Text) :
    lines (definitionOf v name exports) = (lead ++ dropReturn (headerLine v)) ::
      (preamble v ++ mark :: (exportSection name exports ++ [mark])) := by
  have front : splitWhere (· = newline) (lead ++ v) = (lead ++ headerLine v) :: looseLines v :=
    splitWhere_append_of_uncut (by decide +kernel) (splitWhere_eq v)
  have one_line : newline ∉ packageLine name := by
    have space : newline ≠ 0x20 := by decide
    simp [packageLine, isOneWord_package.one_line, named.one_line, space]
  have marked : newline ∉ mark := by decide
  -- Only the version text may have line breaks, so every other part is a line of its own.
  rw [definitionOf_eq, lines_append_newline, front, lines_line List.not_mem_nil, lines_line marked,
    lines_line one_line, lines_exports listed, lines_line marked, List.map_cons,
    dropReturn_append (by decide)]
  have nothing : dropReturn [] = [] := rfl
  have own : dropReturn mark = mark := by decide
  have last : lines [] = [] := rfl
  simp only [preamble, exportSection, nothing, own, last, List.cons_append, List.append_assoc,
    List.nil_append]

private theorem wellFormed_exportWords {e : ExportKind × Text} (listed : IsOneWord e.2) :
    (exportWords e ++ [newline]).WellFormed := by
  have space : WellFormed [0x20] := by decide
  have line : WellFormed [newline] := by decide
  rw [exportWords, List.append_assoc]
  exact (isOneWord_keyword e.1).utf8.append (space.append (listed.utf8.append line))

private theorem wellFormed_definitionOf (utf8 : v.WellFormed) (named : IsOneWord name)
    {exports : List (ExportKind × Text)} (listed : ∀ e ∈ exports, IsOneWord e.2) :
    (definitionOf v name exports).WellFormed := by
  -- Every piece of the text is whole characters by itself.
  have first : lead.WellFormed := by decide
  have line : WellFormed [newline] := by decide
  have marked : mark.WellFormed := by decide
  have space : WellFormed (ofString "package" ++ [0x20]) := by decide
  have package : (packageLine name).WellFormed := by
    have := space.append named.utf8
    rwa [List.append_assoc] at this
  have exported : WellFormed (exports.flatMap (exportWords · ++ [newline])) := by
    rw [List.flatMap_def]
    refine wellFormed_flatten (List.forall_mem_map.2 fun e he => ?_)
    exact wellFormed_exportWords (listed e he)
  rw [definitionOf_eq]
  exact (first.append utf8).append (line.append (line.append (marked.append (line.append
    (package.append (line.append (exported.append (marked.append line))))))))

/-! ## Lines before the export section -/

/-- The line ends what stands before the export section. -/
def isMark (line : Text) : Bool :=
  trimEnd line = mark || startsWith (trimEnd line) "$$B"

private theorem readBody_cons (info : ArchiveInfo) (line : Text) (rest : List Text) :
    readBody info (line :: rest) =
      if trimEnd line = mark then readExports info rest
      else if startsWith (trimEnd line) "$$B" then info else readBody info rest :=
  rfl

/-- The lines before the export section are passed over. -/
private theorem readBody_append {front : List Text} (plain : ∀ line ∈ front, isMark line = false)
    (info : ArchiveInfo) (rest : List Text) :
    readBody info (front ++ rest) = readBody info rest := by
  induction front with
  | nil => rfl
  | cons line front ih =>
    obtain ⟨first, others⟩ := List.forall_mem_cons.1 plain
    obtain ⟨other, binary⟩ := Bool.or_eq_false_iff.1 first
    rw [List.cons_append, readBody_cons, if_neg (of_decide_eq_false other),
      if_neg (Bool.eq_false_iff.1 binary), ih others]

/-- Behind a mark, the end of the export section is the last thing that is read. -/
private theorem readBody_marked {front : List Text} (marked : ∃ line ∈ front, isMark line = true)
    (info : ArchiveInfo) (rest rest' : List Text) :
    readBody info (front ++ mark :: rest) = readBody info (front ++ mark :: rest') := by
  induction front with
  | nil => simp at marked
  | cons line front ih =>
    rw [List.cons_append, List.cons_append, readBody_cons, readBody_cons,
      readExports_append_mark info front rest, readExports_append_mark info front rest']
    -- The section is opened by the mark or by the mark of binary exports, and ends at the last one.
    by_cases opens : trimEnd line = mark
    · rw [if_pos opens, if_pos opens]
    · by_cases binary : startsWith (trimEnd line) "$$B" = true
      · rw [if_pos binary, if_pos binary]
      · have other : isMark line = false := by
          rw [isMark, Bool.eq_false_iff.2 binary, Bool.or_false]
          exact decide_eq_false opens
        simp only [List.mem_cons, exists_eq_or_imp, other, Bool.false_eq_true, false_or] at marked
        rw [ih marked]

/-- No line behind the header changes the version. -/
private theorem version_readExports (info : ArchiveInfo) (l : List Text) :
    (readExports info l).version = info.version := by
  induction l generalizing info with
  | nil => rfl
  | cons line l ih =>
    rw [readExports_cons]
    split
    · rfl
    · rw [ih]
      unfold takeWords
      repeat' split
      all_goals rfl

private theorem version_readBody (info : ArchiveInfo) (l : List Text) :
    (readBody info l).version = info.version := by
  induction l with
  | nil => rfl
  | cons line l ih =>
    rw [readBody_cons]
    split
    · exact version_readExports info l
    · split
      · rfl
      · exact ih

/-! ## Versions in headers -/

/-- The header tells the first word of the version text, read as a version. -/
theorem headerVersion?_eq (line : Text) :
    headerVersion? (lead ++ line) = (words line).head?.bind Version.parse? := by
  have parts : lead = ofString "go object " ++ (ofString "linux amd64" ++ [0x20]) := by decide
  have system : words "linux amd64" = ["linux", "amd64"] := by decide
  have rest : stripPrefix? "go object " (lead ++ line) =
      some (ofString "linux amd64" ++ 0x20 :: line) := by
    rw [stripPrefix?_eq_some_iff, parts, List.append_assoc, List.append_assoc]
    rfl
  unfold headerVersion?
  rw [rest, Option.bind_eq_bind, Option.bind_some, words_append_cons rfl, system]
  cases words line <;> rfl

/-- The first line of the version text has a word, and not the one that announces a version. -/
def tells (v : Text) : Bool :=
  (words (headerLine v)).head?.any fun (w : Text) => w ≠ "devel"

/-- No line of the version text is taken for a mark. -/
def unmarked (v : Text) : Bool :=
  ! (looseLines v).any isMark

/-- The header tells a version iff the version text starts with it. -/
private theorem headerVersion?_of_parse? {version : Version}
    (accepted : Version.parse? v = some version) :
    headerVersion? (lead ++ dropReturn (headerLine v)) =
      if tells v then some version else none := by
  obtain ⟨later, whole, ends⟩ := exists_eq_headerLine_append v
  rw [headerVersion?_eq, words_dropReturn]
  unfold tells
  cases first : (words (headerLine v)).head? with
  | none => rfl
  | some w =>
    by_cases devel : w = "devel"
    · -- The word stands alone in the header, without the version that it announces.
      have refused : Version.parse? "devel" = none := by decide
      simp [devel, refused]
    · rw [whole] at accepted
      simp [devel, Version.parse?_first first devel ends accepted]

/-! ## Definitions in archives -/

/-- The definition is found in an archive of it. -/
private theorem read_build {body : Text} (small : FitsSize body) :
    read (build body) = .ok (readDefinition body) := by
  have fits : FitsHeader (definitionMember ++ "/") := by decide +kernel
  have named : dropSlashes (definitionMember ++ "/") = definitionMember := by decide
  have found := find_renderAll (l := [.plain (definitionMember ++ "/") body])
    (List.forall_mem_singleton.2 (Member.fits_plain fits small)) definitionMember
  rw [read, build, members_eq, List.map_singleton, found]
  simp [Member.plain, Member.title, named]

variable {exports : List (ExportKind × Text)}

private theorem readDefinition_definitionOf (utf8 : v.WellFormed) (named : IsOneWord name)
    (listed : ∀ e ∈ exports, IsOneWord e.2) :
    readDefinition (definitionOf v name exports) =
      readBody ⟨headerVersion? (lead ++ dropReturn (headerLine v)), none, .empty⟩
        (preamble v ++ mark :: (exportSection name exports ++ [mark])) := by
  rw [readDefinition, (wellFormed_definitionOf utf8 named listed).mended_eq,
    lines_definitionOf named listed]

private theorem any_isMark_preamble (v : Text) :
    (preamble v).any isMark = (looseLines v).any isMark := by
  have same : isMark ∘ dropReturn = isMark := by
    funext line
    rw [Function.comp, isMark, isMark, trimEnd_dropReturn]
  have blank : isMark [] = false := by decide
  rw [preamble, List.any_append, List.any_map, same]
  simp [blank]

private theorem foldl_takeWords (listed : ∀ e ∈ exports, IsOneWord e.2) (info : ArchiveInfo) :
    (exports.map (dropReturn <| exportWords ·)).foldl
        (fun info line => takeWords info (words line)) info =
      { info with exports := exports.foldl (fun d e => d.insert e.2 e.1) info.exports } := by
  induction exports generalizing info with
  | nil => rfl
  | cons e exports ih =>
    obtain ⟨first, others⟩ := List.forall_mem_cons.1 listed
    rw [List.map_cons, List.foldl_cons, words_dropReturn, exportWords,
      words_pair (isOneWord_keyword e.1) first, takeWords_keyword, ih others]
    rfl

/-- The export section of a definition is read as it was written. -/
private theorem readExports_definitionOf (named : IsOneWord name)
    (listed : ∀ e ∈ exports, IsOneWord e.2) (info : ArchiveInfo) :
    readExports info (exportSection name exports ++ [mark]) =
      { info with
        packageName := some name
        exports := exports.foldl (fun d e => d.insert e.2 e.1) info.exports } := by
  have package : words (dropReturn (packageLine name)) = [ofString "package", name] :=
    (words_dropReturn _).trans (words_pair isOneWord_package named)
  rw [exportSection, readExports_eq_foldl, List.foldl_cons, package, foldl_takeWords listed]
  · rfl
  · refine List.forall_mem_cons.2 ⟨trimEnd_ne_mark package, List.forall_mem_map.2 fun e he => ?_⟩
    have pair := words_pair (isOneWord_keyword e.1) (listed e he)
    exact trimEnd_ne_mark ((words_dropReturn _).trans pair)

/-- Where the version text has a mark, nothing is read of the package that follows it. -/
theorem readDefinition_of_marked {name' : Text} {exports' : List (ExportKind × Text)}
    (marked : unmarked v = false) (utf8 : v.WellFormed) (named : IsOneWord name)
    (named' : IsOneWord name') (listed : ∀ e ∈ exports, IsOneWord e.2)
    (listed' : ∀ e ∈ exports', IsOneWord e.2) :
    readDefinition (definitionOf v name exports) =
      readDefinition (definitionOf v name' exports') := by
  rw [unmarked, Bool.not_eq_false', ← any_isMark_preamble, List.any_eq_true] at marked
  rw [readDefinition_definitionOf utf8 named listed,
    readDefinition_definitionOf utf8 named' listed']
  exact readBody_marked marked _ _ _

/-- A package is read as it was written, and its version unless the header does not tell it. -/
theorem read_build_definitionOf {version : Version} (accepted : Version.parse? v = some version)
    (utf8 : v.WellFormed) (named : IsOneWord name) (listed : ∀ e ∈ exports, IsOneWord e.2)
    (small : FitsSize (definitionOf v name exports)) :
    ∃ info, read (build (definitionOf v name exports)) = .ok info ∧
      info.version = (if tells v then some version else none) ∧
      (unmarked v → info.packageName = some name ∧
        ∀ n, info.exports.get? n = (exports.reverse.find? (·.2 = n)).map Prod.fst) := by
  refine ⟨_, read_build small, ?_, fun plain => ?_⟩
  · -- Whatever lines the version text adds, they do not change what the header told.
    rw [readDefinition_definitionOf utf8 named listed, version_readBody,
      headerVersion?_of_parse? accepted]
  · have passed : ∀ line ∈ preamble v, isMark line = false := by
      rw [unmarked, Bool.not_eq_true', ← any_isMark_preamble] at plain
      simpa using plain
    have opens : trimEnd mark = mark := by decide
    have whole : readDefinition (definitionOf v name exports) =
        { version := headerVersion? (lead ++ dropReturn (headerLine v))
          packageName := some name
          exports := exports.foldl (fun d e => d.insert e.2 e.1) .empty } := by
      rw [readDefinition_definitionOf utf8 named listed, readBody_append passed, readBody_cons,
        if_pos opens, readExports_definitionOf named listed]
    rw [whole]
    exact ⟨rfl, get?_foldl_insert exports⟩

/-- White space and a word behind the version are not taken for a part of it, and of a name that is
given twice the last kind counts. -/
theorem read_build_experiments : ∃ info,
    read (build (definitionOf "go1.23rc1 X:none" "http"
      [(.func, "Handle"), (.type, "Handler"), (.var, "Handle")])) = .ok info ∧
    info.version = some ⟨1, 23⟩ ∧ info.packageName = some "http" ∧
    info.exports.get? "Handle" = some .var ∧ info.exports.get? "Handler" = some .type := by
  have named : IsOneWord "http" := ⟨by decide, by decide, by decide⟩
  have listed : ∀ e ∈ [(ExportKind.func, ofString "Handle"), (.type, "Handler"), (.var, "Handle")],
      IsOneWord e.2 := by
    refine List.forall_mem_cons.2 ⟨⟨by decide, by decide, by decide⟩, ?_⟩
    refine List.forall_mem_cons.2 ⟨⟨by decide, by decide, by decide⟩, ?_⟩
    exact List.forall_mem_singleton.2 ⟨by decide, by decide, by decide⟩
  have accepted : Version.parse? "go1.23rc1 X:none" = some ⟨1, 23⟩ := by decide
  obtain ⟨info, given, version, rest⟩ :=
    read_build_definitionOf accepted (by decide) named listed (by unfold FitsSize; decide)
  obtain ⟨package, kinds⟩ := rest (by decide)
  refine ⟨info, given, version.trans (if_pos (by decide)), package, ?_, ?_⟩
  · rw [kinds]
    decide
  · rw [kinds]
    decide

/-- A version of the next release is not read back: the header tells the word that announces it. -/
theorem read_build_devel :
    Version.parse? "devel go1.25-5f1a2b3c" = some ⟨1, 25⟩ ∧
    read (build (definitionOf "devel go1.25-5f1a2b3c" "http" [(.func, "Handle")])) =
      .ok ⟨none, some "http", Dict.empty.insert "Handle" .func⟩ := by
  refine ⟨by decide, ?_⟩
  rw [read_build (by unfold FitsSize; decide)]
  refine congrArg _ ?_
  decide +kernel

end Interlace.Archive
