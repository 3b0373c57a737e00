import Interlace.Proofs.Writing

/-!
# Where woven files go

A woven file goes over its source, or under the name of its source into an output folder. Either
way, whether it can be written does not depend on which other files of the package were written
before: sources that exist are overwritten in place, and files in one folder share the folders above
them.

## Key results

- `Disk.makeRoom_of_locate`: what a path names already has its folders
- `Path.parent?_join`: the files of a folder have one parent
- `Disk.writeWoven_of_read`: a source that can be read can be overwritten
- `Disk.writeWoven_after`: a file is written into a folder as if no other had been before
-/

namespace Interlace

/-! ## Pieces of joined texts -/

namespace Text

/-- Texts that are joined at a byte that none of them holds are the pieces. -/
private theorem splitWhere_join {b : UInt8} {l : List Text} (given : l ≠ [])
    (free : ∀ t ∈ l, b ∉ t) : splitWhere (· = b) (join [b] l) = l := by
  have uncut : ∀ t ∈ l, ∀ c ∈ t, decide (c = b) = false := by
    intro t ht c hc
    exact decide_eq_false fun same => free t ht (same ▸ hc)
  induction l with
  | nil => exact absurd rfl given
  | cons t l ih =>
    have here := uncut t List.mem_cons_self
    cases l with
    | nil => exact splitWhere_of_uncut here
    | cons u l =>
      rw [join, List.append_assoc, List.singleton_append, splitWhere_append here (by simp),
        ih (List.cons_ne_nil u l) (fun v hv => free v (List.mem_cons_of_mem t hv))
          fun v hv => uncut v (List.mem_cons_of_mem t hv)]

end Text

namespace Path

private theorem not_mem_of_mem_pieces {path piece : Text} (h : piece ∈ pieces path) :
    slash ∉ piece := by
  intro hb
  unfold pieces at h
  split at h <;> simpa using Text.not_cut_of_mem_splitWhere h hb

private theorem pieces_of_relative {path : Text} (h : isAbsolute path = false) :
    pieces path = Text.splitWhere (· = slash) path := by
  unfold pieces
  split
  · cases h
  · rfl

/-- The first piece of a relative path is empty only if the path is. -/
private theorem head?_pieces_ne {path : Text} (given : path ≠ []) (h : isAbsolute path = false) :
    (pieces path).head? ≠ some [] := by
  rw [pieces_of_relative h]
  cases path with
  | nil => exact absurd rfl given
  | cons b t =>
    have other : b ≠ slash := by
      rintro rfl
      cases h
    obtain ⟨piece, more, first⟩ :=
      List.exists_cons_of_ne_nil (Text.splitWhere_ne_nil (· = slash) t)
    rw [Text.splitWhere, first]
    simp [other]

/-- Pieces that do not start with an empty one are those of the path that they make. -/
private theorem pieces_join {body : List Text} (given : body ≠ []) (free : ∀ t ∈ body, slash ∉ t)
    (first : body.head? ≠ some []) :
    isAbsolute (Text.join [slash] body) = false ∧ pieces (Text.join [slash] body) = body := by
  -- The first piece is not empty, so the path does not start with a slash.
  have relative : isAbsolute (Text.join [slash] body) = false := by
    obtain ⟨piece, more, rfl⟩ := List.exists_cons_of_ne_nil given
    cases piece with
    | nil => exact absurd rfl first
    | cons b t =>
      have other : b ≠ slash := fun same => free _ List.mem_cons_self (same ▸ List.mem_cons_self)
      rw [Text.join_cons, List.cons_append]
      unfold isAbsolute
      split
      · rename_i same
        cases same
        exact absurd rfl other
      · rfl
  exact ⟨relative, by rw [pieces_of_relative relative, Text.splitWhere_join given free]⟩

/-- The last piece of a path that ends with a slash is empty. -/
private theorem pieces_of_endsWith {path : Text} (ends : Text.endsWith path "/") :
    ∃ front, pieces path = front ++ [[]] := by
  obtain ⟨rest, stripped⟩ := Option.isSome_iff_exists.1 ends
  have spelled : path = rest ++ [slash] := Text.stripSuffix?_eq_some_iff.1 stripped
  cases rest with
  | nil => exact ⟨[], by rw [spelled]; rfl⟩
  | cons b rest =>
    rw [spelled, List.cons_append]
    unfold pieces
    split
    · rename_i same
      cases same
      exact ⟨_, Text.splitWhere_append_cons (by simp) rest []⟩
    · exact ⟨_, Text.splitWhere_append_cons (by simp) (b :: rest) []⟩

/-! ## The folder of a file -/

private theorem dropSteps_one (l : List Text) (given : l ≠ []) :
    ∃ front, front ≠ [] ∧ l = front ++ dropSteps 1 l := by
  induction l with
  | nil => exact absurd rfl given
  | cons piece l ih =>
    rw [dropSteps]
    split
    · cases l with
      | nil => exact ⟨[piece], List.cons_ne_nil _ _, rfl⟩
      | cons next l =>
        obtain ⟨front, -, split⟩ := ih (List.cons_ne_nil next l)
        refine ⟨piece :: front, List.cons_ne_nil _ _, ?_⟩
        rw [List.cons_append, ← split]
    · exact ⟨[piece], List.cons_ne_nil _ _, by rw [dropSteps]; rfl⟩

/-- The pieces that make the parent of a path. -/
def above (path : Text) : List Text :=
  ((dropLastStep (pieces path)).reverse.dropWhile isIdle).reverse

/-- The pieces of the parent lead those of the path, and more follow. -/
private theorem pieces_eq_above (path : Text) :
    ∃ more, more ≠ [] ∧ pieces path = above path ++ more := by
  have reversed : (pieces path).reverse ≠ [] :=
    fun h => pieces_ne_nil path (List.reverse_eq_nil_iff.1 h)
  obtain ⟨front, given, split⟩ := dropSteps_one _ reversed
  have whole : pieces path = dropLastStep (pieces path) ++ front.reverse := by
    have := congrArg List.reverse split
    rwa [List.reverse_reverse, List.reverse_append] at this
  -- Between the parent and the last step there may be pieces that do not count.
  have kept : dropLastStep (pieces path) = above path ++
      ((dropLastStep (pieces path)).reverse.takeWhile isIdle).reverse := by
    unfold above
    rw [← List.reverse_append, List.takeWhile_append_dropWhile, List.reverse_reverse]
  refine ⟨((dropLastStep (pieces path)).reverse.takeWhile isIdle).reverse ++ front.reverse,
    ?_, ?_⟩
  · simp [given]
  · rw [← List.append_assoc, ← kept]
    exact whole

/-- How the parent of a path is written. -/
theorem parent?_eq_some {path folder : Text} (h : (parent? path).filter (· ≠ []) = some folder) :
    folder = (if isAbsolute path then slash :: Text.join [slash] (above path)
      else if (pieces path).head? = some "." ∧ above path = [] then "."
      else Text.join [slash] (above path)) ∧ folder ≠ [] := by
  obtain ⟨found, given⟩ := Option.filter_eq_some_iff.1 h
  refine ⟨?_, by simpa using given⟩
  unfold parent? at found
  split at found
  · cases found
  · cases found
  · cases found
    simp at given
  · dsimp only at found
    rw [← apply_ite some, ← apply_ite some] at found
    exact (Option.some.inj found).symm

end Path

namespace Disk

open Interlace.Path

/-- What a path names stands in a folder, and its parent names the folder. -/
private theorem isFolder_of_parent? {d : Disk} {path folder : Text} {location : Location}
    (found : d.locate path = .ok location)
    (parent : (parent? path).filter (· ≠ []) = some folder) : d.isFolder folder := by
  obtain ⟨spelled, given⟩ := parent?_eq_some parent
  obtain ⟨more, follows, split⟩ := pieces_eq_above path
  unfold locate at found
  split at found
  · cases found
  rename_i named
  -- What the parent names is passed on the way, and only folders are passed.
  rw [split, follow_append] at found
  obtain ⟨middle, reached, rest⟩ := bind_eq_ok_iff.1 found
  have stands : d.get? middle = some .folder := by
    obtain ⟨piece, others, rfl⟩ := List.exists_cons_of_ne_nil follows
    exact folder_of_follow_cons rest
  have free : ∀ t ∈ above path, slash ∉ t := by
    intro t ht
    have listed : t ∈ pieces path := split ▸ List.mem_append_left more ht
    exact not_mem_of_mem_pieces listed
  refine isFolder_iff.2 ⟨middle, ?_, stands⟩
  unfold locate
  rw [if_neg given]
  -- It is left to see that the parent is spelled so that it leads there.
  cases absolute : isAbsolute path with
  | true =>
    rw [absolute, if_pos rfl] at spelled reached
    subst spelled
    show d.follow [] (Text.splitWhere (· = slash) (Text.join [slash] (above path))) = _
    by_cases empty : above path = []
    · rw [empty] at reached ⊢
      cases reached
      exact follow_idle (by simp [Text.join, Text.splitWhere, isIdle]) stands
    · rw [Text.splitWhere_join empty free]
      exact reached
  | false =>
    rw [absolute] at spelled reached
    simp only [Bool.false_eq_true, if_false] at spelled reached
    split at spelled
    · -- The path starts with a dot, and its parent is the dot.
      rename_i dot
      subst spelled
      rw [dot.2] at reached
      cases reached
      exact follow_idle (by decide) stands
    · subst spelled
      have body : above path ≠ [] := by
        intro empty
        rw [empty] at given
        exact given rfl
      have first : (above path).head? ≠ some [] := by
        intro empty
        have head := head?_pieces_ne named absolute
        rw [split, List.head?_append, empty] at head
        exact head rfl
      obtain ⟨relative, same⟩ := pieces_join body free first
      rw [relative, same]
      exact reached

/-- What a path names already has its folders. -/
theorem makeRoom_of_locate {d : Disk} {path : Text} {location : Location}
    (found : d.locate path = .ok location) : d.makeRoom path = .ok d := by
  unfold makeRoom
  split
  · rfl
  · rename_i folder parent
    rw [createAll_of_isFolder (isFolder_of_parent? found parent)]

/-- A path that ends with a slash names a folder, if anything. -/
private theorem folder_of_endsWith {d : Disk} {path : Text} {location : Location}
    (ends : Text.endsWith path "/") (found : d.locate path = .ok location) :
    d.get? location = some .folder := by
  -- The last piece is empty, and only a folder can be passed.
  obtain ⟨front, split⟩ := pieces_of_endsWith ends
  unfold locate at found
  split at found
  · cases found
  · rw [split, follow_append] at found
    obtain ⟨middle, -, last⟩ := bind_eq_ok_iff.1 found
    have stands := folder_of_follow_cons last
    rw [follow_idle (by simp [isIdle]) stands] at last
    cases last
    exact stands

/-- A source that can be read can be overwritten. -/
theorem writeWoven_of_read {d : Disk} {path bytes : Text} (h : d.read path = .ok bytes)
    (text : Text) : (d.writeWoven path none text).map Prod.fst = .ok path := by
  obtain ⟨location, located, stands⟩ := locate_of_read h
  -- A path that ends with a slash names a folder, which cannot be read.
  have plain : Text.endsWith path "/" = false := by
    cases ends : Text.endsWith path "/" with
    | false => rfl
    | true =>
      rw [folder_of_endsWith ends located] at stands
      cases stands
  have written : d.write path text = .ok (d.set location (.file text)) :=
    write_eq_ok_iff.2 ⟨location, place_of_locate located, plain, by simp [stands], rfl⟩
  unfold writeWoven Path.shadow
  dsimp only
  rw [makeRoom_of_locate located]
  show ((d.writeFile path text >>= fun d => pure (path, d)).map Prod.fst) = _
  unfold writeFile
  rw [written]
  rfl

/-! ## Files in one folder -/

end Disk

namespace Path

/-- A text that can be the name of a file. -/
structure IsName (name : Text) : Prop where
  step : isIdle name = false
  down : name ≠ ".."
  free : slash ∉ name

private theorem IsName.ne_nil {name : Text} (h : IsName name) : name ≠ [] := by
  rintro rfl
  cases h.step

theorem IsName.relative {name : Text} (h : IsName name) : isAbsolute name = false := by
  unfold isAbsolute
  split
  · exact absurd List.mem_cons_self h.free
  · rfl

/-- The file name of a path is a name. -/
private theorem isName_of_fileName? {path name : Text} (h : fileName? path = some name) :
    IsName name := by
  unfold fileName? at h
  split at h
  · rename_i found last
    cases h
    have listed := List.mem_of_getLast? last
    unfold components at listed
    rcases List.mem_append.1 listed with lead | body
    · -- What leads a path is the root or a dot.
      unfold leading at lead
      split at lead
      · simp at lead
      · split at lead <;> simp at lead
    · obtain ⟨piece, kept, step⟩ := List.mem_map.1 body
      obtain ⟨inPath, busy⟩ := List.mem_filter.1 kept
      unfold stepOf at step
      split at step
      · cases step
      · rename_i down
        cases step
        exact ⟨by simpa using busy, down, not_mem_of_mem_pieces inPath⟩
  · cases h

theorem IsName.splitWhere {name : Text} (h : IsName name) :
    Text.splitWhere (· = slash) name = [name] := by
  refine Text.splitWhere_of_uncut fun c hc => decide_eq_false ?_
  rintro rfl
  exact h.free hc

/-- In a folder that is spelled at all, a slash is put before the name, or is there already. -/
private theorem exists_join_eq {directory : Text} (given : directory ≠ []) :
    ∃ lead, ∀ name, IsName name → join directory name = lead ++ slash :: name := by
  have joined {name : Text} (hn : IsName name) : join directory name =
      if Text.endsWith directory "/" then directory ++ name else directory ++ "/" ++ name := by
    unfold join
    rw [if_neg (Bool.eq_false_iff.1 hn.relative), if_neg given]
  -- A slash at the end of the folder is not doubled.
  cases ends : Text.endsWith directory "/" with
  | true =>
    obtain ⟨rest, stripped⟩ := Option.isSome_iff_exists.1 ends
    have spelled : directory = rest ++ [slash] := Text.stripSuffix?_eq_some_iff.1 stripped
    refine ⟨rest, fun name hn => ?_⟩
    rw [joined hn, if_pos ends, spelled, List.append_assoc]
    rfl
  | false =>
    refine ⟨directory, fun name hn => ?_⟩
    rw [joined hn, if_neg (Bool.eq_false_iff.1 ends)]
    exact List.append_assoc ..

/-- How the files of a folder are spelled: the pieces that all of them start with, and then their
names. -/
private theorem pieces_join_name (directory : Text) : ∃ (front : List Text) (absolute : Bool),
    ∀ name, IsName name → pieces (join directory name) = front ++ [name] ∧
      isAbsolute (join directory name) = absolute := by
  by_cases here : directory = []
  · refine ⟨[], false, fun name hn => ?_⟩
    have joined : join directory name = name := by
      unfold join
      rw [if_neg (Bool.eq_false_iff.1 hn.relative), if_pos here]
    rw [joined, pieces_of_relative hn.relative, hn.splitWhere]
    exact ⟨rfl, hn.relative⟩
  · obtain ⟨lead, joined⟩ := exists_join_eq here
    -- A slash at the start makes a path absolute, and is no part of its pieces.
    cases lead with
    | nil => exact ⟨[], true, fun name hn => by rw [joined name hn]; exact ⟨hn.splitWhere, rfl⟩⟩
    | cons b lead =>
      by_cases first : b = slash
      · refine ⟨Text.splitWhere (· = slash) lead, true, fun name hn => ?_⟩
        rw [joined name hn, first, ← hn.splitWhere]
        exact ⟨Text.splitWhere_append_cons (by simp) lead name, rfl⟩
      · refine ⟨Text.splitWhere (· = slash) (b :: lead), false, fun name hn => ?_⟩
        have relative : isAbsolute (b :: lead ++ slash :: name) = false := by
          unfold isAbsolute
          split
          · rename_i same
            cases same
            exact absurd rfl first
          · rfl
        rw [joined name hn, pieces_of_relative relative, ← hn.splitWhere]
        exact ⟨Text.splitWhere_append_cons (by simp) (b :: lead) name, relative⟩

/-- The parent of a path that ends with a name is made of the pieces before the name. -/
private theorem parent?_of_pieces {path name : Text} {front : List Text} (hn : IsName name)
    (split : pieces path = front ++ [name]) :
    parent? path =
      let body := (front.reverse.dropWhile isIdle).reverse
      if isAbsolute path then some (slash :: Text.join [slash] body)
      else if front.head? = some "." ∧ body = [] then some "."
      else some (Text.join [slash] body) := by
  have last : (components path).getLast? = some (.normal name) := by
    unfold components
    rw [split, List.filter_append, List.filter_cons_of_pos (by simp [hn.step]), List.filter_nil,
      List.map_append, ← List.append_assoc]
    simp [stepOf, hn.down]
  -- A name is a step of its own, so it is what is dropped.
  have dropped : dropLastStep (pieces path) = front := by
    unfold dropLastStep
    rw [split, List.reverse_append, List.reverse_singleton, List.singleton_append, dropSteps,
      if_neg (Bool.eq_false_iff.1 hn.step), dropSteps, List.reverse_reverse]
  have head : (pieces path).head? = some "." ↔ front.head? = some "." := by
    have other : name ≠ "." := by
      rintro rfl
      cases hn.step
    cases front with
    | nil => simp [split, other]
    | cons piece more => rw [split]; rfl
  unfold parent?
  rw [last]
  dsimp only
  rw [dropped]
  simp only [head]

/-- The files of a folder have one parent. -/
theorem parent?_join {directory name other : Text} (hn : IsName name) (ho : IsName other) :
    parent? (join directory name) = parent? (join directory other) := by
  obtain ⟨front, absolute, spelled⟩ := pieces_join_name directory
  rw [parent?_of_pieces hn (spelled name hn).1, parent?_of_pieces ho (spelled other ho).1,
    (spelled name hn).2, (spelled other ho).2]

end Path

namespace Disk

open Interlace.Path

/-- The files of a folder go to one location, each under its name. -/
private theorem place_join (directory : Text) : ∃ folder : Disk → Except DiskFault Location,
    ∀ d name, IsName name → Text.endsWith (join directory name) "/" = false ∧
      d.place (join directory name) = (folder d).map (· ++ [name]) := by
  obtain ⟨front, absolute, spelled⟩ := pieces_join_name directory
  -- A step that goes nowhere makes sure that there is a folder.
  refine ⟨fun d => d.follow (if absolute then [] else d.working) (front ++ [("." : Text)]),
    fun d name hn => ?_⟩
  obtain ⟨split, root⟩ := spelled name hn
  have plain : Text.endsWith (join directory name) "/" = false := by
    cases ends : Text.endsWith (join directory name) "/" with
    | false => rfl
    | true =>
      obtain ⟨other, last⟩ := pieces_of_endsWith ends
      rw [split] at last
      have same := congrArg List.getLast? last
      simp only [List.getLast?_concat, Option.some.injEq] at same
      exact absurd same hn.ne_nil
  have given : join directory name ≠ [] := by
    intro empty
    rw [empty] at split
    have same := congrArg List.getLast? split
    simp only [List.getLast?_concat] at same
    exact hn.ne_nil (Option.some.inj same).symm
  refine ⟨plain, ?_⟩
  rw [place_eq_locate plain]
  unfold locate
  dsimp only
  rw [if_neg given, root, split, follow_append, follow_append]
  cases d.follow (if absolute then [] else d.working) front with
  | error fault => rfl
  | ok middle =>
    have idle : isIdle "." := by decide
    show d.follow middle [name] = Except.map _ (d.follow middle [("." : Text)])
    simp only [follow, hn.step, idle]
    rcases d.get? middle with _ | ⟨contents | _⟩
    · rfl
    · rfl
    · simp [hn.down, Except.map]

/-- Whether a file can be written depends on where it goes and on what stands there. -/
private theorem writeFile_congr {d d' : Disk} {target : Text} {location : Location}
    (plain : Text.endsWith target "/" = false) (placed : d.place target = .ok location)
    (placed' : d'.place target = .ok location)
    (free : d'.get? location = some .folder ↔ d.get? location = some .folder) (text : Text) :
    (d'.writeFile target text).map (fun _ => target) =
      (d.writeFile target text).map fun _ => target := by
  -- The result names the target and the failure only, so the rest of the disk does not show.
  have run : ∀ e : Disk, e.place target = .ok location →
      (e.writeFile target text).map (fun _ => target) =
        if e.get? location = some .folder then .error (.ofDisk target .isFolder)
        else .ok target := by
    intro e found
    have written : e.write target text =
        if e.get? location = some .folder then .error .isFolder
        else .ok (e.set location (.file text)) := by
      unfold write
      rw [found, plain]
      dsimp only [bind, Except.bind]
      rcases e.get? location with _ | ⟨contents | _⟩ <;> rfl
    unfold writeFile
    rw [written]
    by_cases taken : e.get? location = some .folder
    · rw [if_pos taken, if_pos taken]
      rfl
    · rw [if_neg taken, if_neg taken]
      rfl
  rw [run d placed, run d' placed']
  simp only [free]

/-- A file is written into a folder as if no other had been before. -/
theorem writeWoven_after {d d' : Disk} {directory path first text target : Text}
    (before : d.writeWoven first (some directory) text = .ok (target, d')) (contents : Text) :
    (d'.writeWoven path (some directory) contents).map Prod.fst =
      (d.writeWoven path (some directory) contents).map Prod.fst := by
  obtain ⟨shadow, room, made, written⟩ := makeRoom_writeFile_of_writeWoven before
  obtain ⟨other, named, rfl⟩ : ∃ other, IsName other ∧ target = join directory other := by
    unfold Path.shadow at shadow
    dsimp only at shadow
    split at shadow
    · rename_i other found
      cases shadow
      exact ⟨other, isName_of_fileName? found, rfl⟩
    · cases shadow
  unfold writeWoven Path.shadow
  dsimp only
  cases found : fileName? path with
  | none => rfl
  | some name =>
    have hn := isName_of_fileName? found
    obtain ⟨location, placed, plain, free, rfl⟩ := write_eq_ok_iff.1 written
    have changes := set_file_changes free text
    -- Both files need the same room, and it is there once it was made.
    have made' : d.makeRoom (join directory name) = .ok room := by
      unfold makeRoom at made ⊢
      rwa [parent?_join hn named]
    have again := makeRoom_again made' changes
    obtain ⟨folder, goes⟩ := place_join directory
    obtain ⟨middle, reached, rfl⟩ : ∃ middle, folder room = .ok middle ∧
        location = middle ++ [other] := by
      rw [(goes room other named).2] at placed
      cases reached : folder room with
      | error fault =>
        rw [reached] at placed
        cases placed
      | ok middle =>
        rw [reached] at placed
        cases placed
        exact ⟨middle, rfl, rfl⟩
    have here : room.place (join directory name) = .ok (middle ++ [name]) := by
      rw [(goes room name hn).2, reached]
      rfl
    have below : middle ++ [other] ≠ [] := List.concat_ne_nil _ _
    have same := writeFile_congr (goes room name hn).1 here (place_of_changes changes here) (by
      rw [get?_set room below]
      split
      · rename_i eq
        rw [eq]
        exact ⟨nofun, fun h => absurd h free⟩
      · rfl) contents
    have target : ∀ x : Except Failure Disk,
        (x >>= fun d => pure (join directory name, d)).map Prod.fst =
          x.map fun _ => join directory name := by
      intro x
      cases x <;> rfl
    dsimp only
    rw [again, made']
    exact (target _).trans (same.trans (target _).symm)

end Disk

end Interlace
