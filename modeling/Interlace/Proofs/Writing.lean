import Interlace.Package.Output
import Interlace.Proofs.Folds
import Interlace.Text.Lemmas
import Mathlib.Data.List.Basic

/-!
# Writing to a disk

Writing a file replaces what stands at one location, and making room for it creates folders where
there was nothing. Folders stay folders and files stay files throughout, so a path that names a
location keeps naming it.

## Key results

- `Disk.Changes`: what writing files to some locations may change
- `Disk.locate_of_changes`: a path goes on to name its location
- `Disk.makeRoom_changes`, `Disk.write_changes`: what the steps of writing a file change
- `Disk.read_of_locate`: a file is read at the location that its path names
-/

namespace Interlace

/-! ## Pieces of paths -/

namespace Text

/-- The last piece of a text is empty only if the text is, or ends with a cut. -/
private theorem eq_concat_of_getLast?_splitWhere {b : UInt8} {t : Text}
    (h : (splitWhere (· = b) t).getLast? = some []) : t = [] ∨ ∃ s, t = s ++ [b] := by
  induction t with
  | nil => exact .inl rfl
  | cons c t ih =>
    right
    rw [splitWhere] at h
    split at h
    · rename_i absent
      exact absurd absent (splitWhere_ne_nil _ t)
    · rename_i piece pieces eq
      rw [eq] at ih
      split at h
      · -- A cut starts a new piece, so what is last is last in the rest.
        rename_i cut
        rw [List.getLast?_cons_cons] at h
        rcases ih h with rfl | ⟨s, rfl⟩
        · exact ⟨[], by simpa using cut⟩
        · exact ⟨c :: s, rfl⟩
      · cases pieces with
        | nil => simp at h
        | cons next pieces =>
          rw [List.getLast?_cons_cons] at h
          rcases ih (by rwa [List.getLast?_cons_cons]) with rfl | ⟨s, rfl⟩
          · cases eq
          · exact ⟨c :: s, rfl⟩

end Text

namespace Path

/-- A path has pieces. -/
theorem pieces_ne_nil (path : Text) : pieces path ≠ [] := by
  unfold pieces
  split <;> exact Text.splitWhere_ne_nil _ _

/-- The last piece of a path is empty only if the path is, or ends with a slash. -/
private theorem endsWith_of_getLast?_pieces {path : Text} (h : (pieces path).getLast? = some []) :
    path = [] ∨ Text.endsWith path "/" := by
  have ends : ∀ s : Text, Text.endsWith (s ++ [slash]) "/" := by
    intro s
    have stripped : Text.stripSuffix? "/" (s ++ [slash]) = some s :=
      Text.stripSuffix?_eq_some_iff.2 rfl
    rw [Text.endsWith, stripped]
    rfl
  -- A leading slash is no cut between pieces, so it is looked at first.
  unfold pieces at h
  split at h
  · rename_i t
    rcases Text.eq_concat_of_getLast?_splitWhere h with rfl | ⟨s, rfl⟩
    · exact .inr (ends [])
    · exact .inr (ends (slash :: s))
  · rcases Text.eq_concat_of_getLast?_splitWhere h with rfl | ⟨s, rfl⟩
    · exact .inl rfl
    · exact .inr (ends s)

/-- Behind the pieces that count there are only idle ones. -/
private theorem pieces_eq_append (pieces : List Text) :
    ∃ dropped, pieces = (pieces.reverse.dropWhile (· = [])).reverse ++ dropped ∧
      ∀ piece ∈ dropped, isIdle piece := by
  refine ⟨(pieces.reverse.takeWhile (· = [])).reverse, ?_, ?_⟩
  · rw [← List.reverse_append, List.takeWhile_append_dropWhile, List.reverse_reverse]
  · intro piece hm
    have empty := List.all_eq_true.1 List.all_takeWhile piece (List.mem_reverse.1 hm)
    simp only [decide_eq_true_eq] at empty
    simp [isIdle, empty]

end Path

namespace Disk

/-! ## Locations -/

/-- After an entry is put somewhere else than at the root, it stands there, and everything else is
as before. -/
theorem get?_set (d : Disk) {location : Location} (h : location ≠ []) (entry : Entry)
    (other : Location) :
    (d.set location entry).get? other =
      if other = location then some entry else d.get? other := by
  unfold get? set
  by_cases root : other = []
  · rw [if_pos root, if_pos root, if_neg fun same : other = location => h (same ▸ root)]
  · rw [if_neg root, if_neg root]
    by_cases same : other = location
    · simp [same]
    · rw [if_neg same, List.find?_cons_of_neg (by simpa using Ne.symm same), List.find?_filter]
      congr 2
      funext e
      by_cases found : e.1 = other <;> simp [found, same]

theorem follow_append (d : Disk) (start : Location) (pieces more : List Text) :
    d.follow start (pieces ++ more) = d.follow start pieces >>= (d.follow · more) := by
  induction pieces generalizing start with
  | nil => rfl
  | cons piece pieces ih =>
    rw [List.cons_append, follow, follow]
    split
    · rfl
    · rfl
    · split
      · exact ih start
      · split
        · exact ih _
        · exact ih _

/-- Idle pieces lead nowhere else, as long as they are below a folder. -/
theorem follow_idle {d : Disk} {start : Location} {pieces : List Text}
    (idle : ∀ piece ∈ pieces, Path.isIdle piece) (h : d.get? start = some .folder) :
    d.follow start pieces = .ok start := by
  induction pieces with
  | nil => rfl
  | cons piece pieces ih =>
    have here := idle piece List.mem_cons_self
    rw [follow, h]
    simp only [here, if_true]
    exact ih fun p hp => idle p (List.mem_cons_of_mem piece hp)

/-- What is passed on the way is a folder. -/
theorem folder_of_follow_cons {d : Disk} {start location : Location} {piece : Text}
    {pieces : List Text} (h : d.follow start (piece :: pieces) = .ok location) :
    d.get? start = some .folder := by
  rw [follow] at h
  split at h
  · cases h
  · cases h
  · rename_i folder
    exact folder

/-- A path that does not end with a slash puts something new where it looks for something. -/
theorem place_eq_locate {path : Text} (h : Text.endsWith path "/" = false) (d : Disk) :
    d.place path = d.locate path := by
  unfold place locate
  by_cases empty : path = []
  · rw [if_pos empty, if_pos empty]
  · rw [if_neg empty, if_neg empty]
    -- The last piece is not empty, so no piece is dropped.
    have last : (Path.pieces path).getLast? ≠ some [] := by
      intro nothing
      rcases Path.endsWith_of_getLast?_pieces nothing with rfl | ends
      · exact empty rfl
      · rw [ends] at h
        cases h
    have kept : ((Path.pieces path).reverse.dropWhile (· = [])).reverse = Path.pieces path := by
      cases reversed : (Path.pieces path).reverse with
      | nil =>
        rw [List.reverse_eq_nil_iff] at reversed
        rw [reversed]
        rfl
      | cons piece rest =>
        have first : piece ≠ [] := by
          rintro rfl
          rw [List.reverse_eq_cons_iff] at reversed
          rw [reversed, List.getLast?_concat] at last
          exact last rfl
        rw [List.dropWhile_cons_of_neg (by simpa using first), ← reversed, List.reverse_reverse]
    dsimp only
    rw [kept]

/-- Where slashes at the end do not count, a path that names something puts it there. -/
theorem place_of_locate {d : Disk} {path : Text} {location : Location}
    (h : d.locate path = .ok location) : d.place path = .ok location := by
  unfold locate at h
  unfold place
  split at h
  · cases h
  · rename_i given
    rw [if_neg given]
    dsimp only
    -- The pieces that do not count stay in the folder where they start.
    obtain ⟨dropped, split, idle⟩ := Path.pieces_eq_append (Path.pieces path)
    rw [split, follow_append] at h
    obtain ⟨middle, first, rest⟩ := bind_eq_ok_iff.1 h
    cases dropped with
    | nil =>
      cases rest
      exact first
    | cons piece dropped =>
      rw [follow_idle idle (folder_of_follow_cons rest)] at rest
      cases rest
      exact first

/-! ## Changes -/

/-- What may change when files are written to some locations: the files there, and folders where
there was nothing. -/
structure Changes (touched : Location → Prop) (d d' : Disk) : Prop where
  working : d'.working = d.working
  folder : ∀ location, d.get? location = some .folder → d'.get? location = some .folder
  file : ∀ location contents, d.get? location = some (.file contents) →
    ∃ later, d'.get? location = some (.file later)
  frame : ∀ location, ¬ touched location → d'.get? location = d.get? location ∨
    d.get? location = none ∧ d'.get? location = some .folder

namespace Changes

variable {touched also : Location → Prop} {d d' d'' : Disk}

theorem refl (touched : Location → Prop) (d : Disk) : Changes touched d d :=
  ⟨rfl, fun _ h => h, fun _ contents h => ⟨contents, h⟩, fun _ _ => .inl rfl⟩

theorem trans (h : Changes touched d d') (h' : Changes touched d' d'') :
    Changes touched d d'' where
  working := h'.working.trans h.working
  folder location found := h'.folder location (h.folder location found)
  file location contents found := by
    obtain ⟨later, found'⟩ := h.file location contents found
    exact h'.file location later found'
  frame location untouched := by
    rcases h.frame location untouched with same | ⟨absent, made⟩
    · rw [← same]
      exact h'.frame location untouched
    · exact .inr ⟨absent, h'.folder location made⟩

theorem mono (h : Changes touched d d') (more : ∀ location, touched location → also location) :
    Changes also d d' :=
  ⟨h.working, h.folder, h.file, fun location untouched =>
    h.frame location fun here => untouched (more location here)⟩

end Changes

section

variable {touched : Location → Prop} {d d' : Disk}

private theorem follow_of_changes (h : Changes touched d d') {start location : Location}
    {pieces : List Text} (found : d.follow start pieces = .ok location) :
    d'.follow start pieces = .ok location := by
  induction pieces generalizing start with
  | nil => exact found
  | cons piece pieces ih =>
    -- What was passed is a folder, and folders stay.
    have folder := folder_of_follow_cons found
    rw [follow, folder] at found
    rw [follow, h.folder start folder]
    dsimp only at found ⊢
    split
    · rename_i idle
      rw [if_pos idle] at found
      exact ih found
    · rename_i step
      rw [if_neg step] at found
      split
      · rename_i up
        rw [if_pos up] at found
        exact ih found
      · rename_i down
        rw [if_neg down] at found
        exact ih found

/-- A path goes on to name its location. -/
theorem locate_of_changes (h : Changes touched d d') {path : Text} {location : Location}
    (found : d.locate path = .ok location) : d'.locate path = .ok location := by
  unfold locate at found ⊢
  split at found
  · cases found
  · rename_i given
    rw [if_neg given, h.working]
    exact follow_of_changes h found

theorem place_of_changes (h : Changes touched d d') {path : Text} {location : Location}
    (found : d.place path = .ok location) : d'.place path = .ok location := by
  unfold place at found ⊢
  split at found
  · cases found
  · rename_i given
    rw [if_neg given, h.working]
    exact follow_of_changes h found

/-- An entry is found at the location that its path names. -/
theorem lookup_eq_ok_iff {path : Text} {location : Location} {entry : Entry} :
    d.lookup path = .ok (location, entry) ↔
      d.locate path = .ok location ∧ d.get? location = some entry := by
  unfold lookup
  rw [bind_eq_ok_iff]
  constructor
  · rintro ⟨found, located, h⟩
    split at h
    · rename_i stands
      cases h
      exact ⟨located, stands⟩
    · cases h
  · rintro ⟨located, stands⟩
    exact ⟨location, located, by simp only [stands]⟩

/-- A file is read at the location that its path names. -/
theorem read_of_locate {path contents : Text} {location : Location}
    (found : d.locate path = .ok location) (entry : d.get? location = some (.file contents)) :
    d.read path = .ok contents := by
  unfold read
  rw [lookup_eq_ok_iff.2 ⟨found, entry⟩]
  rfl

/-- What is read stands at the location that the path names. -/
theorem locate_of_read {path contents : Text} (h : d.read path = .ok contents) :
    ∃ location, d.locate path = .ok location ∧ d.get? location = some (.file contents) := by
  unfold read at h
  obtain ⟨⟨location, entry⟩, named, h⟩ := bind_eq_ok_iff.1 h
  cases entry with
  | file written =>
    cases h
    exact ⟨location, lookup_eq_ok_iff.1 named⟩
  | folder => cases h

/-- What can be read can be read after a change, perhaps with other contents. -/
theorem read_of_changes (h : Changes touched d d') {path contents : Text}
    (found : d.read path = .ok contents) : ∃ later, d'.read path = .ok later := by
  obtain ⟨location, located, stands⟩ := locate_of_read found
  obtain ⟨later, stands'⟩ := h.file location contents stands
  exact ⟨later, read_of_locate (locate_of_changes h located) stands'⟩

end

/-! ## Folders -/

theorem isFolder_iff {d : Disk} {path : Text} :
    d.isFolder path ↔ ∃ location, d.locate path = .ok location ∧
      d.get? location = some .folder := by
  unfold isFolder
  constructor
  · intro h
    split at h
    · rename_i location named
      exact ⟨location, lookup_eq_ok_iff.1 named⟩
    · cases h
  · rintro ⟨location, found⟩
    rw [lookup_eq_ok_iff.2 found]

private theorem isFolder_of_changes {touched : Location → Prop} {d d' : Disk}
    (h : Changes touched d d') {path : Text} (folder : d.isFolder path) : d'.isFolder path := by
  obtain ⟨location, located, stands⟩ := isFolder_iff.1 folder
  exact isFolder_iff.2 ⟨location, locate_of_changes h located, h.folder location stands⟩

/-- What a step that creates a folder did, if it came to an end. -/
private theorem createFolder_eq_ok {d d' : Disk} {path : Text} (h : d.createFolder path = .ok d') :
    ∃ location, d.place path = .ok location ∧ d.get? location = none ∧
      d' = d.set location .folder := by
  unfold createFolder at h
  obtain ⟨location, placed, h⟩ := bind_eq_ok_iff.1 h
  split at h
  · cases h
  · rename_i absent
    cases h
    exact ⟨location, placed, absent, rfl⟩

/-- A folder that is made where there was nothing changes nothing else. -/
private theorem set_folder_changes {d : Disk} {location : Location}
    (absent : d.get? location = none) : Changes (fun _ => False) d (d.set location .folder) := by
  -- The place is not the root, which is always there.
  have below : location ≠ [] := by
    rintro rfl
    cases absent
  refine ⟨rfl, ?_, ?_, ?_⟩
  · intro other stands
    rw [get?_set d below]
    split
    · rfl
    · exact stands
  · intro other contents stands
    rw [get?_set d below, if_neg]
    · exact ⟨contents, stands⟩
    · rintro rfl
      rw [absent] at stands
      cases stands
  · intro other _
    rw [get?_set d below]
    split
    · rename_i same
      exact .inr ⟨same ▸ absent, rfl⟩
    · exact .inl rfl

/-- After a folder was created, its path names it. -/
private theorem isFolder_of_createFolder {d d' : Disk} {path : Text}
    (h : d.createFolder path = .ok d') : d'.isFolder path := by
  obtain ⟨location, placed, absent, rfl⟩ := createFolder_eq_ok h
  have below : location ≠ [] := by
    rintro rfl
    cases absent
  have here : (d.set location .folder).get? location = some .folder := by
    rw [get?_set d below, if_pos rfl]
  refine isFolder_iff.2 ⟨location, ?_, here⟩
  -- Making it changed nothing on the way, so its path still leads there.
  have placed' := place_of_changes (set_folder_changes absent) placed
  unfold place at placed'
  unfold locate
  split at placed'
  · cases placed'
  · rename_i given
    rw [if_neg given]
    obtain ⟨dropped, split, idle⟩ := Path.pieces_eq_append (Path.pieces path)
    rw [split, follow_append]
    exact bind_eq_ok_iff.2 ⟨location, placed', follow_idle idle here⟩

/-- A folder that exists is not created again. -/
private theorem ensureFolder_of_isFolder {d : Disk} {path : Text} (h : d.isFolder path) :
    d.ensureFolder path = .ok d := by
  obtain ⟨location, located, stands⟩ := isFolder_iff.1 h
  have refused : d.createFolder path = .error .exists := by
    simp only [createFolder, place_of_locate located, bind, Except.bind, stands]
  unfold ensureFolder
  rw [refused]
  dsimp only
  rw [if_pos h]

private theorem ensureFolder_eq_ok {d d' : Disk} {path : Text} (h : d.ensureFolder path = .ok d') :
    Changes (fun _ => False) d d' ∧ d'.isFolder path := by
  unfold ensureFolder at h
  split at h
  · rename_i made created
    cases h
    obtain ⟨location, -, absent, rfl⟩ := createFolder_eq_ok created
    exact ⟨set_folder_changes absent, isFolder_of_createFolder created⟩
  · split at h
    · rename_i folder
      cases h
      exact ⟨.refl _ d, folder⟩
    · cases h

private theorem createFolders_eq_ok {fuel : Nat} {d d' : Disk} {path : Text}
    (h : createFolders fuel d path = .ok d') :
    Changes (fun _ => False) d d' ∧ (path ≠ [] → d'.isFolder path) := by
  induction fuel generalizing d d' path with
  | zero =>
    obtain ⟨changes, folder⟩ := ensureFolder_eq_ok h
    exact ⟨changes, fun _ => folder⟩
  | succ fuel ih =>
    rw [createFolders] at h
    split at h
    · rename_i empty
      cases h
      exact ⟨.refl _ d, fun given => absurd empty given⟩
    · split at h
      · rename_i made ensured
        cases h
        obtain ⟨changes, folder⟩ := ensureFolder_eq_ok ensured
        exact ⟨changes, fun _ => folder⟩
      · split at h
        · cases h
        · -- The folder above was missing.
          obtain ⟨between, above, here⟩ := bind_eq_ok_iff.1 h
          obtain ⟨changes, -⟩ := ih above
          obtain ⟨more, folder⟩ := ensureFolder_eq_ok here
          exact ⟨changes.trans more, fun _ => folder⟩
      · cases h

theorem createAll_of_isFolder {d : Disk} {path : Text} (h : d.isFolder path) :
    d.createAll path = .ok d := by
  unfold createAll
  cases (Path.components path).length with
  | zero => exact ensureFolder_of_isFolder h
  | succ fuel =>
    rw [createFolders, ensureFolder_of_isFolder h]
    dsimp only
    split <;> rfl

/-! ## Files -/

/-- Making room for a file creates folders only. -/
theorem makeRoom_changes {d d' : Disk} {target : Text} (h : d.makeRoom target = .ok d') :
    Changes (fun _ => False) d d' := by
  unfold makeRoom at h
  split at h
  · cases h
    exact .refl _ d
  · split at h
    · rename_i made created
      cases h
      exact (createFolders_eq_ok created).1
    · cases h

/-- There is room for a file where there was made room before. -/
theorem makeRoom_again {touched : Location → Prop} {d d' later : Disk} {target : Text}
    (h : d.makeRoom target = .ok d') (since : Changes touched d' later) :
    later.makeRoom target = .ok later := by
  unfold makeRoom at h ⊢
  split at h
  · rfl
  · rename_i folder found
    have given : folder ≠ [] := by
      have := (Option.filter_eq_some_iff.1 found).2
      simpa using this
    split at h
    · rename_i made created
      cases h
      -- The folder that was made is still there, so nothing has to be created.
      have stands := (createFolders_eq_ok created).2 given
      rw [createAll_of_isFolder (isFolder_of_changes since stands)]
    · cases h

/-- What a step that writes a file did, if it came to an end. -/
theorem write_eq_ok_iff {d d' : Disk} {path contents : Text} :
    d.write path contents = .ok d' ↔ ∃ location, d.place path = .ok location ∧
      Text.endsWith path "/" = false ∧ d.get? location ≠ some .folder ∧
        d' = d.set location (.file contents) := by
  unfold write
  rw [bind_eq_ok_iff]
  refine exists_congr fun location => and_congr_right fun _ => ?_
  cases Text.endsWith path "/" with
  | true => simp
  | false =>
    rcases entry : d.get? location with _ | ⟨written | _⟩ <;> simp [eq_comm]

/-- A file is written at one location, and nothing else changes. -/
theorem set_file_changes {d : Disk} {location : Location}
    (free : d.get? location ≠ some .folder) (contents : Text) :
    Changes (· = location) d (d.set location (.file contents)) := by
  have below : location ≠ [] := by
    rintro rfl
    exact free rfl
  refine ⟨rfl, ?_, ?_, ?_⟩
  · intro other stands
    rw [get?_set d below, if_neg]
    · exact stands
    · rintro rfl
      exact free stands
  · intro other written stands
    rw [get?_set d below]
    split
    · exact ⟨contents, rfl⟩
    · exact ⟨written, stands⟩
  · intro other apart
    rw [get?_set d below, if_neg apart]
    exact .inl rfl

/-- Writing a file puts its contents at the location that its path names afterwards. -/
theorem write_changes {d d' : Disk} {path contents : Text} (h : d.write path contents = .ok d') :
    ∃ location, d'.locate path = .ok location ∧ d'.get? location = some (.file contents) ∧
      Changes (· = location) d d' := by
  obtain ⟨location, placed, plain, free, rfl⟩ := write_eq_ok_iff.1 h
  have changes := set_file_changes free contents
  have below : location ≠ [] := by
    rintro rfl
    exact free rfl
  rw [place_eq_locate plain] at placed
  refine ⟨location, locate_of_changes changes placed, ?_, changes⟩
  rw [get?_set d below, if_pos rfl]

theorem makeRoom_writeFile_of_writeWoven {d d' : Disk} {path text target : Text}
    {outputDir : Option Text} (h : d.writeWoven path outputDir text = .ok (target, d')) :
    Path.shadow path outputDir = .ok target ∧ ∃ room, d.makeRoom target = .ok room ∧
      room.write target text = .ok d' := by
  unfold writeWoven at h
  split at h
  · cases h
  · rename_i found shadow
    obtain ⟨room, made, h⟩ := bind_eq_ok_iff.1 h
    obtain ⟨last, written, h⟩ := bind_eq_ok_iff.1 h
    cases h
    refine ⟨shadow, room, made, ?_⟩
    unfold writeFile at written
    split at written
    · rename_i ok
      cases written
      exact ok
    · cases written

/-- Writing a woven file puts it at the location that its target names afterwards. -/
theorem writeWoven_changes {d d' : Disk} {path text target : Text} {outputDir : Option Text}
    (h : d.writeWoven path outputDir text = .ok (target, d')) :
    ∃ location, d'.locate target = .ok location ∧ d'.get? location = some (.file text) ∧
      Changes (· = location) d d' := by
  obtain ⟨-, room, made, written⟩ := makeRoom_writeFile_of_writeWoven h
  obtain ⟨location, located, stands, changes⟩ := write_changes written
  exact ⟨location, located, stands, ((makeRoom_changes made).mono nofun).trans changes⟩

end Disk

end Interlace
