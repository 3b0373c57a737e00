import Interlace.Dict.Lemmas
import Interlace.Package.Injector
import Interlace.Proofs.BuiltReferences
import Mathlib.Data.List.Perm.Basic

/-!
# References of several files

The references of a package are those of its files, merged. Each of the three collections of a
`ReferenceMap` is joined key by key: the stronger demand, the names of both, the expressions of
both. So merging is the least upper bound in the order in which demands only grow, and it does not
matter in which order files are merged.

## Key results

- `Dict.get?_joinWith`: dictionaries are joined key by key
- `ReferenceMap.merge_eq`: merging joins the three collections
- `ReferenceMap.Built.demands`: what has a name to be imported by is demanded as an import
- `ReferenceMap.grows_apply`: no change lowers a demand or takes anything away
- `ReferenceMap.merge_orderless`: the laws of merging, and what follows for packages
-/

namespace Interlace

/-! ## Joining dictionaries -/

namespace Dict

variable {α : Type} {f : α → α → α} {key : Text}

/-- The entries of both dictionaries; `f` joins the values of a key that both have. -/
def joinWith (f : α → α → α) (d e : Dict α) : Dict α :=
  e.entries.foldl (fun d x => d.alter x.1 fun present => (present.map (f · x.2)).getD x.2) d

/-- Joining a list of entries changes the value of a key once at most. -/
private theorem get?_foldl_alter {l : List (Text × α)} (ascending : Ascending l) (d : Dict α) :
    (l.foldl (fun d x => d.alter x.1 fun present => (present.map (f · x.2)).getD x.2) d).get? key =
      Option.merge f (d.get? key) ((l.find? (·.1 = key)).map Prod.snd) := by
  induction l generalizing d with
  | nil => exact Option.merge_none_right.symm
  | cons x l ih =>
    obtain ⟨first, rest⟩ := List.pairwise_cons.1 ascending
    rw [List.foldl_cons, ih rest, get?_alter, List.find?_cons]
    by_cases here : x.1 = key
    · -- The keys ascend, so the key does not occur again.
      have absent : l.find? (·.1 = key) = none := by
        refine List.find?_eq_none.2 fun y hy same => ?_
        have less := first y hy
        rw [here, of_decide_eq_true same] at less
        exact List.lt_irrefl _ less
      subst here
      rw [if_pos rfl, absent]
      cases d.get? x.1 <;> simp
    · rw [if_neg here, decide_eq_false here]

/-- Dictionaries are joined key by key. -/
theorem get?_joinWith (d e : Dict α) :
    (d.joinWith f e).get? key = Option.merge f (d.get? key) (e.get? key) :=
  get?_foldl_alter e.ascending d

private theorem joinWith_comm [Std.Commutative f] (d e : Dict α) :
    d.joinWith f e = e.joinWith f d :=
  ext_get? fun key => by
    rw [get?_joinWith, get?_joinWith]
    exact (Option.commutative_merge f).comm _ _

private theorem joinWith_assoc [Std.Associative f] (d e c : Dict α) :
    (d.joinWith f e).joinWith f c = d.joinWith f (e.joinWith f c) :=
  ext_get? fun key => by
    simp only [get?_joinWith]
    exact (Option.associative_merge f).assoc _ _ _

private theorem joinWith_self [Std.IdempotentOp f] (d : Dict α) : d.joinWith f d = d :=
  ext_get? fun key => by
    rw [get?_joinWith]
    exact (Option.idempotentOp_merge f).idempotent _

private theorem empty_joinWith (d : Dict α) : (empty : Dict α).joinWith f d = d :=
  ext_get? fun key => by
    rw [get?_joinWith]
    exact Option.merge_none_left

end Dict

/-! ## Sets and demands -/

instance : Std.Commutative ReferenceKind.max := ⟨fun a b => by cases a <;> cases b <;> rfl⟩

instance : Std.Associative ReferenceKind.max := ⟨fun a b c => by cases a <;> cases b <;> rfl⟩

instance : Std.IdempotentOp ReferenceKind.max := ⟨fun a => by cases a <;> rfl⟩

namespace TextSet

variable {s t u : TextSet} {text : Text}

/-- A union is a join; there is only one value to join. -/
private theorem union_eq (s t : TextSet) : s.union t = s.joinWith (fun _ _ => ()) t := by
  rw [union, toList, Dict.keys, List.foldl_map]
  rfl

instance : Std.Commutative union := ⟨fun s t => by
  rw [union_eq, union_eq]
  have : Std.Commutative fun _ _ : Unit => () := ⟨fun _ _ => rfl⟩
  exact Dict.joinWith_comm s t⟩

instance : Std.Associative union := ⟨fun s t u => by
  simp only [union_eq]
  have : Std.Associative fun _ _ : Unit => () := ⟨fun _ _ _ => rfl⟩
  exact Dict.joinWith_assoc s t u⟩

instance : Std.IdempotentOp union := ⟨fun s => by
  rw [union_eq]
  have : Std.IdempotentOp fun _ _ : Unit => () := ⟨fun _ => rfl⟩
  exact Dict.joinWith_self s⟩

private theorem empty_union (s : TextSet) : TextSet.union .empty s = s :=
  (union_eq .empty s).trans (Dict.empty_joinWith s)

/-- The members of a union are those of either set. -/
theorem mem_union_iff : text ∈ (s.union t).toList ↔ text ∈ s.toList ∨ text ∈ t.toList := by
  rw [mem_toList_iff, mem_toList_iff, mem_toList_iff, union_eq, Dict.get?_joinWith]
  cases s.get? text <;> cases t.get? text <;> simp

end TextSet

namespace ReferenceMap

variable {kind : Text → Prop} {m m' m'' other : ReferenceMap} {path wanted expression : Text}

/-! ## Merging -/

/-- Merging joins the three collections. -/
theorem merge_eq (m other : ReferenceMap) :
    m.merge other =
      ⟨m.entries.joinWith .max other.entries, m.aliases.joinWith .union other.aliases,
        m.keepAlive.union other.keepAlive⟩ := by
  -- An entry that is absent is the empty set, which adds nothing.
  have named : (fun (d : Dict TextSet) (x : Text × TextSet) =>
        d.alter x.1 fun present => (present.getD .empty).union x.2) =
      fun d x => d.alter x.1 fun present => (present.map (TextSet.union · x.2)).getD x.2 := by
    funext d x
    congr 1
    funext present
    cases present with
    | none => exact TextSet.empty_union x.2
    | some names => rfl
  have aliases : (m.merge other).aliases = m.aliases.joinWith .union other.aliases :=
    congrArg (other.aliases.entries.foldl · m.aliases) named
  rw [← aliases]
  rfl

private theorem merge_comm (a b : ReferenceMap) : a.merge b = b.merge a := by
  rw [merge_eq, merge_eq, Dict.joinWith_comm, Dict.joinWith_comm a.aliases,
    @Std.Commutative.comm _ TextSet.union _ a.keepAlive]

private theorem merge_assoc (a b c : ReferenceMap) : (a.merge b).merge c = a.merge (b.merge c) := by
  simp only [merge_eq]
  rw [Dict.joinWith_assoc, Dict.joinWith_assoc a.aliases,
    @Std.Associative.assoc _ TextSet.union _ a.keepAlive]

private theorem merge_self (a : ReferenceMap) : a.merge a = a := by
  rw [merge_eq, Dict.joinWith_self, Dict.joinWith_self,
    @Std.IdempotentOp.idempotent _ TextSet.union]

private theorem merge_empty (a : ReferenceMap) : a.merge .empty = a := rfl

private theorem empty_merge (a : ReferenceMap) : ReferenceMap.empty.merge a = a :=
  (merge_comm _ _).trans (merge_empty a)

/-- References merged in another order are the same. -/
private theorem foldl_merge_perm {maps maps' : List ReferenceMap} (same : maps.Perm maps')
    (m : ReferenceMap) : maps.foldl merge m = maps'.foldl merge m := by
  have swap : RightCommutative merge :=
    ⟨fun m a b => by rw [merge_assoc, merge_assoc, merge_comm a]⟩
  exact same.foldl_eq m

/-! ## Names -/

private theorem mem_imports_merge :
    (path, wanted) ∈ (m.merge other).imports ↔
      (path, wanted) ∈ m.imports ∨ (path, wanted) ∈ other.imports := by
  rw [mem_imports_iff, mem_imports_iff, mem_imports_iff, merge_eq, Dict.get?_joinWith]
  cases m.aliases.get? path <;> cases other.aliases.get? path <;> simp [TextSet.mem_union_iff]

/-- What has a name to be imported by is demanded as an import. -/
theorem Built.demands (h : m.Built kind) :
    ∀ path, m.aliases.contains path → m.get? path = some .importStatement := by
  simp only [Dict.contains, Option.isSome_iff_exists, get?]
  rintro path ⟨names, found⟩
  induction h generalizing names with
  | empty => cases found
  | @addImport m p w before _ _ ih =>
    rw [ReferenceMap.addImport, Dict.get?_alter] at found
    rw [ReferenceMap.addImport, Dict.get?_insert]
    split
    · rfl
    · rename_i apart
      rw [if_neg apart] at found
      exact ih names found
  | @addRelocation m p before _ ih =>
    have demanded := ih names found
    rw [ReferenceMap.addRelocation, Dict.get?_alter]
    split
    · rename_i here
      rw [here, demanded]
      rfl
    · exact demanded
  | keep before _ ih => exact ih names found
  | @merge m other before beside ih ih' =>
    rw [merge_eq, Dict.get?_joinWith] at found
    rw [merge_eq, Dict.get?_joinWith]
    -- One of the two maps has the name, and the demand of the other cannot lower it.
    cases here : m.aliases.get? path with
    | some own =>
      rw [ih own here]
      cases other.entries.get? path <;> rfl
    | none =>
      rw [here, Option.merge_none_left] at found
      rw [ih' names found]
      cases m.entries.get? path with
      | none => rfl
      | some k => cases k <;> rfl

/-! ## Growing demands -/

/-- No demand of `m` is weaker in `m'`, and no path, name or expression of `m` is missing there. -/
structure Grows (m m' : ReferenceMap) : Prop where
  demands : ∀ path k, m.get? path = some k → ∃ k', m'.get? path = some k' ∧ k.max k' = k'
  names : ∀ entry ∈ m.imports, entry ∈ m'.imports
  expressions : ∀ e ∈ m.keepAlive.toList, e ∈ m'.keepAlive.toList

theorem Grows.refl (m : ReferenceMap) : m.Grows m :=
  ⟨fun _ k h => ⟨k, h, Std.IdempotentOp.idempotent k⟩, fun _ h => h, fun _ h => h⟩

theorem Grows.trans (h : m.Grows m') (h' : m'.Grows m'') : m.Grows m'' where
  demands := by
    intro path k here
    obtain ⟨k', there, le⟩ := h.demands path k here
    obtain ⟨k'', beyond, le'⟩ := h'.demands path k' there
    refine ⟨k'', beyond, ?_⟩
    rw [← le', ← @Std.Associative.assoc _ ReferenceKind.max, le]
  names := fun entry listed => h'.names entry (h.names entry listed)
  expressions := fun e listed => h'.expressions e (h.expressions e listed)

private theorem get?_merge (m other : ReferenceMap) (path : Text) :
    (m.merge other).get? path = Option.merge .max (m.get? path) (other.get? path) := by
  rw [merge_eq]
  exact Dict.get?_joinWith _ _

private theorem grows_addImport (m : ReferenceMap) (path wanted : Text) :
    m.Grows (m.addImport path wanted) where
  demands := by
    intro p k here
    simp only [get?, ReferenceMap.addImport, Dict.get?_insert]
    split
    · exact ⟨_, rfl, by cases k <;> rfl⟩
    · exact ⟨k, here, Std.IdempotentOp.idempotent k⟩
  names := fun _ listed => mem_imports_addImport.2 (.inr listed)
  expressions := fun _ kept => kept

private theorem grows_addRelocation (m : ReferenceMap) (path : Text) :
    m.Grows (m.addRelocation path) where
  demands := by
    intro p k here
    refine ⟨k, ?_, Std.IdempotentOp.idempotent k⟩
    rw [get?] at here
    rw [get?, ReferenceMap.addRelocation, Dict.get?_alter]
    split
    · rename_i same
      rw [same, here]
      rfl
    · exact here
  names := fun _ listed => listed
  expressions := fun _ kept => kept

private theorem grows_keep (m : ReferenceMap) (expression : Text) : m.Grows (m.keep expression) :=
  ⟨(Grows.refl m).demands, (Grows.refl m).names, fun _ kept => TextSet.mem_add_iff.2 (.inr kept)⟩

private theorem grows_merge (m other : ReferenceMap) : m.Grows (m.merge other) where
  demands := by
    intro path k here
    rw [get?_merge, here]
    cases other.get? path with
    | none => exact ⟨k, rfl, Std.IdempotentOp.idempotent k⟩
    | some k' => exact ⟨k.max k', rfl, by cases k <;> rfl⟩
  names := fun _ listed => mem_imports_merge.2 (.inl listed)
  expressions := fun _ kept => TextSet.mem_union_iff.2 (.inl kept)

/-- Merged references have grown into what both of them have grown into. -/
theorem Grows.merge (h : m.Grows m') (h' : other.Grows m') : (m.merge other).Grows m' where
  demands := by
    intro path k here
    rw [get?_merge] at here
    -- A path that both have is asked for with the stronger demand, and both are below the third's.
    cases own : m.get? path with
    | none =>
      rw [own, Option.merge_none_left] at here
      exact h'.demands path k here
    | some a =>
      obtain ⟨k', there, le⟩ := h.demands path a own
      cases others : other.get? path with
      | none =>
        rw [own, others] at here
        cases here
        exact ⟨k', there, le⟩
      | some b =>
        rw [own, others] at here
        cases here
        obtain ⟨_, same, le'⟩ := h'.demands path b others
        cases there.symm.trans same
        exact ⟨k', there, by rw [@Std.Associative.assoc _ ReferenceKind.max, le', le]⟩
  names := fun _ listed => (mem_imports_merge.1 listed).elim (h.names _) (h'.names _)
  expressions := fun _ kept =>
    (TextSet.mem_union_iff.1 kept).elim (h.expressions _) (h'.expressions _)

/-! ## Changes -/

/-- A change of references. -/
inductive Change where
  | addImport (path wanted : Text)
  | addRelocation (path : Text)
  | keep (expression : Text)
  | merge (other : ReferenceMap)

/-- The references after a change. -/
def apply (m : ReferenceMap) : Change → ReferenceMap
  | .addImport path wanted => m.addImport path wanted
  | .addRelocation path => m.addRelocation path
  | .keep expression => m.keep expression
  | .merge other => m.merge other

/-- No change lowers a demand or takes anything away. -/
theorem grows_apply (m : ReferenceMap) (change : Change) : m.Grows (m.apply change) := by
  cases change with
  | addImport path wanted => exact m.grows_addImport path wanted
  | addRelocation path => exact m.grows_addRelocation path
  | keep expression => exact m.grows_keep expression
  | merge other => exact m.grows_merge other

/-- Neither do several changes, one after the other. -/
private theorem grows_foldl_apply (m : ReferenceMap) (changes : List Change) :
    m.Grows (changes.foldl apply m) :=
  foldl_keeps (K := m.Grows) (fun m' change _ kept => kept.trans (m'.grows_apply change)) (.refl m)

/-! ## The laws of merging -/

/-- Merging is associative, commutative and idempotent, with no references as its identity, and adds
nothing that neither side has. What has a name to be imported by is demanded as an import, and
whatever is done to references, no demand is lowered and nothing is taken away. So the references of
a package are those of its files, merged in any order. -/
theorem merge_orderless :
    (∀ a b c : ReferenceMap, (a.merge b).merge c = a.merge (b.merge c)) ∧
    (∀ a b : ReferenceMap, a.merge b = b.merge a) ∧
    (∀ a : ReferenceMap, a.merge a = a ∧ a.merge .empty = a ∧ ReferenceMap.empty.merge a = a) ∧
    (∀ a b c : ReferenceMap, a.Grows c → b.Grows c → (a.merge b).Grows c) ∧
    (∀ kind (m : ReferenceMap), m.Built kind →
      ∀ path wanted, (path, wanted) ∈ m.imports → m.get? path = some .importStatement) ∧
    (∀ (m : ReferenceMap) (changes : List Change), m.Grows (changes.foldl apply m)) ∧
    ∀ (o : Outcome) (maps : List ReferenceMap),
      maps.Perm (o.files.entries.map (·.2.references)) →
        maps.foldl merge .empty = o.references := by
  refine ⟨merge_assoc, merge_comm, fun a => ⟨merge_self a, merge_empty a, empty_merge a⟩,
    fun a b c => Grows.merge, fun kind m built path wanted listed => ?_, grows_foldl_apply,
    fun o maps same => ?_⟩
  · obtain ⟨names, found, -⟩ := mem_imports_iff.1 listed
    exact built.demands path (Option.isSome_iff_exists.2 ⟨names, found⟩)
  · rw [foldl_merge_perm same, List.foldl_map]
    rfl

/-- One file has a package linked that the other imports under two names. -/
theorem merge_orderless_pair :
    let linked := (ReferenceMap.empty.addRelocation "x/tool").keep "pkg.F"
    let imported := (ReferenceMap.empty.addImport "x/tool" "tool").addImport "x/tool" "_"
    let both := linked.merge imported
    let o : Outcome :=
      ⟨.ofList [("a.go", ⟨"a.go", linked, []⟩), ("b.go", ⟨"b.go", imported, []⟩)], none, []⟩
    both.Built (fun _ => True) ∧ (("x/tool" : Text), ("_" : Text)) ∈ both.imports ∧
      both.get? "x/tool" = some .importStatement ∧
      linked.Grows both ∧ imported.Grows both ∧ (imported.merge linked).Grows both ∧
      [imported, linked].Perm (o.files.entries.map (·.2.references)) ∧
      [imported, linked].foldl merge .empty = o.references := by
  intro linked imported both o
  obtain ⟨-, swap, -, least, demanded, grows, package⟩ := merge_orderless
  have built : both.Built fun _ => True :=
    .merge (.keep (.addRelocation .empty trivial) trivial)
      (.addImport (.addImport .empty trivial trivial) trivial trivial)
  have named : (("x/tool" : Text), ("_" : Text)) ∈ both.imports := by decide
  -- Merging in either order gives the same, so both have grown into it.
  have first : linked.Grows both := grows linked [.merge imported]
  have second : imported.Grows both := by
    rw [show both = imported.merge linked from swap linked imported]
    exact grows imported [.merge linked]
  have order : [imported, linked].Perm (o.files.entries.map (·.2.references)) :=
    List.Perm.swap linked imported []
  exact ⟨built, named, demanded _ both built _ _ named, first, second,
    least imported linked both second first, order, package o _ order⟩

end ReferenceMap

end Interlace
