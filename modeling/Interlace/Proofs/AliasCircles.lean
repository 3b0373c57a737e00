import Interlace.Proofs.AliasSteps
import Mathlib.Data.Finset.Card
import Mathlib.Data.List.Nodup

/-!
# Aliases that come back to themselves

Following aliases goes through a row of at most eight, and starts anew below a pointer. Without a
bound on the pointers it comes to an end exactly if no alias on the way leads back to itself below
pointers, and the bound that is set is never reached then: every type below a pointer on the way is
one that the type itself or an alias of the package writes down, and none is met twice.

What it comes to is an alias no longer, unless a row is longer than eight.

## Key results

- `PackageTypes.Follows`: following aliases, without a bound on pointers
- `PackageTypes.Follows.eq`: if it comes to an end, `PackageTypes.followAliases` gives that end
- `PackageTypes.exists_follows_iff`: it does unless it meets an alias that comes back to itself
- `PackageTypes.Follows.final_iff`: no alias is left to follow iff no row is too long
- `PackageTypes.Acyclic.not_circles`: no alias comes back to itself if none refers to itself
-/

namespace Interlace

open Relation

namespace TypeRef

/-- The types below the pointers of a type, the outermost first. -/
def pointees : TypeRef → List TypeRef
  | pointer target => target :: target.pointees
  | _ => []

private theorem length_pointees (t : TypeRef) : t.pointees.length = t.depth := by
  induction t with
  | pointer target ih => simp [pointees, depth, ih]
  | named _ _ | builtin _ | other _ => rfl

private theorem pointees_subset {t u : TypeRef} (h : u ∈ t.pointees) : u.pointees ⊆ t.pointees := by
  induction t with
  | pointer target ih =>
    rw [pointees, List.mem_cons] at h
    rcases h with rfl | h
    · exact List.subset_cons_self _ _
    · exact List.Subset.trans (ih h) (List.subset_cons_self _ _)
  | named _ _ | builtin _ | other _ => cases h

end TypeRef

namespace PackageTypes

/-! ## Without a bound -/

/-- A row of aliases, not longer than eight, ends with a pointer, and following starts anew below
it. -/
def Descends (p : PackageTypes) (t u : TypeRef) : Prop :=
  p.chase 8 t = (.pointer u, true)

/-- Aliases are followed, at most eight in a row, and again below every pointer. -/
inductive Follows (p : PackageTypes) : TypeRef → TypeRef → Prop
  | pointer {t target u : TypeRef} : p.Descends t target → Follows p target u →
      Follows p t (.pointer u)
  | stop {t : TypeRef} : (∀ target, ¬ p.Descends t target) → Follows p t (p.chase 8 t).1

/-- Following the alias comes back to it below pointers. -/
def Circles (p : PackageTypes) (name : Text) : Prop :=
  TransGen p.Descends (.named p.importPath name) (.named p.importPath name)

variable {p : PackageTypes} {t u v : TypeRef}

theorem Descends.unique (first : p.Descends t u) (second : p.Descends t v) : u = v := by
  cases first.symm.trans second
  rfl

theorem descends_pointer_iff : p.Descends (.pointer t) u ↔ u = t := by
  have row : p.chase 8 (.pointer t) = (.pointer t, true) := rfl
  rw [Descends, row, Prod.mk.injEq, TypeRef.pointer.injEq, and_iff_left rfl, eq_comm]

/-- What follows below a pointer is not followed in any other way. -/
theorem Descends.follows_iff (down : p.Descends t u) :
    p.Follows t v ↔ ∃ w, v = .pointer w ∧ p.Follows u w := by
  constructor
  · intro follows
    cases follows with
    | pointer down' rest => exact ⟨_, rfl, down.unique down' ▸ rest⟩
    | stop last => exact absurd down (last u)
  · rintro ⟨w, rfl, rest⟩
    exact .pointer down rest

private theorem follow_of_descends (down : p.Descends t u) (depth : Nat) :
    p.follow (depth + 1) t = .pointer (p.follow depth u) := by
  rw [follow, show p.chase 8 t = (.pointer u, true) from down]

private theorem follow_of_stop (last : ∀ target, ¬ p.Descends t target) (depth : Nat) :
    p.follow (depth + 1) t = (p.chase 8 t).1 := by
  rw [follow]
  split
  · rename_i target row
    exact absurd row (last target)
  · rename_i row
    rw [row]

/-! ## Circles -/

/-- What is followed to an end comes back to nothing on the way. -/
theorem Follows.not_transGen (follows : p.Follows t u) (reached : ReflTransGen p.Descends t v) :
    ¬ TransGen p.Descends v v := by
  induction follows generalizing v with
  | stop last =>
    intro circle
    rcases ReflTransGen.cases_head reached with rfl | ⟨w, down, -⟩
    · obtain ⟨w, down, -⟩ := TransGen.head'_iff.1 circle
      exact last w down
    · exact last w down
  | pointer down _ ih =>
    rcases ReflTransGen.cases_head reached with rfl | ⟨w, down', rest⟩
    · -- A circle through the start goes on below the pointer and comes back there.
      intro circle
      obtain ⟨w, down', rest⟩ := TransGen.head'_iff.1 circle
      exact ih (down.unique down' ▸ rest) circle
    · exact ih (down.unique down' ▸ rest)

/-- A row starts with a pointer or an alias. -/
theorem Descends.starts (down : p.Descends t u) :
    t = .pointer u ∨ ∃ name target, t = .named p.importPath name ∧
      p.aliasTarget? t = some target := by
  cases found : p.aliasTarget? t with
  | some target =>
    obtain ⟨name, -, same, -⟩ := aliasTarget?_eq_some_iff.1 found
    exact .inr ⟨name, target, same, rfl⟩
  | none =>
    rw [Descends, chase, found] at down
    exact .inl (congrArg Prod.fst down)

/-- Every circle goes through an alias. -/
private theorem exists_circles (circle : TransGen p.Descends t t) :
    ∃ name, ReflTransGen p.Descends t (.named p.importPath name) ∧ p.Circles name := by
  induction t with
  | pointer target ih =>
    -- The pointer itself is left behind, so the circle can be entered below it.
    obtain ⟨u, down, back⟩ := TransGen.head'_iff.1 circle
    cases descends_pointer_iff.1 down
    obtain ⟨name, reached, round⟩ := ih (TransGen.tail' back down)
    exact ⟨name, .head down reached, round⟩
  | named path name =>
    obtain ⟨u, down, -⟩ := TransGen.head'_iff.1 circle
    obtain ⟨_, _, same, -⟩ := down.starts.resolve_left nofun
    cases same
    exact ⟨name, .refl, circle⟩
  | builtin _ | other _ =>
    obtain ⟨u, down, -⟩ := TransGen.head'_iff.1 circle
    obtain ⟨_, _, same, -⟩ := down.starts.resolve_left nofun
    cases same

/-! ## Where the pointers on the way come from -/

/-- The types below the pointers that a type or an alias of the package writes down. -/
def reach (p : PackageTypes) (t : TypeRef) : List TypeRef :=
  t.pointees ++ p.declarations.entries.flatMap fun e =>
    (e.2.aliasOf.map TypeRef.pointees).getD []

private theorem length_reach (p : PackageTypes) (t : TypeRef) :
    (p.reach t).length = t.depth + p.pointerBound := by
  have total : p.pointerBound = (p.declarations.entries.map weight).sum := by
    rw [List.sum_eq_foldl, List.foldl_map]
    rfl
  rw [reach, List.length_append, TypeRef.length_pointees, List.length_flatMap, total]
  congr 2
  refine List.map_congr_left fun e _ => ?_
  rw [weight]
  cases e.2.aliasOf with
  | none => rfl
  | some target => exact target.length_pointees

private theorem pointees_subset_reach (found : p.aliasTarget? u = some v) :
    v.pointees ⊆ p.reach t := by
  obtain ⟨name, d, -, declared, stands⟩ := aliasTarget?_eq_some_iff.1 found
  intro w hw
  refine List.mem_append_right _ (List.mem_flatMap.2 ⟨(name, d), ?_, ?_⟩)
  · exact p.declarations.mem_entries_iff.2 declared
  · simpa [stands] using hw

/-- What a row comes to below its pointer is written down by its start or by an alias. -/
private theorem mem_of_chase {steps : Nat} (h : p.chase steps u = (.pointer v, true))
    (inside : u.pointees ⊆ p.reach t) : v ∈ p.reach t := by
  induction steps generalizing u with
  | zero => cases h
  | succ steps ih =>
    rw [chase] at h
    split at h
    · rename_i target found
      exact ih h (pointees_subset_reach found)
    · cases h
      exact inside List.mem_cons_self

private theorem Descends.pointees_subset (down : p.Descends u v) (inside : u.pointees ⊆ p.reach t) :
    v ∈ p.reach t ∧ v.pointees ⊆ p.reach t := by
  have reached := mem_of_chase down inside
  refine ⟨reached, ?_⟩
  rcases List.mem_append.1 reached with own | listed
  · exact List.Subset.trans (TypeRef.pointees_subset own) (List.subset_append_left _ _)
  · obtain ⟨e, he, below⟩ := List.mem_flatMap.1 listed
    cases stands : e.2.aliasOf with
    | none => simp [stands] at below
    | some target =>
      rw [stands] at below
      intro w hw
      refine List.mem_append_right _ (List.mem_flatMap.2 ⟨e, he, ?_⟩)
      rw [stands]
      exact TypeRef.pointees_subset below hw

/-! ## Coming to an end -/

/-- Without circles on the way, as many pointers are gone through as types can stand below one. The
types below the pointers that were gone through are kept in `path`. -/
private theorem follows_of_path (start : TypeRef) (depth : Nat) (path : List TypeRef) (t : TypeRef)
    (inside : t.pointees ⊆ p.reach start) (fresh : path.Nodup) (listed : path ⊆ p.reach start)
    (way : ∀ u ∈ path, ReflTransGen p.Descends u t)
    (straight : ∀ u, ReflTransGen p.Descends t u → ¬ TransGen p.Descends u u)
    (enough : (p.reach start).length < depth + path.length) :
    p.Follows t (p.follow depth t) := by
  induction depth generalizing path t with
  | zero =>
    -- The path would hold more types than there are.
    have short := (List.subperm_of_subset fresh listed).length_le
    omega
  | succ depth ih =>
    by_cases last : ∀ target, ¬ p.Descends t target
    · rw [follow_of_stop last]
      exact .stop last
    · obtain ⟨target, down⟩ := not_forall_not.1 last
      obtain ⟨below, inside'⟩ := down.pointees_subset inside
      have new : target ∉ path := fun again =>
        straight target (.single down) (TransGen.tail' (way target again) down)
      rw [follow_of_descends down]
      refine .pointer down (ih (target :: path) target inside' (List.nodup_cons.2 ⟨new, fresh⟩)
        (List.cons_subset.2 ⟨below, listed⟩) ?_ (fun u reached => ?_) ?_)
      · refine List.forall_mem_cons.2 ⟨.refl, fun u hu => ?_⟩
        exact ReflTransGen.tail (way u hu) down
      · exact straight u (.head down reached)
      · rw [List.length_cons]
        omega

private theorem follows_followAliases
    (straight : ∀ u, ReflTransGen p.Descends t u → ¬ TransGen p.Descends u u) :
    p.Follows t (p.followAliases t) := by
  refine follows_of_path t _ [] t (List.subset_append_left _ _) List.nodup_nil
    (List.nil_subset _) nofun straight ?_
  rw [length_reach, List.length_nil]
  omega

theorem Follows.unique (first : p.Follows t u) (second : p.Follows t v) : u = v := by
  induction first generalizing v with
  | stop last =>
    cases second with
    | pointer down _ => exact absurd down (last _)
    | stop _ => rfl
  | pointer down _ ih =>
    obtain ⟨w, rfl, rest⟩ := down.follows_iff.1 second
    rw [ih rest]

/-- If following aliases comes to an end, then `followAliases` gives that end. -/
theorem Follows.eq (follows : p.Follows t u) : p.followAliases t = u :=
  (follows_followAliases fun _ => follows.not_transGen).unique follows

/-- Following aliases comes to an end unless it meets an alias that comes back to itself. -/
theorem exists_follows_iff : (∃ u, p.Follows t u) ↔
    ∀ name, ReflTransGen p.Descends t (.named p.importPath name) → ¬ p.Circles name := by
  constructor
  · rintro ⟨u, follows⟩ name reached
    exact follows.not_transGen reached
  · intro straight
    refine ⟨_, follows_followAliases fun v reached circle => ?_⟩
    obtain ⟨name, on, round⟩ := exists_circles circle
    exact straight name (ReflTransGen.trans reached on) round

/-! ## Rows that are too long -/

/-- Eight aliases follow in a row from the type, and that is not the end of it. -/
def Overruns (p : PackageTypes) (t : TypeRef) : Prop :=
  (p.chase 8 t).2 = false ∧ ¬ p.Final (p.chase 8 t).1

theorem final_pointer_iff : p.Final (.pointer t) ↔ p.Final t :=
  ⟨fun h _ step => h _ (.inside step), Final.pointer⟩

private theorem Descends.not_overruns (down : p.Descends t u) : ¬ p.Overruns t := by
  rintro ⟨cut, -⟩
  rw [show p.chase 8 t = (.pointer u, true) from down] at cut
  cases cut

/-- A row that does not end below a pointer ends with no alias unless it is too long. -/
theorem final_chase_iff (last : ∀ target, ¬ p.Descends t target) :
    p.Final (p.chase 8 t).1 ↔ ¬ p.Overruns t := by
  unfold Overruns
  cases row : p.chase 8 t with
  | mk reached ended =>
    cases ended with
    | false => simp
    | true =>
      refine iff_of_true ?_ (by simp)
      rintro v (found | _)
      · rw [aliasTarget?_of_chase row] at found
        cases found
      · exact last _ row

/-- What following aliases comes to has none left to follow exactly if no row on the way is too
long. -/
theorem Follows.final_iff (follows : p.Follows t u) :
    p.Final u ↔ ∀ v, ReflTransGen p.Descends t v → ¬ p.Overruns v := by
  induction follows with
  | stop last =>
    rw [final_chase_iff last]
    refine ⟨fun short v reached => ?_, fun short => short _ .refl⟩
    -- The way down is determined, so what lies on it is this type or below the pointer.
    rcases ReflTransGen.cases_head reached with rfl | ⟨w, down, -⟩
    · exact short
    · exact absurd down (last w)
  | pointer down _ ih =>
    rw [final_pointer_iff, ih]
    refine ⟨fun short v reached => ?_, fun short v reached => short v (.head down reached)⟩
    rcases ReflTransGen.cases_head reached with rfl | ⟨w, down', rest⟩
    · exact down.not_overruns
    · exact short v (down.unique down' ▸ rest)

/-! ## Aliases that refer to each other -/

/-- What the first alias stands for is the second name, below pointers or not. -/
def Refers (p : PackageTypes) (name other : Text) : Prop :=
  ∃ target, p.aliasTarget? (.named p.importPath name) = some target ∧
    target.innermost = .named p.importPath other

/-- No alias refers to itself, through others or below pointers. -/
def Acyclic (p : PackageTypes) : Prop :=
  ∀ name, ¬ TransGen p.Refers name name

private theorem Refers.mem_keys {name other : Text} (h : p.Refers name other) :
    name ∈ p.declarations.entries.map Prod.fst := by
  obtain ⟨target, found, -⟩ := h
  obtain ⟨_, d, same, declared, -⟩ := aliasTarget?_eq_some_iff.1 found
  cases same
  exact List.mem_map_of_mem (p.declarations.mem_entries_iff.2 declared)

open Classical in
/-- The number of declared names that a name refers to, itself included. -/
noncomputable def rankOf (p : PackageTypes) (name : Text) : Nat :=
  ((p.declarations.entries.map Prod.fst).toFinset.filter
    (ReflTransGen p.Refers name)).card

/-- Aliases that do not refer to themselves have ranks that drop, and only those. -/
theorem acyclic_iff_exists_ranks : p.Acyclic ↔ ∃ rank, p.Ranks rank := by
  classical
  constructor
  · refine fun acyclic => ⟨p.rankOf, fun name target other found innermost => ?_⟩
    have refers : p.Refers name other := ⟨target, found, innermost⟩
    refine Finset.card_lt_card (Finset.ssubset_iff_subset_ne.2 ⟨fun c hc => ?_, fun same => ?_⟩)
    · rw [Finset.mem_filter] at hc ⊢
      exact ⟨hc.1, .head refers hc.2⟩
    · -- Otherwise the second name would refer back to the first.
      have own : name ∈ (p.declarations.entries.map Prod.fst).toFinset.filter
          (ReflTransGen p.Refers name) :=
        Finset.mem_filter.2 ⟨List.mem_toFinset.2 refers.mem_keys, .refl⟩
      rw [← same, Finset.mem_filter] at own
      exact acyclic name (TransGen.head' refers own.2)
  · rintro ⟨rank, ranked⟩ name circle
    have lower : ∀ a b, TransGen p.Refers a b → rank b < rank a := by
      intro a b h
      induction h with
      | single refers =>
        obtain ⟨target, found, innermost⟩ := refers
        exact ranked _ target _ found innermost
      | tail _ refers ih =>
        obtain ⟨target, found, innermost⟩ := refers
        exact Nat.lt_trans (ranked _ target _ found innermost) ih
    exact Nat.lt_irrefl _ (lower name name circle)

theorem Descends.leads (down : p.Descends t u) : p.Leads t (.pointer u) := by
  have chased := chase_leads (p := p) (q := p) (fun _ _ found => .single (.here found)) 8 t
  rwa [show p.chase 8 t = (.pointer u, true) from down] at chased

/-- Below a pointer the ranks are no higher than before it. -/
private theorem Ranks.height_le_of_descends {rank : Text → Nat} (ranked : p.Ranks rank)
    (down : ReflTransGen p.Descends t u) : p.height rank u ≤ p.height rank t := by
  induction down with
  | refl => exact Nat.le_refl _
  | tail _ down ih =>
    rw [← height_pointer rank]
    exact Nat.le_trans (ranked.height_le_of_leads down.leads) ih

/-- Aliases that do not refer to themselves do not come back to themselves. -/
theorem Acyclic.not_circles (acyclic : p.Acyclic) (name : Text) : ¬ p.Circles name := by
  obtain ⟨rank, ranked⟩ := acyclic_iff_exists_ranks.1 acyclic
  intro circle
  obtain ⟨u, down, back⟩ := TransGen.head'_iff.1 circle
  -- The first row follows at least the alias itself.
  rcases down.starts with same | ⟨_, target, same, found⟩
  · cases same
  · have leads := down.leads
    rcases ReflTransGen.cases_head leads with same' | ⟨v, step, rest⟩
    · cases same'
    · have first := ranked.height_lt step
      have others := ranked.height_le_of_leads rest
      have round := ranked.height_le_of_descends back
      rw [height_pointer] at others
      omega

end PackageTypes

end Interlace
