import Interlace.Proofs.LineFacts
import Interlace.Proofs.TreeOrder

/-!
# Reading in order

A parser reads in order if the trees it gives lie one behind the other, behind what was read before
and before what is left. Tokens are read so, and parsers that are put together from such parsers
are. The comments passed on the way lie one behind the other as well, and no token starts in one.

## Key results

- `Scan.CommentsTo`: the comments that were passed
- `Scan.skipFrom_in`: what follows white space and comments is no blank
- `Reading.Lays`: a parser reads in order, behind trees that have been read
- `Reading.Lays.bind`, `Reading.Lays.look`, `Reading.Lays.node`: sequences of parsers read in order
- `Reading.symbol_lays`, `Reading.keyword_lays`, `Reading.word_lays`: tokens are read in order
-/

namespace Interlace.Syntax

/-! ## Positions -/

namespace Scan

/-- A range of the text is a comment. -/
def IsComment (text : Text) (c : Nat × Nat) : Prop :=
  ∃ width, commentWidth? (text.drop c.1) = some width ∧ c.2 = c.1 + width

/-- Comments that were passed up to an offset, the latest first. -/
structure CommentsTo (text : Text) (offset : Nat) (comments : List (Nat × Nat)) : Prop where
  read : ∀ c ∈ comments, IsComment text c
  behind : ∀ c ∈ comments, c.2 ≤ offset
  apart : comments.Pairwise fun later earlier => earlier.2 ≤ later.1

/-- The position is one in the text. -/
structure In (text : Text) (s : Scan) : Prop where
  rest_eq : s.rest = text.drop s.offset
  last_le : s.last ≤ s.offset
  inside : s.last ≤ text.length
  comments : CommentsTo text s.offset s.comments

/-- From one position on to another, with comments only behind the last token. -/
structure Grows (s s' : Scan) : Prop where
  last : s.last ≤ s'.last
  comments : ∃ more, s'.comments = more ++ s.comments ∧ ∀ c ∈ more, s.last ≤ c.1

variable {text : Text} {s : Scan} {breaks : Bool}

theorem Grows.refl (s : Scan) : s.Grows s :=
  ⟨Nat.le_refl _, [], rfl, nofun⟩

theorem Grows.trans {s' s'' : Scan} (h : s.Grows s') (h' : s'.Grows s'') : s.Grows s'' where
  last := Nat.le_trans h.last h'.last
  comments := by
    obtain ⟨more, same, behind⟩ := h.comments
    obtain ⟨more', same', behind'⟩ := h'.comments
    refine ⟨more' ++ more, by rw [same', same, List.append_assoc], fun c hc => ?_⟩
    rcases List.mem_append.1 hc with hc | hc
    · exact Nat.le_trans h.last (behind' c hc)
    · exact behind c hc

/-- What was laid when a position was reached is laid when the next one is. -/
theorem Grows.laid {s' : Scan} {strict : Bool} {lo hi : Nat} {ts : List Tree} (h : s.Grows s')
    (laid : Laid ⟨text, s.comments⟩ strict lo ts hi) (le : hi ≤ s.last) :
    Laid ⟨text, s'.comments⟩ strict lo ts hi := by
  obtain ⟨more, same, behind⟩ := h.comments
  rw [same]
  refine laid.recomment ts fun c hc => ?_
  exact (List.mem_append.1 hc).symm.imp_right fun new => Nat.le_trans le (behind c new)

theorem CommentsTo.mono {offset offset' : Nat} {comments : List (Nat × Nat)}
    (h : CommentsTo text offset comments) (le : offset ≤ offset') :
    CommentsTo text offset' comments :=
  ⟨h.read, fun c hc => Nat.le_trans (h.behind c hc) le, h.apart⟩

theorem In.drop (h : s.In text) (n : Nat) : (s.drop n).In text where
  rest_eq := by
    show s.rest.drop n = text.drop (s.offset + n)
    rw [h.rest_eq, List.drop_drop]
  last_le := Nat.le_trans h.last_le (Nat.le_add_right _ _)
  inside := h.inside
  comments := h.comments.mono (Nat.le_add_right _ _)

/-- What is left and more than nothing lies in the text. -/
theorem In.fits (h : s.In text) {n : Nat} (pos : 0 < n) (le : n ≤ s.rest.length) :
    s.offset + n ≤ text.length := by
  rw [h.rest_eq, List.length_drop] at le
  omega

theorem In.take (h : s.In text) {n : Nat} (fits : s.offset + n ≤ text.length) :
    (s.take n).In text where
  rest_eq := (h.drop n).rest_eq
  last_le := Nat.le_refl _
  inside := fits
  comments := (h.drop n).comments

/-- A comment that is passed is one more. -/
theorem In.comment (h : s.In text) {width : Nat} (comment : commentWidth? s.rest = some width) :
    Scan.In text { s.drop width with comments := (s.offset, s.offset + width) :: s.comments } where
  rest_eq := (h.drop width).rest_eq
  last_le := (h.drop width).last_le
  inside := h.inside
  comments := by
    refine ⟨List.forall_mem_cons.2 ⟨⟨width, h.rest_eq ▸ comment, rfl⟩, h.comments.read⟩,
      List.forall_mem_cons.2 ⟨Nat.le_refl _, (h.drop width).comments.behind⟩,
      List.pairwise_cons.2 ⟨h.comments.behind, h.comments.apart⟩⟩

theorem In.head (h : s.In text) : s.rest.head? = text[s.offset]? := by
  rw [h.rest_eq, List.head?_drop]

private theorem whiteWidth_pos {b : UInt8} (blank : Text.isBlank b) (t : Text) :
    Text.whiteWidth (b :: t) ≠ 0 := by
  have cases_ : b = 0x20 ∨ b = 0x09 := by simpa [Text.isBlank] using blank
  rcases cases_ with rfl | rfl <;> simp [Text.whiteWidth]

theorem commentWidth_pos {t : Text} {width : Nat} (h : commentWidth? t = some width) :
    0 < width := by
  unfold commentWidth? at h
  split at h
  · rename_i starts
    obtain ⟨rest, rfl⟩ := Text.startsWith_iff.1 starts
    cases h
    exact Nat.succ_pos _
  · split at h
    · obtain ⟨i, -, rfl⟩ := Option.map_eq_some_iff.1 h
      exact Nat.succ_pos _
    · cases h

/-- No comment is empty, so all that were passed start before the offset. -/
theorem CommentsTo.starts {offset : Nat} {comments : List (Nat × Nat)}
    (h : CommentsTo text offset comments) : ∀ c ∈ comments, c.1 < offset := by
  intro c hc
  obtain ⟨width, comment, stop⟩ := h.read c hc
  have pos := commentWidth_pos comment
  have behind := h.behind c hc
  omega

/-- What passing over white space and comments keeps, and what it comes to. -/
theorem skipFrom_in (h : s.In text) (breaks : Bool) (fuel : Nat) (enough : s.rest.length ≤ fuel) :
    (skipFrom breaks fuel s).In text ∧ (skipFrom breaks fuel s).last = s.last ∧
      s.Grows (skipFrom breaks fuel s) ∧
      ∀ b, (skipFrom breaks fuel s).rest.head? = some b → Text.isBlank b = false := by
  -- Fuel for all that is left is enough, as every round passes a byte.
  induction fuel generalizing s with
  | zero =>
    have none_left : s.rest = [] := List.length_eq_zero_iff.1 (Nat.le_zero.1 enough)
    refine ⟨h, rfl, .refl s, fun b head => ?_⟩
    rw [skipFrom, none_left] at head
    cases head
  | succ fuel ih =>
    have shorter : ∀ n, 0 < n → (s.drop n).rest.length ≤ fuel := by
      intro n pos
      show (s.rest.drop n).length ≤ fuel
      rw [List.length_drop]
      omega
    rw [skipFrom]
    split
    · rename_i solid
      split
      · rename_i width comment
        obtain ⟨there, last, grows, ends⟩ :=
          ih (h.comment comment) (shorter width (commentWidth_pos comment))
        have passed : s.Grows { s.drop width with
            comments := (s.offset, s.offset + width) :: s.comments } :=
          ⟨Nat.le_refl _, [(s.offset, s.offset + width)], rfl,
            List.forall_mem_singleton.2 h.last_le⟩
        exact ⟨there, last, passed.trans grows, ends⟩
      · refine ⟨h, rfl, .refl s, fun b head => ?_⟩
        rw [Bool.eq_false_iff]
        intro blank
        obtain ⟨t, whole⟩ := List.head?_eq_some_iff.1 head
        rw [whole] at solid
        exact whiteWidth_pos blank t solid
    · split
      · rename_i broken
        refine ⟨h, rfl, .refl s, fun b head => ?_⟩
        have newline : s.rest.head? = some Text.newline := by
          simpa using (Bool.and_eq_true_iff.1 broken).1
        rw [newline] at head
        cases head
        rfl
      · obtain ⟨there, last, grows, ends⟩ := ih (h.drop _) (shorter _ (Nat.succ_pos _))
        exact ⟨there, last, ⟨grows.last, grows.comments⟩, ends⟩

theorem In.skip (h : s.In text) (breaks : Bool) : (s.skip breaks).In text :=
  (skipFrom_in h breaks _ (Nat.le_refl _)).1

theorem In.last_skip (h : s.In text) (breaks : Bool) : (s.skip breaks).last = s.last :=
  (skipFrom_in h breaks _ (Nat.le_refl _)).2.1

theorem In.grows_skip (h : s.In text) (breaks : Bool) : s.Grows (s.skip breaks) :=
  (skipFrom_in h breaks _ (Nat.le_refl _)).2.2.1

/-- A position is in no comment that was passed. -/
theorem In.clear (h : s.In text) : Page.Clear ⟨text, s.comments⟩ s.offset :=
  fun c hc => .inl (h.comments.behind c hc)

theorem In.grows_take (h : s.In text) (n : Nat) : s.Grows (s.take n) :=
  ⟨Nat.le_trans h.last_le (Nat.le_add_right _ n), [], rfl, nofun⟩

/-- What follows white space and comments is no blank. -/
private theorem In.solid_skip (h : s.In text) (more : (s.skip breaks).rest ≠ []) :
    Solid text (s.skip breaks).offset := by
  obtain ⟨b, rest, whole⟩ := List.exists_cons_of_ne_nil more
  have head : (s.skip breaks).rest.head? = some b := by rw [whole]; rfl
  refine ⟨b, ?_, (skipFrom_in h breaks _ (Nat.le_refl _)).2.2.2 b head⟩
  rw [← (h.skip breaks).head, head]

end Scan

/-! ## Parsers that read in order -/

/-- Results that hold trees. -/
class HasTrees (α : Type) where
  trees : α → List Tree

instance : HasTrees Tree := ⟨fun t => [t]⟩

instance : HasTrees (List Tree) := ⟨fun ts => ts⟩

open HasTrees

@[simp] theorem trees_tree (t : Tree) : trees t = [t] := rfl

@[simp] theorem trees_list (ts : List Tree) : trees ts = ts := rfl

namespace Reading

variable {α β : Type} {text : Text} {done : List Tree} {breaks : Bool}

theorem bind_eq_some {p : Reading α} {f : α → Reading β} {s : Scan} {r : β × Scan} :
    (p >>= f) s = some r ↔ ∃ x s', p s = some (x, s') ∧ f x s' = some r := by
  show (p s).bind (fun y => f y.1 y.2) = some r ↔ _
  rw [Option.bind_eq_some_iff]
  exact Prod.exists

theorem pure_eq_some {x y : α} {s s' : Scan} :
    (pure x : Reading α) s = some (y, s') ↔ x = y ∧ s = s' := by
  show some (x, s) = some (y, s') ↔ _
  rw [Option.some.injEq, Prod.mk.injEq]

theorem orElse_eq_some {p q : Reading α} {s : Scan} {r : α × Scan} (h : (p <|> q) s = some r) :
    p s = some r ∨ q s = some r := by
  have h' : (p s).orElse (fun _ => q s) = some r := h
  cases found : p s with
  | some x =>
    rw [found] at h'
    exact .inl h'
  | none =>
    rw [found] at h'
    exact .inr h'

/-- The parser only looks ahead. -/
def Quiet (p : Reading α) : Prop :=
  ∀ s x s', p s = some (x, s') → s' = s

theorem Quiet.bind {p : Reading α} {f : α → Reading β} (hp : Quiet p) (hf : ∀ x, Quiet (f x)) :
    Quiet (p >>= f) := by
  intro s y s' h
  obtain ⟨x, s₁, first, rest⟩ := bind_eq_some.1 h
  rw [hf x s₁ y s' rest, hp s x s₁ first]

theorem quiet_pure (x : α) : Quiet (pure x : Reading α) :=
  fun _ _ _ h => (pure_eq_some.1 h).2.symm

theorem quiet_get : Quiet (get : Reading Scan) := by
  intro s x s' h
  cases h
  rfl

theorem quiet_ahead (breaks : Bool) : Quiet (ahead breaks) :=
  quiet_get.bind fun _ => quiet_pure _

theorem quiet_sees (breaks : Bool) (spelling : Text) : Quiet (sees breaks spelling) :=
  (quiet_ahead breaks).bind fun _ => quiet_pure _

theorem quiet_aheadWord (breaks : Bool) : Quiet (aheadWord breaks) :=
  (quiet_ahead breaks).bind fun _ => quiet_pure _

theorem quiet_node (kind : Kind) (children : List Tree) : Quiet (node kind children) :=
  quiet_get.bind fun _ => quiet_pure _

theorem quiet_atEnd : Quiet atEnd :=
  (quiet_ahead true).bind fun _ => quiet_pure _

/-- From a position on, behind trees that have been read, the parser reads in order: if those lie
one behind the other, then so do the trees that it gives, in the same place and as far as was
read. -/
def LaysAt (text : Text) (done : List Tree) (s : Scan) [HasTrees α] (p : Reading α) : Prop :=
  ∀ lo x s', s.In text → Laid ⟨text, s.comments⟩ true lo done s.last → p s = some (x, s') →
    s'.In text ∧ s.Grows s' ∧ Laid ⟨text, s'.comments⟩ true lo (trees x) s'.last

/-- Behind trees that have been read, the parser reads in order. -/
def Lays (text : Text) (done : List Tree) [HasTrees α] (p : Reading α) : Prop :=
  ∀ s, LaysAt text done s p

theorem LaysAt.get {s : Scan} [HasTrees α] {f : Scan → Reading α} (h : LaysAt text done s (f s)) :
    LaysAt text done s (get >>= f) := by
  intro lo x s' here before read
  obtain ⟨s₀, s₁, looked, rest⟩ := bind_eq_some.1 read
  cases looked
  exact h lo x s' here before rest

theorem LaysAt.ahead {s : Scan} [HasTrees α] {f : Text → Reading α}
    (h : LaysAt text done s (f (s.skip breaks).rest)) :
    LaysAt text done s (Reading.ahead breaks >>= f) := by
  intro lo x s' here before read
  obtain ⟨t, s₁, looked, rest⟩ := bind_eq_some.1 read
  cases looked
  exact h lo x s' here before rest

namespace Lays

variable [HasTrees α] [HasTrees β]

/-- What is read next is laid behind what has been read. -/
theorem bindOf {P : α → Prop} {p : Reading α} {f : α → Reading β} (hp : Lays text [] p)
    (sure : ∀ s x s', p s = some (x, s') → P x)
    (hf : ∀ x, P x → Lays text (done ++ trees x) (f x)) : Lays text done (p >>= f) := by
  intro s lo y s' here before h
  obtain ⟨x, s₁, first, rest⟩ := bind_eq_some.1 h
  obtain ⟨there, grows, laid⟩ := hp s s.last x s₁ here (Nat.le_refl _) first
  obtain ⟨there', grows', laid'⟩ :=
    hf x (sure s x s₁ first) s₁ lo y s' there
      ((grows.laid before (Nat.le_refl _)).append laid) rest
  exact ⟨there', grows.trans grows', laid'⟩

theorem bind {p : Reading α} {f : α → Reading β} (hp : Lays text [] p)
    (hf : ∀ x, Lays text (done ++ trees x) (f x)) : Lays text done (p >>= f) :=
  hp.bindOf (P := fun _ => True) (fun _ _ _ _ => trivial) fun x _ => hf x

/-- The last of what has been read may grow. -/
theorem grow {last : List Tree} {p : Reading α} {f : α → Reading β} (hp : Lays text last p)
    (hf : ∀ x, Lays text (done ++ trees x) (f x)) : Lays text (done ++ last) (p >>= f) := by
  intro s lo y s' here before h
  obtain ⟨x, s₁, first, rest⟩ := bind_eq_some.1 h
  obtain ⟨mid, front, back⟩ := Laid.append_iff.1 before
  obtain ⟨there, grows, laid⟩ := hp s mid x s₁ here back first
  obtain ⟨there', grows', laid'⟩ :=
    hf x s₁ lo y s' there ((grows.laid front back.le_of_laid).append laid) rest
  exact ⟨there', grows.trans grows', laid'⟩

/-- All that has been read may grow. -/
theorem growAll {p : Reading α} {f : α → Reading β} (hp : Lays text done p)
    (hf : ∀ x, Lays text (trees x) (f x)) : Lays text done (p >>= f) :=
  (grow hp hf : Lays text ([] ++ done) (p >>= f))

/-- Looking ahead reads nothing. -/
theorem look {γ : Type} {p : Reading γ} {f : γ → Reading β} (hp : Quiet p)
    (hf : ∀ x, Lays text done (f x)) : Lays text done (p >>= f) := by
  intro s lo y s' here before h
  obtain ⟨x, s₁, first, rest⟩ := bind_eq_some.1 h
  rw [hp s x s₁ first] at rest
  exact hf x s lo y s' here before rest

theorem orElse {p q : Reading α} (hp : Lays text done p) (hq : Lays text done q) :
    Lays text done (p <|> q) := by
  intro s lo x s' here before h
  rcases orElse_eq_some h with first | second
  · exact hp s lo x s' here before first
  · exact hq s lo x s' here before second

/-- What is looked at once may be read in two ways. -/
theorem bind_orElse {γ : Type} {p : Reading γ} {f g : γ → Reading β}
    (hf : Lays text done (p >>= f)) (hg : Lays text done (p >>= g)) :
    Lays text done (p >>= fun x => f x <|> g x) := by
  intro s lo y s' here before h
  obtain ⟨x, s₁, first, rest⟩ := bind_eq_some.1 h
  rcases orElse_eq_some rest with one | other
  · exact hf s lo y s' here before (bind_eq_some.2 ⟨x, s₁, first, one⟩)
  · exact hg s lo y s' here before (bind_eq_some.2 ⟨x, s₁, first, other⟩)

theorem ite {c : Prop} [Decidable c] {p q : Reading α} (hp : Lays text done p)
    (hq : Lays text done q) : Lays text done (if c then p else q) := by
  split
  · exact hp
  · exact hq

theorem fail : Lays text done (failure : Reading α) := by
  intro s lo x s' here before h
  cases h

theorem fail_bind {γ : Type} {f : γ → Reading β} :
    Lays text done ((failure : Reading γ) >>= f) := by
  intro s lo x s' here before h
  cases h

/-- Trees that differ in the parts they play can be given for those that have been read. -/
theorem give {x : α} (alike : done.map Tree.bare = (trees x).map Tree.bare) :
    Lays text done (pure x) := by
  intro s lo y s' here before h
  obtain ⟨rfl, rfl⟩ := pure_eq_some.1 h
  exact ⟨here, .refl s, before.of_bare alike⟩

/-- The last of what has been read may be read as something else that lies there. -/
theorem change {last last' : List Tree} {p : Reading α}
    (alike : ∀ {page : Page} lo hi, Laid page true lo last hi → Laid page true lo last' hi)
    (h : Lays text (done ++ last') p) : Lays text (done ++ last) p := by
  intro s lo x s' here before read
  obtain ⟨mid, front, back⟩ := Laid.append_iff.1 before
  exact h s lo x s' here (front.append (alike mid s.last back)) read

/-- All that has been read may be read as something else that lies there. -/
theorem changeAll {last : List Tree} {p : Reading α}
    (alike : ∀ {page : Page} lo hi, Laid page true lo done hi → Laid page true lo last hi)
    (h : Lays text last p) : Lays text done p :=
  (change alike h : Lays text ([] ++ done) p)

/-- The first of what has been read may be read as the name of a type. -/
theorem typeName {t : Tree} {ts : List Tree} {p : Reading α}
    (h : Lays text (t.asTypeName :: ts) p) : Lays text (t :: ts) p :=
  fun s lo x s' here before read => h s lo x s' here before.asTypeName_cons read

/-- A node over all that has been read. -/
theorem nodeOf {kind : Kind} {children : List Tree}
    (alike : done.map Tree.bare = children.map Tree.bare) (given : children ≠ [])
    (takes : kind.Takes children) : Lays text done (Reading.node kind children) := by
  intro s lo x s' here before h
  obtain ⟨first, rest, rfl⟩ := List.exists_cons_of_ne_nil given
  have laid := before.of_bare alike
  cases h
  obtain ⟨solid, wide⟩ := laid.2.1.resolve_right nofun
  have stands : first.start < s.last := Nat.lt_of_lt_of_le wide laid.2.2.2.le_of_laid
  refine ⟨here, .refl s, laid.1, .inl ⟨solid, stands⟩, ⟨⟨takes, laid.2.2.1.clear⟩, ?_⟩,
    Nat.le_refl _⟩
  have inner : Laid ⟨text, s.comments⟩ true first.start (first :: rest) s.last :=
    ⟨Nat.le_refl _, laid.2⟩
  exact inner.weaken

theorem node {kind : Kind} {children : List Tree}
    (alike : done.map Tree.bare = children.map Tree.bare) (given : children ≠ [])
    (takes : kind.takesParts = true) : Lays text done (Reading.node kind children) :=
  nodeOf alike given (Kind.takes takes children)

end Lays

/-! ## Repetition -/

theorem one_lays {p : Reading Tree} (h : Lays text [] p) : Lays text [] (one p) :=
  h.bind fun _ => .give rfl

theorem as_lays {p : Reading Tree} (h : Lays text [] p) (part : Field) :
    Lays text [] (as part p) :=
  h.bind fun _ => .give (by simp)

theorem opt_lays {p : Reading (List Tree)} (h : Lays text [] p) : Lays text [] (opt p) :=
  h.orElse (.give rfl)

private theorem manyUpTo_lays {p : Reading (List Tree)} (h : Lays text [] p) (fuel : Nat) :
    Lays text [] (manyUpTo p fuel) := by
  induction fuel with
  | zero => exact .give rfl
  | succ fuel ih =>
    refine .orElse (h.bind fun first => ?_) (.give rfl)
    exact ih.bind fun more => .give (by simp)

theorem many_lays {p : Reading (List Tree)} (h : Lays text [] p) : Lays text [] (many p) :=
  .look quiet_get fun _ => manyUpTo_lays h _

/-! ## Tokens -/

/-- A token that follows white space and comments is laid behind what was read before. -/
private theorem token_laid {s s' : Scan} {t : Tree} {kind : Kind} {width lo : Nat}
    (read : kind.isToken = true) (here : s.In text) (before : lo ≤ s.last)
    (fits : 0 < width ∧ width ≤ (s.skip breaks).rest.length)
    (h : token breaks kind width s = some (t, s')) :
    s'.In text ∧ s.Grows s' ∧ Laid ⟨text, s'.comments⟩ true lo [t] s'.last := by
  cases h
  have more : (s.skip breaks).rest ≠ [] := List.length_pos_iff.1 (Nat.lt_of_lt_of_le fits.1 fits.2)
  refine ⟨(here.skip breaks).take ((here.skip breaks).fits fits.1 fits.2),
    (here.grows_skip breaks).trans ((here.skip breaks).grows_take width), ?_,
    .inl ⟨here.solid_skip more, Nat.lt_add_of_pos_right fits.1⟩, ?_, Nat.le_refl _⟩
  · have := (here.skip breaks).last_le
    rw [here.last_skip] at this
    exact Nat.le_trans before this
  · exact ⟨⟨Kind.takes_nil read, (here.skip breaks).clear⟩, Nat.le_add_right _ _⟩

theorem token_laysAt {s : Scan} (kind : Kind) (width : Nat) (read : kind.isToken = true)
    (fits : 0 < width ∧ width ≤ (s.skip breaks).rest.length) :
    LaysAt text [] s (token breaks kind width) :=
  fun _ _ _ here before h => token_laid read here before fits h

theorem symbol_lays (breaks : Bool) (spelling : String)
    (given : (spelling : Text).isEmpty = false) :
    Lays text [] (symbol breaks spelling) := by
  intro s lo t s' here before h
  obtain ⟨found, s₁, looked, rest⟩ := bind_eq_some.1 h
  cases looked
  split at rest
  · rename_i starts
    obtain ⟨more, whole⟩ := Text.startsWith_iff.1 starts
    have spelled := List.isEmpty_eq_false_iff.1 given
    refine token_laid rfl here before ⟨List.length_pos_iff.2 spelled, ?_⟩ rest
    rw [whole, List.length_append]
    exact Nat.le_add_right _ _
  · cases rest

theorem keyword_lays (breaks : Bool) (spelling : String)
    (given : (spelling : Text).isEmpty = false) :
    Lays text [] (keyword breaks spelling) := by
  intro s lo t s' here before h
  obtain ⟨found, s₁, looked, rest⟩ := bind_eq_some.1 h
  cases looked
  split at rest
  · rename_i same
    have word := List.isEmpty_eq_false_iff.1 given
    refine token_laid rfl here before ⟨List.length_pos_iff.2 word, ?_⟩ rest
    rw [← same]
    exact List.length_take_le' _ _
  · cases rest

theorem word_lays (breaks : Bool) (kind : Kind) (reserved : List Text)
    (plain : kind.isToken = true) : Lays text [] (word breaks kind reserved) := by
  intro s lo t s' here before h
  obtain ⟨found, s₁, looked, rest⟩ := bind_eq_some.1 h
  cases looked
  split at rest
  · cases rest
  · rename_i free
    -- A word that is not reserved is not empty, as the empty word is.
    have read : (s.skip breaks).rest.take (Text.identifierWidth (s.skip breaks).rest) ≠ [] := by
      intro none_read
      refine free ?_
      rw [none_read]
      rfl
    exact token_laid plain here before
      ⟨List.length_pos_iff.2 read, List.length_take_le' _ _⟩ rest

theorem separated_lays {item : Reading Tree} (h : Lays text [] item) (breaks : Bool)
    (separator : String) (given : (separator : Text).isEmpty = false) :
    Lays text [] (separated breaks separator item) := by
  refine h.bind fun first => ?_
  refine .bind (many_lays ?_) fun more => .give (by simp)
  exact (symbol_lays breaks separator given).bind fun s => h.bind fun t => .give (by simp)

/-- Items with separators are at least one. -/
theorem separated_ne_nil {item : Reading Tree} {breaks : Bool} {separator : String} {s s' : Scan}
    {ts : List Tree} (h : separated breaks separator item s = some (ts, s')) : ts ≠ [] := by
  obtain ⟨first, s₁, -, rest⟩ := bind_eq_some.1 h
  obtain ⟨more, s₂, -, rest⟩ := bind_eq_some.1 rest
  obtain ⟨rfl, -⟩ := pure_eq_some.1 rest
  exact List.cons_ne_nil first more

theorem terminator_lays : Lays text [] terminator := by
  intro s
  refine LaysAt.get ?_
  dsimp only
  split
  · -- A line break leaves no tree.
    rename_i left
    intro lo ts s' here before h
    cases h
    refine ⟨(here.skip false).take ((here.skip false).fits Nat.one_pos ?_),
      (here.grows_skip false).trans ((here.skip false).grows_take 1), ?_⟩
    · rw [left]
      exact Nat.succ_pos _
    have low := (here.skip false).last_le
    rw [here.last_skip] at low
    exact Nat.le_trans before (Nat.le_trans low (Nat.le_add_right _ _))
  · exact Lays.bind (symbol_lays false ";" rfl) (fun t => .give rfl) s
  · rename_i left
    intro lo ts s' here before h
    obtain ⟨t, s₁, read, rest⟩ := bind_eq_some.1 h
    cases rest
    refine token_laid rfl here before ⟨Nat.one_pos, ?_⟩ read
    rw [left]
    exact Nat.succ_pos _
  · exact Lays.fail s

end Reading

end Interlace.Syntax
