import Interlace.Proofs.OrderedReading
import Interlace.Proofs.TokenWidths
import Interlace.Syntax.Types

/-!
# Types in source order

Literals, types, parameters and fields are read in order, given that the recursive rules are.

## Key results

- `Literal.string_lays`: string literals are read in order
- `Rules.Ordered`: the recursive rules read in order
- `Rules.typeRule_lays`: types are read in order
-/

namespace Interlace.Syntax

open Reading HasTrees

variable {text : Text}

/-! ## Literals -/

namespace Literal

/-- The pieces of a string are laid from the position on. -/
def PiecesAt (text : Text) (s : Scan) (p : Reading (List Tree)) : Prop :=
  ∀ ts s', s.In text → p s = some (ts, s') →
    s'.In text ∧ s.Grows s' ∧ Laid ⟨text, s'.comments⟩ false s.last ts s'.last

theorem PiecesAt.get {s : Scan} {f : Scan → Reading (List Tree)} (h : PiecesAt text s (f s)) :
    PiecesAt text s (get >>= f) := by
  intro ts s' here read
  obtain ⟨s₀, s₁, looked, rest⟩ := bind_eq_some.1 read
  cases looked
  exact h ts s' here rest

/-- A piece and what follows it. -/
theorem PiecesAt.cons {s : Scan} {kind : Kind} {width : Nat} {p : Reading (List Tree)}
    (piece : kind.isPiece = true) (takes : kind.takesParts = true)
    (fits : 0 < width ∧ width ≤ s.rest.length)
    (h : PiecesAt text (s.take width) p) :
    PiecesAt text s (do
      let t ← (do set (s.take width); return Tree.leaf kind s.offset (s.offset + width))
      return t :: (← p)) := by
  intro ts s' here read
  obtain ⟨t, s₁, first, rest⟩ := bind_eq_some.1 read
  cases first
  obtain ⟨more, s₂, second, rest⟩ := bind_eq_some.1 rest
  cases rest
  obtain ⟨there, grows, laid⟩ := h more s' (here.take (here.fits fits.1 fits.2)) second
  have first : Laid ⟨text, s.comments⟩ false s.last
      [Tree.leaf kind s.offset (s.offset + width)] (s.offset + width) :=
    ⟨here.last_le, .inr ⟨rfl, piece⟩, ⟨⟨Kind.takes takes _, here.clear⟩, Nat.le_add_right _ _⟩,
      Nat.le_refl _⟩
  exact ⟨there, (here.grows_take width).trans grows,
    (grows.laid first (Nat.le_refl _)).append laid⟩

theorem PiecesAt.fail {s : Scan} : PiecesAt text s failure := by
  intro ts s' here read
  cases read

private theorem solid_of_rest {s : Scan} {b : UInt8} {t : Text} (here : s.In text)
    (left : s.rest = b :: t) (solid : Text.isBlank b = false) : Solid text s.offset := by
  refine ⟨b, ?_, solid⟩
  rw [← here.head, left]
  rfl

private theorem stringPieces_laid (fuel : Nat) (s : Scan) :
    PiecesAt text s (stringPieces fuel) := by
  induction fuel generalizing s with
  | zero => exact .fail
  | succ fuel ih =>
    rw [stringPieces]
    refine .get ?_
    dsimp only
    split
    · -- The closing quote is a token.
      rename_i left
      intro ts s' here read
      cases read
      have quote := solid_of_rest here left rfl
      have there := here.take (here.fits Nat.one_pos (by rw [left]; exact Nat.succ_pos _))
      exact ⟨there, here.grows_take 1, here.last_le, .inl ⟨quote, Nat.lt_succ_self _⟩,
        ⟨⟨Kind.takes rfl _, here.clear⟩, Nat.le_add_right _ _⟩, Nat.le_refl _⟩
    · split
      · rename_i escaped
        exact .cons rfl rfl (escape?_fits _ _ escaped) (ih _)
      · exact .fail
    · exact .fail
    · exact .fail
    · -- What is none of these is at least one byte of the string.
      rename_i unquoted unescaped unbroken some_left
      refine .cons rfl rfl ⟨?_, (List.takeWhile_sublist _).length_le⟩ (ih _)
      obtain ⟨b, rest, left⟩ := List.exists_cons_of_ne_nil some_left
      have quote : b ≠ 0x22 := fun same => unquoted rest (same ▸ left)
      have escape : b ≠ 0x5C := fun same => unescaped rest (same ▸ left)
      have break_ : b ≠ 0x0A := fun same => unbroken rest (same ▸ left)
      rw [left, List.takeWhile_cons_of_pos (by simp [quote, escape, break_])]
      exact Nat.succ_pos _

/-- A quote and the pieces behind it make a literal that is laid. -/
private theorem laid_node {page : Page} {kind : Kind} {lo mid hi : Nat} {quote : Tree}
    {pieces : List Tree} (free : kind.isStrict = false) (takes : kind.takesParts = true)
    (opened : Laid page true lo [quote] mid) (inner : Laid page false mid pieces hi) :
    Laid page true lo [.node kind none quote.start hi (quote :: pieces)] hi := by
  obtain ⟨low, stands, orderly, high⟩ := laid_singleton.1 opened
  obtain ⟨solid, wide⟩ := stands.resolve_right nofun
  have parts : Laid page false quote.start (quote :: pieces) hi :=
    ⟨Nat.le_refl _, .inl ⟨solid, wide⟩, orderly, inner.lower high⟩
  have long : quote.start < hi := Nat.lt_of_lt_of_le wide (Nat.le_trans high inner.le_of_laid)
  refine laid_singleton.2 ⟨low, .inl ⟨solid, long⟩, ⟨⟨Kind.takes takes _, orderly.clear⟩, ?_⟩,
    Nat.le_refl _⟩
  rwa [free]

/-- String literals are read in order. -/
theorem string_lays (breaks : Bool) : Lays text [] (string breaks) := by
  refine .look (quiet_ahead breaks) fun ahead => ?_
  split
  · intro s lo t s' here before read
    obtain ⟨quote, s₁, first, read⟩ := bind_eq_some.1 read
    obtain ⟨there, grows, opened⟩ := symbol_lays breaks "\"" rfl s lo quote s₁ here before first
    obtain ⟨s₂, s₃, looked, read⟩ := bind_eq_some.1 read
    cases looked
    obtain ⟨pieces, s₄, second, read⟩ := bind_eq_some.1 read
    obtain ⟨behind, grows', inner⟩ := stringPieces_laid _ s₁ pieces s₄ there second
    cases read
    exact ⟨behind, grows.trans grows',
      laid_node rfl rfl (grows'.laid opened (Nat.le_refl _)) inner⟩
  · -- What is between the quotes is one piece.
    intro s lo t s' here before read
    obtain ⟨quote, s₁, first, read⟩ := bind_eq_some.1 read
    obtain ⟨there, grows, opened⟩ :=
      symbol_lays breaks "\x60" rfl s lo quote s₁ here before first
    obtain ⟨s₂, s₃, looked, read⟩ := bind_eq_some.1 read
    cases looked
    obtain ⟨u, s₄, taken, read⟩ := bind_eq_some.1 read
    cases taken
    obtain ⟨s₅, s₆, looked, read⟩ := bind_eq_some.1 read
    cases looked
    have closing := there.drop (s₁.rest.takeWhile (· ≠ 0x60)).length
    generalize (s₁.rest.takeWhile (· ≠ 0x60)).length = width at *
    change StateT.run _ _ = _ at read
    split at read
    · rename_i left
      cases read
      have fits := closing.fits Nat.one_pos (left ▸ Nat.succ_pos _)
      have closing := there.take (Nat.le_of_lt fits)
      refine ⟨closing.take fits,
        grows.trans ((there.grows_take width).trans (closing.grows_take 1)),
        laid_node rfl rfl opened ?_⟩
      have quote := solid_of_rest closing left rfl
      exact ⟨there.last_le, .inr ⟨rfl, rfl⟩,
        ⟨⟨Kind.takes rfl _, there.clear⟩, Nat.le_add_right _ _⟩,
        Nat.le_refl _, .inl ⟨quote, Nat.lt_succ_self _⟩,
        ⟨⟨Kind.takes rfl _, closing.clear⟩, Nat.le_add_right _ _⟩, Nat.le_refl _⟩
    · cases read
  · exact .fail

end Literal

/-- The recursive rules read in order. -/
def Rules.Ordered (text : Text) (rules : Rules) : Prop :=
  ∀ rule, Lays text [] (rules rule)

namespace Rules

variable {rules : Rules} (h : rules.Ordered text)

include h

theorem expressions_lays (follow : Follow) : Lays text [] (rules.expressions follow) := by
  refine .bindOf (separated_lays (h _) _ "," rfl) (fun _ _ _ => separated_ne_nil)
    fun items given => ?_
  exact .node (by simp) given rfl

private theorem typeElem_lays (closed : Bool) : Lays text [] (rules.typeElem closed) := by
  refine .bindOf (separated_lays (h _) _ "|" rfl) (fun _ _ _ => separated_ne_nil)
    fun items given => ?_
  exact .node (by simp) given rfl

theorem typeArguments_lays (breaks : Bool) : Lays text [] (rules.typeArguments breaks) := by
  refine .bind (symbol_lays breaks "[" rfl) fun opening => ?_
  refine .bind (separated_lays (typeElem_lays h false) true "," rfl) fun items => ?_
  refine .bind (opt_lays (one_lays (symbol_lays true "," rfl))) fun comma => ?_
  refine .bind (symbol_lays true "]" rfl) fun closing => ?_
  exact .node (by simp) (by simp) rfl

private theorem instantiated_lays (closed : Bool) (type : Tree) :
    Lays text [type] (rules.instantiated closed type) := by
  refine .orElse ?_ (.give rfl)
  refine .bind (typeArguments_lays h _) fun arguments => ?_
  exact .node (by simp) (by simp) rfl

omit h in
private theorem typeName_lays (closed : Bool) (reserved : List Text) :
    Lays text [] (typeName closed reserved) := by
  refine .bind (word_lays true .typeIdentifier reserved rfl) fun name => ?_
  refine .orElse (.change (fun lo hi laid => laid.withKind (k := .packageIdentifier) rfl rfl) ?_)
    (.give rfl)
  refine .bind (symbol_lays _ "." rfl) fun dot => ?_
  refine .bind (word_lays true .typeIdentifier [] rfl) fun member => ?_
  exact .node (by simp) (by simp) rfl

private theorem parameter_lays : Lays text [] rules.parameter := by
  have name : Lays text [] (as .name (word true .identifier typeWords)) :=
    as_lays (word_lays true .identifier typeWords rfl) .name
  have type := as_lays (h (.type false)) .type
  -- The three forms are variadic, with names, and a type alone.
  refine .orElse ?_ (.orElse ?_ ?_)
  · refine .bind (opt_lays (one_lays name)) fun name => ?_
    refine .bind (symbol_lays true "..." rfl) fun dots => ?_
    refine .bind type fun type => ?_
    exact .node (by simp) (by simp) rfl
  · refine .bind (separated_lays name true "," rfl) fun names => ?_
    refine .bind type fun type => ?_
    refine .look (quiet_sees true ",") fun comma => .look (quiet_sees true ")") fun closing => ?_
    split
    · exact .node (by simp) (by simp) rfl
    · exact .fail
  · refine .bind type fun type => ?_
    exact .node (by simp) (by simp) rfl

theorem parameterList_lays (breaks : Bool) : Lays text [] (rules.parameterList breaks) := by
  refine .bind (symbol_lays breaks "(" rfl) fun opening => ?_
  refine .bind (opt_lays (separated_lays (parameter_lays h) true "," rfl)) fun items => ?_
  refine .bind (opt_lays (one_lays (symbol_lays true "," rfl))) fun comma => ?_
  refine .bind (symbol_lays true ")" rfl) fun closing => ?_
  exact .node (by simp) (by simp) rfl

private theorem result_lays (closed : Bool) : Lays text [] (rules.result closed) := by
  refine .look (quiet_sees _ "(") fun opens => ?_
  split
  · exact parameterList_lays h _
  · refine .look (quiet_ahead false) fun ahead => ?_
    split
    · exact .fail
    · exact h _

theorem signature_lays (closed : Bool) : Lays text [] (rules.signature closed) := by
  refine .bind (as_lays (parameterList_lays h true) .parameters) fun parameters => ?_
  refine .bind (opt_lays (one_lays (as_lays (result_lays h closed) .result))) fun result => ?_
  exact .give (by simp)

private theorem methodElem_lays : Lays text [] rules.methodElem := by
  refine .bind (as_lays (word_lays true .fieldIdentifier [] rfl) .name) fun name => ?_
  refine .look (quiet_sees false "(") fun opens => ?_
  split
  · refine .bind (signature_lays h true) fun signature => ?_
    exact .node (by simp) (by simp) rfl
  · exact .fail

omit h in
private theorem bracedItems_lays {item : Reading Tree} (read : Lays text [] item) :
    Lays text [] (bracedItems item) := by
  refine .bind (symbol_lays true "\x7b" rfl) fun opening => ?_
  refine .bind (opt_lays (read.bind fun first => ?_)) fun items => ?_
  · refine .bind (many_lays (.bind terminator_lays fun stop => ?_)) fun more => ?_
    · exact read.bind fun item => .give (by simp)
    · exact .bind (opt_lays terminator_lays) fun stop => .give (by simp)
  · exact .bind (symbol_lays true "\x7d" rfl) fun closing => .give (by simp)

omit h in
private theorem bracedItems_ne_nil {item : Reading Tree} {s s' : Scan} {ts : List Tree}
    (read : bracedItems item s = some (ts, s')) : ts ≠ [] := by
  obtain ⟨opening, s₁, -, read⟩ := bind_eq_some.1 read
  obtain ⟨items, s₂, -, read⟩ := bind_eq_some.1 read
  obtain ⟨closing, s₃, -, read⟩ := bind_eq_some.1 read
  obtain ⟨rfl, -⟩ := pure_eq_some.1 read
  simp

omit h in
private theorem fieldTag_lays : Lays text [] fieldTag :=
  opt_lays (one_lays (as_lays (Literal.string_lays false) .tag))

omit h in
private theorem quiet_fieldEnds : Quiet fieldEnds := by
  refine (quiet_ahead false).bind fun ahead => ?_
  split <;> exact quiet_pure _

private theorem fieldDeclaration_lays : Lays text [] rules.fieldDeclaration := by
  -- A field is embedded, or has names before its type.
  refine .orElse ?_ ?_
  · refine .bind (opt_lays (one_lays (symbol_lays true "*" rfl))) fun star => ?_
    refine .bind (typeName_lays true []) fun name => ?_
    refine .grow (instantiated_lays h true name) fun type => ?_
    refine .bind fieldTag_lays fun tag => ?_
    refine .look quiet_fieldEnds fun ends => ?_
    split
    · exact .node (by simp) (by simp) rfl
    · exact .fail
  · have name : Lays text [] (as .name (word true .fieldIdentifier [])) :=
      as_lays (word_lays true .fieldIdentifier [] rfl) .name
    refine .bind (separated_lays name true "," rfl) fun names => ?_
    refine .bind (as_lays (h _) .type) fun type => ?_
    refine .bind fieldTag_lays fun tag => ?_
    exact .node (by simp) (by simp) rfl

theorem structType_lays : Lays text [] rules.structType := by
  refine .bind (keyword_lays true "struct" rfl) fun struct => ?_
  refine .bindOf (bracedItems_lays (fieldDeclaration_lays h)) (fun _ _ _ => bracedItems_ne_nil)
    fun items given => ?_
  refine .grow (.node rfl given rfl) fun fields => ?_
  exact .node (by simp) (by simp) rfl

theorem interfaceType_lays : Lays text [] rules.interfaceType := by
  refine .bind (keyword_lays true "interface" rfl) fun interface => ?_
  refine .bind (bracedItems_lays (.orElse (methodElem_lays h) (typeElem_lays h true)))
    fun items => ?_
  exact .node (by simp) (by simp) rfl

theorem mapType_lays (closed : Bool) : Lays text [] (rules.mapType closed) := by
  refine .bind (keyword_lays true "map" rfl) fun map => ?_
  refine .bind (symbol_lays true "[" rfl) fun opening => ?_
  refine .bind (as_lays (h _) .key) fun key => ?_
  refine .bind (symbol_lays true "]" rfl) fun closing => ?_
  refine .bind (as_lays (h _) .value) fun value => ?_
  exact .node (by simp) (by simp) rfl

theorem channelType_lays (closed : Bool) : Lays text [] (rules.channelType closed) := by
  have value := as_lays (h (.type closed)) .value
  refine .orElse ?_ (.orElse ?_ ?_)
  · refine .bind (symbol_lays true "<-" rfl) fun arrow => ?_
    refine .bind (keyword_lays true "chan" rfl) fun chan => ?_
    exact .bind value fun value => .node (by simp) (by simp) rfl
  · refine .bind (keyword_lays true "chan" rfl) fun chan => ?_
    exact .bind value fun value => .node (by simp) (by simp) rfl
  · refine .bind (keyword_lays true "chan" rfl) fun chan => ?_
    refine .bind (symbol_lays true "<-" rfl) fun arrow => ?_
    exact .bind value fun value => .node (by simp) (by simp) rfl

theorem functionType_lays (closed : Bool) : Lays text [] (rules.functionType closed) := by
  refine .bind (keyword_lays true "func" rfl) fun func => ?_
  refine .bind (signature_lays h closed) fun signature => ?_
  exact .node (by simp) (by simp) rfl

theorem sequenceType_lays (closed : Bool) : Lays text [] (rules.sequenceType closed) := by
  refine .bind (symbol_lays true "[" rfl) fun opening => ?_
  refine .look (quiet_sees true "]") fun empty => ?_
  split
  · refine .bind (symbol_lays true "]" rfl) fun closing => ?_
    refine .bind (as_lays (h _) .element) fun element => ?_
    exact .node (by simp) (by simp) rfl
  · refine .bind (as_lays (h _) .length) fun length => ?_
    refine .bind (symbol_lays true "]" rfl) fun closing => ?_
    refine .bind (as_lays (h _) .element) fun element => ?_
    exact .node (by simp) (by simp) rfl

theorem countedArrayType_lays : Lays text [] rules.countedArrayType := by
  refine .bind (symbol_lays true "[" rfl) fun opening => ?_
  refine .bind (symbol_lays true "..." rfl) fun dots => ?_
  refine .bind (symbol_lays true "]" rfl) fun closing => ?_
  refine .bind (as_lays (h _) .element) fun element => ?_
  exact .node (by simp) (by simp) rfl

theorem typeRule_lays (closed : Bool) : Lays text [] (rules.typeRule closed) := by
  -- The cases are those of the first token, which decides on the form of the type.
  refine .look (quiet_ahead true) fun ahead => ?_
  split
  · refine .bind (symbol_lays true "*" rfl) fun star => ?_
    exact .bind (h _) fun type => .node (by simp) (by simp) rfl
  · refine .bind (symbol_lays true "(" rfl) fun opening => ?_
    refine .bind (h _) fun type => ?_
    refine .bind (symbol_lays true ")" rfl) fun closing => ?_
    exact .node (by simp) (by simp) rfl
  · exact sequenceType_lays h closed
  · refine .bind (symbol_lays true "~" rfl) fun tilde => ?_
    refine .bind (h _) fun type => ?_
    refine .growAll (.node (by simp) (by simp) rfl) fun negated => ?_
    exact instantiated_lays h closed negated
  · exact channelType_lays h closed
  · refine .look (quiet_aheadWord true) fun w => ?_
    split
    · exact functionType_lays h closed
    split
    · exact mapType_lays h closed
    split
    · exact channelType_lays h closed
    split
    · exact structType_lays h
    split
    · exact interfaceType_lays h
    · exact .bind (typeName_lays closed []) fun name => instantiated_lays h closed name

private theorem typeParameter_lays : Lays text [] rules.typeParameter := by
  refine .bind (separated_lays (as_lays (word_lays true .identifier [] rfl) .name) true "," rfl)
    fun names => ?_
  refine .bind (typeElem_lays h false) fun constraint => ?_
  refine .change (fun lo hi laid => laid.withKind (k := .typeConstraint) rfl rfl) ?_
  exact .node (by simp) (by simp) rfl

theorem typeParameterList_lays : Lays text [] rules.typeParameterList := by
  refine .bind (symbol_lays true "[" rfl) fun opening => ?_
  refine .bind (separated_lays (typeParameter_lays h) true "," rfl) fun items => ?_
  refine .bind (opt_lays (one_lays (symbol_lays true "," rfl))) fun comma => ?_
  refine .bind (symbol_lays true "]" rfl) fun closing => ?_
  exact .node (by simp) (by simp) rfl

end Rules

end Interlace.Syntax
