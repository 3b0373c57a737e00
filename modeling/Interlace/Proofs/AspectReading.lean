import Interlace.Aspect.Codec
import Interlace.Proofs.StoredEntries
import Interlace.Proofs.TypeReferences

/-!
# Aspects and their texts

An aspect is read from its text as it was. Every record of an aspect is written field by field in
the order of its shape, and a field that is left out has the value that reading starts with; every
choice is written under its name.

## Key results

- `Json.Fills.conveys`: a record is decoded from the members that fill it
- `JoinPoint.conveys`: join points, by recursion over the join point
- `Aspect.text_determines`: aspects are read back, so different aspects have different texts
-/

namespace Interlace

namespace Json

/-! ## Values that stand for something -/

/-- A whole value from which a decoder gives `a`. -/
structure Conveys {α : Type} (decode : Json → Decoded α) (j : Json) (a : α) : Prop where
  whole : j.IsWhole
  decoded : decode j = .ok a

variable {α β : Type} {encode : α → Json} {decode : Json → Decoded α} {j : Json} {a : α}

private theorem conveys_text {t : Text} (good : t.WellFormed) : Conveys asText (.string t) t :=
  ⟨good, rfl⟩

private theorem conveys_bool (b : Bool) : Conveys asBool (.bool b) b :=
  ⟨trivial, rfl⟩

private theorem conveys_nat {n : Nat} (small : n < 0x10000000000000000) :
    Conveys asNat (.nat n) n :=
  ⟨small, rfl⟩

theorem Conveys.map (h : Conveys decode j a) (f : α → β) :
    Conveys (fun j => (decode j).map f) j (f a) :=
  ⟨h.whole, by rw [h.decoded]; rfl⟩

/-- What is given is something that may be absent. -/
private theorem Conveys.option (h : Conveys decode j a) (given : j ≠ .null) :
    Conveys (asOption decode) j (some a) := by
  refine ⟨h.whole, ?_⟩
  have present : asOption decode j = (decode j).map some := by
    cases j <;> first | rfl | exact absurd rfl given
  rw [present, h.decoded]
  rfl

private theorem conveys_list {l : List α} (h : ∀ a ∈ l, Conveys decode (encode a) a) :
    Conveys (asList decode) (.list (l.map encode)) l := by
  have items : AllWhole (l.map encode) ∧ (l.map encode).mapM decode = .ok l := by
    induction l with
    | nil => exact ⟨trivial, rfl⟩
    | cons a l ih =>
      have first := h a List.mem_cons_self
      obtain ⟨whole, decoded⟩ := ih fun b hb => h b (List.mem_cons_of_mem a hb)
      refine ⟨⟨first.whole, whole⟩, ?_⟩
      rw [List.map_cons, List.mapM_cons, first.decoded, decoded]
      rfl
  refine ⟨items.1, ?_⟩
  show ((l.map encode).mapM decode >>= _) = _
  rw [items.2]
  rfl

private theorem conveys_dict {d : Dict Text}
    (h : ∀ e ∈ d.entries, e.1.WellFormed ∧ e.2.WellFormed) :
    Conveys (asDict asText) d.toJson d := by
  have whole : WholeWithin 2 (ofDict .string d) :=
    wholeWithin_ofDict fun e he => ⟨(h e he).1, wholeWithin_string (h e he).2 0⟩
  exact ⟨whole.1, asDict_ofDict fun _ _ => rfl⟩

/-! ## Records -/

/-- The members give fields in order, from `s` to `r`; those left out need not be given. -/
inductive Fills {σ : Type} : List (FieldShape σ) → List (Text × Json) → σ → σ → Prop where
  | done (s : σ) : Fills [] [] s s
  | given {field : FieldShape σ} {fields : List (FieldShape σ)} {j : Json}
      {members : List (Text × Json)} {s s' r : σ} (here : Conveys (field.set · s) j s')
      (rest : Fills fields members s' r) :
      Fills (field :: fields) ((field.name, j) :: members) s r
  | absent {field : FieldShape σ} {fields : List (FieldShape σ)} {members : List (Text × Json)}
      {s r : σ} (free : field.presence ≠ .always) (rest : Fills fields members s r) :
      Fills (field :: fields) members s r

/-- The names of the fields are UTF-8, and each names one field. -/
def RecordShape.Named {σ : Type} (shape : RecordShape σ) : Prop :=
  shape.names.Nodup ∧ ∀ name ∈ shape.names, name.WellFormed

instance {σ : Type} (shape : RecordShape σ) : Decidable shape.Named :=
  inferInstanceAs (Decidable (_ ∧ _))

section Records

variable {σ : Type} {shape : RecordShape σ} {fields : List (FieldShape σ)}
  {members : List (Text × Json)} {name : Text} {presence : Presence} {s r : σ}

/-- A field that holds a decoded value. -/
theorem Fills.put {put : α → σ → σ} (h : Conveys decode j a)
    (rest : Fills fields members (put a s) r) :
    Fills (⟨name, presence, fun j s => (decode j).map fun v => put v s⟩ :: fields)
      ((name, j) :: members) s r :=
  .given (h.map fun v => put v s) rest

/-- A field that is written only if there is something to say. -/
theorem Fills.optional {put : Option α → σ → σ} {o : Option α}
    (h : ∀ a ∈ o, Conveys decode (encode a) a) (solid : ∀ a, encode a ≠ .null)
    (blank : put none s = s) (rest : Fills fields members (put o s) r) :
    Fills (⟨name, .optional, fun j s => (asOption decode j).map fun v => put v s⟩ :: fields)
      (Json.optional name encode o ++ members) s r := by
  cases o with
  | none => exact .absent nofun (blank ▸ rest)
  | some a => exact .put ((h a rfl).option (solid a)) rest

/-- A field that is written only if the dictionary has entries. -/
theorem Fills.optionalDict {put : Dict Text → σ → σ} {d : Dict Text}
    (h : ∀ e ∈ d.entries, e.1.WellFormed ∧ e.2.WellFormed) (blank : put .empty s = s)
    (rest : Fills fields members (put d s) r) :
    Fills (⟨name, .optional, fun j s => (asDict asText j).map fun v => put v s⟩ :: fields)
      (Json.optionalDict name d ++ members) s r := by
  unfold Json.optionalDict
  split
  · rename_i none
    rw [Dict.eq_empty_of_isEmpty none, blank] at rest
    exact .absent nofun rest
  · exact .put (conveys_dict h) rest

/-- Members that fill the fields behind `before` set them, if those to be given among the first
have been `seen`. -/
theorem Fills.setMembers (h : Fills fields members s r) (named : shape.Named)
    (before : List (FieldShape σ)) (seen : List Text) (parts : shape.fields = before ++ fields)
    (past : ∀ name ∈ seen, name ∈ before.map FieldShape.name)
    (due : ∀ f ∈ before, f.presence = .always → f.name ∈ seen) :
    MembersWhole members ∧ ∃ seen', shape.setMembers seen s members = .ok (seen', r) ∧
      ∀ f ∈ shape.fields, f.presence = .always → f.name ∈ seen' := by
  induction h generalizing before seen with
  | done s =>
    rw [List.append_nil] at parts
    exact ⟨trivial, seen, rfl, parts ▸ due⟩
  | @given field fields j members s s' r here rest ih =>
    have distinct := named.1
    rw [RecordShape.names, parts, List.map_append, List.map_cons] at distinct
    -- No field before this one has its name, so it is the one that is found and is not set yet.
    have fresh : field.name ∉ before.map FieldShape.name := by
      intro there
      exact (List.nodup_append.1 distinct).2.2 _ there _ List.mem_cons_self rfl
    have found : shape.fields.find? (·.name = field.name) = some field := by
      rw [parts, List.find?_append, List.find?_eq_none.2, Option.none_or, List.find?_cons_of_pos]
      · simp
      · intro other there same
        exact fresh (of_decide_eq_true same ▸ List.mem_map_of_mem there)
    have good : field.name.WellFormed := by
      refine named.2 _ ?_
      rw [RecordShape.names, parts]
      simp
    obtain ⟨whole, seen', set, all⟩ := ih (before ++ [field]) (field.name :: seen)
      (by simp [parts])
      (by
        intro name hn
        rcases List.mem_cons.1 hn with rfl | hn
        · simp
        · simp [past name hn])
      (by
        intro f hf wanted
        rcases List.mem_append.1 hf with hf | hf
        · exact List.mem_cons_of_mem _ (due f hf wanted)
        · exact List.mem_singleton.1 hf ▸ List.mem_cons_self)
    refine ⟨⟨good, here.whole, whole⟩, seen', ?_, all⟩
    rw [RecordShape.setMembers_cons s' members found (fresh ∘ past _) here.decoded, set]
  | @absent field fields members s r free rest ih =>
    refine ih (before ++ [field]) seen (by simp [parts]) ?_ ?_
    · intro name hn
      simp [past name hn]
    · intro f hf wanted
      rcases List.mem_append.1 hf with hf | hf
      · exact due f hf wanted
      · exact absurd wanted (List.mem_singleton.1 hf ▸ free)

/-- A record is decoded from the members that fill it. -/
theorem Fills.conveys (h : Fills shape.fields members shape.blank r) (named : shape.Named) :
    Conveys (shape.decode .text) (.record members) r := by
  obtain ⟨whole, seen, set, all⟩ := h.setMembers named [] [] rfl
    (fun _ hn => absurd hn List.not_mem_nil) (fun _ hf => absurd hf List.not_mem_nil)
  refine ⟨whole, ?_⟩
  -- Every field has been seen, so none is missing.
  have complete : shape.absent? seen = none := by
    rw [RecordShape.absent?, List.find?_eq_none.2, Option.map_none]
    intro f hf
    have := all f hf
    simpa using this
  show shape.ofMembers members none = _
  unfold RecordShape.ofMembers
  rw [set]
  simp only [bind, Except.bind, complete]
  rfl

end Records

/-! ## Choices -/

private theorem depth_pos (j : Json) : 0 < j.depth := by
  cases j <;> simp [depth]

/-- A choice is decoded from what stands under its name. -/
private theorem conveys_variant {variants : List (Variant α)} {name : Text} {v : Variant α}
    (found : variants.find? (·.name = name) = some v) (good : name.WellFormed)
    (h : Conveys (Variant.held · v.content) j a) :
    Conveys (Variant.decode .text variants) (.record [(name, j)]) a := by
  refine ⟨⟨good, h.whole, trivial⟩, ?_⟩
  have named : Variant.named variants name = .ok v.content := by rw [Variant.named, found]
  show (Variant.named variants name >>= Variant.held j >>= _) = _
  rw [named]
  show (Variant.held j v.content >>= _) = _
  rw [h.decoded]
  rfl

end Json

open Json

/-! ## Versions, references and dictionaries -/

theorem Version.conveys {v : Version} (fits : v.Fits) : Conveys Version.ofJson v.toJson v := by
  refine ⟨Text.wellFormed_of_isVisible v.isVisible_render, ?_⟩
  simp only [ofJson, toJson, asText, bind, Except.bind, parse?_render fits]

/-- The reference is one that was read, and its texts are UTF-8. -/
def TypeMatch.Legible (m : TypeMatch) : Prop :=
  m.path.WellFormed ∧ m.name.WellFormed ∧ ∃ t, parse? t = some m

theorem TypeMatch.wellFormed_render {m : TypeMatch} (path : m.path.WellFormed)
    (name : m.name.WellFormed) : m.render.WellFormed := by
  have star : (if m.pointer then ("*" : Text) else []).WellFormed := by split <;> decide
  have dot : (("." : Text)).WellFormed := by decide
  unfold render
  refine star.append ?_
  split
  · exact name
  · exact (path.append dot).append name

theorem TypeMatch.conveys {m : TypeMatch} (h : m.Legible) :
    Conveys TypeMatch.ofJson m.toJson m := by
  obtain ⟨path, name, t, read⟩ := h
  refine ⟨wellFormed_render path name, ?_⟩
  simp only [ofJson, toJson, asText, bind, Except.bind, parse?_render read]

/-- All texts of the dictionary are UTF-8. -/
def Dict.Legible (d : Dict Text) : Prop :=
  ∀ e ∈ d.entries, e.1.WellFormed ∧ e.2.WellFormed

/-! ## The parts of an aspect -/

/-- The texts of the template are UTF-8, and its version can be written. -/
def Template.Legible (t : Template) : Prop :=
  t.text.WellFormed ∧ t.imports.Legible ∧ ∀ v ∈ t.version, v.Fits

theorem Template.conveys {t : Template} (h : t.Legible) :
    Conveys (Template.ofJson .text) t.toJson t := by
  obtain ⟨text, imports, version⟩ := h
  refine Fills.conveys ?_ (by decide : shape.Named)
  rw [List.append_assoc, ← List.append_nil (Json.optional ..)]
  refine .put (conveys_text text) (.optionalDict imports rfl ?_)
  exact .optional (fun v hv => Version.conveys (version v hv)) nofun rfl (.done t)

/-- All references of the signature are legible. -/
def Signature.Legible (s : Signature) : Prop :=
  ∀ m ∈ s.args ++ s.returns, m.Legible

theorem Signature.conveys {s : Signature} (h : s.Legible) :
    Conveys (Signature.shape.decode .text) s.toJson s := by
  obtain ⟨args, returns⟩ := List.forall_mem_append.1 h
  have references : ∀ l : List TypeMatch, (∀ m ∈ l, m.Legible) →
      Conveys (asList TypeMatch.ofJson) (.list (l.map TypeMatch.toJson)) l :=
    fun l hl => conveys_list fun m hm => TypeMatch.conveys (hl m hm)
  refine Fills.conveys ?_ (by decide : shape.Named)
  exact .put (references s.args args) (.put (references s.returns returns) (.done s))

/-- The name is UTF-8, and all references are legible. -/
def FunctionMatcher.Legible (m : FunctionMatcher) : Prop :=
  (∀ name ∈ m.name, name.WellFormed) ∧ ∀ type ∈ m.types, type.Legible

theorem FunctionMatcher.conveys {m : FunctionMatcher} (h : m.Legible) :
    Conveys ((FunctionMatcher.shape .text).decode .text) m.toJson m := by
  obtain ⟨name, types⟩ := h
  -- All types of the matcher are legible, whichever field they are in.
  have receiver : ∀ r ∈ m.receiver, r ∈ m.types := by
    intro r hr
    simp [FunctionMatcher.types, Option.mem_def.1 hr]
  have parameter : ∀ p ∈ m.parameter, p ∈ m.types := by
    intro p hp
    simp [FunctionMatcher.types, Option.mem_def.1 hp]
  have signature : ∀ s ∈ m.signature, s.Legible := by
    intro s hs type htype
    refine types type (List.mem_append_right _ (List.mem_flatMap.2 ⟨s, ?_, htype⟩))
    exact Option.mem_toList.2 hs
  refine Fills.conveys ?_ (by decide : (shape .text).Named)
  simp only [List.append_assoc]
  rw [← List.append_nil (Json.optional "parameter" ..)]
  refine .optional (fun n hn => conveys_text (name n hn)) nofun rfl ?_
  refine .optional (fun r hr => TypeMatch.conveys (types r (receiver r hr))) nofun rfl ?_
  refine .optional (fun s hs => Signature.conveys (signature s hs)) nofun rfl ?_
  exact .optional (fun p hp => TypeMatch.conveys (types p (parameter p hp))) nofun rfl (.done m)

/-- Two texts under given names. -/
private theorem conveys_textPair {title first second s t : Text} (hs : s.WellFormed)
    (ht : t.WellFormed) (named : (textPair title first second).Named) :
    Conveys ((textPair title first second).decode .text)
      (.record [(first, .string s), (second, .string t)]) (s, t) := by
  refine Fills.conveys ?_ named
  exact .put (conveys_text hs) (.put (conveys_text ht) (.done _))

namespace JoinPoint

mutual

/-- All texts of the join point are UTF-8, and all its references were read. -/
def Legible : JoinPoint → Prop
  | allOf points | oneOf points => AllLegible points
  | not point => Legible point
  | importPath text | packageName text | directive text => text.WellFormed
  | testMain _ | sourceFile => True
  | configuration settings => Dict.Legible settings
  | functionDeclaration matcher => matcher.Legible
  | functionCall path name | declarationOf path name => path.WellFormed ∧ name.WellFormed
  | structLiteralField type field => type.Legible ∧ field.WellFormed
  | valueDeclaration type => type.Legible

/-- All join points are legible. -/
def AllLegible : List JoinPoint → Prop
  | [] => True
  | p :: points => Legible p ∧ AllLegible points

end

private theorem toJsonAll_eq_map (points : List JoinPoint) :
    toJsonAll points = points.map toJson := by
  induction points with
  | nil => rfl
  | cons p points ih => rw [toJsonAll, ih, List.map_cons]

/-- What is inside an alternative is less deep than the choice. -/
private theorem depth_of_record {name : Text} {j : Json} {fuel : Nat}
    (h : (Json.record [(name, j)]).depth ≤ fuel + 1) : j.depth ≤ fuel := by
  simp only [Json.record, Json.depth, Json.depthMembers] at h
  omega

private theorem depthItems_of_record {name : Text} {items : List Json} {fuel : Nat}
    (h : (Json.record [(name, .list items)]).depth ≤ fuel + 1) : Json.depthItems items ≤ fuel := by
  have := depth_of_record h
  simp only [Json.list, Json.depth] at this
  omega

private theorem conveys_field {type : TypeMatch} {field : Text} (ht : type.Legible)
    (hf : field.WellFormed) :
    Conveys (fieldShape.decode .text)
      (.record [("type", type.toJson), ("field", .string field)]) (type, field) := by
  refine Fills.conveys ?_ (by decide : fieldShape.Named)
  exact .put (TypeMatch.conveys ht) (.put (conveys_text hf) (.done _))

mutual

/-- A join point is decoded as it was, given fuel for all its values. -/
theorem conveys : (p : JoinPoint) → p.Legible → (fuel : Nat) → p.toJson.depth ≤ fuel →
    Conveys (ofJsonWithin .text fuel) p.toJson p
  | p, _, 0, enough => absurd enough (Nat.not_le.2 (depth_pos p.toJson))
  | allOf points, h, fuel + 1, enough => by
    rw [toJson] at enough ⊢
    have inner := conveys_list (conveysAll points h fuel (depthItems_of_record enough))
    rw [← toJsonAll_eq_map] at inner
    exact conveys_variant rfl (by decide) (inner.map allOf)
  | oneOf points, h, fuel + 1, enough => by
    rw [toJson] at enough ⊢
    have inner := conveys_list (conveysAll points h fuel (depthItems_of_record enough))
    rw [← toJsonAll_eq_map] at inner
    exact conveys_variant rfl (by decide) (inner.map oneOf)
  | not point, h, fuel + 1, enough => by
    rw [toJson] at enough ⊢
    have inner := conveys point h fuel (depth_of_record enough)
    exact conveys_variant rfl (by decide) (inner.map JoinPoint.not)
  | importPath path, h, fuel + 1, _ =>
    conveys_variant rfl (by decide) ((conveys_text h).map importPath)
  | packageName name, h, fuel + 1, _ =>
    conveys_variant rfl (by decide) ((conveys_text h).map packageName)
  | testMain flag, _, fuel + 1, _ =>
    conveys_variant rfl (by decide) ((conveys_bool flag).map testMain)
  | configuration settings, h, fuel + 1, _ =>
    conveys_variant rfl (by decide) ((conveys_dict h).map configuration)
  | sourceFile, _, fuel + 1, _ => ⟨(by decide : Text.WellFormed "source-file"), rfl⟩
  | functionDeclaration matcher, h, fuel + 1, _ =>
    conveys_variant rfl (by decide) ((FunctionMatcher.conveys h).map functionDeclaration)
  | functionCall path name, h, fuel + 1, _ =>
    conveys_variant rfl (by decide)
      ((conveys_textPair h.1 h.2 (by decide : callShape.Named)).map fun p => functionCall p.1 p.2)
  | structLiteralField type field, h, fuel + 1, _ =>
    conveys_variant rfl (by decide)
      ((conveys_field h.1 h.2).map fun p => structLiteralField p.1 p.2)
  | valueDeclaration type, h, fuel + 1, _ =>
    conveys_variant rfl (by decide) ((TypeMatch.conveys h).map valueDeclaration)
  | declarationOf path name, h, fuel + 1, _ =>
    conveys_variant rfl (by decide)
      ((conveys_textPair h.1 h.2 (by decide : declarationShape.Named)).map fun p =>
        declarationOf p.1 p.2)
  | directive name, h, fuel + 1, _ =>
    conveys_variant rfl (by decide) ((conveys_text h).map directive)

private theorem conveysAll : (points : List JoinPoint) → AllLegible points → (fuel : Nat) →
    Json.depthItems (toJsonAll points) ≤ fuel →
    ∀ p ∈ points, Conveys (ofJsonWithin .text fuel) p.toJson p
  | [], _, _, _ => fun _ hp => absurd hp List.not_mem_nil
  | p :: points, h, fuel, enough => by
    rw [toJsonAll, Json.depthItems] at enough
    refine List.forall_mem_cons.2 ⟨conveys p h.1 fuel (by omega), ?_⟩
    exact conveysAll points h.2 fuel (by omega)

end

end JoinPoint

namespace Advice

/-- All texts of the advice are UTF-8, and all its numbers and versions can be written. -/
def Legible : Advice → Prop
  | wrapCallArgument index template => index < 0x10000000000000000 ∧ template.Legible
  | wrapExpression template | assignValue template | prependStatements template =>
    template.Legible
  | reportSpan tags => Dict.Legible tags
  | addBlankImport path => path.WellFormed
  | replaceCallTarget source target wanted =>
    source.WellFormed ∧ target.WellFormed ∧ wanted.WellFormed
  | injectDeclarations template links => template.Legible ∧ ∀ link ∈ links, link.WellFormed

private theorem conveys_template {template : Template} (h : template.Legible) (title : Text) :
    Conveys ((templateShape .text title).decode .text)
      (.record [("template", template.toJson)]) template := by
  have named : (templateShape .text title).Named :=
    ⟨List.pairwise_singleton _ _, List.forall_mem_singleton.2 rfl⟩
  refine Fills.conveys ?_ named
  exact .given (Template.conveys h) (.done _)

private theorem conveys_argument {index : Nat} {template : Template}
    (small : index < 0x10000000000000000) (h : template.Legible) :
    Conveys ((argumentShape .text).decode .text)
      (.record [("index", .nat index), ("template", template.toJson)]) (index, template) := by
  refine Fills.conveys ?_ (by decide : (argumentShape .text).Named)
  exact .put (conveys_nat small) (.put (Template.conveys h) (.done _))

private theorem conveys_tags {tags : Dict Text} (h : tags.Legible) :
    Conveys (tagShape.decode .text) (.record (optionalDict "tags" tags)) tags := by
  refine Fills.conveys ?_ (by decide : tagShape.Named)
  unfold optionalDict
  split
  · rename_i none
    rw [Dict.eq_empty_of_isEmpty none]
    exact .absent nofun (.done _)
  · exact .given (conveys_dict h) (.done _)

private theorem conveys_path {path : Text} (h : path.WellFormed) :
    Conveys (pathShape.decode .text) (.record [("path", .string path)]) path := by
  refine Fills.conveys ?_ (by decide : pathShape.Named)
  exact .given (conveys_text h) (.done _)

private theorem conveys_target {source target wanted : Text} (hs : source.WellFormed)
    (ht : target.WellFormed) (hw : wanted.WellFormed) :
    Conveys (targetShape.decode .text)
      (.record [("from", .string source), ("to", .string target), ("alias", .string wanted)])
      (source, target, wanted) := by
  refine Fills.conveys ?_ (by decide : targetShape.Named)
  exact .put (conveys_text hs) (.put (conveys_text ht) (.put (conveys_text hw) (.done _)))

private theorem conveys_declarations {template : Template} {links : List Text}
    (h : template.Legible) (hl : ∀ link ∈ links, link.WellFormed) :
    Conveys ((declarationsShape .text).decode .text)
      (.record (member "template" template.toJson
        :: if links.isEmpty then [] else [("links", .list (links.map .string))]))
      (template, links) := by
  refine Fills.conveys ?_ (by decide : (declarationsShape .text).Named)
  refine .put (Template.conveys h) ?_
  split
  · rename_i none
    rw [List.isEmpty_iff.1 none]
    exact .absent nofun (.done _)
  · exact .put (conveys_list fun link hlink => conveys_text (hl link hlink)) (.done _)

/-- An advice is decoded as it was. -/
theorem conveys {a : Advice} (h : a.Legible) : Conveys (Advice.ofJson .text) a.toJson a := by
  have name : a.name.WellFormed := by cases a <;> rfl
  cases a with
  | wrapCallArgument index template =>
    have fields := conveys_argument h.1 h.2
    exact conveys_variant rfl name (fields.map fun p => wrapCallArgument p.1 p.2)
  | wrapExpression template =>
    exact conveys_variant rfl name ((conveys_template h _).map wrapExpression)
  | assignValue template =>
    exact conveys_variant rfl name ((conveys_template h _).map assignValue)
  | prependStatements template =>
    exact conveys_variant rfl name ((conveys_template h _).map prependStatements)
  | reportSpan tags => exact conveys_variant rfl name ((conveys_tags h).map reportSpan)
  | addBlankImport path => exact conveys_variant rfl name ((conveys_path h).map addBlankImport)
  | replaceCallTarget source target wanted =>
    have fields := conveys_target h.1 h.2.1 h.2.2
    exact conveys_variant rfl name (fields.map fun p => replaceCallTarget p.1 p.2.1 p.2.2)
  | injectDeclarations template links =>
    have fields := conveys_declarations h.1 h.2
    exact conveys_variant rfl name (fields.map fun p => injectDeclarations p.1 p.2)

end Advice

/-! ## Aspects -/

namespace Aspect

/-- All texts of the aspect are UTF-8, all its references were read, and all its numbers and
versions can be written. -/
def Legible (a : Aspect) : Prop :=
  a.id.WellFormed ∧ a.joinPoint.Legible ∧ ∀ advice ∈ a.advice, advice.Legible

theorem conveys {a : Aspect} (h : a.Legible) : Conveys (Aspect.ofJson .text) a.toJson a := by
  obtain ⟨id, joinPoint, advice⟩ := h
  -- The fuel for a join point is the depth of its value.
  obtain ⟨whole, decoded⟩ := JoinPoint.conveys a.joinPoint joinPoint _ (Nat.le_refl _)
  have point : Conveys (JoinPoint.ofJson .text) a.joinPoint.toJson a.joinPoint := ⟨whole, decoded⟩
  refine Fills.conveys ?_ (by decide : (shape .text).Named)
  refine .put (conveys_text id) (.put (conveys_bool _) (.put point (.put ?_ (.done a))))
  exact conveys_list fun b hb => Advice.conveys (advice b hb)

/-- An aspect reads back from its text. -/
theorem parse_render {a : Aspect} (legible : a.Legible) (shallow : a.toJson.nesting < levelLimit) :
    parse a.render = .ok a := by
  obtain ⟨whole, decoded⟩ := conveys legible
  unfold parse render decodeText
  rw [Json.parse_render whole shallow]
  dsimp only
  rw [decoded]
  rfl

/-- Aspects, with references to types that were read and within the levels that reading allows,
are read back from their texts: no two of them have one text, which is what their hashes are
taken of. The same holds for the references and the versions in them. -/
theorem text_determines {a : Aspect} (legible : a.Legible) (shallow : a.toJson.nesting ≤ 127) :
    parse a.render = .ok a ∧
      (∀ b : Aspect, b.Legible → b.toJson.nesting ≤ 127 → b ≠ a → b.render ≠ a.render) ∧
      (∀ t m, TypeMatch.parse? t = some m → TypeMatch.parse? m.render = some m) ∧
      ∀ v : Version, v.Fits → Version.parse? v.render = some v := by
  have read := parse_render legible (Nat.lt_succ_of_le shallow)
  refine ⟨read, ?_, fun t m => TypeMatch.parse?_render, fun v => Version.parse?_render⟩
  intro b legible' shallow' other same
  have read' := parse_render legible' (Nat.lt_succ_of_le shallow')
  rw [same, read] at read'
  exact other (Except.ok.inj read').symm

/-- An aspect with quotes, a pointer, a dot that says nothing and fields left out. -/
theorem text_determines_server :
    TypeMatch.parse? " *net/http.Server " = some (.pointerTo "net/http" "Server") ∧
      TypeMatch.parse? ".Handler" = some (.named [] "Handler") ∧
      (let a : Aspect := ⟨"the \"server\"", true,
        .allOf [.not (.oneOf [.importPath "net/http", .sourceFile]),
          .structLiteralField (.pointerTo "net/http" "Server") "Handler",
          .functionDeclaration ⟨none, none, some ⟨[.named [] "Handler"], []⟩, none⟩],
        [.wrapExpression ⟨"w(\x7b\x7b.\x7d\x7d)", .empty, some ⟨1, 22⟩⟩, .reportSpan .empty]⟩
      parse a.render = .ok a) := by
  have server : TypeMatch.parse? " *net/http.Server " = some (.pointerTo "net/http" "Server") := by
    decide +kernel
  have handler : TypeMatch.parse? ".Handler" = some (.named [] "Handler") := by decide +kernel
  have empty : Dict.Legible .empty := fun _ he => absurd he List.not_mem_nil
  refine ⟨server, handler, (text_determines ⟨by decide, ?_, ?_⟩ (by decide)).1⟩
  · refine ⟨⟨rfl, trivial, trivial⟩, ⟨⟨by decide, by decide, _, server⟩, by decide⟩,
      ⟨nofun, ?_⟩, trivial⟩
    exact List.forall_mem_singleton.2 ⟨by decide, by decide, _, handler⟩
  · exact List.forall_mem_cons.2
      ⟨⟨by decide, empty, by decide⟩, List.forall_mem_singleton.2 empty⟩

end Aspect

end Interlace
