import Interlace.Aspect.Basic
import Interlace.Digest
import Interlace.Json.Decode

/-!
# Aspects as JSON

How aspects are written and read. Fields that may be left out and have nothing to say are not
written, and the rest stands in a fixed order, so equal aspects have equal texts: their hash
identifies them.
-/

namespace Interlace

open Json

namespace Version

/-- Decodes a version from its written form. -/
def ofJson (j : Json) : Decoded Version := do
  let t ← asText j
  match parse? t with
  | some v => .ok v
  | none => .error (.custom (invalidMessage t))

/-- The version as JSON. -/
def toJson (v : Version) : Json :=
  .string v.render

end Version

namespace TypeMatch

/-- Decodes a reference to a type from its written form. -/
def ofJson (j : Json) : Decoded TypeMatch := do
  let t ← asText j
  match parse? t with
  | some m => .ok m
  | none => .error (.custom (invalidMessage t))

/-- The reference as JSON. -/
def toJson (m : TypeMatch) : Json :=
  .string m.render

end TypeMatch

/-- A dictionary of texts as JSON. -/
def Dict.toJson (d : Dict Text) : Json :=
  .record (d.entries.map fun (key, value) => (key, .string value))

/-- A member of an object. -/
def Json.member (name : Text) (j : Json) : Text × Json := (name, j)

/-- A member that is written only if there is something to say. -/
def Json.optional {α : Type} (name : Text) (encode : α → Json) :
    Option α → List (Text × Json)
  | some a => [(name, encode a)]
  | none => []

/-- A member that is written only if the dictionary has entries. -/
def Json.optionalDict (name : Text) (d : Dict Text) : List (Text × Json) :=
  if d.isEmpty then [] else [(name, d.toJson)]

namespace Template

/-- The template as JSON. -/
def toJson (t : Template) : Json :=
  .record ([member "text" (.string t.text)] ++ optionalDict "imports" t.imports
    ++ optional "go-version" Version.toJson t.version)

/-- How templates are written. -/
def shape : RecordShape Template where
  title := "struct Template"
  strict := true
  fields := [
    ⟨"text", .always, fun j t => (asText j).map fun v => { t with text := v }⟩,
    ⟨"imports", .optional, fun j t => (asDict asText j).map fun v => { t with imports := v }⟩,
    ⟨"go-version", .optional,
      fun j t => (asOption Version.ofJson j).map fun v => { t with version := v }⟩]
  blank := ⟨[], .empty, none⟩

/-- Decodes a template. -/
def ofJson (o : Origin) (j : Json) : Decoded Template :=
  shape.decode o j

end Template

namespace Signature

/-- The signature as JSON. -/
def toJson (s : Signature) : Json :=
  .record [("args", .list (s.args.map TypeMatch.toJson)),
    ("returns", .list (s.returns.map TypeMatch.toJson))]

/-- How signatures are written. -/
def shape : RecordShape Signature where
  title := "struct Signature"
  strict := true
  fields := [
    ⟨"args", .optional, fun j s => (asList TypeMatch.ofJson j).map fun v => { s with args := v }⟩,
    ⟨"returns", .optional,
      fun j s => (asList TypeMatch.ofJson j).map fun v => { s with returns := v }⟩]
  blank := ⟨[], []⟩

end Signature

namespace FunctionMatcher

/-- The demands as JSON. -/
def toJson (m : FunctionMatcher) : Json :=
  .record (optional "name" .string m.name ++ optional "receiver" TypeMatch.toJson m.receiver
    ++ optional "signature" Signature.toJson m.signature
    ++ optional "parameter" TypeMatch.toJson m.parameter)

/-- How demands on functions are written. -/
def shape (o : Origin) : RecordShape FunctionMatcher where
  title := "struct FunctionMatcher"
  strict := true
  fields := [
    ⟨"name", .optional, fun j m => (asOption asText j).map fun v => { m with name := v }⟩,
    ⟨"receiver", .optional,
      fun j m => (asOption TypeMatch.ofJson j).map fun v => { m with receiver := v }⟩,
    ⟨"signature", .optional,
      fun j m => (asOption (Signature.shape.decode o) j).map fun v => { m with signature := v }⟩,
    ⟨"parameter", .optional,
      fun j m => (asOption TypeMatch.ofJson j).map fun v => { m with parameter := v }⟩]
  blank := any

end FunctionMatcher

/-- How two texts under given names are written, as the fields of an alternative. -/
def Json.textPair (title first second : Text) : RecordShape (Text × Text) where
  title := title
  strict := false
  fields := [
    ⟨first, .always, fun j p => (asText j).map fun v => (v, p.2)⟩,
    ⟨second, .always, fun j p => (asText j).map fun v => (p.1, v)⟩]
  blank := ([], [])

namespace JoinPoint

mutual

/-- The join point as JSON. -/
def toJson : JoinPoint → Json
  | allOf points => .record [("all-of", .list (toJsonAll points))]
  | oneOf points => .record [("one-of", .list (toJsonAll points))]
  | not point => .record [("not", toJson point)]
  | importPath path => .record [("import-path", .string path)]
  | packageName name => .record [("package-name", .string name)]
  | testMain flag => .record [("test-main", .bool flag)]
  | configuration settings => .record [("configuration", Dict.toJson settings)]
  | sourceFile => .string "source-file"
  | functionDeclaration matcher => .record [("function-declaration", matcher.toJson)]
  | functionCall path name =>
    .record [("function-call", .record [("path", .string path), ("name", .string name)])]
  | structLiteralField type field =>
    .record [("struct-literal-field", .record [("type", type.toJson), ("field", .string field)])]
  | valueDeclaration type => .record [("value-declaration", type.toJson)]
  | declarationOf path name =>
    .record [("declaration-of", .record [("path", .string path), ("name", .string name)])]
  | directive name => .record [("directive", .string name)]

/-- Several join points as JSON. -/
def toJsonAll : List JoinPoint → List Json
  | [] => []
  | p :: points => toJson p :: toJsonAll points

end

/-- How a field of a struct literal is written. -/
def fieldShape : RecordShape (TypeMatch × Text) where
  title := "struct variant JoinPoint::StructLiteralField"
  strict := false
  fields := [
    ⟨"type", .always, fun j p => (TypeMatch.ofJson j).map fun v => (v, p.2)⟩,
    ⟨"field", .always, fun j p => (asText j).map fun v => (p.1, v)⟩]
  blank := (⟨false, [], []⟩, [])

/-- How a named function is written. -/
def callShape : RecordShape (Text × Text) :=
  textPair "struct variant JoinPoint::FunctionCall" "path" "name"

/-- How a named declaration is written. -/
def declarationShape : RecordShape (Text × Text) :=
  textPair "struct variant JoinPoint::DeclarationOf" "path" "name"

/-- The kinds of join points, given how join points inside are decoded. -/
def variants (o : Origin) (inner : Json → Decoded JoinPoint) :
    List (Variant JoinPoint) := [
  ⟨"all-of", .single fun j => (asList inner j).map allOf⟩,
  ⟨"one-of", .single fun j => (asList inner j).map oneOf⟩,
  ⟨"not", .single fun j => (inner j).map JoinPoint.not⟩,
  ⟨"import-path", .single fun j => (asText j).map importPath⟩,
  ⟨"package-name", .single fun j => (asText j).map packageName⟩,
  ⟨"test-main", .single fun j => (asBool j).map testMain⟩,
  ⟨"configuration", .single fun j => (asDict asText j).map configuration⟩,
  ⟨"source-file", .nothing sourceFile⟩,
  ⟨"function-declaration",
    .single fun j => ((FunctionMatcher.shape o).decode o j).map functionDeclaration⟩,
  ⟨"function-call",
    .fields fun j => (callShape.decodeContent o j).map fun p => functionCall p.1 p.2⟩,
  ⟨"struct-literal-field",
    .fields fun j => (fieldShape.decodeContent o j).map fun p => structLiteralField p.1 p.2⟩,
  ⟨"value-declaration", .single fun j => (TypeMatch.ofJson j).map valueDeclaration⟩,
  ⟨"declaration-of",
    .fields fun j => (declarationShape.decodeContent o j).map fun p => declarationOf p.1 p.2⟩,
  ⟨"directive", .single fun j => (asText j).map directive⟩]

/-- Decodes a join point; `fuel` bounds how deep join points are nested. -/
def ofJsonWithin (o : Origin) : (fuel : Nat) → Json → Decoded JoinPoint
  | 0, _ => .error .recursionLimit
  | fuel + 1, j => Variant.decode o (variants o (ofJsonWithin o fuel)) j

/-- Decodes a join point. -/
def ofJson (o : Origin) (j : Json) : Decoded JoinPoint :=
  ofJsonWithin o j.depth j

end JoinPoint

namespace Advice

/-- The advice as JSON. -/
def toJson (a : Advice) : Json :=
  .record [(a.name, .record (
    match a with
    | wrapCallArgument index template => [("index", .nat index), ("template", template.toJson)]
    | wrapExpression template => [("template", template.toJson)]
    | assignValue template => [("template", template.toJson)]
    | prependStatements template => [("template", template.toJson)]
    | reportSpan tags => optionalDict "tags" tags
    | addBlankImport path => [("path", .string path)]
    | replaceCallTarget source target wanted =>
      [("from", .string source), ("to", .string target), ("alias", .string wanted)]
    | injectDeclarations template links =>
      member "template" template.toJson
        :: if links.isEmpty then [] else [("links", .list (links.map .string))]))]

/-- A template before it is decoded. -/
def noTemplate : Template := ⟨[], .empty, none⟩

/-- How an argument to wrap is written. -/
def argumentShape (o : Origin) : RecordShape (Nat × Template) where
  title := "struct variant Advice::WrapCallArgument"
  strict := false
  fields := [
    ⟨"index", .always, fun j p => (asNat j).map fun v => (v, p.2)⟩,
    ⟨"template", .always, fun j p => (Template.ofJson o j).map fun v => (p.1, v)⟩]
  blank := (0, noTemplate)

/-- How an alternative that holds a template is written. -/
def templateShape (o : Origin) (title : Text) : RecordShape Template where
  title := title
  strict := false
  fields := [⟨"template", .always, fun j _ => Template.ofJson o j⟩]
  blank := noTemplate

/-- How tags are written. -/
def tagShape : RecordShape (Dict Text) where
  title := "struct variant Advice::ReportSpan"
  strict := false
  fields := [⟨"tags", .optional, fun j _ => asDict asText j⟩]
  blank := .empty

/-- How a path is written. -/
def pathShape : RecordShape Text where
  title := "struct variant Advice::AddBlankImport"
  strict := false
  fields := [⟨"path", .always, fun j _ => asText j⟩]
  blank := []

/-- How a new target of calls is written. -/
def targetShape : RecordShape (Text × Text × Text) where
  title := "struct variant Advice::ReplaceCallTarget"
  strict := false
  fields := [
    ⟨"from", .always, fun j p => (asText j).map fun v => (v, p.2.1, p.2.2)⟩,
    ⟨"to", .always, fun j p => (asText j).map fun v => (p.1, v, p.2.2)⟩,
    ⟨"alias", .always, fun j p => (asText j).map fun v => (p.1, p.2.1, v)⟩]
  blank := ([], [], [])

/-- How added declarations are written. -/
def declarationsShape (o : Origin) : RecordShape (Template × List Text) where
  title := "struct variant Advice::InjectDeclarations"
  strict := false
  fields := [
    ⟨"template", .always, fun j p => (Template.ofJson o j).map fun v => (v, p.2)⟩,
    ⟨"links", .optional, fun j p => (asList asText j).map fun v => (p.1, v)⟩]
  blank := (noTemplate, [])

/-- The kinds of advice. -/
def variants (o : Origin) : List (Variant Advice) := [
  ⟨"wrap-call-argument", .fields fun j =>
    ((argumentShape o).decodeContent o j).map fun p => wrapCallArgument p.1 p.2⟩,
  ⟨"wrap-expression", .fields fun j =>
    ((templateShape o "struct variant Advice::WrapExpression").decodeContent o j).map
      wrapExpression⟩,
  ⟨"assign-value", .fields fun j =>
    ((templateShape o "struct variant Advice::AssignValue").decodeContent o j).map assignValue⟩,
  ⟨"prepend-statements", .fields fun j =>
    ((templateShape o "struct variant Advice::PrependStatements").decodeContent o j).map
      prependStatements⟩,
  ⟨"report-span", .fields fun j => (tagShape.decodeContent o j).map reportSpan⟩,
  ⟨"add-blank-import", .fields fun j => (pathShape.decodeContent o j).map addBlankImport⟩,
  ⟨"replace-call-target", .fields fun j =>
    (targetShape.decodeContent o j).map fun p => replaceCallTarget p.1 p.2.1 p.2.2⟩,
  ⟨"inject-declarations", .fields fun j =>
    ((declarationsShape o).decodeContent o j).map fun p => injectDeclarations p.1 p.2⟩]

/-- Decodes an advice. -/
def ofJson (o : Origin) (j : Json) : Decoded Advice :=
  Variant.decode o (variants o) j

end Advice

namespace Aspect

/-- The aspect as JSON. -/
def toJson (a : Aspect) : Json :=
  .record [("id", .string a.id), ("tracer-internal", .bool a.tracerInternal),
    ("join-point", a.joinPoint.toJson), ("advice", .list (a.advice.map Advice.toJson))]

/-- How aspects are written. -/
def shape (o : Origin) : RecordShape Aspect where
  title := "struct Aspect"
  strict := true
  fields := [
    ⟨"id", .always, fun j a => (asText j).map fun v => { a with id := v }⟩,
    ⟨"tracer-internal", .optional,
      fun j a => (asBool j).map fun v => { a with tracerInternal := v }⟩,
    ⟨"join-point", .always,
      fun j a => (JoinPoint.ofJson o j).map fun v => { a with joinPoint := v }⟩,
    ⟨"advice", .always,
      fun j a => (asList (Advice.ofJson o) j).map fun v => { a with advice := v }⟩]
  blank := ⟨[], false, .sourceFile, []⟩

/-- Decodes an aspect. -/
def ofJson (o : Origin) (j : Json) : Decoded Aspect :=
  (shape o).decode o j

/-- The text of the aspect. -/
def render (a : Aspect) : Text :=
  a.toJson.render

/-- Reads an aspect. -/
def parse (t : Text) : Decoded Aspect :=
  decodeText (ofJson .text) t

/-- The hash that identifies the aspect. -/
def fingerprint (a : Aspect) : Text :=
  Digest.hex a.render

end Aspect

end Interlace
