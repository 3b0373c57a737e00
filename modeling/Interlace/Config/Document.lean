import Interlace.Aspect.Codec
import Interlace.Failure

/-!
# Configuration documents

A document describes itself, lists the documents it extends, and declares aspects.
-/

namespace Interlace

open Json

/-- What a document says about itself. -/
structure Meta where
  name : Text
  description : Option Text
  icon : Option Text
  caveats : Option Text
  deriving DecidableEq, Repr

/-- A configuration document. -/
structure Document where
  about : Meta
  /-- File names or import paths of the documents it extends. -/
  extended : List Text
  aspects : List Aspect

namespace Meta

/-- The description as JSON. -/
def toJson (m : Meta) : Json :=
  .record (member "name" (.string m.name) :: optional "description" .string m.description
    ++ optional "icon" .string m.icon ++ optional "caveats" .string m.caveats)

/-- How descriptions are written. -/
def shape : RecordShape Meta where
  title := "struct Meta"
  strict := true
  fields := [
    ⟨"name", .always, fun j m => (asText j).map fun v => { m with name := v }⟩,
    ⟨"description", .optional,
      fun j m => (asOption asText j).map fun v => { m with description := v }⟩,
    ⟨"icon", .optional, fun j m => (asOption asText j).map fun v => { m with icon := v }⟩,
    ⟨"caveats", .optional, fun j m => (asOption asText j).map fun v => { m with caveats := v }⟩]
  blank := ⟨[], none, none, none⟩

end Meta

namespace Document

/-- The document as JSON. -/
def toJson (d : Document) : Json :=
  .record [("meta", d.about.toJson), ("extends", .list (d.extended.map .string)),
    ("aspects", .list (d.aspects.map Aspect.toJson))]

/-- How documents are written. -/
def shape (o : Origin) : RecordShape Document where
  title := "struct ConfigDocument"
  strict := true
  fields := [
    ⟨"meta", .always, fun j d => (Meta.shape.decode o j).map fun v => { d with about := v }⟩,
    ⟨"extends", .optional, fun j d => (asList asText j).map fun v => { d with extended := v }⟩,
    ⟨"aspects", .optional,
      fun j d => (asList (Aspect.ofJson o) j).map fun v => { d with aspects := v }⟩]
  blank := ⟨⟨[], none, none, none⟩, [], []⟩

/-- The first text that occurs a second time. -/
def firstRepeated? : (seen : List Text) → List Text → Option Text
  | _, [] => none
  | seen, id :: ids => if id ∈ seen then some id else firstRepeated? (id :: seen) ids

/-- Reads a document; `name` is what faults call it. No two of its aspects may have one id. -/
def parse (text name : Text) : Except Failure Document :=
  match decodeText ((shape .text).decode .text) text with
  | .error fault => .error (.config ("parsing " ++ name ++ ": " ++ fault.message))
  | .ok d =>
    match firstRepeated? [] (d.aspects.map Aspect.id) with
    | some id => .error (.config (name ++ ": duplicate aspect id " ++ Text.shown id))
    | none => .ok d

end Document

end Interlace
