import Interlace.Dict

/-!
# Edit buffers

An edit buffer holds insertions and replacements against offsets of a source text. Rendering
applies all of them in one sweep and keeps, for every piece of the result, where in the source
it was copied from.

At one offset, insertions that stick to the text before come first, then those that stick to
the text after, each in the order they were made, and then a replacement that starts there.
-/

namespace Interlace

/-- Which neighbour an insertion sticks to. -/
inductive Bias where
  /-- The text before the offset. -/
  | left
  /-- The text after the offset. -/
  | right
  deriving DecidableEq, Repr

/-- Text in place of a range of the source; an empty range makes it an insertion. -/
structure Edit where
  start : Nat
  stop : Nat
  text : Text
  bias : Bias
  deriving DecidableEq, Repr

/-- Why edits cannot be applied together. -/
inductive EditFault where
  /-- The edit starts before the end of one applied earlier. -/
  | overlapping (start stop reached : Nat)
  /-- The edit ends behind the source. -/
  | pastEnd (start stop : Nat)
  deriving DecidableEq, Repr

/-- The wording of a fault. -/
def EditFault.message : EditFault → Text
  | overlapping start stop reached =>
    "overlapping edits at bytes " ++ Text.ofNat start ++ ".." ++ Text.ofNat stop
      ++ " (already rewritten up to " ++ Text.ofNat reached ++ ")"
  | pastEnd start stop =>
    "edit " ++ Text.ofNat start ++ ".." ++ Text.ofNat stop ++ " is past the end of the file"

namespace Edit

/-- The edit replaces nothing. -/
def isInsertion (e : Edit) : Bool :=
  e.stop ≤ e.start

/-- The rank of an edit among those at its offset. -/
def rank (e : Edit) : Nat :=
  if e.isInsertion then
    match e.bias with
    | .left => 0
    | .right => 1
  else 2

/-- The order in which edits are applied. -/
def before (a b : Edit) : Bool :=
  a.start < b.start || (a.start = b.start && a.rank ≤ b.rank)

end Edit

/-- A piece of rendered text. -/
structure Segment where
  start : Nat
  stop : Nat
  /-- Where in the source the piece was copied from; generated pieces come from nowhere. -/
  origin : Option Nat
  deriving DecidableEq, Repr

/-- Rendered text and the pieces it consists of. -/
structure Rendered where
  text : Text
  segments : List Segment
  deriving DecidableEq, Repr

namespace Rendered

/-- The source offset of the byte at `offset`, if it was copied. -/
def sourceOffset? (r : Rendered) (offset : Nat) : Option Nat :=
  match r.segments.find? fun s => offset < s.stop with
  | some s =>
    if s.start ≤ offset then s.origin.map (· + (offset - s.start)) else none
  | none => none

/-- The text with one more piece; an empty piece leaves no segment. -/
def append (r : Rendered) (piece : Text) (origin : Option Nat) : Rendered :=
  if piece = [] then r
  else
    let start := r.text.length
    ⟨r.text ++ piece, r.segments ++ [⟨start, start + piece.length, origin⟩]⟩

end Rendered

/-- Edits of a source text, in the order they were made. -/
structure Buffer where
  source : Text
  edits : List Edit

namespace Buffer

/-- A buffer without edits. -/
def ofSource (source : Text) : Buffer := ⟨source, []⟩

/-- There is no edit. -/
def isEmpty (b : Buffer) : Bool :=
  b.edits.isEmpty

/-- The buffer with one more edit. -/
def push (b : Buffer) (e : Edit) : Buffer :=
  { b with edits := b.edits ++ [e] }

/-- Inserts text at an offset. -/
def insert (b : Buffer) (offset : Nat) (text : Text) (bias : Bias) : Buffer :=
  b.push ⟨offset, offset, text, bias⟩

/-- Puts text in place of a range. -/
def replace (b : Buffer) (start stop : Nat) (text : Text) : Buffer :=
  b.push ⟨start, stop, text, .right⟩

/-- Removes a range. -/
def delete (b : Buffer) (start stop : Nat) : Buffer :=
  b.push ⟨start, stop, [], .right⟩

/-- Some edit starts or ends within the range, its ends included. -/
def touches (b : Buffer) (start stop : Nat) : Bool :=
  b.edits.any fun e => e.start ≤ stop && start ≤ e.stop

/-- The text inserted at an offset, in the order it will be rendered. -/
def insertedAt (b : Buffer) (offset : Nat) : Text :=
  (sortBy Edit.before (b.edits.filter fun e => e.isInsertion && e.start = offset)).flatMap
    Edit.text

/-- Applies edits that are in order, from a source offset on. -/
def sweep (source : Text) : (reached : Nat) → Rendered → List Edit → Except EditFault Rendered
  | reached, out, [] =>
    .ok (out.append (source.slice reached source.length) (some reached))
  | reached, out, e :: edits =>
    -- Edits that start where the last one ended are fine; earlier ones overlap it.
    if e.start < reached then .error (.overlapping e.start e.stop reached)
    else if source.length < e.stop then .error (.pastEnd e.start e.stop)
    else
      let out := out.append (source.slice reached e.start) (some reached)
      sweep source (max e.stop e.start) (out.append e.text none) edits

/-- Applies all edits. -/
def render (b : Buffer) : Except EditFault Rendered :=
  sweep b.source 0 ⟨[], []⟩ (sortBy Edit.before b.edits)

end Buffer

end Interlace
