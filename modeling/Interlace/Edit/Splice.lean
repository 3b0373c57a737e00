import Interlace.Dict

/-!
# Splicing

Replaces ranges of a text from the back to the front, so that the offsets of ranges further to
the front stay valid. Of ranges that overlap, the one that starts first is kept, and of those
the longest; ranges that reach past the text are dropped.
-/

namespace Interlace

/-- Text in place of a range. -/
structure Splice where
  start : Nat
  stop : Nat
  text : Text
  deriving DecidableEq, Repr

namespace Splice

/-- Ranges by start; of those, the longer first. -/
def before (a b : Splice) : Bool :=
  a.start < b.start || (a.start = b.start && b.stop ≤ a.stop)

/-- The splices that are kept of an ordered list: those that start no earlier than what is
already covered, and end within the text. -/
def keep (length : Nat) : (reached : Nat) → List Splice → List Splice
  | _, [] => []
  | reached, s :: rest =>
    if s.start < reached || length < s.stop then keep length reached rest
    else s :: keep length (max s.stop s.start) rest

/-- The text with one range replaced. -/
def apply (t : Text) (s : Splice) : Text :=
  t.take s.start ++ s.text ++ t.drop s.stop

/-- The text with all ranges that are kept replaced. -/
def applyAll (source : Text) (splices : List Splice) : Text :=
  (keep source.length 0 (sortBy before splices)).reverse.foldl apply source

end Splice

end Interlace
