import Interlace.Text.White

/-!
# Marker comments

The comments that weaving writes around what it adds, and those a user places to keep weaving
away. Their texts stand in users' files and never change.
-/

namespace Interlace

/-- A comment that means something to the weaver. -/
inductive Marker where
  /-- Opens a block of added lines. -/
  | startInstrument
  /-- Closes a block of added lines. -/
  | endInstrument
  /-- Stands before a statement that was changed. -/
  | startWrap
  /-- Stands after a statement that was changed. -/
  | endWrap
  /-- Placed by hand: the statement is instrumented already. -/
  | instrumented
  /-- Placed by hand: leave the node and everything below it alone. -/
  | ignore
  deriving DecidableEq, Repr

namespace Marker

/-- All markers. -/
def all : List Marker :=
  [startInstrument, endInstrument, startWrap, endWrap, instrumented, ignore]

/-- The word after the namespace. -/
def word : Marker → Text
  | startInstrument => "startinstrument"
  | endInstrument => "endinstrument"
  | startWrap => "startwrap"
  | endWrap => "endwrap"
  | instrumented => "instrumented"
  | ignore => "ignore"

/-- The comment as it is written. -/
def comment (m : Marker) : Text :=
  "//tool:" ++ m.word

/-- The marker of a comment. Text after white space is tolerated, text glued to the word is
not. -/
def parse? (comment : Text) : Option Marker :=
  (Text.stripPrefix? "//tool:" (Text.trimEnd comment)).bind fun rest =>
    all.find? fun m => m.word = Text.firstPiece rest

/-- Opens a pair. -/
def isStart : Marker → Bool
  | startInstrument | startWrap => true
  | _ => false

/-- Closes a pair. -/
def isEnd : Marker → Bool
  | endInstrument | endWrap => true
  | _ => false

/-- The marker that closes what this one opens. -/
def partner? : Marker → Option Marker
  | startInstrument => some endInstrument
  | startWrap => some endWrap
  | _ => none

end Marker

end Interlace
