import Interlace.Text.Basic

/-!
# White space

The characters with the Unicode property White_Space, read directly off their UTF-8 bytes,
and the operations that cut at them.
-/

namespace Interlace.Text

/-- The number of bytes of the white space character that starts the text, or zero. -/
def whiteWidth : Text → Nat
  | 0xC2 :: 0x85 :: _ => 2
  | 0xC2 :: 0xA0 :: _ => 2
  | 0xE1 :: 0x9A :: 0x80 :: _ => 3
  | 0xE2 :: 0x80 :: b :: _ =>
    if b ≤ 0x8A && 0x80 ≤ b || b = 0xA8 || b = 0xA9 || b = 0xAF then 3 else 0
  | 0xE2 :: 0x81 :: 0x9F :: _ => 3
  | 0xE3 :: 0x80 :: 0x80 :: _ => 3
  | b :: _ => if 0x09 ≤ b && b ≤ 0x0D || b = 0x20 then 1 else 0
  | [] => 0

/-- Passes over `skip` bytes, then over white space. -/
def dropWhite : (skip : Nat) → Text → Text
  | _, [] => []
  | skip + 1, _ :: t => dropWhite skip t
  | 0, b :: t =>
    match whiteWidth (b :: t) with
    | 0 => b :: t
    | width + 1 => dropWhite width t

/-- The text without the white space it starts with. -/
def trimStart (t : Text) : Text :=
  dropWhite 0 t

/-- The text without the white space it ends with. -/
def trimEnd : Text → Text
  | [] => []
  | b :: t => if trimStart (b :: t) = [] then [] else b :: trimEnd t

/-- The text without the white space around it. -/
def trim (t : Text) : Text :=
  trimEnd (trimStart t)

/-- The text starts with white space. -/
def startsWhite (t : Text) : Bool :=
  whiteWidth t ≠ 0

/-- The runs of other bytes between white space characters, after passing over `skip` bytes;
the first piece is the run in progress. -/
def piecesFrom : (skip : Nat) → Text → List Text
  | _, [] => [[]]
  | skip + 1, _ :: t => piecesFrom skip t
  | 0, b :: t =>
    match whiteWidth (b :: t) with
    | 0 =>
      match piecesFrom 0 t with
      | [] => [[b]]
      | piece :: pieces => (b :: piece) :: pieces
    | width + 1 => [] :: piecesFrom width t

/-- The words of a text: its non-empty runs between white space. -/
def words (t : Text) : List Text :=
  (piecesFrom 0 t).filter (· ≠ [])

/-- Everything before the first white space character. -/
def firstPiece (t : Text) : Text :=
  (piecesFrom 0 t).headD []

end Interlace.Text
