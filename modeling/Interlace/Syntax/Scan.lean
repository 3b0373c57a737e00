import Interlace.Syntax.Tree
import Interlace.Text.Identifier
import Interlace.Text.White

/-!
# Scanning

The lexical layer of the parser: a position in the source, the comments passed on the way,
and parsers for single tokens. White space and comments may stand before any token. A line
break is white space too, except where the caller says that it would end what is being read.

Which words are keywords depends on the place: a word is an identifier wherever the keyword of
the same spelling cannot stand.
-/

namespace Interlace.Syntax

/-- A position in the source. -/
structure Scan where
  /-- The offset of what is left. -/
  offset : Nat
  /-- The text that is left. -/
  rest : Text
  /-- The offset behind the last token, line breaks that end statements included. -/
  last : Nat
  /-- The ranges of the comments passed so far, the latest first. -/
  comments : List (Nat × Nat)

namespace Scan

/-- The start of a source; a byte order mark there is passed over. -/
def ofSource (source : Text) : Scan :=
  match source with
  | 0xEF :: 0xBB :: 0xBF :: rest => ⟨3, rest, 0, []⟩
  | _ => ⟨0, source, 0, []⟩

/-- Passes over bytes that belong to no token. -/
def drop (n : Nat) (s : Scan) : Scan :=
  { s with offset := s.offset + n, rest := s.rest.drop n }

/-- Passes over a token. -/
def take (n : Nat) (s : Scan) : Scan :=
  { s with offset := s.offset + n, rest := s.rest.drop n, last := s.offset + n }

/-- The number of bytes of the comment at the start of a text. A comment that is not closed
is none. -/
def commentWidth? (t : Text) : Option Nat :=
  if Text.startsWith t "//" then some (t.takeWhile (· ≠ Text.newline)).length
  else if Text.startsWith t "/*" then (Text.find? "*/" (t.drop 2)).map (· + 4)
  else none

/-- Passes over white space and comments, over line breaks only if `breaks` says so; `fuel`
bounds how many. -/
def skipFrom (breaks : Bool) : (fuel : Nat) → Scan → Scan
  | 0, s => s
  | fuel + 1, s =>
    match Text.whiteWidth s.rest with
    | 0 =>
      match commentWidth? s.rest with
      | some width =>
        skipFrom breaks fuel
          { s.drop width with comments := (s.offset, s.offset + width) :: s.comments }
      | none => s
    | width + 1 =>
      if s.rest.head? = some Text.newline && ! breaks then s
      else skipFrom breaks fuel (s.drop (width + 1))

/-- Passes over white space and comments, over line breaks only if `breaks` says so. -/
def skip (breaks : Bool) (s : Scan) : Scan :=
  skipFrom breaks s.rest.length s

end Scan

/-- A parser reads trees from a position on, or fails. -/
abbrev Reading := StateT Scan Option

namespace Reading

/-- What is left after white space and comments. -/
def ahead (breaks : Bool) : Reading Text := do
  return ((← get).skip breaks).rest

/-- What follows starts with the given spelling. -/
def sees (breaks : Bool) (spelling : Text) : Reading Bool := do
  return Text.startsWith (← ahead breaks) spelling

/-- The identifier or keyword that follows, or nothing. -/
def aheadWord (breaks : Bool) : Reading Text := do
  let t ← ahead breaks
  return t.take (Text.identifierWidth t)

/-- Reads a token of a known number of bytes. -/
def token (breaks : Bool) (kind : Kind) (width : Nat) : Reading Tree := do
  let s := (← get).skip breaks
  set (s.take width)
  return .leaf kind s.offset (s.offset + width)

/-- Reads a symbol. -/
def symbol (breaks : Bool) (spelling : String) : Reading Tree := do
  if ← sees breaks spelling then token breaks (.symbol spelling) (spelling : Text).length
  else failure

/-- Reads a keyword. -/
def keyword (breaks : Bool) (spelling : String) : Reading Tree := do
  if (← aheadWord breaks) = spelling then
    token breaks (.symbol spelling) (spelling : Text).length
  else failure

/-- Reads a word that is none of the reserved ones. -/
def word (breaks : Bool) (kind : Kind) (reserved : List Text) : Reading Tree := do
  let w ← aheadWord breaks
  if w = [] || reserved.contains w then failure else token breaks kind w.length

/-- A node over trees that have just been read; it ends where the last token did. -/
def node (kind : Kind) (children : List Tree) : Reading Tree := do
  let last := (← get).last
  return .node kind none ((children.head?.map Tree.start).getD last) last children

/-- Reads as often as possible, `fuel` times at most. -/
def manyUpTo (p : Reading (List Tree)) : (fuel : Nat) → Reading (List Tree)
  | 0 => return []
  | fuel + 1 =>
    (do
      let first ← p
      return first ++ (← manyUpTo p fuel)) <|> return []

/-- Reads as often as possible. -/
def many (p : Reading (List Tree)) : Reading (List Tree) := do
  manyUpTo p (← get).rest.length

/-- Reads if possible. -/
def opt (p : Reading (List Tree)) : Reading (List Tree) :=
  p <|> return []

/-- Reads one tree as a list. -/
def one (p : Reading Tree) : Reading (List Tree) := do
  return [← p]

/-- Reads items with a separator between neighbours; the separators are among the trees. -/
def separated (breaks : Bool) (separator : String) (item : Reading Tree) :
    Reading (List Tree) := do
  let first ← item
  let more ← many do
    let s ← symbol breaks separator
    return [s, ← item]
  return first :: more

/-- Reads a tree in a part of its parent. -/
def as (part : Field) (p : Reading Tree) : Reading Tree := do
  return (← p).withField part

/-- Nothing follows but white space and comments. -/
def atEnd : Reading Bool := do
  return (← ahead true) = []

/-- Reads what ends a statement: a line break, which leaves no tree, or a semicolon. -/
def terminator : Reading (List Tree) := do
  let s := (← get).skip false
  match s.rest with
  | 0x0A :: _ => set (s.take 1); return []
  | 0x3B :: _ => return [← symbol false ";"]
  | 0x00 :: _ => return [← token false (.symbol "\x00") 1]
  | _ => failure

end Reading

/-! ## Literals -/

namespace Literal

/-- A hexadecimal digit. -/
def isHex (b : UInt8) : Bool :=
  Text.isDigit b || (0x41 ≤ b && b ≤ 0x46) || (0x61 ≤ b && b ≤ 0x66)

/-- An octal digit. -/
def isOctal (b : UInt8) : Bool :=
  0x30 ≤ b && b ≤ 0x37

/-- A binary digit. -/
def isBinary (b : UInt8) : Bool :=
  b = 0x30 || b = 0x31

/-- The width of digits between which single underscores may stand, after a first digit. -/
def moreDigits (digit : UInt8 → Bool) : Text → Nat
  | 0x5F :: b :: t => if digit b then moreDigits digit t + 2 else 0
  | b :: t => if digit b then moreDigits digit t + 1 else 0
  | [] => 0

/-- The width of digits between which single underscores may stand. -/
def digits? (digit : UInt8 → Bool) : Text → Option Nat
  | b :: t => if digit b then some (moreDigits digit t + 1) else none
  | [] => none

/-- The width of an optional underscore and digits. -/
def spacedDigits? (digit : UInt8 → Bool) : Text → Option Nat
  | 0x5F :: t => (digits? digit t).map (· + 1)
  | t => digits? digit t

/-- The wider of two matches. -/
def wider : Option Nat → Option Nat → Option Nat
  | some a, some b => some (max a b)
  | some a, none => some a
  | none, b => b

/-- The width of an integer. -/
def integer? (t : Text) : Option Nat :=
  match t with
  | 0x30 :: r =>
    let marked :=
      match r with
      | b :: r =>
        if b = 0x78 || b = 0x58 then (spacedDigits? isHex r).map (· + 2)
        else if b = 0x62 || b = 0x42 then (spacedDigits? isBinary r).map (· + 2)
        else if b = 0x6F || b = 0x4F then (spacedDigits? isOctal r).map (· + 2)
        else none
      | [] => none
    wider marked (wider ((spacedDigits? isOctal r).map (· + 1)) (some 1))
  | b :: r =>
    if Text.isDigit b then some (((spacedDigits? Text.isDigit r).getD 0) + 1) else none
  | [] => none

/-- The width of an exponent with the given marks. -/
def exponent? (low high : UInt8) (t : Text) : Option Nat :=
  match t with
  | m :: r =>
    if m = low || m = high then
      match r with
      | 0x2B :: r => (digits? Text.isDigit r).map (· + 2)
      | 0x2D :: r => (digits? Text.isDigit r).map (· + 2)
      | r => (digits? Text.isDigit r).map (· + 1)
    else none
  | [] => none

/-- The width of an optional exponent after a match. -/
def withExponent (t : Text) (width : Nat) : Nat :=
  width + (exponent? 0x65 0x45 (t.drop width)).getD 0

/-- The width of a decimal floating point number. -/
def decimalFloat? (t : Text) : Option Nat :=
  match digits? Text.isDigit t with
  | some n =>
    match t.drop n with
    | 0x2E :: r => some (withExponent t (n + 1 + (digits? Text.isDigit r).getD 0))
    | r => (exponent? 0x65 0x45 r).map (· + n)
  | none =>
    match t with
    | 0x2E :: r => (digits? Text.isDigit r).map fun n => withExponent t (n + 1)
    | _ => none

/-- The width of a hexadecimal floating point number. -/
def hexFloat? (t : Text) : Option Nat :=
  match t with
  | 0x30 :: x :: r =>
    if x = 0x78 || x = 0x58 then
      let mantissa : Option Nat :=
        match spacedDigits? isHex r with
        | some n =>
          match r.drop n with
          | 0x2E :: r => some (n + 1 + (digits? isHex r).getD 0)
          | _ => some n
        | none =>
          match r with
          | 0x2E :: r => (digits? isHex r).map (· + 1)
          | _ => none
      mantissa.bind fun n => (exponent? 0x70 0x50 (r.drop n)).map (· + n + 2)
    else none
  | _ => none

/-- The width of a floating point number. -/
def float? (t : Text) : Option Nat :=
  wider (decimalFloat? t) (hexFloat? t)

/-- The width of an imaginary number. -/
def imaginary? (t : Text) : Option Nat :=
  let closed := fun (width : Option Nat) =>
    width.bind fun n => if (t.drop n).head? = some 0x69 then some (n + 1) else none
  wider (closed (digits? Text.isDigit t)) (wider (closed (integer? t)) (closed (float? t)))

/-- The kind and the width of the number at the start of a text: the widest match. -/
def number? (t : Text) : Option (Kind × Nat) :=
  match imaginary? t with
  | some n => some (.imaginaryLiteral, n)
  | none =>
    match float? t, integer? t with
    | some f, some i => if i < f then some (.floatLiteral, f) else some (.intLiteral, i)
    | some f, none => some (.floatLiteral, f)
    | none, some i => some (.intLiteral, i)
    | none, none => none

/-- The first `n` bytes are hexadecimal digits. -/
def hexRun (n : Nat) (t : Text) : Bool :=
  let run := t.take n
  run.length = n && run.all isHex

/-- The width of the character at the start of a text. -/
def charWidth : Text → Nat
  | [] => 0
  | b :: t => (Text.readPoint b t).2

/-- The width of a character literal. -/
def rune? (t : Text) : Option Nat :=
  match t with
  | 0x27 :: 0x5C :: r =>
    let body : Option Nat :=
      match r with
      | 0x78 :: r => if hexRun 2 r then some 3 else none
      | 0x75 :: r => if hexRun 4 r then some 5 else none
      | 0x55 :: r => if hexRun 8 r then some 9 else none
      | b :: _ =>
        if isOctal b then
          let run := r.take 3
          if run.length = 3 && run.all isOctal then some 3 else none
        else if ([0x61, 0x62, 0x66, 0x6E, 0x72, 0x74, 0x76, 0x5C, 0x27, 0x22] : Text).contains b
        then some 1
        else none
      | [] => none
    body.bind fun n => if (r.drop n).head? = some 0x27 then some (n + 3) else none
  | 0x27 :: b :: r =>
    if b = 0x27 then none
    else
      let n := charWidth (b :: r)
      if ((b :: r).drop n).head? = some 0x27 then some (n + 2) else none
  | _ => none

/-- The width of an escape sequence in a string. -/
def escape? (t : Text) : Option Nat :=
  match t with
  | 0x5C :: 0x78 :: r =>
    let n := (r.takeWhile isHex).length
    if 2 ≤ n then some (n + 2) else none
  | 0x5C :: 0x75 :: r => if hexRun 4 r then some 6 else none
  | 0x5C :: 0x55 :: r => if hexRun 8 r then some 10 else none
  | 0x5C :: b :: r =>
    let n := ((b :: r).take 3).takeWhile Text.isDigit |>.length
    if 2 ≤ n then some (n + 1) else some (charWidth (b :: r) + 1)
  | _ => none

/-- Reads the pieces of a string literal up to its closing quote; `fuel` bounds how many. -/
def stringPieces : (fuel : Nat) → Reading (List Tree)
  | 0 => failure
  | fuel + 1 => do
    let s ← get
    let token := fun (kind : Kind) (width : Nat) => do
      set (s.take width)
      return Tree.leaf kind s.offset (s.offset + width)
    match s.rest with
    | 0x22 :: _ => return [← token (.symbol "\"") 1]
    | 0x5C :: _ =>
      match escape? s.rest with
      | some width =>
        let piece ← token .escapeSequence width
        return piece :: (← stringPieces fuel)
      | none => failure
    | 0x0A :: _ => failure
    | [] => failure
    | _ =>
      let run := s.rest.takeWhile fun b => b ≠ 0x22 && b ≠ 0x0A && b ≠ 0x5C
      let piece ← token .interpretedStringLiteralContent run.length
      return piece :: (← stringPieces fuel)

/-- Reads a string literal. -/
def string (breaks : Bool) : Reading Tree := do
  match ← Reading.ahead breaks with
  | 0x22 :: _ =>
    let quote ← Reading.symbol breaks "\""
    let pieces ← stringPieces ((← get).rest.length + 1)
    Reading.node .interpretedStringLiteral (quote :: pieces)
  | 0x60 :: _ =>
    let quote ← Reading.symbol breaks "\x60"
    let s ← get
    let width := (s.rest.takeWhile (· ≠ 0x60)).length
    set (s.take width)
    let content := Tree.leaf .rawStringLiteralContent s.offset (s.offset + width)
    let s ← get
    match s.rest with
    | 0x60 :: _ =>
      set (s.take 1)
      let close := Tree.leaf (.symbol "\x60") s.offset (s.offset + 1)
      Reading.node .rawStringLiteral [quote, content, close]
    | _ => failure
  | _ => failure

end Literal

end Interlace.Syntax
