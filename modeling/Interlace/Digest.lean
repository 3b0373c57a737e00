import Interlace.Text.Quoted

/-!
# Content digests

BLAKE3 in its plain hashing mode with 32 bytes of output. A text is cut into chunks of 1024
bytes; chunks are leaves of a binary tree whose left subtrees are as large a power of two of
chunks as leaves something for the right; each node is one application of the compression
function, and the root's application carries a flag of its own.
-/

namespace Interlace.Digest

/-- Sixteen words: a message block, or the working state of the compression function. -/
abbrev Block := Vector UInt32 16

/-- Eight words: the value that a node hands to its parent. -/
abbrev Chain := Vector UInt32 8

/-- The initial chaining value. -/
def initial : Chain :=
  #v[0x6A09E667, 0xBB67AE85, 0x3C6EF372, 0xA54FF53A, 0x510E527F, 0x9B05688C, 0x1F83D9AB, 0x5BE0CD19]

/-- First block of a chunk. -/
def chunkStart : UInt32 := 1

/-- Last block of a chunk. -/
def chunkEnd : UInt32 := 2

/-- A node above the chunks. -/
def parentNode : UInt32 := 4

/-- The root of the tree. -/
def rootNode : UInt32 := 8

/-- Rotates a word to the right. -/
def rotateRight (x : UInt32) (n : UInt32) : UInt32 :=
  (x >>> n) ||| (x <<< (32 - n))

/-- Mixes two message words into four words of the state. -/
def mix (v : Block) (a b c d : Fin 16) (x y : UInt32) : Block :=
  let va := v[a] + v[b] + x
  let vd := rotateRight (v[d] ^^^ va) 16
  let vc := v[c] + vd
  let vb := rotateRight (v[b] ^^^ vc) 12
  let va := va + vb + y
  let vd := rotateRight (vd ^^^ va) 8
  let vc := vc + vd
  let vb := rotateRight (vb ^^^ vc) 7
  (((v.set a va).set b vb).set c vc).set d vd

/-- One round: the columns of the state, then its diagonals. -/
def round (v m : Block) : Block :=
  let v := mix v 0 4 8 12 m[0] m[1]
  let v := mix v 1 5 9 13 m[2] m[3]
  let v := mix v 2 6 10 14 m[4] m[5]
  let v := mix v 3 7 11 15 m[6] m[7]
  let v := mix v 0 5 10 15 m[8] m[9]
  let v := mix v 1 6 11 12 m[10] m[11]
  let v := mix v 2 7 8 13 m[12] m[13]
  mix v 3 4 9 14 m[14] m[15]

/-- The order in which the next round reads the message words. -/
def permute (m : Block) : Block :=
  #v[m[2], m[6], m[3], m[10], m[7], m[0], m[4], m[13],
     m[1], m[11], m[12], m[5], m[9], m[14], m[15], m[8]]

/-- The given number of rounds, the message permuted after each. -/
def rounds : Nat → (v m : Block) → Block
  | 0, v, _ => v
  | n + 1, v, m => rounds n (round v m) (permute m)

/-- An application of the compression function that has not been carried out yet. -/
structure Node where
  chain : Chain
  block : Block
  counter : UInt64
  length : UInt32
  flags : UInt32

/-- The first half of the compressed state. -/
def Node.compress (n : Node) (extraFlags : UInt32) : Chain :=
  let cv := n.chain
  let state : Block :=
    #v[cv[0], cv[1], cv[2], cv[3], cv[4], cv[5], cv[6], cv[7],
       initial[0], initial[1], initial[2], initial[3],
       n.counter.toUInt32, (n.counter >>> 32).toUInt32, n.length, n.flags ||| extraFlags]
  let v := rounds 7 state n.block
  #v[v[0] ^^^ v[8], v[1] ^^^ v[9], v[2] ^^^ v[10], v[3] ^^^ v[11],
     v[4] ^^^ v[12], v[5] ^^^ v[13], v[6] ^^^ v[14], v[7] ^^^ v[15]]

/-- A little-endian word; missing bytes are zero. -/
def word (t : Text) (i : Nat) : UInt32 :=
  let byte := fun k => ((t[4 * i + k]?).getD 0).toUInt32
  byte 0 ||| (byte 1 <<< 8) ||| (byte 2 <<< 16) ||| (byte 3 <<< 24)

/-- The message block that holds at most 64 bytes. -/
def blockOf (t : Text) : Block :=
  Vector.ofFn fun i => word t i.val

/-- The node of the last block of a chunk, the blocks before it folded into its chain. The
first argument bounds the number of blocks. -/
def chunkNode (counter : UInt64) : Nat → Chain → (flags : UInt32) → Text → Node
  | 0, chain, flags, t => ⟨chain, blockOf t, counter, UInt32.ofNat t.length, flags ||| chunkEnd⟩
  | n + 1, chain, flags, t =>
    if t.length ≤ 64 then
      ⟨chain, blockOf t, counter, UInt32.ofNat t.length, flags ||| chunkEnd⟩
    else
      let node : Node := ⟨chain, blockOf (t.take 64), counter, 64, flags⟩
      chunkNode counter n (node.compress 0) 0 (t.drop 64)

/-- The node above two subtrees. -/
def parentOf (left right : Chain) : Node :=
  ⟨initial, left ++ right, 0, 64, parentNode⟩

/-- The number of bytes in the left subtree of a text longer than one chunk. -/
def leftLength (length : Nat) : Nat :=
  1024 <<< Nat.log2 ((length - 1) / 1024)

/-- The node of a text whose first chunk has the given number. The first argument bounds the
height of the tree. -/
def subtree : Nat → (counter : Nat) → Text → Node
  | 0, counter, t => chunkNode (UInt64.ofNat counter) 16 initial chunkStart t
  | n + 1, counter, t =>
    if t.length ≤ 1024 then chunkNode (UInt64.ofNat counter) 16 initial chunkStart t
    else
      let size := leftLength t.length
      let left := (subtree n counter (t.take size)).compress 0
      let right := (subtree n (counter + size / 1024) (t.drop size)).compress 0
      parentOf left right

/-- The four bytes of a word, least significant first. -/
def wordBytes (w : UInt32) : Text :=
  [w.toUInt8, (w >>> 8).toUInt8, (w >>> 16).toUInt8, (w >>> 24).toUInt8]

/-- The 32 bytes of a text's digest. -/
def bytes (t : Text) : Text :=
  ((subtree (Nat.log2 t.length + 1) 0 t).compress rootNode).toList.flatMap wordBytes

/-- The digest as 64 hexadecimal digits. -/
def hex (t : Text) : Text :=
  (bytes t).flatMap Text.hexByte

end Interlace.Digest
