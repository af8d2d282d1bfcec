/-!
# The hash BLAKE3

Input is cut into chunks of 1024 bytes and these into blocks of 64. A binary tree
over the chunks, with the largest full subtree on the left, ends in one node whose
first 32 bytes are the digest.
-/

namespace Parkour.Digest

/-- The sixteen words of a block or of the mixing state. -/
abbrev Words := Vector UInt32 16

/-- The eight words that one compression hands on. -/
abbrev Chaining := Vector UInt32 8

/-- The words that every chain starts from. -/
def initial : Chaining :=
  #v[0x6A09E667, 0xBB67AE85, 0x3C6EF372, 0xA54FF53A,
     0x510E527F, 0x9B05688C, 0x1F83D9AB, 0x5BE0CD19]

/-- Where the next round finds its sixteen message words. -/
def permutation : Vector (Fin 16) 16 :=
  #v[2, 6, 3, 10, 7, 0, 4, 13, 1, 11, 12, 5, 9, 14, 15, 8]

/-- Turns a word to the right. -/
def rotate (word count : UInt32) : UInt32 :=
  (word >>> count) ||| (word <<< (32 - count))

/-- Mixes two message words into four words of the state. -/
def mix (v : Words) (a b c d : Fin 16) (x y : UInt32) : Words :=
  let a₁ := v[a] + v[b] + x
  let d₁ := rotate (v[d] ^^^ a₁) 16
  let c₁ := v[c] + d₁
  let b₁ := rotate (v[b] ^^^ c₁) 12
  let a₂ := a₁ + b₁ + y
  let d₂ := rotate (d₁ ^^^ a₂) 8
  let c₂ := c₁ + d₂
  let b₂ := rotate (b₁ ^^^ c₂) 7
  (((v.set a a₂).set b b₂).set c c₂).set d d₂

/-- Mixes a whole message into the columns and then the diagonals of the state. -/
def mixAll (v m : Words) : Words :=
  let v := mix v 0 4 8 12 m[0] m[1]
  let v := mix v 1 5 9 13 m[2] m[3]
  let v := mix v 2 6 10 14 m[4] m[5]
  let v := mix v 3 7 11 15 m[6] m[7]
  let v := mix v 0 5 10 15 m[8] m[9]
  let v := mix v 1 6 11 12 m[10] m[11]
  let v := mix v 2 7 8 13 m[12] m[13]
  mix v 3 4 9 14 m[14] m[15]

/-- The rounds of a compression, the message permuted between them. -/
def rounds : Nat → Words → Words → Words
  | 0, v, _ => v
  | more + 1, v, m => rounds more (mixAll v m) (permutation.map fun i => m[i])

/-- A compression that is still to be run, as a link of a chain or as the root. -/
structure Node where
  /-- The words handed on from before. -/
  chaining : Chaining
  /-- The message. -/
  block : Words
  /-- The number of the chunk. -/
  counter : UInt64
  /-- The bytes of the message. -/
  length : UInt32
  /-- What the message is: 1 opens a chunk, 2 closes one, 4 joins two nodes. -/
  flags : UInt32

/-- The first eight words of the compression, marked with `extra` flags. -/
def Node.compress (n : Node) (extra : UInt32) : Chaining :=
  let start : Words := Vector.ofFn fun i : Fin 16 =>
    if h : i.val < 8 then n.chaining[i.val]
    else match i.val with
      | 8 => initial[0]
      | 9 => initial[1]
      | 10 => initial[2]
      | 11 => initial[3]
      | 12 => n.counter.toUInt32
      | 13 => (n.counter >>> 32).toUInt32
      | 14 => n.length
      | _ => n.flags ||| extra
  let v := rounds 7 start n.block
  Vector.ofFn fun i : Fin 8 => v[i.val] ^^^ v[i.val + 8]

/-- A word from its bytes, the lowest first; missing bytes are zero. -/
def wordAt (bytes : List UInt8) : UInt32 :=
  match bytes with
  | [] => 0
  | [a] => a.toUInt32
  | [a, b] => a.toUInt32 ||| (b.toUInt32 <<< 8)
  | [a, b, c] => a.toUInt32 ||| (b.toUInt32 <<< 8) ||| (c.toUInt32 <<< 16)
  | a :: b :: c :: d :: _ =>
      a.toUInt32 ||| (b.toUInt32 <<< 8) ||| (c.toUInt32 <<< 16) ||| (d.toUInt32 <<< 24)

/-- The words of at most 64 bytes. -/
def blockOf (bytes : List UInt8) : Words :=
  Vector.ofFn fun i : Fin 16 => wordAt (bytes.drop (4 * i.val))

/-- The last node of a chunk: all blocks before it are compressed into its chain.
`opens` is 1 for the first block and 0 after it. -/
def chunkNode (counter : UInt64) (opens : UInt32) (chaining : Chaining) (bytes : List UInt8) :
    Node :=
  if bytes.length ≤ 64 then
    ⟨chaining, blockOf bytes, counter, bytes.length.toUInt32, opens ||| 2⟩
  else
    let link : Node := ⟨chaining, blockOf (bytes.take 64), counter, 64, opens⟩
    chunkNode counter 0 (link.compress 0) (bytes.drop 64)
termination_by bytes.length
decreasing_by simp only [List.length_drop]; omega

/-- The node that joins two subtrees. -/
def joinNode (left right : Chaining) : Node :=
  ⟨initial, left ++ right, 0, 64, 4⟩

/-- The bytes of the left subtree: the largest power of two of full chunks that
leaves something for the right one. -/
def leftLength (length : Nat) : Nat :=
  1024 <<< ((length - 1) / 1024).log2

theorem leftLength_lt {length : Nat} (h : 1024 < length) : leftLength length < length := by
  have whole : (length - 1) / 1024 ≠ 0 := by omega
  have bound := Nat.log2_self_le whole
  rw [leftLength, Nat.shiftLeft_eq]
  omega

theorem leftLength_pos (length : Nat) : 0 < leftLength length := by
  have := Nat.two_pow_pos ((length - 1) / 1024).log2
  rw [leftLength, Nat.shiftLeft_eq]
  omega

/-- The top node of the tree over the bytes, whose first chunk has this number. -/
def treeNode (counter : UInt64) (bytes : List UInt8) : Node :=
  if bytes.length ≤ 1024 then chunkNode counter 1 initial bytes
  else
    let size := leftLength bytes.length
    let left := treeNode counter (bytes.take size)
    let right := treeNode (counter + (size / 1024).toUInt64) (bytes.drop size)
    joinNode (left.compress 0) (right.compress 0)
termination_by bytes.length
decreasing_by
  · have := @leftLength_lt bytes.length (by omega)
    simp only [List.length_take]; omega
  · have := leftLength_pos bytes.length
    simp only [List.length_drop]; omega

/-- The two small hexadecimal digits of a byte. -/
def hexByte (byte : UInt8) : List Char :=
  [Nat.digitChar (byte.toNat / 16), Nat.digitChar (byte.toNat % 16)]

/-- The digest in hexadecimal. -/
def blake3 (bytes : List UInt8) : String :=
  let words := (treeNode 0 bytes).compress 8
  String.ofList <| words.toList.flatMap fun (w : UInt32) =>
    [w.toUInt8, (w >>> 8).toUInt8, (w >>> 16).toUInt8, (w >>> 24).toUInt8].flatMap hexByte

end Parkour.Digest
