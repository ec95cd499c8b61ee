/-
  Unbundle.Digest — BLAKE3 digests of texts.

  The bytes are cut into chunks of 1024 and each chunk into blocks of 64. A chunk is one chain of compressions over
  its blocks; the chunks are the leaves of a binary tree whose inner nodes compress the values of their two
  children. The last compression of all, at the root, gives the digest.
-/

import Unbundle.Text.Utf8

namespace Unbundle.Digest

/-! ## Compression -/

abbrev Words (n : Nat) := Vector UInt32 n

/-- The value that every chain starts with. -/
def start : Words 8 :=
  #v[0x6A09E667, 0xBB67AE85, 0x3C6EF372, 0xA54FF53A, 0x510E527F, 0x9B05688C, 0x1F83D9AB, 0x5BE0CD19]

/-- Which word of a block comes where in the round after this one. -/
def order : Vector (Fin 16) 16 := #v[2, 6, 3, 10, 7, 0, 4, 13, 1, 11, 12, 5, 9, 14, 15, 8]

/-- The quadruples of words that a round mixes: the columns of the state, then its diagonals. -/
def quadruples : List (Fin 16 × Fin 16 × Fin 16 × Fin 16) :=
  [(0, 4, 8, 12), (1, 5, 9, 13), (2, 6, 10, 14), (3, 7, 11, 15),
    (0, 5, 10, 15), (1, 6, 11, 12), (2, 7, 8, 13), (3, 4, 9, 14)]

/-- A word turned right by `n` bits, `0 < n < 32`. -/
def turn (w n : UInt32) : UInt32 := (w >>> n) ||| (w <<< (32 - n))

/-- Mixes four words of a state with two words of a block. -/
def mix (v : Words 16) (q : Fin 16 × Fin 16 × Fin 16 × Fin 16) (x y : UInt32) : Words 16 :=
  let (a, b, c, d) := q
  let a₁ := v[a] + v[b] + x
  let d₁ := turn (v[d] ^^^ a₁) 16
  let c₁ := v[c] + d₁
  let b₁ := turn (v[b] ^^^ c₁) 12
  let a₂ := a₁ + b₁ + y
  let d₂ := turn (d₁ ^^^ a₂) 8
  let c₂ := c₁ + d₂
  let b₂ := turn (b₁ ^^^ c₂) 7
  (((v.set a a₂).set b b₂).set c c₂).set d d₂

/-- One round: the words of the block go in pairs to the quadruples. -/
def round (v block : Words 16) : Words 16 :=
  quadruples.zipIdx.foldl
    (fun v (q, i) => mix v q (block[2 * i]?.getD 0) (block[2 * i + 1]?.getD 0)) v

/-- Some rounds, each with the words of the block put in a new order. -/
def rounds : Nat → Words 16 → Words 16 → Words 16
  | 0, v, _ => v
  | n + 1, v, block => rounds n (round v block) (order.map (block[·]))

/-- A compression that is still to be done. -/
structure Node where
  /-- The value of the chain so far. -/
  chain : Words 8
  block : Words 16
  /-- The number of the chunk. -/
  chunk : Nat
  /-- How many bytes of the block count. -/
  size : Nat
  /-- What the compression is for: the sum of marks. -/
  marks : UInt32

/-- The marks of a chunk's first and last block, of an inner node and of the root. -/
def firstMark : UInt32 := 1
def lastMark : UInt32 := 2
def innerMark : UInt32 := 4
def rootMark : UInt32 := 8

/-- The value of a compression. -/
def Node.value (n : Node) : Words 8 :=
  let v : Words 16 := n.chain ++ (start.extract 0 4) ++
    #v[UInt32.ofNat n.chunk, UInt32.ofNat (n.chunk / Nat.pow 2 32), UInt32.ofNat n.size, n.marks]
  let v := rounds 7 v n.block
  .ofFn fun i : Fin 8 => v[i.val] ^^^ v[i.val + 8]

/-! ## Chunks -/

/-- The number that bytes stand for, the lowest byte first. -/
def wordOf (bytes : List UInt8) : UInt32 := bytes.foldr (fun b w => w * 256 + b.toUInt32) 0

/-- The words of a block, with zeros behind its bytes. -/
def blockOf (bytes : List UInt8) : Words 16 := .ofFn fun i : Fin 16 => wordOf ((bytes.drop (4 * i.val)).take 4)

/-- The last compression of a chunk, given the number of bytes left as fuel. -/
def chunkFrom (number : Nat) : Nat → Words 8 → UInt32 → List UInt8 → Node
  | fuel + 1, chain, mark, bytes =>
    if bytes.length ≤ 64 then ⟨chain, blockOf bytes, number, bytes.length, mark + lastMark⟩
    else
      let node : Node := ⟨chain, blockOf (bytes.take 64), number, 64, mark⟩
      chunkFrom number fuel node.value 0 (bytes.drop 64)
  | 0, chain, mark, bytes => ⟨chain, blockOf bytes, number, bytes.length, mark + lastMark⟩

/-- The last compression of a chunk. -/
def chunk (number : Nat) (bytes : List UInt8) : Node := chunkFrom number bytes.length start firstMark bytes

/-- Bytes in pieces of `n`, the last of them shorter perhaps; `fuel` is at least the number of bytes. -/
def pieces (n : Nat) : Nat → List UInt8 → List (List UInt8)
  | 0, _ => []
  | fuel + 1, bytes => if bytes.length ≤ n then [bytes] else bytes.take n :: pieces n fuel (bytes.drop n)

/-! ## The tree -/

/-- The compression of two values. -/
def join (left right : Node) : Node := ⟨start, left.value ++ right.value, 0, 64, innerMark⟩

/-- The next level of the tree: nodes joined two by two, an odd last one as it is. -/
def level : List Node → List Node
  | left :: right :: rest => join left right :: level rest
  | rest => rest

/-- The root above some nodes; `fuel` is at least the number of levels. -/
def root : Nat → Node → List Node → Node
  | 0, first, _ => first
  | _, first, [] => first
  | fuel + 1, first, second :: rest => root fuel (join first second) (level rest)

/-- The words of a digest. -/
def words (bytes : List UInt8) : Words 8 :=
  let leaves := (pieces 1024 (bytes.length + 1) bytes).zipIdx.map fun (piece, i) => chunk i piece
  match leaves with
  | [] => start
  | first :: rest =>
    let top := root rest.length first rest
    { top with chunk := 0, marks := top.marks + rootMark }.value

/-! ## Text -/

/-- A byte in two hexadecimal digits. -/
def hexByte (b : UInt8) : String :=
  String.ofList ((Nat.toDigits 16 (256 + b.toNat)).drop 1)

/-- The bytes of a word, the lowest first. -/
def wordBytes (w : UInt32) : List UInt8 := [w, w >>> 8, w >>> 16, w >>> 24].map UInt32.toUInt8

/-- The first eight hexadecimal digits of the digest of a text. -/
def short (text : String) : String :=
  let w := (words (Text.toBytes text))[0]
  String.join ((wordBytes w).map hexByte)

example : short "" = "af1349b9" ∧ short "abc" = "6437b3ac" := by decide +kernel

end Unbundle.Digest
