import ClassPrune.Bytes
import ClassPrune.Text.Hex

/-!
# BLAKE3

The hash that identifies byte strings in command output. The input is cut into chunks of 1024
bytes; each chunk is a chain of compressions of its 64-byte blocks, and the chunks are the
leaves of a binary tree whose left subtrees are complete.

- `compress`: the compression function on sixteen words.
- `chunkNode`, `treeNode`: the node of a chunk and of a run of chunks.
- `hash`: the first 32 bytes of output of the root.
-/

namespace ClassPrune.Blake3

/-- The initial chaining value. -/
def iv : Array UInt32 :=
  #[0x6A09E667, 0xBB67AE85, 0x3C6EF372, 0xA54FF53A, 0x510E527F, 0x9B05688C, 0x1F83D9AB,
    0x5BE0CD19]

/-- Flag of the first block of a chunk. -/
def chunkStart : UInt32 := 1

/-- Flag of the last block of a chunk. -/
def chunkEnd : UInt32 := 2

/-- Flag of an inner node. -/
def parentFlag : UInt32 := 4

/-- Flag of the last compression of all. -/
def rootFlag : UInt32 := 8

/-- The word turned right by `n` bits. -/
def rotateRight (w n : UInt32) : UInt32 := (w >>> n) ||| (w <<< (32 - n))

/-- One quarter round on the words at `a`, `b`, `c` and `d`. -/
def quarter (s : Array UInt32) (a b c d : Nat) (x y : UInt32) : Array UInt32 :=
  let va := s.getD a 0 + s.getD b 0 + x
  let vd := rotateRight (s.getD d 0 ^^^ va) 16
  let vc := s.getD c 0 + vd
  let vb := rotateRight (s.getD b 0 ^^^ vc) 12
  let va := va + vb + y
  let vd := rotateRight (vd ^^^ va) 8
  let vc := vc + vd
  let vb := rotateRight (vb ^^^ vc) 7
  (((s.setIfInBounds a va).setIfInBounds b vb).setIfInBounds c vc).setIfInBounds d vd

/-- The words that the eight quarter rounds of a round mix: columns first, then diagonals. -/
def lanes : List (Nat × Nat × Nat × Nat) :=
  [(0, 4, 8, 12), (1, 5, 9, 13), (2, 6, 10, 14), (3, 7, 11, 15),
    (0, 5, 10, 15), (1, 6, 11, 12), (2, 7, 8, 13), (3, 4, 9, 14)]

/-- One round; quarter round number `i` takes the message words `2 i` and `2 i + 1`. -/
def round (s m : Array UInt32) : Array UInt32 :=
  lanes.zipIdx.foldl (fun s ((a, b, c, d), i) =>
    quarter s a b c d (m.getD (2 * i) 0) (m.getD (2 * i + 1) 0)) s

/-- The order in which the next round takes the message words. -/
def permutation : List Nat := [2, 6, 3, 10, 7, 0, 4, 13, 1, 11, 12, 5, 9, 14, 15, 8]

/-- The message words for the next round. -/
def permute (m : Array UInt32) : Array UInt32 :=
  (permutation.map fun i => m.getD i 0).toArray

/-- `n` rounds. -/
def rounds : (n : Nat) → (s m : Array UInt32) → Array UInt32
  | 0, s, _ => s
  | n + 1, s, m => rounds n (round s m) (permute m)

/-- What a compression takes. -/
structure Node where
  chaining : Array UInt32
  block : Array UInt32
  counter : Nat
  length : Nat
  flags : UInt32

/-- The sixteen words after the seven rounds. -/
def Node.mixed (n : Node) : Array UInt32 :=
  let start := n.chaining ++ (iv.extract 0 4) ++
    #[UInt32.ofNat n.counter, UInt32.ofNat (n.counter / 4294967296), UInt32.ofNat n.length,
      n.flags]
  rounds 7 start n.block

/-- The chaining value that a node hands on. -/
def Node.compress (n : Node) : Array UInt32 :=
  let s := n.mixed
  ((List.range 8).map fun i => s.getD i 0 ^^^ s.getD (i + 8) 0).toArray

/-- Sixteen words of a block of at most 64 bytes, padded with zeros. -/
def blockWords (bytes : Bytes) : Array UInt32 :=
  let data := bytes.toArray
  ((List.range 16).map fun i =>
    let byte (j : Nat) : UInt32 := (data.getD (4 * i + j) 0).toUInt32
    byte 0 ||| (byte 1 <<< 8) ||| (byte 2 <<< 16) ||| (byte 3 <<< 24)).toArray

/-- The last node of a chunk, which has at most `blocks` blocks after the first. -/
def chunkFrom (counter : Nat) :
    (blocks : Nat) → (chaining : Array UInt32) → (start : UInt32) → Bytes → Node
  | 0, chaining, start, bytes =>
    ⟨chaining, blockWords (bytes.take 64), counter, (bytes.take 64).length, start ||| chunkEnd⟩
  | blocks + 1, chaining, start, bytes =>
    match bytes.drop 64 with
    | [] => ⟨chaining, blockWords bytes, counter, bytes.length, start ||| chunkEnd⟩
    | more =>
      let block : Node := ⟨chaining, blockWords (bytes.take 64), counter, 64, start⟩
      chunkFrom counter blocks block.compress 0 more

/-- The last node of chunk number `counter`. -/
def chunkNode (counter : Nat) (bytes : Bytes) : Node :=
  chunkFrom counter 15 iv chunkStart bytes

/-- The node above two subtrees. -/
def parentNode (left right : Node) : Node :=
  ⟨iv, left.compress ++ right.compress, 0, 64, parentFlag⟩

/-- How many of `n` chunks, `n` at least two, go to the left: the largest power of two below. -/
def leftChunks (n : Nat) : Nat := Nat.pow 2 (n - 1).log2

/-- The node of a run of `n` chunks, the first being number `counter`. -/
def treeNode : (depth : Nat) → (n counter : Nat) → Bytes → Node
  | 0, _, counter, bytes => chunkNode counter bytes
  | depth + 1, n, counter, bytes =>
    if n ≤ 1 then chunkNode counter bytes
    else
      let left := leftChunks n
      parentNode (treeNode depth left counter (bytes.take (1024 * left)))
        (treeNode depth (n - left) (counter + left) (bytes.drop (1024 * left)))

/-- The four bytes of a word, least significant first. -/
def wordBytes (w : UInt32) : Bytes :=
  [w.toUInt8, (w >>> 8).toUInt8, (w >>> 16).toUInt8, (w >>> 24).toUInt8]

/-- The 32-byte hash of a byte string. -/
def hash (bytes : Bytes) : Bytes :=
  let chunks := max 1 ((bytes.length + 1023) / 1024)
  let root := treeNode chunks chunks 0 bytes
  ({ root with flags := root.flags ||| rootFlag }).compress.toList.flatMap wordBytes

end ClassPrune.Blake3

namespace ClassPrune

/-- The sixteen digits that identify a byte string in command output. -/
def digest (bytes : Bytes) : String := Text.hexBytes ((Blake3.hash bytes).take 8)

/-- The line that describes a byte string in command output. -/
def describeBytes (label : String) (bytes : Bytes) (digest : Bytes → String := digest) : String :=
  s!"{label}\t{digest bytes}\t{bytes.length} bytes"

end ClassPrune
