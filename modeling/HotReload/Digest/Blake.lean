import HotReload.Text.Bytes
import HotReload.Text.Hex

/-!
# BLAKE3 digests

The 256-bit digest of a list of bytes, by the hash mode of BLAKE3.  The input is cut into chunks of
1024 bytes, each chunk into blocks of 64; the blocks of a chunk are absorbed one after another, and
the chunks are the leaves of a binary tree whose root gives the digest.

Joining neighbours level by level, with the last node of an odd level carried up, builds the tree
whose left subtrees are full, which is the one the function asks for.
-/

namespace HotReload

/-- A 256-bit digest. -/
structure Digest where
  bytes : List UInt8
  length_eq : bytes.length = 32

namespace Digest

instance : DecidableEq Digest := fun a b =>
  if h : a.bytes = b.bytes then
    isTrue (by cases a; cases b; simp_all)
  else
    isFalse (fun e => h (by rw [e]))

/-- The digest that stands for "no content". -/
def empty : Digest := ⟨List.replicate 32 0, by simp⟩

/-- Whether this is the digest for "no content". -/
def isEmpty (d : Digest) : Bool := d.bytes.all (· == 0)

/-- The 64 hexadecimal digits of a digest. -/
def hex (d : Digest) : List Char := Hex.ofBytes d.bytes

/-- The first sixteen hexadecimal digits, for display. -/
def short (d : Digest) : List Char := d.hex.take 16

theorem length_hex (d : Digest) : d.hex.length = 64 := by
  simp [hex, d.length_eq]

/-- Eight words: a chaining value. -/
abbrev Chaining := Vector UInt32 8

/-- Sixteen words: a message block or a working state. -/
abbrev Words := Vector UInt32 16

/-- The initial chaining value. -/
def initial : Chaining :=
  #v[0x6A09E667, 0xBB67AE85, 0x3C6EF372, 0xA54FF53A, 0x510E527F, 0x9B05688C, 0x1F83D9AB, 0x5BE0CD19]

/-- Flag of the first block of a chunk. -/
def chunkStart : UInt32 := 1

/-- Flag of the last block of a chunk. -/
def chunkEnd : UInt32 := 2

/-- Flag of an inner node of the tree. -/
def parent : UInt32 := 4

/-- Flag of the root of the tree. -/
def root : UInt32 := 8

/-- Rotation to the right. -/
def rotate (x : UInt32) (n : UInt32) : UInt32 := (x >>> n) ||| (x <<< (32 - n))

/-- The quarter round on four words of the state. -/
def quarter (v : Words) (a b c d : Fin 16) (x y : UInt32) : Words :=
  let va := v[a] + v[b] + x
  let vd := rotate (v[d] ^^^ va) 16
  let vc := v[c] + vd
  let vb := rotate (v[b] ^^^ vc) 12
  let va := va + vb + y
  let vd := rotate (vd ^^^ va) 8
  let vc := vc + vd
  let vb := rotate (vb ^^^ vc) 7
  (((v.set a va).set b vb).set c vc).set d vd

/-- One round: the columns, then the diagonals. -/
def round (v m : Words) : Words :=
  let v := quarter v 0 4 8 12 m[0] m[1]
  let v := quarter v 1 5 9 13 m[2] m[3]
  let v := quarter v 2 6 10 14 m[4] m[5]
  let v := quarter v 3 7 11 15 m[6] m[7]
  let v := quarter v 0 5 10 15 m[8] m[9]
  let v := quarter v 1 6 11 12 m[10] m[11]
  let v := quarter v 2 7 8 13 m[12] m[13]
  quarter v 3 4 9 14 m[14] m[15]

/-- The order in which the next round takes the message words. -/
def permute (m : Words) : Words :=
  #v[m[2], m[6], m[3], m[10], m[7], m[0], m[4], m[13], m[1], m[11], m[12], m[5], m[9], m[14], m[15],
    m[8]]

/-- `n` rounds, the message words permuted between them. -/
def rounds : Nat → Words → Words → Words
  | 0, v, _ => v
  | n + 1, v, m => rounds n (round v m) (permute m)

/-- The state after seven rounds, folded in half: the first eight words of the output. -/
def compress (cv : Chaining) (block : Words) (counter : Nat) (length flags : UInt32) : Chaining :=
  let v : Words := #v[cv[0], cv[1], cv[2], cv[3], cv[4], cv[5], cv[6], cv[7],
    initial[0], initial[1], initial[2], initial[3],
    UInt32.ofNat counter, UInt32.ofNat (counter / Nat.pow 2 32), length, flags]
  let v := rounds 7 v block
  Vector.ofFn fun i : Fin 8 => v[i.val] ^^^ v[i.val + 8]

/-- The four bytes of a word, least significant first. -/
def wordBytes (w : UInt32) : List UInt8 :=
  [w.toUInt8, (w >>> 8).toUInt8, (w >>> 16).toUInt8, (w >>> 24).toUInt8]

/-- The word of the four bytes from `i`, least significant first; missing bytes are zero. -/
def wordAt (bytes : Array UInt8) (i : Nat) : UInt32 :=
  (bytes.getD i 0).toUInt32 ||| ((bytes.getD (i + 1) 0).toUInt32 <<< 8) |||
    ((bytes.getD (i + 2) 0).toUInt32 <<< 16) ||| ((bytes.getD (i + 3) 0).toUInt32 <<< 24)

/-- A block of at most 64 bytes as words, filled up with zeros. -/
def blockWords (block : List UInt8) : Words :=
  let bytes := block.toArray
  Vector.ofFn fun i : Fin 16 => wordAt bytes (4 * i.val)

/-- A node of the tree, held back before its last compression, so that the root can be marked. -/
structure Node where
  cv : Chaining
  block : Words
  counter : Nat
  length : UInt32
  flags : UInt32

namespace Node

/-- The chaining value that an inner node passes up. -/
def chaining (n : Node) : Chaining := compress n.cv n.block n.counter n.length n.flags

/-- A chunk absorbed block by block; `first` marks the block that starts it. -/
def absorb (counter : Nat) (cv : Chaining) (first : UInt32) : List (List UInt8) → Node
  | [] => ⟨cv, blockWords [], counter, 0, first ||| chunkEnd⟩
  | [b] => ⟨cv, blockWords b, counter, UInt32.ofNat b.length, first ||| chunkEnd⟩
  | b :: rest => absorb counter (compress cv (blockWords b) counter 64 first) 0 rest

/-- The leaf of a chunk. -/
def ofChunk (counter : Nat) (chunk : List UInt8) : Node :=
  absorb counter initial chunkStart (Text.pieces 64 chunk)

/-- The node above two nodes. -/
def join (l r : Node) : Node :=
  let a := l.chaining
  let b := r.chaining
  ⟨initial, #v[a[0], a[1], a[2], a[3], a[4], a[5], a[6], a[7],
    b[0], b[1], b[2], b[3], b[4], b[5], b[6], b[7]], 0, 64, parent⟩

/-- One level up: neighbours are joined, a last single node is carried over. -/
def pairs : List Node → List Node
  | a :: b :: rest => join a b :: pairs rest
  | rest => rest

/-- The root over a nonempty list of leaves; `levels` bounds the height of the tree. -/
def top (levels : Nat) (leaf : Node) (leaves : List Node) : Node :=
  match levels, leaves with
  | _, [] => leaf
  | 0, _ => leaf
  | levels + 1, next :: rest =>
    match pairs (leaf :: next :: rest) with
    | [] => leaf
    | l :: ls => top levels l ls

end Node

/-- The leaves of an input: one per chunk, and one even if there is no byte. -/
def leaves (bytes : List UInt8) : List Node :=
  (Text.pieces 1024 bytes).zipIdx.map fun (chunk, i) => Node.ofChunk i chunk

/-- The words of the digest of an input. -/
def words (bytes : List UInt8) : Chaining :=
  let n := match leaves bytes with
    | [] => Node.ofChunk 0 []
    | l :: ls => Node.top ls.length l ls
  compress n.cv n.block 0 n.length (n.flags ||| root)

/-- The digest of a list of bytes. -/
def of (input : List UInt8) : Digest where
  bytes := (words input).toList.flatMap wordBytes
  length_eq := by
    have h : ∀ ws : List UInt32, (ws.flatMap wordBytes).length = 4 * ws.length := by
      intro ws
      induction ws with
      | nil => rfl
      | cons w ws ih => simp only [List.flatMap_cons, List.length_append, ih]
                        simp [wordBytes]; omega
    simp [h]

/-- The digest of a text's UTF-8 bytes. -/
def ofText (s : String) : Digest := of (Text.utf8 s)

end Digest
end HotReload
