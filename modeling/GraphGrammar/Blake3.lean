/-!
BLAKE3 in its plain hashing mode. The input is cut into chunks of 1024 bytes and each chunk into blocks
of 64 bytes. The blocks of a chunk are compressed one after the other, and the chunks are the leaves of
a binary tree whose parents compress the chaining values of their two children. The last compression of
the whole tree is marked as the root, and its words are the digest.
-/

namespace GraphGrammar.Blake3

def initialWords : Vector UInt32 8 := #v[
  0x6a09e667, 0xbb67ae85, 0x3c6ef372, 0xa54ff53a, 0x510e527f, 0x9b05688c, 0x1f83d9ab, 0x5be0cd19]

def schedule : Vector (Fin 16) 16 := #v[2, 6, 3, 10, 7, 0, 4, 13, 1, 11, 12, 5, 9, 14, 15, 8]

def chunkStart : UInt32 := 1
def chunkEnd : UInt32 := 2
def parentNode : UInt32 := 4
def rootNode : UInt32 := 8

def chunkBytes : Nat := 1024
def blockBytes : Nat := 64

/-- Turns a word to the right, `0 < n < 32`. -/
def rotateRight (x n : UInt32) : UInt32 := (x >>> n) ||| (x <<< (32 - n))

/-- Mixes two words of a block into four words of the state. -/
def quarter (v : Vector UInt32 16) (a b c d : Fin 16) (x y : UInt32) : Vector UInt32 16 :=
  let v := v.set a (v[a] + v[b] + x)
  let v := v.set d (rotateRight (v[d] ^^^ v[a]) 16)
  let v := v.set c (v[c] + v[d])
  let v := v.set b (rotateRight (v[b] ^^^ v[c]) 12)
  let v := v.set a (v[a] + v[b] + y)
  let v := v.set d (rotateRight (v[d] ^^^ v[a]) 8)
  let v := v.set c (v[c] + v[d])
  v.set b (rotateRight (v[b] ^^^ v[c]) 7)

/-- One round: the columns of the state, then its diagonals. -/
def round (v m : Vector UInt32 16) : Vector UInt32 16 :=
  let v := quarter v 0 4 8 12 m[0] m[1]
  let v := quarter v 1 5 9 13 m[2] m[3]
  let v := quarter v 2 6 10 14 m[4] m[5]
  let v := quarter v 3 7 11 15 m[6] m[7]
  let v := quarter v 0 5 10 15 m[8] m[9]
  let v := quarter v 1 6 11 12 m[10] m[11]
  let v := quarter v 2 7 8 13 m[12] m[13]
  quarter v 3 4 9 14 m[14] m[15]

/-- The given number of rounds, between which the block is permuted. -/
def rounds : Nat → Vector UInt32 16 → Vector UInt32 16 → Vector UInt32 16
  | 0, v, _ => v
  | n + 1, v, m => rounds n (round v m) (schedule.map fun i => m[i])

structure Node where
  chain : Vector UInt32 8
  block : Vector UInt32 16
  counter : UInt64
  length : UInt32
  flags : UInt32

def Node.compress (node : Node) : Vector UInt32 8 :=
  let v := rounds 7 (node.chain ++ #v[initialWords[0], initialWords[1], initialWords[2],
    initialWords[3], node.counter.toUInt32, (node.counter >>> 32).toUInt32, node.length,
    node.flags]) node.block
  Vector.ofFn fun i => v[i.castLE (by omega : 8 ≤ 16)] ^^^ v[i.addNat 8]

/-- The word of four bytes from the given position on, least significant first. Missing bytes are 0. -/
def wordAt (bytes : List UInt8) (position : Nat) : UInt32 :=
  ((bytes.drop position).take 4).foldr (fun byte rest => rest <<< 8 ||| byte.toUInt32) 0

def blockWords (bytes : List UInt8) : Vector UInt32 16 :=
  Vector.ofFn fun i => wordAt bytes (4 * i)

/-- The bytes in pieces of the given positive size, of which the last may be shorter. There is one
empty piece if there are no bytes. -/
def pieces (size : Nat) : Nat → List UInt8 → List (List UInt8)
  | 0, bytes => [bytes]
  | more + 1, bytes =>
    if bytes.length ≤ size then [bytes]
    else bytes.take size :: pieces size more (bytes.drop size)

/-- The last compression of a chunk, given the chain in front of its remaining blocks. -/
def chunkNode (counter : UInt64) (chain : Vector UInt32 8) (start : UInt32) :
    List (List UInt8) → Node
  | [] => ⟨chain, blockWords [], counter, 0, start ||| chunkEnd⟩
  | [block] => ⟨chain, blockWords block, counter, UInt32.ofNat block.length, start ||| chunkEnd⟩
  | block :: rest =>
    let node : Node := ⟨chain, blockWords block, counter, UInt32.ofNat block.length, start⟩
    chunkNode counter node.compress 0 rest

def leaf (chunk : List UInt8) (number : Nat) : Node :=
  chunkNode (UInt64.ofNat number) initialWords chunkStart
    (pieces blockBytes (chunk.length / blockBytes) chunk)

def parent (left right : Node) : Node :=
  ⟨initialWords, left.compress ++ right.compress, 0, UInt32.ofNat blockBytes, parentNode⟩

/-- Joins neighbours in pairs. A last node without a neighbour goes up one level as it is. -/
def joinPairs : List Node → List Node
  | left :: right :: rest => parent left right :: joinPairs rest
  | rest => rest

theorem length_joinPairs_le : (nodes : List Node) → (joinPairs nodes).length ≤ nodes.length
  | [] => Nat.le_refl _
  | [_] => Nat.le_refl _
  | _ :: _ :: rest => by
    have h := length_joinPairs_le rest
    simp only [joinPairs, List.length_cons]
    omega

def top (first : Node) : List Node → Node
  | [] => first
  | second :: rest => top (parent first second) (joinPairs rest)
termination_by nodes => nodes.length
decreasing_by
  have h := length_joinPairs_le rest
  simp only [List.length_cons]
  omega

def root (bytes : List UInt8) : Node :=
  match (pieces chunkBytes (bytes.length / chunkBytes) bytes).zipIdx.map fun (c, i) => leaf c i with
  | [] => leaf [] 0
  | first :: rest => top first rest

def bytesOfWord (w : UInt32) : List UInt8 :=
  [w.toUInt8, (w >>> 8).toUInt8, (w >>> 16).toUInt8, (w >>> 24).toUInt8]

def digest (bytes : List UInt8) : List UInt8 :=
  let node := root bytes
  ({ node with flags := node.flags ||| rootNode }).compress.toList.flatMap bytesOfWord

end GraphGrammar.Blake3
