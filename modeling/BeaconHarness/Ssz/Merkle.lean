import BeaconHarness.Sha256
import BeaconHarness.Ssz.Encoding

/-!
# Hash tree roots

The root of a value is the root of a binary tree of thirty-two-byte chunks. Basic values are
packed into chunks; any other part enters by its own root. A tree has room for as many chunks as
the schema allows, up to its declared limit, and empty places count as zero chunks. Lists and
bitlists are hashed together with their length.

The places behind the last chunk are never built: the tree is computed layer by layer, and each
layer carries the root of an empty subtree of its height, which stands in for whatever is
missing.
-/

namespace BeaconHarness.Ssz

/-! ## Chunks -/

/-- The bytes of a chunk. -/
def chunkWidth : Nat := 32

/-- The chunk of zeros. -/
def zeroChunk : Bytes := Bytes.zeros chunkWidth

/-- A byte string filled with zeros to a whole chunk. -/
def padChunk (b : Bytes) : Bytes := b ++ Bytes.zeros (chunkWidth - b.length)

/-- Cuts the first `count` chunks off a byte string; the last one is filled with zeros. -/
def cutChunks : (count : Nat) → Bytes → List Bytes
  | 0, _ => []
  | count + 1, b => padChunk (b.take chunkWidth) :: cutChunks count (b.drop chunkWidth)

/-- The chunks of a byte string. -/
def chunks (b : Bytes) : List Bytes := cutChunks ((b.length + 31) / 32) b

/-- The chunks that `length` bytes fill. -/
def chunkCount (length : Nat) : Nat := (length + 31) / 32

/-! ## Trees -/

/-- The node above two nodes. -/
def combine (x y : Bytes) : Bytes := Sha256.digest (x ++ y)

/-- The layer above a layer of nodes, in reverse. An odd last node is paired with `zero`, the root
of an empty subtree of this height; `above` is the node above two of those. -/
def pairUp (zero above : Bytes) : List Bytes → List Bytes → List Bytes
  | [], built => built
  | [x], built => combine x zero :: built
  | x :: y :: rest, built =>
    -- Two empty subtrees need no hashing: their node is known.
    pairUp zero above rest ((if x = zero && y = zero then above else combine x y) :: built)

/-- The root of a tree of `depth` layers above the given nodes. -/
def climb : (depth : Nat) → (zero : Bytes) → List Bytes → Bytes
  | 0, zero, nodes => nodes.headD zero
  | depth + 1, zero, nodes =>
    let above := combine zero zero
    climb depth above (pairUp zero above nodes []).reverse

/-- The layers of a tree with room for `limit` chunks. -/
def depthFor (limit : Nat) : Nat := if limit ≤ 1 then 0 else Nat.log2 (limit - 1) + 1

/-- The root of a tree with room for `limit` chunks, of which the given ones are filled. -/
def merkleize (nodes : List Bytes) (limit : Nat) : Bytes := climb (depthFor limit) zeroChunk nodes

/-- A root hashed together with a length. -/
def mixInLength (root : Bytes) (length : Nat) : Bytes :=
  combine root (Bytes.littleEndian chunkWidth length)

/-! ## The root of a value -/

mutual
/-- The hash tree root of a value of a schema. -/
def hashTreeRoot : Schema → Value → Bytes
  | .uint width, .uint n => padChunk (Bytes.littleEndian width n)
  | .boolean, .boolean b => padChunk [if b then 1 else 0]
  | .byteVector length, .bytes b => merkleize (chunks b) (chunkCount length)
  | .bitvector length, .bits bs => merkleize (chunks (packBits bs)) ((length + 255) / 256)
  | .bitlist limit, .bits bs =>
    mixInLength (merkleize (chunks (packBits bs)) ((limit + 255) / 256)) bs.length
  | .vector element length, .seq vs =>
    if element.isBasic then
      merkleize (chunks (vs.flatMap (encode element))) (chunkCount (length * element.minLength))
    else merkleize (vs.map (hashTreeRoot element)) length
  | .list element limit, .seq vs =>
    mixInLength
      (if element.isBasic then
        merkleize (chunks (vs.flatMap (encode element))) (chunkCount (limit * element.minLength))
      else merkleize (vs.map (hashTreeRoot element)) limit)
      vs.length
  | .container _ fields, .seq vs => merkleize (fieldRoots fields vs) fields.length
  | _, _ => zeroChunk

/-- The roots of a container's fields. -/
def fieldRoots : Fields → List Value → List Bytes
  | (_, τ) :: fields, v :: vs => hashTreeRoot τ v :: fieldRoots fields vs
  | _, _ => []
end

/-- The hash tree root of an object. -/
def Object.root (x : Object) : Bytes := hashTreeRoot x.schema x.value

end BeaconHarness.Ssz
