import BeaconHarness.Bytes

/-!
# SHA-256

The hash under every root, domain and versioned hash of this library. A message is closed with a
one bit, filled with zeros and its bit length to whole blocks of sixty-four bytes, and each block
is mixed into a chaining state of eight words by sixty-four rounds.

Main statement: a digest is always thirty-two bytes long (`length_digest`), which makes it a
node of a Merkle tree.
-/

namespace BeaconHarness.Sha256

/-! ## Words -/

/-- Rotation of a word to the right. -/
@[inline] def rotr (x n : UInt32) : UInt32 := (x >>> n) ||| (x <<< (32 - n))

/-- The four bytes of a word, most significant byte first. -/
def wordBytes (x : UInt32) : Bytes :=
  [(x >>> 24).toUInt8, (x >>> 16).toUInt8, (x >>> 8).toUInt8, x.toUInt8]

/-- The words of a byte string; one to three bytes left over at its end are dropped. -/
def words : Bytes → List UInt32
  | a :: b :: c :: d :: rest =>
    ((a.toUInt32 <<< 24) ||| (b.toUInt32 <<< 16) ||| (c.toUInt32 <<< 8) ||| d.toUInt32)
      :: words rest
  | _ => []

/-! ## The compression function -/

/-- The chaining state: eight words. -/
structure Chain where
  a : UInt32
  b : UInt32
  c : UInt32
  d : UInt32
  e : UInt32
  f : UInt32
  g : UInt32
  h : UInt32

/-- The state before the first block: fractional parts of the square roots of the first eight
primes. -/
def Chain.initial : Chain :=
  ⟨0x6a09e667, 0xbb67ae85, 0x3c6ef372, 0xa54ff53a, 0x510e527f, 0x9b05688c, 0x1f83d9ab, 0x5be0cd19⟩

/-- The round constants: fractional parts of the cube roots of the first sixty-four primes. -/
def roundConstants : List UInt32 := [
  0x428a2f98, 0x71374491, 0xb5c0fbcf, 0xe9b5dba5, 0x3956c25b, 0x59f111f1, 0x923f82a4, 0xab1c5ed5,
  0xd807aa98, 0x12835b01, 0x243185be, 0x550c7dc3, 0x72be5d74, 0x80deb1fe, 0x9bdc06a7, 0xc19bf174,
  0xe49b69c1, 0xefbe4786, 0x0fc19dc6, 0x240ca1cc, 0x2de92c6f, 0x4a7484aa, 0x5cb0a9dc, 0x76f988da,
  0x983e5152, 0xa831c66d, 0xb00327c8, 0xbf597fc7, 0xc6e00bf3, 0xd5a79147, 0x06ca6351, 0x14292967,
  0x27b70a85, 0x2e1b2138, 0x4d2c6dfc, 0x53380d13, 0x650a7354, 0x766a0abb, 0x81c2c92e, 0x92722c85,
  0xa2bfe8a1, 0xa81a664b, 0xc24b8b70, 0xc76c51a3, 0xd192e819, 0xd6990624, 0xf40e3585, 0x106aa070,
  0x19a4c116, 0x1e376c08, 0x2748774c, 0x34b0bcb5, 0x391c0cb3, 0x4ed8aa4a, 0x5b9cca4f, 0x682e6ff3,
  0x748f82ee, 0x78a5636f, 0x84c87814, 0x8cc70208, 0x90befffa, 0xa4506ceb, 0xbef9a3f7, 0xc67178f2]

/-- One round: the message word `w` and the round constant `k` enter the state. -/
@[inline] def Chain.round (s : Chain) (k w : UInt32) : Chain :=
  let s1 := rotr s.e 6 ^^^ rotr s.e 11 ^^^ rotr s.e 25
  let ch := (s.e &&& s.f) ^^^ ((~~~ s.e) &&& s.g)
  let t1 := s.h + s1 + ch + k + w
  let s0 := rotr s.a 2 ^^^ rotr s.a 13 ^^^ rotr s.a 22
  let maj := (s.a &&& s.b) ^^^ (s.a &&& s.c) ^^^ (s.b &&& s.c)
  ⟨t1 + s0 + maj, s.a, s.b, s.c, s.d + t1, s.e, s.f, s.g⟩

/-- The state after the rounds of the given message words. -/
def Chain.rounds : Chain → (constants message : List UInt32) → Chain
  | s, k :: ks, w :: ws => (s.round k w).rounds ks ws
  | s, _, _ => s

/-- Extends a message schedule by `n` words. The schedule is held newest word first, so the four
words that enter the next one stand at fixed places. -/
def extend : (n : Nat) → List UInt32 → List UInt32
  | 0, ws => ws
  | n + 1, ws =>
    match ws with
    -- Two, seven, fifteen and sixteen words back from the one to come.
    | _ :: t2 :: _ :: _ :: _ :: _ :: t7 :: _ :: _ :: _ :: _ :: _ :: _ :: _ :: t15 :: t16 :: _ =>
      let s0 := rotr t15 7 ^^^ rotr t15 18 ^^^ (t15 >>> 3)
      let s1 := rotr t2 17 ^^^ rotr t2 19 ^^^ (t2 >>> 10)
      extend n ((s1 + t7 + s0 + t16) :: ws)
    | _ => ws

/-- The sixty-four words of a block's message schedule. -/
def schedule (block : Bytes) : List UInt32 := (extend 48 (words block).reverse).reverse

/-- Mixes one block into the state. -/
def Chain.compress (s : Chain) (block : Bytes) : Chain :=
  let t := s.rounds roundConstants (schedule block)
  ⟨s.a + t.a, s.b + t.b, s.c + t.c, s.d + t.d, s.e + t.e, s.f + t.f, s.g + t.g, s.h + t.h⟩

/-- Mixes the first `n` blocks of a byte string into the state. -/
def Chain.absorb : (n : Nat) → Chain → Bytes → Chain
  | 0, s, _ => s
  | n + 1, s, message => (s.compress (message.take 64)).absorb n (message.drop 64)

/-- The thirty-two bytes of a state. -/
def Chain.bytes (s : Chain) : Bytes :=
  wordBytes s.a ++ wordBytes s.b ++ wordBytes s.c ++ wordBytes s.d
    ++ wordBytes s.e ++ wordBytes s.f ++ wordBytes s.g ++ wordBytes s.h

/-! ## The digest -/

/-- What closes a message of `length` bytes: a one bit, zeros, and the bit length in eight
bytes. -/
def closing (length : Nat) : Bytes :=
  0x80 :: (Bytes.zeros ((119 - length % 64) % 64) ++ Bytes.bigEndian 8 (8 * length))

/-- The SHA-256 digest of a message. -/
def digest (message : Bytes) : Bytes :=
  let closed := message ++ closing message.length
  (Chain.initial.absorb (closed.length / 64) closed).bytes

@[simp] theorem length_digest (message : Bytes) : (digest message).length = 32 := by
  simp [digest, Chain.bytes, wordBytes]

end BeaconHarness.Sha256
