import BeaconHarness.Proofs.Ssz.Bits
import BeaconHarness.Proofs.Ssz.Length
import BeaconHarness.Proofs.Ssz.Summary
import Mathlib.Data.Nat.Bitwise
import Mathlib.Data.Nat.Log

/-!
# Trees with their padding

By definition the root of a value is the root of a full tree: the chunks of the value, with as many
zero chunks behind them as make their count the next power of two that has room for the limit. Most
of such a tree may be padding; that of a list of validators has a million million leaves. Nobody
builds it. Layer by layer, the nodes above the chunks are built, and one more node stands for all
that lie above padding alone.

A node of the full tree is known by its height and its place in the layer. The layers that are built
agree with it at every place, also where nothing was built, if what is missing from a layer counts
as the node above padding (`getD_pairUp`). So no bound on the chunks has to be carried upwards.

Main statements: a tree is that of its chunks with their padding (`merkleize_eq_paddedTree`), and so
the root of every value of a schema is the padded one (`hashTreeRoot_eq_paddedRoot`).
-/

namespace BeaconHarness.Ssz

/-! ## Full trees -/

/-- The root of the full tree with the given leaves, of which there are `2 ^ depth`: the node above
the roots of the two halves. -/
def fullTree : (depth : Nat) → (leaves : List Bytes) → Bytes
  | 0, leaves => leaves.headD zeroChunk
  | depth + 1, leaves =>
    combine (fullTree depth (leaves.take (2 ^ depth))) (fullTree depth (leaves.drop (2 ^ depth)))

/-- The root of the least full tree with room for `limit` leaves, where zero chunks fill up what the
given ones leave free. -/
def paddedTree (leaves : List Bytes) (limit : Nat) : Bytes :=
  let depth := Nat.clog 2 limit
  fullTree depth (leaves ++ List.replicate (2 ^ depth - leaves.length) zeroChunk)

/-- The node at a height and place of the infinite tree above some leaves. -/
def nodeAt (leaf : Nat → Bytes) : (height : Nat) → (place : Nat) → Bytes
  | 0, place => leaf place
  | height + 1, place => combine (nodeAt leaf height (2 * place)) (nodeAt leaf height (2 * place + 1))

/-- A full tree is the part of the infinite one above its leaves. -/
theorem fullTree_eq_nodeAt {leaf : Nat → Bytes} {depth place : Nat} {leaves : List Bytes}
    (hlength : leaves.length = 2 ^ depth)
    (hleaf : ∀ i < 2 ^ depth, leaves.getD i zeroChunk = leaf (place * 2 ^ depth + i)) :
    fullTree depth leaves = nodeAt leaf depth place := by
  induction depth generalizing leaves place with
  | zero =>
    have hfirst := hleaf 0 Nat.one_pos
    rw [Nat.pow_zero, Nat.mul_one, Nat.add_zero] at hfirst
    show leaves.headD zeroChunk = leaf place
    rw [← hfirst]
    cases leaves <;> rfl
  | succ depth ih =>
    have hwidth : 2 ^ (depth + 1) = 2 ^ depth + 2 ^ depth := by rw [Nat.pow_succ, Nat.mul_two]
    have hstart : place * 2 ^ (depth + 1) = 2 * place * 2 ^ depth := by
      rw [Nat.pow_succ, Nat.mul_comm 2 place, Nat.mul_assoc, Nat.mul_comm 2]
    show combine _ _ = combine _ _
    congr 1
    · apply ih
      · rw [List.length_take, hlength]
        omega
      · intro i hi
        have := hleaf i (by omega)
        rw [hstart] at this
        simpa [List.getD_eq_getElem?_getD, List.getElem?_take, hi] using this
    · apply ih
      · rw [List.length_drop, hlength]
        omega
      · intro i hi
        have := hleaf (2 ^ depth + i) (by omega)
        rw [hstart, ← Nat.add_assoc] at this
        rw [Nat.add_mul, Nat.one_mul]
        simpa [List.getD_eq_getElem?_getD, List.getElem?_drop] using this

/-! ## Layers -/

/-- Two empty subtrees have the node above two empty subtrees, so nothing is lost by not hashing
them. -/
theorem known_eq_combine (zero x y : Bytes) :
    (if x = zero && y = zero then combine zero zero else combine x y) = combine x y := by
  by_cases h : (x = zero && y = zero) = true
  · rw [if_pos h]
    simp only [Bool.and_eq_true, decide_eq_true_eq] at h
    rw [h.1, h.2]
  · rw [if_neg h]

/-- Every node of a layer is the one above two nodes of the layer below, also where there is no node
but padding. -/
theorem getD_pairUp (zero : Bytes) (nodes built : List Bytes) :
    ∃ upper, (pairUp zero (combine zero zero) nodes built).reverse = built.reverse ++ upper ∧
      ∀ i, upper.getD i (combine zero zero) =
        combine (nodes.getD (2 * i) zero) (nodes.getD (2 * i + 1) zero) := by
  fun_induction pairUp zero (combine zero zero) nodes built with
  | case1 built => exact ⟨[], by simp, fun i => rfl⟩
  | case2 x built =>
    refine ⟨[combine x zero], by simp, ?_⟩
    intro i
    cases i with
    | zero => rfl
    | succ i => rfl
  | case3 x y rest built ih =>
    obtain ⟨upper, hbuilt, hupper⟩ := ih
    refine ⟨combine x y :: upper, ?_, ?_⟩
    · rw [hbuilt, List.reverse_cons, List.append_assoc, known_eq_combine]
      rfl
    · intro i
      cases i with
      | zero => rfl
      | succ i => exact hupper i

/-- Layers that agree with a tree at some height lead to the node above them. -/
theorem climb_eq_nodeAt {leaf : Nat → Bytes} {height depth : Nat} {zero : Bytes}
    {nodes : List Bytes} (hnodes : ∀ i, nodes.getD i zero = nodeAt leaf height i) :
    climb depth zero nodes = nodeAt leaf (height + depth) 0 := by
  -- Going up one layer, the height grows by what the depth loses.
  induction depth generalizing height zero nodes with
  | zero =>
    show nodes.headD zero = nodeAt leaf height 0
    rw [← hnodes 0]
    cases nodes <;> rfl
  | succ depth ih =>
    obtain ⟨upper, hbuilt, hupper⟩ := getD_pairUp zero nodes []
    rw [List.reverse_nil, List.nil_append] at hbuilt
    show climb depth (combine zero zero) _ = _
    rw [hbuilt, ← Nat.add_assoc, Nat.add_right_comm]
    apply ih
    intro i
    rw [hupper i, hnodes (2 * i), hnodes (2 * i + 1)]
    rfl

/-- A tree has the least number of layers that give it room for the limit. -/
theorem depthFor_eq_clog (limit : Nat) : depthFor limit = Nat.clog 2 limit := by
  unfold depthFor
  split
  · rename_i h
    exact (Nat.clog_of_right_le_one h 2).symm
  · rename_i h
    have hpred : limit - 1 ≠ 0 := by omega
    refine eq_of_forall_ge_iff fun depth => ?_
    rw [Nat.clog_le_iff_le_pow Nat.one_lt_two, Nat.succ_le_iff, Nat.log2_lt hpred]
    omega

/-- A tree is the one of its chunks with their padding. -/
theorem merkleize_eq_paddedTree {nodes : List Bytes} {limit : Nat} (h : nodes.length ≤ limit) :
    merkleize nodes limit = paddedTree nodes limit := by
  have hroom : nodes.length ≤ 2 ^ Nat.clog 2 limit :=
    Nat.le_trans h (Nat.le_pow_clog Nat.one_lt_two limit)
  have hclimb : merkleize nodes limit =
      nodeAt (fun i => nodes.getD i zeroChunk) (0 + depthFor limit) 0 :=
    climb_eq_nodeAt fun i => rfl
  rw [hclimb, Nat.zero_add, depthFor_eq_clog]
  symm
  apply fullTree_eq_nodeAt
  · rw [List.length_append, List.length_replicate]
    omega
  · intro i hi
    rw [Nat.zero_mul, Nat.zero_add, List.getD_eq_getElem?_getD, List.getD_eq_getElem?_getD]
    by_cases hin : i < nodes.length
    · rw [List.getElem?_append_left hin]
    · rw [List.getElem?_append_right (by omega), List.getElem?_replicate, if_pos (by omega),
        List.getElem?_eq_none (by omega)]
      rfl

/-! ## Packing -/

/-- The low `width` bytes of a number: byte `i` counts how often it holds `256 ^ i`. -/
def numberBytes (width n : Nat) : Bytes := (List.range width).map fun i => UInt8.ofNat (n / 256 ^ i)

/-- The bytes of a bit string: bit `j` of byte `i` is bit `8 i + j` of the string. -/
def bitStringBytes (bits : List Bool) : Bytes :=
  (List.range ((bits.length + 7) / 8)).map fun i =>
    UInt8.ofNat (Nat.ofBits fun j : Fin 8 => bits.getD (8 * i + j) false)

/-- A byte string in chunks: byte `j` of chunk `i` is byte `32 i + j` of the string, or zero behind
its end. -/
def pack (b : Bytes) : List Bytes :=
  (List.range ((b.length + 31) / 32)).map fun i =>
    (List.range 32).map fun j => b.getD (32 * i + j) 0

theorem littleEndian_eq_numberBytes (width n : Nat) :
    Bytes.littleEndian width n = numberBytes width n := by
  induction width generalizing n with
  | zero => rfl
  | succ width ih =>
    rw [Bytes.littleEndian, ih (n / 256)]
    unfold numberBytes
    rw [List.range_succ_eq_map, List.map_cons, List.map_map, Nat.pow_zero, Nat.div_one]
    congr 1
    apply List.map_congr_left
    intro i _
    rw [Nat.div_div_eq_div_mul, ← Nat.pow_succ']
    rfl

theorem testBit_bitsToNat (bits : List Bool) (i : Nat) :
    (bitsToNat bits).testBit i = bits.getD i false := by
  induction bits generalizing i with
  | nil => exact Nat.zero_testBit i
  | cons b bits ih =>
    have hhalf : (b.toNat + 2 * bitsToNat bits) / 2 = bitsToNat bits := by
      have := b.toNat_lt
      omega
    rw [bitsToNat_cons]
    cases i with
    | zero => cases b <;> simp [Nat.testBit_zero]
    | succ i => rw [Nat.testBit_add_one, hhalf, ih, List.getD_cons_succ]

theorem packBits_eq_bitStringBytes (bits : List Bool) : packBits bits = bitStringBytes bits := by
  unfold packBits bitStringBytes
  rw [littleEndian_eq_numberBytes]
  apply List.map_congr_left
  intro i _
  have hbit : ∀ j, bits.getD (8 * i + j) false = (bitsToNat bits / 256 ^ i).testBit j := by
    intro j
    have hpow : 256 ^ i = 2 ^ (8 * i) := by rw [Nat.pow_mul]
    rw [hpow, Nat.testBit_div_two_pow, testBit_bitsToNat, Nat.add_comm]
  have hbyte : (Nat.ofBits fun j : Fin 8 => bits.getD (8 * i + j) false) =
      bitsToNat bits / 256 ^ i % 2 ^ 8 := by
    simp only [hbit]
    exact Nat.ofBits_testBit _ 8
  rw [hbyte]
  exact UInt8.ofNat_mod_size.symm

/-- The first chunk of a byte string has zeros behind the end of the string. -/
theorem padChunk_take (b : Bytes) :
    padChunk (b.take chunkWidth) = (List.range 32).map fun j => b.getD j 0 := by
  unfold padChunk Bytes.zeros chunkWidth
  apply List.ext_getElem
  · rw [List.length_append, List.length_replicate, List.length_map, List.length_range]
    have := List.length_take_le 32 b
    omega
  · intro j hj _
    rw [List.getElem_map, List.getElem_range, List.getElem_append, List.getD_eq_getElem?_getD]
    split
    · rename_i hin
      rw [List.length_take] at hin
      rw [List.getElem_take, List.getElem?_eq_getElem (by omega)]
      rfl
    · rename_i hout
      rw [List.length_append, List.length_replicate] at hj
      rw [List.length_take] at hout hj
      rw [List.getElem_replicate, List.getElem?_eq_none (by omega)]
      rfl

theorem cutChunks_eq_map (count : Nat) (b : Bytes) :
    cutChunks count b = (List.range count).map fun i =>
      (List.range 32).map fun j => b.getD (32 * i + j) 0 := by
  induction count generalizing b with
  | zero => rfl
  | succ count ih =>
    rw [cutChunks, padChunk_take, ih, List.range_succ_eq_map (n := count), List.map_cons,
      List.map_map]
    congr 1
    apply List.map_congr_left
    intro i _
    show _ = (List.range 32).map fun j => b.getD (32 * (i + 1) + j) 0
    apply List.map_congr_left
    intro j _
    have hplace : chunkWidth + (32 * i + j) = 32 * (i + 1) + j := by
      unfold chunkWidth
      omega
    rw [List.getD_eq_getElem?_getD, List.getD_eq_getElem?_getD, List.getElem?_drop, hplace]

theorem chunks_eq_pack (b : Bytes) : chunks b = pack b := cutChunks_eq_map _ b

theorem length_pack (b : Bytes) : (pack b).length = (b.length + 31) / 32 := by
  unfold pack
  rw [List.length_map, List.length_range]

/-- The tree above a byte string is that of its chunks with their padding, if there is room for
them. -/
theorem merkleize_chunks_eq {b : Bytes} {limit : Nat} (h : (b.length + 31) / 32 ≤ limit) :
    merkleize (chunks b) limit = paddedTree (pack b) limit := by
  rw [chunks_eq_pack]
  apply merkleize_eq_paddedTree
  rwa [length_pack]

/-! ## Padded roots -/

/-- The bytes of a number or a truth value. -/
def basicBytes : Schema → Value → Bytes
  | .uint width, .uint n => numberBytes width n
  | .boolean, .boolean b => [if b then 1 else 0]
  | _, _ => []

/-- The bytes of every number or truth value of a schema. -/
def basicWidth : Schema → Nat
  | .uint width => width
  | _ => 1

/-- A root together with a number of parts. -/
def withCount (root : Bytes) (count : Nat) : Bytes := combine root (numberBytes 32 count)

mutual
/-- The root of a value by definition: basic values packed into chunks, the chunks of lists and bit
lists filled up to the limit and hashed with the count of parts, those of everything else filled up
to the next power of two, and the roots of parts in place of all parts that are not basic. -/
def paddedRoot : Schema → Value → Bytes
  | .uint width, v => paddedTree (pack (basicBytes (.uint width) v)) 1
  | .boolean, v => paddedTree (pack (basicBytes .boolean v)) 1
  | .byteVector length, .bytes b => paddedTree (pack b) ((length + 31) / 32)
  | .bitvector length, .bits bs => paddedTree (pack (bitStringBytes bs)) ((length + 255) / 256)
  | .bitlist limit, .bits bs =>
    withCount (paddedTree (pack (bitStringBytes bs)) ((limit + 255) / 256)) bs.length
  | .vector element length, .seq vs =>
    if element.isBasic then
      paddedTree (pack (vs.flatMap (basicBytes element))) ((length * basicWidth element + 31) / 32)
    else paddedTree (vs.map (paddedRoot element)) length
  | .list element limit, .seq vs =>
    withCount
      (if element.isBasic then
        paddedTree (pack (vs.flatMap (basicBytes element))) ((limit * basicWidth element + 31) / 32)
      else paddedTree (vs.map (paddedRoot element)) limit)
      vs.length
  | .container _ fields, .seq vs => paddedTree (paddedFieldRoots fields vs) fields.length
  | _, _ => zeroChunk

/-- The padded roots of the fields of a container. -/
def paddedFieldRoots : Fields → List Value → List Bytes
  | (_, τ) :: fields, v :: vs => paddedRoot τ v :: paddedFieldRoots fields vs
  | _, _ => []
end

theorem mixInLength_eq_withCount (root : Bytes) (length : Nat) :
    mixInLength root length = withCount root length := by
  unfold mixInLength withCount
  rw [littleEndian_eq_numberBytes]
  rfl

theorem encode_eq_basicBytes {τ : Schema} (h : τ.isBasic = true) (v : Value) :
    encode τ v = basicBytes τ v := by
  cases τ with
  | uint width =>
    cases v with
    | uint n => exact littleEndian_eq_numberBytes width n
    | _ => rfl
  | boolean => cases v <;> rfl
  | _ => exact absurd h (by simp [Schema.isBasic])

theorem minLength_eq_basicWidth {τ : Schema} (h : τ.isBasic = true) :
    τ.minLength = basicWidth τ := by
  cases τ with
  | uint width => rfl
  | boolean => rfl
  | _ => exact absurd h (by simp [Schema.isBasic])

/-- Basic values take as many bytes as each of them does. -/
theorem length_flatMap_basicBytes_le (τ : Schema) (vs : List Value) :
    (vs.flatMap (basicBytes τ)).length ≤ vs.length * basicWidth τ := by
  induction vs with
  | nil => exact Nat.zero_le _
  | cons v vs ih =>
    have hfirst : (basicBytes τ v).length ≤ basicWidth τ := by
      unfold basicBytes
      split
      · simp [numberBytes, basicWidth]
      · simp [basicWidth]
      · exact Nat.zero_le _
    rw [List.flatMap_cons, List.length_append, List.length_cons, Nat.succ_mul]
    omega

/-- The tree above basic values is that of their chunks with their padding. -/
theorem merkleize_basic_eq {τ : Schema} (hbasic : τ.isBasic = true) {vs : List Value}
    {limit : Nat} (h : vs.length ≤ limit) :
    merkleize (chunks (vs.flatMap (encode τ))) (chunkCount (limit * τ.minLength)) =
      paddedTree (pack (vs.flatMap (basicBytes τ))) ((limit * basicWidth τ + 31) / 32) := by
  have hencode : encode τ = basicBytes τ := funext (encode_eq_basicBytes hbasic)
  have hlength := length_flatMap_basicBytes_le τ vs
  have hlimit : vs.length * basicWidth τ ≤ limit * basicWidth τ := Nat.mul_le_mul_right _ h
  rw [hencode, minLength_eq_basicWidth hbasic]
  apply merkleize_chunks_eq
  exact Nat.div_le_div_right (by omega)

/-- A byte string that fits into a chunk is the tree of that chunk. -/
theorem padChunk_eq_paddedTree {b : Bytes} (h : b.length ≤ chunkWidth) :
    padChunk b = paddedTree (pack b) 1 := by
  have hcount : (b.length + 31) / 32 ≤ 1 := by
    unfold chunkWidth at h
    omega
  rw [← merkleize_chunks_eq hcount]
  unfold chunks
  rcases Nat.eq_zero_or_pos b.length with hempty | hpos
  · rw [List.length_eq_zero_iff.mp hempty]
    rfl
  · have hone : (b.length + 31) / 32 = 1 := by omega
    rw [hone]
    show padChunk b = padChunk (b.take chunkWidth)
    rw [List.take_of_length_le h]

/-- The tree above the bits of a bit string is that of their chunks with their padding. -/
theorem merkleize_packBits_eq {bits : List Bool} {limit : Nat} (h : bits.length ≤ limit) :
    merkleize (chunks (packBits bits)) ((limit + 255) / 256) =
      paddedTree (pack (bitStringBytes bits)) ((limit + 255) / 256) := by
  rw [merkleize_chunks_eq, packBits_eq_bitStringBytes]
  rw [length_packBits]
  unfold Schema.bitBytes
  omega

/-- The tree above the parts of a sequence is the one with their padding, if the roots of the parts
are the padded ones. -/
theorem merkleize_parts_eq {τ : Schema} {vs : List Value} {limit : Nat}
    (hlength : vs.length ≤ limit) (hroots : ∀ v ∈ vs, hashTreeRoot τ v = paddedRoot τ v) :
    (if τ.isBasic then
      merkleize (chunks (vs.flatMap (encode τ))) (chunkCount (limit * τ.minLength))
    else merkleize (vs.map (hashTreeRoot τ)) limit) =
    (if τ.isBasic then
      paddedTree (pack (vs.flatMap (basicBytes τ))) ((limit * basicWidth τ + 31) / 32)
    else paddedTree (vs.map (paddedRoot τ)) limit) := by
  by_cases hbasic : τ.isBasic = true
  · rw [if_pos hbasic, if_pos hbasic]
    exact merkleize_basic_eq hbasic hlength
  · rw [if_neg hbasic, if_neg hbasic, List.map_congr_left hroots]
    exact merkleize_eq_paddedTree (by rwa [List.length_map])

mutual
/-- The root of every value of a schema is the padded one. -/
theorem hashTreeRoot_eq_paddedRoot {τ : Schema} (hfits : τ.fitsChunks = true) {v : Value}
    (hv : τ.admits v = true) : hashTreeRoot τ v = paddedRoot τ v := by
  match τ with
  | .uint width =>
    obtain ⟨n, rfl, -⟩ := exists_uint_of_admits hv
    have hwidth : width ≤ chunkWidth := of_decide_eq_true hfits
    show padChunk (Bytes.littleEndian width n) = paddedTree (pack (numberBytes width n)) 1
    rw [padChunk_eq_paddedTree (by rwa [Bytes.length_littleEndian]),
      littleEndian_eq_numberBytes]
  | .boolean =>
    cases v with
    | boolean b => exact padChunk_eq_paddedTree (by simp [chunkWidth])
    | _ => exact absurd hv (by simp [Schema.admits])
  | .byteVector length =>
    obtain ⟨b, rfl, hb⟩ := exists_bytes_of_admits hv
    have hroom : (b.length + 31) / 32 ≤ (length + 31) / 32 := by rw [hb]
    exact merkleize_chunks_eq hroom
  | .bitvector length =>
    cases v with
    | bits bs => exact merkleize_packBits_eq (Nat.le_of_eq (of_decide_eq_true hv))
    | _ => exact absurd hv (by simp [Schema.admits])
  | .bitlist limit =>
    cases v with
    | bits bs =>
      have htree := merkleize_packBits_eq (of_decide_eq_true hv : bs.length ≤ limit)
      show mixInLength _ _ = withCount _ _
      rw [mixInLength_eq_withCount, htree]
    | _ => exact absurd hv (by simp [Schema.admits])
  | .vector element length =>
    cases v with
    | seq vs =>
      have helement : element.fitsChunks = true := hfits
      obtain ⟨hlength, hvs⟩ := (Bool.and_eq_true _ _).mp hv
      refine merkleize_parts_eq (Nat.le_of_eq (of_decide_eq_true hlength)) ?_
      intro v hv
      exact hashTreeRoot_eq_paddedRoot helement (List.all_eq_true.mp hvs v hv)
    | _ => exact absurd hv (by simp [Schema.admits])
  | .list element limit =>
    cases v with
    | seq vs =>
      have helement : element.fitsChunks = true := hfits
      obtain ⟨hlength, hvs⟩ := (Bool.and_eq_true _ _).mp hv
      have hroots : ∀ v ∈ vs, hashTreeRoot element v = paddedRoot element v := by
        intro v hv
        exact hashTreeRoot_eq_paddedRoot helement (List.all_eq_true.mp hvs v hv)
      have htree := merkleize_parts_eq (of_decide_eq_true hlength : vs.length ≤ limit) hroots
      unfold hashTreeRoot paddedRoot
      rw [mixInLength_eq_withCount, htree]
    | _ => exact absurd hv (by simp [Schema.admits])
  | .container name fields =>
    obtain ⟨vs, rfl, hvs⟩ := exists_seq_of_admits hv
    obtain ⟨hroots, hlength⟩ := fieldRoots_eq_paddedFieldRoots hfits hvs
    show merkleize (fieldRoots fields vs) fields.length =
      paddedTree (paddedFieldRoots fields vs) fields.length
    rw [← hroots]
    exact merkleize_eq_paddedTree (Nat.le_of_eq hlength)

theorem fieldRoots_eq_paddedFieldRoots {fields : Fields}
    (hfits : Schema.allFitChunks fields = true) {vs : List Value}
    (hvs : Schema.admitsFields fields vs = true) :
    fieldRoots fields vs = paddedFieldRoots fields vs ∧
      (fieldRoots fields vs).length = fields.length := by
  match fields, vs with
  | [], [] => exact ⟨rfl, rfl⟩
  | [], _ :: _ => exact absurd hvs (by simp [Schema.admitsFields])
  | _ :: _, [] => exact absurd hvs (by simp [Schema.admitsFields])
  | (name, τ) :: fields, v :: vs =>
    obtain ⟨hfirst, hfits⟩ := (Bool.and_eq_true _ _).mp hfits
    obtain ⟨hv, hvs⟩ := (Bool.and_eq_true _ _).mp hvs
    obtain ⟨hroots, hlength⟩ := fieldRoots_eq_paddedFieldRoots hfits hvs
    constructor
    · show hashTreeRoot τ v :: fieldRoots fields vs = paddedRoot τ v :: paddedFieldRoots fields vs
      rw [hashTreeRoot_eq_paddedRoot hfirst hv, hroots]
    · exact congrArg (· + 1) hlength
end

end BeaconHarness.Ssz
