import BeaconHarness.Ssz.Merkle

/-!
# Roots are chunks

A tree of chunks has a chunk for its root: above the lowest layer every node is a digest, and empty
places hold chunks too. So the root of a value is a chunk as soon as the numbers of its schema fit
into one, which they do up to thirty-two bytes. A chunk that is taken for a value by itself, as a
byte string, is its own root.

Main statements: the root of a value is a chunk (`length_hashTreeRoot`), and a chunk is its own root
(`hashTreeRoot_chunk`).
-/

namespace BeaconHarness.Ssz

/-! ## Chunks -/

theorem length_padChunk {b : Bytes} (h : b.length ≤ chunkWidth) :
    (padChunk b).length = chunkWidth := by
  unfold padChunk
  rw [List.length_append, Bytes.length_zeros]
  omega

theorem padChunk_of_length {b : Bytes} (h : b.length = chunkWidth) : padChunk b = b := by
  unfold padChunk
  rw [h, Nat.sub_self]
  exact List.append_nil b

theorem length_of_mem_cutChunks {count : Nat} {b chunk : Bytes} (h : chunk ∈ cutChunks count b) :
    chunk.length = chunkWidth := by
  induction count generalizing b with
  | zero => exact absurd h List.not_mem_nil
  | succ count ih =>
    unfold cutChunks at h
    rcases List.mem_cons.mp h with rfl | hrest
    · exact length_padChunk (List.length_take_le chunkWidth b)
    · exact ih hrest

theorem length_of_mem_chunks {b chunk : Bytes} (h : chunk ∈ chunks b) :
    chunk.length = chunkWidth :=
  length_of_mem_cutChunks h

/-- A byte string as long as a chunk is cut into itself. -/
theorem chunks_of_length {b : Bytes} (h : b.length = chunkWidth) : chunks b = [b] := by
  have htake : b.take chunkWidth = b := List.take_of_length_le (Nat.le_of_eq h)
  unfold chunks
  rw [h]
  show [padChunk (b.take chunkWidth)] = [b]
  rw [htake, padChunk_of_length h]

/-! ## Trees -/

theorem length_combine (x y : Bytes) : (combine x y).length = chunkWidth :=
  Sha256.length_digest (x ++ y)

/-- The nodes of a layer above another one are chunks, whatever stands below them. -/
theorem length_of_mem_pairUp {zero above : Bytes} (habove : above.length = chunkWidth)
    {nodes built : List Bytes} (hbuilt : ∀ node ∈ built, node.length = chunkWidth) {node : Bytes}
    (h : node ∈ pairUp zero above nodes built) : node.length = chunkWidth := by
  fun_induction pairUp zero above nodes built with
  | case1 built => exact hbuilt node h
  | case2 x built =>
    rcases List.mem_cons.mp h with rfl | hrest
    · exact length_combine x zero
    · exact hbuilt node hrest
  | case3 x y rest built ih =>
    refine ih ?_ h
    intro upper hupper
    rcases List.mem_cons.mp hupper with rfl | hrest
    · split
      · exact habove
      · exact length_combine x y
    · exact hbuilt upper hrest

theorem length_climb {depth : Nat} {zero : Bytes} {nodes : List Bytes}
    (hzero : zero.length = chunkWidth) (hnodes : ∀ node ∈ nodes, node.length = chunkWidth) :
    (climb depth zero nodes).length = chunkWidth := by
  -- The layers are built from below, so the nodes change with the depth that is left.
  induction depth generalizing zero nodes with
  | zero =>
    cases nodes with
    | nil => exact hzero
    | cons node nodes => exact hnodes node List.mem_cons_self
  | succ depth ih =>
    have habove := length_combine zero zero
    apply ih habove
    intro node hnode
    have hpaired := List.mem_reverse.mp hnode
    apply length_of_mem_pairUp habove _ hpaired
    intro node hnone
    exact absurd hnone List.not_mem_nil

theorem length_merkleize {nodes : List Bytes} (h : ∀ node ∈ nodes, node.length = chunkWidth)
    (limit : Nat) : (merkleize nodes limit).length = chunkWidth :=
  length_climb (Bytes.length_zeros chunkWidth) h

theorem length_merkleize_chunks (b : Bytes) (limit : Nat) :
    (merkleize (chunks b) limit).length = chunkWidth :=
  length_merkleize (fun _ => length_of_mem_chunks) limit

/-- A tree with room for one chunk is that chunk. -/
theorem merkleize_singleton (node : Bytes) : merkleize [node] 1 = node := rfl

/-! ## The root of a value -/

mutual
/-- Whether all numbers of a schema fit into a chunk. -/
def Schema.fitsChunks : Schema → Bool
  | .uint width => width ≤ chunkWidth
  | .vector element _ | .list element _ => element.fitsChunks
  | .container _ fields => Schema.allFitChunks fields
  | _ => true

/-- Whether all numbers of fields fit into a chunk. -/
def Schema.allFitChunks : Fields → Bool
  | [] => true
  | (_, τ) :: rest => τ.fitsChunks && Schema.allFitChunks rest
end

theorem length_zeroChunk : zeroChunk.length = chunkWidth := Bytes.length_zeros chunkWidth

mutual
/-- The root of a value is a chunk, also if the value does not belong to the schema. -/
theorem length_hashTreeRoot {τ : Schema} (h : τ.fitsChunks = true) (v : Value) :
    (hashTreeRoot τ v).length = chunkWidth := by
  match τ with
  | .uint width =>
    have hwidth : width ≤ chunkWidth := of_decide_eq_true h
    cases v with
    | uint n => exact length_padChunk (by rwa [Bytes.length_littleEndian])
    | _ => exact length_zeroChunk
  | .boolean =>
    cases v with
    | boolean b => exact length_padChunk (by simp [chunkWidth])
    | _ => exact length_zeroChunk
  | .byteVector length =>
    cases v with
    | bytes b => exact length_merkleize_chunks b (chunkCount length)
    | _ => exact length_zeroChunk
  | .bitvector length =>
    cases v with
    | bits bs => exact length_merkleize_chunks (packBits bs) ((length + 255) / 256)
    | _ => exact length_zeroChunk
  | .bitlist limit =>
    cases v with
    | bits bs => exact length_combine _ _
    | _ => exact length_zeroChunk
  | .vector element length =>
    -- Only a vector of composite elements has the roots of its elements for nodes.
    cases v with
    | seq vs =>
      have helement : element.fitsChunks = true := h
      unfold hashTreeRoot
      split
      · exact length_merkleize_chunks _ _
      · refine length_merkleize ?_ length
        intro node hnode
        obtain ⟨v, _, rfl⟩ := List.mem_map.mp hnode
        exact length_hashTreeRoot helement v
    | _ => exact length_zeroChunk
  | .list element limit =>
    -- The length is mixed in last, so the elements do not matter.
    cases v with
    | seq vs => exact length_combine _ _
    | _ => exact length_zeroChunk
  | .container name fields =>
    cases v with
    | seq vs => exact length_merkleize (fun _ => length_of_mem_fieldRoots h) fields.length
    | _ => exact length_zeroChunk

theorem length_of_mem_fieldRoots {fields : Fields} (h : Schema.allFitChunks fields = true)
    {vs : List Value} {root : Bytes} (hroot : root ∈ fieldRoots fields vs) :
    root.length = chunkWidth := by
  match fields, vs with
  | [], vs => exact absurd hroot (by simp [fieldRoots])
  | _ :: _, [] => exact absurd hroot (by simp [fieldRoots])
  | (name, τ) :: fields, v :: vs =>
    obtain ⟨hfirst, hrest⟩ := (Bool.and_eq_true _ _).mp h
    rcases List.mem_cons.mp hroot with rfl | hroot
    · exact length_hashTreeRoot hfirst v
    · exact length_of_mem_fieldRoots hrest hroot
end

/-- A chunk is its own root. -/
theorem hashTreeRoot_chunk {b : Bytes} (h : b.length = chunkWidth) :
    hashTreeRoot (.byteVector chunkWidth) (.bytes b) = b := by
  show merkleize (chunks b) 1 = b
  rw [chunks_of_length h, merkleize_singleton]

end BeaconHarness.Ssz
