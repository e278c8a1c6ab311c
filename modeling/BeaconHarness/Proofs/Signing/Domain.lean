import BeaconHarness.Node.Client
import BeaconHarness.Proofs.Consensus.Root
import BeaconHarness.Proofs.Wait.Alarm

/-!
# Domains and signing roots, byte by byte

A domain and a signing root are both roots of containers with two byte strings. The tree above two
chunks is a single hash, and a byte string that fits into a chunk is that chunk with zeros behind
it, so that both can be written down as hashes of plain bytes.

Byte strings of any other length than the one that belongs in their place are refused, and never cut
or filled up. They may come as such or under a schema, and version and root may be left out.

Main statement: the bytes of domains and signing roots, and what is refused
(`Signing.domains_byte_by_byte`).
-/

namespace BeaconHarness

open Ssz (Schema Value Object)

namespace Ssz

/-! ## Roots of short byte strings -/

/-- The tree above two chunks is a single hash. -/
theorem merkleize_pair (x y : Bytes) : merkleize [x, y] 2 = combine x y :=
  known_eq_combine zeroChunk x y

/-- A byte string that fits into a chunk has that chunk for its root. -/
theorem hashTreeRoot_of_fits {b : Bytes} {length : Nat} (h : b.length = length)
    (hpos : 0 < length) (hfits : length ≤ chunkWidth) :
    hashTreeRoot (.byteVector length) (.bytes b) = padChunk b := by
  subst h
  have hcount : (b.length + 31) / 32 = 1 := by
    unfold chunkWidth at hfits
    omega
  have hchunks : chunks b = [padChunk b] := by
    unfold chunks
    rw [hcount]
    show [padChunk (b.take chunkWidth)] = _
    rw [List.take_of_length_le hfits]
  show merkleize (chunks b) (chunkCount b.length) = _
  unfold chunkCount
  rw [hchunks, hcount, merkleize_singleton]

end Ssz

/-! ## Data that are byte strings -/

namespace Datum

/-- The data that are a byte string, as such or under a schema. -/
inductive IsBytes : Datum → Bytes → Prop where
  | plain (b : Bytes) : IsBytes (.bytes b) b
  | typed (b : Bytes) : IsBytes (.ssz ⟨.byteVector b.length, .bytes b⟩) b

/-- The data that are a byte string or are left out. -/
inductive IsOptional : Datum → Option Bytes → Prop where
  | given {d : Datum} {b : Bytes} (h : d.IsBytes b) : IsOptional d (some b)
  | omitted : IsOptional .null none

/-- A byte string is taken for one of fixed length only if it has that length. -/
theorem IsBytes.fixedBytes_eq {d : Datum} {b : Bytes} (h : d.IsBytes b) (length : Nat) :
    d.fixedBytes length = if b.length = length then .ok b else .error .malformed := by
  cases h with
  | plain => rfl
  | typed => rfl

end Datum

namespace Signing

open Datum (IsBytes IsOptional)

/-! ## Containers of two byte strings -/

/-- A container of two byte strings, of lengths up to a chunk, is hashed from the two with zeros
behind them, and no byte string of another length is put into it. -/
theorem map_root_pair {name first second : String} {m n : Nat} (hm : 0 < m ∧ m ≤ Ssz.chunkWidth)
    (hn : 0 < n ∧ n ≤ Ssz.chunkWidth) (x y : Bytes) :
    (pair (.container name [(first, .byteVector m), (second, .byteVector n)]) x y).map Object.root =
      if x.length = m ∧ y.length = n then
        .ok (Sha256.digest (Ssz.padChunk x ++ Ssz.padChunk y))
      else .error .malformed := by
  unfold pair Schema.make?
  by_cases h : x.length = m ∧ y.length = n
  · obtain ⟨hx, hy⟩ := h
    have hadmits : (Schema.container name [(first, .byteVector m), (second, .byteVector n)]).admits
        (.seq [.bytes x, .bytes y]) = true := by
      simp [Schema.admits, Schema.admitsFields, hx, hy]
    have hroot : Object.root ⟨.container name [(first, .byteVector m), (second, .byteVector n)],
        .seq [.bytes x, .bytes y]⟩ = Sha256.digest (Ssz.padChunk x ++ Ssz.padChunk y) := by
      show Ssz.merkleize [Ssz.hashTreeRoot _ _, Ssz.hashTreeRoot _ _] 2 = _
      rw [Ssz.hashTreeRoot_of_fits hx hm.1 hm.2, Ssz.hashTreeRoot_of_fits hy hn.1 hn.2,
        Ssz.merkleize_pair]
      rfl
    rw [if_pos hadmits, if_pos ⟨hx, hy⟩, ← hroot]
    rfl
  · have hadmits : ¬ (Schema.container name
        [(first, .byteVector m), (second, .byteVector n)]).admits (.seq [.bytes x, .bytes y]) = true := by
      simpa [Schema.admits, Schema.admitsFields] using h
    rw [if_neg hadmits, if_neg h]
    rfl

/-! ## Domains -/

/-- A domain byte by byte: the type, and the first bytes of the hash of the version, filled up to a
chunk, and the root. -/
def domainBytes (type version root : Bytes) : Bytes :=
  type ++ (Sha256.digest (version ++ Bytes.zeros 28 ++ root)).take 28

theorem forkDataRoot_eq (version root : Bytes) :
    forkDataRoot version root =
      if version.length = 4 ∧ root.length = 32 then
        .ok (Sha256.digest (version ++ Bytes.zeros 28 ++ root))
      else .error .malformed := by
  have hpair : forkDataRoot version root = if version.length = 4 ∧ root.length = 32 then
      .ok (Sha256.digest (Ssz.padChunk version ++ Ssz.padChunk root))
    else .error .malformed := map_root_pair (by decide) (by decide) version root
  rw [hpair]
  split
  · rename_i h
    rw [Ssz.padChunk_of_length (b := root) h.2]
    unfold Ssz.padChunk Ssz.chunkWidth
    rw [h.1]
  · rfl

/-- A byte string that may be left out has its length, if it is there. -/
theorem optionalBytes_eq {d : Datum} {b : Option Bytes} (h : d.IsOptional b) (length : Nat) :
    optionalBytes length d =
      if ∀ x ∈ b, x.length = length then .ok b else .error .malformed := by
  cases h with
  | omitted => simp [optionalBytes]
  | @given d b hbytes =>
    have hread : optionalBytes length d = (d.fixedBytes length).map some := by
      cases hbytes <;> rfl
    rw [hread, hbytes.fixedBytes_eq]
    by_cases hlength : b.length = length
    · simp [hlength, Except.map]
    · simp [hlength, Except.map]

/-- The domain of a byte string of four bytes, whatever version and root are. -/
theorem domainOf_isBytes {type version root : Datum} {t : Bytes} (ht : type.IsBytes t) :
    domainOf type version root =
      if t.length ≠ 4 then .error (.unreadable (.domainTypeLength t.length))
      else optionalBytes 4 version >>= fun v => optionalBytes 32 root >>= fun g =>
        domainOfBytes t v g := by
  cases ht with
  | plain => rfl
  | typed => rfl

theorem domainOf_eq {type version root : Datum} {t : Bytes} {v g : Option Bytes}
    (ht : type.IsBytes t) (hv : version.IsOptional v) (hg : root.IsOptional g) :
    domainOf type version root =
      if t.length ≠ 4 then .error (.unreadable (.domainTypeLength t.length))
      else if (∀ x ∈ v, x.length = 4) ∧ ∀ x ∈ g, x.length = 32 then
        .ok (domainBytes t (v.getD (Bytes.zeros 4)) (g.getD (Bytes.zeros 32)))
      else .error .malformed := by
  rw [domainOf_isBytes ht, optionalBytes_eq hv, optionalBytes_eq hg]
  have hlength : ∀ (b : Option Bytes) (length : Nat), (∀ x ∈ b, x.length = length) →
      (b.getD (Bytes.zeros length)).length = length := by
    intro b length h
    cases b with
    | none => exact Bytes.length_zeros length
    | some b => exact h b rfl
  by_cases htype : t.length ≠ 4
  · rw [if_pos htype, if_pos htype]
  · rw [if_neg htype, if_neg htype]
    by_cases hversion : ∀ x ∈ v, x.length = 4
    · by_cases hroot : ∀ x ∈ g, x.length = 32
      · rw [if_pos hversion, if_pos hroot, if_pos ⟨hversion, hroot⟩]
        show (forkDataRoot (v.getD (Bytes.zeros 4)) (g.getD (Bytes.zeros 32))).map _ = _
        rw [forkDataRoot_eq, if_pos ⟨hlength v 4 hversion, hlength g 32 hroot⟩]
        rfl
      · rw [if_pos hversion, if_neg hroot, if_neg (hroot ∘ And.right)]
        rfl
    · rw [if_neg hversion, if_neg (hversion ∘ And.left)]
      rfl

/-- A domain begins with its type. -/
theorem take_of_domainOfBytes {t d : Bytes} {v g : Option Bytes} (ht : t.length = 4)
    (h : domainOfBytes t v g = .ok d) : d.take 4 = t := by
  unfold domainOfBytes at h
  cases hroot : forkDataRoot (v.getD (Bytes.zeros 4)) (g.getD zeroRoot) with
  | error e =>
    rw [hroot] at h
    exact nomatch h
  | ok root =>
    rw [hroot] at h
    obtain rfl : t ++ root.take 28 = d := Except.ok.inj h
    rw [← ht, List.take_left']
    rfl

theorem take_of_domainOf {type version root : Datum} {t d : Bytes} (ht : type.IsBytes t)
    (h : domainOf type version root = .ok d) : d.take 4 = t := by
  rw [domainOf_isBytes ht] at h
  by_cases htype : t.length ≠ 4
  · rw [if_pos htype] at h
    exact nomatch h
  · rw [if_neg htype] at h
    -- Whatever comes before the last step, the domain is put together there.
    cases hversion : optionalBytes 4 version with
    | error e =>
      rw [hversion] at h
      exact nomatch h
    | ok v =>
      cases hroot : optionalBytes 32 root with
      | error e =>
        rw [hversion, hroot] at h
        exact nomatch h
      | ok g =>
        rw [hversion, hroot] at h
        exact take_of_domainOfBytes (Decidable.of_not_not htype) h

/-! ## Signing roots -/

theorem rootUnder_eq (root domain : Bytes) :
    rootUnder root domain =
      if root.length = 32 ∧ domain.length = 32 then .ok (Sha256.digest (root ++ domain))
      else .error .malformed := by
  have hpair : rootUnder root domain = if root.length = 32 ∧ domain.length = 32 then
      .ok (Sha256.digest (Ssz.padChunk root ++ Ssz.padChunk domain))
    else .error .malformed := map_root_pair (by decide) (by decide) root domain
  rw [hpair]
  split
  · rename_i h
    rw [Ssz.padChunk_of_length (b := root) h.1, Ssz.padChunk_of_length (b := domain) h.2]
  · rfl

/-- What has a root is signed by it, under a domain of the right length alone. -/
theorem signingRootOf_of_rootOf {message domain : Datum} {root d : Bytes}
    (h : rootOf message = .ok root) (hlength : root.length = 32) (hd : domain.IsBytes d) :
    signingRootOf message domain =
      if d.length = 32 then .ok (Sha256.digest (root ++ d)) else .error .malformed := by
  unfold signingRootOf
  rw [h, hd.fixedBytes_eq]
  by_cases hdomain : d.length = 32
  · rw [if_pos hdomain, if_pos hdomain]
    show rootUnder root d = _
    rw [rootUnder_eq, if_pos ⟨hlength, hdomain⟩]
  · rw [if_neg hdomain, if_neg hdomain]
    rfl

/-- A byte string is signed as it is, if it can be a root. -/
theorem signingRootOf_isBytes {message domain : Datum} {m d : Bytes} (hm : message.IsBytes m)
    (hd : domain.IsBytes d) :
    signingRootOf message domain =
      if m.length ≠ 32 then .error (.unreadable (.rootLength m.length))
      else if d.length = 32 then .ok (Sha256.digest (m ++ d)) else .error .malformed := by
  have hroot : rootOf message =
      if m.length = 32 then .ok m else .error (.unreadable (.rootLength m.length)) := by
    cases hm <;> rfl
  by_cases hlength : m.length = 32
  · rw [if_pos hlength] at hroot
    rw [if_neg (not_not_intro hlength)]
    exact signingRootOf_of_rootOf hroot hlength hd
  · rw [if_neg hlength] at hroot
    rw [if_pos hlength]
    unfold signingRootOf
    rw [hroot]
    rfl

/-- Any other value is signed by its root. -/
theorem signingRootOf_value {τ : Schema} {v : Value} {domain : Datum} {d : Bytes}
    (hfits : τ.fitsChunks = true) (hv : τ.admits v = true) (hbytes : ∀ length, τ ≠ .byteVector length)
    (hd : domain.IsBytes d) :
    rootOf (.ssz ⟨τ, v⟩) = .ok (Ssz.paddedRoot τ v) ∧
    signingRootOf (.ssz ⟨τ, v⟩) domain =
      if d.length = 32 then .ok (Sha256.digest (Ssz.paddedRoot τ v ++ d))
      else .error .malformed := by
  have hroot := rootOf_eq_paddedRoot hfits hv fun length h => absurd h (hbytes length)
  have hlength : (Ssz.paddedRoot τ v).length = 32 := by
    rw [← Ssz.hashTreeRoot_eq_paddedRoot hfits hv]
    exact Ssz.length_hashTreeRoot hfits v
  exact ⟨hroot, signingRootOf_of_rootOf hroot hlength hd⟩

end Signing

/-! ## Domains of a client -/

/-- With a fork version at hand, a client that knows its genesis makes no request for a domain. -/
theorem Client.domain_eq (c : Client) {type version : Datum} {v g : Bytes}
    (hv : version.IsBytes v) {alarms : List Alarm} {s : Stage (Node.Link ClientConfig) Node.Line}
    (hg : s.world.own.genesisValidatorsRoot = some g) :
    c.domain type version alarms s =
      (Work.ended (Signing.domainOf type version (.bytes g)), s) := by
  have hroot : c.genesisValidatorsRoot alarms s = (.done g, s) := by
    show c.resolved "genesis" s.world.own.genesisValidatorsRoot alarms s = _
    rw [hg]
    rfl
  have hrest : c.domain type version alarms s =
      Work.ofExcept (Signing.domainOf type version (.bytes g)) alarms s := by
    cases hv with
    | plain => exact Work.andThen_of_done hroot
    | typed => exact Work.andThen_of_done hroot
  rw [hrest, Work.ofExcept_eq]

/-! ## Main statement -/

namespace Signing

/-- The domain of a type of four bytes, a version of four and a root of thirty-two is the type and
the first twenty-eight bytes of a hash of version and root, zeros counting for what is left out. The
signing root of a value is a hash of its root and the domain, for every schema with numbers of up
to a chunk, and a byte string is taken for a root itself. Byte strings of other lengths are refused
everywhere. Types tell domains apart, whatever else goes into them, and a client that knows its
genesis comes to the same domain at once and without a request. -/
theorem domains_byte_by_byte :
    (∀ (type version root : Datum) (t : Bytes) (v g : Option Bytes),
      type.IsBytes t → version.IsOptional v → root.IsOptional g →
      domainOf type version root =
        if t.length ≠ 4 then .error (.unreadable (.domainTypeLength t.length))
        else if (∀ x ∈ v, x.length = 4) ∧ ∀ x ∈ g, x.length = 32 then
          .ok (domainBytes t (v.getD (Bytes.zeros 4)) (g.getD (Bytes.zeros 32)))
        else .error .malformed) ∧
    (∀ (τ : Schema) (v : Value) (domain : Datum) (d : Bytes),
      τ.fitsChunks = true → τ.admits v = true → (∀ length, τ ≠ .byteVector length) →
      domain.IsBytes d →
      rootOf (.ssz ⟨τ, v⟩) = .ok (Ssz.paddedRoot τ v) ∧
      signingRootOf (.ssz ⟨τ, v⟩) domain =
        if d.length = 32 then .ok (Sha256.digest (Ssz.paddedRoot τ v ++ d))
        else .error .malformed) ∧
    (∀ (message domain : Datum) (m d : Bytes), message.IsBytes m → domain.IsBytes d →
      signingRootOf message domain =
        if m.length ≠ 32 then .error (.unreadable (.rootLength m.length))
        else if d.length = 32 then .ok (Sha256.digest (m ++ d)) else .error .malformed) ∧
    (∀ (type type' version version' root root' : Datum) (t t' d d' : Bytes),
      type.IsBytes t → type'.IsBytes t' → t ≠ t' → domainOf type version root = .ok d →
      domainOf type' version' root' = .ok d' → d ≠ d') ∧
    (∀ (c : Client) (type version : Datum) (v g : Bytes) (alarms : List Alarm)
      (s : Stage (Node.Link ClientConfig) Node.Line), version.IsBytes v →
      s.world.own.genesisValidatorsRoot = some g →
      c.domain type version alarms s = (Work.ended (domainOf type version (.bytes g)), s)) := by
  refine ⟨?_, ?_, ?_, ?_, ?_⟩
  · intro type version root t v g ht hv hg
    exact domainOf_eq ht hv hg
  · intro τ v domain d hfits hv hbytes hd
    exact signingRootOf_value hfits hv hbytes hd
  · intro message domain m d hm hd
    exact signingRootOf_isBytes hm hd
  · intro type type' version version' root root' t t' d d' ht ht' hne h h' heq
    apply hne
    rw [← take_of_domainOf ht h, ← take_of_domainOf ht' h', heq]
  · intro c type version v g alarms s hv hg
    exact c.domain_eq hv hg

/-- The domains of voluntary exits and of changes of credentials under one version and root, one
with nothing given but its type, types and versions of a wrong length, the signing roots of a
checkpoint and of a root under them, and the domain of a client that was told its genesis. -/
theorem domains_byte_by_byte_exit :
    let exit := Preset.domainVoluntaryExit
    let change := Preset.domainBlsToExecutionChange
    let version : Bytes := [3, 0, 0, 1]
    let root : Bytes := List.replicate 32 0xaa
    let typed : Datum := .ssz ⟨.byteVector 4, .bytes version⟩
    let checkpoint : Consensus.Checkpoint := ⟨3, root⟩
    let s : Stage (Node.Link ClientConfig) Node.Line :=
      { world := { remote := {}, own := { genesisValidatorsRoot := some root } } }
    domainOf (.bytes exit) typed (.bytes root) = .ok (domainBytes exit version root) ∧
    domainOf (.bytes exit) .null .null =
      .ok (domainBytes exit (Bytes.zeros 4) (Bytes.zeros 32)) ∧
    domainOf (.bytes [4, 0, 0]) typed (.bytes root) =
      .error (.unreadable (.domainTypeLength 3)) ∧
    domainOf (.bytes exit) (.bytes [3]) (.bytes root) = .error .malformed ∧
    (signingRootOf (.ssz checkpoint.toObject) (.bytes root) =
      .ok (Sha256.digest (Ssz.paddedRoot Consensus.checkpoint checkpoint.toValue ++ root))) ∧
    signingRootOf (.bytes version) (.bytes root) = .error (.unreadable (.rootLength 4)) ∧
    domainBytes exit version root ≠ domainBytes change version root ∧
    (default : Client).domain (.bytes exit) typed [] s =
      (.done (domainBytes exit version root), s) := by
  intro exit change version root typed checkpoint s
  obtain ⟨hdomain, hvalue, hbytes, hdiffer, hclient⟩ := domains_byte_by_byte
  have hexit : domainOf (.bytes exit) typed (.bytes root) = .ok (domainBytes exit version root) :=
    hdomain _ _ _ _ _ _ (.plain exit) (.given (.typed version)) (.given (.plain root))
  have hchange : domainOf (.bytes change) typed (.bytes root) =
      .ok (domainBytes change version root) :=
    hdomain _ _ _ _ _ _ (.plain change) (.given (.typed version)) (.given (.plain root))
  refine ⟨hexit, ?_, ?_, ?_, ?_, ?_, ?_, ?_⟩
  · exact hdomain _ _ _ _ _ _ (.plain exit) .omitted .omitted
  · exact hdomain _ _ _ _ _ _ (.plain [4, 0, 0]) (.given (.typed version)) (.given (.plain root))
  · exact hdomain _ _ _ _ _ _ (.plain exit) (.given (.plain [3])) (.given (.plain root))
  · exact (hvalue Consensus.checkpoint checkpoint.toValue _ _ (by decide) (by decide) nofun
      (.plain root)).2
  · exact hbytes _ _ _ _ (.plain version) (.plain root)
  · exact hdiffer _ _ _ _ _ _ _ _ _ _ (.plain exit) (.plain change) (by decide) hexit hchange
  · have hrun := hclient default (.bytes exit) typed version root [] s (.typed version) rfl
    rw [hexit] at hrun
    exact hrun

end Signing

end BeaconHarness
