import BeaconHarness.Proofs.Node.Chain

/-!
# Searches on a chain that stays as it is

A node whose chain stays as it is answers every request for the block of a slot in one way, whatever
it was asked before: always with the same block, or always with the status 404. On such a node each
of the three searches finds the first or the last one of the blocks that it seeks, so that what one
search finds can be told from what another one does.

Main statements: what a search finds is told by the chain alone (`finds_of_walks`), and the three
searches describe the same blocks (`searches_agree`).
-/

namespace BeaconHarness.Client

open Node (Link Line Remote Route HeaderInfo)
open Work (ended)

/-! ## Work that changes nothing -/

section Unchanged

variable {α β : Type} {s : Stage (Link ClientConfig) Line}

theorem andThen_stage {work : Job α} {next : α → Job β} (h : (work [] s).2 = s)
    (hnext : ∀ a, (next a [] s).2 = s) : ((work >>= next) [] s).2 = s := by
  show (Work.andThen work next [] s).2 = s
  rw [Work.andThen]
  split
  next a t hwork =>
    rw [hwork] at h
    obtain rfl : t = s := h
    exact hnext a
  -- Work that does not end with a value is not followed by anything.
  all_goals
    rename_i hwork
    rw [hwork] at h
    exact h

theorem resolved_stage (c : Client) (missing : String) (part : Option α)
    (s : Stage (Link ClientConfig) Line) : ((c.resolved missing part : Job α) [] s).2 = s := by
  cases part <;> rfl

end Unchanged

/-! ## Chains that stay as they are -/

/-- A node answers a request for the block of a slot with the status 404. -/
def Lacks (c : Client) (r : Remote) (slot : Nat) : Prop :=
  c.endpoint.received (r.replyTo (c.slotRoute slot)) = .ok (r.replyTo (c.slotRoute slot))
    ∧ (r.replyTo (c.slotRoute slot)).status = 404

/-- What a node tells of a slot, whatever it was asked before: always the same block, which is one
of that slot, or always the status 404. -/
def Tells (c : Client) (r : Remote) (slot : Nat) : Option VersionedBlock → Prop
  | some block => block.slot = slot ∧ ∀ asked, c.slotBlockAt slot { r with asked } = .ok block
  | none => ∀ asked, c.Lacks { r with asked } slot

/-- A node tells of a chain that stays as it is from slot 1 on. Its head is at the last slot, and
what it has at slot 0, if anything, has no payload. -/
structure Steady (c : Client) (r : Remote) (last : Nat) (chain : Nat → Option VersionedBlock) :
    Prop where
  head : ∀ asked, ∃ head, c.headAt { r with asked } = .ok head ∧ head.slot = last
  tells : ∀ slot, 1 ≤ slot → slot ≤ last → c.Tells r slot (chain slot)
  start : ∀ asked, c.Lacks { r with asked } 0
    ∨ ∃ block, c.slotBlockAt 0 { r with asked } = .ok block ∧ ¬ block.Filled

section Steady

variable {c : Client} {r r' : Remote} {last slot : Nat} {chain : Nat → Option VersionedBlock}
  {s : Stage (Link ClientConfig) Line} {kinds : List FailureKind} {Sought : VersionedBlock → Prop}

/-- A node at another moment. -/
theorem eq_of_routes_eq (h : r'.routes = r.routes) : r' = { r with asked := r'.asked } := by
  cases r'
  cases h
  rfl

theorem Lacks.notFound (h : c.Lacks r slot) :
    ∃ e, c.slotBlockAt slot r = .error e ∧ e.kind = .notFound :=
  (Node.Endpoint.notFound_iff rfl h.1).mpr h.2

theorem Steady.exists_head (h : c.Steady r last chain) (hroutes : r'.routes = r.routes) :
    ∃ head, c.headAt r' = .ok head ∧ head.slot = last := by
  rw [eq_of_routes_eq hroutes]
  exact h.head _

/-- At every moment the block of the chain is served for its slot. -/
theorem Steady.served (h : c.Steady r last chain) (hroutes : r'.routes = r.routes)
    (hslot : 1 ≤ slot ∧ slot ≤ last) {block : VersionedBlock} (hblock : chain slot = some block) :
    c.slotBlockAt slot r' = .ok block ∧ block.slot = slot := by
  have htells := h.tells slot hslot.1 hslot.2
  rw [hblock] at htells
  rw [eq_of_routes_eq hroutes]
  exact ⟨htells.2 _, htells.1⟩

/-- At every moment nothing is found for a slot that the chain has left out. -/
theorem Steady.missing (h : c.Steady r last chain) (hroutes : r'.routes = r.routes)
    (hslot : 1 ≤ slot ∧ slot ≤ last) (hnone : chain slot = none) :
    ∃ e, c.slotBlockAt slot r' = .error e ∧ e.kind = .notFound := by
  have htells := h.tells slot hslot.1 hslot.2
  rw [hnone] at htells
  rw [eq_of_routes_eq hroutes]
  exact (htells _).notFound

/-- So a block is served for a slot exactly if it is that of the chain. -/
theorem Steady.served_iff (h : c.Steady r last chain) (hroutes : r'.routes = r.routes)
    (hslot : 1 ≤ slot ∧ slot ≤ last) {block : VersionedBlock} :
    c.slotBlockAt slot r' = .ok block ↔ chain slot = some block := by
  refine ⟨fun hserved => ?_, fun hblock => (h.served hroutes hslot hblock).1⟩
  cases hchain : chain slot with
  | none =>
    obtain ⟨e, hfailed, -⟩ := h.missing hroutes hslot hchain
    rw [hserved] at hfailed
    cases hfailed
  | some other =>
    obtain ⟨hother, -⟩ := h.served hroutes hslot hchain
    rw [hserved] at hother
    rw [Except.ok.inj hother]

/-- A search that passes over missing blocks skips just the slots without a block that it seeks. -/
theorem Steady.skips_iff (h : c.Steady r last chain) (hroutes : r'.routes = r.routes)
    (hkinds : .notFound ∈ kinds) (hslot : 1 ≤ slot ∧ slot ≤ last) :
    c.Skips kinds Sought r' slot ↔ ∀ block, chain slot = some block → ¬ Sought block := by
  cases hchain : chain slot with
  | none =>
    obtain ⟨e, hfailed, hkind⟩ := h.missing hroutes hslot hchain
    constructor
    · rintro - block ⟨⟩
    · rintro -
      exact .inl ⟨e, hfailed, by rwa [hkind]⟩
  | some block =>
    obtain ⟨hserved, -⟩ := h.served hroutes hslot hchain
    constructor
    · rintro hskips other ⟨⟩
      exact Skips.not_sought hskips hserved
    · exact fun hother => .inr ⟨block, hserved, hother block rfl⟩

/-- Slot 0 is skipped by a search for payloads. -/
theorem Steady.skips_start (h : c.Steady r last chain) (hroutes : r'.routes = r.routes)
    (hkinds : .notFound ∈ kinds) : c.Skips kinds VersionedBlock.Filled r' 0 := by
  rw [eq_of_routes_eq hroutes]
  rcases h.start r'.asked with hlacks | ⟨block, hserved, hempty⟩
  · obtain ⟨e, hfailed, hkind⟩ := hlacks.notFound
    exact .inl ⟨e, hfailed, by rwa [hkind]⟩
  · exact .inr ⟨block, hserved, hempty⟩

/-! ## What is found -/

/-- What a search of a chain comes to that finds the first one of the blocks that it seeks, where
those of some slots come before those of others. -/
structure Finds (o : Outcome (Option VersionedBlock)) (chain : Nat → Option VersionedBlock)
    (last : Nat) (before : Nat → Nat → Prop) (Sought : VersionedBlock → Prop) : Prop where
  /-- It ends, and not with a failure. -/
  ends : o = .done none ∨ ∃ block, o = .done (some block)
  none_iff : o = .done none
    ↔ ∀ slot block, 1 ≤ slot ∧ slot ≤ last → chain slot = some block → ¬ Sought block
  some_iff : ∀ block, o = .done (some block) ↔ ∃ slot, (1 ≤ slot ∧ slot ≤ last)
    ∧ chain slot = some block ∧ Sought block ∧ ∀ k other, 1 ≤ k ∧ k ≤ last → before k slot →
      chain k = some other → ¬ Sought other

/-- A walk over the slots of a chain that stays as it is, and over others that it skips, finds the
first block that it seeks. -/
theorem finds_of_walks (h : c.Steady r last chain) (hroutes : s.world.remote.routes = r.routes)
    (hkinds : .notFound ∈ kinds) {work : Job (Option VersionedBlock)} {first : List Route}
    {slots : List Nat} {before : Nat → Nat → Prop}
    (hwalks : c.Walks work s first slots (c.Skips kinds Sought s.world.remote))
    (hsorted : slots.Pairwise before) (hasymm : ∀ j k, before j k → ¬ before k j)
    (hmem : ∀ slot, 1 ≤ slot ∧ slot ≤ last → slot ∈ slots)
    (hrest : ∀ slot ∈ slots, (1 ≤ slot ∧ slot ≤ last)
      ∨ c.Skips kinds Sought s.world.remote slot) :
    Finds (work [] s).1 chain last before Sought := by
  have hends := hwalks.ends hsorted hasymm fun _ => Iff.rfl
  have hskips : ∀ slot, 1 ≤ slot ∧ slot ≤ last → (c.Skips kinds Sought s.world.remote slot
      ↔ ∀ block, chain slot = some block → ¬ Sought block) :=
    fun slot hslot => h.skips_iff hroutes hkinds hslot
  refine ⟨?_, ?_, fun block => ?_⟩
  · rcases passed_or_first slots (c.Skips kinds Sought s.world.remote) with
      hall | ⟨passed, slot, rest, hslots, hpassed, hstop⟩
    · exact .inl (hends.none_iff.mpr hall)
    · obtain ⟨t, hrun, -⟩ := hwalks.stops passed slot rest hslots hpassed hstop
      have hslot : 1 ≤ slot ∧ slot ≤ last := by
        refine (hrest slot ?_).resolve_right hstop
        rw [hslots]
        exact List.mem_append.mpr (.inr List.mem_cons_self)
      -- A slot that is not skipped has a block, which is served.
      obtain ⟨block, hblock⟩ : ∃ block, chain slot = some block := by
        by_contra hnone
        exact hstop ((hskips slot hslot).mpr fun block hblock => absurd ⟨block, hblock⟩ hnone)
      rw [hrun, (h.served hroutes hslot hblock).1]
      exact .inr ⟨block, rfl⟩
  · rw [hends.none_iff]
    constructor
    · exact fun hall slot block hslot => (hskips slot hslot).mp (hall slot (hmem slot hslot)) block
    · intro hall slot hslot
      rcases hrest slot hslot with hslot | hskip
      · exact (hskips slot hslot).mpr fun block => hall slot block hslot
      · exact hskip
  · rw [hends.some_iff]
    constructor
    · rintro ⟨slot, hslot, hstop, hserved, hearlier⟩
      have hamong := (hrest slot hslot).resolve_right hstop
      have hsought : Sought block := by
        by_contra hother
        exact hstop (.inr ⟨block, hserved, hother⟩)
      exact ⟨slot, hamong, (h.served_iff hroutes hamong).mp hserved, hsought,
        fun k other hk hbefore hother =>
          (hskips k hk).mp (hearlier k (hmem k hk) hbefore) other hother⟩
    · rintro ⟨slot, hslot, hblock, hsought, hearlier⟩
      refine ⟨slot, hmem slot hslot, fun hskip => (hskips slot hslot).mp hskip block hblock hsought,
        (h.served_iff hroutes hslot).mpr hblock, fun k hk hbefore => ?_⟩
      rcases hrest k hk with hamong | hskip
      · exact (hskips k hamong).mpr fun other hother => hearlier k other hamong hbefore hother
      · exact hskip

/-! ## The three searches -/

/-- Asking for the slot at the time of day changes nothing. -/
theorem currentSlot_stage (c : Client) (s : Stage (Link ClientConfig) Line) :
    (c.currentSlot [] s).2 = s := by
  refine andThen_stage (c.resolved_stage _ s.world.own.spec s) fun spec => ?_
  refine andThen_stage rfl fun time => ?_
  refine andThen_stage (c.resolved_stage _ s.world.own.genesisTime s) fun genesis => ?_
  show (Work.ofExcept (spec.timeToSlot time genesis) [] s).2 = s
  cases spec.timeToSlot time genesis <;> rfl

theorem Steady.finds_first (h : c.Steady r last chain)
    (hroutes : s.world.remote.routes = r.routes)
    (hnow : (c.currentSlot [] s).1 = .done (.int last)) :
    Finds (c.firstExecutionBlock [] s).1 chain last (· < ·) VersionedBlock.Filled := by
  have hcurrent : c.currentSlot [] s = (.done (.int last), s) :=
    Prod.ext hnow (c.currentSlot_stage s)
  have hwalks := walks_of_begins seeks_filled_later (firstExecutionBlock_of_currentSlot hcurrent)
    rfl (fun _ => List.not_mem_nil) List.nodup_range
  refine finds_of_walks h hroutes (by decide) hwalks List.pairwise_lt_range
    (fun _ _ => Nat.lt_asymm) (fun slot hslot => ?_) fun slot hslot => ?_
  · rw [List.mem_range]
    omega
  · rw [List.mem_range] at hslot
    rcases Nat.eq_zero_or_pos slot with rfl | hpos
    · exact .inr (h.skips_start hroutes (by decide))
    · exact .inl ⟨hpos, by omega⟩

/-- A search from the head back goes over the slots of the chain. -/
theorem Steady.finds_down (h : c.Steady r last chain)
    (hroutes : s.world.remote.routes = r.routes) (hkinds : .notFound ∈ kinds)
    {work : Job (Option VersionedBlock)} {first : List Route}
    (hwalks : c.Walks work s first (List.range' 1 last).reverse
      (c.Skips kinds Sought s.world.remote)) :
    Finds (work [] s).1 chain last (· > ·) Sought :=
  finds_of_walks h hroutes hkinds hwalks (descending last) (fun _ _ => Nat.lt_asymm)
    (fun _ => mem_descending.mpr) fun _ hslot => .inl (mem_descending.mp hslot)

theorem Steady.finds_latest (h : c.Steady r last chain)
    (hroutes : s.world.remote.routes = r.routes) :
    Finds (c.latestExecutionBlock [] s).1 chain last (· > ·) VersionedBlock.Filled := by
  obtain ⟨head, hhead, rfl⟩ := h.exists_head hroutes
  obtain ⟨t, hbegins, hremote⟩ := latestExecutionBlock_begins hhead
  exact h.finds_down hroutes (by decide) (walks_of_begins seeks_filled hbegins hremote
    slotRoute_not_mem_headRoute (descending head.slot).nodup)

theorem Steady.finds_hash (h : c.Steady r last chain)
    (hroutes : s.world.remote.routes = r.routes) {d : Datum} {hash : Bytes}
    (hhash : d.toBytes = .ok hash) :
    Finds (c.blockByExecutionHash d [] s).1 chain last (· > ·) (VersionedBlock.HasHash hash) := by
  obtain ⟨head, hhead, rfl⟩ := h.exists_head hroutes
  obtain ⟨t, hbegins, hremote⟩ := blockByExecutionHash_begins hhead hhash
  exact h.finds_down hroutes (by decide) (walks_of_begins (seeks_hash hash) hbegins hremote
    slotRoute_not_mem_headRoute (descending head.slot).nodup)

/-- A block of a chain is the highest one of those that are sought, from slot 1 on. -/
def Highest (chain : Nat → Option VersionedBlock) (last : Nat) (Sought : VersionedBlock → Prop)
    (block : VersionedBlock) : Prop :=
  (1 ≤ block.slot ∧ block.slot ≤ last) ∧ chain block.slot = some block ∧ Sought block
    ∧ ∀ slot other, block.slot < slot → slot ≤ last → chain slot = some other → ¬ Sought other

/-- A search from the head back finds the highest block that it seeks. -/
theorem Steady.highest (h : c.Steady r last chain) {o : Outcome (Option VersionedBlock)}
    (hfinds : Finds o chain last (· > ·) Sought) {block : VersionedBlock}
    (hfound : o = .done (some block)) : Highest chain last Sought block := by
  obtain ⟨slot, hslot, hblock, hsought, hhigher⟩ := (hfinds.some_iff block).mp hfound
  obtain ⟨-, rfl⟩ := h.served rfl hslot hblock
  exact ⟨hslot, hblock, hsought, fun k other hk hle => hhigher k other ⟨by omega, hle⟩ hk⟩

/-- It finds some block if there is one that it seeks. -/
theorem Finds.exists_some_iff {o : Outcome (Option VersionedBlock)} {before : Nat → Nat → Prop}
    (h : Finds o chain last before Sought) :
    (∃ block, o = .done (some block)) ↔ ∃ slot block, (1 ≤ slot ∧ slot ≤ last)
      ∧ chain slot = some block ∧ Sought block := by
  constructor
  · rintro ⟨block, hfound⟩
    obtain ⟨slot, hslot, hblock, hsought, -⟩ := (h.some_iff block).mp hfound
    exact ⟨slot, block, hslot, hblock, hsought⟩
  · rintro ⟨slot, block, hslot, hblock, hsought⟩
    rcases h.ends with hnone | hsome
    · exact absurd hsought (h.none_iff.mp hnone slot block hslot hblock)
    · exact hsome

end Steady

/-- Take a node whose chain stays as it is, with the head at the slot at the time of day, and any
three moments for the three searches. The search for the first block with a payload finds none
exactly if the search for the latest one does, which is if there is none. Otherwise every block with
a payload lies between the two that are found, and a search by the hash of the latest one finds that
block again. For every hash, a block is found exactly if one from slot 1 on has a payload of that
hash, and it is the highest such block. -/
theorem searches_agree (c : Client) {r : Remote} {last : Nat}
    {chain : Nat → Option VersionedBlock} (hchain : c.Steady r last chain)
    {s t u : Stage (Link ClientConfig) Line} (hs : s.world.remote.routes = r.routes)
    (ht : t.world.remote.routes = r.routes) (hu : u.world.remote.routes = r.routes)
    (hnow : (c.currentSlot [] s).1 = .done (.int last)) :
    let first := (c.firstExecutionBlock [] s).1
    let latest := (c.latestExecutionBlock [] t).1
    let withHash := fun d => (c.blockByExecutionHash d [] u).1
    (first = .done none ↔ latest = .done none)
    ∧ (latest = .done none
      ↔ ∀ slot block, 1 ≤ slot ∧ slot ≤ last → chain slot = some block → ¬ block.Filled)
    ∧ (latest ≠ .done none → ∃ lower upper, first = .done (some lower)
      ∧ latest = .done (some upper) ∧ lower.slot ≤ upper.slot
      ∧ ((1 ≤ lower.slot ∧ lower.slot ≤ last) ∧ chain lower.slot = some lower ∧ lower.Filled)
      ∧ ((1 ≤ upper.slot ∧ upper.slot ≤ last) ∧ chain upper.slot = some upper ∧ upper.Filled)
      ∧ (∀ slot block, 1 ≤ slot ∧ slot ≤ last → chain slot = some block → block.Filled →
        lower.slot ≤ slot ∧ slot ≤ upper.slot)
      ∧ ∃ hash, upper.payloadHash = some hash ∧ withHash (.bytes hash) = .done (some upper))
    ∧ ∀ d hash, d.toBytes = .ok hash →
      ((∃ block, withHash d = .done (some block)) ↔ ∃ slot block, (1 ≤ slot ∧ slot ≤ last)
        ∧ chain slot = some block ∧ block.HasHash hash)
      ∧ (∀ block, withHash d = .done (some block) →
        Highest chain last (VersionedBlock.HasHash hash) block)
      ∧ (withHash d = .done none ∨ ∃ block, withHash d = .done (some block)) := by
  intro first latest withHash
  have hfirst : Finds first chain last _ _ := hchain.finds_first hs hnow
  have hlatest : Finds latest chain last _ _ := hchain.finds_latest ht
  have hhash : ∀ d hash, d.toBytes = .ok hash → Finds (withHash d) chain last _ _ :=
    fun d hash hread => hchain.finds_hash hu hread
  refine ⟨hfirst.none_iff.trans hlatest.none_iff.symm, hlatest.none_iff, fun hsome => ?_,
    fun d hash hread => ?_⟩
  · obtain ⟨upper, hupper⟩ := hlatest.ends.resolve_left hsome
    obtain ⟨lower, hlower⟩ := hfirst.ends.resolve_left
      fun hnone => hsome (hlatest.none_iff.mpr (hfirst.none_iff.mp hnone))
    obtain ⟨hhigh, hserved, hfilled, hhigher⟩ := hchain.highest hlatest hupper
    obtain ⟨slot, hlow, hblock, hlowFilled, hearlier⟩ := (hfirst.some_iff lower).mp hlower
    obtain ⟨-, rfl⟩ := hchain.served rfl hlow hblock
    have hbetween : ∀ slot block, 1 ≤ slot ∧ slot ≤ last → chain slot = some block →
        block.Filled → lower.slot ≤ slot ∧ slot ≤ upper.slot := by
      intro slot block hslot hblock hfilled
      refine ⟨?_, ?_⟩
      · by_contra hbefore
        exact hearlier slot block hslot (by omega) hblock hfilled
      · by_contra hafter
        exact hhigher slot block (by omega) hslot.2 hblock hfilled
    refine ⟨lower, upper, hlower, hupper, (hbetween _ _ hhigh hserved hfilled).1,
      ⟨hlow, hblock, hlowFilled⟩, ⟨hhigh, hserved, hfilled⟩, hbetween, ?_⟩
    obtain ⟨hash, hpayload, hnonzero⟩ := hfilled
    -- A later block with this hash would have a payload too.
    exact ⟨hash, hpayload, ((hhash (.bytes hash) hash rfl).some_iff upper).mpr ⟨upper.slot, hhigh,
      hserved, hpayload, fun k other hk hbefore hother hsame =>
        hhigher k other hbefore hk.2 hother ⟨hash, hsame, hnonzero⟩⟩⟩
  · have hfinds := hhash d hash hread
    exact ⟨hfinds.exists_some_iff, fun block => hchain.highest hfinds, hfinds.ends⟩

/-- A block of a fork at a slot, with a payload of a hash if its fork has payloads. -/
def chainBlock (fork : Fork) (slot : Nat) (hash : Bytes) : VersionedBlock :=
  let b : VersionedBlock := .initial .minimal fork
  let payload := b.payload.setField "block_hash" (.bytes hash)
  let body := b.body.setField "execution_payload" payload.value
  let message := (b.message.setField "slot" (.uint slot)).setField "body" body.value
  ⟨.minimal, fork, (b.object.setField "message" message.value).value⟩

/-- The hash of another payload. -/
def otherHash : Bytes := List.replicate 32 3

/-- A chain of blocks of two forks that has left out slot 2. -/
def mixedChain : Nat → Option VersionedBlock
  | 1 => some (chainBlock .bellatrix 1 someHash)
  | 3 => some (chainBlock .capella 3 otherHash)
  | _ => none

/-- A node that tells of that chain, and of a block without a payload at slot 0. Slot 3 has just
begun. -/
def mixedNode : Stage (Link ClientConfig) Line where
  world := {
    own := { spec := some {}, genesisTime := some (.int (-36)) }
    remote.routes := [(watcher.headRoute, [headerReply true (headerAfter 3 Signing.zeroRoot)]),
      (watcher.slotRoute 0, [blockReply (chainBlock .phase0 0 [])]),
      (watcher.slotRoute 1, [blockReply (chainBlock .bellatrix 1 someHash)]),
      (watcher.slotRoute 3, [blockReply (chainBlock .capella 3 otherHash)])] }

/-- A node that always answers a request with one block serves that block. -/
theorem tells_of_lookup {r : Remote} {slot : Nat} {block : VersionedBlock}
    (hpreset : block.preset = .minimal)
    (hadmitted : (PayloadKind.block.schema block.preset block.fork).admits block.value = true)
    (hlength : block.encode.length < Bytes.capacity Ssz.Schema.offsetWidth)
    (hslot : block.slot = slot)
    (hlookup : r.routes.lookup (watcher.slotRoute slot) = some [blockReply block]) :
    watcher.Tells r slot (some block) :=
  ⟨hslot, fun _ => Node.Endpoint.exchange_blockReply rfl hpreset hadmitted hlength
    (Remote.replyTo_of_lookup_singleton hlookup)⟩

theorem steady_mixedNode : watcher.Steady mixedNode.world.remote 3 mixedChain where
  head asked := by
    have hlookup : mixedNode.world.remote.routes.lookup watcher.headRoute
        = some [headerReply true (headerAfter 3 Signing.zeroRoot)] := List.lookup_cons_self
    have hreply := Remote.replyTo_of_lookup_singleton
      (r := { mixedNode.world.remote with asked }) hlookup
    obtain ⟨head, hserved, -, -, hheader⟩ :=
      Node.Endpoint.exchange_headerReply (e := watcher.endpoint) rfl (by decide +kernel) hreply
    refine ⟨head, hserved, ?_⟩
    rw [Node.HeaderInfo.slot, hheader]
    rfl
  tells slot hpos hle := by
    rcases (by omega : slot = 1 ∨ slot = 2 ∨ slot = 3) with rfl | rfl | rfl
    · exact tells_of_lookup rfl (by decide +kernel) (by decide +kernel) (by decide +kernel) rfl
    · exact fun asked => ⟨rfl, rfl⟩
    · exact tells_of_lookup rfl (by decide +kernel) (by decide +kernel) (by decide +kernel) rfl
  start asked := by
    have htells : watcher.Tells mixedNode.world.remote 0 (some (chainBlock .phase0 0 [])) :=
      tells_of_lookup rfl (by decide +kernel) (by decide +kernel) (by decide +kernel) rfl
    exact .inr ⟨_, htells.2 asked, VersionedBlock.not_filled_iff.mpr (.inl rfl)⟩

theorem payloadHash_mixedChain :
    (chainBlock .bellatrix 1 someHash).payloadHash = some someHash
    ∧ (chainBlock .capella 3 otherHash).payloadHash = some otherHash := by
  decide +kernel

/-- The chain has two blocks with a payload. -/
theorem cases_mixedChain {slot : Nat} {block : VersionedBlock} {hash : Bytes}
    (hblock : mixedChain slot = some block) (hhash : block.payloadHash = some hash) :
    (block = chainBlock .bellatrix 1 someHash ∧ hash = someHash)
      ∨ (block = chainBlock .capella 3 otherHash ∧ hash = otherHash) := by
  obtain ⟨hbellatrix, hcapella⟩ := payloadHash_mixedChain
  unfold mixedChain at hblock
  split at hblock
  · obtain rfl := Option.some.inj hblock
    exact .inl ⟨rfl, Option.some.inj (hhash.symm.trans hbellatrix)⟩
  · obtain rfl := Option.some.inj hblock
    exact .inr ⟨rfl, Option.some.inj (hhash.symm.trans hcapella)⟩
  · cases hblock

/-- On that node the blocks of slots 1 and 3 are the ends of what is found, and each of them is found
by its hash. No block has the hash of zeros. -/
theorem searches_agree_mixedNode :
    let lower := chainBlock .bellatrix 1 someHash
    let upper := chainBlock .capella 3 otherHash
    (watcher.firstExecutionBlock [] mixedNode).1 = .done (some lower)
    ∧ (watcher.latestExecutionBlock [] mixedNode).1 = .done (some upper)
    ∧ (watcher.blockByExecutionHash (.bytes otherHash) [] mixedNode).1 = .done (some upper)
    ∧ (watcher.blockByExecutionHash (.bytes someHash) [] mixedNode).1 = .done (some lower)
    ∧ (watcher.blockByExecutionHash (.bytes Signing.zeroRoot) [] mixedNode).1 = .done none := by
  intro lower upper
  have htime : watcher.secondsAt mixedNode.now = 0 := by decide +kernel
  have hseconds : ({} : Spec).secondsPerSlot = .int (12 : Nat) := rfl
  obtain ⟨slot, hslot, -, hafter⟩ := Spec.exists_natural_slot hseconds (by decide) (-36)
    (watcher.secondsAt mixedNode.now)
  obtain rfl : slot = 3 := by
    rw [htime] at hafter
    have := hafter (by decide)
    omega
  have hnow : (watcher.currentSlot [] mixedNode).1 = .done (.int (3 : Nat)) := by
    rw [currentSlot_eq rfl rfl hslot]
  obtain ⟨-, hunfilled, hends, hhashed⟩ := searches_agree watcher steady_mixedNode
    (s := mixedNode) (t := mixedNode) (u := mixedNode) rfl rfl rfl hnow
  obtain ⟨hlower, hupper⟩ := payloadHash_mixedChain
  have hdistinct : someHash ≠ otherHash := by decide
  have hfilled : lower.Filled ∧ upper.Filled :=
    ⟨⟨someHash, hlower, by decide +kernel⟩, ⟨otherHash, hupper, by decide +kernel⟩⟩
  have hsome : (watcher.latestExecutionBlock [] mixedNode).1 ≠ .done none :=
    fun hnone => hunfilled.mp hnone 1 lower (by decide) rfl hfilled.1
  obtain ⟨first, latest, hfirst, hlatest, -, ⟨-, hfirst', hfirstFilled⟩, ⟨-, hlatest', -⟩, hbetween,
    hash, hhash, hfound⟩ := hends hsome
  obtain ⟨hone, hthree⟩ : (chainBlock .bellatrix 1 someHash).slot = 1
      ∧ (chainBlock .capella 3 otherHash).slot = 3 := by decide +kernel
  have hlow := (hbetween 1 lower (by decide) rfl hfilled.1).1
  have hhigh := (hbetween 3 upper (by decide) rfl hfilled.2).2
  obtain ⟨low, hlowest, -⟩ := hfirstFilled
  have hfirstEq : first = lower := by
    rcases cases_mixedChain hfirst' hlowest with ⟨heq, -⟩ | ⟨rfl, -⟩
    · exact heq
    · omega
  obtain ⟨hlatestEq, hhashEq⟩ : latest = upper ∧ hash = otherHash := by
    rcases cases_mixedChain hlatest' hhash with ⟨rfl, -⟩ | heq
    · omega
    · exact heq
  rw [hfirstEq] at hfirst
  rw [hlatestEq] at hlatest hfound
  rw [hhashEq] at hfound
  refine ⟨hfirst, hlatest, hfound, ?_, ?_⟩
  · obtain ⟨hexists, hhighest, -⟩ := hhashed (.bytes someHash) someHash rfl
    obtain ⟨block, hblock⟩ := hexists.mpr ⟨1, lower, by decide, rfl, hlower⟩
    obtain ⟨-, hchain, hsame, -⟩ := hhighest block hblock
    rcases cases_mixedChain hchain hsame with ⟨rfl, -⟩ | ⟨-, hother⟩
    · exact hblock
    · exact absurd hother hdistinct
  · obtain ⟨hexists, -, hends⟩ := hhashed (.bytes Signing.zeroRoot) Signing.zeroRoot rfl
    refine hends.resolve_right fun hfound => ?_
    obtain ⟨slot, block, -, hchain, hsame⟩ := hexists.mp hfound
    rcases cases_mixedChain hchain hsame with ⟨-, hzero⟩ | ⟨-, hzero⟩
    · exact absurd hzero (by decide)
    · exact absurd hzero (by decide)

end BeaconHarness.Client
