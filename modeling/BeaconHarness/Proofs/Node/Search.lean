import BeaconHarness.Node.Chain
import BeaconHarness.Proofs.Node.Look
import BeaconHarness.Proofs.Text.Digits

/-!
# Searches by slot

A search asks for the blocks of some slots, one slot after another. A slot is skipped if its block
is not to be had for a reason that the search allows for, or is not one of those sought. The first
slot that is not skipped ends the search, with its block or with the failure of the request for it.

No slot is asked for twice, so that what the request for a block comes to can be told from the
network as it is at the beginning.

Main statements: the slots that a search asks for (`walks_of_begins`), and what it comes to
(`Walks.ends`).
-/

namespace BeaconHarness

/-- A block has a payload that is not the empty one. -/
def VersionedBlock.Filled (b : VersionedBlock) : Prop :=
  ∃ hash, b.payloadHash = some hash ∧ hash ≠ Signing.zeroRoot

/-- A block has a payload of a given hash. -/
def VersionedBlock.HasHash (hash : Bytes) (b : VersionedBlock) : Prop := b.payloadHash = some hash

theorem VersionedBlock.isFilled_iff {b : VersionedBlock} : b.isFilled = true ↔ b.Filled := by
  rw [isFilled, Filled]
  cases b.payloadHash with
  | none => simp
  | some hash => simp

/-- A block is not filled if it comes before there are payloads, or has the empty one. -/
theorem VersionedBlock.not_filled_iff {b : VersionedBlock} :
    ¬ b.Filled ↔ b.fork = .phase0 ∨ b.fork = .altair ∨ b.payloadHash = some Signing.zeroRoot := by
  rw [← or_assoc, ← payloadHash_eq_none_iff, Filled]
  cases b.payloadHash with
  | none => simp
  | some hash => simp

/-- A block from before there are payloads is not filled, and has no hash. -/
theorem VersionedBlock.not_sought_of_early {b : VersionedBlock}
    (h : b.fork = .phase0 ∨ b.fork = .altair) : ¬ b.Filled ∧ ∀ hash, ¬ b.HasHash hash := by
  have hnone := payloadHash_eq_none_iff.mpr h
  refine ⟨?_, fun hash hfound => ?_⟩
  · rintro ⟨hash, hfound, -⟩
    rw [hnone] at hfound
    cases hfound
  · rw [HasHash, hnone] at hfound
    cases hfound

namespace Client

open Node (Link Line Remote Route)
open Node.Endpoint (After blockPath asks_block)
open Work (ended)

variable (c : Client)

/-! ## Requests for the blocks of slots -/

/-- The request for the block of a slot. -/
def slotRoute (slot : Nat) : Route := c.endpoint.route .bytes (blockPath (.int slot))

/-- What the request for the block of a slot comes to. -/
def slotBlockAt (slot : Nat) (r : Remote) : Except Failure VersionedBlock :=
  c.endpoint.exchange .bytes (blockPath (.int slot)) (c.endpoint.blockOf (.int slot)) r

/-- Blocks of different slots are asked for on different routes. -/
theorem slotRoute_injective : Function.Injective c.slotRoute := by
  intro slot other h
  have hrequest : "SSZ" ++ " " ++ ("/eth/v2/beacon/blocks/" ++ toString slot)
      = "SSZ" ++ " " ++ ("/eth/v2/beacon/blocks/" ++ toString other) := congrArg Route.request h
  have hpath := (String.append_right_inj _).mp hrequest
  exact Text.Integer.toString_injective ((String.append_right_inj _).mp hpath)

variable {c} {r : Remote} {s t : Stage (Link ClientConfig) Line}

theorem slotBlockAt_of_not_mem {slot : Nat} {requests : List Route}
    (h : c.slotRoute slot ∉ requests) :
    c.slotBlockAt slot { r with asked := requests ++ r.asked } = c.slotBlockAt slot r :=
  Node.Endpoint.exchange_of_not_mem h

/-! ## One slot -/

section Sift

variable {passOver : List FailureKind} {sought : VersionedBlock → Bool}

/-- What a search makes of the request for a block. -/
def sift (passOver : List FailureKind) (sought : VersionedBlock → Bool) :
    Except Failure VersionedBlock → Except Failure (Option VersionedBlock)
  | .error e => if e.isOneOf passOver then .ok none else .error e
  | .ok block => .ok (if sought block then some block else none)

/-- A slot is looked at with one request for its block. -/
theorem blockIf_eq (passOver : List FailureKind) (sought : VersionedBlock → Bool) (slot : Nat)
    (s : Stage (Link ClientConfig) Line) :
    ∃ t, c.blockIf passOver sought slot [] s
        = (ended (sift passOver sought (c.slotBlockAt slot s.world.remote)), t)
      ∧ t.world.remote = { s.world.remote with asked := c.slotRoute slot :: s.world.remote.asked }
      ∧ t.world.own = s.world.own := by
  obtain ⟨t, hblock, hasked⟩ := asks_block c.endpoint (.int slot) s
  refine ⟨t, ?_, hasked.remote, hasked.own⟩
  have htold : Work.attempt (c.endpoint.block (.int slot)) [] s
      = (.done (c.slotBlockAt slot s.world.remote), t) := attempt_of_ended hblock
  rw [blockIf, Work.andThen_of_done htold]
  cases c.slotBlockAt slot s.world.remote with
  | error e =>
    show (if e.isOneOf passOver then return none else Work.fail e :
      Job (Option VersionedBlock)) [] t
        = (ended (if e.isOneOf passOver then .ok none else .error e), t)
    cases e.isOneOf passOver <;> rfl
  | ok block => rfl

end Sift

/-- Whether a search skips a slot: the request for its block fails in a way that the search allows
for, or its block is not one of those sought. -/
def Skips (c : Client) (kinds : List FailureKind) (Sought : VersionedBlock → Prop) (r : Remote)
    (slot : Nat) : Prop :=
  (∃ e, c.slotBlockAt slot r = .error e ∧ e.kind ∈ kinds)
    ∨ ∃ block, c.slotBlockAt slot r = .ok block ∧ ¬ Sought block

theorem skips_of_not_mem {kinds : List FailureKind} {Sought : VersionedBlock → Prop} {slot : Nat}
    {requests : List Route} (h : c.slotRoute slot ∉ requests) :
    c.Skips kinds Sought { r with asked := requests ++ r.asked } slot
      ↔ c.Skips kinds Sought r slot := by
  rw [Skips, Skips, slotBlockAt_of_not_mem h]

section Skips

variable {kinds : List FailureKind} {Sought : VersionedBlock → Prop} {slot : Nat}

/-- A block of a slot that is skipped is not sought. -/
theorem Skips.not_sought (h : c.Skips kinds Sought r slot) {block : VersionedBlock}
    (hserved : c.slotBlockAt slot r = .ok block) : ¬ Sought block := by
  rcases h with ⟨e, hfailed, -⟩ | ⟨skipped, hskipped, hother⟩
  · rw [hserved] at hfailed
    cases hfailed
  · rw [hserved] at hskipped
    rwa [Except.ok.inj hskipped]

/-- A failure of the request for a slot that is skipped is one that the search allows for. -/
theorem Skips.kind_mem (h : c.Skips kinds Sought r slot) {e : Failure}
    (hfailed : c.slotBlockAt slot r = .error e) : e.kind ∈ kinds := by
  rcases h with ⟨g, hother, hkind⟩ | ⟨block, hserved, -⟩
  · rw [hfailed] at hother
    rwa [Except.error.inj hother]
  · rw [hfailed] at hserved
    cases hserved

end Skips

/-- A way to search is one of these kinds and these blocks. -/
structure Seeks (passOver : List FailureKind) (sought : VersionedBlock → Bool)
    (kinds : List FailureKind) (Sought : VersionedBlock → Prop) : Prop where
  kind : ∀ e : Failure, e.isOneOf passOver = true ↔ e.kind ∈ kinds
  block : ∀ b, sought b = true ↔ Sought b

section Seeks

variable {passOver kinds : List FailureKind} {sought : VersionedBlock → Bool}
  {Sought : VersionedBlock → Prop} {slot : Nat}

theorem Seeks.sift_of_skips (h : Seeks passOver sought kinds Sought)
    (hskips : c.Skips kinds Sought r slot) :
    sift passOver sought (c.slotBlockAt slot r) = .ok none := by
  rcases hskips with ⟨e, hfailed, hkind⟩ | ⟨block, hserved, hother⟩
  · rw [hfailed, sift, if_pos ((h.kind e).mpr hkind)]
  · rw [hserved, sift, if_neg (mt (h.block block).mp hother)]

theorem Seeks.sift_of_not_skips (h : Seeks passOver sought kinds Sought)
    (hskips : ¬ c.Skips kinds Sought r slot) :
    sift passOver sought (c.slotBlockAt slot r) = (c.slotBlockAt slot r).map some := by
  cases hserved : c.slotBlockAt slot r with
  | error e =>
    have hkind : ¬ e.isOneOf passOver = true := fun hkind =>
      hskips (.inl ⟨e, hserved, (h.kind e).mp hkind⟩)
    rw [sift, if_neg hkind]
    rfl
  | ok block =>
    have hsought : sought block = true := by
      by_contra hother
      exact hskips (.inr ⟨block, hserved, mt (h.block block).mpr hother⟩)
    rw [sift, if_pos hsought]
    rfl

end Seeks

/-! ## Slots one after another -/

/-- The first block sought among some slots, in this order. -/
def searchAll (c : Client) (passOver : List FailureKind) (sought : VersionedBlock → Bool) :
    List Nat → Job (Option VersionedBlock)
  | [] => return none
  | slot :: rest => do
    match ← c.blockIf passOver sought slot with
    | some block => return some block
    | none => c.searchAll passOver sought rest

/-- A search downwards goes over the slots from the greatest one to the first. -/
theorem searchDown_eq (c : Client) (passOver : List FailureKind) (sought : VersionedBlock → Bool)
    (slot : Nat) :
    c.searchDown passOver sought slot
      = c.searchAll passOver sought (List.range' 1 slot).reverse := by
  induction slot with
  | zero => rfl
  | succ slot ih =>
    have hslots : (List.range' 1 (slot + 1)).reverse
        = (slot + 1) :: (List.range' 1 slot).reverse := by
      rw [List.range'_concat, List.reverse_append, Nat.one_mul, Nat.add_comm 1 slot]
      rfl
    rw [hslots, searchAll, ← ih]
    rfl

/-- A search upwards goes over the slots as they follow one another. -/
theorem searchUp_eq (c : Client) (passOver : List FailureKind) (sought : VersionedBlock → Bool)
    (count slot : Nat) :
    c.searchUp passOver sought count slot
      = c.searchAll passOver sought (List.range' slot count) := by
  induction count generalizing slot with
  | zero => rfl
  | succ count ih =>
    rw [List.range'_succ, searchAll, ← ih]
    rfl

section Search

variable {passOver kinds : List FailureKind} {sought : VersionedBlock → Bool}
  {Sought : VersionedBlock → Prop}

/-- A slot that is skipped leads on to the other ones. -/
theorem searchAll_of_skips (h : Seeks passOver sought kinds Sought) {slot : Nat} (rest : List Nat)
    (hskips : c.Skips kinds Sought s.world.remote slot) :
    ∃ t, c.searchAll passOver sought (slot :: rest) [] s = c.searchAll passOver sought rest [] t
      ∧ t.world.remote
        = { s.world.remote with asked := c.slotRoute slot :: s.world.remote.asked } := by
  obtain ⟨t, hlook, hremote, -⟩ := blockIf_eq passOver sought slot s
  rw [h.sift_of_skips hskips] at hlook
  refine ⟨t, ?_, hremote⟩
  rw [searchAll, Work.andThen_of_done hlook]

/-- A slot that is not skipped ends the search. -/
theorem searchAll_of_not_skips (h : Seeks passOver sought kinds Sought) {slot : Nat}
    (rest : List Nat) (hskips : ¬ c.Skips kinds Sought s.world.remote slot) :
    ∃ t, c.searchAll passOver sought (slot :: rest) [] s
        = (ended ((c.slotBlockAt slot s.world.remote).map some), t)
      ∧ t.world.remote
        = { s.world.remote with asked := c.slotRoute slot :: s.world.remote.asked } := by
  obtain ⟨t, hlook, hremote, -⟩ := blockIf_eq passOver sought slot s
  rw [h.sift_of_not_skips hskips] at hlook
  refine ⟨t, ?_, hremote⟩
  rw [searchAll]
  cases hserved : c.slotBlockAt slot s.world.remote with
  | error e =>
    rw [hserved] at hlook
    exact Work.andThen_of_failed hlook
  | ok block =>
    rw [hserved] at hlook
    exact Work.andThen_of_done hlook

/-- Slots that are skipped lead on to the other ones. Skipping is told from the network as it is at
the beginning, as no slot is among them twice. -/
theorem searchAll_append (h : Seeks passOver sought kinds Sought) {skipped : List Nat}
    (rest : List Nat) (honce : skipped.Nodup)
    (hskips : ∀ slot ∈ skipped, c.Skips kinds Sought s.world.remote slot) :
    ∃ t, c.searchAll passOver sought (skipped ++ rest) [] s = c.searchAll passOver sought rest [] t
      ∧ t.world.remote = { s.world.remote with
        asked := (skipped.map c.slotRoute).reverse ++ s.world.remote.asked } := by
  induction skipped generalizing s with
  | nil => exact ⟨s, rfl, rfl⟩
  | cons slot skipped ih =>
    obtain ⟨hnew, honce⟩ := List.nodup_cons.mp honce
    obtain ⟨u, hstep, hremote⟩ := searchAll_of_skips h (skipped ++ rest)
      (hskips slot List.mem_cons_self)
    -- The request for this slot has used up no reply for another one.
    have hlater : ∀ k ∈ skipped, c.Skips kinds Sought u.world.remote k := by
      intro k hk
      have hother : c.slotRoute k ∉ [c.slotRoute slot] := by
        rw [List.mem_singleton]
        intro hsame
        rw [c.slotRoute_injective hsame] at hk
        exact hnew hk
      rw [hremote]
      exact (skips_of_not_mem hother).mpr (hskips k (List.mem_cons_of_mem slot hk))
    obtain ⟨t, hrun, hlast⟩ := ih honce hlater
    refine ⟨t, hstep.trans hrun, ?_⟩
    rw [hlast, hremote, List.map_cons, List.reverse_cons, List.append_assoc]
    rfl

end Search

/-! ## Walks -/

/-- Work that asks for the blocks of some slots in order, after some other requests, until it finds
a slot that it does not pass over. That slot tells how it ends. -/
structure Walks (c : Client) (work : Job (Option VersionedBlock))
    (s : Stage (Link ClientConfig) Line) (first : List Route) (slots : List Nat)
    (Passes : Nat → Prop) : Prop where
  /-- No slot is asked for twice. -/
  once : (slots.map c.slotRoute).Nodup
  /-- Nothing is found if every slot is passed over, and all of them have been asked for then. -/
  exhausts : (∀ slot ∈ slots, Passes slot) → ∃ t, work [] s = (.done none, t)
    ∧ t.world.remote = { s.world.remote with
      asked := (slots.map c.slotRoute).reverse ++ first ++ s.world.remote.asked }
  /-- The first slot that is not passed over is the last one that is asked for. -/
  stops : ∀ passed slot rest, slots = passed ++ slot :: rest → (∀ k ∈ passed, Passes k) →
    ¬ Passes slot → ∃ t, work [] s = (ended ((c.slotBlockAt slot s.world.remote).map some), t)
      ∧ t.world.remote = { s.world.remote with
        asked := ((passed ++ [slot]).map c.slotRoute).reverse ++ first ++ s.world.remote.asked }

/-- Work that begins with requests on other routes and goes on as a search is a walk. -/
theorem walks_of_begins {work : Job (Option VersionedBlock)} {first : List Route}
    {passOver kinds : List FailureKind} {sought : VersionedBlock → Bool}
    {Sought : VersionedBlock → Prop} {slots : List Nat}
    (h : Seeks passOver sought kinds Sought)
    (hwork : work [] s = c.searchAll passOver sought slots [] t)
    (hremote : t.world.remote = { s.world.remote with asked := first ++ s.world.remote.asked })
    (hfirst : ∀ slot, c.slotRoute slot ∉ first) (honce : slots.Nodup) :
    c.Walks work s first slots (c.Skips kinds Sought s.world.remote) where
  once := honce.map c.slotRoute_injective
  exhausts hskips := by
    have hlater : ∀ slot ∈ slots, c.Skips kinds Sought t.world.remote slot := by
      intro slot hslot
      rw [hremote]
      exact (skips_of_not_mem (hfirst slot)).mpr (hskips slot hslot)
    obtain ⟨u, hrun, hlast⟩ := searchAll_append h [] honce hlater
    rw [List.append_nil] at hrun
    refine ⟨u, hwork.trans hrun, ?_⟩
    rw [hlast, hremote, List.append_assoc]
  stops passed slot rest hslots hskips hstops := by
    subst hslots
    obtain ⟨hpassed, hrest, hdisjoint⟩ := List.nodup_append.mp honce
    have hlater : ∀ k ∈ passed, c.Skips kinds Sought t.world.remote k := by
      intro k hk
      rw [hremote]
      exact (skips_of_not_mem (hfirst k)).mpr (hskips k hk)
    obtain ⟨u, hrun, hmiddle⟩ := searchAll_append h (slot :: rest) hpassed hlater
    -- The requests so far are none for this slot.
    have hnew : c.slotRoute slot ∉ (passed.map c.slotRoute).reverse ++ first := by
      rw [List.mem_append, List.mem_reverse, List.mem_map]
      rintro (⟨k, hk, hsame⟩ | hmem)
      · exact hdisjoint k hk slot List.mem_cons_self (c.slotRoute_injective hsame)
      · exact hfirst slot hmem
    have hsofar : u.world.remote = { s.world.remote with
        asked := ((passed.map c.slotRoute).reverse ++ first) ++ s.world.remote.asked } := by
      rw [hmiddle, hremote, List.append_assoc]
    have hserved : c.slotBlockAt slot u.world.remote = c.slotBlockAt slot s.world.remote := by
      rw [hsofar]
      exact slotBlockAt_of_not_mem hnew
    have hstill : ¬ c.Skips kinds Sought u.world.remote slot := by
      rw [hsofar]
      exact mt (skips_of_not_mem hnew).mp hstops
    obtain ⟨v, hend, hlast⟩ := searchAll_of_not_skips h rest hstill
    rw [hserved] at hend
    refine ⟨v, hwork.trans (hrun.trans hend), ?_⟩
    rw [hlast, hsofar, List.map_append, List.reverse_append]
    rfl

/-! ## What a walk comes to -/

/-- How a search ends that goes over some slots, those before others first. -/
structure Ends (c : Client) (o : Outcome (Option VersionedBlock)) (r : Remote)
    (Among : Nat → Prop) (before : Nat → Nat → Prop) (Passes : Nat → Prop) : Prop where
  /-- Nothing is found exactly if every slot is passed over. -/
  none_iff : o = .done none ↔ ∀ slot, Among slot → Passes slot
  /-- A block is found exactly if it is that of the first slot that is not passed over. -/
  some_iff : ∀ block, o = .done (some block) ↔ ∃ slot, Among slot ∧ ¬ Passes slot
    ∧ c.slotBlockAt slot r = .ok block ∧ ∀ k, Among k → before k slot → Passes k
  /-- The search fails exactly as the request for the block of that slot does. -/
  failed_iff : ∀ e, o = .failed e ↔ ∃ slot, Among slot ∧ ¬ Passes slot
    ∧ c.slotBlockAt slot r = .error e ∧ ∀ k, Among k → before k slot → Passes k

/-- Of some slots all are passed over, or there is a first one that is not. -/
theorem passed_or_first (slots : List Nat) (Passes : Nat → Prop) :
    (∀ slot ∈ slots, Passes slot) ∨ ∃ passed slot rest, slots = passed ++ slot :: rest
      ∧ (∀ k ∈ passed, Passes k) ∧ ¬ Passes slot := by
  induction slots with
  | nil => exact .inl fun slot h => absurd h List.not_mem_nil
  | cons slot slots ih =>
    by_cases hslot : Passes slot
    · rcases ih with hall | ⟨passed, stop, rest, rfl, hpassed, hstop⟩
      · exact .inl (List.forall_mem_cons.mpr ⟨hslot, hall⟩)
      · exact .inr ⟨slot :: passed, stop, rest, rfl, List.forall_mem_cons.mpr ⟨hslot, hpassed⟩,
          hstop⟩
    · exact .inr ⟨[], slot, slots, rfl, fun k h => absurd h List.not_mem_nil, hslot⟩

section Ends

variable {work : Job (Option VersionedBlock)} {first : List Route} {slots : List Nat}
  {Among Passes : Nat → Prop} {before : Nat → Nat → Prop}

/-- Where slots are in order, the first one that is not passed over is the only one with none before
it. -/
theorem first_iff (hsorted : slots.Pairwise before) (hasymm : ∀ j k, before j k → ¬ before k j)
    {passed rest : List Nat} {slot : Nat} (hslots : slots = passed ++ slot :: rest)
    (hpassed : ∀ k ∈ passed, Passes k) (hstop : ¬ Passes slot) (other : Nat) :
    (other ∈ slots ∧ ¬ Passes other ∧ ∀ k ∈ slots, before k other → Passes k) ↔ other = slot := by
  subst hslots
  obtain ⟨-, hrest, hacross⟩ := List.pairwise_append.mp hsorted
  have hafter : ∀ k ∈ rest, before slot k := (List.pairwise_cons.mp hrest).1
  constructor
  · rintro ⟨hmem, hother, hearlier⟩
    rcases List.mem_append.mp hmem with hk | hk
    · exact absurd (hpassed other hk) hother
    · rcases List.mem_cons.mp hk with rfl | hk
      · rfl
      · -- The slot itself comes before those after it, and is not passed over.
        have hslot : slot ∈ passed ++ slot :: rest :=
          List.mem_append.mpr (.inr List.mem_cons_self)
        exact absurd (hearlier slot hslot (hafter other hk)) hstop
  · rintro rfl
    refine ⟨List.mem_append.mpr (.inr List.mem_cons_self), hstop, fun k hk hbefore => ?_⟩
    rcases List.mem_append.mp hk with hk | hk
    · exact hpassed k hk
    · rcases List.mem_cons.mp hk with rfl | hk
      · exact absurd hbefore (hasymm _ _ hbefore)
      · exact absurd hbefore (hasymm _ _ (hafter k hk))

/-- So what holds of some slot that is the first one not to be passed over holds of that slot. -/
theorem exists_first_iff (hsorted : slots.Pairwise before)
    (hasymm : ∀ j k, before j k → ¬ before k j) {passed rest : List Nat} {slot : Nat}
    (hslots : slots = passed ++ slot :: rest) (hpassed : ∀ k ∈ passed, Passes k)
    (hstop : ¬ Passes slot) (Holds : Nat → Prop) :
    (∃ other ∈ slots, ¬ Passes other ∧ Holds other ∧ ∀ k ∈ slots, before k other → Passes k)
      ↔ Holds slot := by
  have honly := first_iff hsorted hasymm hslots hpassed hstop
  constructor
  · rintro ⟨other, hmem, hother, hholds, hearlier⟩
    obtain rfl := (honly other).mp ⟨hmem, hother, hearlier⟩
    exact hholds
  · intro hholds
    obtain ⟨hmem, hstops, hearlier⟩ := (honly slot).mpr rfl
    exact ⟨slot, hmem, hstops, hholds, hearlier⟩

/-- A request that ends a search never ends it with nothing. -/
theorem ended_map_some_ne {α : Type} (x : Except Failure α) : ended (x.map some) ≠ .done none := by
  cases x <;> simp [Except.map, ended]

theorem ended_map_some_eq_done_iff {α : Type} {x : Except Failure α} {a : α} :
    ended (x.map some) = .done (some a) ↔ x = .ok a := by
  cases x <;> simp [Except.map, ended]

theorem ended_map_some_eq_failed_iff {α : Type} {x : Except Failure α} {e : Failure} :
    ended (x.map some) = .failed e ↔ x = .error e := by
  cases x <;> simp [Except.map, ended]

/-- A walk over slots in order ends with the first one that is not passed over, or finds nothing. -/
theorem Walks.ends (h : c.Walks work s first slots Passes) (hsorted : slots.Pairwise before)
    (hasymm : ∀ j k, before j k → ¬ before k j) (hamong : ∀ slot, slot ∈ slots ↔ Among slot) :
    c.Ends (work [] s).1 s.world.remote Among before Passes := by
  obtain rfl : (fun slot => slot ∈ slots) = Among := funext fun slot => propext (hamong slot)
  rcases passed_or_first slots Passes with hall | ⟨passed, slot, rest, hslots, hpassed, hstop⟩
  · obtain ⟨t, hrun, -⟩ := h.exhausts hall
    rw [hrun]
    refine ⟨⟨fun _ => hall, fun _ => rfl⟩, fun block => iff_of_false (by simp) ?_,
      fun e => iff_of_false (by simp) ?_⟩
    · rintro ⟨slot, hmem, hother, -⟩
      exact hother (hall slot hmem)
    · rintro ⟨slot, hmem, hother, -⟩
      exact hother (hall slot hmem)
  · obtain ⟨t, hrun, -⟩ := h.stops passed slot rest hslots hpassed hstop
    have hfirst := exists_first_iff hsorted hasymm hslots hpassed hstop
    have hmem : slot ∈ slots := by
      rw [hslots]
      exact List.mem_append.mpr (.inr List.mem_cons_self)
    rw [hrun]
    refine ⟨iff_of_false (ended_map_some_ne _) fun hall => hstop (hall slot hmem), fun block => ?_,
      fun e => ?_⟩
    · exact ended_map_some_eq_done_iff.trans
        (hfirst fun k => c.slotBlockAt k s.world.remote = .ok block).symm
    · exact ended_map_some_eq_failed_iff.trans
        (hfirst fun k => c.slotBlockAt k s.world.remote = .error e).symm

end Ends

end Client

end BeaconHarness
