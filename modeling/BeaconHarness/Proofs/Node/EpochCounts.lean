import BeaconHarness.Proofs.Node.Ancestry
import BeaconHarness.Proofs.Node.Sequence
import BeaconHarness.Proofs.Network.Schedule

/-!
# Blocks per epoch

A client counts the headers from the head back to the one without a parent by the epochs of their
slots. It asks for each of them once, and has enough rounds for all of them. Epochs without a header
are not counted.

Main statement: `blocksPerEpoch_counts`.
-/

namespace BeaconHarness.Client

open Node (Link Line Remote Route HeaderInfo ComesTo)
open Node.Endpoint (asks_header)

/-! ## Counts of numbers -/

section Tally

/-- Counts one more under a number, as `countMore` does under a datum. -/
def tallyMore (epoch : Nat) : List (Nat × Nat) → List (Nat × Nat)
  | [] => [(epoch, 1)]
  | (e, n) :: rest => if e = epoch then (e, n + 1) :: rest else (e, n) :: tallyMore epoch rest

/-- A count as it is shown, under a datum. -/
def shownCount (e : Nat × Nat) : Datum × Nat := (.int e.1, e.2)

variable {epoch k : Nat} {tally : List (Nat × Nat)}

theorem countMore_map (epoch : Nat) (tally : List (Nat × Nat)) :
    countMore (.int epoch) (tally.map shownCount) = (tallyMore epoch tally).map shownCount := by
  induction tally with
  | nil => rfl
  | cons count rest ih =>
    have hsame : (Datum.int count.1).same (.int epoch) = decide (count.1 = epoch) := by
      rw [Datum.same_int, decide_eq_decide]
      exact Int.natCast_inj
    rw [List.map_cons, shownCount, countMore, tallyMore, hsame, ih]
    by_cases h : count.1 = epoch <;> simp [h, shownCount]

theorem mem_keys_tallyMore :
    k ∈ (tallyMore epoch tally).map Prod.fst ↔ k = epoch ∨ k ∈ tally.map Prod.fst := by
  induction tally with
  | nil => simp [tallyMore]
  | cons count rest ih =>
    rw [tallyMore]
    by_cases h : count.1 = epoch
    · simp [h]
    · rw [if_neg h, List.map_cons, List.mem_cons, ih, List.map_cons, List.mem_cons]
      exact or_left_comm

theorem nodup_keys_tallyMore (h : (tally.map Prod.fst).Nodup) :
    ((tallyMore epoch tally).map Prod.fst).Nodup := by
  induction tally with
  | nil => exact List.nodup_singleton _
  | cons count rest ih =>
    obtain ⟨hnew, hrest⟩ := List.nodup_cons.mp h
    rw [tallyMore]
    by_cases hsame : count.1 = epoch
    · rw [if_pos hsame]
      exact h
    · rw [if_neg hsame, List.map_cons]
      refine List.nodup_cons.mpr ⟨fun hmem => ?_, ih hrest⟩
      rcases mem_keys_tallyMore.mp hmem with heq | hmem
      · exact hsame heq
      · exact hnew hmem

theorem lookup_cons_ite (k : Nat) (count : Nat × Nat) (rest : List (Nat × Nat)) :
    List.lookup k (count :: rest) = if k = count.1 then some count.2 else rest.lookup k := by
  rw [List.lookup_cons]
  cases h : k == count.1 with
  | true => rw [if_pos (eq_of_beq h)]
  | false => rw [if_neg (ne_of_beq_false h)]

theorem lookup_tallyMore (epoch k : Nat) (tally : List (Nat × Nat)) :
    (tallyMore epoch tally).lookup k
      = if k = epoch then some ((tally.lookup epoch).getD 0 + 1) else tally.lookup k := by
  induction tally with
  | nil => exact lookup_cons_ite k _ []
  | cons count rest ih =>
    rw [tallyMore]
    by_cases hsame : count.1 = epoch
    · subst hsame
      rw [if_pos rfl, lookup_cons_ite, lookup_cons_ite, lookup_cons_ite, if_pos rfl]
      by_cases hk : k = count.1
      · rw [if_pos hk, if_pos hk]
        rfl
      · rw [if_neg hk, if_neg hk, if_neg hk]
    · rw [if_neg hsame, lookup_cons_ite, ih, lookup_cons_ite, lookup_cons_ite,
        if_neg (Ne.symm hsame)]
      by_cases hk : k = count.1
      · rw [if_pos hk, if_pos hk, if_neg (hk ▸ hsame)]
      · rw [if_neg hk, if_neg hk]

theorem sum_tallyMore (epoch : Nat) (tally : List (Nat × Nat)) :
    ((tallyMore epoch tally).map Prod.snd).sum = (tally.map Prod.snd).sum + 1 := by
  induction tally with
  | nil => rfl
  | cons count rest ih =>
    rw [tallyMore]
    split
    · simp only [List.map_cons, List.sum_cons]
      omega
    · rw [List.map_cons, List.map_cons, List.sum_cons, List.sum_cons, ih]
      omega

end Tally

/-! ## Counts of headers -/

/-- How many of some headers are in an epoch of so many slots. -/
def headersIn (slots epoch : Nat) (headers : List HeaderInfo) : Nat :=
  headers.countP fun header => header.slot / slots = epoch

/-- Counts of headers by epoch. An epoch is counted once if there is a header in it, and otherwise
not at all. -/
structure Histogram (slots : Nat) (headers : List HeaderInfo) (tally : List (Nat × Nat)) : Prop where
  once : (tally.map Prod.fst).Nodup
  counts : ∀ epoch, tally.lookup epoch
    = if headersIn slots epoch headers = 0 then none else some (headersIn slots epoch headers)
  total : (tally.map Prod.snd).sum = headers.length

theorem histogram_nil (slots : Nat) : Histogram slots [] [] where
  once := List.nodup_nil
  counts _ := rfl
  total := rfl

theorem Histogram.more {slots : Nat} {headers : List HeaderInfo} {tally : List (Nat × Nat)}
    (h : Histogram slots headers tally) (header : HeaderInfo) :
    Histogram slots (headers ++ [header]) (tallyMore (header.slot / slots) tally) where
  once := nodup_keys_tallyMore h.once
  counts epoch := by
    have hmore : headersIn slots epoch (headers ++ [header])
        = headersIn slots epoch headers + if header.slot / slots = epoch then 1 else 0 := by
      simp [headersIn, List.countP_append, List.countP_cons]
    rw [lookup_tallyMore, hmore, h.counts, h.counts]
    by_cases hsame : header.slot / slots = epoch
    · rw [if_pos hsame.symm, if_pos hsame, hsame, if_neg (Nat.succ_ne_zero _)]
      by_cases hnone : headersIn slots epoch headers = 0 <;> simp [hnone]
    · rw [if_neg (Ne.symm hsame), if_neg hsame, Nat.add_zero]
  total := by
    rw [sum_tallyMore, h.total, List.length_append, List.length_singleton]

/-- Counts one more under the epoch of a header. -/
def countHeader (slots : Nat) (counts : List (Datum × Nat)) (header : HeaderInfo) :
    List (Datum × Nat) := countMore (.int (header.slot / slots : Nat)) counts

/-- Headers that are counted one after the other are counted by epoch. -/
theorem Histogram.foldl {slots : Nat} {seen : List HeaderInfo} {tally : List (Nat × Nat)}
    (h : Histogram slots seen tally) (headers : List HeaderInfo) :
    ∃ all, headers.foldl (countHeader slots) (tally.map shownCount) = all.map shownCount
      ∧ Histogram slots (seen ++ headers) all := by
  induction headers generalizing seen tally with
  | nil => exact ⟨tally, rfl, by rwa [List.append_nil]⟩
  | cons header headers ih =>
    obtain ⟨all, hcounts, hall⟩ := ih (h.more header)
    refine ⟨all, ?_, ?_⟩
    · rw [List.foldl_cons, countHeader, countMore_map, hcounts]
    · rwa [List.append_assoc] at hall

/-! ## Counting ancestors -/

variable {c : Client} {r : Remote} {id : Datum} {headers : List HeaderInfo}
  {failure : Option Failure} {spec : Spec} {slots : Nat}

/-- The request for the header of the parent. -/
def parentRoute (c : Client) (header : HeaderInfo) : Route :=
  c.headerRoute (.bytes header.parentRoot)

/-- The headers that have a parent. -/
def withParent (headers : List HeaderInfo) : List HeaderInfo :=
  headers.filter fun header => header.parentRoot ≠ Signing.zeroRoot

/-- What counting comes to. -/
def counted (slots : Nat) (headers : List HeaderInfo) (counts : List (Datum × Nat)) :
    Option Failure → Except Failure (List (Datum × Nat))
  | none => .ok (headers.foldl (countHeader slots) counts)
  | some e => .error e

theorem slotToEpoch_of_natural (hslots : spec.slotsPerEpoch = .int slots) (hpos : 1 ≤ slots)
    (slot : Nat) : spec.slotToEpoch slot = .ok (.int (slot / slots : Nat)) := by
  have hnonzero : (slots : Int) ≠ 0 := by omega
  rw [Spec.slotToEpoch, hslots, Datum.floorDivide_int, if_neg hnonzero, Int.ofNat_fdiv]

/-- One header is counted. -/
theorem countAncestors_succ {epoch : Datum} {header : HeaderInfo}
    (hepoch : spec.slotToEpoch header.slot = .ok epoch) {rounds : Nat}
    {counts : List (Datum × Nat)} (s : Stage (Link ClientConfig) Line) :
    c.countAncestors spec (rounds + 1) counts header [] s
      = (if header.parentRoot = Signing.zeroRoot then return countMore epoch counts
        else c.endpoint.header (.bytes header.parentRoot)
          >>= c.countAncestors spec rounds (countMore epoch counts) :
            Job (List (Datum × Nat))) [] s := by
  have hread : (Work.ofExcept (spec.slotToEpoch header.slot) : Job Datum) [] s
      = (.done epoch, s) := by
    rw [hepoch]
    rfl
  exact Work.andThen_of_done hread

/-- An ancestry is counted with one request for each header and one for that of each parent. -/
theorem comesTo_countAncestors (hslots : spec.slotsPerEpoch = .int slots) (hpos : 1 ≤ slots)
    (h : c.Ancestry r id headers failure) {s : Stage (Link ClientConfig) Line}
    (hremote : s.world.remote = r) {rounds : Nat} (hrounds : headers.length ≤ rounds)
    (counts : List (Datum × Nat)) :
    ComesTo (c.endpoint.header id >>= c.countAncestors spec rounds counts) s
      (counted slots headers counts failure)
      (c.headerRoute id :: (withParent headers).map c.parentRoute).reverse := by
  induction h generalizing s rounds counts with
  | @first r id header hserved hroot =>
    obtain ⟨rounds, rfl⟩ : ∃ k, rounds = k + 1 := Nat.exists_eq_add_one.mpr hrounds
    have hepoch := slotToEpoch_of_natural hslots hpos header.slot
    have hnone : withParent [header] = [] := by simp [withParent, hroot]
    have hasked : ComesTo (c.endpoint.header id) s (.ok header) [c.headerRoute id] :=
      hserved ▸ (asks_header c.endpoint id).comesTo hremote
    rw [hnone]
    refine hasked.bind_ended fun t => ?_
    rw [countAncestors_succ hepoch, if_pos hroot]
    rfl
  | @fails r id e hfailed =>
    have hasked : ComesTo (c.endpoint.header id) s (.error e) [c.headerRoute id] :=
      hfailed ▸ (asks_header c.endpoint id).comesTo hremote
    exact hasked.bind_of_error
  | @child r id header ancestors failure hserved hparent hnext ih =>
    obtain ⟨rounds, rfl⟩ : ∃ k, rounds = k + 1 :=
      Nat.exists_eq_add_one.mpr (Nat.lt_of_lt_of_le (Nat.succ_pos _) hrounds)
    have hepoch := slotToEpoch_of_natural hslots hpos header.slot
    have hsome : withParent (header :: ancestors) = header :: withParent ancestors := by
      simp [withParent, hparent]
    have hasked : ComesTo (c.endpoint.header id) s (.ok header) [c.headerRoute id] :=
      hserved ▸ (asks_header c.endpoint id).comesTo hremote
    have hcounts : counted slots (header :: ancestors) counts failure
        = counted slots ancestors (countHeader slots counts header) failure := by
      cases failure <;> rfl
    rw [hsome, hcounts, List.reverse_cons]
    refine hasked.bind fun t ht => ?_
    obtain ⟨u, hrun, hafter⟩ := ih (s := t) (ht.trans (by rw [hremote]; rfl))
      (Nat.le_of_succ_le_succ hrounds) (countHeader slots counts header)
    refine ⟨u, ?_, hafter⟩
    rw [countAncestors_succ hepoch, if_neg hparent]
    exact hrun

/-- All headers but the last have a parent, and that one has too if its parent's is not served. -/
theorem Ancestry.withParent_eq (h : c.Ancestry r id headers failure) :
    withParent headers = match failure with
      | none => headers.dropLast
      | some _ => headers := by
  induction h with
  | first hserved hroot => simp [withParent, hroot]
  | fails hfailed => rfl
  | @child r id header ancestors failure hserved hparent hnext ih =>
    have hsome : withParent (header :: ancestors) = header :: withParent ancestors := by
      simp [withParent, hparent]
    rw [hsome, ih]
    cases failure with
    | some e => rfl
    | none =>
      have hne : ancestors ≠ [] := hnext.ne_nil
      exact (List.dropLast_cons_of_ne_nil hne).symm

/-- Counting goes over the ancestry of the head. -/
theorem comesTo_blocksPerEpoch {s : Stage (Link ClientConfig) Line}
    (hspec : s.world.own.spec = some spec) (hslots : spec.slotsPerEpoch = .int slots)
    (hpos : 1 ≤ slots) (h : c.Ancestry s.world.remote (.str "head") headers failure) :
    ComesTo c.blocksPerEpoch s (counted slots headers [] failure)
      (c.headRoute :: (withParent headers).map c.parentRoute).reverse := by
  obtain ⟨t, hcounted, hremote⟩ :=
    comesTo_countAncestors hslots hpos h (s := s) rfl h.length_le_longestChain []
  refine ⟨t, ?_, hremote⟩
  rw [blocksPerEpoch, Work.andThen_of_done (spec_of_some hspec)]
  exact hcounted

/-- Take a node that serves a header for its head, and for each header that has a parent the header
of that parent. If the headers end with one that has no parent, counting asks for each of them once
and gives how many of them are in each epoch. If one of the requests fails, that failure is what
counting comes to. -/
theorem blocksPerEpoch_counts (c : Client) (s : Stage (Link ClientConfig) Line) {spec : Spec}
    {slots : Nat} (hspec : s.world.own.spec = some spec)
    (hslots : spec.slotsPerEpoch = .int slots) (hpos : 1 ≤ slots) (headers : List HeaderInfo) :
    (c.Ancestry s.world.remote (.str "head") headers none →
      let requests := c.headRoute :: headers.dropLast.map c.parentRoute
      ∃ tally t, c.blocksPerEpoch [] s = (.done (tally.map shownCount), t)
        ∧ Histogram slots headers tally
        ∧ requests.length = headers.length
        ∧ t.world.remote.asked = requests.reverse ++ s.world.remote.asked)
    ∧ ∀ e, c.Ancestry s.world.remote (.str "head") headers (some e) →
      let requests := c.headRoute :: headers.map c.parentRoute
      ∃ t, c.blocksPerEpoch [] s = (.failed e, t)
        ∧ t.world.remote.asked = requests.reverse ++ s.world.remote.asked := by
  constructor
  · intro h requests
    obtain ⟨t, hcounted, hremote⟩ := comesTo_blocksPerEpoch hspec hslots hpos h
    obtain ⟨tally, htally, hhistogram⟩ := (histogram_nil slots).foldl headers
    rw [h.withParent_eq] at hremote
    refine ⟨tally, t, ?_, hhistogram, ?_, congrArg Remote.asked hremote⟩
    · rw [hcounted, ← htally]
      rfl
    · have hlength : 0 < headers.length := List.length_pos_iff.mpr h.ne_nil
      rw [List.length_cons, List.length_map, List.length_dropLast]
      omega
  · intro e h requests
    obtain ⟨t, hcounted, hremote⟩ := comesTo_blocksPerEpoch hspec hslots hpos h
    rw [h.withParent_eq] at hremote
    exact ⟨t, hcounted, congrArg Remote.asked hremote⟩

/-- The root of another parent. -/
def otherRoot : Bytes := List.replicate 32 2

/-- The head of a node at slot 9, and its parent at slot 2. -/
def twoHeaders : List (Route × List Node.Reply) :=
  [(watcher.headRoute, [headerReply true (headerAfter 9 someHash)]),
    (watcher.headerRoute (.bytes someHash), [headerReply true (headerAfter 2 otherRoot)])]

/-- Their ancestor at slot 1, which has no parent. -/
def firstHeader : List (Route × List Node.Reply) :=
  [(watcher.headerRoute (.bytes otherRoot), [headerReply true (headerAfter 1 Signing.zeroRoot)])]

/-- A node with these headers, on a network whose epochs have eight slots. -/
def headersNode (routes : List (Route × List Node.Reply)) : Stage (Link ClientConfig) Line where
  world := { own := { spec := some { slotsPerEpoch := .int (8 : Nat) } }, remote.routes := routes }

theorem exists_headerAt (r : Remote) (id : Datum) (header : Consensus.SignedHeader)
    (hadmitted : Consensus.signedBeaconBlockHeader.admits header.toValue = true)
    (hlookup : r.routes.lookup (watcher.headerRoute id) = some [headerReply true header]) :
    ∃ head, watcher.headerAt id r = .ok head ∧ head.header = header := by
  obtain ⟨head, hserved, -, -, hheader⟩ := Node.Endpoint.exchange_headerReply
    (e := watcher.endpoint) rfl hadmitted (Remote.replyTo_of_lookup_singleton hlookup)
  exact ⟨head, hserved, hheader⟩

/-- A node with these headers when it has been asked for the first two. -/
def thirdAsk (rest : List (Route × List Node.Reply)) : Remote :=
  (((headersNode (twoHeaders ++ rest)).world.remote.next (watcher.headerRoute (.str "head"))).2.next
    (watcher.headerRoute (.bytes someHash))).2

theorem ancestry_twoHeaders {rest : List (Route × List Node.Reply)} {ancestors : List HeaderInfo}
    {failure : Option Failure}
    (hrest : watcher.Ancestry (thirdAsk rest) (.bytes otherRoot) ancestors failure) :
    ∃ head parent, head.slot = 9 ∧ parent.slot = 2
      ∧ watcher.Ancestry (headersNode (twoHeaders ++ rest)).world.remote (.str "head")
        (head :: parent :: ancestors) failure := by
  obtain ⟨head, hhead, hfirst⟩ := exists_headerAt
    (headersNode (twoHeaders ++ rest)).world.remote (.str "head") (headerAfter 9 someHash)
    (by decide +kernel) rfl
  obtain ⟨parent, hparent, hsecond⟩ := exists_headerAt
    ((headersNode (twoHeaders ++ rest)).world.remote.next (watcher.headerRoute (.str "head"))).2
    (.bytes someHash) (headerAfter 2 otherRoot) (by decide +kernel) rfl
  have hsomeHash : head.parentRoot = someHash := by
    rw [Node.HeaderInfo.parentRoot, hfirst]
    rfl
  have hotherRoot : parent.parentRoot = otherRoot := by
    rw [Node.HeaderInfo.parentRoot, hsecond]
    rfl
  have hchain : watcher.Ancestry _ (.bytes someHash) (parent :: ancestors) failure :=
    .child hparent (by rw [hotherRoot]; decide) (by rwa [hotherRoot])
  refine ⟨head, parent, ?_, ?_, .child hhead (by rw [hsomeHash]; decide) (by rwa [hsomeHash])⟩
  · rw [Node.HeaderInfo.slot, hfirst]
    rfl
  · rw [Node.HeaderInfo.slot, hsecond]
    rfl

/-- Of three headers two are in the first epoch, and one is in the second. If the third one is not
served, nothing is counted. -/
theorem blocksPerEpoch_counts_headersNode :
    (∃ (tally : List (Nat × Nat)) (t : Stage (Link ClientConfig) Line),
      watcher.blocksPerEpoch [] (headersNode (twoHeaders ++ firstHeader))
        = (.done (tally.map shownCount), t)
      ∧ tally.lookup 0 = some 2 ∧ tally.lookup 1 = some 1 ∧ tally.lookup 2 = none
      ∧ (tally.map Prod.snd).sum = 3 ∧ t.world.remote.asked.length = 3)
    ∧ ∃ e t, watcher.blocksPerEpoch [] (headersNode (twoHeaders ++ [])) = (.failed e, t)
      ∧ e.kind = .notFound := by
  constructor
  · obtain ⟨first, hserved, hheader⟩ := exists_headerAt (thirdAsk firstHeader)
      (.bytes otherRoot) (headerAfter 1 Signing.zeroRoot) (by decide +kernel) rfl
    have hroot : first.parentRoot = Signing.zeroRoot := by
      rw [Node.HeaderInfo.parentRoot, hheader]
      rfl
    have hfirst : first.slot = 1 := by
      rw [Node.HeaderInfo.slot, hheader]
      rfl
    obtain ⟨head, parent, hhead, hparent, hchain⟩ := ancestry_twoHeaders (.first hserved hroot)
    obtain ⟨tally, t, hcounted, hhistogram, hrequests, hasked⟩ :=
      (blocksPerEpoch_counts watcher _ rfl rfl (by decide) _).1 hchain
    have hcounts := hhistogram.counts
    simp only [headersIn, List.countP_cons, List.countP_nil, hhead, hparent, hfirst] at hcounts
    refine ⟨tally, t, hcounted, (hcounts 0).trans rfl, (hcounts 1).trans rfl,
      (hcounts 2).trans rfl, hhistogram.total, ?_⟩
    rw [hasked, List.length_append, List.length_reverse, hrequests]
    rfl
  · have hmissing : watcher.headerAt (.bytes otherRoot) (thirdAsk []) = .error _ :=
      Node.Endpoint.exchange_of_reply (Remote.replyTo_of_lookup_none rfl)
    obtain ⟨head, parent, -, -, hchain⟩ := ancestry_twoHeaders (.fails hmissing)
    obtain ⟨t, hfailed, -⟩ := (blocksPerEpoch_counts watcher _ rfl rfl (by decide) _).2 _ hchain
    exact ⟨_, t, hfailed, rfl⟩

end BeaconHarness.Client
