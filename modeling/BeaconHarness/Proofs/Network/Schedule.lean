import BeaconHarness.Network.Schedule
import BeaconHarness.Versioned

/-!
# What a time tells

A time tells a slot, the slot an epoch, and the epoch a fork. Slots and epochs are the whole lengths
that have begun and not ended, counted from genesis. The fork of an epoch is found by going through
the forks in activation order and keeping the last one whose epoch has come. Nothing is asked of the
order of the fork epochs for that: the forks whose epochs have come only become more, so that the
last one of them never goes back.

Fork epochs may be numbers of any sort. One that is infinite, or not a number at all, never comes.

Main statement: each of the three steps, and that later times never tell less
(`Spec.time_tells_fork`).
-/

namespace BeaconHarness

/-! ## Numbers up to an integer -/

namespace Decimal.Number

/-- A place that is not above an integer is not above a greater one. -/
theorem Magnitude.compare_mono {p : Magnitude} {n k : Int} (hle : n ≤ k)
    (h : p.compare (.quotient n 1) ≠ .gt) : p.compare (.quotient k 1) ≠ .gt := by
  cases p with
  | least => exact nofun
  | greatest => exact absurd rfl h
  | quotient m d =>
    have hreached : m * 1 ≤ n * (d : Int) := by
      rw [← Int.not_lt]
      intro hlt
      exact h (Int.compare_eq_gt.mpr hlt)
    have hmore : n * (d : Int) ≤ k * (d : Int) :=
      Int.mul_le_mul_of_nonneg_right hle (Int.natCast_nonneg d)
    intro hgt
    have hlt : k * (d : Int) < m * 1 := Int.compare_eq_gt.mp hgt
    omega

/-- Whether a number is not above an integer. Not-a-number never is. -/
def reachedBy (x : Number) (n : Int) : Bool :=
  match x.magnitude? with
  | some p => p.compare (.quotient n 1) ≠ .gt
  | none => false

theorem compare_eq_reachedBy (x : Number) (n : Int) :
    (x.compare (.int n) = some .lt || x.compare (.int n) = some .eq) = x.reachedBy n := by
  have hint : (Number.int n).magnitude? = some (.quotient n 1) := rfl
  unfold compare reachedBy
  rw [hint]
  cases x.magnitude? with
  | none => rfl
  | some p => cases h : p.compare (.quotient n 1) <;> simp [h]

/-- What an integer has reached, a greater one has. -/
theorem reachedBy_mono {x : Number} {n k : Int} (hle : n ≤ k) (h : x.reachedBy n = true) :
    x.reachedBy k = true := by
  unfold reachedBy at h ⊢
  cases hplace : x.magnitude? with
  | none =>
    rw [hplace] at h
    exact nomatch h
  | some p =>
    rw [hplace] at h
    exact decide_eq_true (Magnitude.compare_mono hle (of_decide_eq_true h))

end Decimal.Number

/-- A datum that is a number is compared with an integer without fail. -/
theorem Datum.isAtMost_int_of_number {d : Datum} {x : Decimal.Number} (hd : d.number? = some x)
    (n : Int) : d.isAtMost (.int n) = .ok (x.reachedBy n) := by
  have hatom : d.order (.int n) = d.orderAtom (.int n) := by
    cases d <;> rfl
  have hint : (Datum.int n).number? = some (.int n) := rfl
  unfold isAtMost
  rw [hatom, orderAtom, hd, hint, ← x.compare_eq_reachedBy]
  rfl

namespace Spec

/-! ## Parameters that measure time -/

/-- Whether slots and epochs have whole lengths that are not zero, and all fork epochs are
numbers. -/
structure Measures (s : Spec) (seconds slots : Int) : Prop where
  secondsPerSlot : s.secondsPerSlot = .int seconds
  slotsPerEpoch : s.slotsPerEpoch = .int slots
  seconds_pos : 1 ≤ seconds
  slots_pos : 1 ≤ slots
  scheduled : ∀ f start, s.forkEpoch? f = some start → start.number?.isSome

/-- Whether a fork is the first one, or has an epoch that has come. -/
def HasCome (s : Spec) (epoch : Int) (f : Fork) : Prop :=
  f = .phase0 ∨ ∃ start, s.forkEpoch? f = some start ∧ start.isAtMost (.int epoch) = .ok true

/-- Whether a fork is the last one in activation order whose epoch has come. -/
structure LastToCome (s : Spec) (epoch : Int) (f : Fork) : Prop where
  hasCome : s.HasCome epoch f
  last : ∀ g, s.HasCome epoch g → g.order ≤ f.order

/-- The slot of a time, the epoch of the slot and the fork of the epoch. -/
structure Tells (s : Spec) (genesis time slot epoch : Int) (f : Fork) : Prop where
  timeToSlot : s.timeToSlot (.int time) (.int genesis) = .ok (.int slot)
  slotToEpoch : s.slotToEpoch slot = .ok (.int epoch)
  forkAtEpoch : s.forkAtEpoch (.int epoch) = .ok f

variable {s : Spec} {seconds slots genesis epoch later : Int} {f : Fork}

/-! ## Slots -/

theorem timeToSlot_of_before (s : Spec) {time : Int} (h : time < genesis) :
    s.timeToSlot (.int time) (.int genesis) = .ok (.int 0) := by
  unfold timeToSlot
  simp only [Datum.isBelow_int, h]
  rfl

theorem timeToSlot_of_after (hseconds : s.secondsPerSlot = .int seconds) (hpos : 1 ≤ seconds)
    {time : Int} (h : genesis ≤ time) :
    s.timeToSlot (.int time) (.int genesis) = .ok (.int ((time - genesis).fdiv seconds)) := by
  have hzero : seconds ≠ 0 := by omega
  have hnot : ¬ time < genesis := Int.not_lt.mpr h
  unfold timeToSlot
  simp only [Datum.isBelow_int, hnot, Datum.plainInteger, hseconds, Datum.floorDivide_int,
    if_neg hzero, bind, Except.bind]
  show Except.ok (Datum.int (0 + _)) = _
  rw [Int.zero_add]

/-- From genesis on, the slot of a time is the one whose seconds have begun and not ended. Before
genesis it is the first one. -/
theorem exists_natural_slot (hseconds : s.secondsPerSlot = .int seconds) (hpos : 1 ≤ seconds)
    (genesis time : Int) :
    ∃ slot : Nat, s.timeToSlot (.int time) (.int genesis) = .ok (.int slot)
      ∧ (time < genesis → slot = 0)
      ∧ (genesis ≤ time → genesis + slot * seconds ≤ time
        ∧ time < genesis + (slot + 1) * seconds) := by
  by_cases hbefore : time < genesis
  · exact ⟨0, timeToSlot_of_before s hbefore, fun _ => rfl,
      fun hafter => absurd hbefore (Int.not_lt.mpr hafter)⟩
  · have hafter : genesis ≤ time := Int.not_lt.mp hbefore
    have hbounds := (fdiv_eq_iff (n := time - genesis) hpos).mp rfl
    obtain ⟨slot, hslot⟩ : ∃ slot : Nat, (time - genesis).fdiv seconds = slot :=
      Int.eq_ofNat_of_zero_le (Int.fdiv_nonneg (by omega) (by omega))
    rw [hslot] at hbounds
    refine ⟨slot, ?_, fun h => absurd h hbefore, fun _ => by omega⟩
    rw [timeToSlot_of_after hseconds hpos hafter, hslot]

/-- From genesis on, the slot of a time is the one whose seconds have begun and not ended. -/
theorem exists_slot (hs : s.Measures seconds slots) (genesis time : Int) :
    ∃ slot : Int, s.timeToSlot (.int time) (.int genesis) = .ok (.int slot) ∧
      (time < genesis → slot = 0) ∧
      (genesis ≤ time → ∀ k : Int,
        genesis + k * seconds ≤ time ∧ time < genesis + (k + 1) * seconds ↔ k = slot) := by
  by_cases hbefore : time < genesis
  · exact ⟨0, timeToSlot_of_before s hbefore, fun _ => rfl,
      fun hafter => absurd hbefore (Int.not_lt.mpr hafter)⟩
  · have hafter : genesis ≤ time := Int.not_lt.mp hbefore
    have hslot := timeToSlot_of_after hs.secondsPerSlot hs.seconds_pos hafter
    refine ⟨_, hslot, fun h => absurd h hbefore, fun _ k => ?_⟩
    have hbounds : (time - genesis).fdiv seconds = k ↔
        k * seconds ≤ time - genesis ∧ time - genesis < (k + 1) * seconds :=
      fdiv_eq_iff hs.seconds_pos
    rw [eq_comm, hbounds]
    omega

theorem fdiv_mono {n k d : Int} (hd : 0 < d) (hle : n ≤ k) : n.fdiv d ≤ k.fdiv d := by
  rw [Int.fdiv_eq_ediv_of_nonneg n (Int.le_of_lt hd),
    Int.fdiv_eq_ediv_of_nonneg k (Int.le_of_lt hd)]
  exact Int.ediv_le_ediv hd hle

/-- Later times never have smaller slots, and times before genesis have none below those after. -/
theorem slot_mono (hs : s.Measures seconds slots) {time after slot slot' : Int}
    (hle : time ≤ after) (hslot : s.timeToSlot (.int time) (.int genesis) = .ok (.int slot))
    (hslot' : s.timeToSlot (.int after) (.int genesis) = .ok (.int slot')) : slot ≤ slot' := by
  by_cases hbefore : time < genesis
  · rw [timeToSlot_of_before s hbefore] at hslot
    cases hslot
    by_cases hstill : after < genesis
    · rw [timeToSlot_of_before s hstill] at hslot'
      cases hslot'
      exact Int.le_refl 0
    · rw [timeToSlot_of_after hs.secondsPerSlot hs.seconds_pos (Int.not_lt.mp hstill)] at hslot'
      cases hslot'
      rw [Int.fdiv_eq_ediv_of_nonneg _ (Int.le_trans (by decide) hs.seconds_pos)]
      exact Int.ediv_nonneg (by omega) (Int.le_trans (by decide) hs.seconds_pos)
  · have hafter : genesis ≤ time := Int.not_lt.mp hbefore
    rw [timeToSlot_of_after hs.secondsPerSlot hs.seconds_pos hafter] at hslot
    rw [timeToSlot_of_after hs.secondsPerSlot hs.seconds_pos (Int.le_trans hafter hle)] at hslot'
    cases hslot
    cases hslot'
    exact fdiv_mono hs.seconds_pos (by omega)

/-! ## Epochs -/

theorem slotToEpoch_eq (hs : s.Measures seconds slots) (slot : Int) :
    s.slotToEpoch slot = .ok (.int (slot.fdiv slots)) := by
  have hzero : slots ≠ 0 := by
    have := hs.slots_pos
    omega
  unfold slotToEpoch
  rw [hs.slotsPerEpoch, Datum.floorDivide_int, if_neg hzero]

theorem epoch_mono (hs : s.Measures seconds slots) {slot slot' epoch' : Int} (hle : slot ≤ slot')
    (hepoch : s.slotToEpoch slot = .ok (.int epoch))
    (hepoch' : s.slotToEpoch slot' = .ok (.int epoch')) : epoch ≤ epoch' := by
  rw [slotToEpoch_eq hs] at hepoch hepoch'
  cases hepoch
  cases hepoch'
  exact fdiv_mono hs.slots_pos hle

/-! ## Forks -/

/-- A fork is found to have come exactly when it has. -/
theorem exists_isScheduled (hs : s.Measures seconds slots) (epoch : Int) (f : Fork) :
    ∃ come : Bool, s.isScheduled (.int epoch) f = .ok come ∧ (come = true ↔ s.HasCome epoch f) := by
  cases hstart : s.forkEpoch? f with
  | none =>
    have hfirst : f = .phase0 := by
      cases f <;> first | rfl | exact nomatch hstart
    refine ⟨true, ?_, iff_of_true rfl (.inl hfirst)⟩
    rw [isScheduled, hstart]
  | some start =>
    have hlater : f ≠ .phase0 := by
      rintro rfl
      exact nomatch hstart
    obtain ⟨x, hx⟩ := Option.isSome_iff_exists.mp (hs.scheduled f start hstart)
    have hcompare := Datum.isAtMost_int_of_number hx epoch
    refine ⟨x.reachedBy epoch, ?_, ?_⟩
    · rw [isScheduled, hstart]
      exact hcompare
    · constructor
      · intro hreached
        exact .inr ⟨start, hstart, by rw [hcompare, hreached]⟩
      · rintro (hfirst | ⟨other, hother, hcome⟩)
        · exact absurd hfirst hlater
        · obtain rfl := Option.some.inj (hstart.symm.trans hother)
          rw [hcompare] at hcome
          exact Except.ok.inj hcome

/-- What has come in an epoch has come in every later one. -/
theorem HasCome.mono (hs : s.Measures seconds slots) (hle : epoch ≤ later)
    (h : s.HasCome epoch f) : s.HasCome later f := by
  rcases h with hfirst | ⟨start, hstart, hcome⟩
  · exact .inl hfirst
  · obtain ⟨x, hx⟩ := Option.isSome_iff_exists.mp (hs.scheduled f start hstart)
    rw [Datum.isAtMost_int_of_number hx] at hcome
    have hreached := Decimal.Number.reachedBy_mono hle (Except.ok.inj hcome)
    refine .inr ⟨start, hstart, ?_⟩
    rw [Datum.isAtMost_int_of_number hx, hreached]

/-- Going through forks in activation order leaves the last one that has come, or the one that was
active before if none has. -/
theorem exists_lastScheduled (hs : s.Measures seconds slots) (epoch : Int) {active : Fork}
    {forks : List Fork} (hsorted : (active :: forks).Pairwise fun f g => f.order ≤ g.order) :
    ∃ f, s.lastScheduled (.int epoch) active forks = .ok f ∧ active.order ≤ f.order ∧
      (f = active ∨ s.HasCome epoch f) ∧
      ∀ g ∈ forks, s.HasCome epoch g → g.order ≤ f.order := by
  induction forks generalizing active with
  | nil => exact ⟨active, rfl, Nat.le_refl _, .inl rfl, fun g hg => absurd hg List.not_mem_nil⟩
  | cons first rest ih =>
    obtain ⟨hactive, hforks⟩ := List.pairwise_cons.mp hsorted
    obtain ⟨-, hrest⟩ := List.pairwise_cons.mp hforks
    obtain ⟨come, hscheduled, hcome⟩ := exists_isScheduled hs epoch first
    cases come with
    | true =>
      -- The fork takes the place of the one that was active.
      obtain ⟨f, hf, hle, hfound, hlast⟩ := ih hforks
      refine ⟨f, ?_, Nat.le_trans (hactive first List.mem_cons_self) hle, .inr ?_, ?_⟩
      · rw [lastScheduled, hscheduled]
        exact hf
      · rcases hfound with rfl | hfound
        · exact hcome.mp rfl
        · exact hfound
      · intro g hg hgcome
        rcases List.mem_cons.mp hg with rfl | hg
        · exact hle
        · exact hlast g hg hgcome
    | false =>
      have hkept : (active :: rest).Pairwise fun f g => f.order ≤ g.order :=
        List.pairwise_cons.mpr ⟨fun g hg => hactive g (List.mem_cons_of_mem first hg), hrest⟩
      obtain ⟨f, hf, hle, hfound, hlast⟩ := ih hkept
      refine ⟨f, ?_, hle, hfound, ?_⟩
      · rw [lastScheduled, hscheduled]
        exact hf
      · intro g hg hgcome
        rcases List.mem_cons.mp hg with rfl | hg
        · exact absurd (hcome.mpr hgcome) Bool.false_ne_true
        · exact hlast g hg hgcome

theorem exists_forkAtEpoch (hs : s.Measures seconds slots) (epoch : Int) :
    ∃ f, s.forkAtEpoch (.int epoch) = .ok f ∧ s.LastToCome epoch f := by
  have hsorted : (Fork.phase0 :: Fork.all).Pairwise fun f g => f.order ≤ g.order := by decide
  obtain ⟨f, hf, -, hfound, hlast⟩ := exists_lastScheduled hs epoch hsorted
  have hall : ∀ g : Fork, g ∈ Fork.all := fun g => List.mem_of_getElem? g.getElem?_order
  refine ⟨f, hf, ?_, fun g hg => hlast g (hall g) hg⟩
  rcases hfound with rfl | hfound
  · exact .inl rfl
  · exact hfound

/-- The fork of an epoch never comes before the fork of an earlier one, whatever the order of the
fork epochs. -/
theorem fork_mono (hs : s.Measures seconds slots) {f' : Fork} (hle : epoch ≤ later)
    (hf : s.forkAtEpoch (.int epoch) = .ok f) (hf' : s.forkAtEpoch (.int later) = .ok f') :
    f.order ≤ f'.order := by
  obtain ⟨g, hg, hlast⟩ := exists_forkAtEpoch hs epoch
  obtain ⟨g', hg', hlast'⟩ := exists_forkAtEpoch hs later
  obtain rfl := Except.ok.inj (hf.symm.trans hg)
  obtain rfl := Except.ok.inj (hf'.symm.trans hg')
  exact hlast'.last f (hlast.hasCome.mono hs hle)

/-! ## Times -/

theorem exists_tells (hs : s.Measures seconds slots) (genesis time : Int) :
    ∃ slot epoch f, s.Tells genesis time slot epoch f := by
  obtain ⟨slot, hslot, -⟩ := exists_slot hs genesis time
  obtain ⟨f, hf, -⟩ := exists_forkAtEpoch hs (slot.fdiv slots)
  exact ⟨slot, slot.fdiv slots, f, hslot, slotToEpoch_eq hs slot, hf⟩

/-- With slots of whole seconds and epochs of whole slots, a time before genesis has the slot zero
and every other one the only slot that has begun and not ended; a slot has the epoch whose first
slot has come and whose successor's has not; and an epoch has the last fork, in activation order,
that is the first one or whose epoch has come, with the version of that fork and a name that tags
it. Every time tells all three, and a later one never a smaller slot, epoch or fork. -/
theorem time_tells_fork (hs : s.Measures seconds slots) :
    (∀ genesis time : Int, ∃ slot : Int,
      s.timeToSlot (.int time) (.int genesis) = .ok (.int slot) ∧
      (time < genesis → slot = 0) ∧
      (genesis ≤ time → ∀ k : Int,
        genesis + k * seconds ≤ time ∧ time < genesis + (k + 1) * seconds ↔ k = slot)) ∧
    (∀ slot epoch : Int, s.slotToEpoch slot = .ok (.int epoch) ↔
      ∃ first next : Int, s.epochStartSlot epoch = .ok (.int first) ∧
        s.epochStartSlot (epoch + 1) = .ok (.int next) ∧ first ≤ slot ∧ slot < next) ∧
    (∀ epoch : Int, ∃ f, s.forkAtEpoch (.int epoch) = .ok f ∧ s.LastToCome epoch f ∧
      s.forkVersionAtEpoch (.int epoch) = .ok (s.forkVersion f) ∧
      Fork.ofTag (.str f.name) = .ok f) ∧
    (∀ genesis time : Int, ∃ slot epoch f, s.Tells genesis time slot epoch f) ∧
    (∀ genesis time after slot epoch slot' epoch' : Int, ∀ f f' : Fork, time ≤ after →
      s.Tells genesis time slot epoch f → s.Tells genesis after slot' epoch' f' →
      slot ≤ slot' ∧ epoch ≤ epoch' ∧ f.order ≤ f'.order) := by
  refine ⟨exists_slot hs, ?_, ?_, exists_tells hs, ?_⟩
  · intro slot epoch
    exact slotToEpoch_eq_ok_iff hs.slotsPerEpoch hs.slots_pos
  · intro epoch
    obtain ⟨f, hf, hlast⟩ := exists_forkAtEpoch hs epoch
    have hversion : s.forkVersionAtEpoch (.int epoch) = .ok (s.forkVersion f) := by
      rw [forkVersionAtEpoch, hf]
      rfl
    have hname : Fork.ofTag (.str f.name) = .ok f := by
      cases f <;> rfl
    exact ⟨f, hf, hlast, hversion, hname⟩
  · intro genesis time after slot epoch slot' epoch' f f' hle htime hafter
    have hslot := slot_mono hs hle htime.timeToSlot hafter.timeToSlot
    have hepoch := epoch_mono hs hslot htime.slotToEpoch hafter.slotToEpoch
    exact ⟨hslot, hepoch, fork_mono hs hepoch htime.forkAtEpoch hafter.forkAtEpoch⟩

/-- Where bellatrix and capella come together, altair after them and deneb never, the second epoch
is one of capella, and so is the fourth, in which altair comes. -/
theorem time_tells_fork_outOfOrder :
    let s : Spec := { ofPreset .minimal with
      altairForkEpoch := .int 4
      bellatrixForkEpoch := .int 2
      capellaForkEpoch := .int 2
      denebForkEpoch := .float (.infinite false) }
    s.Measures 6 8 ∧ s.Tells 1000 1100 16 2 .capella ∧ s.HasCome 4 .altair ∧
      s.LastToCome 4 .capella ∧ s.forkVersionAtEpoch (.int 4) = .ok (.bytes [3, 0, 0, 0]) := by
  intro s
  have hs : s.Measures 6 8 := {
    secondsPerSlot := rfl
    slotsPerEpoch := rfl
    seconds_pos := by decide
    slots_pos := by decide
    scheduled := by
      intro f start hstart
      cases f <;> cases hstart <;> rfl }
  obtain ⟨hslots, hepochs, hforks, -, -⟩ := time_tells_fork hs
  obtain ⟨slot, hslot, -, hunique⟩ := hslots 1000 1100
  obtain rfl : 16 = slot := (hunique (by decide) 16).mp (by decide)
  have hepoch : s.slotToEpoch 16 = .ok (.int 2) :=
    (hepochs 16 2).mpr ⟨16, 24, rfl, rfl, by decide, by decide⟩
  have hfork (epoch : Int) (h : s.forkAtEpoch (.int epoch) = .ok .capella) :
      s.LastToCome epoch .capella ∧
        s.forkVersionAtEpoch (.int epoch) = .ok (.bytes [3, 0, 0, 0]) := by
    obtain ⟨f, hf, hlast, hversion, -⟩ := hforks epoch
    obtain rfl := Except.ok.inj (hf.symm.trans h)
    exact ⟨hlast, hversion⟩
  exact ⟨hs, ⟨hslot, hepoch, rfl⟩, .inr ⟨.int 4, rfl, rfl⟩, hfork 4 rfl⟩

end Spec

end BeaconHarness
