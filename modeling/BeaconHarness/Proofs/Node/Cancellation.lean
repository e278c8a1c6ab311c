import BeaconHarness.Proofs.Node.FlagWait
import BeaconHarness.Proofs.Wait.Cancellation

/-!
# Waits that are called off

Whoever waits may be called off. All waits stop then at once: polls and retries of whatever query,
whether in a wait, with the query in flight, or with a deadline still to come, and the waits of a
client for a payload or a flag. Nothing is asked for after that, and what has been asked for before
is what would have been asked for anyway.

Main statement: `calledOff_stops_waits`.
-/

namespace BeaconHarness.Client

open Node (Link Line HeaderInfo)
open Work (Script CutAt callOff)

variable {α : Type}

/-! ## Rounds of a wait that is called off -/

/-- A wait that is called off has a round for each tick until then, and no fewer than without. -/
theorem withRounds_callOff (deadline : Option Work.Limit) (work : Nat → Job α)
    {s : Stage (Link ClientConfig) Line} {instant : Nat} (hstart : s.now ≤ instant) :
    ∃ rounds, withRounds deadline work [callOff instant] s = work rounds [callOff instant] s
      ∧ s.world.remote.replyCount + (deadline.map Work.Limit.span).getD 0 + 2 ≤ rounds
      ∧ instant < s.now + rounds := by
  cases deadline with
  | none =>
    refine ⟨s.world.remote.replyCount + (max instant 0 - s.now) + 2, rfl, ?_, by omega⟩
    show s.world.remote.replyCount + 0 + 2 ≤ _
    omega
  | some l =>
    refine ⟨s.world.remote.replyCount + (max instant (s.now + l.span) - s.now) + 2, rfl, ?_,
      by omega⟩
    show s.world.remote.replyCount + l.span + 2 ≤ _
    omega

/-- A wait whose ticks repeat themselves, and that is called off before it would have ended, if it
ends at all, is interrupted at that instant. Given rounds enough, it leaves what the poll that it is
leaves before that instant. -/
theorem withRounds_calledOff {d : Datum} {query : Job (Option α)}
    {u : Nat → Stage (Link ClientConfig) Line} {answer : Nat → Except Failure (Option α)} {n : Nat}
    (h : Work.Repeats d [] query u answer n) (hn : n ≤ (u 0).world.remote.replyCount)
    {deadline : Option Work.Limit} {what : String} {poll : Nat → Job α}
    (hpoll : poll = fun rounds =>
      Work.pollUntil rounds (Work.sleepFor d) deadline what [] query)
    {instant : Nat} (hstart : (u 0).now ≤ instant)
    (hmoves : (withRounds deadline poll [] (u 0)).1 = .unsettled →
      Work.MovesBefore d (instant + 1))
    (hlate : (withRounds deadline poll [] (u 0)).1 ≠ .unsettled →
      instant < (withRounds deadline poll [] (u 0)).2.now) :
    ∃ t, withRounds deadline poll [callOff instant] (u 0) = (.interrupted, t)
      ∧ ∃ enough, ∀ rounds ≥ enough, CutAt instant (u 0) (poll rounds [] (u 0)).2 t
        ∧ ((withRounds deadline poll [] (u 0)).1 ≠ .unsettled →
          poll rounds [] (u 0) = withRounds deadline poll [] (u 0)) := by
  subst hpoll
  obtain ⟨many, hwait, hmany, hrounds⟩ := withRounds_callOff deadline
    (fun rounds => Work.pollUntil rounds (Work.sleepFor d) deadline what [] query) hstart
  rw [withRounds_eq] at hmoves hlate ⊢
  rw [hwait]
  obtain ⟨t, hrun, hleft⟩ := h.calledOff (by omega) hmany hrounds hstart hmoves hlate
  exact ⟨t, hrun, many, hleft⟩

/-! ## The first slot -/

/-- The first slot of a wait without a deadline passes before anything else. -/
theorem elapse_le_withRounds {d : Datum} {query : Job (Option α)}
    {u : Nat → Stage (Link ClientConfig) Line} {answer : Nat → Except Failure (Option α)} {n : Nat}
    (h : Work.Repeats d [] query u answer n) (what : String) :
    Work.elapse d (u 0).now ≤ (withRounds none (fun rounds =>
      Work.pollUntil rounds (Work.sleepFor d) none what [] query) [] (u 0)).2.now := by
  have hrounds : 0 < (u 0).world.remote.replyCount + 0 + 2 := Nat.succ_pos _
  have hfirst := h.now_le_pollRounds (fun k hk => absurd hk (Nat.not_lt_zero k)) hrounds
  rw [withRounds_eq]
  exact Nat.le_trans (h.elapse_le 0) hfirst

theorem elapse_le_waitForExecutionPayload {c : Client} {s : Stage (Link ClientConfig) Line}
    {spec : Spec} {genesisTime : Datum} (hspec : s.world.own.spec = some spec)
    (hgenesis : s.world.own.genesisTime = some genesisTime)
    (hslots : c.Slotted spec genesisTime) :
    Work.elapse spec.secondsPerSlot s.now ≤ (c.waitForExecutionPayload .null [] s).2.now := by
  obtain ⟨n, -, hrepeats⟩ := exists_repeats hslots (c.announced s)
  have hlimit : Datum.null.limit = .ok none := rfl
  rw [waitForExecutionPayload_begins c [] hspec hgenesis hlimit]
  exact elapse_le_withRounds hrepeats _

theorem elapse_le_waitForOptimisticState {c : Client} (id : Datum) (wanted : Bool)
    {s : Stage (Link ClientConfig) Line} {spec : Spec} {length : Nat}
    (hspec : s.world.own.spec = some spec) (hspan : spec.secondsPerSlot.span = .ok length) :
    Work.elapse spec.secondsPerSlot s.now
      ≤ (c.waitForOptimisticState id (.bool wanted) .null [] s).2.now := by
  obtain ⟨n, -, hrepeats⟩ := Node.exists_repeats_of_reads hspan (shows_checkFlag c id wanted)
    (plain_checkFlag c id (.bool wanted)) (reads_glance c id wanted) (c.announcedFlag s)
  have hlimit : Datum.null.limit = .ok none := rfl
  rw [waitForOptimisticState_begins c id wanted [] hspec hlimit]
  exact elapse_le_withRounds hrepeats _

/-! ## All waits -/

/-- Calling a wait off at an instant stops it there, if it would not have ended by then.

So it is with polls of a script, with or without a deadline, and with retries: kinds of failures that
count as "not yet" do not matter as long as being called off is not among them. Rounds stand for
time here, in each of which at least one tick passes. A retry asks at once, so that it can only be
called off later than that.

So it is with the waits of a client that knows its network, too. A wait that ends leaves by the time
it is called off what it leaves by then anyway; one that never ends leaves what is left by then by
the poll that it is, given rounds enough, if slots move the clock. -/
theorem calledOff_stops_waits (instant : Nat) :
    (∀ {α : Type} (x : Script α) (limit : Option Work.Limit) (what : String)
      (retryOn : List FailureKind) (rounds : Nat),
      0 < x.interval → .cancelled ∉ retryOn → .anything ∉ retryOn → instant < rounds →
      let poll := Work.pollUntil rounds x.wait limit what retryOn x.query
      let free := poll [] { world := 0 }
      (free.1 ≠ .unsettled → instant < free.2.now) →
      ∃ t, poll [callOff instant] { world := 0 } = (.interrupted, t)
        ∧ CutAt instant { world := 0 } free.2 t)
    ∧ (∀ {α : Type} (x : Script α) (retryOn : List FailureKind) (rounds : Nat),
      0 < x.interval → .cancelled ∉ retryOn → .anything ∉ retryOn → instant < rounds →
      0 < instant →
      let retry := Work.retryUntilReady rounds x.wait retryOn x.query
      let free := retry [] { world := 0 }
      (free.1 ≠ .unsettled → instant < free.2.now) →
      ∃ t, retry [callOff instant] { world := 0 } = (.interrupted, t)
        ∧ CutAt instant { world := 0 } free.2 t)
    ∧ (∀ (c : Client) (limit : Datum) (s : Stage (Link ClientConfig) Line) (spec : Spec)
      (genesisTime : Datum) (deadline : Option Work.Limit),
      s.world.own.spec = some spec → s.world.own.genesisTime = some genesisTime →
      c.Slotted spec genesisTime → limit.limit = .ok deadline → s.now ≤ instant →
      let free := c.waitForExecutionPayload limit [] s
      (free.1 = .unsettled → Work.MovesBefore spec.secondsPerSlot (instant + 1)) →
      (free.1 ≠ .unsettled → instant < free.2.now) →
      ∃ t, c.waitForExecutionPayload limit [callOff instant] s = (.interrupted, t)
        ∧ ∃ enough, ∀ rounds ≥ enough,
          let poll := c.pollPayload spec genesisTime deadline s.world.own rounds [] (c.announced s)
          CutAt instant (c.announced s) poll.2 t ∧ (free.1 ≠ .unsettled → poll = free))
    ∧ (∀ (c : Client) (id : Datum) (wanted : Bool) (limit : Datum)
      (s : Stage (Link ClientConfig) Line) (spec : Spec) (length : Nat)
      (deadline : Option Work.Limit),
      s.world.own.spec = some spec → spec.secondsPerSlot.span = .ok length →
      limit.limit = .ok deadline → s.now ≤ instant →
      let free := c.waitForOptimisticState id (.bool wanted) limit [] s
      (free.1 = .unsettled → Work.MovesBefore spec.secondsPerSlot (instant + 1)) →
      (free.1 ≠ .unsettled → instant < free.2.now) →
      ∃ t, c.waitForOptimisticState id (.bool wanted) limit [callOff instant] s = (.interrupted, t)
        ∧ ∃ enough, ∀ rounds ≥ enough,
          let poll := c.pollFlag id wanted spec deadline s.world.own rounds [] (c.announcedFlag s)
          CutAt instant (c.announcedFlag s) poll.2 t ∧ (free.1 ≠ .unsettled → poll = free)) := by
  refine ⟨?_, ?_, ?_, ?_⟩
  · intro α x limit what retryOn rounds hinterval hcancelled hanything hrounds poll free hlate
    have hkept := Script.absorbs_eq_false hcancelled hanything
    exact x.pollUntil_calledOff hinterval hkept limit what hrounds hlate
  · intro α x retryOn rounds hinterval hcancelled hanything hrounds hstart retry free hlate
    have hkept := Script.absorbs_eq_false hcancelled hanything
    exact x.retryUntilReady_calledOff hinterval hkept hstart hrounds hlate
  · intro c limit s spec genesisTime deadline hspec hgenesis hslots hlimit hstart free hmoves hlate
    have hbegins := fun alarms =>
      waitForExecutionPayload_begins c alarms hspec hgenesis hlimit
    obtain ⟨n, hn, hrepeats⟩ := exists_repeats hslots (c.announced s)
    simp only [free, hbegins] at hmoves hlate ⊢
    exact withRounds_calledOff hrepeats hn rfl hstart hmoves hlate
  · intro c id wanted limit s spec length deadline hspec hspan hlimit hstart free hmoves hlate
    have hbegins := fun alarms =>
      waitForOptimisticState_begins c id wanted alarms hspec hlimit
    obtain ⟨n, hn, hrepeats⟩ := Node.exists_repeats_of_reads hspan (shows_checkFlag c id wanted)
      (plain_checkFlag c id (.bool wanted)) (reads_glance c id wanted) (c.announcedFlag s)
    simp only [free, hbegins] at hmoves hlate ⊢
    exact withRounds_calledOff hrepeats hn rfl hstart hmoves hlate

/-- The first query of `slowAtFirst` is in flight after three ticks, with a deadline seven ticks
away. A client that is called off in its first slot has asked for nothing. -/
theorem calledOff_stops_waits_watcher :
    (∃ t, Work.pollUntil 4 Script.slowAtFirst.wait (some ⟨10, "10", 0⟩) "condition" [.timedOut]
          Script.slowAtFirst.query [callOff 3] { world := 0 } = (.interrupted, t)
        ∧ t.now = 3 ∧ t.journal.dated 0 = [(1, 1)])
    ∧ (∃ t, Work.retryUntilReady 4 Script.slowAtFirst.wait [] Script.slowAtFirst.query [callOff 3]
          { world := 0 } = (.interrupted, t)
        ∧ t.now = 3 ∧ t.journal.dated 0 = [(0, 0)])
    ∧ (∃ t, watcher.waitForExecutionPayload .null [callOff ticksPerSecond]
          (watched [headReply false]) = (.interrupted, t) ∧ t.now = ticksPerSecond)
    ∧ ∃ t, watcher.waitForOptimisticState (.int 5) (.bool true) .null [callOff ticksPerSecond]
          (flagged [flagReply .null]) = (.interrupted, t) ∧ t.now = ticksPerSecond := by
  have hfirst : ticksPerSecond < Work.elapse ({} : Spec).secondsPerSlot 0 := by decide +kernel
  have hmoves : Work.MovesBefore ({} : Spec).secondsPerSlot (ticksPerSecond + 1) :=
    movesBefore_twelveSeconds (by decide +kernel)
  refine ⟨?_, ?_, ?_, ?_⟩
  · obtain ⟨hpoll, -⟩ := calledOff_stops_waits 3
    obtain ⟨t, hrun, hnow, -, j, k, hj, hk, hlines⟩ := hpoll Script.slowAtFirst
      (some ⟨10, "10", 0⟩) "condition" [.timedOut] 4 (by decide) (by decide) (by decide) (by decide)
      (fun _ => by decide)
    refine ⟨t, hrun, hnow, ?_⟩
    rw [List.append_nil] at hj hk
    rw [hj, hlines, ← hk]
    rfl
  · obtain ⟨-, hretry, -⟩ := calledOff_stops_waits 3
    obtain ⟨t, hrun, hnow, -, j, k, hj, hk, hlines⟩ := hretry Script.slowAtFirst [] 4 (by decide)
      (by decide) (by decide) (by decide) (by decide) (fun _ => by decide)
    refine ⟨t, hrun, hnow, ?_⟩
    rw [List.append_nil] at hj hk
    rw [hj, hlines, ← hk]
    rfl
  · obtain ⟨-, -, hpayload, -⟩ := calledOff_stops_waits ticksPerSecond
    have hlate := Nat.lt_of_lt_of_le hfirst (elapse_le_waitForExecutionPayload
      (s := watched [headReply false]) rfl rfl slotted_watcher)
    obtain ⟨t, hrun, enough, hleft⟩ := hpayload watcher .null (watched [headReply false]) {}
      (.int 0) none rfl rfl slotted_watcher rfl (Nat.zero_le _) (fun _ => hmoves)
      fun _ => hlate
    exact ⟨t, hrun, (hleft enough (Nat.le_refl _)).1.now⟩
  · obtain ⟨-, -, -, hflag⟩ := calledOff_stops_waits ticksPerSecond
    have hlate := Nat.lt_of_lt_of_le hfirst (elapse_le_waitForOptimisticState (c := watcher)
      (.int 5) true (s := flagged [flagReply .null]) rfl span_twelveSeconds)
    obtain ⟨t, hrun, enough, hleft⟩ := hflag watcher (.int 5) true .null
      (flagged [flagReply .null]) {} _ none rfl span_twelveSeconds rfl (Nat.zero_le _) (fun _ => hmoves)
      fun _ => hlate
    exact ⟨t, hrun, (hleft enough (Nat.le_refl _)).1.now⟩

end BeaconHarness.Client
