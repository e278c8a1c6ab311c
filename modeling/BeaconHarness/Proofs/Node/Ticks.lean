import BeaconHarness.Node.Client
import BeaconHarness.Proofs.Node.Exchange
import BeaconHarness.Proofs.Wait.Settling

/-!
# Waiting at a node

A client that waits for something at a node ticks: it lets a length of time pass and makes a query,
again and again. What a query comes to depends on the network alone, as does what it asks for; a
*glimpse* is all of this at one moment.

A query that makes one request every time, and perhaps a second one that the reply to the first one
tells, is in the end always the same: first the replies to the first request are used up, from then
on the second one is always the same, and then the replies to that one are used up, too.

Main statements: glimpses repeat themselves (`Reads.exists_repeats`), and so do the ticks of a wait
(`exists_repeats_of_reads`).
-/

namespace BeaconHarness

namespace Node

open Work (ended elapse verdict? Plain)
open Endpoint (After)

variable {κ α : Type}

/-! ## Glimpses -/

/-- What a query comes to: its answer, the requests that it makes, newest first, and the instant of
its end for that of its beginning. -/
structure Glimpse (α : Type) where
  answer : Except Failure (Option α)
  requests : List Route
  ends : Nat → Nat

/-- Whether a query comes to what a view of the network tells, wherever it is made. -/
def Shows (query : Job κ (Option α)) (view : Remote → Glimpse α) : Prop :=
  ∀ s : Stage (Link κ) Line, ∃ t,
    query [] s = (ended (view s.world.remote).answer, t)
    ∧ After s t (view s.world.remote).requests ((view s.world.remote).ends s.now)

/-- A network that is seen again and again. -/
def Seen (view : Remote → Glimpse α) (r : Nat → Remote) : Prop :=
  ∀ k, r (k + 1) = { r k with asked := (view (r k)).requests ++ (r k).asked }

section Seen

variable {view : Remote → Glimpse α} {r : Nat → Remote}

theorem Seen.routes (h : Seen view r) (k : Nat) : (r k).routes = (r 0).routes := by
  induction k with
  | zero => rfl
  | succ k ih => rw [h k]; exact ih

/-- A route that is asked for every time from the `n`-th on is asked for once for each of them. -/
theorem Seen.le_count (h : Seen view r) {route : Route} {n k : Nat} (hnk : n ≤ k)
    (hasks : ∀ j, n ≤ j → route ∈ (view (r j)).requests) :
    k - n ≤ (r k).asked.count route := by
  induction k, hnk using Nat.le_induction with
  | base => omega
  | succ k hk ih =>
    have hone := List.one_le_count_iff.mpr (hasks k hk)
    rw [h k, List.count_append]
    omega

/-- A route that has been asked for often enough always has the same reply. -/
theorem Seen.replyTo_eq (h : Seen view r) {route : Route} {n k : Nat} (hnk : n ≤ k)
    (hasks : ∀ j, n ≤ j → route ∈ (view (r j)).requests)
    (hspent : n + (r 0).supply route ≤ k) :
    (r k).replyTo route = (((r 0).routes.lookup route).getD []).getLastD .unknown := by
  have hcount := h.le_count hnk hasks
  have hsupply : (r k).supply route = (r 0).supply route := by
    rw [Remote.supply, Remote.supply, h.routes k]
  rw [Remote.replyTo_of_spent (by omega), h.routes k]

end Seen

/-! ## Two requests -/

/-- A view that depends on the reply to a first request, which is always made, and on the reply to a
second one, if the reply to the first one leads to it. -/
structure Reads (view : Remote → Glimpse α) (first : Route) (second : Reply → Option Route) :
    Prop where
  asks_first : ∀ r, first ∈ (view r).requests
  asks_second : ∀ r route, second (r.replyTo first) = some route → route ∈ (view r).requests
  ne : ∀ reply route, second reply = some route → first ≠ route
  congr : ∀ r r' : Remote, r'.replyTo first = r.replyTo first →
    (∀ route, second (r.replyTo first) = some route → r'.replyTo route = r.replyTo route) →
      view r' = view r

/-- From some glimpse on all of them are the same, and not more come before that than replies are
set up. -/
theorem Reads.exists_repeats {view : Remote → Glimpse α} {first : Route}
    {second : Reply → Option Route} (h : Reads view first second) {r : Nat → Remote}
    (hseen : Seen view r) :
    ∃ n ≤ (r 0).replyCount, ∀ k, n ≤ k → view (r k) = view (r n) := by
  have hfirst : ∀ k, (r 0).supply first ≤ k →
      (r k).replyTo first = (r ((r 0).supply first)).replyTo first := by
    intro k hk
    have hasks : ∀ j, 0 ≤ j → first ∈ (view (r j)).requests := fun j _ => h.asks_first (r j)
    rw [hseen.replyTo_eq (Nat.zero_le k) hasks (by omega),
      hseen.replyTo_eq (Nat.zero_le _) hasks (by omega)]
  generalize hn : (r 0).supply first = n at hfirst
  cases hsecond : second ((r n).replyTo first) with
  | none =>
    refine ⟨n, hn ▸ Remote.supply_le_replyCount (r 0) first, fun k hk => ?_⟩
    refine h.congr (r n) (r k) (hfirst k hk) fun route hroute => ?_
    rw [hsecond] at hroute
    exact nomatch hroute
  | some route =>
    -- The same second request is made every time, until its replies have been used up too.
    have hasks : ∀ j, n ≤ j → route ∈ (view (r j)).requests := by
      intro j hj
      refine h.asks_second (r j) route ?_
      rw [hfirst j hj, hsecond]
    have hcount := Remote.supply_add_le_replyCount (r 0) (h.ne _ route hsecond)
    rw [hn] at hcount
    refine ⟨n + (r 0).supply route, hcount, fun k hk => ?_⟩
    refine h.congr _ _ ?_ fun other hother => ?_
    · rw [hfirst k (by omega), hfirst (n + (r 0).supply route) (by omega)]
    · rw [hfirst _ (by omega), hsecond] at hother
      obtain rfl := Option.some.inj hother
      rw [hseen.replyTo_eq (n := n) (by omega) hasks (by omega),
        hseen.replyTo_eq (n := n) (by omega) hasks (by omega)]

/-! ## Ticks -/

/-- A length of time that passes, and a query after it. -/
def tick (d : Datum) (query : Job κ (Option α)) : Job κ (Option α) := do
  Work.sleepFor d
  query

/-- Where a client stands that has ticked `n` times without being stopped. -/
def afterTicks (d : Datum) (query : Job κ (Option α)) (s : Stage (Link κ) Line) :
    (n : Nat) → Stage (Link κ) Line
  | 0 => s
  | n + 1 => (tick d query [] (afterTicks d query s n)).2

section Ticks

variable {d : Datum} {length : Nat} {query : Job κ (Option α)} {view : Remote → Glimpse α}

theorem tick_eq (hspan : d.span = .ok length) (h : Shows query view) (s : Stage (Link κ) Line) :
    ∃ t, tick d query [] s = (ended (view s.world.remote).answer, t)
      ∧ After s t (view s.world.remote).requests ((view s.world.remote).ends (elapse d s.now)) := by
  obtain ⟨u, hwait, hnow, hworld⟩ := Work.sleepFor_of_ok (ν := Line) hspan s
  obtain ⟨t, hquery, hafter⟩ := h u
  rw [hworld, hnow] at hafter
  rw [hworld] at hquery
  refine ⟨t, ?_, hafter.now, ?_, ?_⟩
  · rw [tick, Work.andThen_of_done hwait, hquery]
  · rw [hafter.remote, hworld]
  · rw [hafter.own, hworld]

theorem afterTicks_eq (hspan : d.span = .ok length) (h : Shows query view)
    (s : Stage (Link κ) Line) (k : Nat) :
    tick d query [] (afterTicks d query s k)
      = (ended (view (afterTicks d query s k).world.remote).answer,
        afterTicks d query s (k + 1)) := by
  obtain ⟨t, htick, -⟩ := tick_eq hspan h (afterTicks d query s k)
  rw [afterTicks, htick]

theorem afterTicks_after (hspan : d.span = .ok length) (h : Shows query view)
    (s : Stage (Link κ) Line) (k : Nat) :
    After (afterTicks d query s k) (afterTicks d query s (k + 1))
      (view (afterTicks d query s k).world.remote).requests
      ((view (afterTicks d query s k).world.remote).ends
        (elapse d (afterTicks d query s k).now)) := by
  obtain ⟨t, htick, hafter⟩ := tick_eq hspan h (afterTicks d query s k)
  rw [afterTicks, htick]
  exact hafter

/-- Ticks change nothing that is set up. -/
theorem routes_afterTicks (hspan : d.span = .ok length) (h : Shows query view)
    (s : Stage (Link κ) Line) (k : Nat) :
    (afterTicks d query s k).world.remote.routes = s.world.remote.routes := by
  have hseen : Seen view fun k => (afterTicks d query s k).world.remote :=
    fun k => (afterTicks_after hspan h s k).remote
  exact hseen.routes k

/-- Ticks that nothing stops repeat themselves in the end. -/
theorem exists_repeats_of_reads (hspan : d.span = .ok length) (h : Shows query view)
    (hplain : Plain query) {first : Route} {second : Reply → Option Route}
    (hreads : Reads view first second) (s : Stage (Link κ) Line) :
    ∃ n ≤ s.world.remote.replyCount, Work.Repeats d [] query (afterTicks d query s)
      (fun k => (view (afterTicks d query s k).world.remote).answer) n := by
  have hseen : Seen view fun k => (afterTicks d query s k).world.remote :=
    fun k => (afterTicks_after hspan h s k).remote
  obtain ⟨n, hn, hrepeats⟩ := hreads.exists_repeats hseen
  refine ⟨n, hn, hplain, rfl, ⟨length, hspan⟩, afterTicks_eq hspan h s, ?_, ?_⟩
  · intro k hk
    exact congrArg (fun glimpse : Glimpse α => verdict? [] glimpse.answer) (hrepeats k hk)
  · refine ⟨fun now => (view (afterTicks d query s n).world.remote).ends (elapse d now),
      fun k hk => ?_⟩
    rw [(afterTicks_after hspan h s k).now]
    exact congrArg (fun glimpse : Glimpse α => glimpse.ends _) (hrepeats k hk)

end Ticks

end Node

namespace Client

open Node (Link Line)
open Work (ended verdict?)

variable {α : Type}

/-- Work that has come to its end has been attempted. -/
theorem attempt_of_ended {κ α : Type} {work : Node.Job κ α} {result : Except Failure α}
    {s t : Stage (Link κ) Line} (h : work [] s = (ended result, t)) :
    Work.attempt work [] s = (.done result, t) := by
  rw [Work.attempt]
  cases result with
  | ok a => exact Work.followed_of_done h
  | error e => exact Work.followed_of_failed h

/-! ## Answers that end a wait -/

/-- Any answer but that there is nothing yet ends a wait. -/
theorem verdict?_eq_none_iff {answer : Except Failure (Option α)} :
    verdict? [] answer = none ↔ answer = .ok none := by
  cases answer with
  | error e => exact ⟨nofun, nofun⟩
  | ok found =>
    cases found with
    | none => exact ⟨fun _ => rfl, fun _ => rfl⟩
    | some a => exact ⟨nofun, nofun⟩

/-- Only what was found makes a wait be done. -/
theorem verdict?_eq_done_iff {answer : Except Failure (Option α)} {a : α} :
    verdict? [] answer = some (.done a) ↔ answer = .ok (some a) := by
  cases answer with
  | error e => exact ⟨nofun, nofun⟩
  | ok found =>
    cases found with
    | none => exact ⟨nofun, nofun⟩
    | some found =>
      constructor
      · intro h
        cases h
        rfl
      · intro h
        cases h
        rfl

/-- What is asked for last ends a wait, whatever it comes to. -/
theorem verdict?_map_some (result : Except Failure α) :
    verdict? [] (result.map some) = some (ended result) := by
  cases result <;> rfl

/-! ## Beginnings of a wait -/

theorem spec_of_some {c : Client} {spec : Spec} {alarms : List Alarm}
    {s : Stage (Link ClientConfig) Line} (h : s.world.own.spec = some spec) :
    c.spec alarms s = (.done spec, s) := by
  show (c.resolved "spec" s.world.own.spec) alarms s = _
  rw [h]
  rfl

/-- Without alarms a wait has one round for each reply that is set up, one for each tick of the
clock up to its deadline, and two more. -/
theorem withRounds_eq (deadline : Option Work.Limit) (work : Nat → Job α)
    (s : Stage (Link ClientConfig) Line) :
    withRounds deadline work [] s
      = work (s.world.remote.replyCount + (deadline.map Work.Limit.span).getD 0 + 2) [] s := by
  cases deadline with
  | none =>
    have hnone : 0 - s.now = 0 := Nat.zero_sub s.now
    show work (s.world.remote.replyCount + (0 - s.now) + 2) _ _ = _
    rw [hnone]
    rfl
  | some l =>
    have hspan : s.now + l.span - s.now = l.span := Nat.add_sub_cancel_left s.now l.span
    show work (s.world.remote.replyCount + (s.now + l.span - s.now) + 2) _ _ = _
    rw [hspan]
    rfl

/-- With whatever alarms, a wait has no fewer rounds than that. -/
theorem exists_rounds (deadline : Option Work.Limit) (work : Nat → Job α) (alarms : List Alarm)
    (s : Stage (Link ClientConfig) Line) :
    ∃ rounds, withRounds deadline work alarms s = work rounds alarms s
      ∧ s.world.remote.replyCount + (deadline.map Work.Limit.span).getD 0 + 2 ≤ rounds := by
  have hlater : ∀ instant, instant ≤ alarms.foldr (fun a time => max a.time time) instant := by
    intro instant
    induction alarms with
    | nil => exact Nat.le_refl instant
    | cons a alarms ih => exact Nat.le_trans ih (Nat.le_max_right _ _)
  refine ⟨_, rfl, ?_⟩
  cases deadline with
  | none =>
    show s.world.remote.replyCount + 0 + 2 ≤ _
    omega
  | some l =>
    have hdeadline := hlater (s.now + l.span)
    show s.world.remote.replyCount + l.span + 2 ≤ _
    dsimp only
    omega

end Client

end BeaconHarness
