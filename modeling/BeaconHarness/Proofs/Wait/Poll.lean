import BeaconHarness.Proofs.Wait.Alarm
import BeaconHarness.Wait.Poll
import Mathlib.Algebra.BigOperators.Group.Finset.Basic
import Mathlib.Data.Nat.Find

/-!
# The timetable of a poll

A scripted query takes, the k-th time it is asked, a given number of ticks and comes to a given
answer. A poll of it then keeps a timetable: the k-th query starts after `k + 1` intervals and all
that the queries before it took. A query is decisive when it answers with a value or fails with
something else than the kinds named for "not yet". All lengths are in ticks: a sleep for a number of
seconds is a sleep of its ticks wherever the clock can show its end (`sleepFor_eq_sleep`).

One round of a poll either decides it or leads to the next stage of the timetable, unless an alarm
rings: in the wait, or while the query is in flight. Several rounds follow by induction. A deadline
is one alarm, so that the first decisive query and the deadline settle between them how a poll ends.

A deadline stops a sleep that ends within its leeway. Where the leeway is zero, the instants below
are the exact ones.

Main statement: a poll ends with its first decisive query if that ends before the deadline, and
otherwise at the deadline, having started the queries that were due before it (`pollUntil_ends`).
Kinds that include being called off are the exception: with them a query that is in flight at the
deadline counts as "not yet" like any other, and the poll goes on without a deadline.
-/

namespace BeaconHarness.Work

variable {α : Type}

/-! ## Scripts -/

/-- A poll to be: its interval, and for each query how many ticks it takes and what it comes to. -/
structure Script (α : Type) where
  interval : Nat
  delay : Nat → Nat
  answer : Nat → Except Failure (Option α)

/-- What a poll comes to with an answer, unless the answer means "not yet". -/
def verdict? (retryOn : List FailureKind) : Except Failure (Option α) → Option (Outcome α)
  | .ok (some a) => some (.done a)
  | .ok none => none
  | .error e => if e.isOneOf retryOn then none else some (.failed e)

section Step

variable {σ ν : Type} {wait : Work σ ν Unit} {retryOn : List FailureKind}
  {query : Work σ ν (Option α)} {alarms : List Alarm} {s t u : Stage σ ν}
  {answer : Except Failure (Option α)}

/-- A round whose wait and query nothing stops decides a poll or leads on. -/
theorem pollRounds_succ_of_ended (hwait : wait alarms s = (.done (), t))
    (hquery : query alarms t = (ended answer, u)) (rounds : Nat) :
    pollRounds wait retryOn query (rounds + 1) alarms s
      = match verdict? retryOn answer with
        | some o => (o, u)
        | none => pollRounds wait retryOn query rounds alarms u := by
  rw [pollRounds, andThen_of_done hwait, followed, hquery]
  cases answer with
  | ok found =>
    cases found with
    | none => rfl
    | some a => rfl
  | error e =>
    show (if e.isOneOf retryOn then _ else fail e : Work σ ν α) alarms _ = _
    rw [verdict?]
    cases e.isOneOf retryOn with
    | false => rfl
    | true => rfl

/-- A query that nothing stops decides a retry or leads to a wait. -/
theorem retryRounds_succ_of_ended (hquery : query alarms s = (ended answer, u)) (rounds : Nat) :
    retryRounds wait retryOn query (rounds + 1) alarms s
      = match verdict? retryOn answer with
        | some o => (o, u)
        | none => (do wait; retryRounds wait retryOn query rounds) alarms u := by
  rw [retryRounds, followed, hquery]
  cases answer with
  | ok found =>
    cases found with
    | none => rfl
    | some a => rfl
  | error e =>
    show (if e.isOneOf retryOn then _ else fail e : Work σ ν α) alarms _ = _
    rw [verdict?]
    cases e.isOneOf retryOn with
    | false => rfl
    | true => rfl

end Step

namespace Script

variable (x : Script α)

/-- The wait between two queries. -/
def wait : Work Nat Nat Unit := sleep x.interval

/-- The query that goes by the script. -/
def query : Work Nat Nat (Option α) := planned fun k => do
  sleep (x.delay k)
  ofExcept (x.answer k)

/-- When the k-th query starts. -/
def start (k : Nat) : Nat := (k + 1) * x.interval + ∑ j ∈ Finset.range k, x.delay j

/-- When the k-th query ends. -/
def finish (k : Nat) : Nat := x.start k + x.delay k

/-- The m-th query is the first decisive one, and the poll comes to `o` with it. -/
structure FirstDecisive (retryOn : List FailureKind) (m : Nat) (o : Outcome α) : Prop where
  decides : verdict? retryOn (x.answer m) = some o
  earlier : ∀ k < m, verdict? retryOn (x.answer k) = none

/-- Where a poll stands that has asked `n` queries to their end. -/
def stageAfter : (n : Nat) → Stage Nat Nat
  | 0 => { world := 0 }
  | n + 1 =>
    { now := x.finish n
      world := n + 1
      journal := .woke (x.finish n) :: .note (x.start n) :: .woke (x.start n)
        :: (stageAfter n).journal }

/-! ## The timetable -/

theorem start_zero : x.start 0 = x.interval := by simp [start]

theorem start_succ (k : Nat) : x.start (k + 1) = x.finish k + x.interval := by
  rw [finish, start, start, Finset.sum_range_succ, Nat.succ_mul]
  omega

theorem stageAfter_now_add (n : Nat) : (x.stageAfter n).now + x.interval = x.start n := by
  cases n with
  | zero =>
    rw [start_zero]
    exact Nat.zero_add _
  | succ n => exact (x.start_succ n).symm

theorem stageAfter_world (n : Nat) : (x.stageAfter n).world = n := by
  cases n <;> rfl

theorem start_le_finish (k : Nat) : x.start k ≤ x.finish k := Nat.le_add_right _ _

theorem finish_le_start {j k : Nat} (h : j < k) : x.finish j ≤ x.start k := by
  induction k with
  | zero => omega
  | succ k ih =>
    have hsucc := x.start_succ k
    have hself := x.start_le_finish k
    by_cases hjk : j = k
    · subst hjk
      omega
    · have := ih (by omega)
      omega

theorem start_mono {j k : Nat} (h : j ≤ k) : x.start j ≤ x.start k := by
  rcases Nat.eq_or_lt_of_le h with rfl | hlt
  · exact Nat.le_refl _
  · exact Nat.le_trans (x.start_le_finish j) (x.finish_le_start hlt)

theorem finish_mono {j k : Nat} (h : j ≤ k) : x.finish j ≤ x.finish k := by
  rcases Nat.eq_or_lt_of_le h with rfl | hlt
  · exact Nat.le_refl _
  · exact Nat.le_trans (x.finish_le_start hlt) (x.start_le_finish k)

theorem lt_start (hinterval : 0 < x.interval) (k : Nat) : k < x.start k := by
  have : k + 1 ≤ (k + 1) * x.interval := Nat.le_mul_of_pos_right _ hinterval
  rw [start]
  omega

/-- The notes of a poll are the instants at which its queries started. -/
theorem notes_stageAfter (n : Nat) :
    (x.stageAfter n).journal.notes.reverse = (List.range n).map x.start := by
  induction n with
  | zero => rfl
  | succ n ih =>
    have hnotes : (x.stageAfter (n + 1)).journal.notes
        = x.start n :: (x.stageAfter n).journal.notes := rfl
    rw [hnotes, List.reverse_cons, ih, List.range_succ, List.map_append]
    rfl

/-! ## One round -/

section Round

variable {alarms : List Alarm} {retryOn : List FailureKind}

/-- A query is counted and noted, takes its time and then answers. -/
theorem query_eq (s : Stage Nat Nat) :
    x.query alarms s
      = andThen (sleep (x.delay s.world)) (fun _ => ofExcept (x.answer s.world)) alarms
        { s with world := s.world + 1, journal := .note s.now :: s.journal } := rfl

theorem query_of_lt {s : Stage Nat Nat}
    (h : ringsBy alarms (s.now + x.delay s.world) = false) :
    x.query alarms s = ofExcept (x.answer s.world) alarms
      { now := s.now + x.delay s.world
        world := s.world + 1
        journal := .woke (s.now + x.delay s.world) :: .note s.now :: s.journal } := by
  have hsleep := sleep_of_lt
    (s := { s with world := s.world + 1, journal := .note s.now :: s.journal }) h
  rw [query_eq, andThen, hsleep]

/-- A query that an alarm stops has started. -/
theorem query_of_rings {s : Stage Nat Nat} (hnow : ∀ a ∈ alarms, s.now ≤ a.time)
    (h : ringsBy alarms (s.now + x.delay s.world) = true) :
    ∃ stop, StopsAt alarms stop ∧ x.query alarms s = (.interrupted,
      { now := stop
        world := s.world + 1
        journal := .woke (s.now + x.delay s.world) :: .note s.now :: s.journal }) := by
  obtain ⟨stop, hstop, hsleep⟩ := sleep_of_rings
    (s := { s with world := s.world + 1, journal := .note s.now :: s.journal }) hnow h
  exact ⟨stop, hstop, by rw [query_eq, andThen, hsleep]⟩

/-- Where a poll stands that has waited for its n-th query. -/
def stageBefore (n : Nat) : Stage Nat Nat :=
  { now := x.start n
    world := n
    journal := .woke (x.start n) :: (x.stageAfter n).journal }

theorem wait_of_lt {n : Nat} (h : ringsBy alarms (x.start n) = false) :
    x.wait alarms (x.stageAfter n) = (.done (), x.stageBefore n) := by
  have hstart := x.stageAfter_now_add n
  rw [← hstart] at h
  rw [wait, sleep_of_lt h, stageBefore, hstart, stageAfter_world]

/-- A round that no alarm stops decides the poll or leads on to the next query. -/
theorem pollRounds_step {n : Nat} (h : ringsBy alarms (x.finish n) = false) (rounds : Nat) :
    pollRounds x.wait retryOn x.query (rounds + 1) alarms (x.stageAfter n)
      = match verdict? retryOn (x.answer n) with
        | some o => (o, x.stageAfter (n + 1))
        | none => pollRounds x.wait retryOn x.query rounds alarms (x.stageAfter (n + 1)) := by
  have hwait := x.wait_of_lt (not_ringsBy_of_le (x.start_le_finish n) h)
  have hquery : x.query alarms (x.stageBefore n)
      = ofExcept (x.answer n) alarms (x.stageAfter (n + 1)) := x.query_of_lt h
  rw [ofExcept_eq] at hquery
  exact pollRounds_succ_of_ended hwait hquery rounds

/-- An alarm that rings in the wait for a query ends the poll before the query is asked. -/
theorem pollRounds_stopped_waiting {n : Nat} (hnow : ∀ a ∈ alarms, (x.stageAfter n).now ≤ a.time)
    (hstart : ringsBy alarms (x.start n) = true) (rounds : Nat) :
    ∃ stop, StopsAt alarms stop
      ∧ pollRounds x.wait retryOn x.query (rounds + 1) alarms (x.stageAfter n)
        = (.interrupted, { x.stageBefore n with now := stop }) := by
  have hwake := x.stageAfter_now_add n
  rw [← hwake] at hstart
  obtain ⟨stop, hstop, hsleep⟩ := sleep_of_rings hnow hstart
  rw [hwake, stageAfter_world] at hsleep
  refine ⟨stop, hstop, ?_⟩
  rw [pollRounds, wait, andThen_of_interrupted hsleep]
  rfl

/-- An alarm that rings while a query is in flight calls the query off. It ends the poll, unless
that counts as "not yet": then the poll goes on with the alarms that are still to come. -/
theorem pollRounds_stopped_asking {n : Nat} (hstart : ringsBy alarms (x.start n) = false)
    (hfinish : ringsBy alarms (x.finish n) = true) (rounds : Nat) :
    ∃ stop, StopsAt alarms stop
      ∧ pollRounds x.wait retryOn x.query (rounds + 1) alarms (x.stageAfter n)
        = if absorbs retryOn then
            pollRounds x.wait retryOn x.query rounds
              (alarms.filter fun a => !a.ringsBy stop)
              { x.stageAfter (n + 1) with now := stop }
          else (.interrupted, { x.stageAfter (n + 1) with now := stop }) := by
  obtain ⟨stop, hstop, hquery⟩ := x.query_of_rings
    (s := x.stageBefore n) (le_time_of_not_ringsBy hstart) hfinish
  refine ⟨stop, hstop, ?_⟩
  rw [pollRounds, andThen_of_done (x.wait_of_lt hstart), followed, hquery]
  cases habsorbs : absorbs retryOn with
  | false => rfl
  | true =>
    show (if Failure.cancelled.isOneOf retryOn then _ else _ : Work Nat Nat α) _ _ = _
    rw [absorbs] at habsorbs
    rw [if_pos habsorbs]
    rfl

end Round

/-! ## Several rounds -/

/-- Queries that no alarm stops and that decide nothing lead from one stage to a later one. -/
theorem pollRounds_run {alarms : List Alarm} {retryOn : List FailureKind} {n : Nat}
    (hquiet : ∀ k < n, ringsBy alarms (x.finish k) = false)
    (hnotYet : ∀ k < n, verdict? retryOn (x.answer k) = none) (rounds : Nat) :
    pollRounds x.wait retryOn x.query (n + rounds) alarms (x.stageAfter 0)
      = pollRounds x.wait retryOn x.query rounds alarms (x.stageAfter n) := by
  induction n generalizing rounds with
  | zero => rw [Nat.zero_add]
  | succ n ih =>
    have hrun := ih (fun k hk => hquiet k (by omega)) (fun k hk => hnotYet k (by omega))
      (rounds + 1)
    rw [show n + 1 + rounds = n + (rounds + 1) by omega, hrun,
      x.pollRounds_step (hquiet n (by omega)), hnotYet n (by omega)]

theorem pollRounds_decided {alarms : List Alarm} {retryOn : List FailureKind} {m rounds : Nat}
    {o : Outcome α} (hm : x.FirstDecisive retryOn m o)
    (hquiet : ringsBy alarms (x.finish m) = false) (hrounds : m < rounds) :
    pollRounds x.wait retryOn x.query rounds alarms (x.stageAfter 0)
      = (o, x.stageAfter (m + 1)) := by
  have hbefore : ∀ k < m, ringsBy alarms (x.finish k) = false := fun k hk =>
    not_ringsBy_of_le (x.finish_mono (Nat.le_of_lt hk)) hquiet
  obtain ⟨spare, rfl⟩ : ∃ spare, rounds = m + (spare + 1) := ⟨rounds - m - 1, by omega⟩
  rw [x.pollRounds_run hbefore hm.earlier, x.pollRounds_step hquiet, hm.decides]

/-! ## Being called off -/

section Stopped

variable {alarms : List Alarm} {retryOn : List FailureKind}

/-- Being called off is of the kinds that include it and of no others. -/
theorem absorbs_iff : absorbs retryOn = true ↔ .cancelled ∈ retryOn ∨ .anything ∈ retryOn := by
  have hkind : ∀ k, FailureKind.cancelled.isA k = true ↔ k = .cancelled ∨ k = .anything := by
    intro k
    have : FailureKind.cancelled.ancestors = [.cancelled, .anything] := rfl
    simp [FailureKind.isA, this]
  rw [absorbs, Failure.isOneOf, List.any_eq_true]
  constructor
  · rintro ⟨k, hk, hisA⟩
    rcases (hkind k).mp hisA with rfl | rfl
    · exact .inl hk
    · exact .inr hk
  · rintro (hk | hk)
    · exact ⟨_, hk, (hkind _).mpr (.inl rfl)⟩
    · exact ⟨_, hk, (hkind _).mpr (.inr rfl)⟩

/-- A query that ends before the alarms decides nothing if no first decisive one does. -/
theorem notYet_of_quiet
    (hundecided : ∀ m o, x.FirstDecisive retryOn m o → ringsBy alarms (x.finish m) = true)
    {k : Nat} (hk : ringsBy alarms (x.finish k) = false) :
    verdict? retryOn (x.answer k) = none := by
  by_contra hdecides
  have hsome : ∃ m, verdict? retryOn (x.answer m) ≠ none := ⟨k, hdecides⟩
  obtain ⟨o, ho⟩ := Option.ne_none_iff_exists'.mp (Nat.find_spec hsome)
  have hfirst : x.FirstDecisive retryOn (Nat.find hsome) o :=
    ⟨ho, fun j hj => not_not.mp (Nat.find_min hsome hj)⟩
  have hrings := ringsBy_of_le (x.finish_mono (Nat.find_min' hsome hdecides))
    (hundecided _ _ hfirst)
  rw [hk] at hrings
  exact nomatch hrings

/-- A poll that nothing decides before the alarms is stopped by them, in a wait or in a query that
is in flight, and has started the `n` queries that were due. -/
theorem pollRounds_overdue {n : Nat} (hdue : ∀ k, k < n ↔ ringsBy alarms (x.start k) = false)
    (hundecided : ∀ m o, x.FirstDecisive retryOn m o → ringsBy alarms (x.finish m) = true)
    (hflight : absorbs retryOn = false
      ∨ ∀ k, ringsBy alarms (x.start k) = false → ringsBy alarms (x.finish k) = false)
    {rounds : Nat} (hrounds : n < rounds) :
    ∃ t, pollRounds x.wait retryOn x.query rounds alarms (x.stageAfter 0) = (.interrupted, t)
      ∧ StopsAt alarms t.now
      ∧ t.journal.notes.reverse = (List.range n).map x.start := by
  by_cases hended : ∀ k < n, ringsBy alarms (x.finish k) = false
  · -- All queries that are due have ended: the alarms ring in the next wait.
    have hlate : ringsBy alarms (x.start n) = true := by
      rw [← Bool.not_eq_false, ← hdue n]
      exact Nat.lt_irrefl n
    have hnow : ∀ a ∈ alarms, (x.stageAfter n).now ≤ a.time := by
      cases n with
      | zero => exact fun a _ => Nat.zero_le a.time
      | succ n => exact le_time_of_not_ringsBy (hended n (Nat.lt_succ_self n))
    obtain ⟨spare, rfl⟩ : ∃ spare, rounds = n + (spare + 1) := ⟨rounds - n - 1, by omega⟩
    obtain ⟨stop, hstop, hrun⟩ := x.pollRounds_stopped_waiting hnow hlate spare
    rw [x.pollRounds_run hended fun k hk => x.notYet_of_quiet hundecided (hended k hk)]
    exact ⟨_, hrun, hstop, x.notes_stageAfter n⟩
  · -- The last query that is due is still in flight.
    obtain ⟨k, hk, hflying⟩ : ∃ k < n, ringsBy alarms (x.finish k) = true := by
      simpa only [not_forall, Bool.not_eq_false, exists_prop] using hended
    have hstart := (hdue k).mp hk
    have hlast : n = k + 1 := by
      by_contra hne
      have hnext := (hdue (k + 1)).mp (by omega)
      have hrings := ringsBy_of_le (x.finish_le_start (Nat.lt_succ_self k)) hflying
      rw [hnext] at hrings
      exact nomatch hrings
    subst hlast
    have hkept : absorbs retryOn = false := by
      rcases hflight with hkept | hnone
      · exact hkept
      · have hquiet := hnone k hstart
        rw [hflying] at hquiet
        exact nomatch hquiet
    have hbefore : ∀ j < k, ringsBy alarms (x.finish j) = false := fun j hj =>
      not_ringsBy_of_le (x.finish_le_start hj) hstart
    obtain ⟨spare, rfl⟩ : ∃ spare, rounds = k + (spare + 1) := ⟨rounds - k - 1, by omega⟩
    obtain ⟨stop, hstop, hrun⟩ := x.pollRounds_stopped_asking hstart hflying spare
    rw [hkept] at hrun
    rw [x.pollRounds_run hbefore fun j hj => x.notYet_of_quiet hundecided (hbefore j hj)]
    exact ⟨_, hrun, hstop, x.notes_stageAfter (k + 1)⟩

/-- How many queries are due before a deadline. -/
theorem exists_due (hinterval : 0 < x.interval) (l : Limit) :
    ∃ n ≤ l.span, ∀ k, k < n ↔ x.start k + l.leeway < l.span := by
  have hbeyond := x.lt_start hinterval l.span
  have hlate : ∃ k, l.span ≤ x.start k + l.leeway := ⟨l.span, by omega⟩
  refine ⟨Nat.find hlate, Nat.find_min' hlate (by omega), fun k => ?_⟩
  constructor
  · intro hk
    exact Nat.lt_of_not_le (Nat.find_min hlate hk)
  · intro hk
    by_contra hge
    have hmono := x.start_mono (Nat.le_of_not_lt hge)
    have hfind := Nat.find_spec hlate
    omega

end Stopped

/-! ## How a poll ends -/

theorem verdict?_ne_interrupted {retryOn : List FailureKind} {answer : Except Failure (Option α)}
    {o : Outcome α} (h : verdict? retryOn answer = some o) : o ≠ .interrupted := by
  rintro rfl
  unfold verdict? at h
  split at h
  · cases h
  · cases h
  · split at h
    · cases h
    · cases h

/-- A poll of a script ends with the first decisive query if that ends before the deadline, with
its value or its very failure. Otherwise it ends at the deadline, with what it waited for and the
length as given, and has started the queries that were due before. It takes for granted that being
called off is not among the kinds that mean "not yet", or that no query is in flight at the
deadline. -/
theorem pollUntil_ends (hinterval : 0 < x.interval) (limit : Option Limit) (what : String)
    (retryOn : List FailureKind) :
    (∀ m o, x.FirstDecisive retryOn m o →
      (∀ l ∈ limit, x.finish m + l.leeway < l.span) →
      ∀ rounds > m, ∃ t,
        pollUntil rounds x.wait limit what retryOn x.query [] { world := 0 } = (o, t)
        ∧ t.now = x.finish m
        ∧ t.journal.notes.reverse = (List.range (m + 1)).map x.start)
    ∧ (∀ l ∈ limit,
      (∀ m o, x.FirstDecisive retryOn m o → l.span ≤ x.finish m + l.leeway) →
      ((.cancelled ∉ retryOn ∧ .anything ∉ retryOn)
        ∨ ∀ k, ¬ (x.start k + l.leeway < l.span ∧ l.span ≤ x.finish k + l.leeway)) →
      ∀ rounds > l.span, ∃ t n,
        pollUntil rounds x.wait limit what retryOn x.query [] { world := 0 }
          = (.failed (.pollTimeout what l.shown), t)
        ∧ (t.now ≤ l.span ∧ l.span ≤ t.now + l.leeway)
        ∧ t.journal.notes.reverse = (List.range n).map x.start
        ∧ ∀ k, k < n ↔ x.start k + l.leeway < l.span) := by
  constructor
  · intro m o hm hlimit rounds hrounds
    refine ⟨x.stageAfter (m + 1), ?_, rfl, x.notes_stageAfter (m + 1)⟩
    have hquiet : ringsBy (deadlineAlarms limit 0) (x.finish m) = false :=
      ringsBy_deadlineAlarms.mpr fun l hl => by
        have := hlimit l hl
        omega
    exact within_of_quiet (verdict?_ne_interrupted hm.decides) hquiet
      (x.pollRounds_decided hm hquiet hrounds)
  · intro l hl hundecided hkinds rounds hrounds
    have hrings : ∀ t, ringsBy [l.alarm 0] t = true ↔ l.span ≤ t + l.leeway := by
      intro t
      rw [ringsBy_alarm, decide_eq_true_eq, Nat.zero_add]
    have hquiet : ∀ t, ringsBy [l.alarm 0] t = false ↔ t + l.leeway < l.span := by
      intro t
      rw [← Bool.not_eq_true, hrings, Nat.not_le]
    have hflight : absorbs retryOn = false
        ∨ ∀ k, ringsBy [l.alarm 0] (x.start k) = false
          → ringsBy [l.alarm 0] (x.finish k) = false := by
      rcases hkinds with ⟨hcancelled, hanything⟩ | hnone
      · left
        rw [← Bool.not_eq_true, absorbs_iff]
        rintro (h | h)
        · exact hcancelled h
        · exact hanything h
      · right
        intro k hk
        rw [hquiet] at hk ⊢
        by_contra hge
        exact hnone k ⟨hk, Nat.le_of_not_lt hge⟩
    obtain ⟨n, hn, hdue⟩ := x.exists_due hinterval l
    obtain ⟨t, hrun, hstops, hnotes⟩ := x.pollRounds_overdue
      (fun k => (hdue k).trans (hquiet _).symm)
      (fun m o hm => (hrings _).mpr (hundecided m o hm)) hflight (by omega : n < rounds)
    have hnow := stopsAt_alarm_iff.mp hstops
    rw [Nat.zero_add] at hnow
    obtain rfl : limit = some l := hl
    exact ⟨t, n, within_of_interrupted hrun, hnow, hnotes, hdue⟩

/-- A query that answers only its first caller at once, and its second one that time is up. -/
def secondFails : Script Nat where
  interval := 2
  delay k := k
  answer k := if k = 1 then .error .timedOut else .ok none

/-- The second query of `secondFails` ends after five ticks: a longer deadline lets its own failure
through, and one that falls on that very instant goes first. -/
theorem pollUntil_ends_secondFails :
    0 < secondFails.interval
    ∧ (∃ t, pollUntil 2 secondFails.wait (some ⟨6, "6", 0⟩) "head" [] secondFails.query []
          { world := 0 } = (.failed .timedOut, t)
        ∧ t.now = 5 ∧ t.journal.notes.reverse = [2, 4])
    ∧ ∃ t n, pollUntil 6 secondFails.wait (some ⟨5, "5", 0⟩) "head" [] secondFails.query []
          { world := 0 } = (.failed (.pollTimeout "head" "5"), t)
        ∧ (t.now ≤ 5 ∧ 5 ≤ t.now)
        ∧ t.journal.notes.reverse = (List.range n).map secondFails.start
        ∧ ∀ k, k < n ↔ secondFails.start k < 5 := by
  have hfirst : secondFails.FirstDecisive [] 1 (.failed .timedOut) :=
    ⟨rfl, fun k hk => by
      obtain rfl : k = 0 := by omega
      rfl⟩
  have honly : ∀ m o, secondFails.FirstDecisive [] m o → 5 ≤ secondFails.finish m := by
    intro m o hm
    rcases Nat.lt_trichotomy m 1 with hlt | rfl | hgt
    · obtain rfl : m = 0 := by omega
      exact nomatch hm.decides
    · decide
    · exact nomatch hfirst.decides.symm.trans (hm.earlier 1 hgt)
  refine ⟨by decide, ?_, ?_⟩
  · obtain ⟨hends, -⟩ := secondFails.pollUntil_ends (by decide) (some ⟨6, "6", 0⟩) "head" []
    exact hends 1 _ hfirst (fun l hl => by cases hl; decide) 2 (by decide)
  · obtain ⟨-, hoverdue⟩ := secondFails.pollUntil_ends (by decide) (some ⟨5, "5", 0⟩) "head" []
    exact hoverdue _ rfl honly (.inl ⟨by decide, by decide⟩) 6 (by decide)

/-- A query that takes five ticks the first time and has nothing to say, and answers at once when
it is asked again. -/
def slowAtFirst : Script Nat where
  interval := 1
  delay k := if k = 0 then 5 else 0
  answer k := if k = 0 then .ok none else .ok (some 7)

/-- A poll that takes being called off for "not yet" survives its deadline: the first query of
`slowAtFirst` is in flight after three ticks, and yet the second one is asked and answers. -/
theorem pollUntil_survives_slowAtFirst :
    slowAtFirst.FirstDecisive [.cancelled] 1 (.done 7) ∧ 3 ≤ slowAtFirst.finish 1
    ∧ ∃ t, pollUntil 4 slowAtFirst.wait (some ⟨3, "3", 0⟩) "condition" [.cancelled]
          slowAtFirst.query [] { world := 0 } = (.done 7, t)
        ∧ t.now = 4 ∧ t.journal.notes.reverse = [1, 4] := by
  refine ⟨⟨rfl, fun k hk => ?_⟩, by decide, _, rfl, rfl, rfl⟩
  obtain rfl : k = 0 := by omega
  rfl

end Script

end BeaconHarness.Work
