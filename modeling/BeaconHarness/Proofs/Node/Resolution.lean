import BeaconHarness.Proofs.Node.Exchange
import BeaconHarness.Proofs.Node.Init
import BeaconHarness.Proofs.Wait.Deadline
import BeaconHarness.Proofs.Wait.Retry

/-!
# Fetching one part

What a client does not know of its network it fetches in parts. To fetch a part it asks one route
again and again, and takes the first answer over. Requests on other routes make no difference to
that, and neither does a deadline that is still to come when the part has been fetched. A part that
would never be fetched is still being asked for at any instant that the clock can reach.

Main statements: `Fetches.heeds`, `Fetches.rings_of_unsettled` and `Fetches.alone`, for both parts
(`fetches_spec`, `fetches_genesis`).
-/

namespace BeaconHarness.Client

open Node (Link Line Remote Reply Route Genesis)
open Node.Endpoint (After Asks specPath genesisPath specOf genesisOf)
open Work (Heeds MovesBefore Plain Recurs elapse ended retryRounds ringsBy sleepFor verdict?)

variable {c : Client} {α : Type}

/-! ## Attempts -/

/-- Asks again and again, and goes on with the answer. -/
def fetch (c : Client) (query : Job (Option α)) (next : α → Job Unit) : Job Unit := do
  let a ← withRounds none fun rounds =>
    Work.retryUntilReady rounds (sleepFor c.settings.initPollInterval) transientKinds query
  next a

/-- Asks a number of times, and goes on with the answer. -/
def attempts (c : Client) (query : Job (Option α)) (next : α → Job Unit) (rounds : Nat) :
    Job Unit :=
  retryRounds (sleepFor c.settings.initPollInterval) transientKinds query rounds >>= next

section Attempts

variable {query : Job (Option α)} {next : α → Job Unit} {s : Stage (Link ClientConfig) Line}

theorem fetch_eq (alarms : List Alarm) :
    c.fetch query next alarms s = c.attempts query next (s.world.remote.replyCount
      + (alarms.foldr (fun a time => max a.time time) 0 - s.now) + 2) alarms s := rfl

/-- Without alarms there is one attempt for each reply, and two for the ends. -/
theorem fetch_free :
    c.fetch query next [] s = c.attempts query next (s.world.remote.replyCount + 2) [] s := by
  have hnone : [].foldr (fun (a : Alarm) time => max a.time time) 0 - s.now = 0 :=
    Nat.zero_sub s.now
  rw [fetch_eq, hnone, Nat.add_zero]

/-- A deadline leaves time for one more attempt per tick. -/
theorem fetch_under (l : Work.Limit) :
    c.fetch query next [l.alarm s.now] s
      = c.attempts query next (s.world.remote.replyCount + l.span + 2) [l.alarm s.now] s := by
  have hspan : [l.alarm s.now].foldr (fun a time => max a.time time) 0 - s.now = l.span := by
    show max (s.now + l.span) 0 - s.now = l.span
    omega
  rw [fetch_eq, hspan]

/-- Attempts that are settled are not changed by more of them. -/
theorem attempts_of_le {few many : Nat} (hle : few ≤ many)
    (h : (c.attempts query next few [] s).1 ≠ .unsettled) :
    c.attempts query next many [] s = c.attempts query next few [] s := by
  have hretry : (retryRounds (sleepFor c.settings.initPollInterval) transientKinds query few [] s).1
      ≠ .unsettled := by
    intro hopen
    refine h ?_
    rcases hrun : retryRounds (sleepFor c.settings.initPollInterval) transientKinds query few [] s
      with ⟨o, t⟩
    rw [hrun] at hopen
    obtain rfl : o = .unsettled := hopen
    rw [attempts, Work.andThen_of_unsettled hrun]
  show Work.andThen _ next [] s = Work.andThen _ next [] s
  rw [Work.andThen, Work.andThen, Work.retryRounds_of_le hle hretry]

end Attempts

/-! ## Requests on other routes -/

/-- Stages of a client that are alike for requests on a route. -/
structure Alike (route : Route) (s t : Stage (Link ClientConfig) Line) : Prop where
  now : t.now = s.now
  routes : t.world.remote.routes = s.world.remote.routes
  due : t.world.remote.asked.count route = s.world.remote.asked.count route
  clientIndex : t.world.own.clientIndex = s.world.own.clientIndex

section Alike

variable {route : Route} {s t : Stage (Link ClientConfig) Line}

theorem Alike.replyTo (h : Alike route s t) :
    t.world.remote.replyTo route = s.world.remote.replyTo route := by
  simp only [Remote.replyTo, h.routes, h.due]

theorem Alike.replyCount (h : Alike route s t) :
    t.world.remote.replyCount = s.world.remote.replyCount := by
  simp only [Remote.replyCount, h.routes]

/-- Stages that are alike stay so when the same request is made from both. -/
theorem Alike.after (h : Alike route s t) {s' t' : Stage (Link ClientConfig) Line} {now : Nat}
    (hs : After s s' [route] now) (ht : After t t' [route] now) : Alike route s' t' where
  now := ht.now.trans hs.now.symm
  routes := by
    rw [ht.remote, hs.remote]
    exact h.routes
  due := by
    rw [ht.remote, hs.remote]
    show ([route] ++ _).count route = ([route] ++ _).count route
    rw [List.count_append, List.count_append, h.due]
  clientIndex := by
    rw [ht.own, hs.own]
    exact h.clientIndex

end Alike

/-- Work that comes to the same from stages that are alike for requests on a route, and leaves such
stages. -/
def SeesOnly (route : Route) (work : Job α) : Prop :=
  ∀ s t, Alike route s t → ∃ o s' t', work [] s = (o, s') ∧ work [] t = (o, t') ∧ Alike route s' t'

section SeesOnly

variable {β : Type} {route : Route}

theorem seesOnly_done (a : α) : SeesOnly route (Work.done a) :=
  fun s t h => ⟨_, s, t, rfl, rfl, h⟩

theorem seesOnly_fail (e : Failure) : SeesOnly route (Work.fail e : Job α) :=
  fun s t h => ⟨_, s, t, rfl, rfl, h⟩

theorem seesOnly_unsettled : SeesOnly route (Work.unsettled : Job α) :=
  fun s t h => ⟨_, s, t, rfl, rfl, h⟩

theorem seesOnly_change {f : Link ClientConfig → Link ClientConfig}
    (hremote : ∀ w, (f w).remote = w.remote)
    (hindex : ∀ w, (f w).own.clientIndex = w.own.clientIndex) :
    SeesOnly route (Work.change f) := by
  intro s t h
  refine ⟨_, _, _, rfl, rfl, h.now, ?_, ?_, ?_⟩
  · rw [hremote, hremote, h.routes]
  · rw [hremote, hremote, h.due]
  · rw [hindex, hindex, h.clientIndex]

theorem seesOnly_label (c : Client) : SeesOnly route c.label := by
  intro s t h
  have hlabel : c.label [] t = (.done (c.labelOf s.world.own), t) := by
    have hsame : c.labelOf t.world.own = c.labelOf s.world.own := by
      simp only [labelOf, h.clientIndex]
    rw [← hsame]
    rfl
  exact ⟨_, s, t, rfl, hlabel, h⟩

theorem seesOnly_sleepFor (d : Datum) : SeesOnly route (sleepFor d : Job Unit) := by
  intro s t h
  cases hspan : d.span with
  | error e =>
    exact ⟨_, s, t, (Work.sleepFor_of_error hspan s).1, (Work.sleepFor_of_error hspan t).1, h⟩
  | ok length =>
    obtain ⟨s', hs, hsnow, hsworld⟩ := Work.sleepFor_of_ok hspan s
    obtain ⟨t', ht, htnow, htworld⟩ := Work.sleepFor_of_ok hspan t
    refine ⟨_, s', t', hs, ht, ?_, ?_, ?_, ?_⟩
    · rw [htnow, hsnow, h.now]
    · rw [htworld, hsworld, h.routes]
    · rw [htworld, hsworld, h.due]
    · rw [htworld, hsworld, h.clientIndex]

theorem seesOnly_of_asks {work : Job α} {path : String} {read : Reply → Except Failure α}
    (h : Asks work c.endpoint .json path read) :
    SeesOnly (c.endpoint.route .json path) work := by
  intro s t hst
  obtain ⟨s', hs, hsafter⟩ := h s
  obtain ⟨t', ht, htafter⟩ := h t
  have hanswer : c.endpoint.exchange .json path read t.world.remote
      = c.endpoint.exchange .json path read s.world.remote := by
    simp only [Node.Endpoint.exchange, hst.replyTo]
  rw [hanswer] at ht
  rw [hst.replyTo, hst.now] at htafter
  exact ⟨_, s', t', hs, ht, hst.after hsafter htafter⟩

theorem SeesOnly.followed {work : Job α} {next : Except Failure α → Job β}
    (h : SeesOnly route work) (hnext : ∀ r, SeesOnly route (next r)) :
    SeesOnly route (Work.followed false work next) := by
  intro s t hst
  obtain ⟨o, s', t', hs, ht, hafter⟩ := h s t hst
  cases o with
  | done a =>
    rw [Work.followed_of_done hs, Work.followed_of_done ht]
    exact hnext (.ok a) s' t' hafter
  | failed e =>
    rw [Work.followed_of_failed hs, Work.followed_of_failed ht]
    exact hnext (.error e) s' t' hafter
  | interrupted =>
    exact ⟨_, s', t', Work.followed_of_interrupted hs, Work.followed_of_interrupted ht, hafter⟩
  | unsettled =>
    exact ⟨_, s', t', Work.followed_of_unsettled hs, Work.followed_of_unsettled ht, hafter⟩

theorem SeesOnly.bind {work : Job α} {next : α → Job β} (h : SeesOnly route work)
    (hnext : ∀ a, SeesOnly route (next a)) : SeesOnly route (work >>= next) := by
  rw [Work.bind_eq_followed]
  apply h.followed
  intro r
  cases r with
  | ok a => exact hnext a
  | error e => exact seesOnly_fail e

/-- Asking one route again and again sees nothing of the others. -/
theorem SeesOnly.retryRounds {retryOn : List FailureKind} {d : Datum} {query : Job (Option α)}
    (hkept : Work.absorbs retryOn = false) (hquery : SeesOnly route query) (rounds : Nat) :
    SeesOnly route (Work.retryRounds (sleepFor d) retryOn query rounds) := by
  induction rounds with
  | zero => exact seesOnly_unsettled
  | succ rounds ih =>
    rw [Work.retryRounds, hkept]
    refine hquery.followed fun answer => ?_
    split
    · exact seesOnly_done _
    · exact (seesOnly_sleepFor d).bind fun _ => ih
    · split
      · exact (seesOnly_sleepFor d).bind fun _ => ih
      · exact seesOnly_fail _

end SeesOnly

/-! ## What fetching takes for granted -/

/-- A part is fetched by asking for one path. What is done with the answer takes no time. -/
structure Fetches (c : Client) (query : Job (Option α)) (next : α → Job Unit) (path : String)
    (read : Reply → Except Failure (Option α)) : Prop where
  asks : Asks query c.endpoint .json path read
  plain : Plain query
  plainNext : ∀ a, Plain (next a)
  settled : ∀ a s, (next a [] s).1 ≠ .unsettled
  seesOnly : ∀ a, SeesOnly (c.endpoint.route .json path) (next a)

/-- Being called off is not one of the failures after which a part is asked for again. -/
theorem absorbs_transientKinds : Work.absorbs transientKinds = false := rfl

namespace Fetches

variable {query : Job (Option α)} {next : α → Job Unit} {path : String}
  {read : Reply → Except Failure (Option α)} {s t : Stage (Link ClientConfig) Line}

/-- A part is fetched as it would be if nothing else were asked for. -/
theorem alone (h : Fetches c query next path read)
    (hst : Alike (c.endpoint.route .json path) s t) :
    (c.fetch query next [] t).1 = (c.fetch query next [] s).1
    ∧ (c.fetch query next [] t).2.now = (c.fetch query next [] s).2.now := by
  rw [fetch_free, fetch_free, hst.replyCount]
  have hsees : SeesOnly (c.endpoint.route .json path)
      (c.attempts query next (s.world.remote.replyCount + 2)) :=
    (SeesOnly.retryRounds absorbs_transientKinds (seesOnly_of_asks h.asks) _).bind h.seesOnly
  obtain ⟨o, s', t', hs, ht, halike⟩ := hsees s t hst
  rw [hs, ht]
  exact ⟨rfl, halike.now⟩

theorem plain_attempts (h : Fetches c query next path read) (rounds : Nat) :
    Plain (c.attempts query next rounds) :=
  .bind (.retryRounds absorbs_transientKinds (.sleepFor _) h.plain rounds) h.plainNext

/-- A deadline can only stop the fetching of a part. -/
theorem heeds (h : Fetches c query next path read) (l : Work.Limit) :
    Heeds [l.alarm s.now] (c.fetch query next) s := by
  refine ⟨c.attempts query next (s.world.remote.replyCount + l.span + 2), h.plain_attempts _,
    fetch_under l, fun hsettled => ?_⟩
  -- Attempts for the time up to the deadline come on top of those that there are anyway.
  rw [fetch_free] at hsettled ⊢
  exact (attempts_of_le (by omega) hsettled).symm

/-! ## Fetching for ever -/

/-- Where a client stands that has asked `k` times for a part, and waited each time. -/
def afterAsking (c : Client) (query : Job (Option α)) (s : Stage (Link ClientConfig) Line) :
    (k : Nat) → Stage (Link ClientConfig) Line
  | 0 => s
  | k + 1 => (sleepFor c.settings.initPollInterval [] (query [] (afterAsking c query s k)).2).2

/-- Asking uses up one reply after the other. -/
theorem afterAsking_remote (h : Fetches c query next path read) {length : Nat}
    (hspan : c.settings.initPollInterval.span = .ok length) (k : Nat) :
    (afterAsking c query s k).world.remote = { s.world.remote with
      asked := List.replicate k (c.endpoint.route .json path) ++ s.world.remote.asked } := by
  induction k with
  | zero => rfl
  | succ k ih =>
    obtain ⟨t, hasked, hafter⟩ := h.asks (afterAsking c query s k)
    obtain ⟨u, hwait, -, hworld⟩ := Work.sleepFor_of_ok hspan t
    have hnext : afterAsking c query s (k + 1) = u := by
      rw [afterAsking, hasked, hwait]
    rw [hnext, hworld, hafter.remote, ih]
    rfl

/-- Once all replies for a part have been used up, all answers mean the same. -/
theorem recurs (h : Fetches c query next path read) {length : Nat}
    (hspan : c.settings.initPollInterval.span = .ok length)
    (s : Stage (Link ClientConfig) Line) :
    Recurs c.settings.initPollInterval transientKinds query (afterAsking c query s)
      (fun k => (query [] (afterAsking c query s k)).2)
      (fun k => c.endpoint.exchange .json path read (afterAsking c query s k).world.remote)
      (s.world.remote.supply (c.endpoint.route .json path)) where
  asks k := by
    obtain ⟨t, hasked, -⟩ := h.asks (afterAsking c query s k)
    rw [hasked]
  later k := h.plain.now_le [] _
  waits k := by
    obtain ⟨u, hwait, -, -⟩ := Work.sleepFor_of_ok hspan (query [] (afterAsking c query s k)).2
    rw [afterAsking, hwait]
  elapses k := by
    obtain ⟨u, hwait, hnow, -⟩ := Work.sleepFor_of_ok hspan (query [] (afterAsking c query s k)).2
    rw [afterAsking, hwait]
    exact hnow
  verdicts k hk := by
    -- From here on it is the last reply that is due.
    have hspent : ∀ j, s.world.remote.supply (c.endpoint.route .json path) ≤ j →
        (afterAsking c query s j).world.remote.replyTo (c.endpoint.route .json path)
          = ((s.world.remote.routes.lookup (c.endpoint.route .json path)).getD []).getLastD
              .unknown := by
      intro j hj
      rw [h.afterAsking_remote hspan]
      refine Remote.replyTo_of_spent ?_
      rw [List.count_append, List.count_replicate_self]
      exact Nat.le_add_right_of_le hj
    simp only [Node.Endpoint.exchange, hspent k hk, hspent _ (Nat.le_refl _)]

/-- Only attempts that were all in vain leave a part unsettled. -/
theorem retryRounds_of_unsettled (h : Fetches c query next path read) {rounds : Nat}
    (hopen : (c.attempts query next rounds [] s).1 = .unsettled) :
    (retryRounds (sleepFor c.settings.initPollInterval) transientKinds query rounds [] s).1
      = .unsettled := by
  rcases hrun : retryRounds (sleepFor c.settings.initPollInterval) transientKinds query rounds [] s
    with ⟨o, t⟩
  rw [attempts] at hopen
  cases o with
  | done a =>
    rw [Work.andThen_of_done hrun] at hopen
    exact absurd hopen (h.settled a t)
  | failed e =>
    rw [Work.andThen_of_failed hrun] at hopen
    cases hopen
  | interrupted =>
    rw [Work.andThen_of_interrupted hrun] at hopen
    cases hopen
  | unsettled => rfl

/-- A part that would never be fetched is still being asked for at any deadline that the clock can
reach. -/
theorem rings_of_unsettled (h : Fetches c query next path read) (l : Work.Limit)
    (hmoves : MovesBefore c.settings.initPollInterval (s.now + l.span))
    (hopen : (c.fetch query next [] s).1 = .unsettled) :
    ringsBy [l.alarm s.now] (c.fetch query next [l.alarm s.now] s).2.now = true := by
  have hnow := Work.le_time_alarm l s.now
  rw [fetch_under]
  cases hstart : ringsBy [l.alarm s.now] s.now with
  | true => exact ((h.plain_attempts _).stopsAt ⟨hstart, hnow⟩).rings
  | false =>
    refine ((h.plain_attempts _).stopsAt_of_rings hnow ?_).rings
    rw [Work.ringsBy_alarm, decide_eq_false_iff_not] at hstart
    obtain ⟨length, hspan⟩ := Work.exists_span_of_lt_elapse (hmoves s.now (by omega))
    have hrecurs := h.recurs hspan s
    -- The replies are used up before the attempts are, so that the rest of them are in vain too.
    have hsupply := s.world.remote.supply_le_replyCount (c.endpoint.route .json path)
    rw [fetch_free] at hopen
    have hnever := hrecurs.endless (by omega) (h.retryRounds_of_unsettled hopen)
    have hrounds : s.now + l.span ≤ s.now + (s.world.remote.replyCount + l.span + 2) := by omega
    obtain ⟨t, hrun, hreached⟩ := hrecurs.reaches hnever hmoves hrounds
    rw [afterAsking] at hrun
    rw [attempts, Work.andThen_of_unsettled hrun, Work.ringsBy_alarm, decide_eq_true_eq]
    exact Nat.le_add_right_of_le hreached

end Fetches

/-! ## The two parts -/

/-- The query for the parameters; nothing is not an answer. -/
def specQuery (c : Client) : Job (Option Datum) := do
  let data ← c.endpoint.spec
  return if data.truthy then some data else none

/-- Takes parameters over that are of the preset in use. -/
def takeSpec (c : Client) (data : Datum) : Job Unit := do
  let spec ← Work.ofExcept (Spec.ofConfig data)
  let preset := c.endpoint.preset.name
  if !spec.presetBase.same (.str preset) then
    Work.fail (.config (.presetMismatch (← c.label) spec.presetBase.display preset))
  else Work.change fun link => { link with own := { link.own with spec := some spec } }

/-- The query for the genesis. -/
def genesisQuery (c : Client) : Job (Option Genesis) := do return some (← c.endpoint.genesis)

/-- Takes a genesis over. -/
def takeGenesis (genesis : Genesis) : Job Unit :=
  Work.change fun link => { link with own := { link.own with
    genesisTime := some (.int genesis.time)
    genesisValidatorsRoot := some genesis.validatorsRoot } }

theorem resolveSpec_eq (c : Client) : c.resolveSpec = c.fetch c.specQuery c.takeSpec := rfl

theorem resolveGenesis_eq (c : Client) :
    c.resolveGenesis = c.fetch c.genesisQuery takeGenesis := rfl

theorem fetches_spec (c : Client) :
    Fetches c c.specQuery c.takeSpec specPath fun reply =>
      specOf reply >>= fun data => .ok (if data.truthy then some data else none) where
  asks := (Node.Endpoint.asks_spec c.endpoint).bind fun _ _ => rfl
  plain := .bind (Node.Endpoint.plain_spec _) fun _ => .done _
  plainNext data := by
    refine .bind (.ofExcept _) fun spec => ?_
    dsimp only
    split
    · exact .bind (.bind (.bind .world fun _ => .done _) fun _ => .done _) fun _ => .fail _
    · exact .change _
  settled data s := by
    have hread : (Work.ofExcept (Spec.ofConfig data) : Job Spec) [] s
        = (ended (Spec.ofConfig data), s) := Work.ofExcept_eq _ s
    rw [takeSpec]
    cases hspec : Spec.ofConfig data with
    | error e =>
      rw [hspec] at hread
      rw [Work.andThen_of_failed hread]
      simp
    | ok spec =>
      rw [hspec] at hread
      rw [Work.andThen_of_done hread]
      dsimp only
      split
      · have hlabel : c.label [] s = (.done (c.labelOf s.world.own), s) := rfl
        rw [Work.andThen_of_done hlabel]
        simp [Work.fail]
      · simp [Work.change]
  seesOnly data := by
    refine SeesOnly.bind ?_ fun spec => ?_
    · cases Spec.ofConfig data with
      | error e => exact seesOnly_fail e
      | ok spec => exact seesOnly_done spec
    · dsimp only
      split
      · exact (seesOnly_label c).bind fun _ => seesOnly_fail _
      · exact seesOnly_change (fun _ => rfl) fun _ => rfl

theorem fetches_genesis (c : Client) :
    Fetches c c.genesisQuery takeGenesis genesisPath fun reply =>
      genesisOf reply >>= fun genesis => .ok (some genesis) where
  asks := (Node.Endpoint.asks_genesis c.endpoint).bind fun _ _ => rfl
  plain := .bind (Node.Endpoint.plain_genesis _) fun _ => .done _
  plainNext genesis := .change _
  settled genesis s := by simp [takeGenesis, Work.change]
  seesOnly genesis := seesOnly_change (fun _ => rfl) fun _ => rfl

end BeaconHarness.Client
