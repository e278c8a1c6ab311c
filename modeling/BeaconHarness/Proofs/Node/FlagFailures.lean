import BeaconHarness.Proofs.Node.FlagWait

/-!
# Flags that are not to be had

While a client waits for the flag of a block, the request for it may fail. A block that is not
known, any other bad status, a failure of the transport, a reply that comes too late and a body that
is not JSON, or not even text, all mean that the flag is asked for again in the next slot.

That is not so with every failure, though: one that comes in place of a reply and is of another
kind, as that of a broken connection is, ends the wait, and so does JSON that has no entries.

Main statements: what a request for a flag fails with for good (`breaks_iff`), and all the ways in
which a wait for a flag ends (`waitForOptimisticState_gets_over`).
-/

namespace BeaconHarness

open Node (Link Line Remote Route Reply HeaderInfo)
open Work (ended verdict? ringsBy)

namespace Client

open Node.Endpoint (blockPath flagOf jsonOf)

/-! ## Failures that a wait gets over -/

/-- The kinds of failures that a wait for a flag gets over: those that may pass, and bodies that
cannot be read as JSON or as text. -/
def patientKinds : List FailureKind := fleetingKinds ++ [.unreadable, .notJson, .notText]

/-- A flag is asked for again after failures of just these kinds. -/
theorem isOneOf_flagKinds_iff {f : Failure} :
    f.isOneOf flagKinds = true ↔ f.kind ∈ patientKinds := by
  rw [Failure.isOneOf]
  generalize f.kind = kind
  cases kind with
  | other name =>
    constructor
    · intro h
      cases h
    · intro h
      simp [patientKinds, fleetingKinds] at h
  | _ => decide

/-- A failure with which the request for a flag ends the wait for it, and where it comes from. -/
inductive Breaks (e : Node.Endpoint) (id : Datum) (reply : Reply) : Failure → Prop where
  /-- Nobody can wait for a time that is none. -/
  | untimed {f : Failure} (hwaited : e.waited reply = .error f) (hkind : f.kind ∉ patientKinds) :
    Breaks e id reply f
  /-- In place of a reply comes a failure that nobody has thought of. -/
  | thrown {f : Failure} (hwaited : e.waited reply = .ok ()) (hthrown : reply.failure = some f)
    (hkind : f.kind ∉ patientKinds) : Breaks e id reply f
  /-- The answer is JSON, but has no entries. -/
  | shapeless {f : Failure} {d : Datum} (hwaited : e.waited reply = .ok ())
    (hreply : reply.failure = none)
    (hfault : Node.Endpoint.Reply.fault? reply (blockPath id) = none)
    (hjson : reply.json = some d) (hentry : d.entryOr "execution_optimistic" .null = .error f) :
    Breaks e id reply f

section Breaks

variable {e : Node.Endpoint} {id : Datum} {reply : Reply} {f : Failure}

/-- A bad status and a body that is not JSON are got over. -/
theorem kind_of_jsonOf {path : String} (h : jsonOf path reply = .error f) :
    f.kind ∈ patientKinds := by
  rcases Node.Endpoint.jsonOf_eq_error h with hfault | rfl
  · cases Node.Endpoint.kind_of_fault hfault with
    | missing _ hkind | told _ _ hkind | untold _ _ hkind =>
      rw [hkind]
      decide
  · decide

/-- Data without entries are of the wrong kind, or do not know what an entry is. -/
theorem kind_of_entryOr {d otherwise : Datum} {key : String}
    (h : d.entryOr key otherwise = .error f) : f.kind ∉ patientKinds := by
  have hcases : f = .wrongKind ∨ f = .noProperty := by
    rw [Datum.entryOr.eq_def] at h
    split at h
    · cases h
    · exact .inl (Except.error.inj h).symm
    · exact .inl (Except.error.inj h).symm
    · exact .inr (Except.error.inj h).symm
  rcases hcases with rfl | rfl
  · decide
  · decide

theorem flagOf_eq_error_iff :
    flagOf id reply = .error f ↔ jsonOf (blockPath id) reply = .error f
      ∨ ∃ d, jsonOf (blockPath id) reply = .ok d
        ∧ d.entryOr "execution_optimistic" .null = .error f := by
  rw [flagOf]
  cases jsonOf (blockPath id) reply with
  | error g => simp [bind, Except.bind]
  | ok d =>
    cases hentry : d.entryOr "execution_optimistic" .null with
    | error g => simp [bind, Except.bind, hentry]
    | ok flag =>
      -- A flag that is there is read, whatever it is.
      cases flag <;> simp [bind, Except.bind, hentry]

/-- What ends a wait is a time that is none, a failure that nobody has thought of, or JSON without
entries. -/
theorem breaks_iff :
    (e.received reply >>= flagOf id) = .error f ∧ f.kind ∉ patientKinds ↔ Breaks e id reply f := by
  constructor
  · rintro ⟨h, hkind⟩
    cases hreceived : e.received reply with
    | error g =>
      rw [hreceived] at h
      obtain rfl : g = f := Except.error.inj (α := Option Bool) h
      rcases Node.Endpoint.received_eq_error_iff.mp hreceived with hwaited | ⟨hwaited, hthrown⟩
      · exact .untimed hwaited hkind
      · exact .thrown hwaited hthrown hkind
    | ok r =>
      obtain ⟨hwaited, hreply, rfl⟩ := Node.Endpoint.received_eq_ok_iff.mp hreceived
      rw [hreceived] at h
      rcases flagOf_eq_error_iff.mp h with hjson | ⟨d, hjson, hentry⟩
      · exact absurd (kind_of_jsonOf hjson) hkind
      · obtain ⟨hfault, hjson⟩ := Node.Endpoint.jsonOf_eq_ok_iff.mp hjson
        exact .shapeless hwaited hreply hfault hjson hentry
  · intro h
    cases h with
    | untimed hwaited hkind =>
      rw [Node.Endpoint.received_eq_error_iff.mpr (.inl hwaited)]
      exact ⟨rfl, hkind⟩
    | thrown hwaited hthrown hkind =>
      rw [Node.Endpoint.received_eq_error_iff.mpr (.inr ⟨hwaited, hthrown⟩)]
      exact ⟨rfl, hkind⟩
    | shapeless hwaited hreply hfault hjson hentry =>
      rw [Node.Endpoint.received_eq_ok_iff.mpr ⟨hwaited, hreply, rfl⟩]
      have hanswer := Node.Endpoint.jsonOf_eq_ok_iff.mpr ⟨hfault, hjson⟩
      exact ⟨flagOf_eq_error_iff.mpr (.inr ⟨_, hanswer, hentry⟩), kind_of_entryOr hentry⟩

/-- A tick at which the request for the flag fails is passed over if the failure can be got over. -/
theorem passes_of_error_iff {c : Client} {wanted : Bool} {r : Remote}
    (h : c.flagAt id r = .error f) : c.Passes id wanted r ↔ f.kind ∈ patientKinds := by
  rw [← isOneOf_flagKinds_iff, Passes, h]
  constructor
  · rintro (⟨flag, hserved, -⟩ | ⟨g, hfailed, hkind⟩)
    · cases hserved
    · rwa [Except.error.inj hfailed]
  · intro hkind
    exact .inr ⟨f, rfl, hkind⟩

end Breaks

section Ticks

variable {c : Client} {id : Datum} {wanted : Bool} {r : Remote} {e : Failure}

theorem flagAt_breaks_iff :
    c.flagAt id r = .error e ∧ e.kind ∉ patientKinds
      ↔ Breaks c.endpoint id (r.replyTo (c.flagRoute id)) e :=
  breaks_iff

/-- A failure that breaks a wait is what its tick comes to. -/
theorem verdict?_of_breaks (h : Breaks c.endpoint id (r.replyTo (c.flagRoute id)) e) :
    verdict? [] (c.glance id wanted r).answer = some (.failed e) := by
  obtain ⟨hfailed, hkind⟩ := flagAt_breaks_iff.mpr h
  rw [glance_of_error hfailed, Bool.eq_false_iff.mpr (mt isOneOf_flagKinds_iff.mp hkind)]
  rfl

/-- A tick that decides something meets the wanted flag, or breaks the wait. -/
theorem meets_or_breaks {o : Outcome HeaderInfo}
    (h : verdict? [] (c.glance id wanted r).answer = some o) :
    c.Meets id wanted r ∧ o = ended (c.headerAt id r)
      ∨ ∃ e, Breaks c.endpoint id (r.replyTo (c.flagRoute id)) e ∧ o = .failed e := by
  rcases passes_or_meets_or_fails c id wanted r with hpass | hmeets | ⟨e, hfailed, hkind⟩
  · rw [undecided_iff_passes.mpr hpass] at h
    cases h
  · rw [glance_of_meets hmeets, verdict?_map_some] at h
    exact .inl ⟨hmeets, (Option.some.inj h).symm⟩
  · have hbreak := flagAt_breaks_iff.mp
      ⟨hfailed, mt isOneOf_flagKinds_iff.mpr (Bool.eq_false_iff.mp hkind)⟩
    rw [verdict?_of_breaks hbreak] at h
    exact .inr ⟨e, hbreak, (Option.some.inj h).symm⟩

end Ticks

/-! ## All ways to end -/

/-- After every failure of the request for a flag that is no reason to give up, and after every flag
of the other value, a client asks again in the next slot, for the flag alone. So a wait for a flag
ends when it is called off, at its deadline, or with the request for the header once the flag is the
wanted one.

Nearly so: it also ends with a failure that breaks it, at the tick at which that comes, unless
alarms or the deadline stop it before. With none of this it never ends. -/
theorem waitForOptimisticState_gets_over (c : Client) (id : Datum) (wanted : Bool) (limit : Datum)
    (alarms : List Alarm) (s : Stage (Link ClientConfig) Line) {spec : Spec} {length : Nat}
    {deadline : Option Work.Limit} (hspec : s.world.own.spec = some spec)
    (hslots : spec.secondsPerSlot.span = .ok length) (hlimit : limit.limit = .ok deadline) :
    let query := c.checkFlag id (.bool wanted)
    let u := Node.afterTicks spec.secondsPerSlot query (c.announcedFlag s)
    let reply := fun k => (u k).world.remote.replyTo (c.flagRoute id)
    let Passes := fun k => c.Passes id wanted (u k).world.remote
    let Meets := fun k => c.Meets id wanted (u k).world.remote
    (∀ k e, c.flagAt id (u k).world.remote = .error e →
      (Passes k ↔ e.kind ∈ patientKinds)
        ∧ (e.kind ∉ patientKinds ↔ Breaks c.endpoint id (reply k) e))
    ∧ (∀ k, Passes k → Node.tick spec.secondsPerSlot query [] (u k) = (.done none, u (k + 1))
      ∧ (u (k + 1)).world.remote
        = { (u k).world.remote with asked := c.flagRoute id :: (u k).world.remote.asked })
    ∧ (∀ m e, (∀ k < m, Passes k) → Breaks c.endpoint id (reply m) e →
      (∀ l ∈ deadline, (u (m + 1)).now + l.leeway < s.now + l.span) →
      ringsBy alarms (u (m + 1)).now = false →
      c.waitForOptimisticState id (.bool wanted) limit alarms s = (.failed e, u (m + 1)))
    ∧ ∀ o t, c.waitForOptimisticState id (.bool wanted) limit alarms s = (o, t) →
      o = .interrupted ∧ ringsBy alarms t.now = true
      ∨ (∃ l ∈ deadline, o = .failed (.pollTimeout (c.flagTitle id wanted s.world.own) l.shown)
        ∧ t.now ≤ s.now + l.span ∧ s.now + l.span ≤ t.now + l.leeway)
      ∨ (∃ m, (∀ k < m, Passes k) ∧ Meets m ∧ o = ended (c.headerAt id (u m).world.remote)
        ∧ t = u (m + 1))
      ∨ (∃ m e, (∀ k < m, Passes k) ∧ Breaks c.endpoint id (reply m) e ∧ o = .failed e
        ∧ t = u (m + 1))
      ∨ o = .unsettled ∧ ∀ k, Passes k := by
  intro query u reply Passes Meets
  have hshows := shows_checkFlag c id wanted
  obtain ⟨n, hn, hrepeats⟩ := Node.exists_repeats_of_reads hslots hshows
    (plain_checkFlag c id (.bool wanted)) (reads_glance c id wanted) (c.announcedFlag s)
  have hbegins := waitForOptimisticState_begins c id wanted alarms hspec hlimit
  obtain ⟨rounds, hwait, hrounds⟩ := exists_rounds deadline
    (c.pollFlag id wanted spec deadline s.world.own) alarms (c.announcedFlag s)
  rw [hwait, pollFlag] at hbegins
  -- There are more rounds than ticks before they repeat themselves.
  have hcount : n < rounds := by
    have hreplies : n ≤ s.world.remote.replyCount := hn
    have hremote : (c.announcedFlag s).world.remote = s.world.remote := rfl
    rw [hremote] at hrounds
    omega
  have hstart : u 0 = c.announcedFlag s := rfl
  have hpasses : ∀ k, verdict? [] (c.glance id wanted (u k).world.remote).answer = none
      ↔ Passes k := fun k => undecided_iff_passes
  refine ⟨?_, ?_, ?_, ?_⟩
  · intro k e hfailed
    refine ⟨passes_of_error_iff hfailed, ?_⟩
    exact ⟨fun hkind => flagAt_breaks_iff.mp ⟨hfailed, hkind⟩,
      fun hbreak => (flagAt_breaks_iff.mpr hbreak).2⟩
  · intro k hk
    exact tick_of_passes hslots hk
  · intro m e hearlier hbreak hbefore hsilent
    have hnone : ∀ k < m, verdict? [] (c.glance id wanted (u k).world.remote).answer = none :=
      fun k hk => (hpasses k).mpr (hearlier k hk)
    have hm : verdict? [] (c.glance id wanted (u m).world.remote).answer = some (.failed e) :=
      verdict?_of_breaks hbreak
    have hdecided : verdict? [] (c.glance id wanted (u m).world.remote).answer ≠ none := by
      rw [hm]
      exact Option.some_ne_none _
    have hfirst : m ≤ n := Work.le_of_repeats hrepeats.verdicts hnone hdecided
    have hfree := hrepeats.course.decided hnone hm (Nat.lt_of_le_of_lt hfirst hcount)
    rw [hbegins]
    refine hrepeats.pollUntil_silent _ (by simp) hfree ?_
    rw [ringsBy, List.any_append]
    exact Bool.or_eq_false_iff.mpr ⟨Work.ringsBy_deadlineAlarms.mpr hbefore, hsilent⟩
  · intro o t hrun
    rw [hbegins] at hrun
    rcases hrepeats.pollUntil_cases deadline _ (by omega) hrun with
      hinterrupted | htimeout | ⟨m, hearlier, hm, rfl⟩ | ⟨rfl, hnone⟩
    · exact .inl hinterrupted
    · exact .inr (.inl htimeout)
    · have hpassed : ∀ k < m, Passes k := fun k hk => (hpasses k).mp (hearlier k hk)
      rcases meets_or_breaks hm with ⟨hmeets, ho⟩ | ⟨e, hbreak, ho⟩
      · exact .inr (.inr (.inl ⟨m, hpassed, hmeets, ho, rfl⟩))
      · exact .inr (.inr (.inr (.inl ⟨m, e, hpassed, hbreak, ho, rfl⟩)))
    · -- Ticks repeat themselves by then, so that none that is still to come decides anything.
      refine .inr (.inr (.inr (.inr ⟨rfl, fun k => (hpasses k).mp ?_⟩)))
      rcases Nat.lt_or_ge k n with hlt | hge
      · exact hnone k (Nat.lt_trans hlt hcount)
      · exact (hrepeats.verdicts k hge).trans (hnone n hcount)

/-- An answer that is not JSON is got over, and then a broken connection ends the wait. -/
theorem waitForOptimisticState_gets_over_watcher :
    ∃ t, watcher.waitForOptimisticState (.int 5) (.bool true) .null []
        (flagged [{}, { failure := some .connectionReset }]) = (.failed .connectionReset, t) := by
  generalize hflags : ([{}, { failure := some .connectionReset }] : List Reply) = flags
  have hfirst : watcher.flagAt (.int 5) (askedFor flags 0) = .error .notJson := by
    rw [flagAt_askedFor, ← hflags]
    rfl
  have hsecond : watcher.flagAt (.int 5) (askedFor flags 1) = .error .connectionReset := by
    rw [flagAt_askedFor, ← hflags]
    rfl
  have hpassed : ∀ k < 1, watcher.Passes (.int 5) true (askedFor flags k) := by
    intro k hk
    obtain rfl : k = 0 := by omega
    exact (passes_of_error_iff hfirst).mpr (by decide)
  obtain ⟨-, -, hbroken, -⟩ := waitForOptimisticState_gets_over watcher (.int 5) true .null []
    (flagged flags) rfl span_twelveSeconds rfl
  have hbreak : Breaks watcher.endpoint (.int 5)
      ((askedFor flags 1).replyTo (watcher.flagRoute (.int 5))) .connectionReset :=
    flagAt_breaks_iff.mp ⟨hsecond, by decide⟩
  rw [← remote_of_passed hpassed (Nat.le_refl 1)] at hbreak
  exact ⟨_, hbroken 1 _ (fun k hk => passes_afterTicks hpassed hk) hbreak (by simp) rfl⟩

/-- The failure that work ended with, if it did. -/
def failure? {α : Type} : Outcome α → Option Failure
  | .failed e => some e
  | _ => none

/-- A broken connection, or an answer that is a list, ends a wait at its first tick, long before the
deadline, though the flag is the wanted one at the next tick. -/
theorem waitForOptimisticState_gives_up :
    failure? (watcher.waitForOptimisticState (.int 5) (.bool true) (.int 100) []
      (flagged [{ failure := some .connectionReset }, flagReply (.bool true)])).1
        = some .connectionReset
    ∧ failure? (watcher.waitForOptimisticState (.int 5) (.bool true) (.int 100) []
      (flagged [{ json := some (.list []) }, flagReply (.bool true)])).1 = some .noProperty := by
  decide +kernel

end Client

end BeaconHarness
