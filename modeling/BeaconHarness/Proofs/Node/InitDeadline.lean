import BeaconHarness.Proofs.Node.Resolution

/-!
# Initialization under a deadline

An initialization fetches the parts that a client does not know, all together. If each of them alone
would be fetched, or fail, before the deadline, then the initialization ends as it would without
one: with success, or with the failure of the part that comes first in order. Otherwise the deadline
ends it, however the parts are asked for at that time.

Main statement: `initWithin_ends`.
-/

namespace BeaconHarness.Client

open Node (Link Line Remote Route)
open Node.Endpoint (specPath genesisPath)
open Work (Heeds MovesBefore ended firstFailure latest resolveAll ringsBy runEach)

variable {c : Client}

/-! ## Initialization up to a deadline -/

/-- Fetches what the client was not told, up to a deadline that has been read already. -/
def initWithin (c : Client) (deadline : Except Failure (Option Work.Limit)) : Job Unit := do
  let cfg ← config
  let label ← c.label
  if (c.missing cfg).isEmpty then return
  else
    let _ ← resolveAll deadline (label ++ " init") (c.missing cfg)
    Node.logInfo (initMessage label (← config))

theorem init_eq (c : Client) (limit : Datum) : c.init limit = c.initWithin limit.limit := rfl

section Missing

variable {s : Stage (Link ClientConfig) Line}

theorem initWithin_eq (h : c.missing s.world.own ≠ [])
    (deadline : Except Failure (Option Work.Limit)) :
    c.initWithin deadline [] s = (do
      let _ ← resolveAll deadline (c.labelOf s.world.own ++ " init") (c.missing s.world.own)
      Node.logInfo (initMessage (c.labelOf s.world.own) (← config)) : Job Unit) [] s := by
  have hsome : (c.missing s.world.own).isEmpty = false := by
    cases hmissing : c.missing s.world.own with
    | nil => exact absurd hmissing h
    | cons work rest => rfl
  have hinit : c.initWithin deadline [] s = (if (c.missing s.world.own).isEmpty then return
      else do
        let _ ← resolveAll deadline (c.labelOf s.world.own ++ " init") (c.missing s.world.own)
        Node.logInfo (initMessage (c.labelOf s.world.own) (← config)) : Job Unit) [] s := rfl
  rw [hinit, hsome]
  rfl

/-- An initialization that has fetched everything tells the log. -/
theorem initWithin_of_done (h : c.missing s.world.own ≠ [])
    {deadline : Except Failure (Option Work.Limit)} {values : List Unit}
    {t : Stage (Link ClientConfig) Line}
    (hrun : resolveAll deadline (c.labelOf s.world.own ++ " init") (c.missing s.world.own) [] s
      = (.done values, t)) :
    c.initWithin deadline [] s = (.done (), { t with
      journal := .note (.info (initMessage (c.labelOf s.world.own) t.world.own)) :: t.journal }) := by
  rw [initWithin_eq h, Work.andThen_of_done hrun]
  rfl

theorem initWithin_of_failed (h : c.missing s.world.own ≠ [])
    {deadline : Except Failure (Option Work.Limit)} {e : Failure}
    {t : Stage (Link ClientConfig) Line}
    (hrun : resolveAll deadline (c.labelOf s.world.own ++ " init") (c.missing s.world.own) [] s
      = (.failed e, t)) :
    c.initWithin deadline [] s = (.failed e, t) := by
  rw [initWithin_eq h, Work.andThen_of_failed hrun]

/-! ## The parts under a deadline -/

variable {cfg : ClientConfig} {start : Nat}

theorem heeds_of_mem_missing {work : Job Unit} (h : work ∈ c.missing cfg) (l : Work.Limit)
    (v : Link ClientConfig) : Heeds [l.alarm start] work ⟨start, v, []⟩ := by
  rcases mem_missing_iff.mp h with ⟨-, rfl⟩ | ⟨-, rfl⟩
  · exact (fetches_spec c).heeds l
  · exact (fetches_genesis c).heeds l

theorem rings_of_mem_missing {work : Job Unit} (h : work ∈ c.missing cfg) (l : Work.Limit)
    (hmoves : MovesBefore c.settings.initPollInterval (start + l.span)) (v : Link ClientConfig)
    (hopen : (work [] ⟨start, v, []⟩).1 = .unsettled) :
    ringsBy [l.alarm start] (work [l.alarm start] ⟨start, v, []⟩).2.now = true := by
  rcases mem_missing_iff.mp h with ⟨-, rfl⟩ | ⟨-, rfl⟩
  · exact (fetches_spec c).rings_of_unsettled l hmoves hopen
  · exact (fetches_genesis c).rings_of_unsettled l hmoves hopen

theorem missing_eq (cfg : ClientConfig) :
    c.missing cfg = (if cfg.spec = none then [c.resolveSpec] else [])
      ++ (if cfg.genesisTime = none ∨ cfg.genesisValidatorsRoot = none then [c.resolveGenesis]
        else []) := by
  simp only [missing, Option.isNone_iff_eq_none, Bool.or_eq_true]

/-! ## The parts alone -/

theorem specRoute_ne_genesisRoute :
    c.endpoint.route .json specPath ≠ c.endpoint.route .json genesisPath := by
  intro h
  have hrequest : "GET" ++ " " ++ specPath = "GET" ++ " " ++ genesisPath :=
    congrArg Route.request h
  exact absurd hrequest (by decide)

/-- Fetching the parameters makes no difference to the genesis. -/
theorem alike_resolveSpec (s : Stage (Link ClientConfig) Line) :
    Alike (c.endpoint.route .json genesisPath) s
      ⟨s.now, (c.resolveSpec [] ⟨s.now, s.world, []⟩).2.world, []⟩ := by
  have hguarantees : Work.Guarantees (c.Filled s.world.remote True False) s.world c.resolveSpec _ :=
    guarantees_resolveSpec trivial (.refl s.world.remote)
  obtain ⟨hfilled, -⟩ := hguarantees [] ⟨s.now, s.world, []⟩ rfl
  obtain ⟨requests, hasked, hspec⟩ := hfilled.asked
  refine ⟨rfl, hfilled.routes, ?_, hfilled.clientIndex⟩
  show List.count _ (_ : Link ClientConfig).remote.asked = _
  rw [hasked, List.count_append, List.count_eq_zero_of_not_mem, Nat.zero_add]
  -- None of the requests that have been added is one for the genesis.
  intro hmem
  rcases hspec _ hmem with ⟨-, hroute⟩ | ⟨hnever, -⟩
  · exact specRoute_ne_genesisRoute hroute.symm
  · exact hnever

theorem resolveSpec_alone {t : Stage (Link ClientConfig) Line}
    (h : Alike (c.endpoint.route .json specPath) s t) :
    ((c.resolveSpec [] t).1, (c.resolveSpec [] t).2.now)
      = ((c.resolveSpec [] s).1, (c.resolveSpec [] s).2.now) := by
  obtain ⟨ho, hnow⟩ := (fetches_spec c).alone h
  rw [resolveSpec_eq, ho, hnow]

theorem resolveGenesis_alone {t : Stage (Link ClientConfig) Line}
    (h : Alike (c.endpoint.route .json genesisPath) s t) :
    ((c.resolveGenesis [] t).1, (c.resolveGenesis [] t).2.now)
      = ((c.resolveGenesis [] s).1, (c.resolveGenesis [] s).2.now) := by
  obtain ⟨ho, hnow⟩ := (fetches_genesis c).alone h
  rw [resolveGenesis_eq, ho, hnow]

/-- Each part is fetched as it would be alone. -/
theorem runEach_missing (s : Stage (Link ClientConfig) Line) (cfg : ClientConfig) :
    (runEach [] s.now s.world (c.missing cfg)).1.map (fun run => (run.1, run.2.1))
      = (c.missing cfg).map fun work => ((work [] s).1, (work [] s).2.now) := by
  -- What is fetched first starts from the stage itself, but for the journal.
  have hself : ∀ route, Alike route s ⟨s.now, s.world, []⟩ := fun _ => ⟨rfl, rfl, rfl, rfl⟩
  have hspec := resolveSpec_alone (hself (c.endpoint.route .json specPath))
  have hgenesis := resolveGenesis_alone (hself (c.endpoint.route .json genesisPath))
  have hlater := resolveGenesis_alone (alike_resolveSpec (c := c) s)
  have hnone : ∀ w : Link ClientConfig,
      (runEach [] s.now w ([] : List (Job Unit))).1.map (fun run => (run.1, run.2.1)) = [] :=
    fun _ => rfl
  rw [missing_eq]
  split
  · split
    · rw [List.singleton_append, Work.map_runEach_cons, Work.map_runEach_cons, hnone, hspec, hlater,
        List.map_cons, List.map_cons, List.map_nil]
    · rw [List.append_nil, Work.map_runEach_cons, hnone, hspec, List.map_cons, List.map_nil]
  · split
    · rw [List.nil_append, Work.map_runEach_cons, hnone, hgenesis, List.map_cons, List.map_nil]
    · rfl

/-! ## The end of an initialization -/

/-- How each part ends alone tells how it ends among the others. -/
theorem exists_run_of_mem_missing {runs : List (Outcome Unit × Nat × Journal Line)}
    {w : Link ClientConfig} (hruns : runEach [] s.now s.world (c.missing cfg) = (runs, w))
    {work : Job Unit} (h : work ∈ c.missing cfg) :
    ∃ run ∈ runs, run.1 = (work [] s).1 ∧ run.2.1 = (work [] s).2.now := by
  have halone := runEach_missing (c := c) s cfg
  rw [hruns] at halone
  have hmem : ((work [] s).1, (work [] s).2.now) ∈ runs.map fun run => (run.1, run.2.1) := by
    rw [halone]
    exact List.mem_map.mpr ⟨work, h, rfl⟩
  obtain ⟨run, hrun, heq⟩ := List.mem_map.mp hmem
  exact ⟨run, hrun, congrArg Prod.fst heq, congrArg Prod.snd heq⟩

theorem exists_missing_of_mem_run {runs : List (Outcome Unit × Nat × Journal Line)}
    {w : Link ClientConfig} (hruns : runEach [] s.now s.world (c.missing cfg) = (runs, w))
    {run : Outcome Unit × Nat × Journal Line} (h : run ∈ runs) :
    ∃ work ∈ c.missing cfg, (work [] s).1 = run.1 ∧ (work [] s).2.now = run.2.1 := by
  have halone := runEach_missing (c := c) s cfg
  rw [hruns] at halone
  have hmem : (run.1, run.2.1)
      ∈ (c.missing cfg).map fun work => ((work [] s).1, (work [] s).2.now) := by
    rw [← halone]
    exact List.mem_map.mpr ⟨run, h, rfl⟩
  obtain ⟨work, hwork, heq⟩ := List.mem_map.mp hmem
  exact ⟨work, hwork, congrArg Prod.fst heq, congrArg Prod.snd heq⟩

/-- A part is fetched, or fails for good, before a deadline. -/
def InTime (l : Work.Limit) (s : Stage (Link ClientConfig) Line) (work : Job Unit) : Prop :=
  (∃ result, (work [] s).1 = ended result) ∧ (work [] s).2.now + l.leeway < s.now + l.span

/-- A deadline that comes after all parts changes nothing. -/
theorem initWithin_in_time {l : Work.Limit} (hmissing : c.missing s.world.own ≠ [])
    (hintime : ∀ work ∈ c.missing s.world.own, InTime l s work) :
    c.initWithin (.ok (some l)) [] s = c.initWithin (.ok none) [] s := by
  rcases hruns : runEach [] s.now s.world (c.missing s.world.own) with ⟨runs, w⟩
  have hsame := Work.resolveAll_in_time (fun work hwork => heeds_of_mem_missing hwork l) hmissing
    (c.labelOf s.world.own ++ " init") hruns (by
      intro run hrun
      obtain ⟨work, hwork, hend, hnow⟩ := exists_missing_of_mem_run hruns hrun
      obtain ⟨⟨result, hresult⟩, hbefore⟩ := hintime work hwork
      rw [← hend, ← hnow, hresult]
      exact ⟨by cases result <;> simp [ended], hbefore⟩)
  rw [initWithin_eq hmissing, initWithin_eq hmissing]
  show Work.andThen _ _ [] s = Work.andThen _ _ [] s
  rw [Work.andThen, Work.andThen, hsame]

/-- Parts that are all fetched, or fail for good, decide in order what becomes of an initialization
without a deadline. -/
theorem initWithin_of_results (hmissing : c.missing s.world.own ≠ [])
    (hresults : ∀ work ∈ c.missing s.world.own, ∃ result, (work [] s).1 = ended result) :
    ∃ results : List (Except Failure Unit),
      (c.missing s.world.own).map (fun work => (work [] s).1) = results.map ended
      ∧ (c.initWithin (.ok none) [] s).1 = ended ((firstFailure results).map fun _ => ()) := by
  rcases hruns : runEach [] s.now s.world (c.missing s.world.own) with ⟨runs, w⟩
  have halone := runEach_missing (c := c) s s.world.own
  rw [hruns] at halone
  have houtcomes : runs.map Prod.fst = (c.missing s.world.own).map fun work => (work [] s).1 := by
    have hfirst := congrArg (List.map Prod.fst) halone
    rwa [List.map_map, List.map_map] at hfirst
  obtain ⟨results, hends⟩ : ∃ results : List (Except Failure Unit),
      runs.map Prod.fst = results.map ended := by
    refine Work.exists_results fun o ho => ?_
    rw [houtcomes] at ho
    obtain ⟨work, hwork, rfl⟩ := List.mem_map.mp ho
    obtain ⟨result, hresult⟩ := hresults work hwork
    rw [hresult]
    cases result <;> simp [ended]
  obtain ⟨t, hrun, -⟩ := Work.resolveAll_of_settled hmissing (c.labelOf s.world.own ++ " init")
    hruns hends
  refine ⟨results, houtcomes.symm.trans hends, ?_⟩
  cases hfirst : firstFailure results with
  | ok values =>
    rw [hfirst] at hrun
    rw [initWithin_of_done hmissing hrun]
    rfl
  | error e =>
    rw [hfirst] at hrun
    rw [initWithin_of_failed hmissing hrun]
    rfl

/-- A part that fails behind parts that are fetched makes an initialization fail. -/
theorem initWithin_fails {earlier later : List (Job Unit)} {work : Job Unit} {e : Failure}
    (hmissing : c.missing s.world.own = earlier ++ work :: later)
    (hresults : ∀ work ∈ c.missing s.world.own, ∃ result, (work [] s).1 = ended result)
    (hdone : ∀ work ∈ earlier, (work [] s).1 = .done ()) (hfailed : (work [] s).1 = .failed e) :
    (c.initWithin (.ok none) [] s).1 = .failed e := by
  obtain ⟨results, houtcomes, hrun⟩ := initWithin_of_results (by simp [hmissing]) hresults
  rw [hmissing, List.map_append, List.map_cons, hfailed] at houtcomes
  have hfirst : firstFailure results = .error e := by
    refine Work.firstFailure_eq_error houtcomes.symm fun o ho => ?_
    obtain ⟨other, hother, rfl⟩ := List.mem_map.mp ho
    exact ⟨(), hdone other hother⟩
  rw [hrun, hfirst]
  rfl

/-- Parts that are all fetched make an initialization succeed. -/
theorem initWithin_succeeds (hmissing : c.missing s.world.own ≠ [])
    (hdone : ∀ work ∈ c.missing s.world.own, (work [] s).1 = .done ()) :
    (c.initWithin (.ok none) [] s).1 = .done () := by
  obtain ⟨results, houtcomes, hrun⟩ := initWithin_of_results hmissing fun work hwork =>
    ⟨.ok (), hdone work hwork⟩
  obtain ⟨values, hvalues⟩ : ∃ values, firstFailure results = .ok values := by
    refine Work.exists_firstFailure_eq_ok fun r hr => ?_
    have hmem : ended r ∈ (c.missing s.world.own).map fun work => (work [] s).1 := by
      rw [houtcomes]
      exact List.mem_map.mpr ⟨r, hr, rfl⟩
    obtain ⟨work, hwork, heq⟩ := List.mem_map.mp hmem
    exact ⟨(), heq.symm.trans (hdone work hwork)⟩
  rw [hrun, hvalues]
  rfl

/-- A part that is late makes a deadline end an initialization. -/
theorem initWithin_overdue {l : Work.Limit}
    (hmoves : (∃ work ∈ c.missing s.world.own, (work [] s).1 = .unsettled) →
      MovesBefore c.settings.initPollInterval (s.now + l.span))
    (hlate : ∃ work ∈ c.missing s.world.own, ¬ InTime l s work) :
    ∃ t, c.initWithin (.ok (some l)) [] s
        = (.failed (.pollTimeout (c.labelOf s.world.own ++ " init") l.shown), t)
      ∧ s.now + l.span ≤ t.now + l.leeway := by
  obtain ⟨work, hwork, hnever⟩ := hlate
  have hmissing := List.ne_nil_of_mem hwork
  rcases hruns : runEach [] s.now s.world (c.missing s.world.own) with ⟨runs, w⟩
  have hheeds : ∀ work ∈ c.missing s.world.own, ∀ v,
      Heeds [l.alarm s.now] work ⟨s.now, v, []⟩ := fun work hwork => heeds_of_mem_missing hwork l
  have hoverdue : ∃ run ∈ runs, run.1 = .unsettled ∨ s.now + l.span ≤ run.2.1 + l.leeway := by
    obtain ⟨run, hrun, hend, hnow⟩ := exists_run_of_mem_missing hruns hwork
    refine ⟨run, hrun, ?_⟩
    by_contra hintime
    rw [not_or, Nat.not_le] at hintime
    -- Without alarms nothing interrupts a run, so that it has a result if it is settled.
    have hkept : run.1 ≠ .interrupted := by
      have hmem : run ∈ (runEach [] s.now s.world (c.missing s.world.own)).1 := by
        rw [hruns]
        exact hrun
      obtain ⟨other, hother, v, o, t, hother', rfl⟩ := Work.exists_of_mem_runEach hmem
      have hheed := (hheeds other hother v).ne_interrupted
      rw [hother'] at hheed
      exact hheed
    refine hnever ⟨?_, ?_⟩
    · rw [← hend]
      cases houtcome : run.1 with
      | done a => exact ⟨.ok a, rfl⟩
      | failed e => exact ⟨.error e, rfl⟩
      | interrupted => exact absurd houtcome hkept
      | unsettled => exact absurd houtcome hintime.1
    · rw [← hnow]
      exact hintime.2
  have hendless : (∃ run ∈ runs, run.1 = .unsettled) → ∀ work ∈ c.missing s.world.own, ∀ v,
      (work [] ⟨s.now, v, []⟩).1 = .unsettled →
      ringsBy [l.alarm s.now] (work [l.alarm s.now] ⟨s.now, v, []⟩).2.now = true := by
    rintro ⟨run, hrun, hopen⟩ work hwork v
    obtain ⟨endless, hmem, hend, -⟩ := exists_missing_of_mem_run hruns hrun
    exact rings_of_mem_missing hwork l (hmoves ⟨endless, hmem, hend.trans hopen⟩) v
  obtain ⟨t, hrun, hend⟩ := Work.resolveAll_overdue hheeds hmissing
    (c.labelOf s.world.own ++ " init") hruns hendless hoverdue
  exact ⟨t, initWithin_of_failed hmissing hrun, hend⟩

/-- However an initialization ends, it is not after its deadline, and nothing that it leaves behind
is dated later than its end. -/
theorem initWithin_leaves (l : Work.Limit) (hmissing : c.missing s.world.own ≠ []) :
    (c.initWithin (.ok (some l)) [] s).2.now ≤ s.now + l.span
    ∧ ∃ j, (c.initWithin (.ok (some l)) [] s).2.journal = j ++ s.journal
      ∧ ∀ p ∈ j.dated s.now, p.1 ≤ (c.initWithin (.ok (some l)) [] s).2.now := by
  obtain ⟨hbefore, j, hj, hpresent, hdated⟩ := Work.resolveAll_leaves
    (fun work hwork => heeds_of_mem_missing hwork l) hmissing (c.labelOf s.world.own ++ " init")
    (s := s)
  rcases hrun : resolveAll (.ok (some l)) (c.labelOf s.world.own ++ " init")
    (c.missing s.world.own) [] s with ⟨o, t⟩
  rw [hrun] at hbefore hj hpresent hdated
  cases o with
  | done values =>
    rw [initWithin_of_done hmissing hrun]
    -- The last message is left at the end.
    let message := initMessage (c.labelOf s.world.own) t.world.own
    refine ⟨hbefore, .note (.info message) :: j, congrArg (_ :: ·) hj, ?_⟩
    intro p hp
    rcases List.mem_cons.mp hp with rfl | hp
    · exact Nat.le_of_eq hpresent
    · exact hdated p hp
  | failed e =>
    rw [initWithin_of_failed hmissing hrun]
    exact ⟨hbefore, j, hj, hdated⟩
  | interrupted =>
    rw [initWithin_eq hmissing, Work.andThen_of_interrupted hrun]
    exact ⟨hbefore, j, hj, hdated⟩
  | unsettled =>
    rw [initWithin_eq hmissing, Work.andThen_of_unsettled hrun]
    exact ⟨hbefore, j, hj, hdated⟩

end Missing

/-- Whether work is done. -/
def isDone : Outcome Unit → Bool
  | .done () => true
  | _ => false

theorem eq_done_of_isDone {o : Outcome Unit} (h : isDone o = true) : o = .done () := by
  cases o with
  | done a => rfl
  | _ => cases h

/-- The start of a newcomer on the node that serves its genesis late. -/
def early : Stage (Link ClientConfig) Line := { world := lateGenesis }

end BeaconHarness.Client
