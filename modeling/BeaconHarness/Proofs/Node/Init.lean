import BeaconHarness.Node.Client
import BeaconHarness.Proofs.Node.Request

/-!
# What initialization may change

A client that is initialized asks its node for the parameters and for the genesis, as far as it does
not know them, and both again and again. Whatever comes of that - refused answers, a preset that is
not the one in use, a deadline, a call that is called off - it takes over the parameters as a whole
and the genesis as a whole, each from one answer to a request of its own, and leaves everything else
as it was.

Main statement: what the client knows afterwards, and which requests it has made
(`init_fills`).
-/

namespace BeaconHarness.Client

open Node (Link Line Remote Genesis)
open Node.Endpoint (Permits specPath genesisPath)
open Work (Guarantees Composes Lasting)

/-! ## What may change -/

/-- The node served these parameters between two moments, and they are of the preset in use. -/
def ServedSpec (c : Client) (r r' : Remote) (spec : Spec) : Prop :=
  ∃ data, c.endpoint.ServedSpec r r' data ∧ Spec.ofConfig data = .ok spec
    ∧ spec.presetBase.same (.str c.endpoint.preset.name) = true

/-- What may have changed since the network was at `r₀` if the parameters are to be fetched, the
genesis, or both. -/
structure Filled (c : Client) (r₀ : Remote) (specToo genesisToo : Prop)
    (w w' : Link ClientConfig) : Prop where
  /-- Nothing is set up otherwise on the nodes. -/
  routes : w'.remote.routes = w.remote.routes
  /-- Only what is to be fetched is asked for. -/
  asked : ∃ requests, w'.remote.asked = requests ++ w.remote.asked ∧ ∀ r ∈ requests,
    (specToo ∧ r = c.endpoint.route .json specPath)
    ∨ (genesisToo ∧ r = c.endpoint.route .json genesisPath)
  /-- The parameters stay, or are those of an answer. -/
  spec : w'.own.spec = w.own.spec
    ∨ specToo ∧ ∃ spec, w'.own.spec = some spec ∧ c.ServedSpec r₀ w'.remote spec
  /-- The two parts of the genesis stay, or are those of one answer. -/
  genesis : (w'.own.genesisTime = w.own.genesisTime
      ∧ w'.own.genesisValidatorsRoot = w.own.genesisValidatorsRoot)
    ∨ genesisToo ∧ ∃ genesis, w'.own.genesisTime = some (.int genesis.time)
      ∧ w'.own.genesisValidatorsRoot = some genesis.validatorsRoot
      ∧ c.endpoint.ServedGenesis r₀ w'.remote genesis
  /-- Everything else stays. -/
  clientIndex : w'.own.clientIndex = w.own.clientIndex
  subnet : w'.own.subnet = w.own.subnet
  p2pPort : w'.own.p2pPort = w.own.p2pPort

section Filled

variable {c : Client} {r₀ : Remote} {specToo genesisToo : Prop} {w w' : Link ClientConfig}

theorem Filled.later (h : c.Filled r₀ specToo genesisToo w w') : w.remote.Later w'.remote := by
  obtain ⟨requests, hasked, -⟩ := h.asked
  exact ⟨h.routes, requests, hasked.symm⟩

theorem composes_filled : Composes (c.Filled r₀ specToo genesisToo) where
  refl w := ⟨rfl, ⟨[], rfl, nofun⟩, .inl rfl, .inl ⟨rfl, rfl⟩, rfl, rfl, rfl⟩
  trans {u v w} h h' := by
    refine ⟨h'.routes.trans h.routes, ?_, ?_, ?_, h'.clientIndex.trans h.clientIndex,
      h'.subnet.trans h.subnet, h'.p2pPort.trans h.p2pPort⟩
    · obtain ⟨first, hfirst, hallowed⟩ := h.asked
      obtain ⟨second, hsecond, hallowed'⟩ := h'.asked
      refine ⟨second ++ first, by rw [hsecond, hfirst, List.append_assoc], fun r hr => ?_⟩
      rcases List.mem_append.mp hr with hr | hr
      · exact hallowed' r hr
      · exact hallowed r hr
    · rcases h'.spec with hsame | hnew
      · rcases h.spec with hsame' | ⟨htoo, spec, hspec, data, hserved, hread⟩
        · exact .inl (hsame.trans hsame')
        · exact .inr ⟨htoo, spec, hsame.trans hspec, data,
            hserved.of_later (.refl r₀) h'.later, hread⟩
      · exact .inr hnew
    · rcases h'.genesis with ⟨htime, hroot⟩ | hnew
      · rcases h.genesis with ⟨htime', hroot'⟩ | ⟨htoo, genesis, htime', hroot', hserved⟩
        · exact .inl ⟨htime.trans htime', hroot.trans hroot'⟩
        · exact .inr ⟨htoo, genesis, htime.trans htime', hroot.trans hroot',
            hserved.of_later (.refl r₀) h'.later⟩
      · exact .inr hnew

/-- A request is allowed for what is to be fetched. -/
theorem permits_of_route {route : Node.Route}
    (hroute : (specToo ∧ route = c.endpoint.route .json specPath)
      ∨ (genesisToo ∧ route = c.endpoint.route .json genesisPath)) :
    Permits (c.Filled r₀ specToo genesisToo) route where
  toComposes := composes_filled
  opens w := ⟨rfl, ⟨[], rfl, nofun⟩, .inl rfl, .inl ⟨rfl, rfl⟩, rfl, rfl, rfl⟩
  asks w := by
    refine ⟨rfl, ⟨[route], rfl, fun r hr => ?_⟩, .inl rfl, .inl ⟨rfl, rfl⟩, rfl, rfl, rfl⟩
    rw [List.mem_singleton.mp hr]
    exact hroute

end Filled

/-! ## Fetching one part -/

theorem guarantees_config {R : Link ClientConfig → Link ClientConfig → Prop}
    {w : Link ClientConfig} (hR : Composes R) :
    Guarantees R w config fun cfg v => cfg = w.own ∧ v = w := by
  rw [config]
  refine (Work.guarantees_world hR).bind hR fun link v _ hlink => ?_
  obtain ⟨rfl, rfl⟩ := hlink
  exact Work.guarantees_done hR

theorem guarantees_label {R : Link ClientConfig → Link ClientConfig → Prop}
    {w : Link ClientConfig} (hR : Composes R) (c : Client) :
    Guarantees R w c.label fun _ v => v = w := by
  rw [label]
  refine (guarantees_config hR).bind hR fun cfg v _ hcfg => ?_
  exact (Work.guarantees_done hR).mono fun _ _ _ h => h.2.trans hcfg.2

section Parts

variable {c : Client} {r₀ : Remote} {specToo genesisToo : Prop} {w : Link ClientConfig}

theorem lasting_spec : Lasting (c.Filled r₀ specToo genesisToo) fun w => w.own.spec.isSome := by
  intro u v huv hu
  rcases huv.spec with hsame | ⟨-, spec, hspec, -⟩
  · rwa [hsame]
  · rw [hspec]
    rfl

theorem lasting_genesis : Lasting (c.Filled r₀ specToo genesisToo) fun w =>
    w.own.genesisTime.isSome ∧ w.own.genesisValidatorsRoot.isSome := by
  intro u v huv hu
  rcases huv.genesis with ⟨htime, hroot⟩ | ⟨-, genesis, htime, hroot, -⟩
  · rwa [htime, hroot]
  · rw [htime, hroot]
    exact ⟨rfl, rfl⟩

/-- Asking again and again brings about what a query does that answers. -/
theorem guarantees_retry {α : Type} {query : Job (Option α)} {Q : α → Link ClientConfig → Prop}
    (hquery : ∀ v, c.Filled r₀ specToo genesisToo w v →
      Guarantees (c.Filled r₀ specToo genesisToo) v query fun found u =>
        ∀ a, found = some a → Q a u) :
    Guarantees (c.Filled r₀ specToo genesisToo) w
      (withRounds none fun rounds => Work.retryUntilReady rounds
        (Work.sleepFor c.settings.initPollInterval) transientKinds query) Q :=
  fun alarms s hs => Work.guarantees_retryRounds composes_filled
    (fun _ _ => (Work.guarantees_sleepFor composes_filled).weaken) hquery _ alarms s hs

/-- Fetching the parameters asks for nothing else, and sets them if it is done. -/
theorem guarantees_resolveSpec (hspecToo : specToo) (hlater : r₀.Later w.remote) :
    Guarantees (c.Filled r₀ specToo genesisToo) w c.resolveSpec
      fun _ v => v.own.spec.isSome := by
  have hC : Composes (c.Filled r₀ specToo genesisToo) := composes_filled
  have hask : Permits (c.Filled r₀ specToo genesisToo) (c.endpoint.route .json specPath) :=
    permits_of_route (.inl ⟨hspecToo, rfl⟩)
  have hdata : Guarantees (c.Filled r₀ specToo genesisToo) w
      (withRounds none fun rounds =>
        Work.retryUntilReady rounds (Work.sleepFor c.settings.initPollInterval) transientKinds do
          let data ← c.endpoint.spec
          return if data.truthy then some data else none)
      fun data v => c.endpoint.ServedSpec r₀ v.remote data := by
    refine guarantees_retry fun v hv => ?_
    refine (c.endpoint.guarantees_spec hask).bind hC fun data u _ hserved => ?_
    refine (Work.guarantees_done hC).mono fun found t _ ht a ha => ?_
    obtain ⟨rfl, rfl⟩ := ht
    split at ha
    · cases ha
      exact hserved.of_later (hlater.trans hv.later) (.refl _)
    · exact nomatch ha
  rw [resolveSpec]
  refine hdata.bind hC fun data v _ hserved => ?_
  refine (Work.guarantees_ofExcept hC).bind hC fun spec u _ hspec => ?_
  obtain ⟨hspec, rfl⟩ := hspec
  dsimp only
  split
  · exact (guarantees_label hC c).bind hC fun _ _ _ _ => Work.guarantees_fail hC
  next hmatched =>
    have hspecServed : c.ServedSpec r₀ u.remote spec :=
      ⟨data, hserved, hspec, by simpa using hmatched⟩
    refine (Work.guarantees_change ?_).mono fun _ t _ ht => ?_
    · exact ⟨rfl, ⟨[], rfl, nofun⟩, .inr ⟨hspecToo, spec, rfl, hspecServed⟩, .inl ⟨rfl, rfl⟩,
        rfl, rfl, rfl⟩
    · rw [ht]
      rfl

/-- Fetching the genesis asks for nothing else, and sets both its parts if it is done. -/
theorem guarantees_resolveGenesis (hgenesisToo : genesisToo) (hlater : r₀.Later w.remote) :
    Guarantees (c.Filled r₀ specToo genesisToo) w c.resolveGenesis
      fun _ v => v.own.genesisTime.isSome ∧ v.own.genesisValidatorsRoot.isSome := by
  have hC : Composes (c.Filled r₀ specToo genesisToo) := composes_filled
  have hask : Permits (c.Filled r₀ specToo genesisToo) (c.endpoint.route .json genesisPath) :=
    permits_of_route (.inr ⟨hgenesisToo, rfl⟩)
  have hgenesis : Guarantees (c.Filled r₀ specToo genesisToo) w
      (withRounds none fun rounds =>
        Work.retryUntilReady rounds (Work.sleepFor c.settings.initPollInterval) transientKinds do
          return some (← c.endpoint.genesis))
      fun genesis v => c.endpoint.ServedGenesis r₀ v.remote genesis := by
    refine guarantees_retry fun v hv => ?_
    refine (c.endpoint.guarantees_genesis hask).bind hC fun genesis u _ hserved => ?_
    refine (Work.guarantees_done hC).mono fun found t _ ht a ha => ?_
    obtain ⟨rfl, rfl⟩ := ht
    cases ha
    exact hserved.of_later (hlater.trans hv.later) (.refl _)
  rw [resolveGenesis]
  refine hgenesis.bind hC fun genesis v _ hserved => ?_
  refine (Work.guarantees_change ?_).mono fun _ t _ ht => ?_
  · exact ⟨rfl, ⟨[], rfl, nofun⟩, .inl rfl,
      .inr ⟨hgenesisToo, genesis, rfl, rfl, hserved⟩, rfl, rfl, rfl⟩
  · rw [ht]
    exact ⟨rfl, rfl⟩

/-! ## Fetching what is missing -/

/-- What a client fetches that knows this much. -/
def missing (c : Client) (cfg : ClientConfig) : List (Job Unit) :=
  (if cfg.spec.isNone then [c.resolveSpec] else [])
    ++ (if cfg.genesisTime.isNone || cfg.genesisValidatorsRoot.isNone then [c.resolveGenesis]
      else [])

theorem mem_missing_iff {cfg : ClientConfig} {work : Job Unit} :
    work ∈ c.missing cfg ↔ (cfg.spec = none ∧ work = c.resolveSpec)
      ∨ ((cfg.genesisTime = none ∨ cfg.genesisValidatorsRoot = none)
        ∧ work = c.resolveGenesis) := by
  rw [missing, List.mem_append]
  refine or_congr ?_ ?_
  · cases cfg.spec <;> simp
  · cases cfg.genesisTime <;> cases cfg.genesisValidatorsRoot <;> simp

/-- What is missing is fetched, nothing else changes, and nothing is missing if that is done. -/
theorem guarantees_init (hspec : w.own.spec = none → specToo)
    (hgenesis : w.own.genesisTime = none ∨ w.own.genesisValidatorsRoot = none → genesisToo)
    (hlater : r₀.Later w.remote) (limit : Datum) :
    Guarantees (c.Filled r₀ specToo genesisToo) w (c.init limit) fun _ v =>
      v.own.spec.isSome ∧ v.own.genesisTime.isSome ∧ v.own.genesisValidatorsRoot.isSome := by
  have hC : Composes (c.Filled r₀ specToo genesisToo) := composes_filled
  rw [init]
  refine (guarantees_config hC).bind hC fun cfg v _ hcfg => ?_
  obtain ⟨rfl, rfl⟩ := hcfg
  refine (guarantees_label hC c).bind hC fun label u _ hu => ?_
  subst hu
  show Guarantees _ u
    (if (c.missing u.own).isEmpty then return
    else do
      let _ ← Work.resolveAll limit.limit (label ++ " init") (c.missing u.own)
      Node.logInfo (initMessage label (← config))) _
  have hworks : ∀ work ∈ c.missing u.own, ∀ v, c.Filled r₀ specToo genesisToo u v →
      Guarantees (c.Filled r₀ specToo genesisToo) v work fun _ _ => True := by
    intro work hwork v hv
    rcases mem_missing_iff.mp hwork with ⟨hnone, rfl⟩ | ⟨hnone, rfl⟩
    · exact (guarantees_resolveSpec (hspec hnone) (hlater.trans hv.later)).weaken
    · exact (guarantees_resolveGenesis (hgenesis hnone) (hlater.trans hv.later)).weaken
  -- What the client knew it still knows, and the rest has been fetched by a piece that is done.
  have hknown : ∀ v, c.Filled r₀ specToo genesisToo u v →
      (∀ work ∈ c.missing u.own, ∀ Q, Lasting (c.Filled r₀ specToo genesisToo) Q →
        (∀ t, c.Filled r₀ specToo genesisToo u t →
          Guarantees (c.Filled r₀ specToo genesisToo) t work fun _ => Q) → Q v) →
      v.own.spec.isSome ∧ v.own.genesisTime.isSome ∧ v.own.genesisValidatorsRoot.isSome := by
    intro v hv hdone
    constructor
    · by_cases hnone : u.own.spec = none
      · exact hdone _ (mem_missing_iff.mpr (.inl ⟨hnone, rfl⟩)) _ lasting_spec fun t ht =>
          guarantees_resolveSpec (hspec hnone) (hlater.trans ht.later)
      · exact lasting_spec u v hv (Option.isSome_iff_ne_none.mpr hnone)
    · by_cases hnone : u.own.genesisTime = none ∨ u.own.genesisValidatorsRoot = none
      · exact hdone _ (mem_missing_iff.mpr (.inr ⟨hnone, rfl⟩)) _ lasting_genesis fun t ht =>
          guarantees_resolveGenesis (hgenesis hnone) (hlater.trans ht.later)
      · rw [not_or] at hnone
        exact lasting_genesis u v hv ⟨Option.isSome_iff_ne_none.mpr hnone.1,
          Option.isSome_iff_ne_none.mpr hnone.2⟩
  cases hempty : (c.missing u.own).isEmpty with
  | true =>
    refine (Work.guarantees_done hC).mono fun _ v hv _ => hknown v hv ?_
    rw [List.isEmpty_iff.mp hempty]
    exact nofun
  | false =>
    refine (Work.guarantees_resolveAll hC hworks).bind hC fun _ v hv hdone => ?_
    refine (guarantees_config hC).bind hC fun cfg t _ ht => ?_
    obtain ⟨rfl, rfl⟩ := ht
    refine (Work.guarantees_note hC).mono fun _ x _ hx => ?_
    subst hx
    exact hknown _ hv hdone

end Parts

/-- However an initialization ends, it has asked only for what the client did not know, and changed
only that: the parameters as a whole, of the preset in use and from one answer, and the genesis as a
whole, from one answer too. If it is done, then nothing is missing any more. -/
theorem init_fills (c : Client) (limit : Datum) (alarms : List Alarm)
    (s : Stage (Link ClientConfig) Line) :
    c.Filled s.world.remote (s.world.own.spec = none)
        (s.world.own.genesisTime = none ∨ s.world.own.genesisValidatorsRoot = none)
        s.world (c.init limit alarms s).2.world
    ∧ ((c.init limit alarms s).1 = .done () →
      (c.init limit alarms s).2.world.own.spec.isSome
      ∧ (c.init limit alarms s).2.world.own.genesisTime.isSome
      ∧ (c.init limit alarms s).2.world.own.genesisValidatorsRoot.isSome) := by
  obtain ⟨hfilled, hdone⟩ := guarantees_init id id (.refl _) limit alarms s rfl
  exact ⟨hfilled, hdone ()⟩

/-- A client that knows nothing yet of its node. -/
def newcomer : Client := { endpoint := ⟨"http://node", .null, .minimal⟩ }

/-- A link to a node that serves its parameters at once, and its genesis when it is asked again. -/
def lateGenesis : Link ClientConfig where
  own := {}
  remote.routes := [
    (newcomer.endpoint.route .json specPath,
      [{ json := some (.dict [(.str "data", .dict [(.str "PRESET_BASE", .str "minimal")])]) }]),
    (newcomer.endpoint.route .json genesisPath,
      [{ status := 503 },
        { json := some (.dict [(.str "data", .dict [(.str "genesis_time", .str "7"),
          (.str "genesis_validators_root", .str "0x00"),
          (.str "genesis_fork_version", .str "0x00")])]) }])]

theorem init_fills_lateGenesis :
    (newcomer.init .null [] { world := lateGenesis }).1 = .done ()
    ∧ (newcomer.init .null [] { world := lateGenesis }).2.world.own.spec.isSome
    ∧ (newcomer.init .null [] { world := lateGenesis }).2.world.own.genesisTime.isSome
    ∧ (newcomer.init .null [] { world := lateGenesis }).2.world.own.genesisValidatorsRoot.isSome := by
  have hdone : (newcomer.init .null [] { world := lateGenesis }).1 = .done () := by
    have hisDone : (match (newcomer.init .null [] { world := lateGenesis }).1 with
      | .done () => true
      | _ => false) = true := by decide +kernel
    split at hisDone
    next heq => exact heq
    next => exact nomatch hisDone
  exact ⟨hdone, (init_fills newcomer .null [] { world := lateGenesis }).2 hdone⟩

end BeaconHarness.Client
