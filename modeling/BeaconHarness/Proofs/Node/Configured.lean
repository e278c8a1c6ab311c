import BeaconHarness.Proofs.Node.InitDeadline

/-!
# What a client was told

A client may be told the parameters of its network, the genesis time and the genesis validators
root, each of them or not. An initialization is to fetch what it was not told, and to leave the rest
as it is. It does so with the parameters. The two parts of the genesis, however, come from one
answer of the node, and are both taken over from it even if only one of them was missing: the other
one is lost then, unless the node happens to agree with it.

Main statement: what is kept, what is lost, and where everything else comes from (`init_keeps`).
-/

namespace BeaconHarness

open Node (Link Line Genesis)

namespace ClientConfig

/-- Everything that is set in one configuration is set in another one, to the same value. -/
structure Keeps (known left : ClientConfig) : Prop where
  clientIndex : left.clientIndex = known.clientIndex
  subnet : left.subnet = known.subnet
  p2pPort : left.p2pPort = known.p2pPort
  spec : ∀ spec, known.spec = some spec → left.spec = some spec
  genesisTime : ∀ time, known.genesisTime = some time → left.genesisTime = some time
  genesisValidatorsRoot : ∀ root, known.genesisValidatorsRoot = some root →
    left.genesisValidatorsRoot = some root

/-- Both parts of the genesis are those of an answer. -/
structure HasGenesis (cfg : ClientConfig) (genesis : Genesis) : Prop where
  time : cfg.genesisTime = some (.int genesis.time)
  validatorsRoot : cfg.genesisValidatorsRoot = some genesis.validatorsRoot

/-- Some part of the genesis is set, and is not the one in an answer. -/
def Contradicts (cfg : ClientConfig) (genesis : Genesis) : Prop :=
  (∃ time, cfg.genesisTime = some time ∧ time ≠ .int genesis.time)
    ∨ ∃ root, cfg.genesisValidatorsRoot = some root ∧ root ≠ genesis.validatorsRoot

/-- Whoever takes over a genesis that contradicts what is known loses some of that. -/
theorem Contradicts.not_keeps {known left : ClientConfig} {genesis : Genesis}
    (h : known.Contradicts genesis) (hleft : left.HasGenesis genesis) : ¬ known.Keeps left := by
  intro hkeeps
  rcases h with ⟨time, htime, hne⟩ | ⟨root, hroot, hne⟩
  · have hkept := hkeeps.genesisTime time htime
    rw [hleft.time] at hkept
    exact hne (Option.some.inj hkept).symm
  · have hkept := hkeeps.genesisValidatorsRoot root hroot
    rw [hleft.validatorsRoot] at hkept
    exact hne (Option.some.inj hkept).symm

end ClientConfig

namespace Client

variable {c : Client} {r₀ : Node.Remote} {specToo genesisToo : Prop} {w w' : Link ClientConfig}

/-! ## What is kept -/

/-- Parameters that are not to be fetched stay. -/
theorem Filled.spec_eq (h : c.Filled r₀ specToo genesisToo w w') (hspec : ¬ specToo) :
    w'.own.spec = w.own.spec := by
  rcases h.spec with hsame | ⟨htoo, -⟩
  · exact hsame
  · exact absurd htoo hspec

/-- The genesis stays, or both its parts are taken over from one answer. -/
theorem Filled.genesis_cases (h : c.Filled r₀ specToo genesisToo w w') :
    (w'.own.genesisTime = w.own.genesisTime
      ∧ w'.own.genesisValidatorsRoot = w.own.genesisValidatorsRoot)
    ∨ genesisToo ∧ ∃ genesis, c.endpoint.ServedGenesis r₀ w'.remote genesis
      ∧ w'.own.HasGenesis genesis := by
  rcases h.genesis with hsame | ⟨htoo, genesis, htime, hroot, hserved⟩
  · exact .inl hsame
  · exact .inr ⟨htoo, genesis, hserved, htime, hroot⟩

/-- Everything that is known is kept if both parts of the genesis are. -/
theorem Filled.keeps (h : c.Filled r₀ specToo genesisToo w w')
    (hspec : ∀ spec, w.own.spec = some spec → ¬ specToo)
    (htime : ∀ time, w.own.genesisTime = some time → w'.own.genesisTime = some time)
    (hroot : ∀ root, w.own.genesisValidatorsRoot = some root →
      w'.own.genesisValidatorsRoot = some root) : w.own.Keeps w'.own where
  clientIndex := h.clientIndex
  subnet := h.subnet
  p2pPort := h.p2pPort
  spec spec hknown := (h.spec_eq (hspec spec hknown)).trans hknown
  genesisTime := htime
  genesisValidatorsRoot := hroot

/-- What is known is lost exactly where a genesis is taken over that contradicts it. -/
theorem Filled.not_keeps_iff (h : c.Filled r₀ specToo genesisToo w w')
    (hspec : ∀ spec, w.own.spec = some spec → ¬ specToo) :
    ¬ w.own.Keeps w'.own ↔ genesisToo ∧ ∃ genesis, c.endpoint.ServedGenesis r₀ w'.remote genesis
      ∧ w'.own.HasGenesis genesis ∧ w.own.Contradicts genesis := by
  constructor
  · intro hlost
    rcases h.genesis_cases with ⟨htime, hroot⟩ | ⟨htoo, genesis, hserved, hleft⟩
    · -- Nothing is lost if both parts stay.
      refine absurd (h.keeps hspec ?_ ?_) hlost
      · intro time hknown
        rw [htime, hknown]
      · intro root hknown
        rw [hroot, hknown]
    · refine ⟨htoo, genesis, hserved, hleft, ?_⟩
      by_contra hagrees
      rw [ClientConfig.Contradicts, not_or, not_exists, not_exists] at hagrees
      refine hlost (h.keeps hspec ?_ ?_)
      · intro time hknown
        rw [hleft.time, ← not_not.mp fun hne => hagrees.1 time ⟨hknown, hne⟩]
      · intro root hknown
        rw [hleft.validatorsRoot, ← not_not.mp fun hne => hagrees.2 root ⟨hknown, hne⟩]
  · rintro ⟨-, genesis, -, hleft, hcontradicts⟩
    exact hcontradicts.not_keeps hleft

/-- Nothing is lost where both parts of the genesis were known, or none of them. -/
theorem Filled.keeps_of_whole
    (h : c.Filled r₀ specToo (w.own.genesisTime = none ∨ w.own.genesisValidatorsRoot = none) w w')
    (hspec : ∀ spec, w.own.spec = some spec → ¬ specToo)
    (hwhole : w.own.genesisTime.isSome = w.own.genesisValidatorsRoot.isSome) :
    w.own.Keeps w'.own := by
  rcases h.genesis_cases with ⟨hsameTime, hsameRoot⟩ | ⟨hmissing, -⟩
  · exact h.keeps hspec (fun _ htime => hsameTime.trans htime) fun _ hroot => hsameRoot.trans hroot
  · -- If one part is missing then so is the other, and there is nothing to keep.
    have hneither : w.own.genesisTime = none ∧ w.own.genesisValidatorsRoot = none := by
      rcases hmissing with htime | hroot
      · exact ⟨htime, by simpa [htime] using hwhole⟩
      · exact ⟨by simpa [hroot] using hwhole, hroot⟩
    refine h.keeps hspec (fun time htime => ?_) fun root hroot => ?_
    · rw [hneither.1] at htime
      cases htime
    · rw [hneither.2] at hroot
      cases hroot

/-- A part of the genesis that was missing and is no longer so was taken over with the other one. -/
theorem Filled.exists_genesis (h : c.Filled r₀ specToo genesisToo w w')
    (hmissing : w.own.genesisTime = none ∨ w.own.genesisValidatorsRoot = none)
    (htime : w'.own.genesisTime.isSome) (hroot : w'.own.genesisValidatorsRoot.isSome) :
    ∃ genesis, c.endpoint.ServedGenesis r₀ w'.remote genesis ∧ w'.own.HasGenesis genesis := by
  rcases h.genesis_cases with ⟨hsameTime, hsameRoot⟩ | ⟨-, htaken⟩
  · rcases hmissing with hnone | hnone
    · rw [hsameTime, hnone] at htime
      cases htime
    · rw [hsameRoot, hnone] at hroot
      cases hroot
  · exact htaken

/-- However an initialization ends, it keeps the parameters that the client was told, and it keeps
everything that the client was told if that was no half of a genesis. Only what was missing comes
from the node.

Something is lost exactly if one part of the genesis was missing, and the client has taken over both
parts from an answer that contradicts the other one. If the initialization is done and a part was
missing, then the client has taken over both, whether the answer contradicts the other one or not.
-/
theorem init_keeps (c : Client) (limit : Datum) (alarms : List Alarm)
    (s : Stage (Link ClientConfig) Line) :
    let known := s.world.own
    let r := s.world.remote
    let w := (c.init limit alarms s).2.world
    (known.genesisTime.isSome = known.genesisValidatorsRoot.isSome → known.Keeps w.own)
    ∧ (∀ spec, known.spec = some spec → w.own.spec = some spec)
    ∧ (¬ known.Keeps w.own ↔ (known.genesisTime = none ∨ known.genesisValidatorsRoot = none)
      ∧ ∃ genesis, c.endpoint.ServedGenesis r w.remote genesis ∧ w.own.HasGenesis genesis
        ∧ known.Contradicts genesis)
    ∧ ((c.init limit alarms s).1 = .done () →
      known.genesisTime = none ∨ known.genesisValidatorsRoot = none →
      ∃ genesis, c.endpoint.ServedGenesis r w.remote genesis ∧ w.own.HasGenesis genesis)
    ∧ (∀ spec, w.own.spec = some spec →
      known.spec = some spec ∨ known.spec = none ∧ c.ServedSpec r w.remote spec)
    ∧ (∀ time, w.own.genesisTime = some time → known.genesisTime = some time
      ∨ ∃ genesis, c.endpoint.ServedGenesis r w.remote genesis ∧ time = .int genesis.time)
    ∧ ∀ root, w.own.genesisValidatorsRoot = some root → known.genesisValidatorsRoot = some root
      ∨ ∃ genesis, c.endpoint.ServedGenesis r w.remote genesis ∧ root = genesis.validatorsRoot := by
  intro known r w
  obtain ⟨hfilled, hdone⟩ := guarantees_init (c := c) (w := s.world) id id (.refl _) limit alarms
    s rfl
  have hspec : ∀ spec, known.spec = some spec → ¬ known.spec = none := by
    intro spec hknown hnone
    rw [hknown] at hnone
    cases hnone
  refine ⟨hfilled.keeps_of_whole hspec, ?_, hfilled.not_keeps_iff hspec, ?_, ?_, ?_, ?_⟩
  · intro spec hknown
    exact (hfilled.spec_eq (hspec spec hknown)).trans hknown
  · intro hends hmissing
    obtain ⟨-, htime, hroot⟩ := hdone () hends
    exact hfilled.exists_genesis hmissing htime hroot
  · intro spec hleft
    rcases hfilled.spec with hsame | ⟨hmissing, fetched, hfetched, hserved⟩
    · exact .inl (hsame.symm.trans hleft)
    · obtain rfl := Option.some.inj (hfetched.symm.trans hleft)
      exact .inr ⟨hmissing, hserved⟩
  · intro time hleft
    rcases hfilled.genesis_cases with ⟨hsame, -⟩ | ⟨-, genesis, hserved, htaken⟩
    · exact .inl (hsame.symm.trans hleft)
    · exact .inr ⟨genesis, hserved, Option.some.inj (hleft.symm.trans htaken.time)⟩
  · intro root hleft
    rcases hfilled.genesis_cases with ⟨-, hsame⟩ | ⟨-, genesis, hserved, htaken⟩
    · exact .inl (hsame.symm.trans hleft)
    · exact .inr ⟨genesis, hserved, Option.some.inj (hleft.symm.trans htaken.validatorsRoot)⟩

/-- A link to a node that serves a genesis, of a client that was told the parameters and these parts
of the genesis. -/
def told (time : Option Datum) (root : Option Bytes) : Link ClientConfig where
  own := { spec := some {}, genesisTime := time, genesisValidatorsRoot := root }
  remote.routes := [
    (newcomer.endpoint.route .json Node.Endpoint.genesisPath,
      [{ json := some (.dict [(.str "data", .dict [(.str "genesis_time", .str "7"),
          (.str "genesis_validators_root", .str "0x00"),
          (.str "genesis_fork_version", .str "0x00")])]) }])]

/-- A client that was told the parameters alone keeps them. One that was told the genesis time as
well takes over the whole genesis of the node. -/
theorem init_keeps_told :
    (told none none).own.Keeps (newcomer.init .null [] { world := told none none }).2.world.own
    ∧ (newcomer.init .null [] { world := told (some (.int 7)) none }).1 = .done ()
    ∧ ∃ genesis, (newcomer.init .null []
      { world := told (some (.int 7)) none }).2.world.own.HasGenesis genesis := by
  have hdone : (newcomer.init .null [] { world := told (some (.int 7)) none }).1 = .done () :=
    eq_done_of_isDone (by decide +kernel)
  obtain ⟨hwhole, -⟩ := init_keeps newcomer .null [] { world := told none none }
  obtain ⟨-, -, -, htaken, -⟩ := init_keeps newcomer .null []
    { world := told (some (.int 7)) none }
  obtain ⟨genesis, -, hgenesis⟩ := htaken hdone (.inr rfl)
  exact ⟨hwhole rfl, hdone, genesis, hgenesis⟩

/-- A genesis time that the client was told is lost when the validators root is fetched. -/
theorem init_loses_genesisTime :
    (newcomer.init .null [] { world := told (some (.int 1234)) none }).1 = .done ()
    ∧ ¬ (told (some (.int 1234)) none).own.Keeps
      (newcomer.init .null [] { world := told (some (.int 1234)) none }).2.world.own := by
  refine ⟨eq_done_of_isDone (by decide +kernel), fun hkeeps => ?_⟩
  have hkept := hkeeps.genesisTime (.int 1234) rfl
  have hshown : (newcomer.init .null []
      { world := told (some (.int 1234)) none }).2.world.own.shownGenesisTime = "7" := by
    decide +kernel
  rw [ClientConfig.shownGenesisTime, hkept] at hshown
  exact absurd hshown (by decide +kernel)

end Client

end BeaconHarness
