import BeaconHarness.Proofs.Withdrawal.Due

/-!
# The walk of a sweep

A sweep keeps four counts: the position it stands at, the positions that it has visited, the number
of the next withdrawal and the withdrawals that it has taken. Here they are traded for a list of
positions, those from the cursor on around the end of the registry, and for a walk over that list
with room for some withdrawals (`Census.run`). Every step of the sweep is a step of the walk, and
what the sweep has taken stands in front of what the walk gives.

Main statement: a sweep whose cursor lies in the registry is the walk over the positions from there
on (`sweep_registry`).
-/

namespace BeaconHarness.Withdrawals

open Consensus (Withdrawal)

/-! ## Positions -/

/-- The positions that a sweep over `count` validators visits from a cursor on. -/
def visits (count cursor steps : Nat) : List Nat :=
  (List.range steps).map fun j => (cursor + j) % count

@[simp] theorem length_visits (count cursor steps : Nat) :
    (visits count cursor steps).length = steps := by
  simp [visits]

theorem visits_succ {count cursor : Nat} (h : cursor < count) (steps : Nat) :
    visits count cursor (steps + 1) = cursor :: visits count ((cursor + 1) % count) steps := by
  unfold visits
  rw [List.range_succ_eq_map, List.map_cons, List.map_map, Nat.add_zero, Nat.mod_eq_of_lt h]
  congr 1
  apply List.map_congr_left
  intro j _
  rw [Function.comp_apply, Nat.mod_add_mod]
  congr 1
  omega

/-- A sweep of no more steps than there are validators visits none of them twice. -/
theorem nodup_visits {count cursor steps : Nat} (h : steps ≤ count) :
    (visits count cursor steps).Nodup := by
  unfold visits
  rw [List.nodup_iff_pairwise_ne, List.pairwise_map]
  refine List.Pairwise.imp_of_mem ?_ List.pairwise_lt_range
  intro i j _ hj hlt heq
  have hj' : j < steps := List.mem_range.mp hj
  -- Equal remainders would put a whole round between the two steps.
  have hdvd : (cursor + j - (cursor + i)) % count = 0 := Nat.sub_mod_eq_zero_of_mod_eq heq.symm
  rw [Nat.mod_eq_of_lt (by omega)] at hdvd
  omega

/-- What comes before a visited position is a shorter sweep. -/
theorem visits_eq_append_iff {count cursor steps i : Nat} {before after : List Nat}
    (h : visits count cursor steps = before ++ i :: after) :
    before.length < steps ∧ before = visits count cursor before.length ∧
      i = (cursor + before.length) % count := by
  have hlen : steps = before.length + (after.length + 1) := by
    have := congrArg List.length h
    simpa using this
  have hlt : before.length < steps := by omega
  refine ⟨hlt, ?_, ?_⟩
  · have htake := congrArg (List.take before.length) h
    rw [List.take_left] at htake
    rw [← htake]
    simp [visits, ← List.map_take, List.take_range, Nat.min_eq_left (Nat.le_of_lt hlt)]
  · have hget := congrArg (fun l => l[before.length]?) h
    simp only [visits, List.getElem?_map, List.getElem?_range hlt, Option.map_some,
      List.getElem?_append_right (Nat.le_refl _), Nat.sub_self, List.getElem?_cons_zero] at hget
    exact (Option.some.inj hget).symm

theorem exists_visits_append (count cursor : Nat) {steps j : Nat} (h : j < steps) :
    ∃ after, visits count cursor steps =
      visits count cursor j ++ (cursor + j) % count :: after := by
  have hsplit : (List.range steps) = List.range j ++ j :: (List.range steps).drop (j + 1) := by
    have htake : (List.range steps).take j = List.range j := by
      simp [List.take_range, Nat.min_eq_left (Nat.le_of_lt h)]
    have hdrop : (List.range steps).drop j = j :: (List.range steps).drop (j + 1) := by
      rw [List.drop_eq_getElem_cons (by simpa using h), List.getElem_range]
    rw [← htake, ← hdrop, List.take_append_drop]
  have hmap := congrArg (List.map fun k => (cursor + k) % count) hsplit
  rw [List.map_append, List.map_cons] at hmap
  exact ⟨_, hmap⟩

/-! ## The sweep over a list of positions -/

/-- The withdrawals that make payments under numbers from `first` on. -/
def numbered (first : Nat) (dues : List Due) : List Withdrawal :=
  (dues.zipIdx first).map fun d => d.1.withdrawal d.2

@[simp] theorem length_numbered (first : Nat) (dues : List Due) :
    (numbered first dues).length = dues.length := by
  simp [numbered]

theorem map_validatorIndex_numbered (first : Nat) (dues : List Due) :
    (numbered first dues).map (·.validatorIndex) = dues.map (·.position) := by
  induction dues generalizing first with
  | nil => rfl
  | cons d dues ih =>
    have := ih (first + 1)
    simpa [numbered, Due.withdrawal] using this

/-- The sweep over the positions ahead, with room for some withdrawals. -/
def Census.run (c : Census) (t : Terms) (epoch : Int) :
    (positions : List Nat) → (room index : Nat) → Except Failure (List Withdrawal)
  | [], _, _ => .ok []
  | _ :: _, 0, _ => .ok []
  | i :: rest, room + 1, index =>
    if c.balances.length ≤ i then .error (c.registry.missing i)
    else
      match c.due? t epoch i with
      | none => c.run t epoch rest (room + 1) index
      | some d =>
        if index < Bytes.capacity 8 then
          (c.run t epoch rest room (index + 1)).map (d.withdrawal index :: ·)
        else .error .malformed

theorem next_registry (c : Census) (position : Nat) :
    c.registry.next position = ((position + 1) % c.validators.length : Nat) := by
  unfold Registry.next
  rw [Int.fmod_eq_emod_of_nonneg _ (Int.natCast_nonneg _)]
  simp [Census.registry]

theorem reaches_registry (c : Census) {position : Nat} (h : position < c.validators.length) :
    c.registry.reaches position = decide (position < c.balances.length) := by
  simp [Registry.reaches, Census.registry, h]

/-- The counters of a sweep amount to a walk over the positions ahead. -/
theorem sweepFrom_registry (c : Census) {t : Terms} {spec : Spec} (ht : t.Of spec) (epoch : Int)
    (room steps : Nat) : ∀ (position index : Nat) (taken : List Withdrawal),
      position < c.validators.length →
      c.registry.sweepFrom (.int epoch) spec room steps position index taken =
        (c.run t epoch (visits c.validators.length position steps) (room - taken.length) index).map
          (taken.reverse ++ ·) := by
  -- The induction is on the steps that are left; position, number and taken withdrawals change with
  -- every step.
  induction steps with
  | zero =>
    intro position index taken _
    simp [Registry.sweepFrom, visits, Census.run, Except.map]
  | succ steps ih =>
    intro position index taken hposition
    have hnext : (position + 1) % c.validators.length < c.validators.length :=
      Nat.mod_lt _ (by omega)
    rw [visits_succ hposition]
    unfold Registry.sweepFrom
    by_cases hfull : room ≤ taken.length
    · -- Neither the sweep nor the walk looks at another position.
      rw [if_pos hfull, Nat.sub_eq_zero_of_le hfull]
      simp [Census.run, Except.map]
    · obtain ⟨left, hleft⟩ : ∃ left, room - taken.length = left + 1 :=
        ⟨room - taken.length - 1, by omega⟩
      rw [if_neg hfull, hleft, reaches_registry c hposition, Census.run]
      by_cases hbalance : position < c.balances.length
      · have hle : ¬ c.balances.length ≤ position := by omega
        simp only [hbalance, decide_true, Bool.not_true, Bool.false_eq_true, if_false, if_neg hle,
          dueAt_registry c ht epoch hposition hbalance]
        cases hd : c.due? t epoch position with
        | none =>
          simp only [Option.map_none]
          rw [next_registry, ih _ index taken hnext, hleft]
        | some d =>
          simp only [Option.map_some]
          rw [withdrawalOf_due c hd]
          by_cases hindex : index < Bytes.capacity 8
          · -- The withdrawal takes one place: it moves from the room to what is taken.
            have hroom : room - (d.withdrawal index :: taken).length = left := by
              simp only [List.length_cons]
              omega
            have htail := ih _ (index + 1) (d.withdrawal index :: taken) hnext
            rw [hroom] at htail
            simp only [hindex, if_true, next_registry]
            rw [show ((index : Int) + 1) = ((index + 1 : Nat) : Int) from rfl, htail]
            cases c.run t epoch (visits c.validators.length
              ((position + 1) % c.validators.length) steps) left (index + 1) <;>
              simp [Except.map]
          · simp [hindex, Except.map]
      · have hle : c.balances.length ≤ position := by omega
        simp [hbalance, hle, Except.map]

/-- Room for more withdrawals than there are positions ahead makes no difference. -/
theorem Census.run_congr_room (c : Census) (t : Terms) (epoch : Int) (positions : List Nat) :
    ∀ (room room' index : Nat), min positions.length room = min positions.length room' →
      c.run t epoch positions room index = c.run t epoch positions room' index := by
  induction positions with
  | nil => intro room room' index _; rfl
  | cons i rest ih =>
    intro room room' index h
    rw [List.length_cons] at h
    -- Either both rooms are used up or neither is, and one step keeps that.
    match room, room' with
    | 0, 0 => rfl
    | 0, room' + 1 => omega
    | room + 1, 0 => omega
    | room + 1, room' + 1 =>
      have hsame : ∀ index, c.run t epoch rest (room + 1) index =
          c.run t epoch rest (room' + 1) index := fun index => ih _ _ index (by omega)
      have hfewer : ∀ index, c.run t epoch rest room index = c.run t epoch rest room' index :=
        fun index => ih _ _ index (by omega)
      simp only [Census.run, hsame, hfewer]

/-- A registry with validators is swept from the cursor, wherever that is. -/
theorem sweep_eq_sweepFrom (c : Census) {t : Terms} {spec : Spec} (ht : t.Of spec) (epoch : Int)
    (first cursor : Nat) (hne : c.validators ≠ []) :
    c.registry.sweep (.int first) (.int cursor) (.int epoch) spec =
      c.registry.sweepFrom (.int epoch) spec
        (min (min c.validators.length t.sweepLimit) t.payloadLimit)
        (min c.validators.length t.sweepLimit) cursor first [] := by
  have hempty : c.registry.validators.isEmpty = false := List.isEmpty_eq_false_iff.mpr hne
  have hreach : c.registry.reach spec = .ok (min c.validators.length t.sweepLimit) := by
    unfold Registry.reach
    rw [ht.sweepLimit]
    by_cases h : t.sweepLimit < c.validators.length
    · simp [Census.registry, h, bind, Except.bind]
    · have hmin : min c.validators.length t.sweepLimit = c.validators.length := by omega
      simp [Census.registry, h, hmin, bind, Except.bind, pure, Except.pure]
  unfold Registry.sweep
  simp only [hempty, Bool.false_eq_true, if_false, hreach, Datum.plainInteger, bind, Except.bind,
    pure, Except.pure]
  by_cases hsteps : min c.validators.length t.sweepLimit = 0
  · simp [hsteps, Registry.sweepFrom]
  · rw [if_neg hsteps, ht.payloadLimit]
    simp only [Datum.countBelow_int, Int.toNat_natCast]

/-- A sweep whose cursor lies in the registry is the walk over the positions from there on. -/
theorem sweep_registry (c : Census) {t : Terms} {spec : Spec} (ht : t.Of spec) (epoch : Int)
    {cursor : Nat} (first : Nat) (hcursor : cursor < c.validators.length) :
    c.registry.sweep (.int first) (.int cursor) (.int epoch) spec =
      c.run t epoch (visits c.validators.length cursor (min c.validators.length t.sweepLimit))
        t.payloadLimit first := by
  have hne : c.validators ≠ [] := List.length_pos_iff.mp (by omega)
  rw [sweep_eq_sweepFrom c ht epoch first cursor hne,
    sweepFrom_registry c ht epoch _ _ cursor first [] hcursor,
    c.run_congr_room t epoch _ _ t.payloadLimit first
      (by rw [length_visits, List.length_nil]; omega)]
  cases c.run t epoch _ t.payloadLimit first <;> simp [Except.map]

end BeaconHarness.Withdrawals
