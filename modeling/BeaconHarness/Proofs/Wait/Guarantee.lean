import BeaconHarness.Wait.Poll
import BeaconHarness.Wait.Span
import BeaconHarness.Wait.Together

/-!
# What work guarantees

Work may be done, fail, be stopped by an alarm or stay undecided. A relation between worlds that it
guarantees holds between the world it starts in and the world it leaves, however it ends; what it
brings about holds only when it is done. There is one rule for each way in which work is put
together, so that what a job guarantees follows the text of the job.

Relations that are guaranteed compose. Work done together is followed piece by piece: each piece
starts in a world that those before it have left, and what it brings about has to last through the
pieces behind it.
-/

namespace BeaconHarness.Work

variable {σ ν α β : Type} {R : σ → σ → Prop} {w : σ}

/-! ## Changes and properties -/

/-- Changes of a world of which none or several may happen. -/
structure Composes (R : σ → σ → Prop) : Prop where
  refl : ∀ w, R w w
  trans : ∀ {u v w}, R u v → R v w → R u w

/-- A property that no change ends. -/
def Lasting (R : σ → σ → Prop) (Q : σ → Prop) : Prop := ∀ u v, R u v → Q u → Q v

/-- Work that starts in the world `w` leaves a world related to it, and has brought about `Q` if it
is done. -/
def Guarantees (R : σ → σ → Prop) (w : σ) (work : Work σ ν α) (Q : α → σ → Prop) : Prop :=
  ∀ alarms s, s.world = w →
    R w (work alarms s).2.world ∧ ∀ a, (work alarms s).1 = .done a → Q a (work alarms s).2.world

theorem Guarantees.mono {work : Work σ ν α} {P Q : α → σ → Prop} (h : Guarantees R w work P)
    (hPQ : ∀ a v, R w v → P a v → Q a v) : Guarantees R w work Q := by
  intro alarms s hs
  obtain ⟨hR, hP⟩ := h alarms s hs
  exact ⟨hR, fun a ha => hPQ a _ hR (hP a ha)⟩

theorem Guarantees.weaken {work : Work σ ν α} {P : α → σ → Prop} (h : Guarantees R w work P) :
    Guarantees R w work fun _ _ => True :=
  h.mono fun _ _ _ _ => trivial

/-! ## Single steps -/

section Steps

variable (hR : Composes R)

include hR

theorem guarantees_done {a : α} : Guarantees R w (done a : Work σ ν α) fun b v => b = a ∧ v = w := by
  intro alarms s hs
  subst hs
  exact ⟨hR.refl _, fun b hb => by cases hb; exact ⟨rfl, rfl⟩⟩

theorem guarantees_fail {e : Failure} {Q : α → σ → Prop} :
    Guarantees R w (fail e : Work σ ν α) Q := by
  intro alarms s hs
  subst hs
  exact ⟨hR.refl _, fun _ hb => by cases hb⟩

theorem guarantees_unsettled {Q : α → σ → Prop} :
    Guarantees R w (unsettled : Work σ ν α) Q := by
  intro alarms s hs
  subst hs
  exact ⟨hR.refl _, fun _ hb => by cases hb⟩

theorem guarantees_ofExcept {r : Except Failure α} :
    Guarantees R w (ofExcept r : Work σ ν α) fun a v => r = .ok a ∧ v = w := by
  cases r with
  | ok a => exact (guarantees_done hR).mono fun b v _ h => ⟨congrArg _ h.1.symm, h.2⟩
  | error e => exact guarantees_fail hR

theorem guarantees_clock : Guarantees R w (clock : Work σ ν Nat) fun _ v => v = w := by
  intro alarms s hs
  subst hs
  exact ⟨hR.refl _, fun _ _ => rfl⟩

theorem guarantees_world : Guarantees R w (world : Work σ ν σ) fun a v => a = w ∧ v = w := by
  intro alarms s hs
  subst hs
  exact ⟨hR.refl _, fun b hb => by cases hb; exact ⟨rfl, rfl⟩⟩

theorem guarantees_note {n : ν} : Guarantees R w (note n : Work σ ν Unit) fun _ v => v = w := by
  intro alarms s hs
  subst hs
  exact ⟨hR.refl _, fun _ _ => rfl⟩

theorem guarantees_sleep {length : Nat} :
    Guarantees R w (sleep length : Work σ ν Unit) fun _ v => v = w := by
  intro alarms s hs
  subst hs
  have hworld : ((sleep length : Work σ ν Unit) alarms s).2.world = s.world := by
    rw [sleep]
    split <;> rfl
  rw [hworld]
  exact ⟨hR.refl _, fun _ _ => rfl⟩

end Steps

theorem guarantees_change {f : σ → σ} (h : R w (f w)) :
    Guarantees R w (change f : Work σ ν Unit) fun _ v => v = f w := by
  intro alarms s hs
  subst hs
  exact ⟨h, fun _ _ => rfl⟩

/-! ## Sequences -/

theorem Guarantees.bind (hR : Composes R) {work : Work σ ν α} {next : α → Work σ ν β}
    {P : α → σ → Prop} {Q : β → σ → Prop} (h : Guarantees R w work P)
    (hnext : ∀ a v, R w v → P a v → Guarantees R v (next a) Q) :
    Guarantees R w (work >>= next) Q := by
  intro alarms s hs
  obtain ⟨hwork, hP⟩ := h alarms s hs
  show R w (andThen work next alarms s).2.world
    ∧ ∀ b, (andThen work next alarms s).1 = .done b → Q b (andThen work next alarms s).2.world
  rw [andThen]
  split
  next a t heq =>
    rw [heq] at hwork hP
    obtain ⟨hrest, hQ⟩ := hnext a t.world hwork (hP a rfl) alarms t rfl
    exact ⟨hR.trans hwork hrest, hQ⟩
  next e t heq =>
    rw [heq] at hwork
    exact ⟨hwork, fun _ hb => by cases hb⟩
  next t heq =>
    rw [heq] at hwork
    exact ⟨hwork, fun _ hb => by cases hb⟩
  next t heq =>
    rw [heq] at hwork
    exact ⟨hwork, fun _ hb => by cases hb⟩

theorem Guarantees.followed (hR : Composes R) {absorbs : Bool} {work : Work σ ν α}
    {next : Except Failure α → Work σ ν β} {P : α → σ → Prop} {Q : β → σ → Prop}
    (h : Guarantees R w work P)
    (hok : ∀ a v, R w v → P a v → Guarantees R v (next (.ok a)) Q)
    (herror : ∀ e v, R w v → Guarantees R v (next (.error e)) Q) :
    Guarantees R w (followed absorbs work next) Q := by
  intro alarms s hs
  obtain ⟨hwork, hP⟩ := h alarms s hs
  rw [Work.followed]
  split
  next a t heq =>
    rw [heq] at hwork hP
    obtain ⟨hrest, hQ⟩ := hok a t.world hwork (hP a rfl) alarms t rfl
    exact ⟨hR.trans hwork hrest, hQ⟩
  next e t heq =>
    rw [heq] at hwork
    obtain ⟨hrest, hQ⟩ := herror e t.world hwork alarms t rfl
    exact ⟨hR.trans hwork hrest, hQ⟩
  next t heq =>
    rw [heq] at hwork
    cases absorbs with
    | false => exact ⟨hwork, fun _ hb => by cases hb⟩
    | true =>
      obtain ⟨hrest, hQ⟩ := herror .cancelled t.world hwork
        (alarms.filter fun a => !a.ringsBy t.now) t rfl
      exact ⟨hR.trans hwork hrest, hQ⟩
  next t heq =>
    rw [heq] at hwork
    exact ⟨hwork, fun _ hb => by cases hb⟩

/-- A deadline changes how work ends, but not the world, and never makes it done. -/
theorem Guarantees.within {limit : Option Limit} {what : String} {work : Work σ ν α}
    {Q : α → σ → Prop} (h : Guarantees R w work Q) :
    Guarantees R w (within limit what work) Q := by
  cases limit with
  | none => exact h
  | some l =>
    intro alarms s hs
    obtain ⟨hwork, hQ⟩ := h (l.alarm s.now :: alarms) s hs
    simp only [Work.within]
    split
    next t heq =>
      rw [heq] at hwork
      split
      · exact ⟨hwork, fun _ hb => by cases hb⟩
      · exact ⟨hwork, fun _ hb => by cases hb⟩
    next t heq =>
      rw [heq] at hwork
      split
      · exact ⟨hwork, fun _ hb => by cases hb⟩
      · exact ⟨hwork, fun _ hb => by cases hb⟩
    next => exact ⟨hwork, hQ⟩

theorem guarantees_sleepFor (hR : Composes R) {d : Datum} :
    Guarantees R w (sleepFor d : Work σ ν Unit) fun _ v => v = w := by
  rw [sleepFor]
  split
  · exact guarantees_sleep hR
  · refine (guarantees_clock hR).bind hR fun now v _ hv => ?_
    rw [hv]
    exact guarantees_sleep hR
  · exact guarantees_fail hR

theorem guarantees_pause (hR : Composes R) {d : Datum} :
    Guarantees R w (pause d : Work σ ν Unit) fun _ v => v = w := by
  rw [pause]
  split
  · exact guarantees_sleepFor hR
  · exact (guarantees_done hR).mono fun _ _ _ h => h.2

/-- Asking again and again brings about what one query brings about that answers. -/
theorem guarantees_retryRounds (hR : Composes R) {wait : Work σ ν Unit}
    {retryOn : List FailureKind} {query : Work σ ν (Option α)} {Q : α → σ → Prop}
    (hwait : ∀ v, R w v → Guarantees R v wait fun _ _ => True)
    (hquery : ∀ v, R w v → Guarantees R v query fun answer u => ∀ a, answer = some a → Q a u)
    (rounds : Nat) : Guarantees R w (retryRounds wait retryOn query rounds) Q := by
  induction rounds generalizing w with
  | zero => exact guarantees_unsettled hR
  | succ rounds ih =>
    have hagain : ∀ v, R w v →
        Guarantees R v (do wait; retryRounds wait retryOn query rounds) Q := fun v hv =>
      (hwait v hv).bind hR fun _ u hu _ =>
        ih (fun t ht => hwait t (hR.trans hv (hR.trans hu ht)))
          fun t ht => hquery t (hR.trans hv (hR.trans hu ht))
    rw [retryRounds]
    refine (hquery w (hR.refl w)).followed hR (fun answer v hv hanswer => ?_) fun e v hv => ?_
    · cases answer with
      | none => exact hagain v hv
      | some a =>
        refine (guarantees_done hR).mono fun b u _ hb => ?_
        rw [hb.1, hb.2]
        exact hanswer a rfl
    · cases hretry : e.isOneOf retryOn with
      | true =>
        simp only [hretry, if_true]
        exact hagain v hv
      | false =>
        simp only [hretry, Bool.false_eq_true, if_false]
        exact guarantees_fail hR

/-! ## Work done together -/

/-- Work of which every piece has a value was done in every piece. -/
theorem done_of_settled {outcomes : List (Outcome α)} {results : List (Except Failure α)}
    {values : List α} (h : settled outcomes = some results)
    (hvalues : firstFailure results = .ok values) : ∀ o ∈ outcomes, ∃ a, o = .done a := by
  induction outcomes generalizing results values with
  | nil => exact nofun
  | cons o outcomes ih =>
    cases o with
    | done a =>
      rw [settled, Option.map_eq_some_iff] at h
      obtain ⟨rest, hrest, rfl⟩ := h
      rw [firstFailure] at hvalues
      obtain ⟨others, hothers⟩ : ∃ others, firstFailure rest = .ok others := by
        cases hrest' : firstFailure rest with
        | ok others => exact ⟨others, rfl⟩
        | error e =>
          rw [hrest'] at hvalues
          exact nomatch hvalues
      intro o ho
      rcases List.mem_cons.mp ho with rfl | ho
      · exact ⟨a, rfl⟩
      · exact ih hrest hothers o ho
    | failed e =>
      rw [settled, Option.map_eq_some_iff] at h
      obtain ⟨rest, -, rfl⟩ := h
      exact nomatch hvalues
    | interrupted => exact nomatch h
    | unsettled => exact nomatch h

section Together

variable (hR : Composes R) {works : List (Work σ ν α)}

include hR

theorem runEach_guarantees
    (hworks : ∀ work ∈ works, ∀ v, R w v → Guarantees R v work fun _ _ => True)
    (alarms : List Alarm) (start : Nat) : R w (runEach alarms start w works).2 := by
  induction works generalizing w with
  | nil => exact hR.refl w
  | cons work rest ih =>
    obtain ⟨hfirst, -⟩ := hworks work List.mem_cons_self w (hR.refl w) alarms ⟨start, w, []⟩ rfl
    have hrest := ih fun other hother v hv =>
      hworks other (List.mem_cons_of_mem work hother) v (hR.trans hfirst hv)
    exact hR.trans hfirst hrest

/-- A lasting property that one piece brings about holds in the end if all pieces are done. -/
theorem runEach_lasting
    (hworks : ∀ work ∈ works, ∀ v, R w v → Guarantees R v work fun _ _ => True)
    {work : Work σ ν α} (hmem : work ∈ works) {Q : σ → Prop} (hlasting : Lasting R Q)
    (hwork : ∀ v, R w v → Guarantees R v work fun _ => Q) {alarms : List Alarm} {start : Nat}
    (hdone : ∀ run ∈ (runEach alarms start w works).1, ∃ a, run.1 = .done a) :
    Q (runEach alarms start w works).2 := by
  induction works generalizing w with
  | nil => exact nomatch hmem
  | cons first rest ih =>
    obtain ⟨hfirst, -⟩ := hworks first List.mem_cons_self w (hR.refl w) alarms ⟨start, w, []⟩ rfl
    have hothers : ∀ other ∈ rest, ∀ v, R (first alarms ⟨start, w, []⟩).2.world v →
        Guarantees R v other fun _ _ => True := fun other hother v hv =>
      hworks other (List.mem_cons_of_mem first hother) v (hR.trans hfirst hv)
    rcases List.mem_cons.mp hmem with rfl | hmem
    · obtain ⟨a, ha⟩ := hdone _ List.mem_cons_self
      have hQ := (hwork w (hR.refl w) alarms ⟨start, w, []⟩ rfl).2 a ha
      exact hlasting _ _ (runEach_guarantees hR hothers alarms start) hQ
    · exact ih hothers hmem (fun v hv => hwork v (hR.trans hfirst hv))
        fun run hrun => hdone run (List.mem_cons_of_mem _ hrun)

theorem guarantees_together {limit : Option Limit}
    (hworks : ∀ work ∈ works, ∀ v, R w v → Guarantees R v work fun _ _ => True) :
    Guarantees R w (together limit works) fun results v =>
      ∀ values, firstFailure results = .ok values → ∀ work ∈ works, ∀ Q : σ → Prop,
        Lasting R Q → (∀ u, R w u → Guarantees R u work fun _ => Q) → Q v := by
  intro alarms s hs
  subst hs
  have hworld : (together limit works alarms s).2.world
      = (runEach alarms s.now s.world works).2 := by
    simp only [together]
    split
    · rfl
    · split <;> rfl
  have hsettled : ∀ results, (together limit works alarms s).1 = .done results →
      settled ((runEach alarms s.now s.world works).1.map Prod.fst) = some results := by
    intro results hdone
    simp only [together] at hdone
    split at hdone
    · exact nomatch hdone
    · split at hdone
      next settledResults heq =>
        cases hdone
        exact heq
      next => exact nomatch hdone
  rw [hworld]
  refine ⟨runEach_guarantees hR hworks alarms s.now, fun results hdone values hvalues => ?_⟩
  intro work hmem Q hlasting hwork
  refine runEach_lasting hR hworks hmem hlasting hwork fun run hrun => ?_
  exact done_of_settled (hsettled results hdone) hvalues _ (List.mem_map_of_mem hrun)

theorem guarantees_abandon
    (hworks : ∀ work ∈ works, ∀ v, R w v → Guarantees R v work fun _ _ => True) :
    Guarantees R w (abandon works) fun _ _ => True := by
  intro alarms s hs
  subst hs
  exact ⟨runEach_guarantees hR hworks [⟨s.now, 0⟩] s.now, fun _ _ => trivial⟩

/-- Pieces that are resolved together to values are all done: whatever lasting property one of them
brings about holds in the end. -/
theorem guarantees_resolveAll {limit : Except Failure (Option Limit)} {what : String}
    (hworks : ∀ work ∈ works, ∀ v, R w v → Guarantees R v work fun _ _ => True) :
    Guarantees R w (resolveAll limit what works) fun _ v =>
      ∀ work ∈ works, ∀ Q : σ → Prop, Lasting R Q →
        (∀ u, R w u → Guarantees R u work fun _ => Q) → Q v := by
  unfold resolveAll
  cases hempty : works.isEmpty with
  | true =>
    rw [List.isEmpty_iff.mp hempty]
    exact (guarantees_done hR).mono fun _ _ _ _ => nofun
  | false =>
    cases limit with
    | error e => exact (guarantees_abandon hR hworks).bind hR fun _ v _ _ => guarantees_fail hR
    | ok limit =>
      refine (guarantees_together hR hworks).within.bind hR fun results v _ hresults => ?_
      refine (guarantees_ofExcept hR).mono fun values u _ hvalues => ?_
      rw [hvalues.2]
      exact hresults values hvalues.1

end Together

end BeaconHarness.Work
