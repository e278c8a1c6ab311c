import BeaconHarness.Node.Chain
import BeaconHarness.Proofs.Node.Ticks

/-!
# Requests one after another

What work comes to that makes some requests can be told from what its parts come to, and so can the
requests. A request comes to what it would have come to at the beginning, if it is the first one on
its route.

Main statements: what a sequence of work comes to (`ComesTo.bind`), and work that stands in for
another after a failure that may pass (`ComesTo.orWhenTransient`).
-/

namespace BeaconHarness

namespace Node

open Work (ended)

variable {κ α β : Type} {work : Job κ α} {next : α → Job κ β} {s t : Stage (Link κ) Line}
  {r : Remote} {result : Except Failure α} {requests later : List Route}

/-- Work that makes some requests, newest first, and comes to a result. -/
def ComesTo (work : Job κ α) (s : Stage (Link κ) Line) (result : Except Failure α)
    (requests : List Route) : Prop :=
  ∃ t, work [] s = (ended result, t)
    ∧ t.world.remote = { s.world.remote with asked := requests ++ s.world.remote.asked }

namespace ComesTo

/-- Work that makes no requests. -/
theorem of_ended (h : work [] s = (ended result, s)) : ComesTo work s result [] := ⟨s, h, rfl⟩

/-- What follows a value is done at a later moment of the network. -/
theorem bind {a : α} {last : Except Failure β} (h : ComesTo work s (.ok a) requests)
    (hnext : ∀ t : Stage (Link κ) Line,
      t.world.remote = { s.world.remote with asked := requests ++ s.world.remote.asked } →
      ComesTo (next a) t last later) :
    ComesTo (work >>= next) s last (later ++ requests) := by
  obtain ⟨t, hrun, hremote⟩ := h
  obtain ⟨u, hlast, hlater⟩ := hnext t hremote
  refine ⟨u, (Work.andThen_of_done hrun).trans hlast, ?_⟩
  rw [hlater, hremote, List.append_assoc]

/-- What follows a value may make no requests. -/
theorem bind_ended {a : α} {last : Except Failure β} (h : ComesTo work s (.ok a) requests)
    (hnext : ∀ t : Stage (Link κ) Line, next a [] t = (ended last, t)) :
    ComesTo (work >>= next) s last requests := by
  obtain ⟨t, hrun, hremote⟩ := h
  exact ⟨t, (Work.andThen_of_done hrun).trans (hnext t), hremote⟩

/-- Nothing follows a failure. -/
theorem bind_of_error {e : Failure} (h : ComesTo work s (.error e) requests) :
    ComesTo (work >>= next) s (.error e) requests := by
  obtain ⟨t, hrun, hremote⟩ := h
  exact ⟨t, Work.andThen_of_failed hrun, hremote⟩

/-- What comes of work is read further by work that does nothing else. -/
theorem read {further : α → Except Failure β} (h : ComesTo work s result requests)
    (hnext : ∀ a (t : Stage (Link κ) Line), next a [] t = (ended (further a), t)) :
    ComesTo (work >>= next) s (result >>= further) requests := by
  cases result with
  | error e => exact h.bind_of_error
  | ok a => exact h.bind_ended (hnext a)

theorem map (h : ComesTo work s result requests) (f : α → β) :
    ComesTo (work >>= fun a => return f a) s (result.map f) requests := by
  have hmap : result.map f = result >>= fun a => .ok (f a) := by cases result <;> rfl
  rw [hmap]
  exact h.read fun a t => rfl

theorem attempt (h : ComesTo work s result requests) :
    ComesTo (Work.attempt work) s (.ok result) requests := by
  obtain ⟨t, hrun, hremote⟩ := h
  exact ⟨t, Client.attempt_of_ended hrun, hremote⟩

end ComesTo

namespace Endpoint

variable {e : Endpoint} {verb : Verb} {path : String} {read : Reply → Except Failure α}

theorem Asks.comesTo (h : Asks work e verb path read) (hremote : s.world.remote = r) :
    ComesTo work s (e.exchange verb path read r) [e.route verb path] := by
  subst hremote
  obtain ⟨t, hrun, hafter⟩ := h s
  exact ⟨t, hrun, hafter.remote⟩

/-- The first request on a route. -/
theorem Asks.comesTo_of_not_mem (h : Asks work e verb path read)
    (hremote : s.world.remote = { r with asked := requests ++ r.asked })
    (hnew : e.route verb path ∉ requests) :
    ComesTo work s (e.exchange verb path read r) [e.route verb path] := by
  rw [← exchange_of_not_mem hnew]
  exact h.comesTo hremote

end Endpoint

end Node

/-! ## Failures that may pass -/

/-- Whatever comes of it, if it is a failure it may pass. -/
def OnlyTransient {α : Type} (result : Except Failure α) : Prop :=
  ∀ e, result = .error e → e.isTransient = true

theorem OnlyTransient.bind {α β : Type} {result : Except Failure α}
    {next : α → Except Failure β} (h : OnlyTransient result)
    (hnext : ∀ a, result = .ok a → OnlyTransient (next a)) : OnlyTransient (result >>= next) := by
  cases result with
  | ok a => exact hnext a rfl
  | error e =>
    intro other hother
    exact h other (congrArg Except.error (Except.error.inj hother))

theorem OnlyTransient.map {α β : Type} {result : Except Failure α} (h : OnlyTransient result)
    (f : α → β) : OnlyTransient (result.map f) := by
  have hmap : result.map f = result >>= fun a => .ok (f a) := by cases result <;> rfl
  rw [hmap]
  exact h.bind fun a _ => nofun

open Client (orWhenTransient) in
/-- After a failure that may pass there is another value in its place. -/
theorem Node.ComesTo.orWhenTransient {α : Type} {work : Client.Job α}
    {s : Stage (Node.Link ClientConfig) Node.Line} {result : Except Failure α}
    {requests : List Node.Route} (h : Node.ComesTo work s result requests)
    (htransient : OnlyTransient result) (otherwise : α) :
    Node.ComesTo (Client.orWhenTransient otherwise work) s
      (.ok (result.toOption.getD otherwise)) requests := by
  refine h.attempt.bind_ended fun t => ?_
  cases result with
  | ok a => rfl
  | error e =>
    have hpasses : e.isTransient = true := htransient e rfl
    show (if e.isTransient then return otherwise else Work.fail e : Client.Job α) [] t = _
    rw [hpasses]
    rfl

end BeaconHarness
