import BeaconHarness.Node.Api
import BeaconHarness.Proofs.Wait.Guarantee

/-!
# Requests and what they leave

A request opens a session if none is open, is written down by the node, and uses up one reply.
Nothing else of a link changes. A job that may do these two things may make the request, and a
reply that it is handed is the one that the node had for it at that moment.
-/

namespace BeaconHarness.Node

open Work (Guarantees Composes)

/-! ## Moments of a network -/

namespace Remote

/-- The network at a later moment: the same replies are set up, and requests may have been made. -/
structure Later (r r' : Remote) : Prop where
  routes : r'.routes = r.routes
  asked : r.asked <:+ r'.asked

theorem Later.refl (r : Remote) : Later r r := ⟨rfl, List.suffix_refl _⟩

theorem Later.trans {r₁ r₂ r₃ : Remote} (h : Later r₁ r₂) (h' : Later r₂ r₃) : Later r₁ r₃ :=
  ⟨h'.routes.trans h.routes, h.asked.trans h'.asked⟩

/-- A reply to a request that was made between two moments. -/
def Replied (r r' : Remote) (route : Route) (reply : Reply) : Prop :=
  ∃ earlier : List Route, r.asked <:+ earlier ∧ route :: earlier <:+ r'.asked
    ∧ reply = { r with asked := earlier }.replyTo route

theorem replied_next (r : Remote) (route : Route) :
    Replied r (r.next route).2 route (r.replyTo route) :=
  ⟨r.asked, List.suffix_refl _, List.suffix_refl _, rfl⟩

/-- A reply that came between two moments came also between moments further apart. -/
theorem Replied.of_later {r₁ r₂ r₃ r₄ : Remote} {route : Route} {reply : Reply}
    (h : Replied r₂ r₃ route reply) (hbefore : Later r₁ r₂) (hafter : Later r₃ r₄) :
    Replied r₁ r₄ route reply := by
  obtain ⟨earlier, hmade, hlogged, hreply⟩ := h
  have hsame : { r₂ with asked := earlier } = { r₁ with asked := earlier } := by
    rw [hbefore.routes]
  exact ⟨earlier, hbefore.asked.trans hmade, hlogged.trans hafter.asked, by rw [hreply, hsame]⟩

end Remote

namespace Endpoint

variable {κ : Type} {R : Link κ → Link κ → Prop} {w : Link κ}

/-! ## One request -/

/-- The characters of a path stay where they are when more comes behind them. -/
theorem getElem?_path {path rest : String} {i : Nat} {x : Char} (h : path.toList[i]? = some x) :
    (path ++ rest).toList[i]? = some x := by
  obtain ⟨hi, -⟩ := List.getElem?_eq_some_iff.mp h
  rw [String.toList_append, List.getElem?_append_left hi]
  exact h

/-- What tells a request apart that the endpoint makes. -/
def route (e : Endpoint) (verb : Verb) (path : String) : Route :=
  ⟨e.address, verb.name ++ " " ++ path⟩

/-- Requests for JSON and for bytes are told apart. -/
theorem route_json_ne_bytes (e : Endpoint) (path other : String) :
    e.route .json path ≠ e.route .bytes other := by
  intro h
  have hrequest : ("GET" ++ " " ++ path).toList.head? = ("SSZ" ++ " " ++ other).toList.head? :=
    congrArg (fun route : Route => route.request.toList.head?) h
  simp only [String.append_assoc, String.toList_append] at hrequest
  exact nomatch hrequest

/-- Changes of a link among which are those of a request on a route. -/
structure Permits (R : Link κ → Link κ → Prop) (route : Route) : Prop extends Composes R where
  opens : ∀ w, R w { w with isOpen := true }
  asks : ∀ w, R w { w with remote := (w.remote.next route).2 }

theorem guarantees_openSession {route : Route} (hR : Permits R route) (e : Endpoint) :
    Guarantees R w e.openSession fun _ v => v.remote = w.remote := by
  rw [openSession]
  refine (Work.guarantees_world hR.toComposes).bind hR.toComposes fun link v _ hv => ?_
  obtain ⟨rfl, rfl⟩ := hv
  split
  · exact (Work.guarantees_done hR.toComposes).mono fun _ _ _ h => congrArg Link.remote h.2
  · refine (Work.guarantees_note hR.toComposes).bind hR.toComposes fun _ u _ hu => ?_
    subst hu
    exact (Work.guarantees_change (hR.opens _)).mono fun _ _ _ h => by rw [h]

theorem guarantees_await (hR : Composes R) (e : Endpoint) (reply : Reply) :
    Guarantees R w (e.await reply) fun r v => v = w ∧ r = reply ∧ reply.failure = none := by
  rw [await]
  split
  case' h_1 => refine (Work.guarantees_done hR).bind hR fun isLate v _ hv => ?_
  case' h_2 => refine (Work.guarantees_ofExcept hR).bind hR fun isLate v _ hv => ?_
  all_goals
    obtain ⟨-, rfl⟩ := hv
    cases isLate with
    | true =>
      refine (Work.guarantees_sleepFor hR).bind hR fun _ u _ _ => ?_
      exact (Work.guarantees_fail (Q := fun _ _ => False) hR).bind hR fun _ _ _ h => h.elim
    | false =>
      refine (Work.guarantees_pause hR).bind hR fun _ u _ hu => ?_
      subst hu
      split
      · exact Work.guarantees_fail hR
      next hnone => exact (Work.guarantees_done hR).mono fun r t _ h => ⟨h.2, h.1, hnone⟩

/-- A request is made once, and the reply it is handed is the one that was due. -/
theorem guarantees_send (e : Endpoint) {verb : Verb} {path : String}
    (hR : Permits R (e.route verb path)) (query : List (String × String))
    (payload : Option Datum) :
    Guarantees R w (e.send verb path query payload) fun reply v =>
      v.remote = (w.remote.next (e.route verb path)).2
      ∧ reply = w.remote.replyTo (e.route verb path) ∧ reply.failure = none := by
  have hC := hR.toComposes
  rw [send]
  refine (guarantees_openSession hR e).bind hC fun _ v _ hv => ?_
  refine (Work.guarantees_note hC).bind hC fun _ u _ hu => ?_
  subst hu
  refine (Work.guarantees_world hC).bind hC fun link t _ ht => ?_
  obtain ⟨rfl, rfl⟩ := ht
  refine (Work.guarantees_change (hR.asks _)).bind hC fun _ u _ hu => ?_
  subst hu
  refine (guarantees_await hC e _).mono fun reply x _ h => ?_
  obtain ⟨rfl, rfl, hfailure⟩ := h
  rw [hv] at hfailure ⊢
  exact ⟨rfl, rfl, hfailure⟩

theorem guarantees_checked (hR : Composes R) (path : String) (reply : Reply) :
    Guarantees R w (checked path reply) fun r v =>
      v = w ∧ r = reply ∧ Reply.fault? reply path = none := by
  rw [checked]
  split
  · exact Work.guarantees_fail hR
  next hnone => exact (Work.guarantees_done hR).mono fun r v _ h => ⟨h.2, h.1, hnone⟩

/-! ## Answers -/

/-- The endpoint was answered with JSON when it asked for a path between two moments. -/
def Answered (e : Endpoint) (path : String) (r r' : Remote) (answer : Datum) : Prop :=
  ∃ reply, r.Replied r' (e.route .json path) reply ∧ reply.failure = none
    ∧ Reply.fault? reply path = none ∧ reply.json = some answer

theorem Answered.of_later {e : Endpoint} {path : String} {r₁ r₂ r₃ r₄ : Remote} {answer : Datum}
    (h : e.Answered path r₂ r₃ answer) (hbefore : r₁.Later r₂) (hafter : r₃.Later r₄) :
    e.Answered path r₁ r₄ answer := by
  obtain ⟨reply, hreplied, hgood⟩ := h
  exact ⟨reply, hreplied.of_later hbefore hafter, hgood⟩

/-- What is read from JSON was answered to the request for it. -/
theorem guarantees_getJson (e : Endpoint) {path : String} (hR : Permits R (e.route .json path))
    (query : List (String × String)) :
    Guarantees R w (e.getJson path query) fun answer v =>
      e.Answered path w.remote v.remote answer := by
  have hC := hR.toComposes
  rw [getJson]
  refine (guarantees_send e hR query none).bind hC fun reply v _ hsent => ?_
  refine (guarantees_checked hC path reply).bind hC fun r u _ hchecked => ?_
  obtain ⟨hremote, hreply, hfailure⟩ := hsent
  obtain ⟨rfl, rfl, hfault⟩ := hchecked
  split
  next d hjson =>
    refine (Work.guarantees_done hC).mono fun answer t _ h => ?_
    obtain ⟨rfl, rfl⟩ := h
    refine ⟨r, ?_, hfailure, hfault, hjson⟩
    rw [hremote, hreply]
    exact Remote.replied_next _ _
  next => exact Work.guarantees_fail hC

/-! ## Configuration and genesis -/

/-- The path of the network's configuration. -/
def specPath : String := "/eth/v1/config/spec"

/-- The path of the network's genesis. -/
def genesisPath : String := "/eth/v1/beacon/genesis"

/-- The endpoint was served this configuration between two moments. -/
def ServedSpec (e : Endpoint) (r r' : Remote) (data : Datum) : Prop :=
  ∃ answer, e.Answered specPath r r' answer ∧ answer.entryOr "data" (.dict []) = .ok data

/-- The endpoint was served this genesis between two moments. -/
def ServedGenesis (e : Endpoint) (r r' : Remote) (genesis : Genesis) : Prop :=
  ∃ answer, e.Answered genesisPath r r' answer
    ∧ (do Genesis.ofDatum (← answer.entry "data")) = .ok genesis

theorem ServedSpec.of_later {e : Endpoint} {r₁ r₂ r₃ r₄ : Remote} {data : Datum}
    (h : e.ServedSpec r₂ r₃ data) (hbefore : r₁.Later r₂) (hafter : r₃.Later r₄) :
    e.ServedSpec r₁ r₄ data := by
  obtain ⟨answer, hanswered, hread⟩ := h
  exact ⟨answer, hanswered.of_later hbefore hafter, hread⟩

theorem ServedGenesis.of_later {e : Endpoint} {r₁ r₂ r₃ r₄ : Remote} {genesis : Genesis}
    (h : e.ServedGenesis r₂ r₃ genesis) (hbefore : r₁.Later r₂) (hafter : r₃.Later r₄) :
    e.ServedGenesis r₁ r₄ genesis := by
  obtain ⟨answer, hanswered, hread⟩ := h
  exact ⟨answer, hanswered.of_later hbefore hafter, hread⟩

theorem guarantees_spec (e : Endpoint) (hR : Permits R (e.route .json specPath)) :
    Guarantees R w e.spec fun data v => e.ServedSpec w.remote v.remote data := by
  refine (guarantees_getJson e hR []).bind hR.toComposes fun answer v _ hanswered => ?_
  refine (Work.guarantees_ofExcept hR.toComposes).mono fun data u _ h => ?_
  obtain ⟨hread, rfl⟩ := h
  exact ⟨answer, hanswered, hread⟩

theorem guarantees_genesis (e : Endpoint) (hR : Permits R (e.route .json genesisPath)) :
    Guarantees R w e.genesis fun genesis v => e.ServedGenesis w.remote v.remote genesis := by
  refine (guarantees_getJson e hR []).bind hR.toComposes fun answer v _ hanswered => ?_
  refine (Work.guarantees_ofExcept hR.toComposes).mono fun genesis u _ h => ?_
  obtain ⟨hread, rfl⟩ := h
  exact ⟨answer, hanswered, hread⟩

end Endpoint

end BeaconHarness.Node
