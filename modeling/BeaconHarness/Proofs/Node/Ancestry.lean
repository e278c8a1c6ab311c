import BeaconHarness.Node.Chain
import BeaconHarness.Proofs.Node.FlagWait
import Mathlib.Algebra.Order.BigOperators.Group.List

/-!
# Headers and their ancestors

A header names the root of its parent, under which the parent's header is asked for. Headers from one
back to the one without a parent, each served when it was asked for, are an ancestry. It ends early
if one of the requests fails.

How long an ancestry can be is bounded by the replies that are set up. A request either uses up a
reply, or is answered for ever as it is now. Of requests of the second kind that follow one another
no two are the same, since they would lead to one another for ever.

Main statement: no ancestry is longer than `longestChain` (`Ancestry.length_le_longestChain`).
-/

namespace BeaconHarness

/-- The root of the parent's block; that of zeros stands for "no parent". -/
def Node.HeaderInfo.parentRoot (header : Node.HeaderInfo) : Bytes :=
  header.header.message.parentRoot

/-! ## Replies that are left -/

namespace Node.Remote

/-- How many replies are set up that have not been used up. -/
def left (r : Remote) : Nat := (r.routes.map fun e => e.2.length - r.asked.count e.1).sum

/-- Whether all replies on a route have been used up, so that the last one is due for ever. -/
def Spent (r : Remote) (route : Route) : Prop := r.supply route ≤ r.asked.count route

variable {r : Remote} {route other : Route}

theorem left_le_replyCount (r : Remote) : r.left ≤ r.replyCount := by
  rw [left, replyCount, List.length_flatMap]
  exact List.sum_le_sum fun e _ => Nat.sub_le _ _

/-- No request leaves more replies. -/
theorem left_next_le (r : Remote) (route : Route) : (r.next route).2.left ≤ r.left := by
  refine List.sum_le_sum fun e _ => ?_
  have hcount : r.asked.count e.1 ≤ (route :: r.asked).count e.1 := List.count_le_count_cons
  exact Nat.sub_le_sub_left hcount _

/-- A request on a route that is not spent leaves fewer. -/
theorem left_next_lt (h : ¬ r.Spent route) : (r.next route).2.left < r.left := by
  rw [Spent, supply, not_le] at h
  cases hreplies : r.routes.lookup route with
  | none =>
    rw [hreplies] at h
    exact absurd h (Nat.not_lt_zero _)
  | some replies =>
    rw [hreplies, Option.getD_some] at h
    obtain ⟨before, after, hroutes, -⟩ := List.lookup_eq_some_iff.mp hreplies
    have hmem : (route, replies) ∈ r.routes := by
      rw [hroutes]
      exact List.mem_append.mpr (.inr List.mem_cons_self)
    refine List.sum_lt_sum _ _ (fun e _ => ?_) ⟨(route, replies), hmem, ?_⟩
    · have hcount : r.asked.count e.1 ≤ (route :: r.asked).count e.1 := List.count_le_count_cons
      exact Nat.sub_le_sub_left hcount _
    · have hcount : (route :: r.asked).count route = r.asked.count route + 1 :=
        List.count_cons_self
      show replies.length - (route :: r.asked).count route
        < replies.length - r.asked.count route
      rw [hcount]
      omega

/-- What is spent stays so. -/
theorem Spent.next (h : r.Spent route) (other : Route) : (r.next other).2.Spent route :=
  Nat.le_trans h List.count_le_count_cons

theorem Spent.replyTo_next (h : r.Spent route) (other : Route) :
    (r.next other).2.replyTo route = r.replyTo route := by
  rw [replyTo_of_spent h, replyTo_of_spent (h.next other), routes_next]

end Node.Remote

namespace Client

open Node (Remote Route Reply HeaderInfo)
open Node.Endpoint (headerPath headerOf)

/-! ## Ancestries -/

/-- The headers that are served from one back to the one without a parent, when each is asked for
after the one before, and the failure that ends them early, if there is one. -/
inductive Ancestry (c : Client) : Remote → Datum → List HeaderInfo → Option Failure → Prop
  /-- The header has no parent. -/
  | first {r : Remote} {id : Datum} {header : HeaderInfo} (hserved : c.headerAt id r = .ok header)
    (hroot : header.parentRoot = Signing.zeroRoot) : Ancestry c r id [header] none
  /-- The request for the header fails. -/
  | fails {r : Remote} {id : Datum} {e : Failure} (hfailed : c.headerAt id r = .error e) :
    Ancestry c r id [] (some e)
  /-- The header has a parent. -/
  | child {r : Remote} {id : Datum} {header : HeaderInfo} {ancestors : List HeaderInfo}
    {failure : Option Failure} (hserved : c.headerAt id r = .ok header)
    (hparent : header.parentRoot ≠ Signing.zeroRoot)
    (hnext : Ancestry c (r.next (c.headerRoute id)).2 (.bytes header.parentRoot) ancestors failure) :
    Ancestry c r id (header :: ancestors) failure

variable {c : Client} {r r' : Remote} {id other : Datum} {header : HeaderInfo}
  {headers : List HeaderInfo} {failure : Option Failure} {visited : List Route}

/-- An ancestry that does not end early has a header. -/
theorem Ancestry.ne_nil (h : c.Ancestry r id headers none) : headers ≠ [] := by
  cases h <;> exact List.cons_ne_nil _ _

/-! ## Requests for headers -/

theorem headerAt_congr (h : r'.replyTo (c.headerRoute id) = r.replyTo (c.headerRoute id)) :
    c.headerAt id r' = c.headerAt id r :=
  Node.Endpoint.exchange_congr h

/-- What a request for a header comes to is told by its route. -/
theorem headerAt_of_route_eq (h : c.headerRoute other = c.headerRoute id) :
    c.headerAt other r = c.headerAt id r := by
  have hrequest : "GET" ++ " " ++ headerPath other = "GET" ++ " " ++ headerPath id :=
    congrArg Route.request h
  have hpath : headerPath other = headerPath id := (String.append_right_inj _).mp hrequest
  have hread : headerOf other = headerOf id := by
    funext reply
    rw [headerOf, headerOf, hpath]
  show Node.Endpoint.exchange _ _ _ _ _ = Node.Endpoint.exchange _ _ _ _ _
  rw [hpath, hread]

/-- A header is served on a route that the node knows. -/
theorem mem_routes_of_headerAt (h : c.headerAt id r = .ok header) :
    c.headerRoute id ∈ r.routes.map Prod.fst := by
  cases hreplies : r.routes.lookup (c.headerRoute id) with
  | some replies =>
    obtain ⟨before, after, hroutes, -⟩ := List.lookup_eq_some_iff.mp hreplies
    rw [hroutes, List.map_append, List.map_cons]
    exact List.mem_append.mpr (.inr List.mem_cons_self)
  | none =>
    have hread : c.headerAt id r = c.endpoint.received .unknown >>= headerOf id :=
      Node.Endpoint.exchange_of_reply (Remote.replyTo_of_lookup_none hreplies)
    rw [hread, Node.Endpoint.received_eq] at h
    -- A node answers a route that it does not know with the status 404.
    cases hwaited : c.endpoint.waited .unknown with
    | error e =>
      rw [hwaited] at h
      cases h
    | ok _ =>
      rw [hwaited] at h
      cases h

/-! ## Circles -/

/-- Requests for headers that lead to one another for ever. -/
structure Circular (c : Client) (r : Remote) (Among : Datum → Prop) : Prop where
  spent : ∀ id, Among id → r.Spent (c.headerRoute id)
  leads : ∀ id, Among id → ∃ header, c.headerAt id r = .ok header
    ∧ header.parentRoot ≠ Signing.zeroRoot ∧ Among (.bytes header.parentRoot)

theorem Circular.next {Among : Datum → Prop} (h : c.Circular r Among) (route : Route) :
    c.Circular (r.next route).2 Among where
  spent id hid := (h.spent id hid).next route
  leads id hid := by
    rw [headerAt_congr ((h.spent id hid).replyTo_next route)]
    exact h.leads id hid

/-- An ancestry begins with none of them. -/
theorem Ancestry.not_circular (h : c.Ancestry r id headers failure) {Among : Datum → Prop}
    (hcircular : c.Circular r Among) : ¬ Among id := by
  induction h with
  | first hserved hroot =>
    intro hid
    obtain ⟨header, hsame, hparent, -⟩ := hcircular.leads _ hid
    rw [hserved] at hsame
    obtain rfl := Except.ok.inj hsame
    exact hparent hroot
  | fails hfailed =>
    intro hid
    obtain ⟨header, hserved, -⟩ := hcircular.leads _ hid
    rw [hfailed] at hserved
    cases hserved
  | child hserved _ _ ih =>
    intro hid
    obtain ⟨header, hsame, -, hnext⟩ := hcircular.leads _ hid
    rw [hserved] at hsame
    obtain rfl := Except.ok.inj hsame
    exact ih (hcircular.next _) hnext

/-! ## Trails -/

/-- Routes that are spent, each with a header that leads to another one of them or to the next
request. -/
structure Trail (c : Client) (r : Remote) (visited : List Route) (next : Datum) : Prop where
  nodup : visited.Nodup
  known : visited ⊆ r.routes.map Prod.fst
  spent : ∀ route ∈ visited, r.Spent route
  leads : ∀ id, c.headerRoute id ∈ visited → ∃ header, c.headerAt id r = .ok header
    ∧ header.parentRoot ≠ Signing.zeroRoot
    ∧ (c.headerRoute (.bytes header.parentRoot) ∈ visited ∨ .bytes header.parentRoot = next)

theorem trail_nil (c : Client) (r : Remote) (id : Datum) : c.Trail r [] id where
  nodup := List.nodup_nil
  known := List.nil_subset _
  spent _ h := absurd h List.not_mem_nil
  leads _ h := absurd h List.not_mem_nil

theorem Trail.length_le (h : c.Trail r visited id) : visited.length ≤ r.routes.length := by
  have := (h.nodup.subperm h.known).length_le
  rwa [List.length_map] at this

/-- An ancestry that comes next begins with a request on another route. -/
theorem Trail.not_mem (h : c.Trail r visited id) (hnext : c.Ancestry r id headers failure) :
    c.headerRoute id ∉ visited := by
  intro hmem
  have hcircular : c.Circular r fun other => c.headerRoute other ∈ visited := by
    refine ⟨fun other hother => h.spent _ hother, fun other hother => ?_⟩
    obtain ⟨header, hserved, hparent, hlead⟩ := h.leads other hother
    refine ⟨header, hserved, hparent, hlead.elim (fun hvisited => hvisited) fun hnext => ?_⟩
    rwa [hnext]
  exact hnext.not_circular hcircular hmem

/-- If that route is spent too, not all routes have been visited. -/
theorem Trail.length_lt (h : c.Trail r visited id) (hnext : c.Ancestry r id headers failure)
    (hserved : c.headerAt id r = .ok header) : visited.length < r.routes.length := by
  have hnodup : (c.headerRoute id :: visited).Nodup :=
    List.nodup_cons.mpr ⟨h.not_mem hnext, h.nodup⟩
  have hknown : c.headerRoute id :: visited ⊆ r.routes.map Prod.fst :=
    List.cons_subset.mpr ⟨mem_routes_of_headerAt hserved, h.known⟩
  have := (hnodup.subperm hknown).length_le
  rwa [List.length_map] at this

/-- A request on a spent route goes on with the trail. -/
theorem Trail.cons (h : c.Trail r visited id) (hnew : c.headerRoute id ∉ visited)
    (hspent : r.Spent (c.headerRoute id)) (hserved : c.headerAt id r = .ok header)
    (hparent : header.parentRoot ≠ Signing.zeroRoot) :
    c.Trail (r.next (c.headerRoute id)).2 (c.headerRoute id :: visited)
      (.bytes header.parentRoot) where
  nodup := List.nodup_cons.mpr ⟨hnew, h.nodup⟩
  known := by
    rw [Remote.routes_next]
    exact List.cons_subset.mpr ⟨mem_routes_of_headerAt hserved, h.known⟩
  spent := List.forall_mem_cons.mpr
    ⟨hspent.next _, fun route hroute => (h.spent route hroute).next _⟩
  leads other hother := by
    rcases List.mem_cons.mp hother with hsame | hmem
    · refine ⟨header, ?_, hparent, .inr rfl⟩
      rw [headerAt_of_route_eq hsame, headerAt_congr (hspent.replyTo_next _), hserved]
    · obtain ⟨earlier, hearlier, hhas, hlead⟩ := h.leads other hmem
      refine ⟨earlier, ?_, hhas, .inl (hlead.elim (List.mem_cons_of_mem _) fun hnext => ?_)⟩
      · rw [headerAt_congr ((h.spent _ hmem).replyTo_next _), hearlier]
      · rw [hnext]
        exact List.mem_cons_self

/-! ## The length of an ancestry -/

/-- Between two replies that are used up, no route is asked twice. -/
theorem Ancestry.length_le (h : c.Ancestry r id headers failure) (htrail : c.Trail r visited id) :
    headers.length + visited.length ≤ r.left * (r.routes.length + 1) + r.routes.length := by
  induction h generalizing visited with
  | @first r id header hserved hroot =>
    by_cases hspent : r.Spent (c.headerRoute id)
    · have hlength := htrail.length_lt (.first hserved hroot) hserved
      rw [List.length_singleton]
      omega
    · have hleft := Remote.left_next_lt hspent
      have hlength := htrail.length_le
      have hone : 1 * (r.routes.length + 1) ≤ r.left * (r.routes.length + 1) :=
        Nat.mul_le_mul_right _ (by omega)
      rw [List.length_singleton]
      omega
  | @fails r id e hfailed =>
    have hlength := htrail.length_le
    rw [List.length_nil]
    omega
  | @child r id header ancestors failure hserved hparent hnext ih =>
    have hroutes : (r.next (c.headerRoute id)).2.routes = r.routes := rfl
    rw [hroutes] at ih
    rw [List.length_cons]
    by_cases hspent : r.Spent (c.headerRoute id)
    · have hnew := htrail.not_mem (.child hserved hparent hnext)
      have hrest := ih (htrail.cons hnew hspent hserved hparent)
      have hmono : (r.next (c.headerRoute id)).2.left * (r.routes.length + 1)
          ≤ r.left * (r.routes.length + 1) := Nat.mul_le_mul_right _ (r.left_next_le _)
      rw [List.length_cons] at hrest
      omega
    · have hrest := ih (trail_nil c _ _)
      have hlength := htrail.length_le
      have hmono : ((r.next (c.headerRoute id)).2.left + 1) * (r.routes.length + 1)
          ≤ r.left * (r.routes.length + 1) := Nat.mul_le_mul_right _ (Remote.left_next_lt hspent)
      rw [Nat.succ_mul] at hmono
      rw [List.length_nil] at hrest
      omega

theorem Ancestry.length_le_longestChain (h : c.Ancestry r id headers failure) :
    headers.length ≤ longestChain r := by
  have hlength := h.length_le (trail_nil c r id)
  have hleft : r.left * (r.routes.length + 1) ≤ r.replyCount * (r.routes.length + 1) :=
    Nat.mul_le_mul_right _ r.left_le_replyCount
  rw [longestChain, Nat.succ_mul]
  rw [List.length_nil] at hlength
  omega

end Client

end BeaconHarness
