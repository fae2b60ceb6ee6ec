import Mathlib.Algebra.Order.BigOperators.Group.List
import Mathlib.Algebra.Order.Ring.Nat
import Mathlib.Data.Finset.Dedup
import TTSR.Foundation.LruCache
import TTSR.Foundation.Machine

/-!
# The load balancer of the rollouts

All agent loop workers share one load balancer. A call of `generate` first asks
it for a server: one that has answered this request before, as long as its cache
remembers it, else the one with the fewest requests in flight. When the call
ends, with an answer or an exception, it gives the server back by a message that
nobody waits for. Calls and messages interleave in any order. The cache is a
parameter; of its library it is assumed that it discards the least recently used
entries first (`Cache.Lru`).

- `inflight_accounted`: the counts are those of the calls and messages under
  way, and giving back never fails.
- `sticky_session`: a request comes back to its server unless as many other
  requests as the cache has entries came in between.
- `no_server_overloaded`: if no request comes back, no server ever has more than
  its share of the largest number of requests that were in flight at once.
-/

namespace TTSR.Trainer

open TTSR.Foundation

namespace LoadBalancer

abbrev ServerId := String
abbrev RequestId := String

/-! ## The actor -/

structure GlobalRequestLoadBalancer (C : Cache RequestId ServerId) where
  inflightRequests : Dict ServerId ℕ
  requestIdToServer : C.State
  nonempty : inflightRequests.entries ≠ []

section Actor

variable {C : Cache RequestId ServerId}

namespace GlobalRequestLoadBalancer

/-- `{sid: 0 for sid in server_actor_ids}`. -/
def zeros (serverActorIds : List ServerId) : Dict ServerId ℕ :=
  serverActorIds.foldl (fun d sid => d.set sid 0) Dict.empty

theorem mem_keys_foldl {sid : ServerId} : ∀ {ids : List ServerId}
    {d : Dict ServerId ℕ},
    sid ∈ (ids.foldl (fun d sid => d.set sid 0) d).keys ↔
      sid ∈ ids ∨ sid ∈ d.keys
  | [], d => by simp
  | id :: ids, d => by
      rw [List.foldl_cons, mem_keys_foldl, Dict.mem_keys_set, List.mem_cons]
      tauto

theorem mem_keys_zeros {sid : ServerId} {ids : List ServerId} :
    sid ∈ (zeros ids).keys ↔ sid ∈ ids := by
  rw [zeros, mem_keys_foldl]
  exact or_iff_left List.not_mem_nil

theorem getD_foldl {sid : ServerId} : ∀ {ids : List ServerId}
    {d : Dict ServerId ℕ}, d.getD sid 0 = 0 →
    (ids.foldl (fun d sid => d.set sid 0) d).getD sid 0 = 0
  | [], _, h => h
  | id :: ids, d, h => by
      rw [List.foldl_cons]
      apply getD_foldl
      by_cases hid : sid = id
      · rw [hid, Dict.getD_set_self]
      · rw [Dict.getD_set_ne _ _ _ hid, h]

/-- `__init__`. -/
def init (C : Cache RequestId ServerId) (serverActorIds : List ServerId) :
    Except String (GlobalRequestLoadBalancer C) :=
  if hids : serverActorIds = [] then
    .error "server_actor_ids must be non-empty"
  else .ok {
    inflightRequests := zeros serverActorIds
    requestIdToServer := C.empty
    nonempty := by
      obtain ⟨sid, hsid⟩ := List.exists_mem_of_ne_nil _ hids
      exact Dict.entries_ne_nil (mem_keys_zeros.mpr hsid) }

variable (b : GlobalRequestLoadBalancer C)

def inflight (sid : ServerId) : ℕ := b.inflightRequests.getD sid 0

/-- `min(self._inflight_requests, key=self._inflight_requests.get)`. -/
def leastLoaded : ServerId :=
  (b.inflightRequests.entries.minOn Prod.snd b.nonempty).1

/-- `self._inflight_requests[server_id] += 1`, with this cache. -/
def routeTo (cache : C.State) (sid : ServerId) :
    Except String ServerId × GlobalRequestLoadBalancer C :=
  if sid ∈ b.inflightRequests.keys then
    (.ok sid, {
      inflightRequests := b.inflightRequests.set sid (b.inflight sid + 1)
      requestIdToServer := cache
      nonempty := Dict.entries_ne_nil (Dict.mem_keys_set.mpr (.inl rfl)) })
  else (.error sid, { b with requestIdToServer := cache })

/-- `acquire_server`. Whatever it raises, the cache has been used. -/
def acquireServer (requestId : RequestId) :
    Except String ServerId × GlobalRequestLoadBalancer C :=
  match C.get? b.requestIdToServer requestId with
  | some sid => b.routeTo (C.touch b.requestIdToServer requestId) sid
  | none => b.routeTo
      (C.put b.requestIdToServer requestId b.leastLoaded) b.leastLoaded

/-- `release_server`. -/
def releaseServer (sid : ServerId) :
    Except String (GlobalRequestLoadBalancer C) :=
  if sid ∈ b.inflightRequests.keys then
    if b.inflight sid = 0 then
      .error ("Release called with no inflight requests on server " ++ sid)
    else .ok {
      inflightRequests := b.inflightRequests.set sid (b.inflight sid - 1)
      requestIdToServer := b.requestIdToServer
      nonempty := Dict.entries_ne_nil (Dict.mem_keys_set.mpr (.inl rfl)) }
  else .error ("Invalid server_id for release: " ++ sid)

/-! ### What the two methods change -/

variable {b : GlobalRequestLoadBalancer C}

/-- The server of a request. -/
def serverFor (b : GlobalRequestLoadBalancer C) (requestId : RequestId) :
    ServerId :=
  (C.get? b.requestIdToServer requestId).getD b.leastLoaded

/-- The cache after the request. -/
def cacheAfter (b : GlobalRequestLoadBalancer C) (requestId : RequestId) :
    C.State :=
  match C.get? b.requestIdToServer requestId with
  | some _ => C.touch b.requestIdToServer requestId
  | none => C.put b.requestIdToServer requestId b.leastLoaded

theorem acquireServer_eq (b : GlobalRequestLoadBalancer C) (r : RequestId) :
    b.acquireServer r = b.routeTo (b.cacheAfter r) (b.serverFor r) := by
  rw [acquireServer, cacheAfter, serverFor]
  cases C.get? b.requestIdToServer r <;> rfl

theorem leastLoaded_mem : b.leastLoaded ∈ b.inflightRequests.keys :=
  List.mem_map_of_mem List.minOn_mem

/-- The cache remembers servers of the balancer only. -/
def Known (b : GlobalRequestLoadBalancer C) : Prop :=
  ∀ r sid, C.get? b.requestIdToServer r = some sid →
    sid ∈ b.inflightRequests.keys

theorem Known.serverFor_mem (h : b.Known) (r : RequestId) :
    b.serverFor r ∈ b.inflightRequests.keys := by
  rw [serverFor]
  cases hget : C.get? b.requestIdToServer r with
  | none => exact leastLoaded_mem
  | some sid => exact h r sid hget

/-- A known server is acquired. -/
theorem routeTo_of_mem {sid : ServerId} (h : sid ∈ b.inflightRequests.keys)
    (cache : C.State) :
    ∃ b', b.routeTo cache sid = (.ok sid, b') ∧
      b'.requestIdToServer = cache ∧
      b'.inflightRequests.keys = b.inflightRequests.keys ∧
      b'.inflightRequests.sum = b.inflightRequests.sum + 1 ∧
      ∀ x, b'.inflight x = b.inflight x + if sid = x then 1 else 0 := by
  rw [routeTo, if_pos h]
  refine ⟨_, rfl, rfl, Dict.keys_set h, ?_, ?_⟩
  · have hsum := Dict.sum_set (b.inflight sid + 1) h
    show Dict.sum (Dict.set _ _ _) = _
    unfold inflight at hsum ⊢
    omega
  · intro x
    by_cases hx : sid = x
    · subst hx
      rw [if_pos rfl]
      exact Dict.getD_set_self ..
    · rw [if_neg hx]
      exact Dict.getD_set_ne _ _ _ (Ne.symm hx)

theorem inflight_eq_zero {sid : ServerId}
    (h : sid ∉ b.inflightRequests.keys) : b.inflight sid = 0 := by
  have hnone : b.inflightRequests.get? sid = none :=
    Dict.lookupEntries_eq_none_iff.mpr h
  rw [inflight, Dict.getD, hnone, Option.getD_none]

/-- A server with a request in flight can be given back. -/
theorem releaseServer_eq {sid : ServerId} (h : 0 < b.inflight sid) :
    ∃ b', b.releaseServer sid = .ok b' ∧
      b'.requestIdToServer = b.requestIdToServer ∧
      b'.inflightRequests.keys = b.inflightRequests.keys ∧
      ∀ x, b'.inflight x + (if sid = x then 1 else 0) = b.inflight x := by
  have hsid : sid ∈ b.inflightRequests.keys := by
    by_contra hnot
    exact h.ne' (inflight_eq_zero hnot)
  rw [releaseServer, if_pos hsid, if_neg h.ne']
  refine ⟨_, rfl, rfl, Dict.keys_set hsid, fun x => ?_⟩
  by_cases hx : sid = x
  · subst hx
    rw [if_pos rfl]
    show Dict.getD (Dict.set _ _ _) _ _ + 1 = _
    rw [Dict.getD_set_self]
    omega
  · rw [if_neg hx]
    exact Dict.getD_set_ne _ _ _ (Ne.symm hx)

/-- No server has fewer requests in flight than the least loaded one. -/
theorem inflight_leastLoaded_le {sid : ServerId}
    (h : sid ∈ b.inflightRequests.keys) :
    b.inflight b.leastLoaded ≤ b.inflight sid := by
  have hmem : (b.leastLoaded, (b.inflightRequests.entries.minOn Prod.snd
      b.nonempty).2) ∈ b.inflightRequests.entries := List.minOn_mem
  rw [inflight, Dict.getD_of_mem hmem]
  exact List.apply_minOn_le_of_mem (Dict.mem_entries_of_mem_keys h 0)

end GlobalRequestLoadBalancer

end Actor

/-! ## Calls and messages under way -/

section Runs

variable {C : Cache RequestId ServerId}

structure State (C : Cache RequestId ServerId) where
  balancer : GlobalRequestLoadBalancer C
  /-- The calls that wait for a server. -/
  waiting : List RequestId
  /-- The calls that wait for the answer of their server. -/
  generating : List (RequestId × ServerId)
  /-- The messages that give a server back. -/
  releasing : List ServerId
  /-- The requests and their servers, in the order of the answers. -/
  routed : List (RequestId × ServerId)
  raised : List String
  /-- The most requests that have been in flight at once; read by no step. -/
  peak : ℕ

inductive Event where
  | generate (requestId : RequestId)
  | acquire (requestId : RequestId)
  /-- The server answers or raises. -/
  | finish (call : RequestId × ServerId)
  | release (sid : ServerId)
deriving DecidableEq

variable (servers : List ServerId)

/-- `_acquire_server`: the load balancer answers, and the manager looks for the
server among those it was given. -/
def acquired (s : State C) (r : RequestId) : State C :=
  let (answer, b) := s.balancer.acquireServer r
  let s' := { s with
    balancer := b
    waiting := s.waiting.erase r
    peak := max s.peak b.inflightRequests.sum }
  match answer with
  | .error key => { s' with raised := s.raised ++ [key] }
  | .ok sid =>
      let s'' := { s' with routed := s.routed ++ [(r, sid)] }
      if sid ∈ servers then
        { s'' with generating := s.generating ++ [(r, sid)] }
      else
        { s'' with raised := s.raised ++
            ["Unknown server_id returned by load balancer: " ++ sid] }

def step (s : State C) : Event → Option (State C)
  | .generate r => some { s with waiting := s.waiting ++ [r] }
  | .acquire r =>
      if r ∈ s.waiting then some (acquired servers s r) else none
  | .finish call =>
      if call ∈ s.generating then
        some { s with
          generating := s.generating.erase call
          releasing := s.releasing ++ [call.2] }
      else none
  | .release sid =>
      if sid ∈ s.releasing then
        match s.balancer.releaseServer sid with
        | .ok b => some { s with
            balancer := b
            releasing := s.releasing.erase sid }
        | .error text => some { s with
            releasing := s.releasing.erase sid
            raised := s.raised ++ [text] }
      else none

/-- All calls that share the load balancer `b`. -/
def machine (b : GlobalRequestLoadBalancer C) : Machine (State C) Event where
  init := ⟨b, [], [], [], [], [], 0⟩
  step := step servers

end Runs

/-! ## The counts -/

section Accounted

variable {C : Cache RequestId ServerId} {maxCacheSize : ℕ}
  {order : C.State → List (RequestId × ServerId)} {ids : List ServerId}
  {b : GlobalRequestLoadBalancer C} {s s' : State C} {e : Event}

/-- Every count is that of the calls and messages under way. -/
structure Accounted (ids : List ServerId) (s : State C) : Prop where
  known : s.balancer.Known
  keys : s.balancer.inflightRequests.keys =
    (GlobalRequestLoadBalancer.zeros ids).keys
  inflight : ∀ sid, s.balancer.inflight sid =
    (s.generating.map Prod.snd).count sid + s.releasing.count sid
  raised : s.raised = []

/-- A call that waits gets its server. -/
theorem acquired_eq (h : Accounted ids s) (r : RequestId) :
    ∃ b, acquired ids s r = { s with
        balancer := b
        waiting := s.waiting.erase r
        generating := s.generating ++ [(r, s.balancer.serverFor r)]
        routed := s.routed ++ [(r, s.balancer.serverFor r)]
        peak := max s.peak (s.balancer.inflightRequests.sum + 1) } ∧
      b.requestIdToServer = s.balancer.cacheAfter r ∧
      b.inflightRequests.keys = s.balancer.inflightRequests.keys ∧
      ∀ x, b.inflight x = s.balancer.inflight x +
        if s.balancer.serverFor r = x then 1 else 0 := by
  have hserver := h.known.serverFor_mem r
  have hmem : s.balancer.serverFor r ∈ ids := by
    rw [← GlobalRequestLoadBalancer.mem_keys_zeros, ← h.keys]
    exact hserver
  obtain ⟨b, hb, hcache, hkeys, hsum, hinflight⟩ :=
    GlobalRequestLoadBalancer.routeTo_of_mem hserver (s.balancer.cacheAfter r)
  refine ⟨b, ?_, hcache, hkeys, hinflight⟩
  unfold acquired
  rw [GlobalRequestLoadBalancer.acquireServer_eq, hb]
  simp only [if_pos hmem, hsum]

/-- What a step can do. -/
theorem step_cases (h : Accounted ids s) (hs : step ids s e = some s') :
    (∃ r, e = .generate r ∧ s' = { s with waiting := s.waiting ++ [r] }) ∨
    (∃ r ∈ s.waiting, e = .acquire r ∧ s' = acquired ids s r) ∨
    (∃ call ∈ s.generating, e = .finish call ∧ s' = { s with
      generating := s.generating.erase call
      releasing := s.releasing ++ [call.2] }) ∨
    ∃ sid ∈ s.releasing, e = .release sid ∧ ∃ b,
      s' = { s with balancer := b, releasing := s.releasing.erase sid } ∧
      b.requestIdToServer = s.balancer.requestIdToServer ∧
      b.inflightRequests.keys = s.balancer.inflightRequests.keys ∧
      ∀ x, b.inflight x + (if sid = x then 1 else 0) = s.balancer.inflight x := by
  cases e with
  | generate r => exact .inl ⟨r, rfl, (Option.some.inj hs).symm⟩
  | acquire r =>
      rw [step] at hs
      split_ifs at hs with hr
      exact .inr (.inl ⟨r, hr, rfl, (Option.some.inj hs).symm⟩)
  | finish call =>
      rw [step] at hs
      split_ifs at hs with hcall
      exact .inr (.inr (.inl ⟨call, hcall, rfl, (Option.some.inj hs).symm⟩))
  | release sid =>
      rw [step] at hs
      split_ifs at hs with hsid
      have hcount := List.count_pos_iff.mpr hsid
      have hpositive : 0 < s.balancer.inflight sid := by
        rw [h.inflight]
        omega
      obtain ⟨b, hb, hcache, hkeys, hinflight⟩ :=
        GlobalRequestLoadBalancer.releaseServer_eq hpositive
      rw [hb] at hs
      exact .inr (.inr (.inr ⟨sid, hsid, rfl, b, (Option.some.inj hs).symm,
        hcache, hkeys, hinflight⟩))

theorem accounted_init (hlru : C.Lru maxCacheSize order)
    (hb : GlobalRequestLoadBalancer.init C ids = .ok b) :
    Accounted ids (machine ids b).init := by
  rw [GlobalRequestLoadBalancer.init] at hb
  split_ifs at hb
  obtain rfl := Except.ok.inj hb
  refine ⟨?_, rfl, fun sid => ?_, rfl⟩
  · intro r sid hget
    have hnone := hlru.get?_empty.symm.trans hget
    cases hnone
  · show (GlobalRequestLoadBalancer.zeros ids).getD sid 0 = 0
    exact GlobalRequestLoadBalancer.getD_foldl (Dict.getD_empty sid 0)

theorem known_of_cacheAfter (hlru : C.Lru maxCacheSize order)
    {b b' : GlobalRequestLoadBalancer C} (h : b.Known) {r : RequestId}
    (hcache : b'.requestIdToServer = b.cacheAfter r)
    (hkeys : b'.inflightRequests.keys = b.inflightRequests.keys) :
    b'.Known := by
  intro j sid hget
  rw [hcache, GlobalRequestLoadBalancer.cacheAfter] at hget
  rw [hkeys]
  cases hr : C.get? b.requestIdToServer r with
  | some sid' =>
      rw [hr] at hget
      exact h j sid ((hlru.get?_touch hr).symm.trans hget)
  | none =>
      rw [hr] at hget
      rcases hlru.get?_put hr hget with ⟨-, rfl⟩ | hold
      · exact GlobalRequestLoadBalancer.leastLoaded_mem
      · exact h j sid hold

theorem accounted_step (hlru : C.Lru maxCacheSize order) (h : Accounted ids s)
    (hs : step ids s e = some s') : Accounted ids s' := by
  rcases step_cases h hs with ⟨r, -, rfl⟩ | ⟨r, -, -, rfl⟩ |
    ⟨call, hcall, -, rfl⟩ | ⟨sid, hsid, -, b, rfl, hcache, hkeys, hinflight⟩
  · exact ⟨h.known, h.keys, h.inflight, h.raised⟩
  · obtain ⟨b, hb, hcache, hkeys, hinflight⟩ := acquired_eq h r
    rw [hb]
    refine ⟨known_of_cacheAfter hlru h.known hcache hkeys, hkeys.trans h.keys,
      fun x => ?_, h.raised⟩
    rw [hinflight, h.inflight, List.map_append, List.count_append,
      List.map_singleton, List.count_singleton]
    simp only [beq_iff_eq]
    omega
  · refine ⟨h.known, h.keys, fun x => ?_, h.raised⟩
    have hcount := ((List.perm_cons_erase hcall).map Prod.snd).count_eq x
    rw [List.map_cons, List.count_cons] at hcount
    show s.balancer.inflight x = ((s.generating.erase call).map Prod.snd).count x +
      (s.releasing ++ [call.2]).count x
    rw [h.inflight, List.count_append, List.count_singleton]
    omega
  · refine ⟨?_, hkeys.trans h.keys, fun x => ?_, h.raised⟩
    · intro r sid hget
      rw [hcache] at hget
      rw [hkeys]
      exact h.known r sid hget
    · have hcount := (List.perm_cons_erase hsid).count_eq x
      have hx := hinflight x
      rw [List.count_cons] at hcount
      rw [h.inflight] at hx
      simp only [beq_iff_eq] at hcount
      show b.inflight x = (s.generating.map Prod.snd).count x +
        (s.releasing.erase sid).count x
      omega

theorem accounted_of_reachable (hlru : C.Lru maxCacheSize order)
    (hb : GlobalRequestLoadBalancer.init C ids = .ok b)
    (hs : (machine ids b).Reachable s) : Accounted ids s := by
  refine hs.invariant (accounted_init hlru hb) ?_
  exact fun s e s' _ h _ hs => accounted_step hlru h hs

/-- **No count is wrong.** In every interleaving of calls and messages a server's
count is the number of its calls and of the messages that give it back, and no
method raises. When nothing is under way, all counts are zero again. -/
theorem inflight_accounted (hlru : C.Lru maxCacheSize order)
    (hb : GlobalRequestLoadBalancer.init C ids = .ok b)
    (hs : (machine ids b).Reachable s) :
    s.raised = [] ∧
    (∀ sid, s.balancer.inflight sid =
      (s.generating.map Prod.snd).count sid + s.releasing.count sid) ∧
    (s.generating = [] → s.releasing = [] →
      s.balancer.inflightRequests = b.inflightRequests) := by
  have h := accounted_of_reachable hlru hb hs
  have hinit : Accounted ids (machine ids b).init := accounted_init hlru hb
  refine ⟨h.raised, h.inflight, fun hgenerating hreleasing => ?_⟩
  apply Dict.ext_getD 0 (h.keys.trans hinit.keys.symm)
  intro sid
  have hnone := h.inflight sid
  rw [hgenerating, hreleasing] at hnone
  exact hnone.trans (hinit.inflight sid).symm

/-- A cache with room for two requests. -/
abbrev exampleCache : Cache RequestId ServerId :=
  Cache.recencyList RequestId ServerId 2

theorem lru_exampleCache : exampleCache.Lru 2 Subtype.val :=
  Cache.lru_recencyList RequestId ServerId (by decide)

/-- Two servers. -/
def exampleBalancer : GlobalRequestLoadBalancer exampleCache where
  inflightRequests := GlobalRequestLoadBalancer.zeros ["a", "b"]
  requestIdToServer := exampleCache.empty
  nonempty := nofun

theorem exampleBalancer_eq : GlobalRequestLoadBalancer.init exampleCache
    ["a", "b"] = .ok exampleBalancer := rfl

/-- Two requests at once, the first of which comes back. -/
def exampleEvents : List Event :=
  [.generate "x", .generate "y", .acquire "y", .acquire "x", .finish ("y", "a"),
    .generate "y", .release "a", .acquire "y"]

theorem inflight_accounted_exampleEvents :
    ∃ s : State exampleCache, s.routed = [("y", "a"), ("x", "b"), ("y", "a")] ∧
      s.raised = [] ∧ s.balancer.inflight "b" =
        (s.generating.map Prod.snd).count "b" + s.releasing.count "b" := by
  obtain ⟨s, hs, hrouted⟩ := Machine.exists_reachable_of_run
    (M := machine ["a", "b"] exampleBalancer)
    (p := fun s => s.routed = [("y", "a"), ("x", "b"), ("y", "a")])
    exampleEvents (by decide +kernel)
  have h := inflight_accounted lru_exampleCache exampleBalancer_eq hs
  exact ⟨s, of_decide_eq_true hrouted, h.1, h.2.1 "b"⟩

end Accounted

/-! ## Requests that come back -/

section Sticky

variable {C : Cache RequestId ServerId} {maxCacheSize : ℕ}
  {order : C.State → List (RequestId × ServerId)} {ids : List ServerId}
  {b : GlobalRequestLoadBalancer C} {s s' : State C} {e : Event}
  {r : RequestId} {sid sid' : ServerId}
  {before mid after : List (RequestId × ServerId)}

/-- The other requests of a part of the log. -/
def others (r : RequestId) (mid : List (RequestId × ServerId)) :
    Finset RequestId :=
  (mid.map Prod.fst).toFinset.erase r

theorem others_append (r : RequestId) (mid : List (RequestId × ServerId))
    (call : RequestId × ServerId) :
    others r mid ⊆ others r (mid ++ [call]) := by
  apply Finset.erase_subset_erase r
  intro j hj
  rw [List.mem_toFinset] at hj ⊢
  rw [List.map_append]
  exact List.mem_append_left _ hj

/-- What the log says about the cache, and about itself. -/
structure Remembered (maxCacheSize : ℕ)
    (order : C.State → List (RequestId × ServerId)) (s : State C) : Prop where
  recent : ∀ before r sid mid, s.routed = before ++ (r, sid) :: mid →
    (others r mid).card < maxCacheSize →
      Cache.RecentFor (order s.balancer.requestIdToServer) (others r mid) r sid
  sticky : ∀ before r sid mid sid' after,
    s.routed = (before ++ (r, sid) :: mid) ++ (r, sid') :: after →
      (others r mid).card < maxCacheSize → sid' = sid

/-- The entry of a request that was just routed is the most recent one. -/
theorem recentFor_cacheAfter (hlru : C.Lru maxCacheSize order)
    (b : GlobalRequestLoadBalancer C) (r : RequestId) :
    Cache.RecentFor (order (b.cacheAfter r)) ∅ r (b.serverFor r) := by
  rw [GlobalRequestLoadBalancer.cacheAfter, GlobalRequestLoadBalancer.serverFor]
  cases hget : C.get? b.requestIdToServer r with
  | some sid => exact Cache.recentFor_touch hlru hget
  | none => exact Cache.recentFor_put hlru hget

/-- Those of others stay while there is room for them. -/
theorem recentFor_cacheAfter_of_ne (hlru : C.Lru maxCacheSize order)
    {b : GlobalRequestLoadBalancer C} {D : Finset RequestId}
    (h : Cache.RecentFor (order b.requestIdToServer) D r sid) {j : RequestId}
    (hjr : j ≠ r) (hj : j ∈ D) (hcard : D.card < maxCacheSize) :
    Cache.RecentFor (order (b.cacheAfter j)) D r sid := by
  rw [GlobalRequestLoadBalancer.cacheAfter]
  cases hget : C.get? b.requestIdToServer j with
  | some sid' => exact h.touch hlru hget hjr hj
  | none => exact h.put hlru hget hj hcard

theorem Remembered.acquire (hlru : C.Lru maxCacheSize order)
    (h : Remembered maxCacheSize order s) (j : RequestId)
    (hrouted : s'.routed = s.routed ++ [(j, s.balancer.serverFor j)])
    (hcache : s'.balancer.requestIdToServer = s.balancer.cacheAfter j) :
    Remembered maxCacheSize order s' := by
  have hserver : ∀ before r sid mid, s.routed = before ++ (r, sid) :: mid →
      (others r mid).card < maxCacheSize → s.balancer.serverFor r = sid := by
    intro before r sid mid hlog hcard
    have hget := Cache.RecentFor.get? hlru (h.recent before r sid mid hlog hcard)
    rw [GlobalRequestLoadBalancer.serverFor, hget]
    rfl
  constructor
  · intro before r sid mid hlog hcard
    rw [hrouted] at hlog
    rw [hcache]
    rcases List.eq_nil_or_concat mid with rfl | ⟨mid, last, rfl⟩
    · obtain ⟨-, hlast⟩ := List.append_inj' hlog rfl
      obtain ⟨rfl, rfl⟩ := Prod.mk.inj (List.cons.inj hlast).1
      exact (recentFor_cacheAfter hlru s.balancer _).mono
        (Finset.empty_subset _)
    · rw [List.concat_eq_append, ← List.cons_append, ← List.append_assoc] at hlog
      rw [List.concat_eq_append] at hcard ⊢
      obtain ⟨hold, hlast⟩ := List.append_inj' hlog rfl
      obtain rfl := (List.cons.inj hlast).1
      have hsub := others_append r mid (j, s.balancer.serverFor j)
      have hcard' := (Finset.card_le_card hsub).trans_lt hcard
      by_cases hj : j = r
      · subst hj
        have hrecent := recentFor_cacheAfter hlru s.balancer j
        rw [hserver before j sid mid hold hcard'] at hrecent
        rw [hserver before j sid mid hold hcard']
        exact hrecent.mono (Finset.empty_subset _)
      · have hrecent := (h.recent before r sid mid hold hcard').mono hsub
        apply recentFor_cacheAfter_of_ne hlru hrecent hj _ hcard
        exact Finset.mem_erase.mpr ⟨hj, by simp⟩
  · intro before r sid mid sid' after hlog hcard
    rw [hrouted] at hlog
    rcases List.eq_nil_or_concat after with rfl | ⟨after, last, rfl⟩
    · obtain ⟨hold, hlast⟩ := List.append_inj' hlog rfl
      obtain ⟨rfl, rfl⟩ := Prod.mk.inj (List.cons.inj hlast).1
      exact hserver before j sid mid hold hcard
    · rw [List.concat_eq_append, ← List.cons_append, ← List.append_assoc] at hlog
      obtain ⟨hlog, -⟩ := List.append_inj' hlog rfl
      exact h.sticky before r sid mid sid' after hlog hcard

theorem remembered_init : Remembered maxCacheSize order (machine ids b).init := by
  constructor
  · intro before r sid mid hlog
    exact absurd hlog.symm (by simp [machine])
  · intro before r sid mid sid' after hlog
    exact absurd hlog.symm (by simp [machine])

theorem remembered_step (hlru : C.Lru maxCacheSize order)
    (hacc : Accounted ids s) (h : Remembered maxCacheSize order s)
    (hs : step ids s e = some s') :
    Remembered maxCacheSize order s' := by
  rcases step_cases hacc hs with ⟨r, -, rfl⟩ | ⟨r, -, -, rfl⟩ |
    ⟨call, -, -, rfl⟩ | ⟨sid, -, -, b, rfl, hcache, -⟩
  · exact ⟨h.recent, h.sticky⟩
  · obtain ⟨b, hb, hcache, -⟩ := acquired_eq hacc r
    rw [hb]
    exact h.acquire hlru r rfl hcache
  · exact ⟨h.recent, h.sticky⟩
  · exact ⟨hcache ▸ h.recent, h.sticky⟩

/-- **Requests come back to their server** while the cache has more entries than
other requests have come in between. -/
theorem sticky_session (hlru : C.Lru maxCacheSize order)
    (hb : GlobalRequestLoadBalancer.init C ids = .ok b)
    (hs : (machine ids b).Reachable s)
    (hrouted : s.routed = before ++ (r, sid) :: mid ++ (r, sid') :: after)
    (hbetween : (others r mid).card < maxCacheSize) : sid' = sid := by
  have hremembered : Remembered maxCacheSize order s := by
    refine hs.invariant remembered_init ?_
    intro s e s' hreach h _ hstep
    have hacc := accounted_of_reachable hlru hb hreach
    exact remembered_step hlru hacc h hstep
  exact hremembered.sticky before r sid mid sid' after hrouted hbetween

theorem sticky_session_exampleEvents :
    ∃ (s : State exampleCache) (sid : ServerId),
      s.routed = [("y", "a"), ("x", "b"), ("y", sid)] ∧ sid = "a" := by
  obtain ⟨s, hs, hrouted⟩ := Machine.exists_reachable_of_run
    (M := machine ["a", "b"] exampleBalancer)
    (p := fun s => s.routed = [("y", "a"), ("x", "b"), ("y", "a")])
    exampleEvents (by decide +kernel)
  have hlog : s.routed = [] ++ ("y", "a") :: [("x", "b")] ++ ("y", "a") :: [] :=
    of_decide_eq_true hrouted
  exact ⟨s, "a", hlog, sticky_session lru_exampleCache exampleBalancer_eq hs
    hlog (by decide)⟩

end Sticky

/-! ## Requests that do not come back -/

section Share

variable {C : Cache RequestId ServerId} {maxCacheSize : ℕ}
  {order : C.State → List (RequestId × ServerId)} {ids : List ServerId}
  {b : GlobalRequestLoadBalancer C} {s s' : State C} {e : Event}

/-- Every call has a request of its own, as `uuid4` gives it. -/
def NewRequest (s : State C) : Event → Prop
  | .generate r => r ∉ s.waiting ∧ r ∉ s.routed.map Prod.fst
  | _ => True

instance (s : State C) (e : Event) : Decidable (NewRequest s e) := by
  cases e with
  | generate r => exact inferInstanceAs (Decidable (_ ∧ _))
  | acquire r => exact inferInstanceAs (Decidable True)
  | finish call => exact inferInstanceAs (Decidable True)
  | release sid => exact inferInstanceAs (Decidable True)

structure Shared (s : State C) : Prop where
  cached : ∀ r sid, C.get? s.balancer.requestIdToServer r = some sid →
    r ∈ s.routed.map Prod.fst
  once : s.waiting.Nodup
  new : ∀ r ∈ s.waiting, r ∉ s.routed.map Prod.fst
  share : ∀ sid, s.balancer.inflight sid * s.balancer.inflightRequests.keys.length
    < s.peak + s.balancer.inflightRequests.keys.length

/-- The least loaded server has at most its share of the requests in flight. -/
theorem leastLoaded_share (b : GlobalRequestLoadBalancer C) :
    b.inflight b.leastLoaded * b.inflightRequests.keys.length ≤
      b.inflightRequests.sum := by
  have hle : ∀ n ∈ b.inflightRequests.entries.map Prod.snd,
      b.inflight b.leastLoaded ≤ n := by
    intro n hn
    obtain ⟨e, he, rfl⟩ := List.mem_map.mp hn
    have hkey : e.1 ∈ b.inflightRequests.keys := List.mem_map_of_mem he
    have hcount : b.inflight e.1 = e.2 := Dict.getD_of_mem he 0
    rw [← hcount]
    exact GlobalRequestLoadBalancer.inflight_leastLoaded_le hkey
  have hsum := List.card_nsmul_le_sum _ _ hle
  rw [nsmul_eq_mul, Nat.cast_id, List.length_map, mul_comm] at hsum
  rwa [Dict.keys, List.length_map]

theorem Shared.acquire (hlru : C.Lru maxCacheSize order)
    (hacc : Accounted ids s) (h : Shared s) {r : RequestId}
    (hr : r ∈ s.waiting) : Shared (acquired ids s r) := by
  have hnew := h.new r hr
  have hnone : C.get? s.balancer.requestIdToServer r = none := by
    cases hget : C.get? s.balancer.requestIdToServer r with
    | none => rfl
    | some sid => exact absurd (h.cached r sid hget) hnew
  have hserver : s.balancer.serverFor r = s.balancer.leastLoaded := by
    rw [GlobalRequestLoadBalancer.serverFor, hnone]
    rfl
  obtain ⟨b, hb, hcache, hkeys, hinflight⟩ := acquired_eq hacc r
  rw [hb]
  constructor
  · intro j sid hget
    rw [hcache, GlobalRequestLoadBalancer.cacheAfter, hnone] at hget
    rw [List.map_append, List.mem_append]
    rcases hlru.get?_put hnone hget with ⟨rfl, -⟩ | hold
    · exact .inr List.mem_cons_self
    · exact .inl (h.cached j sid hold)
  · exact h.once.erase r
  · intro j hj hmem
    rw [List.map_append, List.mem_append] at hmem
    obtain ⟨hne, hj⟩ := h.once.mem_erase_iff.mp hj
    rcases hmem with hold | hlast
    · exact h.new j hj hold
    · exact hne (List.mem_singleton.mp hlast)
  · intro sid
    show b.inflight sid * b.inflightRequests.keys.length <
      max s.peak _ + b.inflightRequests.keys.length
    rw [hinflight, hkeys, hserver]
    have hshare := h.share sid
    by_cases hsid : s.balancer.leastLoaded = sid
    · subst hsid
      have hleast := leastLoaded_share s.balancer
      rw [if_pos rfl, Nat.succ_mul]
      omega
    · rw [if_neg hsid, Nat.add_zero]
      omega

theorem shared_step (hlru : C.Lru maxCacheSize order) (hacc : Accounted ids s)
    (h : Shared s) (hnew : NewRequest s e) (hs : step ids s e = some s') :
    Shared s' := by
  rcases step_cases hacc hs with ⟨r, rfl, rfl⟩ | ⟨r, hr, -, rfl⟩ |
    ⟨call, -, -, rfl⟩ | ⟨sid, -, -, b, rfl, hcache, hkeys, hinflight⟩
  · refine ⟨h.cached, ?_, ?_, h.share⟩
    · exact List.concat_eq_append ▸ h.once.concat hnew.1
    · intro j hj
      rcases List.mem_append.mp hj with hold | hlast
      · exact h.new j hold
      · rw [List.mem_singleton.mp hlast]
        exact hnew.2
  · exact h.acquire hlru hacc hr
  · exact ⟨h.cached, h.once, h.new, h.share⟩
  · refine ⟨hcache ▸ h.cached, h.once, h.new, fun x => ?_⟩
    have hle : b.inflight x ≤ s.balancer.inflight x := by
      have hx := hinflight x
      omega
    show b.inflight x * b.inflightRequests.keys.length < s.peak +
      b.inflightRequests.keys.length
    rw [hkeys]
    exact (Nat.mul_le_mul_right _ hle).trans_lt (h.share x)

theorem shared_init (hlru : C.Lru maxCacheSize order)
    (hb : GlobalRequestLoadBalancer.init C ids = .ok b) :
    Shared (machine ids b).init := by
  have hacc : Accounted ids (machine ids b).init := accounted_init hlru hb
  have hcache : b.requestIdToServer = C.empty := by
    rw [GlobalRequestLoadBalancer.init] at hb
    split_ifs at hb
    obtain rfl := Except.ok.inj hb
    rfl
  refine ⟨fun r sid hget => ?_, List.nodup_nil, nofun, fun sid => ?_⟩
  · have hget' : C.get? b.requestIdToServer r = some sid := hget
    rw [hcache, hlru.get?_empty] at hget'
    cases hget'
  · rw [hacc.inflight]
    show 0 * _ < 0 + _
    rw [Nat.zero_mul, Nat.zero_add, Dict.keys, List.length_map]
    exact List.length_pos_of_ne_nil b.nonempty

theorem length_keys (hacc : Accounted ids s) :
    s.balancer.inflightRequests.keys.length = ids.toFinset.card := by
  rw [Dict.keys, ← List.toFinset_card_of_nodup s.balancer.inflightRequests.nodup,
    ← Dict.keys, hacc.keys]
  congr 1
  ext sid
  rw [List.mem_toFinset, List.mem_toFinset]
  exact GlobalRequestLoadBalancer.mem_keys_zeros

/-- **No server is overloaded.** If no request comes back, as in rollouts of a
single turn, then no server has ever more requests in flight than the largest
number that was in flight at once, divided by the servers and rounded up. A
request is in flight until the balancer has processed its release. -/
theorem no_server_overloaded (hlru : C.Lru maxCacheSize order)
    (hb : GlobalRequestLoadBalancer.init C ids = .ok b)
    (hs : (machine ids b).ReachableIf NewRequest s) (sid : ServerId) :
    s.balancer.inflight sid ≤
      (s.peak + ids.toFinset.card - 1) / ids.toFinset.card := by
  have hreach : (machine ids b).Reachable s :=
    hs.weaken fun _ _ _ _ _ _ => trivial
  have hshared : Shared s := by
    refine hs.invariant (shared_init hlru hb) ?_
    intro s e s' hs h hnew hstep
    have hacc := accounted_of_reachable hlru hb
      (hs.weaken fun _ _ _ _ _ _ => trivial)
    exact shared_step hlru hacc h hnew hstep
  have hacc := accounted_of_reachable hlru hb hreach
  have hshare := hshared.share sid
  have hpos' : 0 < s.balancer.inflightRequests.keys.length := by
    rw [Dict.keys, List.length_map]
    exact List.length_pos_of_ne_nil s.balancer.nonempty
  rw [← length_keys hacc, Nat.le_div_iff_mul_le hpos']
  omega

theorem no_server_overloaded_exampleEvents :
    ∃ s : State exampleCache, s.peak = 2 ∧
      s.balancer.inflight "b" ≤ (2 + 2 - 1) / 2 := by
  obtain ⟨s, hs, hpeak⟩ := Machine.exists_reachableIf_of_runIf
    (M := machine ["a", "b"] exampleBalancer) NewRequest
    (p := fun s => s.peak = 2) (exampleEvents.take 5) (by decide +kernel)
  have h := no_server_overloaded lru_exampleCache exampleBalancer_eq hs "b"
  rw [of_decide_eq_true hpeak] at h
  exact ⟨s, of_decide_eq_true hpeak, h⟩

end Share

end LoadBalancer

end TTSR.Trainer
