import Tethra.Gateway.RouteTable
import Tethra.Lib.Runs

set_option autoImplicit false

/-! # Upstream connections and their reuse (`gateway/src/upstream.rs`, `relay_plain` of `gateway/src/stream.rs`)

Bytes past the end of a response can sit in three places: in the gateway's carry buffer, in the TLS
session, and in the socket. The probe before a reuse inspects the first and the last
(`pool_reuse`). What the network does before a read is a parameter of the read. -/

namespace Tethra.Gateway

open Runs

/-- A connection to an upstream origin. -/
structure Upstream where
  origin : UpstreamOrigin
  tls : Bool
  /-- Read from the connection past the previous response. -/
  pending : List UInt8
  /-- Taken off the socket by the TLS session and not yet read from it. -/
  decrypted : List UInt8
  /-- In the socket. -/
  socket : List UInt8
  /-- The peer has closed its side. -/
  closed : Bool
  deriving DecidableEq, Repr

/-- `UpstreamConnector::connect`. -/
def Upstream.connect (origin : UpstreamOrigin) (tls : Bool) : Upstream :=
  ⟨origin, tls, [], [], [], false⟩

/-- Every byte that is present on an idle connection: nothing was asked for, so all are surplus. -/
def Upstream.surplus (u : Upstream) : List UInt8 := u.pending ++ u.decrypted ++ u.socket

def Upstream.arrive (u : Upstream) (bytes : List UInt8) : Upstream :=
  { u with socket := u.socket ++ bytes }

/-- `looks_alive`: nothing carried over, and a peek that would block. `probeOk` says that the operating
    system switched the socket to non-blocking and back, and that the peek met no other error. -/
def Upstream.looksAlive (u : Upstream) (probeOk : Bool) : Bool :=
  u.pending.isEmpty && probeOk && u.socket.isEmpty && !u.closed

/-- What the network does before a read returns. -/
inductive NetRead where
  /-- Bytes arrive; a TLS session that has nothing left takes `flight` bytes off the socket. -/
  | data (arrived : List UInt8) (flight : Nat)
  | eof
  | error
  deriving DecidableEq, Repr

/-- `read` into a buffer of `want` bytes. -/
def Upstream.read (u : Upstream) (want flight : Nat) : List UInt8 × Upstream :=
  if u.tls then
    let u := if u.decrypted = [] then
      { u with decrypted := u.socket.take flight, socket := u.socket.drop flight } else u
    (u.decrypted.take want, { u with decrypted := u.decrypted.drop want })
  else (u.socket.take want, { u with socket := u.socket.drop want })

/-- `BUF` of the relays. -/
def relayBuf : Nat := 16 * 1024

/-- What a relay has done: the count that it returns, what it wrote, and the source it leaves. -/
structure Relayed where
  relayed : Nat
  sent : List UInt8
  src : Upstream
  deriving DecidableEq, Repr

/-- The loop of `relay_plain`; no result when a read fails. -/
def relayLoop (limit : Option Nat) (st : Relayed) : List NetRead → Option Relayed
  | [] => if limit.any (· ≤ st.relayed) then some st else none
  | r :: reads =>
      if limit.any (· ≤ st.relayed) then some st
      else
        match r with
        | .error => none
        | .eof => some st
        | .data arrived flight =>
            let want := match limit with
              | some n => min relayBuf (n - st.relayed)
              | none => relayBuf
            let (bytes, src) := (st.src.arrive arrived).read want flight
            relayLoop limit ⟨st.relayed + bytes.length, st.sent ++ bytes, src⟩ reads

/-- `relay_plain`: the relay, and the bytes of `initial` past the limit. -/
def relayPlain (src : Upstream) (limit : Option Nat) (initial : List UInt8) (reads : List NetRead) :
    Option (Relayed × List UInt8) :=
  let take := match limit with
    | some n => min initial.length n
    | none => initial.length
  (relayLoop limit ⟨take, initial.take take, src⟩ reads).map fun st => (st, initial.drop take)

/-! ## The pool -/

/-- `MAX_UPSTREAMS_PER_CONNECTION`. -/
def maxUpstreamsPerConnection : Nat := 4

structure UpstreamPool where
  byRoute : List (Str × Upstream)
  order : List Str
  deriving DecidableEq, Repr

def UpstreamPool.empty : UpstreamPool := ⟨[], []⟩

def UpstreamPool.remove (pool : UpstreamPool) (route : Str) : UpstreamPool :=
  ⟨pool.byRoute.filter (·.1 ≠ route), pool.order.filter (· ≠ route)⟩

/-- `take`: a cached connection leaves the pool, and is handed out when it is usable. -/
def UpstreamPool.take (pool : UpstreamPool) (route : Str) (origin : UpstreamOrigin) (probeOk : Bool) :
    Option Upstream × UpstreamPool :=
  match pool.byRoute.lookup route with
  | none => (none, pool)
  | some cached =>
      if cached.origin ≠ origin || !cached.looksAlive probeOk then (none, pool.remove route)
      else (some cached, pool.remove route)

/-- The eviction of `put`: at the cap the oldest route goes. -/
def UpstreamPool.makeRoom (pool : UpstreamPool) : UpstreamPool :=
  if maxUpstreamsPerConnection ≤ pool.order.length then
    match pool.order with
    | evict :: order => ⟨pool.byRoute.filter (·.1 ≠ evict), order⟩
    | [] => pool
  else pool

def UpstreamPool.put (pool : UpstreamPool) (route : Str) (u : Upstream) : UpstreamPool :=
  let pool := pool.makeRoom
  ⟨Keyed.upsert Prod.fst route (fun _ => (route, u)) (route, u) pool.byRoute, pool.order ++ [route]⟩

/-- One connection for a route, at most the cap, and the order lists exactly the routes. -/
structure UpstreamPool.WellFormed (pool : UpstreamPool) : Prop where
  order : pool.order.Perm (pool.byRoute.map Prod.fst)
  nodup : (pool.byRoute.map Prod.fst).Nodup
  cap : pool.byRoute.length ≤ maxUpstreamsPerConnection

theorem UpstreamPool.wellFormed_empty : UpstreamPool.empty.WellFormed :=
  ⟨List.Perm.refl _, List.nodup_nil, Nat.zero_le _⟩

theorem UpstreamPool.keys_filter (xs : List (Str × Upstream)) (route : Str) :
    (xs.filter (·.1 ≠ route)).map Prod.fst = (xs.map Prod.fst).filter (· ≠ route) := by
  rw [List.filter_map]
  rfl

theorem UpstreamPool.WellFormed.remove {pool : UpstreamPool} (h : pool.WellFormed) (route : Str) :
    (pool.remove route).WellFormed := by
  obtain ⟨horder, hnodup, hcap⟩ := h
  refine ⟨?_, ?_, ?_⟩
  · rw [UpstreamPool.remove, UpstreamPool.keys_filter]
    exact horder.filter _
  · rw [UpstreamPool.remove, UpstreamPool.keys_filter]
    exact hnodup.filter _
  · exact (List.length_filter_le _ _).trans hcap

theorem UpstreamPool.not_mem_remove (pool : UpstreamPool) (route : Str) :
    route ∉ (pool.remove route).byRoute.map Prod.fst := by
  rw [UpstreamPool.remove, UpstreamPool.keys_filter]
  simp

theorem UpstreamPool.lookup_none {pool : UpstreamPool} {route : Str}
    (h : pool.byRoute.lookup route = none) : route ∉ pool.byRoute.map Prod.fst := by
  rw [List.lookup_eq_none_iff] at h
  intro hmem
  obtain ⟨p, hp, rfl⟩ := List.mem_map.1 hmem
  simpa using h p hp

/-- A checkout keeps the pool well formed, and the route is not in it afterwards; what it hands out is
    clean but for what the TLS session holds. -/
theorem UpstreamPool.take_spec {pool : UpstreamPool} (h : pool.WellFormed) (route : Str)
    (origin : UpstreamOrigin) (probeOk : Bool) :
    (pool.take route origin probeOk).2.WellFormed ∧
      route ∉ (pool.take route origin probeOk).2.byRoute.map Prod.fst ∧
      ∀ u, (pool.take route origin probeOk).1 = some u → u.pending = [] ∧ u.socket = [] := by
  unfold UpstreamPool.take
  split
  · rename_i hnone
    exact ⟨h, UpstreamPool.lookup_none hnone, nofun⟩
  · rename_i cached hcached
    split_ifs with hunusable
    · exact ⟨h.remove route, pool.not_mem_remove route, nofun⟩
    · refine ⟨h.remove route, pool.not_mem_remove route, ?_⟩
      intro u hu
      obtain rfl := Option.some.inj hu
      simp only [Upstream.looksAlive, Bool.or_eq_true, Bool.not_eq_true', not_or, Bool.not_eq_false,
        Bool.and_eq_true, List.isEmpty_iff] at hunusable
      exact ⟨hunusable.2.1.1.1, hunusable.2.1.2⟩

/-- Making room keeps the pool well formed, and leaves a free place. -/
theorem UpstreamPool.WellFormed.makeRoom {pool : UpstreamPool} (h : pool.WellFormed) :
    pool.makeRoom.WellFormed ∧ pool.makeRoom.byRoute.length < maxUpstreamsPerConnection ∧
      ∀ route, route ∉ pool.byRoute.map Prod.fst → route ∉ pool.makeRoom.byRoute.map Prod.fst := by
  obtain ⟨horder, hnodup, hcap⟩ := h
  have hlen : pool.order.length = pool.byRoute.length := by
    rw [horder.length_eq, List.length_map]
  unfold UpstreamPool.makeRoom
  split_ifs with hfull
  · split
    · rename_i evict order hcons
      -- the oldest route is not listed again behind itself
      have hnodup' : (evict :: order).Nodup := by
        rw [← hcons]
        exact horder.nodup_iff.2 hnodup
      have horder' : order.Perm ((pool.byRoute.filter (·.1 ≠ evict)).map Prod.fst) := by
        rw [UpstreamPool.keys_filter]
        have hfilter := (hcons ▸ horder).filter (fun r => decide (r ≠ evict))
        have hrest : (evict :: order).filter (fun r => decide (r ≠ evict)) = order := by
          rw [List.filter_cons_of_neg (by simp)]
          refine List.filter_eq_self.2 ?_
          intro r hr
          have hne : r ≠ evict := by
            rintro rfl
            exact (List.nodup_cons.1 hnodup').1 hr
          simpa using hne
        rwa [hrest] at hfilter
      have hlen' : (pool.byRoute.filter (·.1 ≠ evict)).length = order.length := by
        rw [horder'.length_eq, List.length_map]
      have hcons' : pool.order.length = order.length + 1 := by rw [hcons, List.length_cons]
      refine ⟨⟨horder', ?_, ?_⟩, ?_, ?_⟩
      · rw [UpstreamPool.keys_filter]
        exact hnodup.filter _
      · show (pool.byRoute.filter (·.1 ≠ evict)).length ≤ _
        omega
      · show (pool.byRoute.filter (·.1 ≠ evict)).length < _
        omega
      · intro route hroute
        rw [UpstreamPool.keys_filter]
        exact fun hmem => hroute (List.mem_of_mem_filter hmem)
    · rename_i hnil
      rw [hnil] at hfull
      simp [maxUpstreamsPerConnection] at hfull
  · exact ⟨⟨horder, hnodup, hcap⟩, by omega, fun _ hroute => hroute⟩

/-- A check-in of a route that is not in the pool keeps it well formed. -/
theorem UpstreamPool.WellFormed.put {pool : UpstreamPool} (h : pool.WellFormed) {route : Str}
    (hroute : route ∉ pool.byRoute.map Prod.fst) (u : Upstream) : (pool.put route u).WellFormed := by
  obtain ⟨⟨horder, hnodup, -⟩, hroom, hnew⟩ := h.makeRoom
  have hroute' := hnew route hroute
  have hkeys : (pool.put route u).byRoute.map Prod.fst
      = pool.makeRoom.byRoute.map Prod.fst ++ [route] := by
    have hupsert := @Keyed.keys_upsert (Str × Upstream) Str _ Prod.fst route (fun _ => (route, u))
      (route, u) pool.makeRoom.byRoute (fun _ _ => rfl) rfl
    exact hupsert.trans (if_neg hroute')
  refine ⟨?_, ?_, ?_⟩
  · rw [hkeys]
    exact horder.append_right [route]
  · rw [hkeys]
    exact hnodup.append (List.nodup_singleton route) (by simpa using hroute')
  · have hlen := congrArg List.length hkeys
    rw [List.length_map, List.length_append, List.length_map, List.length_singleton] at hlen
    omega

/-! ## One client connection -/

/-- The exchange in progress: its route and connection, and what was read and not yet used. -/
structure Exchange where
  route : Str
  upstream : Upstream
  carry : List UInt8
  deriving DecidableEq, Repr

/-- A read into the carry. -/
def Exchange.read (e : Exchange) (want flight : Nat) : Exchange :=
  { e with
    upstream := (e.upstream.read want flight).2
    carry := e.carry ++ (e.upstream.read want flight).1 }

/-- A client connection with its pool; `handed` are the pooled connections that were handed out, as
    they were then. -/
structure ClientConn where
  pool : UpstreamPool
  current : Option Exchange
  handed : List Upstream
  deriving DecidableEq, Repr

def ClientConn.start : ClientConn := ⟨.empty, none, []⟩

/-- The beginning of a request: a pooled connection, or a new one. Its pending bytes become the
    exchange's carry. -/
def ClientConn.request (c : ClientConn) (route : Str) (origin : UpstreamOrigin) (tls probeOk : Bool) :
    ClientConn :=
  match c.pool.take route origin probeOk with
  | (some u, pool) => ⟨pool, some ⟨route, { u with pending := [] }, u.pending⟩, c.handed ++ [u]⟩
  | (none, pool) => ⟨pool, some ⟨route, .connect origin tls, []⟩, c.handed⟩

/-- The end of an exchange: what is left goes with the connection, into the pool or away. -/
def ClientConn.checkIn (c : ClientConn) (e : Exchange) (keep : Bool) : ClientConn :=
  if keep then
    { c with pool := c.pool.put e.route { e.upstream with pending := e.carry }, current := none }
  else { c with current := none }

/-- The network acts on a pooled connection: bytes arrive, or the peer closes. -/
def UpstreamPool.deliver (pool : UpstreamPool) (route : Str) (bytes : List UInt8) (closed : Bool) :
    UpstreamPool :=
  let act := fun p : Str × Upstream =>
    (p.1, { p.2.arrive bytes with closed := p.2.closed || closed })
  { pool with byRoute := Keyed.modify Prod.fst route act pool.byRoute }

theorem UpstreamPool.keys_deliver (pool : UpstreamPool) (route : Str) (bytes : List UInt8)
    (closed : Bool) :
    (pool.deliver route bytes closed).byRoute.map Prod.fst = pool.byRoute.map Prod.fst :=
  Keyed.keys_modify (fun _ hk => hk)

theorem UpstreamPool.WellFormed.deliver {pool : UpstreamPool} (h : pool.WellFormed) (route : Str)
    (bytes : List UInt8) (closed : Bool) : (pool.deliver route bytes closed).WellFormed := by
  have hkeys := pool.keys_deliver route bytes closed
  refine ⟨?_, ?_, ?_⟩
  · rw [hkeys]
    exact h.order
  · rw [hkeys]
    exact h.nodup
  · have hlen := congrArg List.length hkeys
    rw [List.length_map, List.length_map] at hlen
    rw [hlen]
    exact h.cap

/-- A step of a client connection, of the network, or of the exchange in progress. The heads and the
    chunked bodies are reads into the carry and uses of its first bytes. -/
inductive ConnStep : ClientConn → ClientConn → Prop where
  | request {c : ClientConn} (route : Str) (origin : UpstreamOrigin) (tls probeOk : Bool)
      (h : c.current = none) : ConnStep c (c.request route origin tls probeOk)
  | redial {c : ClientConn} {e : Exchange} (tls : Bool) (h : c.current = some e) :
      ConnStep c { c with current := some { e with upstream := .connect e.upstream.origin tls } }
  | arrive {c : ClientConn} {e : Exchange} (bytes : List UInt8) (h : c.current = some e) :
      ConnStep c { c with current := some { e with upstream := e.upstream.arrive bytes } }
  | pooled {c : ClientConn} (route : Str) (bytes : List UInt8) (closed : Bool) :
      ConnStep c { c with pool := c.pool.deliver route bytes closed }
  | read {c : ClientConn} {e : Exchange} (want flight : Nat) (h : c.current = some e) :
      ConnStep c { c with current := some (e.read want flight) }
  | use {c : ClientConn} {e : Exchange} (k : Nat) (h : c.current = some e) :
      ConnStep c { c with current := some { e with carry := e.carry.drop k } }
  | relay {c : ClientConn} {e : Exchange} {n : Nat} {reads : List NetRead} {st : Relayed}
      {leftover : List UInt8} (h : c.current = some e)
      (hrelay : relayPlain e.upstream (some n) e.carry reads = some (st, leftover))
      (hlen : n ≤ st.relayed) :
      ConnStep c { c with current := some { e with upstream := st.src, carry := leftover } }
  | checkIn {c : ClientConn} {e : Exchange} (keep : Bool) (h : c.current = some e) :
      ConnStep c (c.checkIn e keep)
  | fail {c : ClientConn} {e : Exchange} (h : c.current = some e) :
      ConnStep c { c with current := none }
  | close (c : ClientConn) : ConnStep c { c with pool := .empty, current := none }

/-- The pool is well formed and does not hold the route in use; what was handed out was clean but for
    the TLS session. -/
structure ClientConn.Inv (c : ClientConn) : Prop where
  pool : c.pool.WellFormed
  current : ∀ e, c.current = some e → e.route ∉ c.pool.byRoute.map Prod.fst
  handed : ∀ u ∈ c.handed, u.pending = [] ∧ u.socket = []

theorem ClientConn.inv_start : ClientConn.start.Inv :=
  ⟨UpstreamPool.wellFormed_empty, nofun, nofun⟩

theorem ClientConn.Inv.request {c : ClientConn} (h : c.Inv) (route : Str) (origin : UpstreamOrigin)
    (tls probeOk : Bool) : (c.request route origin tls probeOk).Inv := by
  obtain ⟨hpool, hroute, hclean⟩ := UpstreamPool.take_spec h.pool route origin probeOk
  unfold ClientConn.request
  split
  · rename_i u pool htake
    rw [htake] at hpool hroute hclean
    refine ⟨hpool, ?_, ?_⟩
    · rintro e he
      obtain rfl := Option.some.inj he
      exact hroute
    · intro v hv
      rcases List.mem_append.1 hv with hv | hv
      · exact h.handed v hv
      · rw [List.mem_singleton.1 hv]
        exact hclean u rfl
  · rename_i pool htake
    rw [htake] at hpool hroute
    refine ⟨hpool, ?_, h.handed⟩
    rintro e he
    obtain rfl := Option.some.inj he
    exact hroute

/-- A step inside an exchange keeps its route. -/
theorem ClientConn.Inv.exchange {c : ClientConn} (h : c.Inv) {e e' : Exchange}
    (hcurrent : c.current = some e) (hroute : e'.route = e.route) :
    ClientConn.Inv { c with current := some e' } := by
  refine ⟨h.pool, ?_, h.handed⟩
  rintro e'' he''
  obtain rfl := Option.some.inj he''
  rw [hroute]
  exact h.current e hcurrent

theorem ClientConn.Inv.step {c d : ClientConn} (h : c.Inv) (hstep : ConnStep c d) : d.Inv := by
  match hstep with
  | .request route origin tls probeOk _ => exact h.request route origin tls probeOk
  | .redial _ he => exact h.exchange he rfl
  | .arrive _ he => exact h.exchange he rfl
  | .pooled route bytes closed =>
      refine ⟨h.pool.deliver route bytes closed, ?_, h.handed⟩
      intro e he
      show e.route ∉ (c.pool.deliver route bytes closed).byRoute.map Prod.fst
      rw [UpstreamPool.keys_deliver]
      exact h.current e he
  | .read _ _ he => exact h.exchange he rfl
  | .use _ he => exact h.exchange he rfl
  | .relay he _ _ => exact h.exchange he rfl
  | .checkIn keep he =>
      unfold ClientConn.checkIn
      split
      · exact ⟨h.pool.put (h.current _ he) _, nofun, h.handed⟩
      · exact ⟨h.pool, nofun, h.handed⟩
  | .fail _ => exact ⟨h.pool, nofun, h.handed⟩
  | .close _ => exact ⟨UpstreamPool.wellFormed_empty, nofun, h.handed⟩

/-- In every run of a client connection the pool is well formed, and a pooled connection was handed out
    without surplus exactly when its TLS session held nothing. -/
theorem pool_reuse {c : ClientConn} (h : Steps ConnStep .start c) :
    c.pool.WellFormed ∧ ∀ u ∈ c.handed, u.surplus = [] ↔ u.decrypted = [] := by
  have hinv : c.Inv := Steps.invariant (I := ClientConn.Inv) (fun _ _ hc hstep => hc.step hstep)
    ClientConn.inv_start h
  refine ⟨hinv.pool, ?_⟩
  intro u hu
  obtain ⟨hpending, hsocket⟩ := hinv.handed u hu
  simp [Upstream.surplus, hpending, hsocket]

def openAiOrigin : UpstreamOrigin := ⟨"api.openai.com".toList, 443⟩

/-- The response whose length is 2, in the exchange that has read its head. -/
def twoByteExchange (socket : List UInt8) : Exchange :=
  ⟨"openai".toList, { Upstream.connect openAiOrigin true with socket := socket }, []⟩

/-- The connection after that response was relayed from one flight of the socket, and checked in. -/
def twoByteConn (socket : List UInt8) : ClientConn :=
  ClientConn.checkIn ⟨.empty, none, []⟩
    ⟨"openai".toList,
      { Upstream.connect openAiOrigin true with decrypted := socket.drop 2 }, []⟩ true

/-- A response of two bytes, and the bytes that come with it in the same flight. -/
theorem steps_twoByteConn (socket : List UInt8) (hlen : 2 ≤ socket.length) :
    Steps ConnStep .start (twoByteConn socket) := by
  have hrequest : ConnStep .start (ClientConn.start.request "openai".toList openAiOrigin true true) :=
    .request _ _ _ _ rfl
  have harrive : ConnStep (ClientConn.start.request "openai".toList openAiOrigin true true)
      ⟨.empty, some (twoByteExchange socket), []⟩ :=
    .arrive (e := ⟨"openai".toList, .connect openAiOrigin true, []⟩) socket rfl
  have hrelay : relayPlain (twoByteExchange socket).upstream (some 2) []
      [.data [] socket.length] = some (⟨2, socket.take 2,
        { Upstream.connect openAiOrigin true with decrypted := socket.drop 2 }⟩, []) := by
    simp [relayPlain, relayLoop, relayBuf, twoByteExchange, Upstream.arrive, Upstream.read,
      Upstream.connect, hlen]
  have hrelayed := ConnStep.relay (c := ⟨.empty, some (twoByteExchange socket), []⟩) rfl hrelay
    (Nat.le_refl _)
  exact (((Relation.ReflTransGen.single hrequest).tail harrive).tail hrelayed).tail (.checkIn true rfl)

/-- Without bytes behind the response the pooled connection is handed out clean. -/
theorem pool_reuse_clean :
    let c := (twoByteConn [0x68, 0x69]).request "openai".toList openAiOrigin true true
    c.handed.length = 1 ∧
      (c.pool.WellFormed ∧ ∀ u ∈ c.handed, u.surplus = [] ↔ u.decrypted = []) :=
  ⟨by decide, pool_reuse ((steps_twoByteConn _ (by decide)).tail (.request _ _ _ _ rfl))⟩

/-- Bytes that came in the flight of the response stay in the TLS session, where the probe does not
    see them: the next request gets the connection with them. -/
theorem pool_reuse_surplus :
    ∃ c, Steps ConnStep .start c ∧ ∃ u ∈ c.handed, u.surplus = [0x21] := by
  refine ⟨(twoByteConn [0x68, 0x69, 0x21]).request "openai".toList openAiOrigin true true,
    (steps_twoByteConn _ (by decide)).tail (.request _ _ _ _ rfl), ?_⟩
  exact ⟨_, List.mem_singleton_self _, rfl⟩

end Tethra.Gateway
