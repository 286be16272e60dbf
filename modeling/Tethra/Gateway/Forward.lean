import Tethra.Gateway.RouteTable
import Tethra.Gateway.Head

set_option autoImplicit false

/-! # Forwarding a request (`gateway/src/forward.rs`, `gateway/src/upstream.rs`)

A request's path names a route; once the route's origin is connected, the rebuilt head is sent to it.
The checks before the routing only refuse requests and are left out. -/

namespace Tethra.Gateway

/-- The path with query and fragment severed. -/
def RequestHead.pathOnly (head : RequestHead) : Str :=
  head.target.takeWhile fun c => c ≠ '?' && c ≠ '#'

def RequestHead.query (head : RequestHead) : Option Str :=
  (Text.splitOnce '?' head.target).map Prod.snd

structure Resolution where
  route : Route
  link : Option LinkInfo
  upstreamPath : Str

def stripSlash : Str → Option Str
  | '/' :: rest => some rest
  | _ => none

def splitSegment (rest : Str) : Str × Str := (rest.takeWhile (· ≠ '/'), rest.dropWhile (· ≠ '/'))

def normalizeTail (tail : Str) : Str := if tail = [] then ['/'] else tail

def RouteTable.link (table : RouteTable) (slug : Str) : Option LinkInfo :=
  table.links.find? (·.linkSlug = slug)

/-- `/p/<slug>/<prefix>/…` or `/<prefix>/…`. -/
def resolve (table : RouteTable) (path : Str) : Option Resolution := do
  let rest ← stripSlash path
  if (splitSegment rest).1 = ['p'] then
    let after ← stripSlash (splitSegment rest).2
    let link ← table.link (splitSegment after).1
    let after2 ← stripSlash (splitSegment after).2
    let route ← table.route (splitSegment after2).1
    if link.routePrefix ≠ route.routePrefix then none
    else return ⟨route, some link, normalizeTail (splitSegment after2).2⟩
  else
    let route ← table.route (splitSegment rest).1
    return ⟨route, none, normalizeTail (splitSegment rest).2⟩

def upstreamTarget (head : RequestHead) (res : Resolution) : Str :=
  match head.query with
  | some q => res.upstreamPath ++ '?' :: q
  | none => res.upstreamPath

/-- What dialing uses outside the repository: `ServerName::try_from`, and the network. -/
structure Dialer where
  serverName : Str → Bool
  reaches : UpstreamOrigin → Bool

/-- The name for TLS: a literal's brackets are not part of it. -/
def sniHost (host : Str) : Str := (host.dropWhile (· = '[')).rdropWhile (· = ']')

/-- A cached connection was dialed for the same origin. -/
def Dialer.connect (dialer : Dialer) (origin : UpstreamOrigin) : Bool :=
  dialer.reaches origin && dialer.serverName (sniHost origin.host)

/-- The head that is written to the upstream of a request, with the origin it goes to. -/
def forwardedHead (dialer : Dialer) (table : RouteTable) (head : RequestHead)
    (forceIdentity : Bool) : Option (UpstreamOrigin × Bytes) := do
  let res ← resolve table head.pathOnly
  match res.route.target with
  | .unforwardable _ => none
  | .ready origin =>
      if dialer.connect origin then
        return (origin,
          buildUpstreamHead head (upstreamTarget head res) origin.host true forceIdentity)
      else none

/-! ## The target -/

theorem mem_of_stripSlash {t rest : Str} (h : stripSlash t = some rest) {c : Char} (hc : c ∈ rest) :
    c ∈ t := by
  unfold stripSlash at h
  split at h
  · obtain rfl := Option.some.inj h
    exact List.mem_cons_of_mem _ hc
  · cases h

theorem mem_of_splitSegment {t : Str} {c : Char} (hc : c ∈ (splitSegment t).2) : c ∈ t :=
  (List.dropWhile_suffix _).mem hc

theorem mem_normalizeTail {t : Str} {c : Char} (hc : c ∈ normalizeTail t) : c = '/' ∨ c ∈ t := by
  unfold normalizeTail at hc
  split_ifs at hc
  · exact Or.inl (List.mem_singleton.1 hc)
  · exact Or.inr hc

/-- The path for the upstream is a part of the path of the request. -/
theorem mem_of_resolve {table : RouteTable} {path : Str} {res : Resolution}
    (h : resolve table path = some res) {c : Char} (hc : c ∈ res.upstreamPath) :
    c = '/' ∨ c ∈ path := by
  obtain ⟨rest, hrest, h⟩ := Option.bind_eq_some_iff.1 h
  split_ifs at h
  · obtain ⟨after, hafter, h⟩ := Option.bind_eq_some_iff.1 h
    obtain ⟨link, -, h⟩ := Option.bind_eq_some_iff.1 h
    obtain ⟨after2, hafter2, h⟩ := Option.bind_eq_some_iff.1 h
    obtain ⟨route, -, h⟩ := Option.bind_eq_some_iff.1 h
    split_ifs at h
    obtain rfl := Option.some.inj h
    refine (mem_normalizeTail hc).imp_right fun htail => ?_
    have hin := mem_of_stripSlash hafter2 (mem_of_splitSegment htail)
    have hin := mem_of_stripSlash hafter (mem_of_splitSegment hin)
    exact mem_of_stripSlash hrest (mem_of_splitSegment hin)
  · obtain ⟨route, -, h⟩ := Option.bind_eq_some_iff.1 h
    obtain rfl := Option.some.inj h
    refine (mem_normalizeTail hc).imp_right fun htail => ?_
    exact mem_of_stripSlash hrest (mem_of_splitSegment htail)

/-- The target for the upstream has only characters of the request's target, slashes and question
    marks. -/
theorem mem_upstreamTarget {table : RouteTable} {head : RequestHead} {res : Resolution}
    (h : resolve table head.pathOnly = some res) {c : Char} (hc : c ∈ upstreamTarget head res) :
    c = '/' ∨ c = '?' ∨ c ∈ head.target := by
  have hpath : ∀ d ∈ res.upstreamPath, d = '/' ∨ d = '?' ∨ d ∈ head.target := by
    intro d hd
    exact (mem_of_resolve h hd).imp_right fun hin =>
      Or.inr ((List.takeWhile_sublist _).mem hin)
  unfold upstreamTarget at hc
  split at hc
  · rename_i q hq
    obtain ⟨⟨before, after⟩, hsplit, rfl⟩ := Option.map_eq_some_iff.1 hq
    rcases List.mem_append.1 hc with hc | hc
    · exact hpath c hc
    · rcases List.mem_cons.1 hc with rfl | hc
      · exact Or.inr (Or.inl rfl)
      · refine Or.inr (Or.inr ?_)
        rw [(Text.splitOnce_eq_some hsplit).1]
        exact List.mem_append_right _ (List.mem_cons_of_mem _ hc)
  · exact hpath c hc

end Tethra.Gateway
