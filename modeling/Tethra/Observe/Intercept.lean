import Tethra.Observe.Relay

set_option autoImplicit false

/-! # The loop over an intercepted connection (`observe/src/proxy.rs`)

The loop takes a request and relays it, takes one response head and relays it with its body, and records the
two. The first head is the response, also when it is an interim one: that is recorded, and what was read
behind it is dropped (`intercept_interim`). A body that ends with the connection closes the client's only
where a side has announced it.

Where each request has one response, each body is framed as the far end frames it, and a close that ends a
body is announced, the exchanges stay paired, however the bytes arrive (`exchanges_paired`). -/

namespace Tethra.Interception

open Gateway Observe

/-! ## Reading a head -/

def headRead : Nat := 4096

/-- The loops of `read_head_inner` without a deadline and of `read_response_head`, from a buffer. -/
def readHead {H : Type} (accept : Bytes → Except CoreError (Option (HeadParts H))) (exceeds : String)
    (ended : Bytes → String) (buf : Bytes) (src : Conn) : Except Stop (HeadParts H × Conn) :=
  match accept buf with
  | .error e => .error (.failed e)
  | .ok (some parts) => .ok (parts, src)
  | .ok none =>
      if maxHead < buf.length then refused exceeds
      else
        match src.read headRead with
        | .error e => .error e
        | .ok (s, src) =>
            if s = [] then refused (ended buf) else readHead accept exceeds ended (buf ++ s) src
termination_by maxHead + 1 - buf.length
decreasing_by
  rename_i hs
  have := List.length_pos_iff.2 hs
  simp only [List.length_append]
  omega

def readRequestHead (httparse : Bytes → ParseStatus) (initial : Bytes) (src : Conn) :
    Except Stop (HeadParts RequestHead × Conn) :=
  readHead (acceptRequest httparse) "request head exceeds limit"
    (fun _ => "connection closed before request head completed") initial src

def readResponseHead (httparse : Bytes → ResponseStatus) (src : Conn) :
    Except Stop (HeadParts ResponseHead × Conn) :=
  readHead (acceptResponse httparse) "response head exceeds limit"
    (fun buf =>
      if buf = [] then "no response" else "connection closed before response head completed") [] src

/-! ## The loop -/

inductive Observation where
  /-- The heads, the bytes of the request and the bytes of the response. -/
  | http (request : RequestHead) (response : ResponseHead) (requestBytes responseBytes : Nat)
  /-- No response, `TransportError::Reset`. -/
  | reset

/-- What the two sides and the sink have got. -/
structure Log where
  toUpstream : Bytes
  toClient : Bytes
  observed : List Observation

inductive Ended where
  /-- The connections are closed. -/
  | closed
  /-- A read does not come back. -/
  | waiting
  /-- Both sides are copied byte for byte from here on. -/
  | upgraded
  deriving DecidableEq

def Stop.ended : Stop → Ended
  | .waiting => .waiting
  | .failed _ => .closed

/-- What the upstream sends when it has the whole request. -/
structure Reply where
  reads : List {s : Bytes // s ≠ []}
  closes : Bool

def Conn.arrive (c : Conn) (reply : Reply) : Conn := ⟨c.reads ++ reply.reads, c.closed || reply.closes⟩

structure Parsers where
  request : Bytes → ParseStatus
  response : Bytes → ResponseStatus

/-- The loop of `intercept_https`, followed up to the last reply of the list. -/
def intercept (httparse : Parsers) :
    List Reply → Bytes → Conn → Conn → Log → Log × Ended
  | replies, carry, client, upstream, log =>
      match readRequestHead httparse.request carry client with
      | .error e => (log, e.ended)
      | .ok (request, client) =>
          let run :=
            relayBody request.head.bodyFraming request.leftover client (log.toUpstream ++ request.raw)
          let log := { log with toUpstream := run.2 }
          match run.1 with
          | .error e => (log, e.ended)
          | .ok (requestBody, requestCarry, client) =>
              match replies with
              | [] => (log, .waiting)
              | reply :: replies =>
                  match readResponseHead httparse.response (upstream.arrive reply) with
                  | .error .waiting => (log, .waiting)
                  | .error (.failed _) => ({ log with observed := log.observed ++ [.reset] }, .closed)
                  | .ok (response, upstream) =>
                      let requestBytes := request.raw.length + requestBody
                      if response.head.status = 101 then
                        ({ toUpstream := log.toUpstream ++ requestCarry
                           toClient := log.toClient ++ response.raw ++ response.leftover
                           observed := log.observed ++
                             [.http request.head response.head requestBytes response.raw.length] },
                          .upgraded)
                      else
                        let run := relayBody (response.head.bodyFraming request.head.method)
                          response.leftover upstream (log.toClient ++ response.raw)
                        match run.1 with
                        | .error .waiting => ({ log with toClient := run.2 }, .waiting)
                        | .error (.failed _) =>
                            ({ log with
                               toClient := run.2
                               observed := log.observed ++
                                 [.http request.head response.head requestBytes response.raw.length] },
                              .closed)
                        | .ok (responseBody, _, upstream) =>
                            -- What was read behind the response is dropped.
                            let log := { log with
                              toClient := run.2
                              observed := log.observed ++
                                [.http request.head response.head requestBytes
                                  (response.raw.length + responseBody)] }
                            if request.head.connectionClose || response.head.connectionClose then
                              (log, .closed)
                            else intercept httparse replies requestCarry client upstream log

/-! ## Exchanges on the wire -/

structure WireRequest where
  raw : Bytes
  method : Option Str
  path : Option Str
  version : Option Nat
  headers : List Header
  body : Bytes
  deriving DecidableEq

structure WireResponse where
  raw : Bytes
  code : Option Nat
  reason : Option Str
  version : Option Nat
  headers : List Header
  body : Bytes
  deriving DecidableEq

def WireRequest.bytes (r : WireRequest) : Bytes := r.raw ++ r.body

def WireResponse.bytes (r : WireResponse) : Bytes := r.raw ++ r.body

def WireRequest.head (r : WireRequest) : RequestHead := requestFrom r.method r.path r.version r.headers

def WireResponse.head (r : WireResponse) : ResponseHead := responseFrom r.code r.version r.headers

/-- The bytes of a head, however they arrive. -/
structure WireRequest.Parsed (httparse : Bytes → ParseStatus) (r : WireRequest) : Prop where
  complete : ∀ more, httparse (r.raw ++ more) = .complete r.raw.length r.method r.path r.version r.headers
  partway : ∀ buf, buf <+: r.raw → buf ≠ r.raw → httparse buf = .incomplete

structure WireResponse.Parsed (httparse : Bytes → ResponseStatus) (r : WireResponse) : Prop where
  complete : ∀ more, httparse (r.raw ++ more) = .complete r.raw.length r.code r.reason r.version r.headers
  partway : ∀ buf, buf <+: r.raw → buf ≠ r.raw → httparse buf = .incomplete

/-- A request and the responses to it, the interim ones first. -/
structure Exchange where
  request : WireRequest
  interim : List WireResponse
  response : WireResponse
  reply : Reply

def Exchange.answer (e : Exchange) : Bytes := (e.interim ++ [e.response]).flatMap WireResponse.bytes

/-- One side has announced that it closes. -/
def Exchange.announced (e : Exchange) : Bool :=
  e.request.head.connectionClose || e.response.head.connectionClose

/-- By the standard. -/
def Exchange.framing (e : Exchange) : Option BodyFraming :=
  responseFraming e.request.head.method e.response.head.status e.response.headers

/-- The observation of the exchange, with the final response. -/
def Exchange.observation (e : Exchange) : Observation :=
  .http e.request.head e.response.head e.request.bytes.length e.response.bytes.length

/-- The bodies end where the standard says, and the upstream closes to end one that nothing else ends. -/
structure Exchange.Conforming (httparse : Parsers) (e : Exchange) : Prop where
  parsedRequest : e.request.Parsed httparse.request
  parsedResponses : ∀ r ∈ e.interim ++ [e.response], r.Parsed httparse.response
  requestBody : ∃ framing, requestFraming e.request.headers = some framing ∧ IsBody framing e.request.body
  interims : ∀ r ∈ e.interim, 100 ≤ r.head.status ∧ r.head.status ≤ 199 ∧ r.head.status ≠ 101 ∧ r.body = []
  final : 200 ≤ e.response.head.status
  responseBody : ∃ framing, e.framing = some framing ∧ IsBody framing e.response.body ∧
    (framing = .untilClose → e.reply.closes = true)
  replied : e.reply.reads.flatMap Subtype.val = e.answer

/-- What the loop needs besides. -/
structure Exchange.Relayable (e : Exchange) : Prop where
  noInterim : e.interim = []
  requestFramed : RequestFramed e.request.head.method e.request.headers
  responseFramed : ResponseFramed e.request.head.method e.response.head.status e.response.headers
  requestHead : e.request.raw.length ≤ maxHead + 1
  responseHead : e.response.raw.length ≤ maxHead + 1
  announcedClose : e.framing = some .untilClose → e.announced = true

/-- An upstream that has closed answers no more. Where it announced that, no other request reaches it. -/
def AnsweredOpen (exchanges : List Exchange) : Prop :=
  ∀ before e after, exchanges = before ++ e :: after → e.reply.closes = true →
    e.announced = true ∨ after = []

/-- The exchanges up to the first that closes. -/
def untilAnnounced : List Exchange → List Exchange
  | [] => []
  | e :: rest => if e.announced then [e] else e :: untilAnnounced rest

/-! ## The run -/

/-- A head is found where it ends, however it arrives. -/
theorem readHead_of_rest {H : Type} {accept : Bytes → Except CoreError (Option (HeadParts H))}
    {exceeds : String} {ended : Bytes → String} {head : H} {raw buf more : Bytes} {src : Conn}
    (hcomplete : ∀ more, accept (raw ++ more) = .ok (some ⟨head, raw, more⟩))
    (hpartway : ∀ buf, buf <+: raw → buf ≠ raw → accept buf = .ok none)
    (hlen : raw.length ≤ maxHead + 1) (h : buf ++ src.bytes = raw ++ more) :
    ∃ leftover src', readHead accept exceeds ended buf src = .ok (⟨head, raw, leftover⟩, src') ∧
      leftover ++ src'.bytes = more ∧ src'.closed = src.closed := by
  induction hn : maxHead + 1 - buf.length using Nat.strong_induction_on generalizing buf src with
  | _ n ih =>
      by_cases hraw : raw <+: buf
      · obtain ⟨leftover, rfl⟩ := hraw
        refine ⟨leftover, src, ?_, by simpa using h, rfl⟩
        rw [readHead, hcomplete]
      have hbuf : buf <+: raw :=
        (List.prefix_or_prefix_of_prefix (h ▸ List.prefix_append _ _)
          (List.prefix_append raw more)).resolve_right hraw
      have hne : buf ≠ raw := by
        rintro rfl
        exact hraw List.prefix_rfl
      have hshort : buf.length < raw.length :=
        lt_of_le_of_ne hbuf.length_le fun heq => hne (hbuf.eq_of_length heq)
      have hbytes : src.bytes ≠ [] := by
        intro hnil
        have := congrArg List.length h
        simp only [hnil, List.length_append, List.length_nil] at this
        omega
      obtain ⟨s, src₁, hread, hs, -, hsplit, hclosed⟩ :=
        Conn.read_of_bytes (by decide : 0 < headRead) hbytes
      have hpos := List.length_pos_iff.2 hs
      obtain ⟨leftover, src', hhead, hrest, hclosed'⟩ := ih (maxHead + 1 - (buf ++ s).length)
        (by simp only [List.length_append]; omega)
        (show buf ++ s ++ src₁.bytes = raw ++ more by rw [List.append_assoc, ← hsplit, h]) rfl
      refine ⟨leftover, src', ?_, hrest, hclosed'.trans hclosed⟩
      rw [readHead, hpartway buf hbuf hne]
      simp only [hread, if_neg hs, hhead]
      rw [if_neg (by omega)]

theorem isBody_normalized {framing : BodyFraming} {body : Bytes} :
    IsBody (normalized framing) body ↔ IsBody framing body := by
  cases framing with
  | contentLength n =>
      rw [normalized_contentLength]
      split_ifs with h
      · simp [IsBody, h]
      · rfl
  | _ => rfl

theorem normalized_eq_untilClose {framing : BodyFraming} :
    normalized framing = .untilClose ↔ framing = .untilClose := by
  cases framing with
  | contentLength n =>
      rw [normalized_contentLength]
      split_ifs <;> simp
  | _ => simp

/-- Framings that agree have the same bodies. -/
theorem isBody_of_agrees {relayed framing : BodyFraming} {body : Bytes} (h : Agrees relayed (some framing))
    (hbody : IsBody framing body) :
    IsBody relayed body ∧ (relayed = .untilClose → framing = .untilClose) := by
  rw [agrees_some] at h
  refine ⟨?_, fun hclose => ?_⟩
  · rwa [← isBody_normalized, ← h, isBody_normalized]
  · rwa [← normalized_eq_untilClose, h, normalized_eq_untilClose]

theorem requestFraming_ne_untilClose {headers : List Header} :
    requestFraming headers ≠ some .untilClose := by
  unfold requestFraming
  split_ifs <;> simp

section

variable {httparse : Parsers} {e : Exchange} {client upstream : Conn} {carry more : Bytes} {log : Log}

/-- The loop finds the request and its body, and what follows is the next request's. -/
theorem request_relayed (he : e.Conforming httparse)
    (hframed : RequestFramed e.request.head.method e.request.headers)
    (hlen : e.request.raw.length ≤ maxHead + 1) (dst : Bytes)
    (h : carry ++ client.bytes = e.request.bytes ++ more) :
    ∃ leftover client₁ carry' client',
      readRequestHead httparse.request carry client
        = .ok (⟨e.request.head, e.request.raw, leftover⟩, client₁) ∧
      relayBody e.request.head.bodyFraming leftover client₁ dst
        = (.ok (e.request.body.length, carry', client'), dst ++ e.request.body) ∧
      carry' ++ client'.bytes = more ∧ client'.closed = client.closed := by
  obtain ⟨leftover, client₁, hhead, hrest, hclosed⟩ :
      ∃ leftover client₁,
        readRequestHead httparse.request carry client
          = .ok (⟨e.request.head, e.request.raw, leftover⟩, client₁) ∧
        leftover ++ client₁.bytes = e.request.body ++ more ∧ client₁.closed = client.closed :=
    readHead_of_rest (fun more => by simp [acceptRequest, he.parsedRequest.complete, WireRequest.head])
      (fun buf hpre hne => by simp [acceptRequest, he.parsedRequest.partway buf hpre hne])
      hlen (h.trans (by simp [WireRequest.bytes]))
  obtain ⟨framing, hframing, hbody⟩ := he.requestBody
  have hagrees : Agrees e.request.head.bodyFraming (some framing) :=
    hframing ▸ request_agrees.2 hframed
  obtain ⟨hbody', hclose⟩ := isBody_of_agrees hagrees hbody
  have hnever : e.request.head.bodyFraming ≠ .untilClose := fun heq =>
    requestFraming_ne_untilClose (hframing.trans (congrArg some (hclose heq)))
  obtain ⟨carry', client', hrun, hrest', hclosed'⟩ :=
    relayBody_of_rest dst hbody' (fun heq => absurd heq hnever) hrest
  exact ⟨leftover, client₁, carry', client', hhead, hrun, hrest', hclosed'.trans hclosed⟩

/-- The loop finds the head that the upstream sends first. -/
theorem responseHead_of_bytes {r : WireResponse} (hparsed : r.Parsed httparse.response)
    (hlen : r.raw.length ≤ maxHead + 1) (h : upstream.bytes = r.raw ++ more) :
    ∃ leftover upstream₁,
      readResponseHead httparse.response upstream = .ok (⟨r.head, r.raw, leftover⟩, upstream₁) ∧
      leftover ++ upstream₁.bytes = more ∧ upstream₁.closed = upstream.closed :=
  readHead_of_rest (fun more => by simp [acceptResponse, hparsed.complete, WireResponse.head])
    (fun buf hpre hne => by simp [acceptResponse, hparsed.partway buf hpre hne]) hlen h

/-- With one response and nothing behind it, the upstream has nothing left. -/
theorem response_relayed (he : e.Conforming httparse) (hrelay : e.Relayable) (dst : Bytes)
    (hbytes : upstream.bytes = e.response.bytes) (hclosed : upstream.closed = e.reply.closes) :
    ∃ leftover upstream₁ carry' upstream',
      readResponseHead httparse.response upstream
        = .ok (⟨e.response.head, e.response.raw, leftover⟩, upstream₁) ∧
      relayBody (e.response.head.bodyFraming e.request.head.method) leftover upstream₁ dst
        = (.ok (e.response.body.length, carry', upstream'), dst ++ e.response.body) ∧
      upstream'.bytes = [] ∧ upstream'.closed = e.reply.closes := by
  have hparsed := he.parsedResponses e.response (by simp)
  obtain ⟨leftover, upstream₁, hhead, hrest, hclosed₁⟩ :=
    responseHead_of_bytes hparsed hrelay.responseHead hbytes
  obtain ⟨framing, hframing, hbody, hends⟩ := he.responseBody
  have hagrees : Agrees (e.response.head.bodyFraming e.request.head.method) (some framing) :=
    hframing ▸ (response_agrees e.request.head.method).2 hrelay.responseFramed
  obtain ⟨hbody', hclose⟩ := isBody_of_agrees hagrees hbody
  obtain ⟨carry', upstream', hrun, hrest', hclosed'⟩ :=
    relayBody_of_rest dst hbody'
      (fun heq => ⟨(hclosed₁.trans hclosed).trans (hends (hclose heq)), rfl⟩)
      (hrest.trans (List.append_nil _).symm)
  exact ⟨leftover, upstream₁, carry', upstream', hhead, hrun, (List.append_eq_nil_iff.1 hrest').2,
    hclosed'.trans (hclosed₁.trans hclosed)⟩

theorem reply_arrived (he : e.Conforming httparse)
    (hbytes : upstream.bytes = []) (hopen : upstream.closed = false) :
    (upstream.arrive e.reply).bytes = e.answer ∧ (upstream.arrive e.reply).closed = e.reply.closes := by
  refine ⟨?_, by simp [Conn.arrive, hopen]⟩
  calc (upstream.arrive e.reply).bytes = upstream.bytes ++ e.reply.reads.flatMap Subtype.val := by
        simp [Conn.arrive, Conn.bytes]
    _ = e.answer := by rw [hbytes, he.replied, List.nil_append]

theorem answer_of_noInterim (h : e.interim = []) : e.answer = e.response.bytes := by
  simp [Exchange.answer, h]

/-- Without another request, the loop ends with the client. -/
theorem intercept_of_silent (hempty : httparse.request [] = .incomplete) (replies : List Reply)
    (h : carry ++ client.bytes = []) :
    intercept httparse replies carry client upstream log
      = (log, if client.closed = true then .closed else .waiting) := by
  obtain ⟨rfl, hbytes⟩ := List.append_eq_nil_iff.1 h
  have haccept : acceptRequest httparse.request [] = .ok none := by simp [acceptRequest, hempty]
  have hread : readRequestHead httparse.request [] client
      = if client.closed = true then refused "connection closed before request head completed"
        else .error .waiting := by
    rw [readRequestHead, readHead, haccept]
    simp only [Conn.read_of_nil headRead hbytes]
    rw [if_neg (by simp)]
    split_ifs <;> simp
  unfold intercept
  rw [hread]
  by_cases hclosed : client.closed = true
  · simp [hclosed, refused, Stop.ended]
  · simp [hclosed, Stop.ended]

def Log.extend (log : Log) (exchanges : List Exchange) : Log where
  toUpstream := log.toUpstream ++ exchanges.flatMap fun e => e.request.bytes
  toClient := log.toClient ++ exchanges.flatMap Exchange.answer
  observed := log.observed ++ exchanges.map Exchange.observation

@[simp] theorem Log.extend_nil (log : Log) : log.extend [] = log := by
  simp [extend]

theorem Log.extend_cons (log : Log) (rest : List Exchange) :
    log.extend (e :: rest) = (log.extend [e]).extend rest := by
  simp [extend]

/-- One exchange goes through. The loop then ends, when a side has announced it, or it begins again with
    the client at the next request and the upstream with nothing to say. -/
theorem intercept_exchange (he : e.Conforming httparse) (hrelay : e.Relayable) (replies : List Reply)
    (h : carry ++ client.bytes = e.request.bytes ++ more) (hbytes : upstream.bytes = [])
    (hopen : upstream.closed = false) (log : Log) :
    ∃ carry' client' upstream',
      intercept httparse (e.reply :: replies) carry client upstream log
        = (if e.announced then (log.extend [e], .closed)
          else intercept httparse replies carry' client' upstream' (log.extend [e])) ∧
      carry' ++ client'.bytes = more ∧ client'.closed = client.closed ∧ upstream'.bytes = [] ∧
      upstream'.closed = e.reply.closes := by
  obtain ⟨leftover, client₁, carry', client', hrequest, hbody, hmore, hclosed⟩ :=
    request_relayed he hrelay.requestFramed hrelay.requestHead (log.toUpstream ++ e.request.raw) h
  obtain ⟨harrived, hcloses⟩ := reply_arrived he hbytes hopen
  obtain ⟨leftover', upstream₁, surplus, upstream', hresponse, hanswer, hnil, hclosed'⟩ :=
    response_relayed he hrelay (log.toClient ++ e.response.raw)
      (harrived.trans (answer_of_noInterim hrelay.noInterim)) hcloses
  refine ⟨carry', client', upstream', ?_, hmore, hclosed, hnil, hclosed'⟩
  have hstatus : e.response.head.status ≠ 101 := by
    have := he.final
    omega
  have hlog : log.extend [e] =
      { toUpstream := log.toUpstream ++ e.request.raw ++ e.request.body
        toClient := log.toClient ++ e.response.raw ++ e.response.body
        observed := log.observed ++ [.http e.request.head e.response.head
          (e.request.raw.length + e.request.body.length)
          (e.response.raw.length + e.response.body.length)] } := by
    simp [Log.extend, Exchange.observation, answer_of_noInterim hrelay.noInterim, WireRequest.bytes,
      WireResponse.bytes]
  rw [intercept, hrequest]
  simp only [hbody, hresponse, if_neg hstatus, hanswer, hlog, Exchange.announced]

theorem AnsweredOpen.tail {rest : List Exchange} (h : AnsweredOpen (e :: rest)) : AnsweredOpen rest :=
  fun before d after heq hcloses => h (e :: before) d after (congrArg (e :: ·) heq) hcloses

/-- The exchanges go through one after the other, up to the first that a side announces to be the last. -/
theorem intercept_exchanges (hempty : httparse.request [] = .incomplete) {exchanges : List Exchange}
    (hall : ∀ e ∈ exchanges, e.Conforming httparse ∧ e.Relayable) (hanswered : AnsweredOpen exchanges)
    (h : carry ++ client.bytes = exchanges.flatMap fun e => e.request.bytes)
    (hbytes : upstream.bytes = []) (hopen : exchanges ≠ [] → upstream.closed = false) :
    intercept httparse (exchanges.map Exchange.reply) carry client upstream log
      = (log.extend (untilAnnounced exchanges),
        if exchanges.any Exchange.announced || client.closed then .closed else .waiting) := by
  induction exchanges generalizing carry client upstream log with
  | nil => simpa [untilAnnounced] using intercept_of_silent hempty [] h
  | cons e rest ih =>
      obtain ⟨he, hrelay⟩ := hall e List.mem_cons_self
      obtain ⟨carry', client', upstream', hstep, hmore, hclosed, hbytes', hopen'⟩ :=
        intercept_exchange he hrelay (rest.map Exchange.reply) h hbytes (hopen (List.cons_ne_nil _ _)) log
      rw [List.map_cons, hstep]
      by_cases hlast : e.announced = true
      · simp [hlast, untilAnnounced]
      · have hstays : rest ≠ [] → upstream'.closed = false := by
          intro hrest
          rw [hopen', Bool.eq_false_iff]
          exact fun hcloses => (hanswered [] e rest rfl hcloses).elim hlast hrest
        rw [if_neg hlast,
          ih (fun e he => hall e (List.mem_cons_of_mem _ he)) hanswered.tail hmore hbytes' hstays]
        simp [hlast, untilAnnounced, hclosed, ← Log.extend_cons]

/-- An interim response is the response: its head is what the client gets and what is recorded. -/
theorem intercept_interim (he : e.Conforming httparse)
    (hframed : RequestFramed e.request.head.method e.request.headers)
    (hrequest : e.request.raw.length ≤ maxHead + 1) {r : WireResponse} {rest : List WireResponse}
    (hinterim : e.interim = r :: rest) (hlen : r.raw.length ≤ maxHead + 1) (replies : List Reply)
    (h : carry ++ client.bytes = e.request.bytes ++ more) (hbytes : upstream.bytes = [])
    (hopen : upstream.closed = false) (log : Log) :
    ∃ carry' client' upstream', carry' ++ client'.bytes = more ∧ client'.closed = client.closed ∧
      intercept httparse (e.reply :: replies) carry client upstream log =
        let log' : Log :=
          { toUpstream := log.toUpstream ++ e.request.bytes
            toClient := log.toClient ++ r.raw
            observed := log.observed ++
              [.http e.request.head r.head e.request.bytes.length r.raw.length] }
        if e.request.head.connectionClose || r.head.connectionClose then (log', .closed)
        else intercept httparse replies carry' client' upstream' log' := by
  have hmem : r ∈ e.interim := hinterim ▸ List.mem_cons_self
  obtain ⟨hlow, hhigh, hswitch, hbody⟩ := he.interims r hmem
  obtain ⟨leftover, client₁, carry', client', hhead, hrelayed, hmore, hclosed⟩ :=
    request_relayed he hframed hrequest (log.toUpstream ++ e.request.raw) h
  obtain ⟨harrived, -⟩ := reply_arrived he hbytes hopen
  have hfirst : e.answer = r.raw ++ (rest ++ [e.response]).flatMap WireResponse.bytes := by
    simp [Exchange.answer, hinterim, WireResponse.bytes, hbody]
  obtain ⟨leftover', upstream₁, hresponse, -⟩ := responseHead_of_bytes
    (he.parsedResponses r (List.mem_append_left _ hmem)) hlen (harrived.trans hfirst)
  have hnone : r.head.bodyFraming e.request.head.method = .none := by
    simp [ResponseHead.bodyFraming, bodyless, hlow, hhigh]
  have hempty : relayBody .none leftover' upstream₁ (log.toClient ++ r.raw)
      = (.ok (0, leftover', upstream₁), log.toClient ++ r.raw) := rfl
  refine ⟨carry', client', upstream₁, hmore, hclosed, ?_⟩
  rw [intercept, hhead]
  simp only [hrelayed, hresponse, if_neg hswitch, hnone, hempty]
  simp [WireRequest.bytes]

end

theorem untilAnnounced_prefix {e : Exchange} (h : e.announced = true) (before after : List Exchange) :
    untilAnnounced (before ++ e :: after) <+: before ++ [e] := by
  induction before with
  | nil => simp [untilAnnounced, h]
  | cons d before ih =>
      simp only [List.cons_append, untilAnnounced]
      split_ifs
      · simp
      · exact (List.prefix_cons_inj d).2 ih

/-! ## Sample exchanges -/

/-- Knows the one head. -/
def requestParser (r : WireRequest) (buf : Bytes) : ParseStatus :=
  if r.raw <+: buf then .complete r.raw.length r.method r.path r.version r.headers else .incomplete

/-- Knows the heads of the list. -/
def responseParser (responses : List WireResponse) (buf : Bytes) : ResponseStatus :=
  match responses.find? fun r => r.raw <+: buf with
  | some r => .complete r.raw.length r.code r.reason r.version r.headers
  | none => .incomplete

theorem requestParser_parsed (r : WireRequest) : r.Parsed (requestParser r) where
  complete _ := if_pos (List.prefix_append _ _)
  partway _ hpre hne := if_neg fun hle => hne (hpre.eq_of_length_le hle.length_le)

theorem responseParser_parsed {responses : List WireResponse}
    (hfree : ∀ r ∈ responses, ∀ s ∈ responses, r.raw <+: s.raw → r = s) :
    ∀ r ∈ responses, r.Parsed (responseParser responses) := by
  intro r hr
  refine ⟨fun more => ?_, fun buf hpre hne => ?_⟩
  · have hfound : (responses.find? fun s => s.raw <+: r.raw ++ more) = some r := by
      obtain ⟨s, hs⟩ : ∃ s, (responses.find? fun s => s.raw <+: r.raw ++ more) = some s :=
        Option.isSome_iff_exists.1 (List.find?_isSome.2 ⟨r, hr, by simp⟩)
      have hprefix : s.raw <+: r.raw ++ more := by simpa using List.find?_some hs
      have hmem := List.mem_of_find?_eq_some hs
      obtain hsr | hrs := List.prefix_or_prefix_of_prefix hprefix (List.prefix_append _ _)
      · rw [hs, hfree s hmem r hr hsr]
      · rw [hs, hfree r hr s hmem hrs]
    rw [responseParser, hfound]
  · have hnone : (responses.find? fun s => s.raw <+: buf) = none := by
      rw [List.find?_eq_none]
      intro s hs hprefix
      have hle : s.raw <+: buf := by simpa using hprefix
      obtain rfl := hfree s hs r hr (hle.trans hpre)
      exact hne (hpre.eq_of_length_le hle.length_le)
    rw [responseParser, hnone]

def askModels : WireRequest where
  raw := wire "GET /v1/models HTTP/1.1\r\nHost: h\r\n\r\n"
  method := some "GET".toList
  path := some "/v1/models".toList
  version := some 1
  headers := [("Host".toList, wire "h")]
  body := []

def untilEnd : WireResponse where
  raw := wire "HTTP/1.1 200 OK\r\nConnection: close\r\n\r\n"
  code := some 200
  reason := some "OK".toList
  version := some 1
  headers := [("Connection".toList, wire "close")]
  body := wire "late"

def earlyHints : WireResponse where
  raw := wire "HTTP/1.1 103 Early Hints\r\nLink: </a.css>\r\n\r\n"
  code := some 103
  reason := some "Early Hints".toList
  version := some 1
  headers := [("Link".toList, wire "</a.css>")]
  body := []

def sampleParsers : Parsers := ⟨requestParser askModels, responseParser [untilEnd, earlyHints]⟩

theorem askModels_ne_nil : askModels.raw ≠ [] := by
  decide

theorem untilEnd_ne_nil : untilEnd.bytes ≠ [] := by
  decide

theorem untilEnd_framing :
    responseFraming askModels.head.method untilEnd.head.status untilEnd.headers = some .untilClose := by
  decide

/-- The client sends the request and stays. -/
def asking : Conn := ⟨[⟨askModels.raw, askModels_ne_nil⟩], false⟩

/-- The reply comes in one read. -/
def sample (interim : List WireResponse) : Exchange where
  request := askModels
  interim := interim
  response := untilEnd
  reply := ⟨[⟨(interim ++ [untilEnd]).flatMap WireResponse.bytes, by simp [untilEnd_ne_nil]⟩], true⟩

theorem sample_conforming {interim : List WireResponse} (h : interim <+: [earlyHints]) :
    (sample interim).Conforming sampleParsers := by
  have hparsed : ∀ r ∈ [untilEnd, earlyHints], r.Parsed sampleParsers.response :=
    responseParser_parsed (by decide)
  have hinterim : ∀ r ∈ interim, r = earlyHints := fun r hr => List.mem_singleton.1 (h.subset hr)
  constructor
  · exact requestParser_parsed askModels
  · intro r hr
    obtain hr | hr := List.mem_append.1 hr
    · exact hparsed r (by simp [hinterim r hr])
    · exact hparsed r (by simp [List.mem_singleton.1 hr, sample])
  · have hnone : requestFraming askModels.headers = some .none := by decide
    exact ⟨.none, hnone, rfl⟩
  · intro r hr
    rw [hinterim r hr]
    decide
  · show 200 ≤ untilEnd.head.status
    decide
  · exact ⟨.untilClose, untilEnd_framing, trivial, fun _ => rfl⟩
  · simp [sample, Exchange.answer]

theorem sampleParsers_empty : sampleParsers.request [] = .incomplete := by
  have hne : ¬askModels.raw <+: [] := fun hprefix => askModels_ne_nil (List.prefix_nil.1 hprefix)
  show requestParser askModels [] = .incomplete
  rw [requestParser, if_neg hne]

theorem asking_bytes : [] ++ asking.bytes = askModels.bytes ++ [] := by
  simp [asking, Conn.bytes, WireRequest.bytes, askModels]

theorem askModels_framed : RequestFramed askModels.head.method askModels.headers := by
  have hte : hasField askModels.headers "transfer-encoding" = false := by decide
  have hcl : hasField askModels.headers "content-length" = false := by decide
  simp [RequestFramed, hte, hcl]

theorem untilEnd_framed : ResponseFramed askModels.head.method untilEnd.head.status untilEnd.headers := by
  have hhead : (decide (askModels.head.method = "HEAD".toList) || bodyless untilEnd.head.status)
      = false := by
    decide
  have hci : eqIgnoreAsciiCase askModels.head.method "HEAD".toList = false := by decide
  have hconnect : decide (askModels.head.method = "CONNECT".toList) = false := by decide
  have hte : hasField untilEnd.headers "transfer-encoding" = false := by decide
  have hcl : hasField untilEnd.headers "content-length" = false := by decide
  simp only [ResponseFramed, hhead, hci, hconnect, hte, hcl]
  simp

/-! ## The result -/

/-- The client gets what the upstream sent, and the observations are those of the exchanges. After a
    response that the end of the connection ends, the client connection is closed, and no request behind
    it is taken. -/
theorem exchanges_paired (httparse : Parsers) (hempty : httparse.request [] = .incomplete)
    (exchanges : List Exchange) (client : Conn) (hconforming : ∀ e ∈ exchanges, e.Conforming httparse)
    (hanswered : AnsweredOpen exchanges) (hrelay : ∀ e ∈ exchanges, e.Relayable)
    (hclient : client.bytes = exchanges.flatMap fun e => e.request.bytes) :
    ∃ log ended,
      intercept httparse (exchanges.map Exchange.reply) [] client ⟨[], false⟩ ⟨[], [], []⟩ = (log, ended) ∧
      log.toUpstream = ((untilAnnounced exchanges).flatMap fun e => e.request.bytes) ∧
      log.toClient = (untilAnnounced exchanges).flatMap Exchange.answer ∧
      log.observed = (untilAnnounced exchanges).map Exchange.observation ∧
      (ended = .closed ↔ exchanges.any Exchange.announced = true ∨ client.closed = true) ∧
      ∀ before e after, exchanges = before ++ e :: after → e.framing = some .untilClose →
        ended = .closed ∧ untilAnnounced exchanges <+: before ++ [e] := by
  have hrun : intercept httparse (exchanges.map Exchange.reply) [] client ⟨[], false⟩ ⟨[], [], []⟩ = _ :=
    intercept_exchanges hempty (fun e he => ⟨hconforming e he, hrelay e he⟩) hanswered hclient rfl
      fun _ => rfl
  have hended : (if exchanges.any Exchange.announced || client.closed then Ended.closed else .waiting)
      = .closed ↔ exchanges.any Exchange.announced = true ∨ client.closed = true := by
    rw [← Bool.or_eq_true]
    split_ifs with h <;> simp [h]
  refine ⟨_, _, hrun, rfl, rfl, rfl, hended, ?_⟩
  rintro before e after rfl hclose
  have hlast := (hrelay e (by simp)).announcedClose hclose
  exact ⟨hended.2 (.inl (by simp [hlast])), untilAnnounced_prefix hlast before after⟩

theorem exchanges_paired_late :
    (sample []).Conforming sampleParsers ∧
      ∃ log,
        intercept sampleParsers [(sample []).reply] [] asking ⟨[], false⟩ ⟨[], [], []⟩ = (log, .closed) ∧
        log.toClient = (sample []).answer := by
  have hconforming : (sample []).Conforming sampleParsers := sample_conforming List.nil_prefix
  have hannounced : (sample []).announced = true := by
    decide
  have hrelayable : (sample []).Relayable :=
    ⟨rfl, askModels_framed, untilEnd_framed, by decide, by decide, fun _ => hannounced⟩
  have hanswered : AnsweredOpen [sample []] := by
    intro before e after heq _
    have hmem : e ∈ [sample []] := by simp [heq]
    rw [List.mem_singleton.1 hmem]
    exact .inl hannounced
  obtain ⟨log, ended, hrun, -, hclient, -, -, hclosed⟩ := exchanges_paired sampleParsers
    sampleParsers_empty [sample []] asking (by simpa using hconforming) hanswered
    (by simpa using hrelayable) asking_bytes
  obtain ⟨rfl, -⟩ := hclosed [] (sample []) [] rfl untilEnd_framing
  exact ⟨hconforming, log, hrun, by simpa [untilAnnounced, hannounced] using hclient⟩

/-- Behind a `103`, the final response does not reach the client, and the `103` is what is recorded. -/
theorem early_hints_recorded :
    (sample [earlyHints]).Conforming sampleParsers ∧
      ∃ log, intercept sampleParsers [(sample [earlyHints]).reply] [] asking ⟨[], false⟩ ⟨[], [], []⟩
          = (log, .waiting) ∧
        log.toClient = earlyHints.raw ∧ log.toClient ≠ (sample [earlyHints]).answer ∧
        (∃ requestBytes responseBytes,
          log.observed = [.http askModels.head earlyHints.head requestBytes responseBytes]) ∧
        earlyHints.head.status = 103 ∧ (sample [earlyHints]).response.head.status = 200 := by
  have hconforming : (sample [earlyHints]).Conforming sampleParsers := sample_conforming List.prefix_rfl
  obtain ⟨carry, client, upstream, hrest, hclosed, hrun⟩ :=
    intercept_interim hconforming askModels_framed (by decide) (rfl : _ = earlyHints :: [])
      (by decide) [] asking_bytes (rfl : (⟨[], false⟩ : Conn).bytes = []) rfl ⟨[], [], []⟩
  have hstays : (askModels.head.connectionClose || earlyHints.head.connectionClose) = false := by
    decide
  have hlost : earlyHints.raw ≠ (sample [earlyHints]).answer := by
    decide
  rw [show (sample [earlyHints]).request = askModels from rfl, hstays] at hrun
  dsimp only at hrun
  rw [if_neg (by simp), intercept_of_silent sampleParsers_empty [] hrest, hclosed] at hrun
  exact ⟨hconforming, _, hrun, rfl, hlost, ⟨_, _, rfl⟩, by decide, by decide⟩

end Tethra.Interception
