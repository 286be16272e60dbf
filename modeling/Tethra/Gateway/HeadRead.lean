import Tethra.Gateway.Stream

set_option autoImplicit false

/-! # Reading a head (`gateway/src/head.rs`)

A head loop reads until the parser has decided about its buffer. With a parser that keeps to its
decision when more bytes arrive, the result depends on the bytes alone, not on how they were cut into
reads or how many of them were carried over. -/

namespace Tethra.Gateway

/-- Max bytes of a single message head (`MAX_HEAD`). -/
def maxHead : Nat := 32 * 1024

/-- The buffer of one read (`tmp`). -/
def headReadSize : Nat := 4096

/-! ## The response head -/

/-- A response head that was accepted. -/
structure ResponseHead where
  status : Nat
  reason : Str
  version : HttpVersion
  headers : List HeaderField
  contentLength : Option Nat
  chunked : Bool
  upstreamWantsClose : Bool
  statusKnown : 100 ≤ status ∧ status ≤ 599
  deriving DecidableEq

def validateResponseFraming (fields : List HeaderField) : Except CoreError (Option Nat × Bool) := do
  let seen ← framingHeaders fields
  if seen.contentLength.isSome ∧ seen.chunked then
    .error (.invalidInput "response has both Content-Length and Transfer-Encoding".toList)
  else return (seen.contentLength, seen.chunked)

/-- What `httparse` says about the bytes of a response so far. -/
inductive ResponseStatus where
  | complete (n : Nat) (code : Option Nat) (reason : Option Str) (version : Option Nat)
      (headers : List (Str × Bytes))
  | incomplete
  | invalid

/-- A reason phrase that is kept: short, and of printable ASCII and tabs. -/
def plainReason (reason : Str) : Bool :=
  (utf8 reason).length ≤ 128 && (utf8 reason).all fun b => b = 9 || (0x20 ≤ b && b < 0x7f)

/-- The head of a complete parse; `raw` are its bytes. -/
def responseFrom (raw : Bytes) (code : Option Nat) (reason : Option Str) (version : Option Nat)
    (headers : List (Str × Bytes)) : Except CoreError ResponseHead := do
  validateRawHead raw
  if hstatus : 100 ≤ code.getD 0 ∧ code.getD 0 ≤ 599 then do
    let fields ← collectHeaders headers
    let framing ← validateResponseFraming fields
    let version := if version = some 0 then .http10 else .http11
    return { status := code.getD 0
             reason := (reason.filter plainReason).getD []
             version
             headers := fields
             contentLength := framing.1
             chunked := framing.2
             upstreamWantsClose := wantsClose version fields
             statusKnown := hstatus }
  else .error (.invalidInput "invalid response status".toList)

/-- One look at the buffer of `read_response_head_deadline`. -/
def acceptResponseHead (httparse : Bytes → ResponseStatus) (buf : Bytes) :
    Except CoreError (Option (ResponseHead × Bytes)) :=
  match httparse buf with
  | .invalid => .error (.invalidInput "malformed response head".toList)
  | .incomplete => .ok none
  | .complete n code reason version headers =>
      (responseFrom (buf.take n) code reason version headers).map fun head =>
        some (head, buf.drop n)

/-! ## The loop -/

/-- What the connection has for one call of `read`; the connection is closed behind the last. -/
inductive Arrival where
  | data (bytes : {s : Bytes // s ≠ []})
  /-- No byte within the socket's own timeout. -/
  | wouldBlock (message : Str)
  | failed (message : Str)

def Arrival.bytes : Arrival → Bytes
  | .data s => s.val
  | .wouldBlock _ | .failed _ => []

def arrived (reads : List Arrival) : Bytes := reads.flatMap Arrival.bytes

/-- What the loops for requests and for responses differ in. -/
structure HeadKind (H O : Type) where
  accept : Bytes → Except CoreError (Option (H × Bytes))
  complete : H → Bytes → O
  exceeds : CoreError
  /-- The deadline has passed with these bytes read. -/
  late : Bytes → Except CoreError O
  /-- The peer has closed behind these bytes. -/
  closed : Bytes → Except CoreError O

variable {H O : Type}

/-- The loop of the two readers: the result, and what is left unread. `clock` gives the time at each
    turn. -/
def HeadKind.read (k : HeadKind H O) (clock : Nat → Nat) (deadline : Option Nat) (turn : Nat)
    (buf : Bytes) (reads : List Arrival) : Except CoreError O × List Arrival :=
  match k.accept buf with
  | .error e => (.error e, reads)
  | .ok (some (head, carry)) => (.ok (k.complete head carry), reads)
  | .ok none =>
      if hfull : maxHead ≤ buf.length then (.error k.exceeds, reads)
      else if deadline.any (· ≤ clock turn) then (k.late buf, reads)
      else
        match reads with
        | [] => (k.closed buf, [])
        | .failed message :: reads => (.error (.io message), reads)
        | .wouldBlock message :: reads =>
            if deadline.isSome then k.read clock deadline (turn + 1) buf reads
            else (.error (.io message), reads)
        | .data s :: reads =>
            -- The read takes what its buffer holds; the rest waits for the next one.
            let want := min headReadSize (maxHead - buf.length)
            if hrest : s.val.drop want = [] then k.read clock deadline (turn + 1) (buf ++ s.val) reads
            else
              k.read clock deadline (turn + 1) (buf ++ s.val.take want)
                (.data ⟨s.val.drop want, hrest⟩ :: reads)
termination_by (maxHead - buf.length, reads.length)
decreasing_by
  · exact Prod.Lex.right _ (Nat.lt_succ_self _)
  · have := List.length_pos_iff.2 s.property
    refine Prod.Lex.left _ _ ?_
    simp only [List.length_append]
    omega
  · have := List.length_pos_iff.2 s.property
    refine Prod.Lex.left _ _ ?_
    simp only [List.length_append, List.length_take, headReadSize]
    omega

def requestKind (httparse : Bytes → ParseStatus) :
    HeadKind RequestHead (Option (RequestHead × Bytes)) where
  accept := acceptRequestHead httparse
  complete head carry := some (head, carry)
  exceeds := .invalidInput "request head exceeds limit".toList
  late buf :=
    if buf = [] then .ok none
    else .error (.invalidInput "request head not completed before deadline".toList)
  closed buf :=
    if buf = [] then .ok none
    else .error (.invalidInput "connection closed before request head completed".toList)

/-- `Ok(None)`: no request was begun. -/
def readRequestHead (httparse : Bytes → ParseStatus) (clock : Nat → Nat) (deadline : Option Nat)
    (initial : Bytes) (reads : List Arrival) :
    Except CoreError (Option (RequestHead × Bytes)) × List Arrival :=
  (requestKind httparse).read clock deadline 0 initial reads

/-- The outcome of a deadline-bounded response-head read. -/
inductive HeadRead where
  | complete (head : ResponseHead) (carry : Bytes)
  /-- The bytes read so far seed the next attempt. -/
  | timedOut (carry : Bytes)

def responseKind (httparse : Bytes → ResponseStatus) : HeadKind ResponseHead HeadRead where
  accept := acceptResponseHead httparse
  complete := .complete
  exceeds := .invalidInput "response head exceeds limit".toList
  late buf := .ok (.timedOut buf)
  closed buf :=
    if buf = [] then .error (.invalidInput "no response".toList)
    else .error (.invalidInput "connection closed before response head completed".toList)

def readResponseHeadDeadline (httparse : Bytes → ResponseStatus) (clock : Nat → Nat)
    (deadline : Option Nat) (initial : Bytes) (reads : List Arrival) :
    Except CoreError HeadRead × List Arrival :=
  (responseKind httparse).read clock deadline 0 initial reads

/-! ## Parsers that keep to their decision -/

/-- What was decided about a buffer stays decided, and stays the same, when more bytes follow. -/
structure HeadKind.Monotone (k : HeadKind H O) : Prop where
  refused {buf : Bytes} {e : CoreError} (more : Bytes) :
    k.accept buf = .error e → k.accept (buf ++ more) = .error e
  completed {buf carry : Bytes} {head : H} (more : Bytes) :
    k.accept buf = .ok (some (head, carry)) → k.accept (buf ++ more) = .ok (some (head, carry ++ more))
  split {buf carry : Bytes} {head : H} :
    k.accept buf = .ok (some (head, carry)) → ∃ raw, raw ++ carry = buf

/-- `httparse` on requests is monotone on prefixes. -/
structure RequestParserMonotone (httparse : Bytes → ParseStatus) : Prop where
  invalid {buf : Bytes} (more : Bytes) : httparse buf = .invalid → httparse (buf ++ more) = .invalid
  complete {buf : Bytes} {n : Nat} {method path : Option Str} {version : Option Nat}
    {headers : List (Str × Bytes)} (more : Bytes) :
    httparse buf = .complete n method path version headers →
      n ≤ buf.length ∧ httparse (buf ++ more) = .complete n method path version headers

/-- `httparse` on responses is monotone on prefixes. -/
structure ResponseParserMonotone (httparse : Bytes → ResponseStatus) : Prop where
  invalid {buf : Bytes} (more : Bytes) : httparse buf = .invalid → httparse (buf ++ more) = .invalid
  complete {buf : Bytes} {n : Nat} {code : Option Nat} {reason : Option Str} {version : Option Nat}
    {headers : List (Str × Bytes)} (more : Bytes) :
    httparse buf = .complete n code reason version headers →
      n ≤ buf.length ∧ httparse (buf ++ more) = .complete n code reason version headers

/-- The parts of the buffer that a look uses. -/
theorem acceptRequestHead_append {httparse : Bytes → ParseStatus} {buf more : Bytes} {n : Nat}
    {method path : Option Str} {version : Option Nat} {headers : List (Str × Bytes)}
    (hn : n ≤ buf.length) (h : httparse buf = .complete n method path version headers)
    (hmore : httparse (buf ++ more) = .complete n method path version headers) :
    acceptRequestHead httparse (buf ++ more)
      = (acceptRequestHead httparse buf).map fun o => o.map fun p => (p.1, p.2 ++ more) := by
  unfold acceptRequestHead
  rw [h, hmore]
  simp only [List.take_append_of_le_length hn, List.drop_append_of_le_length hn]
  cases validateRawHead (buf.take n) with
  | error e => rfl
  | ok u =>
      simp only [bind, Except.bind]
      by_cases hlong : maxTarget < (utf8 (path.getD [])).length
      · simp only [if_pos hlong]
        rfl
      · simp only [if_neg hlong]
        split
        · rfl
        · rfl
        · cases collectHeaders headers with
          | error e => rfl
          | ok fields =>
              simp only
              split
              · rfl
              · rfl

theorem acceptRequestHead_split {httparse : Bytes → ParseStatus} {buf carry : Bytes}
    {head : RequestHead} (h : acceptRequestHead httparse buf = .ok (some (head, carry))) :
    ∃ raw, raw ++ carry = buf := by
  unfold acceptRequestHead at h
  split at h
  · cases h
  · cases h
  · rename_i n method path version headers hparse
    obtain ⟨u, -, h⟩ := bind_eq_ok.1 h
    by_cases hlong : maxTarget < (utf8 (path.getD [])).length
    · rw [if_pos hlong] at h
      cases h
    rw [if_neg hlong] at h
    split at h
    · cases h
    · cases h
    · obtain ⟨fields, -, h⟩ := bind_eq_ok.1 h
      split at h
      · cases h
      · have hcarry := (Prod.mk.inj (Option.some.inj (Except.ok.inj h))).2
        exact ⟨buf.take n, by rw [← hcarry, List.take_append_drop]⟩

theorem requestKind_monotone {httparse : Bytes → ParseStatus} (h : RequestParserMonotone httparse) :
    (requestKind httparse).Monotone where
  refused {buf e} more haccept := by
    change acceptRequestHead httparse buf = _ at haccept
    change acceptRequestHead httparse (buf ++ more) = _
    cases hparse : httparse buf with
    | invalid =>
        unfold acceptRequestHead at haccept ⊢
        rw [hparse] at haccept
        rw [h.invalid more hparse]
        exact haccept
    | incomplete =>
        unfold acceptRequestHead at haccept
        rw [hparse] at haccept
        cases haccept
    | complete n method path version headers =>
        obtain ⟨hn, hmore⟩ := h.complete more hparse
        rw [acceptRequestHead_append hn hparse hmore, haccept]
        rfl
  completed {buf carry head} more haccept := by
    change acceptRequestHead httparse buf = _ at haccept
    change acceptRequestHead httparse (buf ++ more) = _
    cases hparse : httparse buf with
    | invalid =>
        unfold acceptRequestHead at haccept
        rw [hparse] at haccept
        cases haccept
    | incomplete =>
        unfold acceptRequestHead at haccept
        rw [hparse] at haccept
        cases haccept
    | complete n method path version headers =>
        obtain ⟨hn, hmore⟩ := h.complete more hparse
        rw [acceptRequestHead_append hn hparse hmore, haccept]
        rfl
  split := acceptRequestHead_split

theorem responseKind_monotone {httparse : Bytes → ResponseStatus}
    (h : ResponseParserMonotone httparse) : (responseKind httparse).Monotone where
  refused {buf e} more haccept := by
    change acceptResponseHead httparse buf = _ at haccept
    change acceptResponseHead httparse (buf ++ more) = _
    unfold acceptResponseHead at haccept ⊢
    cases hparse : httparse buf with
    | invalid =>
        rw [hparse] at haccept
        rw [h.invalid more hparse]
        exact haccept
    | incomplete =>
        rw [hparse] at haccept
        cases haccept
    | complete n code reason version headers =>
        obtain ⟨hn, hmore⟩ := h.complete more hparse
        rw [hparse] at haccept
        simp only [hmore, List.take_append_of_le_length hn] at haccept ⊢
        cases hhead : responseFrom (buf.take n) code reason version headers with
        | error e' =>
            rw [hhead] at haccept
            exact haccept
        | ok head =>
            rw [hhead] at haccept
            cases haccept
  completed {buf carry head} more haccept := by
    change acceptResponseHead httparse buf = _ at haccept
    change acceptResponseHead httparse (buf ++ more) = _
    unfold acceptResponseHead at haccept ⊢
    cases hparse : httparse buf with
    | invalid =>
        rw [hparse] at haccept
        cases haccept
    | incomplete =>
        rw [hparse] at haccept
        cases haccept
    | complete n code reason version headers =>
        obtain ⟨hn, hmore⟩ := h.complete more hparse
        rw [hparse] at haccept
        simp only [hmore, List.take_append_of_le_length hn, List.drop_append_of_le_length hn]
          at haccept ⊢
        cases hhead : responseFrom (buf.take n) code reason version headers with
        | error e' =>
            rw [hhead] at haccept
            cases haccept
        | ok head' =>
            rw [hhead] at haccept
            obtain ⟨rfl, rfl⟩ := Prod.mk.inj (Option.some.inj (Except.ok.inj haccept))
            rfl
  split {buf carry head} haccept := by
    change acceptResponseHead httparse buf = _ at haccept
    unfold acceptResponseHead at haccept
    split at haccept
    · cases haccept
    · cases haccept
    · rename_i n code reason version headers hparse
      cases hhead : responseFrom (buf.take n) code reason version headers with
      | error e' =>
          rw [hhead] at haccept
          cases haccept
      | ok head' =>
          rw [hhead] at haccept
          obtain ⟨rfl, rfl⟩ := Prod.mk.inj (Option.some.inj (Except.ok.inj haccept))
          exact ⟨buf.take n, List.take_append_drop ..⟩

/-! ## What the stream determines -/

/-- The result is the one that a single look at the first `maxHead` bytes of the stream gives, and of
    an accepted head no byte is lost: head, carry and unread bytes are the stream. -/
def HeadKind.Settled (k : HeadKind H O) (stream : Bytes) (run : Except CoreError O × List Arrival) :
    Prop :=
  match k.accept (stream.take maxHead) with
  | .error e => run.1 = .error e
  | .ok (some (head, behind)) =>
      ∃ raw carry, run.1 = .ok (k.complete head carry) ∧ raw.length ≤ maxHead ∧
        raw ++ behind = stream.take maxHead ∧ raw ++ carry ++ arrived run.2 = stream
  | .ok none =>
      if maxHead ≤ stream.length then run.1 = .error k.exceeds else run.1 = k.closed stream

/-- The connection failed under the read, or the deadline passed: no head was accepted. What was read
    until the deadline is not lost. -/
def HeadKind.Interrupted (k : HeadKind H O) (clock : Nat → Nat) (deadline : Option Nat)
    (stream : Bytes) (reads : List Arrival) (run : Except CoreError O × List Arrival) : Prop :=
  (∃ message, run.1 = .error (.io message) ∧
      (.failed message ∈ reads ∨ deadline = none ∧ .wouldBlock message ∈ reads)) ∨
    ∃ d turn buf, deadline = some d ∧ d ≤ clock turn ∧ run.1 = k.late buf ∧
      buf ++ arrived run.2 = stream

theorem HeadKind.Interrupted.mono {k : HeadKind H O} {clock : Nat → Nat} {deadline : Option Nat}
    {stream : Bytes} {reads reads' : List Arrival} {run : Except CoreError O × List Arrival}
    (h : k.Interrupted clock deadline stream reads run)
    (hfailed : ∀ message, .failed message ∈ reads → .failed message ∈ reads')
    (hblocked : ∀ message, .wouldBlock message ∈ reads → .wouldBlock message ∈ reads') :
    k.Interrupted clock deadline stream reads' run := by
  rcases h with ⟨message, hrun, hfail | ⟨hnone, hblock⟩⟩ | hlate
  · exact .inl ⟨message, hrun, .inl (hfailed message hfail)⟩
  · exact .inl ⟨message, hrun, .inr ⟨hnone, hblocked message hblock⟩⟩
  · exact .inr hlate

theorem take_append_read {buf : Bytes} (hbuf : buf.length ≤ maxHead) (more : Bytes) :
    (buf ++ more).take maxHead = buf ++ more.take (maxHead - buf.length) := by
  rw [List.take_append, List.take_of_length_le hbuf]

/-- Every run of the loop is settled by the stream, whatever the cut. -/
theorem HeadKind.read_settled {k : HeadKind H O} (mono : k.Monotone) (clock : Nat → Nat)
    (deadline : Option Nat) (turn : Nat) (buf : Bytes) (reads : List Arrival)
    (hbuf : buf.length ≤ maxHead) :
    k.Interrupted clock deadline (buf ++ arrived reads) reads (k.read clock deadline turn buf reads) ∨
      k.Settled (buf ++ arrived reads) (k.read clock deadline turn buf reads) := by
  fun_induction HeadKind.read k clock deadline turn buf reads with
  | case1 turn buf reads e haccept =>
      refine .inr ?_
      unfold Settled
      rw [take_append_read hbuf, mono.refused _ haccept]
  | case2 turn buf reads head carry haccept =>
      refine .inr ?_
      obtain ⟨raw, hraw⟩ := mono.split haccept
      unfold Settled
      rw [take_append_read hbuf, mono.completed _ haccept]
      refine ⟨raw, carry, rfl, ?_, ?_, ?_⟩
      · rw [← hraw, List.length_append] at hbuf
        omega
      · rw [← List.append_assoc, hraw]
      · rw [hraw]
  | case3 turn buf reads haccept hfull =>
      refine .inr ?_
      have htake : (buf ++ arrived reads).take maxHead = buf := by
        rw [take_append_read hbuf, Nat.sub_eq_zero_of_le hfull, List.take_zero, List.append_nil]
      unfold Settled
      rw [htake, haccept]
      simp only [List.length_append]
      rw [if_pos (by omega)]
      trivial
  | case4 turn buf reads haccept hfull hlate =>
      obtain ⟨d, hd, hpassed⟩ := Option.any_eq_true .. |>.1 hlate
      exact .inl (.inr ⟨d, turn, buf, hd, of_decide_eq_true hpassed, rfl, rfl⟩)
  | case5 turn buf haccept hfull hlate =>
      refine .inr ?_
      have hstream : buf ++ arrived [] = buf := by simp [arrived]
      unfold Settled
      rw [hstream, List.take_of_length_le hbuf, haccept]
      simp only
      rw [if_neg hfull]
      trivial
  | case6 turn buf haccept hfull hlate message reads =>
      exact .inl (.inl ⟨message, rfl, .inl (List.mem_cons_self ..)⟩)
  | case7 turn buf haccept hfull hlate message reads hdeadline ih =>
      refine (ih hbuf).imp (fun h => h.mono ?_ ?_) id
      · intro m hm
        exact List.mem_cons_of_mem _ hm
      · intro m hm
        exact List.mem_cons_of_mem _ hm
  | case8 turn buf haccept hfull hlate message reads hdeadline =>
      have hnone : deadline = none := by simpa using hdeadline
      exact .inl (.inl ⟨message, rfl, .inr ⟨hnone, List.mem_cons_self ..⟩⟩)
  | case9 turn buf haccept hfull hlate s reads want hrest ih =>
      have hstream : buf ++ arrived (.data s :: reads) = buf ++ s.val ++ arrived reads := by
        simp [arrived, Arrival.bytes]
      have hlen : (buf ++ s.val).length ≤ maxHead := by
        have := List.drop_eq_nil_iff.1 hrest
        simp only [List.length_append]
        omega
      rw [hstream]
      refine (ih hlen).imp (fun h => h.mono ?_ ?_) id
      · intro m hm
        exact List.mem_cons_of_mem _ hm
      · intro m hm
        exact List.mem_cons_of_mem _ hm
  | case10 turn buf haccept hfull hlate s reads want hrest ih =>
      have hstream : buf ++ arrived (.data s :: reads)
          = buf ++ s.val.take want ++ arrived (.data ⟨s.val.drop want, hrest⟩ :: reads) := by
        simp only [arrived, List.flatMap_cons, Arrival.bytes, List.append_assoc]
        rw [← List.append_assoc (s.val.take want), List.take_append_drop]
      have hlen : (buf ++ s.val.take want).length ≤ maxHead := by
        simp only [List.length_append, List.length_take]
        omega
      rw [hstream]
      refine (ih hlen).imp (fun h => h.mono ?_ ?_) id
      · intro m hm
        exact List.mem_cons_of_mem _ (by simpa using hm)
      · intro m hm
        exact List.mem_cons_of_mem _ (by simpa using hm)

/-- Head reading does not depend on the segmentation: with a carry that fits the buffer, a read that
    is not interrupted returns what the stream determines, of either kind of head. -/
theorem head_reads_follow_stream {parseRequest : Bytes → ParseStatus}
    {parseResponse : Bytes → ResponseStatus} (hrequest : RequestParserMonotone parseRequest)
    (hresponse : ResponseParserMonotone parseResponse) (clock : Nat → Nat) (deadline : Option Nat)
    (initial : Bytes) (reads : List Arrival) (hinitial : initial.length ≤ maxHead) :
    ((requestKind parseRequest).Interrupted clock deadline (initial ++ arrived reads) reads
          (readRequestHead parseRequest clock deadline initial reads) ∨
        (requestKind parseRequest).Settled (initial ++ arrived reads)
          (readRequestHead parseRequest clock deadline initial reads)) ∧
      ((responseKind parseResponse).Interrupted clock deadline (initial ++ arrived reads) reads
          (readResponseHeadDeadline parseResponse clock deadline initial reads) ∨
        (responseKind parseResponse).Settled (initial ++ arrived reads)
          (readResponseHeadDeadline parseResponse clock deadline initial reads)) :=
  ⟨HeadKind.read_settled (requestKind_monotone hrequest) clock deadline 0 initial reads hinitial,
    HeadKind.read_settled (responseKind_monotone hresponse) clock deadline 0 initial reads hinitial⟩

/-! ## A carry that does not fit the buffer -/

/-- A request with one field. -/
def oneFieldRequest (v : Bytes) : Bytes := wire "GET / HTTP/1.1\r\nX: " ++ (v ++ (crlf ++ crlf))

/-- The parser's answers about that request and what follows it. -/
def oneFieldParser (v buf : Bytes) : ParseStatus :=
  if (oneFieldRequest v).isPrefixOf buf then
    .complete (oneFieldRequest v).length (some "GET".toList) (some "/".toList) (some 1)
      [("X".toList, v)]
  else .incomplete

theorem oneFieldParser_monotone (v : Bytes) : RequestParserMonotone (oneFieldParser v) where
  invalid {buf} more h := by
    unfold oneFieldParser at h
    split_ifs at h
  complete {buf n method path version headers} more h := by
    unfold oneFieldParser at h ⊢
    split_ifs at h with hprefix
    have hbuf : oneFieldRequest v <+: buf := List.isPrefixOf_iff_prefix.1 hprefix
    have hmore : (oneFieldRequest v).isPrefixOf (buf ++ more) = true :=
      List.isPrefixOf_iff_prefix.2 (hbuf.trans (List.prefix_append ..))
    rw [if_pos hmore]
    refine ⟨?_, h⟩
    cases h
    exact hbuf.length_le

theorem checkLineEnds_clean {v : Bytes} (hclean : v.any isBreak = false) (prev : Option UInt8) :
    checkLineEnds prev (v ++ (crlf ++ crlf)) = .ok () := by
  induction v generalizing prev with
  | nil => rfl
  | cons b v ih =>
      obtain ⟨hb, hv⟩ := Bool.or_eq_false_iff.1 hclean
      simp only [isBreak, Bool.or_eq_false_iff, decide_eq_false_iff_not] at hb
      rw [List.cons_append, checkLineEnds, if_neg (fun h => hb.1.2 h.1), if_neg (fun h => hb.1.1 h.1),
        if_neg hb.2]
      exact ih hv _

theorem checkFolding_clean {v : Bytes} (hclean : v.any isBreak = false) :
    checkFolding (v ++ (crlf ++ crlf)) = .ok () := by
  induction v with
  | nil => rfl
  | cons b v ih =>
      obtain ⟨hb, hv⟩ := Bool.or_eq_false_iff.1 hclean
      simp only [isBreak, Bool.or_eq_false_iff, decide_eq_false_iff_not] at hb
      rw [List.cons_append, checkFolding, if_neg (fun h => hb.1.1 h.1)]
      exact ih hv

theorem validateRawHead_oneField {v : Bytes} (hclean : v.any isBreak = false) :
    validateRawHead (oneFieldRequest v) = .ok () := by
  have hends : checkLineEnds none (oneFieldRequest v)
      = checkLineEnds (some 32) (v ++ (crlf ++ crlf)) := rfl
  have hfolding : checkFolding (oneFieldRequest v) = checkFolding (v ++ (crlf ++ crlf)) := rfl
  unfold validateRawHead
  rw [hends, hfolding, checkLineEnds_clean hclean, checkFolding_clean hclean]
  rfl

theorem acceptRequestHead_oneField {v : Bytes} (hclean : v.any isBreak = false) :
    ∃ head, acceptRequestHead (oneFieldParser v) (oneFieldRequest v) = .ok (some (head, [])) := by
  have hparse : oneFieldParser v (oneFieldRequest v)
      = .complete (oneFieldRequest v).length (some "GET".toList) (some "/".toList) (some 1)
          [("X".toList, v)] := if_pos (List.isPrefixOf_iff_prefix.2 (List.prefix_refl _))
  let field : HeaderField := ⟨"X".toList, v, by decide, hclean⟩
  have hfield : collectHeader ("X".toList, v) = .ok (some field) := by
    have htoken : validateToken "X".toList "header name" = .ok () := by decide
    unfold collectHeader
    rw [if_neg (show "X".toList ≠ [] by decide)]
    split
    · rename_i e hbad
      rw [htoken] at hbad
      cases hbad
    · rw [dif_pos hclean]
  have hfields : collectHeaders [("X".toList, v)] = .ok [field] := by
    unfold collectHeaders
    rw [List.mapM_cons, hfield]
    rfl
  have hframing : validateRequestFraming [field] = .ok .none := rfl
  refine ⟨⟨"GET".toList, "/".toList, .http11, [field], .none, by decide, by decide, hframing⟩, ?_⟩
  unfold acceptRequestHead
  rw [hparse]
  simp only [List.take_length, List.drop_length, validateRawHead_oneField hclean, hfields, bind,
    Except.bind]
  rfl

/-- A request whose head is longer than `maxHead` is accepted when all of it is carried over, and
    refused when the same bytes arrive in a read. -/
theorem oversized_carry_accepted :
    ∃ (parse : Bytes → ParseStatus) (raw : Bytes) (hraw : raw ≠ []),
      RequestParserMonotone parse ∧ maxHead < raw.length ∧
        (∃ head, readRequestHead parse (fun _ => 0) none raw [] = (.ok (some (head, [])), [])) ∧
        (readRequestHead parse (fun _ => 0) none [] [.data ⟨raw, hraw⟩]).1
          = .error (.invalidInput "request head exceeds limit".toList) := by
  obtain ⟨v, hv, hclean⟩ : ∃ v : Bytes, v.length = maxHead ∧ v.any isBreak = false := by
    refine ⟨List.replicate maxHead 97, List.length_replicate, List.any_eq_false.2 ?_⟩
    intro b hb
    rw [List.eq_of_mem_replicate hb]
    decide
  have hlong : maxHead < (oneFieldRequest v).length := by
    have hcrlf : 0 < crlf.length := by decide
    simp only [oneFieldRequest, List.length_append, hv]
    omega
  have hraw : oneFieldRequest v ≠ [] := List.ne_nil_of_length_pos (Nat.zero_lt_of_lt hlong)
  obtain ⟨head, haccept⟩ := acceptRequestHead_oneField hclean
  refine ⟨oneFieldParser v, oneFieldRequest v, hraw, oneFieldParser_monotone v, hlong, ⟨head, ?_⟩, ?_⟩
  · unfold readRequestHead HeadKind.read
    simp only [requestKind, haccept]
  · have hstream : [] ++ arrived [.data ⟨oneFieldRequest v, hraw⟩] = oneFieldRequest v := by
      simp [arrived, Arrival.bytes]
    -- The first `maxHead` bytes are not the whole request yet.
    have hnone : acceptRequestHead (oneFieldParser v) ((oneFieldRequest v).take maxHead) = .ok none := by
      have hshort : (oneFieldRequest v).isPrefixOf ((oneFieldRequest v).take maxHead) = false := by
        rw [Bool.eq_false_iff]
        intro hprefix
        have := (List.isPrefixOf_iff_prefix.1 hprefix).length_le
        rw [List.length_take] at this
        omega
      unfold acceptRequestHead oneFieldParser
      rw [if_neg (by rw [hshort]; decide)]
    rcases HeadKind.read_settled (requestKind_monotone (oneFieldParser_monotone v)) (fun _ => 0) none 0 []
      [.data ⟨oneFieldRequest v, hraw⟩] (Nat.zero_le _) with hcut | hsettled
    · rcases hcut with ⟨message, -, hfail | ⟨-, hblock⟩⟩ | ⟨d, turn, buf, hd, -⟩
      · simp at hfail
      · simp at hblock
      · cases hd
    · unfold HeadKind.Settled at hsettled
      have hlook : (requestKind (oneFieldParser v)).accept ((oneFieldRequest v).take maxHead)
          = .ok none := hnone
      rw [hstream, hlook] at hsettled
      simp only [if_pos hlong.le] at hsettled
      exact hsettled

/-- A request that is cut inside its line end, with two bytes of a body behind it. -/
theorem head_reads_follow_stream_cut :
    (requestKind (oneFieldParser [])).Settled (wire "GET / HTTP/1.1\r\nX: \r\n\r\nhi")
      (readRequestHead (oneFieldParser []) (fun _ => 0) none (wire "GET / H")
        [.data ⟨wire "TTP/1.1\r\nX: \r", by decide⟩, .data ⟨wire "\n\r\nhi", by decide⟩]) := by
  have hresponse : ResponseParserMonotone fun _ => .incomplete :=
    ⟨fun _ h => h, fun _ h => by cases h⟩
  refine (head_reads_follow_stream (oneFieldParser_monotone []) hresponse (fun _ => 0) none
    (wire "GET / H") [.data ⟨wire "TTP/1.1\r\nX: \r", by decide⟩, .data ⟨wire "\n\r\nhi", by decide⟩]
    (by decide)).1.resolve_left ?_
  rintro (⟨message, -, hfail | ⟨-, hblock⟩⟩ | ⟨d, turn, buf, hd, -⟩)
  · simp at hfail
  · simp at hblock
  · cases hd

end Tethra.Gateway
