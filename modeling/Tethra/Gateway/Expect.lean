import Tethra.Gateway.Trailers

set_option autoImplicit false

/-! # Withheld bodies (`gateway/src/forward.rs`)

A client that expects `100 Continue` keeps its body until it is told to go on. The gateway waits for one
head of the upstream. An interim that is not a 100 is relayed as it is, and then the gateway turns to a
body that the client still withholds. -/

namespace Tethra.Gateway

/-- `INTERIM_READ_TIMEOUT`, in milliseconds. -/
def interimReadTimeout : Nat := 5000

/-- How an exchange ended. -/
inductive Completion where
  | completed
  | clientDisconnected
  | upstreamDisconnected
  | truncated
  | rejectedLocally
  | upstreamFailed
  | clientBodyDeadlineExceeded
  | connectionBudgetExceeded
  | clientBodyIdleTimeout
  deriving DecidableEq, Repr

def localResponse (status : Nat) (reason message : String) : Bytes :=
  let body := wire "tethra-gateway: " ++ wire message ++ wire "\n"
  wire "HTTP/1.1 " ++ wire (toString status) ++ wire " " ++ wire reason ++ crlf ++
    wire "Content-Type: text/plain; charset=utf-8" ++ crlf ++
    wire "Content-Length: " ++ wire (toString body.length) ++ crlf ++
    wire "Cache-Control: no-store" ++ crlf ++ wire "Connection: close" ++ crlf ++ crlf ++ body

def continueHead : Bytes := wire "HTTP/1.1 100 Continue" ++ crlf ++ crlf

/-! ## The wait -/

/-- What happens on the client's side of an exchange: a response is written, or the relay starts to read
    the body. -/
inductive ClientEvent where
  | wrote (status : Nat) (bytes : Bytes)
  | startBody
  deriving DecidableEq, Repr

/-- The upstream and the client during one exchange: the parser, the clock, the bytes that are pending
    and those that arrive, and which writes the client takes. -/
structure Exchanged where
  httparse : Bytes → ResponseStatus
  clock : Nat → Nat
  started : Nat
  pending : Bytes
  reads : List Arrival
  clientTakes : Bytes → Bool

/-- A write to the client. -/
def Exchanged.write (x : Exchanged) (status : Nat) (bytes : Bytes) : List ClientEvent :=
  if x.clientTakes bytes then [.wrote status bytes] else []

/-- The head that the upstream completes within the interim timeout, if it does. -/
def Exchanged.firstHead (x : Exchanged) : Except CoreError HeadRead :=
  (readResponseHeadDeadline x.httparse x.clock (some (x.started + interimReadTimeout)) x.pending
    x.reads).1

/-- What the exchange goes on with: the bytes read past the head, and a final head if there is one,
    which skips the body. -/
inductive Waited where
  | close (completion : Completion)
  | proceed (respCarry : Bytes) (finalHead : Option ResponseHead)

def Exchanged.awaitInterim (x : Exchanged) : List ClientEvent × Waited :=
  match x.firstHead with
  | .ok (.complete h carry) =>
      if 100 ≤ h.status ∧ h.status < 200 then
        let interim := buildClientInterimHead h
        if x.clientTakes interim then ([.wrote h.status interim], .proceed carry none)
        else ([], .close .clientDisconnected)
      else ([], .proceed carry (some h))
  | .ok (.timedOut carry) =>
      -- Errors of this write are ignored, and the body is read all the same.
      (x.write 100 continueHead, .proceed carry none)
  | .error _ =>
      (x.write 502 (localResponse 502 "Bad Gateway"
        "the provider closed the connection before responding."), .close .upstreamDisconnected)

/-- The exchange from the head that was sent to the start of the body. -/
def Exchanged.untilBody (x : Exchanged) (head : RequestHead) : List ClientEvent :=
  let waited := if head.expectsContinue then x.awaitInterim else ([], .proceed x.pending none)
  match waited.2 with
  | .close _ => waited.1
  | .proceed _ (some _) => waited.1
  | .proceed _ none => if head.framing = .none then waited.1 else waited.1 ++ [.startBody]

/-- Whenever the relay starts to read the body, a 100 has been written. -/
def ContinueFirst (events : List ClientEvent) : Prop :=
  ∀ before after, events = before ++ .startBody :: after → ∃ bytes, .wrote 100 bytes ∈ before

/-- The upstream's first head is a 100 or a final one, or an interim that the client did not take; or
    there is none in time, and the client takes the gateway's own. -/
def Exchanged.Told (x : Exchanged) : Prop :=
  match x.firstHead with
  | .ok (.complete h _) =>
      h.status = 100 ∨ 200 ≤ h.status ∨ x.clientTakes (buildClientInterimHead h) = false
  | .ok (.timedOut _) => x.clientTakes continueHead = true
  | .error _ => True

/-! ## Starts of the body -/

theorem continueFirst_of_noStart {events : List ClientEvent} (h : .startBody ∉ events) :
    ContinueFirst events := by
  rintro before after rfl
  exact absurd (List.mem_append_right _ (List.mem_cons_self ..)) h

theorem continueFirst_concat {events : List ClientEvent} (h : .startBody ∉ events) :
    ContinueFirst (events ++ [.startBody]) ↔ ∃ bytes, .wrote 100 bytes ∈ events := by
  constructor
  · intro hfirst
    exact hfirst events [] rfl
  · rintro ⟨bytes, hbytes⟩ before after heq
    refine ⟨bytes, ?_⟩
    rcases List.eq_nil_or_concat after with rfl | ⟨after, last, rfl⟩
    · rwa [← (List.append_inj_left' heq rfl)]
    · -- A start further in would stand among the events.
      have hcut : events = before ++ .startBody :: after := by
        rw [List.concat_eq_append, ← List.cons_append, ← List.append_assoc] at heq
        exact List.append_inj_left' heq rfl
      rw [hcut] at h
      exact absurd (List.mem_append_right _ (List.mem_cons_self ..)) h

theorem Exchanged.startBody_notMem_write (x : Exchanged) (status : Nat) (bytes : Bytes) :
    .startBody ∉ x.write status bytes := by
  unfold write
  split_ifs <;> simp

theorem Exchanged.startBody_notMem_awaitInterim (x : Exchanged) : .startBody ∉ x.awaitInterim.1 := by
  unfold awaitInterim
  dsimp only
  split
  · split_ifs <;> simp
  · exact x.startBody_notMem_write _ _
  · exact x.startBody_notMem_write _ _

/-- Where the wait goes on to the body, it has written a 100 exactly when the client was told. -/
theorem Exchanged.told_iff {x : Exchanged} {carry : Bytes}
    (h : x.awaitInterim.2 = .proceed carry none) :
    x.Told ↔ ∃ bytes, .wrote 100 bytes ∈ x.awaitInterim.1 := by
  unfold awaitInterim Told at *
  cases hfirst : x.firstHead with
  | error e =>
      rw [hfirst] at h
      cases h
  | ok read =>
      cases read with
      | timedOut rest => simp [Exchanged.write]
      | complete head rest =>
          rw [hfirst] at h
          dsimp only at h ⊢
          split_ifs at h ⊢ with hinterim htakes
          · have hlow : ¬200 ≤ head.status := not_le.2 hinterim.2
            simp [htakes, hlow, eq_comm]
          · cases h

/-- Where it does not, nothing is asked of it. -/
theorem Exchanged.told_of_ends {x : Exchanged}
    (h : ∀ carry, x.awaitInterim.2 ≠ .proceed carry none) : x.Told := by
  unfold awaitInterim Told at *
  cases hfirst : x.firstHead with
  | error e => trivial
  | ok read =>
      cases read with
      | timedOut rest =>
          rw [hfirst] at h
          exact absurd rfl (h rest)
      | complete head rest =>
          rw [hfirst] at h
          dsimp only at h ⊢
          split_ifs at h with hinterim htakes
          · exact absurd rfl (h rest)
          · exact Or.inr (Or.inr (by simpa using htakes))
          · have hknown := head.statusKnown
            exact Or.inr (Or.inl (by omega))

/-- For every request that expects it, whatever the upstream sends and when: a 100 is written before the
    body is read exactly when there is no body to read or the client was told. -/
theorem continue_first_iff {head : RequestHead} (hexpects : head.expectsContinue = true)
    (x : Exchanged) : ContinueFirst (x.untilBody head) ↔ head.framing = .none ∨ x.Told := by
  have hnone := x.startBody_notMem_awaitInterim
  unfold Exchanged.untilBody
  rw [if_pos hexpects]
  dsimp only
  split
  · rename_i completion hclose
    refine iff_of_true (continueFirst_of_noStart hnone) (Or.inr (Exchanged.told_of_ends ?_))
    intro carry h
    rw [hclose] at h
    cases h
  · rename_i carry final hfinal
    refine iff_of_true (continueFirst_of_noStart hnone) (Or.inr (Exchanged.told_of_ends ?_))
    intro carry' h
    rw [hfinal] at h
    cases h
  · rename_i carry hproceed
    split_ifs with hframing
    · exact iff_of_true (continueFirst_of_noStart hnone) (Or.inl hframing)
    · rw [continueFirst_concat hnone, Exchanged.told_iff hproceed, or_iff_right hframing]

/-! ## Two first heads -/

def uploadHead : RequestHead where
  method := "POST".toList
  target := "/openai/v1/files".toList
  version := .http11
  headers :=
    [⟨"Expect".toList, wire "100-continue", by decide, by decide⟩,
      ⟨"Content-Length".toList, wire "5", by decide, by decide⟩]
  framing := .contentLength 5
  methodToken := by decide
  targetVisible := by decide
  framed := by decide

/-- The upstream has sent an interim, and behind it a 100. -/
def interimSent (first : Bytes) (code : Nat) : Exchanged where
  httparse _ := .complete first.length (some code) none (some 1) []
  clock _ := 0
  started := 0
  pending := first ++ continueHead
  reads := []
  clientTakes _ := true

theorem Exchanged.firstHead_of_accept {x : Exchanged} {h : ResponseHead} {carry : Bytes}
    (haccept : acceptResponseHead x.httparse x.pending = .ok (some (h, carry))) :
    x.firstHead = .ok (.complete h carry) := by
  have hlook : (responseKind x.httparse).accept x.pending = .ok (some (h, carry)) := haccept
  unfold firstHead readResponseHeadDeadline
  rw [HeadKind.read.eq_def, hlook]
  rfl

def earlyHints : Exchanged := interimSent (wire "HTTP/1.1 103" ++ crlf ++ crlf) 103

/-- An upstream that answers with the 100 is in order. -/
theorem continue_first_iff_told :
    ContinueFirst ((interimSent continueHead 100).untilBody uploadHead) := by
  obtain ⟨h, carry, haccept, hstatus⟩ : ∃ h carry,
      acceptResponseHead (interimSent continueHead 100).httparse (interimSent continueHead 100).pending
        = .ok (some (h, carry)) ∧ h.status = 100 := ⟨_, _, rfl, rfl⟩
  refine (continue_first_iff (by decide) _).2 (Or.inr ?_)
  unfold Exchanged.Told
  rw [Exchanged.firstHead_of_accept haccept]
  exact Or.inl hstatus

/-- The 103 is relayed, and the body is read with the 100 still unread behind it. -/
theorem hints_not_told :
    ¬∀ (head : RequestHead) (x : Exchanged), head.expectsContinue = true →
      ContinueFirst (x.untilBody head) := by
  intro hall
  obtain ⟨h, carry, haccept, hstatus⟩ : ∃ h carry,
      acceptResponseHead earlyHints.httparse earlyHints.pending = .ok (some (h, carry)) ∧
        h.status = 103 := ⟨_, _, rfl, rfl⟩
  have hfirst := Exchanged.firstHead_of_accept haccept
  have hwait : earlyHints.awaitInterim
      = ([.wrote 103 (buildClientInterimHead h)], .proceed carry none) := by
    unfold Exchanged.awaitInterim
    rw [hfirst]
    simp [hstatus, earlyHints, interimSent]
  have hevents : earlyHints.untilBody uploadHead
      = [.wrote 103 (buildClientInterimHead h), .startBody] := by
    have hexpects : uploadHead.expectsContinue = true := by decide
    unfold Exchanged.untilBody
    rw [if_pos hexpects, hwait]
    rfl
  obtain ⟨bytes, hbytes⟩ := hall uploadHead earlyHints (by decide)
    [.wrote 103 (buildClientInterimHead h)] [] hevents
  simp at hbytes

end Tethra.Gateway
