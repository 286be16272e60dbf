import Tethra.Gateway.HeadRead

set_option autoImplicit false

/-! # The time of a connection (`gateway/src/forward.rs`)

A connection is charged for its waits on the client, over all its requests, and serves another only while
something is left. The documented worst case is the budget and one keep-alive idle period. A deadline is
looked at between two reads, so a wait for a head outlasts the idle period by the read that is in flight;
and the time of a body is also that of the writes to the upstream, which no deadline ends. -/

namespace Tethra.Gateway

/-- The per-connection bounds, in milliseconds. -/
structure ConnLimits where
  headDeadline : Nat
  headReadTimeout : Nat
  keepaliveIdle : Nat
  bodyIdle : Nat
  bodyDeadline : Nat
  clientTimeBudget : Nat
  maxAge : Nat
  maxRequests : Nat
  deriving DecidableEq, Repr

/-- The values in production; nothing sets others. -/
def ConnLimits.default : ConnLimits where
  headDeadline := 15000
  headReadTimeout := 5000
  keepaliveIdle := 120000
  bodyIdle := 60000
  bodyDeadline := 300000
  clientTimeBudget := 600000
  maxAge := 3600000
  maxRequests := 10000

structure ConnBudget where
  limits : ConnLimits
  opened : Nat
  clientTime : Nat
  requests : Nat
  deriving DecidableEq, Repr

def ConnBudget.new (limits : ConnLimits) (now : Nat) : ConnBudget := ⟨limits, now, 0, 0⟩

def ConnBudget.remainingClientTime (b : ConnBudget) : Nat := b.limits.clientTimeBudget - b.clientTime

def ConnBudget.charge (b : ConnBudget) (spent : Nat) : ConnBudget :=
  { b with clientTime := b.clientTime + spent }

def ConnBudget.countRequest (b : ConnBudget) : ConnBudget := { b with requests := b.requests + 1 }

def ConnBudget.mayServeAnother (b : ConnBudget) (now : Nat) : Bool :=
  b.remainingClientTime ≠ 0 && now - b.opened < b.limits.maxAge && b.requests < b.limits.maxRequests

@[simp] theorem ConnBudget.charge_clientTime (b : ConnBudget) (spent : Nat) :
    (b.charge spent).clientTime = b.clientTime + spent := rfl

/-! ## The wait for a head -/

variable {H O : Type}

/-- The turn at which the loop of `HeadKind.read` ends: the number of its reads. -/
def HeadKind.lastTurn (k : HeadKind H O) (clock : Nat → Nat) (deadline : Option Nat) (turn : Nat)
    (buf : Bytes) (reads : List Arrival) : Nat :=
  match k.accept buf with
  | .error _ => turn
  | .ok (some _) => turn
  | .ok none =>
      if _hfull : maxHead ≤ buf.length then turn
      else if deadline.any (· ≤ clock turn) then turn
      else
        match reads with
        | [] => turn + 1
        | .failed _ :: _ => turn + 1
        | .wouldBlock _ :: reads =>
            if deadline.isSome then k.lastTurn clock deadline (turn + 1) buf reads else turn + 1
        | .data s :: reads =>
            let want := min headReadSize (maxHead - buf.length)
            if hrest : s.val.drop want = [] then
              k.lastTurn clock deadline (turn + 1) (buf ++ s.val) reads
            else
              k.lastTurn clock deadline (turn + 1) (buf ++ s.val.take want)
                (.data ⟨s.val.drop want, hrest⟩ :: reads)
termination_by (maxHead - buf.length, reads.length)
decreasing_by
  · exact Prod.Lex.right _ (Nat.lt_succ_self _)
  · have := List.length_pos_iff.2 s.property
    refine Prod.Lex.left _ _ ?_
    simp only [List.length_append]
    omega
  · have := List.length_pos_iff.2 s.property
    refine Prod.Lex.left _ _ ?_
    simp only [List.length_append, List.length_take, headReadSize]
    omega

/-- The last read of a head began before the deadline. -/
theorem HeadKind.lastTurn_spec (k : HeadKind H O) (clock : Nat → Nat) (deadline turn : Nat) (buf : Bytes)
    (reads : List Arrival) :
    k.lastTurn clock (some deadline) turn buf reads = turn ∨
      ∃ last, k.lastTurn clock (some deadline) turn buf reads = last + 1 ∧ clock last < deadline := by
  generalize hsome : some deadline = limit
  have hearly : ∀ turn, ¬limit.any (· ≤ clock turn) = true → clock turn < deadline := by
    intro turn hlate
    simpa [← hsome] using hlate
  fun_induction HeadKind.lastTurn k clock limit turn buf reads with
  | case1 | case2 | case3 | case4 => exact Or.inl rfl
  | case5 turn buf haccept hfull hlate => exact Or.inr ⟨turn, rfl, hearly turn hlate⟩
  | case6 turn buf haccept hfull hlate => exact Or.inr ⟨turn, rfl, hearly turn hlate⟩
  | case7 turn buf haccept hfull hlate message reads hdeadline ih =>
      exact Or.inr (ih.elim (fun h => ⟨turn, h, hearly turn hlate⟩) id)
  | case8 turn buf haccept hfull hlate => exact Or.inr ⟨turn, rfl, hearly turn hlate⟩
  | case9 turn buf haccept hfull hlate s reads want hrest ih =>
      exact Or.inr (ih.elim (fun h => ⟨turn, h, hearly turn hlate⟩) id)
  | case10 turn buf haccept hfull hlate s reads want hrest ih =>
      exact Or.inr (ih.elim (fun h => ⟨turn, h, hearly turn hlate⟩) id)

/-- Nothing arrives until the deadline. -/
theorem HeadKind.lastTurn_idle {k : HeadKind H O} {clock : Nat → Nat} {deadline : Nat} {buf : Bytes}
    (message : Str) (haccept : k.accept buf = .ok none) (hfull : buf.length < maxHead) (n turn : Nat)
    (hearly : ∀ i < n, clock (turn + i) < deadline) (hlate : deadline ≤ clock (turn + n)) :
    k.lastTurn clock (some deadline) turn buf (List.replicate n (.wouldBlock message)) = turn + n := by
  have hroom : ¬maxHead ≤ buf.length := not_le.2 hfull
  induction n generalizing turn with
  | zero =>
      rw [HeadKind.lastTurn.eq_def]
      simp [haccept, hroom, show deadline ≤ clock turn from hlate]
  | succ n ih =>
      have hfirst : ¬deadline ≤ clock turn := not_le.2 (hearly 0 (Nat.succ_pos n))
      rw [HeadKind.lastTurn.eq_def]
      simp only [haccept, List.replicate_succ, hroom, hfirst, Option.any_some, decide_false,
        Bool.false_eq_true, dite_false, if_false, Option.isSome_some, if_true]
      have hnext : ∀ i, turn + (i + 1) = turn + 1 + i := fun i => by omega
      rw [hnext n] at hlate ⊢
      refine ih (turn + 1) (fun i hi => ?_) hlate
      rw [← hnext i]
      exact hearly (i + 1) (Nat.succ_lt_succ hi)

/-! ## Turns of the connection loop -/

/-- What the relay of a body does, each with its time: reads from the client, writes to the upstream. -/
inductive BodyStep where
  | read (spent : Nat)
  | write (spent : Nat)
  deriving DecidableEq, Repr

/-- The time of a relay whose reads are those of a `DeadlineReader`, and whether none was refused. -/
def relayTime (deadline elapsed : Nat) : List BodyStep → Nat × Bool
  | [] => (elapsed, true)
  | .write spent :: steps => relayTime deadline (elapsed + spent) steps
  | .read spent :: steps =>
      if deadline ≤ elapsed then (elapsed, false) else relayTime deadline (elapsed + spent) steps

/-- What `handle_request` comes to: it closes before the body, or relays the body and would then keep the
    connection or not. -/
inductive Handled where
  | closed
  | relayed (steps : List BodyStep) (keepAlive : Bool)

/-- One turn of `serve_connection`: the time, the bytes that are carried over and those that arrive, the
    times of the reads, and the rest of the request. The socket's timeouts bound each read. -/
structure Turn where
  now : Nat
  shutdown : Bool
  carry : Bytes
  arrivals : List Arrival
  waits : Nat → Nat
  handled : Handled
  pacedHead : ∀ i, waits i ≤ ConnLimits.default.headReadTimeout
  pacedBody : ∀ steps keepAlive, handled = .relayed steps keepAlive →
    ∀ spent, .read spent ∈ steps → spent ≤ ConnLimits.default.bodyIdle

/-- The time of the first reads of a head. -/
def Turn.waited (t : Turn) (n : Nat) : Nat := ∑ i ∈ Finset.range n, t.waits i

def ConnBudget.idleBudget (b : ConnBudget) (first : Bool) : Nat :=
  if first then b.limits.headDeadline else b.limits.keepaliveIdle

/-- The head of the request; its clock is the time of the reads before. -/
def ConnBudget.readHead (b : ConnBudget) (httparse : Bytes → ParseStatus) (first : Bool) (t : Turn) :
    Except CoreError (Option (RequestHead × Bytes)) :=
  (readRequestHead httparse t.waited (some (b.idleBudget first)) t.carry t.arrivals).1

def ConnBudget.headTime (b : ConnBudget) (httparse : Bytes → ParseStatus) (first : Bool) (t : Turn) :
    Nat :=
  t.waited ((requestKind httparse).lastTurn t.waited (some (b.idleBudget first)) 0 t.carry t.arrivals)

/-- The time that the body may take. -/
def ConnBudget.bodyBudget (b : ConnBudget) : Nat := min b.limits.bodyDeadline b.remainingClientTime

/-- The budget after the body, and whether the loop goes on. -/
def ConnBudget.serveBody (b : ConnBudget) : Handled → ConnBudget × Bool
  | .closed => (b, false)
  | .relayed steps keepAlive =>
      let relayed := relayTime b.bodyBudget 0 steps
      (b.charge relayed.1, relayed.2 && keepAlive)

def ConnBudget.serveTurn (b : ConnBudget) (httparse : Bytes → ParseStatus) (first : Bool) (t : Turn) :
    ConnBudget × Bool :=
  if t.shutdown || !b.mayServeAnother t.now then (b, false)
  else
    let charged := b.charge (b.headTime httparse first t)
    match b.readHead httparse first t with
    | .ok (some _) => charged.countRequest.serveBody t.handled
    | _ => (charged, false)

def ConnBudget.serveTurns (httparse : Bytes → ParseStatus) (b : ConnBudget) (first : Bool) :
    List Turn → ConnBudget
  | [] => b
  | t :: turns =>
      let served := b.serveTurn httparse first t
      if served.2 then served.1.serveTurns httparse false turns else served.1

/-- `serve_connection`, as far as its budget goes. -/
def serveConnection (httparse : Bytes → ParseStatus) (opened : Nat) (turns : List Turn) : ConnBudget :=
  (ConnBudget.new .default opened).serveTurns httparse true turns

/-! ## Overruns -/

/-- The documented worst case. -/
def ConnLimits.worstCase (limits : ConnLimits) : Nat := limits.clientTimeBudget + limits.keepaliveIdle

/-- The wait for the head outlasts its deadline by no more than was left of the budget. -/
def ConnBudget.HeadFits (b : ConnBudget) (httparse : Bytes → ParseStatus) (first : Bool) (t : Turn) :
    Prop :=
  b.headTime httparse first t - b.idleBudget first ≤ b.remainingClientTime

/-- The relay of the body outlasts its deadline by no more than is left of the worst case then. -/
def ConnBudget.BodyFits (b : ConnBudget) : Handled → Prop
  | .closed => True
  | .relayed steps _ =>
      (relayTime b.bodyBudget 0 steps).1 - b.bodyBudget
        ≤ b.limits.worstCase - (b.clientTime + b.bodyBudget)

def ConnBudget.TurnFits (b : ConnBudget) (httparse : Bytes → ParseStatus) (first : Bool) (t : Turn) :
    Prop :=
  t.shutdown = false → b.mayServeAnother t.now = true →
    b.HeadFits httparse first t ∧
      ∀ request, b.readHead httparse first t = .ok (some request) →
        (b.charge (b.headTime httparse first t)).countRequest.BodyFits t.handled

/-- Every turn of the connection fits. -/
def ConnBudget.Fits (httparse : Bytes → ParseStatus) (b : ConnBudget) (first : Bool) :
    List Turn → Prop
  | [] => True
  | t :: turns =>
      b.TurnFits httparse first t ∧
        ((b.serveTurn httparse first t).2 = true →
          (b.serveTurn httparse first t).1.Fits httparse false turns)

/-- A head outlasts its deadline by less than one read. -/
theorem ConnBudget.headTime_lt (b : ConnBudget) (httparse : Bytes → ParseStatus) (first : Bool)
    (t : Turn) :
    b.headTime httparse first t ≤ b.idleBudget first + ConnLimits.default.headReadTimeout := by
  unfold headTime
  rcases (requestKind httparse).lastTurn_spec t.waited (b.idleBudget first) 0 t.carry t.arrivals with
    hnone | ⟨last, hlast, hearly⟩
  · rw [hnone]
    exact Nat.zero_le _
  · have hread := t.pacedHead last
    rw [hlast, Turn.waited, Finset.sum_range_succ]
    exact Nat.add_le_add hearly.le hread

/-! ## Runs -/

theorem ConnBudget.serveBody_limits (b : ConnBudget) (handled : Handled) :
    (b.serveBody handled).1.limits = b.limits := by
  cases handled <;> rfl

theorem ConnBudget.serveTurn_limits (b : ConnBudget) (httparse : Bytes → ParseStatus) (first : Bool)
    (t : Turn) : (b.serveTurn httparse first t).1.limits = b.limits := by
  unfold serveTurn
  split_ifs
  · rfl
  · dsimp only
    split
    · exact serveBody_limits _ _
    · rfl

theorem ConnBudget.clientTime_le_serveBody (b : ConnBudget) (handled : Handled) :
    b.clientTime ≤ (b.serveBody handled).1.clientTime := by
  cases handled with
  | closed => exact le_refl _
  | relayed steps keepAlive => exact Nat.le_add_right _ _

theorem ConnBudget.clientTime_le_serveTurn (b : ConnBudget) (httparse : Bytes → ParseStatus)
    (first : Bool) (t : Turn) : b.clientTime ≤ (b.serveTurn httparse first t).1.clientTime := by
  unfold serveTurn
  split_ifs
  · exact le_refl _
  · dsimp only
    split
    · exact (Nat.le_add_right _ (b.headTime httparse first t)).trans
        (clientTime_le_serveBody (b.charge (b.headTime httparse first t)).countRequest t.handled)
    · exact Nat.le_add_right _ _

/-- Nothing is taken back from what was charged. -/
theorem ConnBudget.clientTime_le_serveTurns (httparse : Bytes → ParseStatus) (b : ConnBudget)
    (first : Bool) (turns : List Turn) :
    b.clientTime ≤ (b.serveTurns httparse first turns).clientTime := by
  induction turns generalizing b first with
  | nil => exact le_refl _
  | cons t turns ih =>
      unfold serveTurns
      dsimp only
      split_ifs
      · exact (b.clientTime_le_serveTurn httparse first t).trans (ih _ _)
      · exact b.clientTime_le_serveTurn httparse first t

theorem ConnBudget.serveBody_le_iff {b : ConnBudget} (hstart : b.clientTime ≤ b.limits.worstCase)
    (handled : Handled) :
    (b.serveBody handled).1.clientTime ≤ b.limits.worstCase ↔ b.BodyFits handled := by
  cases handled with
  | closed => exact iff_of_true hstart trivial
  | relayed steps keepAlive =>
      have hallowed : b.clientTime + b.bodyBudget ≤ b.limits.worstCase := by
        unfold bodyBudget remainingClientTime
        unfold ConnLimits.worstCase at hstart ⊢
        omega
      simp only [serveBody, charge_clientTime, BodyFits]
      omega

/-- Behind the wait for a head, the charge is within the worst case exactly when the wait fits. -/
theorem ConnBudget.headTime_le_iff {b : ConnBudget} (hlimits : b.limits = .default)
    (hleft : b.remainingClientTime ≠ 0) {first : Bool} (hfirst : first = true → b.clientTime = 0)
    (httparse : Bytes → ParseStatus) (t : Turn) :
    b.clientTime + b.headTime httparse first t ≤ b.limits.worstCase ↔ b.HeadFits httparse first t := by
  have hover := b.headTime_lt httparse first t
  unfold remainingClientTime at hleft
  unfold HeadFits ConnLimits.worstCase remainingClientTime
  unfold idleBudget at hover ⊢
  rw [hlimits] at hover hleft ⊢
  cases first with
  | false =>
      simp only [Bool.false_eq_true, if_false] at hover ⊢
      omega
  | true =>
      -- the first head has a deadline of its own, and the whole budget is left
      have hzero := hfirst rfl
      simp only [if_true, ConnLimits.default] at hover hleft ⊢
      omega

theorem ConnBudget.remaining_of_mayServeAnother {b : ConnBudget} {now : Nat}
    (h : b.mayServeAnother now = true) : b.remainingClientTime ≠ 0 := by
  unfold mayServeAnother at h
  simp only [Bool.and_eq_true, decide_eq_true_eq] at h
  exact h.1.1

/-- One turn stays within the worst case exactly when it fits. -/
theorem ConnBudget.serveTurn_le_iff {b : ConnBudget} (hlimits : b.limits = .default)
    (hstart : b.clientTime ≤ b.limits.worstCase) {first : Bool} (hfirst : first = true → b.clientTime = 0)
    (httparse : Bytes → ParseStatus) (t : Turn) :
    (b.serveTurn httparse first t).1.clientTime ≤ b.limits.worstCase ↔ b.TurnFits httparse first t := by
  unfold serveTurn TurnFits
  by_cases hserved : (t.shutdown || !b.mayServeAnother t.now) = true
  · rw [if_pos hserved]
    refine iff_of_true hstart fun hshutdown hserve => ?_
    rw [hshutdown, hserve] at hserved
    cases hserved
  · rw [if_neg hserved]
    have hgo : t.shutdown = false ∧ b.mayServeAnother t.now = true := by simpa using hserved
    rw [← headTime_le_iff hlimits (remaining_of_mayServeAnother hgo.2) hfirst httparse t]
    cases hread : b.readHead httparse first t with
    | error e => simp [hgo]
    | ok outcome =>
        cases outcome with
        | none => simp [hgo]
        | some request =>
            have hcharged := clientTime_le_serveBody
              (b.charge (b.headTime httparse first t)).countRequest t.handled
            constructor
            · intro hle _ _
              have hheadLe : b.clientTime + b.headTime httparse first t ≤ b.limits.worstCase :=
                hcharged.trans hle
              exact ⟨hheadLe, fun _ _ => (serveBody_le_iff
                (b := (b.charge (b.headTime httparse first t)).countRequest) hheadLe t.handled).1 hle⟩
            · intro hfits
              obtain ⟨hheadLe, hbody⟩ := hfits hgo.1 hgo.2
              exact (serveBody_le_iff (b := (b.charge (b.headTime httparse first t)).countRequest)
                hheadLe t.handled).2 (hbody request rfl)

theorem ConnBudget.serveTurns_le_iff (httparse : Bytes → ParseStatus) {b : ConnBudget}
    (hlimits : b.limits = .default) (hstart : b.clientTime ≤ b.limits.worstCase) {first : Bool}
    (hfirst : first = true → b.clientTime = 0) (turns : List Turn) :
    (b.serveTurns httparse first turns).clientTime ≤ b.limits.worstCase ↔ b.Fits httparse first turns := by
  induction turns generalizing b first with
  | nil => exact iff_of_true hstart trivial
  | cons t turns ih =>
      have hturn := serveTurn_le_iff hlimits hstart hfirst httparse t
      have hsame := b.serveTurn_limits httparse first t
      have hlater : false = true → (b.serveTurn httparse first t).1.clientTime = 0 := nofun
      unfold serveTurns Fits
      dsimp only
      rw [← hturn]
      by_cases hgo : (b.serveTurn httparse first t).2 = true
      · rw [if_pos hgo]
        constructor
        -- nothing is taken back later, so this turn is within the bound as well
        · intro hle
          have hserved := (clientTime_le_serveTurns httparse (b.serveTurn httparse first t).1 false
            turns).trans hle
          refine ⟨hserved, fun _ => (ih (hsame.trans hlimits) ?_ hlater).1 ?_⟩
          · rwa [hsame]
          · rwa [hsame]
        · rintro ⟨hserved, hrest⟩
          rw [← hsame] at hserved ⊢
          exact (ih (hsame.trans hlimits) hserved hlater).2 (hrest hgo)
      · rw [if_neg hgo]
        exact ⟨fun hle => ⟨hle, fun h => absurd h hgo⟩, fun h => h.1⟩

/-- The time charged to a connection stays within the budget and one keep-alive idle period exactly when
    each of its turns fits. -/
theorem clientTime_bounded_iff (httparse : Bytes → ParseStatus) (opened : Nat) (turns : List Turn) :
    (serveConnection httparse opened turns).clientTime ≤ ConnLimits.default.worstCase ↔
      (ConnBudget.new .default opened).Fits httparse true turns :=
  ConnBudget.serveTurns_le_iff httparse rfl (Nat.zero_le _) (fun _ => rfl) turns

/-! ## A connection that is charged more -/

/-- A head that is carried over whole takes no time. -/
theorem ConnBudget.serveTurn_carried {b : ConnBudget} {httparse : Bytes → ParseStatus} {first : Bool}
    {t : Turn} {request : RequestHead × Bytes}
    (haccept : acceptRequestHead httparse t.carry = .ok (some request))
    (hgo : t.shutdown = false ∧ b.mayServeAnother t.now = true) :
    b.serveTurn httparse first t = b.countRequest.serveBody t.handled := by
  have hlook : (requestKind httparse).accept t.carry = .ok (some request) := haccept
  have hlast : (requestKind httparse).lastTurn t.waited (some (b.idleBudget first)) 0 t.carry t.arrivals
      = 0 := by
    rw [HeadKind.lastTurn.eq_def, hlook]
  have hread : b.readHead httparse first t = .ok (some request) := by
    unfold readHead readRequestHead
    rw [HeadKind.read.eq_def, hlook]
    rfl
  have htime : b.headTime httparse first t = 0 := by
    unfold headTime
    rw [hlast]
    rfl
  unfold serveTurn
  rw [hread, htime, hgo.1, hgo.2]
  rfl

theorem ConnBudget.headTime_le_serveTurn {b : ConnBudget} {t : Turn}
    (hgo : t.shutdown = false ∧ b.mayServeAnother t.now = true) (httparse : Bytes → ParseStatus)
    (first : Bool) :
    b.clientTime + b.headTime httparse first t ≤ (b.serveTurn httparse first t).1.clientTime := by
  have hserved : ¬(t.shutdown || !b.mayServeAnother t.now) = true := by simp [hgo]
  unfold serveTurn
  rw [if_neg hserved]
  dsimp only
  split
  · exact clientTime_le_serveBody (b.charge (b.headTime httparse first t)).countRequest t.handled
  · exact le_refl _

def uploadRequest : Bytes := wire "POST /x HTTP/1.1" ++ crlf ++ wire "Content-Length: 6" ++ crlf ++ crlf

def uploadStatus (buf : Bytes) : ParseStatus :=
  if buf = [] then .incomplete
  else .complete uploadRequest.length (some "POST".toList) (some "/x".toList) (some 1)
    [("Content-Length".toList, wire "6")]

/-- Six bytes, the last of them after `last` milliseconds. -/
def uploadTurn (last : Fin 60001) : Turn where
  now := 0
  shutdown := false
  carry := uploadRequest
  arrivals := []
  waits _ := 0
  handled := .relayed (List.replicate 5 (.read 50000) ++ [.read last]) true
  pacedHead _ := Nat.zero_le _
  pacedBody steps keepAlive h spent hspent := by
    obtain ⟨rfl, -⟩ := Handled.relayed.inj h
    have hcap : ConnLimits.default.bodyIdle = 60000 := rfl
    simp at hspent
    omega

/-- A client that sends nothing; each read wakes a little before its timeout. -/
def silentTurn : Turn where
  now := 0
  shutdown := false
  carry := []
  arrivals := List.replicate 25 (.wouldBlock [])
  waits _ := 4999
  handled := .closed
  pacedHead _ := by decide
  pacedBody _ _ h := nomatch h

theorem waited_silent (n : Nat) : silentTurn.waited n = n * 4999 := by
  simp [Turn.waited, silentTurn]

/-- Two uploads leave a millisecond, and the wait for a third request takes the idle period and most of
    a read. -/
theorem silent_overruns :
    ¬∀ (httparse : Bytes → ParseStatus) (opened : Nat) (turns : List Turn),
      (serveConnection httparse opened turns).clientTime ≤ ConnLimits.default.worstCase := by
  intro hall
  have hle := hall uploadStatus 0 [uploadTurn 50000, uploadTurn 49999, silentTurn]
  obtain ⟨request, hrequest⟩ : ∃ request,
      acceptRequestHead uploadStatus uploadRequest = .ok (some request) := ⟨_, rfl⟩
  have hfirst : (ConnBudget.new .default 0).serveTurn uploadStatus true (uploadTurn 50000)
      = (⟨.default, 0, 300000, 1⟩, true) :=
    (ConnBudget.serveTurn_carried hrequest ⟨rfl, by decide⟩).trans (by decide)
  have hsecond : (⟨.default, 0, 300000, 1⟩ : ConnBudget).serveTurn uploadStatus false (uploadTurn 49999)
      = (⟨.default, 0, 599999, 2⟩, true) :=
    (ConnBudget.serveTurn_carried hrequest ⟨rfl, by decide⟩).trans (by decide)
  have hlast : (requestKind uploadStatus).lastTurn silentTurn.waited (some 120000) 0 []
      (List.replicate 25 (.wouldBlock [])) = 0 + 25 := by
    refine HeadKind.lastTurn_idle [] rfl (by decide) 25 0 (fun i hi => ?_) ?_
    · rw [waited_silent]
      omega
    · rw [waited_silent]
      omega
  have htime : (⟨.default, 0, 599999, 2⟩ : ConnBudget).headTime uploadStatus false silentTurn = 124975 := by
    change silentTurn.waited ((requestKind uploadStatus).lastTurn silentTurn.waited (some 120000) 0 []
      (List.replicate 25 (.wouldBlock []))) = _
    rw [hlast, waited_silent]
  have hthird := ConnBudget.headTime_le_serveTurn (b := ⟨.default, 0, 599999, 2⟩) (t := silentTurn)
    ⟨rfl, by decide⟩ uploadStatus false
  have hworst : ConnLimits.default.worstCase = 720000 := rfl
  rw [htime] at hthird
  change 599999 + 124975 ≤ _ at hthird
  unfold serveConnection at hle
  rw [ConnBudget.serveTurns, hfirst] at hle
  simp only [if_true, ConnBudget.serveTurns, hsecond] at hle
  split_ifs at hle <;> omega

end Tethra.Gateway
