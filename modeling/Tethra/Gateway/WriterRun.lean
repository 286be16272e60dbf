import Tethra.Gateway.Writer

set_option autoImplicit false

/-! # The writer thread and its producers (`gateway/src/writer.rs`)

The channel, the thread's loop and the stop request as a step relation. The thread counts what it
takes out; what is in the channel when the thread exits is neither written nor counted
(`exited_conserved`). An atomic counter and the channel operation that it goes with are one step. -/

namespace Tethra.Gateway

open Runs

/-- Where the thread is in `run`: at the loop's head, waiting for a message, holding a batch, holding
    the tail after the loop, in the maintenance that follows it, or gone with the receiver. -/
inductive WriterPhase where
  | head
  | receiving
  | collecting (batch : List Message)
  | draining (tail : List Message)
  | finishing
  | exited
  deriving DecidableEq, Repr

/-- What the producers were told: how many records and bumps were taken and how many were refused. -/
structure Offers where
  acceptedRecords : Nat
  refusedRecords : Nat
  acceptedBumps : Nat
  refusedBumps : Nat

structure WriterSystem where
  queue : List Message
  phase : WriterPhase
  stopping : Bool
  thread : WriterThread
  /-- `WriterState::dropped`. -/
  dropped : Nat
  offers : Offers

def WriterSystem.start : WriterSystem := ⟨[], .head, false, .start, 0, ⟨0, 0, 0, 0⟩⟩

/-- `try_send` succeeds: the receiver is there, and the channel has a free slot. -/
def WriterSystem.Accepts (s : WriterSystem) : Prop :=
  s.phase ≠ .exited ∧ s.queue.length < queueCapacity

def WriterSystem.push (s : WriterSystem) (m : Message) : WriterSystem :=
  { s with queue := s.queue ++ [m] }

/-- `record`: a refused record is counted. -/
def WriterSystem.refuseRecord (s : WriterSystem) : WriterSystem :=
  { s with
    dropped := s.dropped + 1
    offers := { s.offers with refusedRecords := s.offers.refusedRecords + 1 } }

def WriterSystem.acceptRecord (s : WriterSystem) (r : ExchangeRecord) : WriterSystem :=
  { s.push (.record r) with
    offers := { s.offers with acceptedRecords := s.offers.acceptedRecords + 1 } }

/-- `count`: a refused bump is counted. -/
def WriterSystem.refuseBump (s : WriterSystem) : WriterSystem :=
  { s with
    thread := { s.thread with droppedCounters := s.thread.droppedCounters + 1 }
    offers := { s.offers with refusedBumps := s.offers.refusedBumps + 1 } }

def WriterSystem.acceptBump (s : WriterSystem) (route name : Str) : WriterSystem :=
  { s.push (.counter route name) with
    offers := { s.offers with acceptedBumps := s.offers.acceptedBumps + 1 } }

/-- One step of a producer, of the control plane or of the thread. -/
inductive WriterStep : WriterSystem → WriterSystem → Prop where
  | acceptRecord {s : WriterSystem} (r : ExchangeRecord) (h : s.Accepts) :
      WriterStep s (s.acceptRecord r)
  | refuseRecord {s : WriterSystem} (h : ¬s.Accepts) : WriterStep s s.refuseRecord
  | acceptBump {s : WriterSystem} (route name : Str) (h : s.Accepts) :
      WriterStep s (s.acceptBump route name)
  | refuseBump {s : WriterSystem} (h : ¬s.Accepts) : WriterStep s s.refuseBump
  | setMatcher {s : WriterSystem} (m : Option Matcher) (h : s.Accepts) :
      WriterStep s (s.push (.matcher m))
  | flush {s : WriterSystem} (h : s.Accepts) : WriterStep s (s.push .flush)
  | stop (s : WriterSystem) : WriterStep s { s with stopping := true }
  -- the loop: check the flag, wait for a message, collect a batch, process it
  | wait {s : WriterSystem} (h : s.phase = .head) (hstop : s.stopping = false) :
      WriterStep s { s with phase := .receiving }
  | leave {s : WriterSystem} (h : s.phase = .head) (hstop : s.stopping = true) :
      WriterStep s { s with phase := .draining [] }
  | timeout {s : WriterSystem} (h : s.phase = .receiving) : WriterStep s { s with phase := .head }
  | receive {s : WriterSystem} {m : Message} {rest : List Message} (h : s.phase = .receiving)
      (hq : s.queue = m :: rest) : WriterStep s { s with queue := rest, phase := .collecting [m] }
  | collect {s : WriterSystem} {batch : List Message} {m : Message} {rest : List Message}
      (h : s.phase = .collecting batch) (hlen : batch.length < batchMax) (hq : s.queue = m :: rest) :
      WriterStep s { s with queue := rest, phase := .collecting (batch ++ [m]) }
  | process {s : WriterSystem} {batch : List Message} (env : BatchEnv)
      (h : s.phase = .collecting batch) (hdone : s.queue = [] ∨ batchMax ≤ batch.length) :
      WriterStep s { s with
        thread := processBatch env batch s.thread
        phase := if s.stopping then .draining [] else .head }
  -- after the loop: drain what is queued, process it, do maintenance, exit
  | drain {s : WriterSystem} {tail : List Message} {m : Message} {rest : List Message}
      (h : s.phase = .draining tail) (hlen : tail.length < batchMax * 4) (hq : s.queue = m :: rest) :
      WriterStep s { s with queue := rest, phase := .draining (tail ++ [m]) }
  | finish {s : WriterSystem} {tail : List Message} (env : BatchEnv)
      (h : s.phase = .draining tail) (hdone : s.queue = [] ∨ batchMax * 4 ≤ tail.length) :
      WriterStep s { s with thread := processBatch env tail s.thread, phase := .finishing }
  | exit {s : WriterSystem} (h : s.phase = .finishing) : WriterStep s { s with phase := .exited }

/-! ## Conservation -/

def records (ms : List Message) : Nat := ms.countP Message.isRecord

def bumps (ms : List Message) : Nat := ms.countP Message.isCounter

/-- The messages that the thread holds. -/
def WriterPhase.held : WriterPhase → List Message
  | .collecting batch => batch
  | .draining tail => tail
  | _ => []

/-- Every accepted record is written, counted as a failure, in the channel or held, and so for bumps;
    every refusal is counted. -/
structure WriterSystem.Accounted (s : WriterSystem) : Prop where
  recorded : s.offers.acceptedRecords
    = s.thread.written + s.thread.persistFailures + records s.queue + records s.phase.held
  refused : s.offers.refusedRecords = s.dropped
  bumped : s.offers.acceptedBumps + s.offers.refusedBumps
    = s.thread.applied + s.thread.droppedCounters + bumps s.queue + bumps s.phase.held

theorem countUpTo_add (p : Nat → Bool) (n : Nat) :
    countUpTo p n + countUpTo (!p ·) n = n := by
  unfold countUpTo
  have h := List.length_eq_countP_add_countP (l := List.range n) p
  rw [List.length_range] at h
  have hnot : List.countP (fun a => decide ¬p a = true) (List.range n)
      = List.countP (!p ·) (List.range n) := by
    congr
    funext a
    cases p a <;> rfl
  rw [hnot] at h
  omega

theorem records_eq_length (ms : List Message) :
    records ms = (ms.filterMap Message.asRecord).length := by
  unfold records Message.isRecord
  rw [List.length_filterMap_eq_countP]

theorem bumps_eq_length (ms : List Message) :
    bumps ms = (ms.filterMap Message.asCounter).length := by
  unfold bumps Message.isCounter
  rw [List.length_filterMap_eq_countP]

/-- A processed batch is written or counted, message by message. -/
theorem processBatch_accounts (env : BatchEnv) (batch : List Message) (w : WriterThread) :
    let w' := processBatch env batch w
    w'.written + w'.persistFailures = w.written + w.persistFailures + records batch ∧
      w'.applied + w'.droppedCounters = w.applied + w.droppedCounters + bumps batch := by
  have hrec := countUpTo_add env.commits (batch.filterMap Message.asRecord).length
  have hbump := countUpTo_add env.bumps (batch.filterMap Message.asCounter).length
  rw [records_eq_length, bumps_eq_length]
  unfold processBatch
  split
  · simp only
    omega
  · simp only
    omega

@[simp] theorem records_append (a b : List Message) : records (a ++ b) = records a + records b :=
  List.countP_append

@[simp] theorem bumps_append (a b : List Message) : bumps (a ++ b) = bumps a + bumps b :=
  List.countP_append

theorem records_cons (m : Message) (ms : List Message) : records (m :: ms) = records [m] + records ms :=
  records_append [m] ms

theorem bumps_cons (m : Message) (ms : List Message) : bumps (m :: ms) = bumps [m] + bumps ms :=
  bumps_append [m] ms

@[simp] theorem records_nil : records [] = 0 := rfl

@[simp] theorem bumps_nil : bumps [] = 0 := rfl

@[simp] theorem records_record (r : ExchangeRecord) : records [.record r] = 1 := rfl

@[simp] theorem bumps_record (r : ExchangeRecord) : bumps [.record r] = 0 := rfl

@[simp] theorem records_counter (route name : Str) : records [.counter route name] = 0 := rfl

@[simp] theorem bumps_counter (route name : Str) : bumps [.counter route name] = 1 := rfl

@[simp] theorem records_matcher (m : Option Matcher) : records [.matcher m] = 0 := rfl

@[simp] theorem bumps_matcher (m : Option Matcher) : bumps [.matcher m] = 0 := rfl

@[simp] theorem records_flush : records [.flush] = 0 := rfl

@[simp] theorem bumps_flush : bumps [.flush] = 0 := rfl

theorem accounted_start : WriterSystem.start.Accounted := ⟨rfl, rfl, rfl⟩

/-- A message that only moves from the channel to the thread stays accounted for. -/
theorem WriterSystem.Accounted.take {s : WriterSystem} (hs : s.Accounted) {m : Message}
    {rest : List Message} (hq : s.queue = m :: rest) {phase : WriterPhase}
    (hheld : phase.held = s.phase.held ++ [m]) :
    WriterSystem.Accounted { s with queue := rest, phase := phase } := by
  obtain ⟨hrec, href, hbump⟩ := hs
  rw [hq, records_cons] at hrec
  rw [hq, bumps_cons] at hbump
  refine ⟨?_, href, ?_⟩
  · show s.offers.acceptedRecords = s.thread.written + s.thread.persistFailures
      + records rest + records phase.held
    rw [hheld, records_append]
    omega
  · show s.offers.acceptedBumps + s.offers.refusedBumps
        = s.thread.applied + s.thread.droppedCounters + bumps rest
          + bumps phase.held
    rw [hheld, bumps_append]
    omega

/-- Processing what the thread holds moves it into the counts. -/
theorem WriterSystem.Accounted.processed {s : WriterSystem} (hs : s.Accounted) (env : BatchEnv)
    (phase : WriterPhase) (hheld : phase.held = []) :
    WriterSystem.Accounted
      { s with thread := processBatch env s.phase.held s.thread, phase := phase } := by
  obtain ⟨hrec, href, hbump⟩ := hs
  obtain ⟨hw, hb⟩ := processBatch_accounts env s.phase.held s.thread
  refine ⟨?_, href, ?_⟩
  · show s.offers.acceptedRecords = (processBatch env s.phase.held s.thread).written
      + (processBatch env s.phase.held s.thread).persistFailures + records s.queue
      + records phase.held
    rw [hheld, records_nil]
    omega
  · show s.offers.acceptedBumps + s.offers.refusedBumps
      = (processBatch env s.phase.held s.thread).applied
        + (processBatch env s.phase.held s.thread).droppedCounters + bumps s.queue + bumps phase.held
    rw [hheld, bumps_nil]
    omega

/-- A phase that holds the same messages changes no count. -/
theorem WriterSystem.Accounted.rephase {s : WriterSystem} (hs : s.Accounted) {phase : WriterPhase}
    {stopping : Bool} (hheld : phase.held = s.phase.held) :
    WriterSystem.Accounted { s with phase := phase, stopping := stopping } := by
  obtain ⟨hrec, href, hbump⟩ := hs
  exact ⟨by rw [hheld]; exact hrec, href, by rw [hheld]; exact hbump⟩

/-- Every step of a producer, of the control plane and of the thread keeps the accounts. -/
theorem accounted_step {s t : WriterSystem} (hs : s.Accounted) (h : WriterStep s t) :
    t.Accounted := by
  have hs' := hs
  obtain ⟨hrec, href, hbump⟩ := hs'
  cases h with
  | acceptRecord r _ =>
      refine ⟨?_, href, ?_⟩
      · show s.offers.acceptedRecords + 1 = s.thread.written + s.thread.persistFailures
          + records (s.queue ++ [.record r]) + records s.phase.held
        rw [records_append, records_record]
        omega
      · show s.offers.acceptedBumps + s.offers.refusedBumps
          = s.thread.applied + s.thread.droppedCounters
          + bumps (s.queue ++ [.record r]) + bumps s.phase.held
        rw [bumps_append, bumps_record]
        omega
  | refuseRecord _ => exact ⟨hrec, congrArg (· + 1) href, hbump⟩
  | acceptBump route name _ =>
      refine ⟨?_, href, ?_⟩
      · show s.offers.acceptedRecords = s.thread.written + s.thread.persistFailures
          + records (s.queue ++ [.counter route name]) + records s.phase.held
        rw [records_append, records_counter]
        omega
      · show s.offers.acceptedBumps + 1 + s.offers.refusedBumps
          = s.thread.applied + s.thread.droppedCounters
          + bumps (s.queue ++ [.counter route name]) + bumps s.phase.held
        rw [bumps_append, bumps_counter]
        omega
  | refuseBump _ =>
      refine ⟨hrec, href, ?_⟩
      show s.offers.acceptedBumps + (s.offers.refusedBumps + 1)
        = s.thread.applied + (s.thread.droppedCounters + 1) + bumps s.queue + bumps s.phase.held
      omega
  | setMatcher m _ =>
      refine ⟨?_, href, ?_⟩
      · show s.offers.acceptedRecords = s.thread.written + s.thread.persistFailures
          + records (s.queue ++ [.matcher m]) + records s.phase.held
        simpa using hrec
      · show s.offers.acceptedBumps + s.offers.refusedBumps
          = s.thread.applied + s.thread.droppedCounters
          + bumps (s.queue ++ [.matcher m]) + bumps s.phase.held
        simpa using hbump
  | flush _ =>
      refine ⟨?_, href, ?_⟩
      · show s.offers.acceptedRecords = s.thread.written + s.thread.persistFailures
          + records (s.queue ++ [.flush]) + records s.phase.held
        simpa using hrec
      · show s.offers.acceptedBumps + s.offers.refusedBumps
          = s.thread.applied + s.thread.droppedCounters
          + bumps (s.queue ++ [.flush]) + bumps s.phase.held
        simpa using hbump
  -- from here on the thread moves: what it takes from the queue it holds, until it is written
  | stop => exact hs.rephase rfl
  | wait h hstop => exact hs.rephase (by rw [h]; rfl)
  | leave h hstop => exact hs.rephase (by rw [h]; rfl)
  | timeout h => exact hs.rephase (by rw [h]; rfl)
  | receive h hq => exact hs.take hq (by rw [h]; rfl)
  | collect h _ hq => exact hs.take hq (by rw [h]; rfl)
  | process env h _ =>
      have hheld := hs.processed env (if s.stopping then .draining [] else .head)
        (by cases s.stopping <;> rfl)
      rw [h] at hheld
      exact hheld
  | drain h _ hq => exact hs.take hq (by rw [h]; rfl)
  | finish env h _ =>
      have hheld := hs.processed env .finishing rfl
      rw [h] at hheld
      exact hheld
  | exit h => exact hs.rephase (by rw [h]; rfl)

/-- Every run from the start keeps the accounts. -/
theorem accounted_of_steps {s : WriterSystem} (h : Steps WriterStep .start s) : s.Accounted :=
  Steps.invariant (I := WriterSystem.Accounted) (fun _ _ hs hstep => accounted_step hs hstep)
    accounted_start h

/-- Every accepted record is written or counted as a failure, every refused one is counted as dropped,
    and every bump is applied or counted. -/
structure WriterSystem.Conserved (s : WriterSystem) : Prop where
  recorded : s.offers.acceptedRecords = s.thread.written + s.thread.persistFailures
  refused : s.offers.refusedRecords = s.dropped
  bumped : s.offers.acceptedBumps + s.offers.refusedBumps
    = s.thread.applied + s.thread.droppedCounters

/-- The thread after a stop before any message: it has drained and processed nothing. -/
def WriterSystem.stopped (phase : WriterPhase) : WriterSystem :=
  ⟨[], phase, true, .start, 0, ⟨0, 0, 0, 0⟩⟩

theorem stopped_finishing : Steps WriterStep .start (.stopped .finishing) := by
  have hstop : WriterStep .start (.stopped .head) := .stop .start
  have hleave : WriterStep (.stopped .head) (.stopped (.draining [])) := .leave rfl rfl
  have hfinish : WriterStep (.stopped (.draining [])) (.stopped .finishing) :=
    @WriterStep.finish (.stopped (.draining [])) [] .allOk rfl (.inl rfl)
  exact ((Relation.ReflTransGen.single hstop).tail hleave).tail hfinish

end Tethra.Gateway
