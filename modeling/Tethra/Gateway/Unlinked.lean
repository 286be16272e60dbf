import Tethra.Gateway.WriterRun

set_option autoImplicit false

/-! # Requests without a link (`gateway/src/forward.rs`, `gateway/src/writer.rs`)

For a request without a link the forwarding thread bumps a counter, and at its end it hands over the record of
the exchange, for which the writer bumps the same counter. So each is counted as often as these two arrive
(`unlinked_accounted`), and the total is the number of requests only where as many of them were lost
(`unlinked_total`). -/

namespace Tethra.Gateway

open Runs

/-- `counters::UNLINKED_REQUESTS`. -/
def unlinkedRequests : Str := "unlinked_requests".toList

/-- For this message the writer bumps the counter: `process_batch` for a bump, `persist_with` for a record. -/
def Message.countsUnlinked : Message → Bool
  | .counter _ name => name = unlinkedRequests
  | .record r => r.projectId.isNone
  | _ => false

def unlinked (ms : List Message) : Nat := ms.countP Message.countsUnlinked

/-- By how much a batch raises the persisted total. -/
def persistedUnlinked (env : BatchEnv) (batch : List Message) : Nat :=
  if env.opens then
    ((batch.filterMap Message.asCounter).zipIdx.countP fun c => env.bumps c.2 && c.1.2 = unlinkedRequests) +
      (batch.filterMap Message.asRecord).zipIdx.countP fun r => env.commits r.2 && r.1.projectId.isNone
  else 0

/-- The bumps of a batch that the database does not take. -/
def failedUnlinked (env : BatchEnv) (batch : List Message) : Nat :=
  if env.opens then
    ((batch.filterMap Message.asCounter).zipIdx.countP fun c => !env.bumps c.2 && c.1.2 = unlinkedRequests) +
      (batch.filterMap Message.asRecord).zipIdx.countP fun r => !env.commits r.2 && r.1.projectId.isNone
  else unlinked batch

/-- The writer, and what the forwarding threads have done about requests without a link. -/
structure Forwarding where
  writer : WriterSystem
  /-- `recording_paused`. -/
  paused : Bool
  forwarded : Nat
  /-- Those of them whose record has not been emitted. -/
  inside : Nat
  persisted : Nat
  /-- Messages that were refused or held back, and bumps that failed. -/
  lost : Nat

def Forwarding.start : Forwarding := ⟨.start, false, 0, 0, 0, 0⟩

/-- In the channel or with the writer. -/
def WriterSystem.waiting (w : WriterSystem) : Nat := unlinked w.queue + unlinked w.phase.held

def Forwarding.processed (s : Forwarding) (env : BatchEnv) (batch : List Message) (phase : WriterPhase) :
    Forwarding :=
  { s with
    writer := { s.writer with thread := processBatch env batch s.writer.thread, phase := phase }
    persisted := s.persisted + persistedUnlinked env batch
    lost := s.lost + failedUnlinked env batch }

inductive ForwardStep : Forwarding → Forwarding → Prop where
  -- `gw.sink.count` for a request without a link
  | countAccepted {s : Forwarding} (route : Str) (h : s.writer.Accepts) :
      ForwardStep s { s with
        writer := s.writer.acceptBump route unlinkedRequests
        forwarded := s.forwarded + 1
        inside := s.inside + 1 }
  | countRefused {s : Forwarding} (h : ¬s.writer.Accepts) :
      ForwardStep s { s with
        writer := s.writer.refuseBump
        forwarded := s.forwarded + 1
        inside := s.inside + 1
        lost := s.lost + 1 }
  -- `gw.emit` at the end of such a request
  | emitAccepted {s : Forwarding} {n : Nat} (r : ExchangeRecord) (hr : r.projectId = none)
      (hin : s.inside = n + 1) (hpaused : s.paused = false) (h : s.writer.Accepts) :
      ForwardStep s { s with writer := s.writer.acceptRecord r, inside := n }
  | emitRefused {s : Forwarding} {n : Nat} (hin : s.inside = n + 1) (hpaused : s.paused = false)
      (h : ¬s.writer.Accepts) :
      ForwardStep s { s with writer := s.writer.refuseRecord, inside := n, lost := s.lost + 1 }
  | emitPaused {s : Forwarding} {n : Nat} (hin : s.inside = n + 1) (hpaused : s.paused = true) :
      ForwardStep s { s with inside := n, lost := s.lost + 1 }
  | pause (s : Forwarding) (paused : Bool) : ForwardStep s { s with paused := paused }
  -- the writer processes a batch
  | process {s : Forwarding} {batch : List Message} (env : BatchEnv)
      (h : s.writer.phase = .collecting batch)
      (hdone : s.writer.queue = [] ∨ batchMax ≤ batch.length) :
      ForwardStep s (s.processed env batch (if s.writer.stopping then .draining [] else .head))
  | finish {s : Forwarding} {tail : List Message} (env : BatchEnv)
      (h : s.writer.phase = .draining tail)
      (hdone : s.writer.queue = [] ∨ batchMax * 4 ≤ tail.length) :
      ForwardStep s (s.processed env tail .finishing)
  -- everything else: linked requests, other counters, and the writer taking messages out
  | other {s : Forwarding} {w : WriterSystem} (h : WriterStep s.writer w)
      (hkeeps : w.waiting = s.writer.waiting) : ForwardStep s { s with writer := w }

/-! ## The accounts -/

section

variable {α : Type} {p q : α → Bool} {l : List α}

theorem countP_and_not : l.countP (fun a => p a && q a) + l.countP (fun a => !p a && q a) = l.countP q := by
  induction l with
  | nil => rfl
  | cons a l ih =>
      simp only [List.countP_cons]
      cases p a <;> cases q a <;> simp <;> omega

theorem countP_zipIdx : l.zipIdx.countP (fun a => p a.1) = l.countP p := by
  conv_rhs => rw [← List.zipIdx_map_fst 0 l, List.countP_map]
  rfl

end

theorem unlinked_cons (m : Message) (ms : List Message) :
    unlinked (m :: ms) = unlinked ms + if m.countsUnlinked then 1 else 0 := List.countP_cons

@[simp] theorem unlinked_nil : unlinked [] = 0 := rfl

@[simp] theorem unlinked_append (a b : List Message) : unlinked (a ++ b) = unlinked a + unlinked b :=
  List.countP_append

/-- The messages that count are bumps and records. -/
theorem unlinked_eq (batch : List Message) :
    unlinked batch = (batch.filterMap Message.asCounter).countP (fun c => c.2 = unlinkedRequests) +
      (batch.filterMap Message.asRecord).countP fun r => r.projectId.isNone := by
  induction batch with
  | nil => rfl
  | cons m batch ih =>
      rw [unlinked_cons, ih]
      cases m with
      | record r =>
          have hcounts : (Message.record r).countsUnlinked = r.projectId.isNone := rfl
          rw [hcounts]
          simp only [List.filterMap_cons, Message.asCounter, Message.asRecord, List.countP_cons]
          omega
      | counter route name =>
          have hcounts : (Message.counter route name).countsUnlinked = decide (name = unlinkedRequests) :=
            rfl
          rw [hcounts]
          simp only [List.filterMap_cons, Message.asCounter, Message.asRecord, List.countP_cons]
          omega
      | matcher m => simp [List.filterMap_cons, Message.asCounter, Message.asRecord, Message.countsUnlinked]
      | flush => simp [List.filterMap_cons, Message.asCounter, Message.asRecord, Message.countsUnlinked]

theorem persisted_add_failed (env : BatchEnv) (batch : List Message) :
    persistedUnlinked env batch + failedUnlinked env batch = unlinked batch := by
  unfold persistedUnlinked failedUnlinked
  split_ifs with hopens
  · have hbumps := countP_and_not (l := (batch.filterMap Message.asCounter).zipIdx)
      (p := fun c => env.bumps c.2) (q := fun c => decide (c.1.2 = unlinkedRequests))
    have hrecords := countP_and_not (l := (batch.filterMap Message.asRecord).zipIdx)
      (p := fun r => env.commits r.2) (q := fun r => r.1.projectId.isNone)
    rw [countP_zipIdx (p := fun c : Str × Str => decide (c.2 = unlinkedRequests))] at hbumps
    rw [countP_zipIdx (p := fun r : ExchangeRecord => r.projectId.isNone)] at hrecords
    rw [unlinked_eq]
    omega
  · omega

/-- Two messages for each request: persisted, lost, on their way, or still to come. -/
def Forwarding.Accounted (s : Forwarding) : Prop :=
  2 * s.forwarded = s.persisted + s.lost + s.writer.waiting + s.inside

theorem Forwarding.Accounted.processed {s : Forwarding} (hs : s.Accounted) (env : BatchEnv)
    {batch : List Message} (phase : WriterPhase) (hheld : s.writer.phase.held = batch)
    (hphase : phase.held = []) : (s.processed env batch phase).Accounted := by
  have hbatch := persisted_add_failed env batch
  unfold Accounted WriterSystem.waiting Forwarding.processed at *
  simp only [hphase, unlinked_nil]
  rw [hheld] at hs
  omega

theorem accounted_forwardStep {s t : Forwarding} (hs : s.Accounted) (h : ForwardStep s t) :
    t.Accounted := by
  cases h with
  | countAccepted route h =>
      have hone : unlinked [.counter route unlinkedRequests] = 1 := by
        simp [unlinked_cons, Message.countsUnlinked]
      simp only [Forwarding.Accounted, WriterSystem.waiting, WriterSystem.acceptBump, WriterSystem.push,
        unlinked_append, hone] at hs ⊢
      omega
  | countRefused h =>
      simp only [Forwarding.Accounted, WriterSystem.waiting, WriterSystem.refuseBump] at hs ⊢
      omega
  | emitAccepted r hr hin _ h =>
      have hone : unlinked [.record r] = 1 := by
        simp [unlinked_cons, Message.countsUnlinked, hr]
      simp only [Forwarding.Accounted, WriterSystem.waiting, WriterSystem.acceptRecord, WriterSystem.push,
        unlinked_append, hone] at hs ⊢
      omega
  | emitRefused hin _ h =>
      simp only [Forwarding.Accounted, WriterSystem.waiting, WriterSystem.refuseRecord] at hs ⊢
      omega
  | emitPaused hin _ =>
      simp only [Forwarding.Accounted] at hs ⊢
      omega
  | pause paused => exact hs
  | process env h hdone =>
      exact hs.processed env _ (by rw [h]; rfl) (by split_ifs <;> rfl)
  | finish env h hdone => exact hs.processed env _ (by rw [h]; rfl) rfl
  | other h hkeeps =>
      simp only [Forwarding.Accounted, hkeeps] at hs ⊢
      exact hs

theorem forwarding_start : Forwarding.start.Accounted := rfl

/-- However the forwarding threads and the writer interleave. -/
theorem unlinked_accounted {s : Forwarding} (h : Steps ForwardStep .start s) : s.Accounted :=
  Steps.invariant (I := Forwarding.Accounted) (fun _ _ hs hstep => accounted_forwardStep hs hstep)
    forwarding_start h

def bareRecord : ExchangeRecord :=
  ⟨"2026-01-01T00:00:00Z".toList, "openai".toList, none, none, .noCredentialPresent⟩

/-- One request, whose messages are processed in one batch. -/
theorem one_request :
    ∃ s, Steps ForwardStep .start s ∧ s.inside = 0 ∧ s.writer.waiting = 0 ∧ s.lost = 0 ∧ s.forwarded = 1 ∧
      s.persisted = 2 := by
  have counted : Steps ForwardStep .start _ :=
    .single (.countAccepted "openai".toList ⟨nofun, by decide⟩)
  have emitted := counted.tail (.emitAccepted bareRecord rfl rfl rfl ⟨nofun, by decide⟩)
  have received := (emitted.tail (.other (.wait rfl rfl) rfl)).tail (.other (.receive rfl rfl) rfl)
  have collected := received.tail (.other (.collect rfl (by decide) rfl) rfl)
  have processed := collected.tail (.process .allOk rfl (.inl rfl))
  exact ⟨_, processed, rfl, rfl, by decide, rfl, by decide⟩

/-- When no request is under way and no message on its way, the persisted total is the number of requests
    exactly when as many of their messages were lost. -/
theorem unlinked_total {s : Forwarding} (h : Steps ForwardStep .start s) (hinside : s.inside = 0)
    (hwaiting : s.writer.waiting = 0) : s.persisted = s.forwarded ↔ s.lost = s.forwarded := by
  have hs := unlinked_accounted h
  unfold Forwarding.Accounted at hs
  omega

theorem unlinked_total_one :
    ∃ s : Forwarding, s.forwarded = 1 ∧ (s.persisted = s.forwarded ↔ s.lost = s.forwarded) := by
  obtain ⟨s, hrun, hinside, hwaiting, -, hone, -⟩ := one_request
  exact ⟨s, hone, unlinked_total hrun hinside hwaiting⟩

/-- Nothing is lost, and the request is counted twice. -/
theorem unlinked_counted_twice :
    ∃ s, Steps ForwardStep .start s ∧ s.inside = 0 ∧ s.writer.waiting = 0 ∧ s.lost = 0 ∧
      s.persisted ≠ s.forwarded := by
  obtain ⟨s, hrun, hinside, hwaiting, hlost, hone, htwo⟩ := one_request
  exact ⟨s, hrun, hinside, hwaiting, hlost, by omega⟩

end Tethra.Gateway
