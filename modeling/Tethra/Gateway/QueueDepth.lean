import Tethra.Gateway.WriterRun

set_option autoImplicit false

/-! # The queue depth (`gateway/src/writer.rs`)

A producer sends its message and then adds one to `in_flight`; the thread takes the messages of a
batch off again when it has processed them. `WriterStep` has the send and the addition in one step;
here they are two, and the producers between the two are counted (`pending`). The subtraction is the
end of `process_batch`: until then the messages of the batch are not processed. -/

namespace Tethra.Gateway

open Runs

/-- The messages that the depth counts: records and bumps. -/
def counted (ms : List Message) : Nat := records ms + bumps ms

@[simp] theorem counted_append (a b : List Message) : counted (a ++ b) = counted a + counted b := by
  simp only [counted, records_append, bumps_append]
  omega

/-- The messages that were enqueued and are not yet processed. -/
def WriterSystem.unprocessed (s : WriterSystem) : Nat := counted s.queue + counted s.phase.held

/-- The writer with the depth that it reports. -/
structure DepthSystem where
  writer : WriterSystem
  /-- The messages that were sent and whose producer has not added them yet. -/
  pending : Nat
  inFlight : UInt64

def DepthSystem.start : DepthSystem := ⟨.start, 0, 0⟩

/-- One atomic step of a producer or of the thread. -/
inductive DepthStep : DepthSystem → DepthSystem → Prop where
  | sendRecord {s : DepthSystem} (r : ExchangeRecord) (h : s.writer.Accepts) :
      DepthStep s { s with writer := s.writer.acceptRecord r, pending := s.pending + 1 }
  | sendBump {s : DepthSystem} (route name : Str) (h : s.writer.Accepts) :
      DepthStep s { s with writer := s.writer.acceptBump route name, pending := s.pending + 1 }
  -- `fetch_add(1)`, of any producer that has sent
  | add {s : DepthSystem} (h : 0 < s.pending) :
      DepthStep s { s with pending := s.pending - 1, inFlight := s.inFlight + 1 }
  -- `process_batch`, with `fetch_sub(drained)`
  | process {s : DepthSystem} {batch : List Message} (env : BatchEnv)
      (h : s.writer.phase = .collecting batch)
      (hdone : s.writer.queue = [] ∨ batchMax ≤ batch.length) :
      DepthStep s { s with
        writer := { s.writer with
          thread := processBatch env batch s.writer.thread
          phase := if s.writer.stopping then .draining [] else .head }
        inFlight := s.inFlight - UInt64.ofNat (counted batch) }
  | finish {s : DepthSystem} {tail : List Message} (env : BatchEnv)
      (h : s.writer.phase = .draining tail)
      (hdone : s.writer.queue = [] ∨ batchMax * 4 ≤ tail.length) :
      DepthStep s { s with
        writer := { s.writer with
          thread := processBatch env tail s.writer.thread
          phase := .finishing }
        inFlight := s.inFlight - UInt64.ofNat (counted tail) }
  -- every other step: it neither enqueues a counted message nor processes one
  | other {s : DepthSystem} {w : WriterSystem} (h : WriterStep s.writer w)
      (hsame : w.unprocessed = s.writer.unprocessed) : DepthStep s { s with writer := w }

/-- The writer of a step takes a step of its own, or the counter alone moves. -/
theorem DepthStep.writer_step {s t : DepthSystem} (h : DepthStep s t) :
    t.writer = s.writer ∨ WriterStep s.writer t.writer := by
  cases h with
  | sendRecord r h => exact Or.inr (.acceptRecord r h)
  | sendBump route name h => exact Or.inr (.acceptBump route name h)
  | add _ => exact Or.inl rfl
  | process env h hdone => exact Or.inr (.process env h hdone)
  | finish env h hdone => exact Or.inr (.finish env h hdone)
  | other h _ => exact Or.inr h

/-- The runs with the counter are runs of the writer. -/
theorem writer_steps {s t : DepthSystem} (h : Steps DepthStep s t) :
    Steps WriterStep s.writer t.writer := by
  induction h with
  | refl => exact .refl
  | tail _ hlast ih =>
      rcases hlast.writer_step with heq | hstep
      · rw [heq]
        exact ih
      · exact ih.tail hstep

/-! ## What fits in the channel and in a batch -/

theorem counted_le_length (ms : List Message) : counted ms ≤ ms.length := by
  induction ms with
  | nil => exact Nat.le_refl 0
  | cons m ms ih =>
      have hone : counted [m] ≤ 1 := by cases m <;> simp [counted]
      have hsum : counted (m :: ms) = counted [m] + counted ms := counted_append [m] ms
      rw [hsum, List.length_cons]
      omega

structure WriterSystem.Bounded (s : WriterSystem) : Prop where
  queue : s.queue.length ≤ queueCapacity
  held : s.phase.held.length ≤ batchMax * 4

theorem bounded_step {s t : WriterSystem} (hs : s.Bounded) (h : WriterStep s t) : t.Bounded := by
  obtain ⟨hqueue, hheld⟩ := hs
  have hpush : ∀ m, s.Accepts → (s.queue ++ [m]).length ≤ queueCapacity := by
    intro m haccepts
    rw [List.length_append, List.length_singleton]
    exact haccepts.2
  cases h with
  | acceptRecord r haccepts => exact ⟨hpush _ haccepts, hheld⟩
  | refuseRecord _ => exact ⟨hqueue, hheld⟩
  | acceptBump route name haccepts => exact ⟨hpush _ haccepts, hheld⟩
  | refuseBump _ => exact ⟨hqueue, hheld⟩
  | setMatcher m haccepts => exact ⟨hpush _ haccepts, hheld⟩
  | flush haccepts => exact ⟨hpush _ haccepts, hheld⟩
  | stop => exact ⟨hqueue, hheld⟩
  | wait _ _ => exact ⟨hqueue, Nat.zero_le _⟩
  | leave _ _ => exact ⟨hqueue, Nat.zero_le _⟩
  | timeout _ => exact ⟨hqueue, Nat.zero_le _⟩
  | exit _ => exact ⟨hqueue, Nat.zero_le _⟩
  | finish env _ _ => exact ⟨hqueue, Nat.zero_le _⟩
  | process env _ _ =>
      refine ⟨hqueue, ?_⟩
      show (WriterPhase.held (if s.stopping then .draining [] else .head)).length ≤ batchMax * 4
      split <;> exact Nat.zero_le _
  -- a message moves from the channel to the thread
  | receive _ hq =>
      rw [hq, List.length_cons] at hqueue
      exact ⟨Nat.le_of_succ_le hqueue, show 1 ≤ batchMax * 4 by decide⟩
  | @collect batch m rest _ hlen hq =>
      rw [hq, List.length_cons] at hqueue
      refine ⟨Nat.le_of_succ_le hqueue, ?_⟩
      show (batch ++ [m]).length ≤ batchMax * 4
      rw [List.length_append, List.length_singleton]
      omega
  | @drain tail m rest _ hlen hq =>
      rw [hq, List.length_cons] at hqueue
      refine ⟨Nat.le_of_succ_le hqueue, ?_⟩
      show (tail ++ [m]).length ≤ batchMax * 4
      rw [List.length_append, List.length_singleton]
      omega

theorem WriterSystem.Bounded.unprocessed_lt {s : WriterSystem} (hs : s.Bounded) :
    s.unprocessed < 2 ^ 64 - 1 := by
  have hqueue := (counted_le_length s.queue).trans hs.queue
  have hheld := (counted_le_length s.phase.held).trans hs.held
  unfold queueCapacity at hqueue
  unfold batchMax at hheld
  unfold WriterSystem.unprocessed
  omega

/-! ## The counter -/

/-- What a step does to the messages and to the counter. -/
inductive DepthEffect (s t : DepthSystem) : Prop where
  | sent (hpending : t.pending = s.pending + 1) (hcounter : t.inFlight = s.inFlight)
      (hleft : t.writer.unprocessed = s.writer.unprocessed + 1)
  | added (hpos : 0 < s.pending) (hpending : t.pending = s.pending - 1)
      (hcounter : t.inFlight = s.inFlight + 1) (hleft : t.writer.unprocessed = s.writer.unprocessed)
  | processed (n : Nat) (hpending : t.pending = s.pending)
      (hcounter : t.inFlight = s.inFlight - UInt64.ofNat n)
      (hbefore : s.writer.unprocessed = counted s.writer.queue + n)
      (hleft : t.writer.unprocessed = counted s.writer.queue)
  | quiet (hpending : t.pending = s.pending) (hcounter : t.inFlight = s.inFlight)
      (hleft : t.writer.unprocessed = s.writer.unprocessed)

theorem DepthStep.effect {s t : DepthSystem} (h : DepthStep s t) : DepthEffect s t := by
  cases h with
  | sendRecord r _ =>
      refine .sent rfl rfl ?_
      show counted (s.writer.queue ++ [.record r]) + _ = counted s.writer.queue + _ + 1
      rw [counted_append]
      exact Nat.add_right_comm _ 1 _
  | sendBump route name _ =>
      refine .sent rfl rfl ?_
      show counted (s.writer.queue ++ [.counter route name]) + _ = counted s.writer.queue + _ + 1
      rw [counted_append]
      exact Nat.add_right_comm _ 1 _
  | add hpos => exact .added hpos rfl rfl rfl
  | @process batch env h _ =>
      refine .processed (counted batch) rfl rfl ?_ ?_
      · unfold WriterSystem.unprocessed
        rw [h]
        rfl
      · show counted s.writer.queue
          + counted (WriterPhase.held (if s.writer.stopping then .draining [] else .head)) = _
        split <;> exact Nat.add_zero _
  | @finish tail env h _ =>
      refine .processed (counted tail) rfl rfl ?_ rfl
      unfold WriterSystem.unprocessed
      rw [h]
      rfl
  | other _ hsame => exact .quiet rfl rfl hsame

/-- What a step processes was in the counter: the subtraction does not wrap. -/
def NoWrap (s t : DepthSystem) : Prop :=
  s.writer.unprocessed - t.writer.unprocessed ≤ s.inFlight.toNat

/-- When a step processes messages, no more producers are between their send and their addition than
    messages stay in the channel. -/
def Covered (s t : DepthSystem) : Prop :=
  t.writer.unprocessed < s.writer.unprocessed → s.pending ≤ counted s.writer.queue

/-- The depth is at most the number of messages that are enqueued and not yet processed. -/
def DepthSystem.Sound (s : DepthSystem) : Prop := s.inFlight.toNat ≤ s.writer.unprocessed

/-- The counter has everything that its producer has added and that is not processed. -/
structure DepthSystem.Exact (s : DepthSystem) : Prop where
  bounded : s.writer.Bounded
  depth : s.inFlight.toNat + s.pending = s.writer.unprocessed

theorem exact_start : DepthSystem.start.Exact := ⟨⟨Nat.zero_le _, Nat.zero_le _⟩, rfl⟩

theorem DepthSystem.Exact.sound {s : DepthSystem} (hs : s.Exact) : s.Sound :=
  (Nat.le_add_right _ _).trans_eq hs.depth

/-- As long as the counter is exact, a step wraps it exactly when it is not covered. -/
theorem noWrap_iff_covered {s t : DepthSystem} (hs : s.Exact) (h : DepthStep s t) :
    NoWrap s t ↔ Covered s t := by
  have hdepth := hs.depth
  unfold NoWrap Covered
  cases h.effect with
  | sent _ _ hleft => omega
  | added _ _ _ hleft => omega
  | processed n _ _ hbefore hleft => omega
  | quiet _ _ hleft => omega

/-- A covered step keeps the counter exact. -/
theorem exact_step {s t : DepthSystem} (hs : s.Exact) (h : DepthStep s t) (hcovered : Covered s t) :
    t.Exact := by
  have hbounded : t.writer.Bounded := by
    rcases h.writer_step with heq | hstep
    · rw [heq]
      exact hs.bounded
    · exact bounded_step hs.bounded hstep
  refine ⟨hbounded, ?_⟩
  have hdepth := hs.depth
  have hlt := hs.bounded.unprocessed_lt
  cases h.effect with
  | sent hpending hcounter hleft =>
      rw [hpending, hcounter, hleft]
      omega
  | added hpos hpending hcounter hleft =>
      have hadd : (s.inFlight + 1).toNat = s.inFlight.toNat + 1 := by
        rw [UInt64.toNat_add]
        exact Nat.mod_eq_of_lt (show s.inFlight.toNat + 1 < 2 ^ 64 by omega)
      rw [hpending, hcounter, hleft, hadd]
      omega
  | processed n hpending hcounter hbefore hleft =>
      have hn : (UInt64.ofNat n).toNat = n := Nat.mod_eq_of_lt (by omega)
      have hle : n ≤ s.inFlight.toNat := by
        rcases Nat.eq_zero_or_pos n with rfl | hpos
        · exact Nat.zero_le _
        · have := hcovered (by omega)
          omega
      have hsub : (s.inFlight - UInt64.ofNat n).toNat = s.inFlight.toNat - n := by
        rw [UInt64.toNat_sub_of_le _ _ (by rw [UInt64.le_iff_toNat_le, hn]; exact hle), hn]
      rw [hpending, hcounter, hleft, hsub]
      omega
  | quiet hpending hcounter hleft =>
      rw [hpending, hcounter, hleft]
      exact hdepth

theorem depth_of_exact {s : DepthSystem} (hs : s.Exact) {states : List DepthSystem}
    (h : List.IsChain DepthStep (s :: states)) :
    (∀ t ∈ s :: states, t.Sound) ∧ List.IsChain NoWrap (s :: states) ↔
      List.IsChain Covered (s :: states) := by
  induction states generalizing s with
  | nil => simp [hs.sound]
  | cons t states ih =>
      obtain ⟨hstep, hrest⟩ := List.isChain_cons_cons.1 h
      have hiff := noWrap_iff_covered hs hstep
      rw [List.isChain_cons_cons, List.isChain_cons_cons]
      constructor
      · rintro ⟨hsound, hwrap, hwraps⟩
        have hcovered := hiff.1 hwrap
        exact ⟨hcovered, (ih (exact_step hs hstep hcovered) hrest).1
          ⟨fun u hu => hsound u (List.mem_cons_of_mem _ hu), hwraps⟩⟩
      · rintro ⟨hcovered, hcovers⟩
        obtain ⟨hsound, hwraps⟩ := (ih (exact_step hs hstep hcovered) hrest).2 hcovers
        exact ⟨List.forall_mem_cons.2 ⟨hs.sound, hsound⟩, hiff.2 hcovered, hwraps⟩

/-- The thread waits for a message. -/
def waiting : DepthSystem := ⟨{ WriterSystem.start with phase := .receiving }, 0, 0⟩

/-- A producer has sent a record and not yet added it. -/
def sent : DepthSystem := ⟨waiting.writer.acceptRecord openAiRecord, 1, 0⟩

/-- The thread has taken the record. -/
def taken : DepthSystem :=
  { sent with writer := { sent.writer with queue := [], phase := .collecting [.record openAiRecord] } }

/-- The thread has processed the record, before it was added or after (`added`). -/
def drained (pending : Nat) (inFlight : UInt64) : DepthSystem :=
  ⟨{ taken.writer with
      thread := processBatch .allOk [.record openAiRecord] taken.writer.thread
      phase := .head }, pending, inFlight⟩

theorem start_waiting : DepthStep .start waiting := .other (.wait rfl rfl) rfl

theorem waiting_sent : DepthStep waiting sent :=
  .sendRecord openAiRecord ⟨nofun, by decide⟩

theorem sent_taken : DepthStep sent taken :=
  .other (.receive rfl rfl) rfl

end Tethra.Gateway
