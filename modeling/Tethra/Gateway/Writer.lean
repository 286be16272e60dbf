import Tethra.Gateway.Attribution
import Tethra.Lib.Runs

set_option autoImplicit false

/-! # The observation writer (`gateway/src/writer.rs`)

Producers hand records, counter bumps and matcher updates to a bounded channel without waiting; one
thread takes them out in batches and writes them to the database. A batch is processed in separate
passes: its matcher updates first, then its counters, then its records. -/

namespace Tethra.Gateway

/-- `QUEUE_CAPACITY`. -/
def queueCapacity : Nat := 1024

/-- `BATCH_MAX`. -/
def batchMax : Nat := 256

/-- What the writer reads of an exchange to attribute it. -/
structure ExchangeRecord where
  at_ : Str
  routePrefix : Str
  projectId : Option Str
  digest : Option CredentialDigest
  attributionInput : AttributionInput
  deriving DecidableEq, Repr

inductive Message where
  | record (r : ExchangeRecord)
  | counter (route name : Str)
  | matcher (m : Option Matcher)
  | flush
  deriving DecidableEq, Repr

def Message.asRecord : Message → Option ExchangeRecord
  | .record r => some r
  | _ => none

def Message.asCounter : Message → Option (Str × Str)
  | .counter route name => some (route, name)
  | _ => none

def Message.isRecord (m : Message) : Bool := m.asRecord.isSome

def Message.isCounter (m : Message) : Bool := m.asCounter.isSome

/-- `attribute` of the source: resolve the digest of a record against the installed matcher. -/
def attributeRecord (matcher : Option Matcher) (record : ExchangeRecord) : Attribution :=
  match record.digest, matcher with
  | some digest, some matcher => matcher.resolve digest
  | some _, none => .unavailableNoKey
  | none, _ =>
      match record.attributionInput with
      | .noCredentialPresent => .noCredentialPresent
      | .unsupportedForm => .unsupportedForm
      | .unavailableNoKey => .unavailableNoKey
      | .digested => .unavailableNoKey

/-- A record as it was handed to `persist_one`: the matcher installed then, and what it says. -/
structure Attributed where
  record : ExchangeRecord
  matcher : Option Matcher
  attribution : Attribution
  deriving DecidableEq, Repr

def Attributed.of (matcher : Option Matcher) (record : ExchangeRecord) : Attributed :=
  ⟨record, matcher, attributeRecord matcher record⟩

/-- What the database does with one batch: whether it opens, which counter bumps it takes, and which
    record transactions commit. -/
structure BatchEnv where
  opens : Bool
  bumps : Nat → Bool
  commits : Nat → Bool

/-- What the thread holds between batches. -/
structure WriterThread where
  matcher : Option Matcher
  handed : List Attributed
  written : Nat
  persistFailures : Nat
  applied : Nat
  droppedCounters : Nat

/-- How many of the first `n` answers are yes. -/
def countUpTo (p : Nat → Bool) (n : Nat) : Nat := (List.range n).countP p

/-- The matcher that a sequence of messages leaves installed. -/
def lastMatcher (m : Option Matcher) : List Message → Option Matcher
  | [] => m
  | .matcher m' :: ms => lastMatcher m' ms
  | _ :: ms => lastMatcher m ms

/-- `process_batch`: the matcher updates, then the counters, then the records. -/
def processBatch (env : BatchEnv) (batch : List Message) (w : WriterThread) : WriterThread :=
  let records := batch.filterMap Message.asRecord
  let counters := batch.filterMap Message.asCounter
  let matcher := lastMatcher w.matcher batch
  if env.opens then
    { matcher
      handed := w.handed ++ records.map (Attributed.of matcher)
      written := w.written + countUpTo env.commits records.length
      persistFailures := w.persistFailures + countUpTo (!env.commits ·) records.length
      applied := w.applied + countUpTo env.bumps counters.length
      droppedCounters := w.droppedCounters + countUpTo (!env.bumps ·) counters.length }
  else
    { w with
      matcher
      persistFailures := w.persistFailures + records.length
      droppedCounters := w.droppedCounters + counters.length }

/-! ## Attribution and the order of the queue -/

/-- The records in the order of the queue, each with the latest matcher enqueued before it. -/
def inQueueOrder (m : Option Matcher) : List Message → List Attributed
  | [] => []
  | .record r :: ms => .of m r :: inQueueOrder m ms
  | .matcher m' :: ms => inQueueOrder m' ms
  | _ :: ms => inQueueOrder m ms

/-- Process batches, one after the other. -/
def processBatches (batches : List (BatchEnv × List Message)) (w : WriterThread) : WriterThread :=
  batches.foldl (fun w b => processBatch b.1 b.2 w) w

/-- The records of the batches that the database took, with their matchers by the queue's order. -/
def batchesInQueueOrder (m : Option Matcher) : List (BatchEnv × List Message) → List Attributed
  | [] => []
  | (env, batch) :: rest =>
      (if env.opens then inQueueOrder m batch else [])
        ++ batchesInQueueOrder (lastMatcher m batch) rest

/-- No record is followed in its batch by matcher updates that leave another matcher installed. -/
def MatcherSettled (m : Option Matcher) (batch : List Message) : Prop :=
  ∀ pre r post, batch = pre ++ .record r :: post →
    lastMatcher (lastMatcher m pre) post = lastMatcher m pre

def BatchesSettled (m : Option Matcher) : List (BatchEnv × List Message) → Prop
  | [] => True
  | (env, batch) :: rest =>
      (env.opens = true → MatcherSettled m batch) ∧ BatchesSettled (lastMatcher m batch) rest

theorem length_inQueueOrder (m : Option Matcher) (batch : List Message) :
    (inQueueOrder m batch).length = (batch.filterMap Message.asRecord).length := by
  induction batch generalizing m with
  | nil => rfl
  | cons msg batch ih => cases msg <;> simp [inQueueOrder, Message.asRecord, List.filterMap_cons, ih]

/-- The first message of a queue, and the rest, as the place of a record. -/
theorem forall_record_cons {msg : Message} {batch : List Message} {P : List Message → List Message → Prop} :
    (∀ pre r post, msg :: batch = pre ++ .record r :: post → P pre post) ↔
      (msg.isRecord = true → P [] batch) ∧
        ∀ pre r post, batch = pre ++ .record r :: post → P (msg :: pre) post := by
  constructor
  · intro h
    refine ⟨fun hr => ?_, fun pre r post hbatch => h (msg :: pre) r post (by rw [hbatch]; rfl)⟩
    cases msg with
    | record r => exact h [] r batch rfl
    | counter route name => cases hr
    | matcher m => cases hr
    | flush => cases hr
  · rintro ⟨hfirst, hrest⟩ pre r post hbatch
    cases pre with
    | nil =>
        obtain ⟨rfl, rfl⟩ := List.cons.inj hbatch
        exact hfirst rfl
    | cons m pre =>
        obtain ⟨rfl, hbatch'⟩ := List.cons.inj hbatch
        exact hrest pre r post hbatch'

theorem Attributed.of_inj {m m' : Option Matcher} {r : ExchangeRecord} :
    Attributed.of m r = Attributed.of m' r ↔ m = m' := by
  constructor
  · intro h
    exact (Attributed.mk.inj h).2.1
  · rintro rfl
    rfl

/-- Records handed over with the matcher `last` are in the queue's order when each has it in force. -/
theorem map_of_eq_iff (last : Option Matcher) (batch : List Message) (m : Option Matcher) :
    (batch.filterMap Message.asRecord).map (Attributed.of last) = inQueueOrder m batch ↔
      ∀ pre r post, batch = pre ++ .record r :: post → last = lastMatcher m pre := by
  induction batch generalizing m with
  | nil => simp [inQueueOrder]
  | cons msg batch ih =>
      rw [forall_record_cons (P := fun pre _ => last = lastMatcher m pre)]
      cases msg with
      | record r =>
          simp [inQueueOrder, Message.asRecord, Message.isRecord, Attributed.of_inj, ih, lastMatcher]
      | counter route name =>
          simp [inQueueOrder, Message.asRecord, Message.isRecord, List.filterMap_cons, ih, lastMatcher]
      | matcher m' =>
          simp [inQueueOrder, Message.asRecord, Message.isRecord, List.filterMap_cons, ih, lastMatcher]
      | flush =>
          simp [inQueueOrder, Message.asRecord, Message.isRecord, List.filterMap_cons, ih, lastMatcher]

theorem lastMatcher_append (m : Option Matcher) (a b : List Message) :
    lastMatcher m (a ++ b) = lastMatcher (lastMatcher m a) b := by
  induction a generalizing m with
  | nil => rfl
  | cons msg a ih => cases msg <;> exact ih _

/-- A batch hands its records over in the queue's order exactly when no later update in the batch
    changes the matcher of one. -/
theorem map_of_eq_inQueueOrder (m : Option Matcher) (batch : List Message) :
    (batch.filterMap Message.asRecord).map (Attributed.of (lastMatcher m batch))
        = inQueueOrder m batch ↔ MatcherSettled m batch := by
  rw [map_of_eq_iff]
  constructor
  · intro h pre r post hbatch
    have hlast := h pre r post hbatch
    rw [hbatch, lastMatcher_append] at hlast
    exact hlast
  · intro h pre r post hbatch
    rw [← h pre r post hbatch, hbatch, lastMatcher_append]
    rfl

/-- The records that batches hand over. -/
def handedOver (m : Option Matcher) : List (BatchEnv × List Message) → List Attributed
  | [] => []
  | (env, batch) :: rest =>
      (if env.opens then
        (batch.filterMap Message.asRecord).map (Attributed.of (lastMatcher m batch)) else [])
        ++ handedOver (lastMatcher m batch) rest

theorem matcher_processBatch (env : BatchEnv) (batch : List Message) (w : WriterThread) :
    (processBatch env batch w).matcher = lastMatcher w.matcher batch := by
  unfold processBatch
  split <;> rfl

/-- What one batch adds to the records handed over. -/
theorem handed_processBatch (env : BatchEnv) (batch : List Message) (w : WriterThread) :
    (processBatch env batch w).handed = w.handed ++ if env.opens then
      (batch.filterMap Message.asRecord).map (Attributed.of (lastMatcher w.matcher batch)) else [] := by
  unfold processBatch
  split <;> simp_all

theorem handed_processBatches (batches : List (BatchEnv × List Message)) (w : WriterThread) :
    (processBatches batches w).handed = w.handed ++ handedOver w.matcher batches := by
  induction batches generalizing w with
  | nil => simp [processBatches, handedOver]
  | cons b batches ih =>
      obtain ⟨env, batch⟩ := b
      rw [processBatches, List.foldl_cons, ← processBatches, ih, matcher_processBatch,
        handed_processBatch, handedOver, List.append_assoc]

theorem handedOver_eq_iff (m : Option Matcher) (batches : List (BatchEnv × List Message)) :
    handedOver m batches = batchesInQueueOrder m batches ↔ BatchesSettled m batches := by
  induction batches generalizing m with
  | nil => simp [handedOver, batchesInQueueOrder, BatchesSettled]
  | cons b batches ih =>
      obtain ⟨env, batch⟩ := b
      rw [handedOver, batchesInQueueOrder, BatchesSettled, ← ih, ← map_of_eq_inQueueOrder]
      cases hopen : env.opens with
      | false => simp
      | true =>
          simp only [if_true, true_imp_iff]
          constructor
          · intro h
            exact List.append_inj h (by rw [List.length_map, length_inQueueOrder])
          · rintro ⟨hbatch, hrest⟩
            rw [hbatch, hrest]

/-- However the writer groups the messages into batches, it attributes every record with the latest
    matcher enqueued before it exactly when no record is followed in its batch by updates that leave
    another matcher installed. -/
theorem processBatches_inQueueOrder (batches : List (BatchEnv × List Message)) (w : WriterThread) :
    (processBatches batches w).handed = w.handed ++ batchesInQueueOrder w.matcher batches ↔
      BatchesSettled w.matcher batches := by
  rw [handed_processBatches, List.append_cancel_left_eq, handedOver_eq_iff]

/-- The thread at its start. -/
def WriterThread.start : WriterThread := ⟨none, [], 0, 0, 0, 0⟩

/-- A database that takes everything. -/
def BatchEnv.allOk : BatchEnv := ⟨true, fun _ => true, fun _ => true⟩

def openAiMatcher : Matcher :=
  ⟨[{ credentialId := "k1".toList, fingerprint := List.replicate 32 7, retainedVersion := none,
      revoked := false }]⟩

def openAiRecord : ExchangeRecord :=
  ⟨"2026-01-01T00:00:00Z".toList, "openai".toList, some "p1".toList,
    some ⟨[List.replicate 32 7]⟩, .digested⟩

/-- A record and the update that clears the matcher after it: alone the record is attributed to its
    credential, in one batch with the update it is not. -/
theorem processBatches_depends_on_batches :
    (processBatches [(.allOk, [.matcher (some openAiMatcher)]), (.allOk, [.record openAiRecord]),
        (.allOk, [.matcher none])] .start).handed.map Attributed.attribution
        = [.matched "k1".toList false] ∧
      (processBatches [(.allOk, [.matcher (some openAiMatcher)]),
        (.allOk, [.record openAiRecord, .matcher none])] .start).handed.map Attributed.attribution
        = [.unavailableNoKey] := by
  decide

end Tethra.Gateway
