import LimitOrderBook.Types
import LimitOrderBook.Lib.MemoryImage
import LimitOrderBook.SpscRing

/-!
`async_logger.h`: one producer hands records to a ring, and the logger thread
writes their memory images to a stream until it is told to stop.
-/

set_option autoImplicit false

namespace LimitOrderBook
open Checked MemoryImage Wrapping

def kLoggerBatchSize : UInt64 := 256

def EventType.byte : EventType → UInt8
  | kAccepted => 0
  | kRejected => 1
  | kTraded => 2
  | kCanceled => 3

def RejectReason.byte : RejectReason → UInt8
  | kNone => 0
  | kInvalidQty => 1
  | kInvalidPrice => 2
  | kPoolExhausted => 3
  | kUnknownOrder => 4

/-- A caller may hand over any record, so the enumerations are kept as bytes. -/
structure LogRecord where
  timestamp : UInt64
  orderId : OrderId
  priceTicks : PriceTicks
  qty : Qty
  kind : UInt8
  side : UInt8
  reason : UInt8
  pad0 : UInt8
  deriving DecidableEq, Repr

instance : Inhabited LogRecord := ⟨⟨0, 0, 0, 0, 0, 0, 0, 0⟩⟩

def LogRecord.layout : Layout LogRecord :=
  (Layout.u64.prod (Layout.u64.prod (Layout.i64.prod (Layout.u32.prod (Layout.u8.prod
    (Layout.u8.prod (Layout.u8.prod Layout.u8))))))).map
      (fun r => (r.timestamp, r.orderId, r.priceTicks, r.qty, r.kind, r.side, r.reason, r.pad0))
      (fun (timestamp, orderId, priceTicks, qty, kind, side, reason, pad0) =>
        { timestamp, orderId, priceTicks, qty, kind, side, reason, pad0 })
      (fun _ => rfl) (fun _ => rfl)

theorem LogRecord.layout_size : LogRecord.layout.size = 32 := rfl

def makeLogRecord (timestamp : UInt64) (e : Event) : LogRecord :=
  { timestamp
    orderId := e.orderId
    priceTicks := e.priceTicks
    qty := e.qty
    kind := e.kind.byte
    side := e.side.byte
    reason := e.reason.byte
    pad0 := 0 }

inductive LogCall where
  | log (rec : LogRecord)
  | tryLog (rec : LogRecord)
  deriving DecidableEq

namespace LogCall

def logEvent (timestamp : UInt64) (e : Event) : LogCall := log (makeLogRecord timestamp e)

def tryLogEvent (timestamp : UInt64) (e : Event) : LogCall := tryLog (makeLogRecord timestamp e)

def record : LogCall → LogRecord
  | log rec | tryLog rec => rec

end LogCall

/-- The thread that owns the logger: outside a call, in the push of one, before the
count of a drop, or in `stop`. -/
inductive LogCaller where
  | idle
  | pushing (call : LogCall) (pc : TryPush LogRecord)
  | countDrop (rec : LogRecord)
  | storeStop
  | join
  | stopped
  deriving DecidableEq

/-- `consume` on the logger thread. -/
inductive LogConsumer where
  | popping (pc : TryPop LogRecord)
  | popped (batch : List LogRecord)
  | loadStop
  | exited
  deriving DecidableEq

namespace LogConsumer

def again : LogConsumer := popping (.loadHead (.popBatch kLoggerBatchSize))

def pop : LogConsumer → Option (TryPop LogRecord)
  | popping pc => some pc
  | _ => none

def pending : LogConsumer → List LogRecord
  | popped batch => batch
  | _ => []

end LogConsumer

namespace LogCaller

def push : LogCaller → Option (TryPush LogRecord)
  | pushing _ pc => some pc
  | _ => none

/-- Drops that `records_dropped_` does not count yet. -/
def uncounted : LogCaller → Nat
  | countDrop _ => 1
  | _ => 0

end LogCaller

inductive StreamOp where
  | write (bytes : Bytes)
  | flush
  deriving DecidableEq

def StreamOp.bytes : StreamOp → Bytes
  | write bytes => bytes
  | flush => []

structure AsyncLogger where
  ring : SPSCQueue LogRecord
  out : List StreamOp := []
  stop : Bool := false
  recordsWritten : UInt64 := 0
  recordsDropped : UInt64 := 0
  stopping : Bool := false
  dirty : Bool := false
  caller : LogCaller := .idle
  consumer : LogConsumer := LogConsumer.again

inductive LogChoice where
  | call (call : LogCall)
  | callStop
  | producer
  | consumer
  deriving DecidableEq

structure Attempt where
  call : LogCall
  ok : Bool
  deriving DecidableEq

namespace AsyncLogger

def contents (s : AsyncLogger) : Bytes := s.out.flatMap StreamOp.bytes

def stepCaller (s : AsyncLogger) : Exec (AsyncLogger × List Attempt) :=
  match s.caller with
  | .pushing call pc => do
    match ← pc.step s.ring with
    | (ring, .next pc) => pure ({ s with ring, caller := .pushing call pc }, [])
    | (ring, .done ok) =>
      match call, ok with
      | .log rec, false => pure ({ s with ring, caller := .countDrop rec }, [⟨call, ok⟩])
      | _, _ => pure ({ s with ring, caller := .idle }, [⟨call, ok⟩])
  | .countDrop _ =>
    pure ({ s with recordsDropped := s.recordsDropped + 1, caller := .idle }, [])
  | .storeStop => pure ({ s with stop := true, caller := .join }, [])
  | .join =>
    if s.consumer = .exited then pure ({ s with caller := .stopped }, []) else pure (s, [])
  | .idle | .stopped => pure (s, [])

def stepConsumer (s : AsyncLogger) : Exec AsyncLogger :=
  match s.consumer with
  | .popping pc => do
    match ← pc.step s.ring with
    | (ring, .next pc) => pure { s with ring, consumer := .popping pc }
    | (ring, .done batch) => pure { s with ring, consumer := .popped batch }
  | .popped batch =>
    let n := batch.length
    if n ≠ 0 then
      pure { s with
        out := s.out ++ [.write (LogRecord.layout.encodeAll batch)]
        recordsWritten := s.recordsWritten + UInt64.ofNat n
        dirty := true
        consumer := LogConsumer.again }
    else if s.stopping then pure { s with out := s.out ++ [.flush], consumer := .exited }
    else if s.dirty then
      pure { s with out := s.out ++ [.flush], dirty := false, consumer := .loadStop }
    else pure { s with consumer := .loadStop }
  | .loadStop => pure { s with stopping := s.stop, consumer := LogConsumer.again }
  | .exited => pure s

/-- The owner makes its calls one at a time, none of them after `stop`. -/
def step (s : AsyncLogger) : LogChoice → Exec (AsyncLogger × List Attempt)
  | .call call =>
    if s.caller = .idle then pure ({ s with caller := .pushing call (.loadTail call.record) }, [])
    else pure (s, [])
  | .callStop =>
    if s.caller = .idle then pure ({ s with caller := .storeStop }, []) else pure (s, [])
  | .producer => s.stepCaller
  | .consumer => do
    let s ← s.stepConsumer
    pure (s, [])

end AsyncLogger

namespace Attempt

def acceptedRecord (a : Attempt) : List LogRecord := if a.ok then [a.call.record] else []

/-- A `log` whose push failed. -/
def droppedRecord (a : Attempt) : List LogRecord :=
  match a with
  | ⟨.log rec, false⟩ => [rec]
  | _ => []

end Attempt

def acceptedOf (log : List Attempt) : List LogRecord := log.flatMap Attempt.acceptedRecord

def droppedOf (log : List Attempt) : List LogRecord := log.flatMap Attempt.droppedRecord

theorem acceptedOf_snoc (log : List Attempt) (a : Attempt) :
    acceptedOf (log ++ [a]) = acceptedOf log ++ a.acceptedRecord := by
  simp [acceptedOf]

theorem droppedOf_snoc (log : List Attempt) (a : Attempt) :
    droppedOf (log ++ [a]) = droppedOf log ++ a.droppedRecord := by
  simp [droppedOf]

namespace AsyncLogger

variable {k : Nat} {s : AsyncLogger} {log : List Attempt}

/-- The threads and the stream, between the accepted records, those popped and those
written. -/
structure At (k : Nat) (s : AsyncLogger) (log : List Attempt) (popped written : List LogRecord) :
    Prop where
  ring : RingOk k s.ring s.caller.push s.consumer.pop (acceptedOf log) popped
  record : ∀ call pc, s.caller = .pushing call pc → pc.value = call.record
  popped_eq : popped = written ++ s.consumer.pending
  contents : s.contents = LogRecord.layout.encodeAll written
  count : s.recordsWritten = UInt64.ofNat written.length
  drops : s.recordsDropped + UInt64.ofNat s.caller.uncounted =
    UInt64.ofNat (droppedOf log).length
  stopped : s.stop = true → s.caller = .join ∨ s.caller = .stopped
  seen : s.stopping = true → s.stop = true
  drained : s.consumer = .popped [] → s.stopping = true → popped = acceptedOf log
  flushed : s.dirty = false → ∀ op ∈ s.out.getLast?, op = .flush
  exited : s.consumer = .exited → s.stopping = true ∧ popped = acceptedOf log ∧
    s.out.getLast? = some .flush
  joined : s.caller = .stopped → s.consumer = .exited

def Inv (k : Nat) (s : AsyncLogger) (log : List Attempt) : Prop :=
  ∃ popped written, s.At k log popped written

theorem start_inv {q : SPSCQueue LogRecord} (h : RingOk k q none none [] []) :
    Inv k { ring := q } [] := by
  refine ⟨[], [], ?_⟩
  exact {
    ring := h.callPop (by decide)
    record := nofun
    popped_eq := rfl
    contents := rfl
    count := rfl
    drops := rfl
    stopped := nofun
    seen := nofun
    drained := nofun
    flushed := fun _ => by simp
    exited := nofun
    joined := nofun }

theorem stepCaller_inv (h : s.Inv k log) :
    ∃ s' out, s.stepCaller = .ok (s', out) ∧ s'.Inv k (log ++ out) := by
  have hskip : s.Inv k (log ++ []) := by rwa [List.append_nil]
  obtain ⟨popped, written, h⟩ := h
  obtain ⟨ring, out, stop, recordsWritten, recordsDropped, stopping, dirty, caller, consumer⟩ := s
  cases caller with
  | idle => exact ⟨_, _, rfl, hskip⟩
  | stopped => exact ⟨_, _, rfl, hskip⟩
  | join =>
    by_cases he : consumer = .exited
    · refine ⟨_, _, if_pos he, popped, written, ?_⟩
      rw [List.append_nil]
      exact { h with
        record := nofun
        stopped := fun _ => .inr rfl
        joined := fun _ => he }
    · exact ⟨_, _, if_neg he, hskip⟩
  | storeStop =>
    refine ⟨_, _, rfl, popped, written, ?_⟩
    rw [List.append_nil]
    exact { h with
      record := nofun
      stopped := fun _ => .inl rfl
      seen := fun _ => rfl
      joined := nofun }
  | countDrop rec =>
    refine ⟨_, _, rfl, popped, written, ?_⟩
    rw [List.append_nil]
    exact { h with
      record := nofun
      drops := by simpa [LogCaller.uncounted] using h.drops
      stopped := fun hs => by simpa using h.stopped hs
      joined := nofun }
  | pushing call pc =>
    have hstop : stop ≠ true := fun hs => by simpa using h.stopped hs
    have hvalue := h.record call pc rfl
    obtain ⟨q', r, hrun, hafter⟩ := RingOk.push_step h.ring
    cases r with
    | next pc' =>
      refine ⟨⟨q', out, stop, recordsWritten, recordsDropped, stopping, dirty, .pushing call pc',
        consumer⟩, [], by simp [stepCaller, hrun], popped, written, ?_⟩
      rw [List.append_nil]
      exact { h with
        ring := hafter.2
        record := fun c p hp => by
          cases hp
          exact hafter.1.trans hvalue
        stopped := fun hs => absurd hs hstop
        joined := nofun }
    | done ok =>
      have hstopping : stopping ≠ true := fun hs => hstop (h.seen hs)
      have haccepted : acceptedOf (log ++ [⟨call, ok⟩]) =
          if ok then acceptedOf log ++ [pc.value] else acceptedOf log := by
        rw [acceptedOf_snoc]
        cases ok <;> simp [Attempt.acceptedRecord, hvalue]
      -- Every way a push ends: only the caller's next place and the drop count differ.
      have hdone : ∀ caller' : LogCaller, caller'.push = none → caller' ≠ .stopped →
          recordsDropped + UInt64.ofNat caller'.uncounted =
            UInt64.ofNat (droppedOf (log ++ [⟨call, ok⟩])).length →
          Inv k ⟨q', out, stop, recordsWritten, recordsDropped, stopping, dirty, caller',
            consumer⟩ (log ++ [⟨call, ok⟩]) := by
        intro caller' hpush hne hdrops
        refine ⟨popped, written, { h with
          ring := by rw [haccepted, hpush]; exact hafter
          record := fun c p hp => by simp [LogCaller.push, show caller' = _ from hp] at hpush
          drops := hdrops
          stopped := fun hs => absurd hs hstop
          drained := fun _ hs => absurd hs hstopping
          exited := fun he => absurd (h.exited he).1 hstopping
          joined := fun hj => absurd hj hne }⟩
      have hcount : recordsDropped + UInt64.ofNat 0 = UInt64.ofNat (droppedOf log).length := h.drops
      cases call with
      | tryLog rec =>
        exact ⟨_, _, by simp [stepCaller, hrun], hdone .idle rfl (by simp) (by
          cases ok <;>
            simpa [droppedOf_snoc, Attempt.droppedRecord, LogCaller.uncounted] using hcount)⟩
      | log rec =>
        cases ok with
        | true =>
          exact ⟨_, _, by simp [stepCaller, hrun], hdone .idle rfl (by simp) (by
            simpa [droppedOf_snoc, Attempt.droppedRecord, LogCaller.uncounted] using hcount)⟩
        | false =>
          exact ⟨_, _, by simp [stepCaller, hrun], hdone (.countDrop rec) rfl (by simp) (by
            simpa [droppedOf_snoc, Attempt.droppedRecord, LogCaller.uncounted] using hcount)⟩

theorem stepConsumer_inv (h : s.Inv k log) :
    ∃ s', s.stepConsumer = .ok s' ∧ s'.Inv k log := by
  have hskip := h
  obtain ⟨popped, written, h⟩ := h
  obtain ⟨ring, out, stop, recordsWritten, recordsDropped, stopping, dirty, caller, consumer⟩ := s
  have hring := h.ring
  have hcontents : out.flatMap StreamOp.bytes = LogRecord.layout.encodeAll written := h.contents
  cases consumer with
  | exited => exact ⟨_, rfl, hskip⟩
  | loadStop =>
    exact ⟨_, rfl, popped, written, { h with
      ring := hring.callPop (by decide)
      seen := fun hs => hs
      drained := nofun
      exited := nofun
      joined := fun hj => absurd (h.joined hj) (by simp) }⟩
  | popping pc =>
    obtain ⟨q', r, hrun, hafter⟩ := RingOk.pop_step hring
    cases r with
    | next pc' =>
      refine ⟨⟨q', out, stop, recordsWritten, recordsDropped, stopping, dirty, caller,
        .popping pc'⟩, by simp [stepConsumer, hrun], popped, written, { h with
          ring := hafter
          drained := nofun
          exited := nofun
          joined := fun hj => absurd (h.joined hj) (by simp) }⟩
    | done batch =>
      refine ⟨⟨q', out, stop, recordsWritten, recordsDropped, stopping, dirty, caller,
        .popped batch⟩, by simp [stepConsumer, hrun], popped ++ batch, written, { h with
          ring := hafter.1
          popped_eq := by simpa [LogConsumer.pending] using h.popped_eq
          drained := fun hb _ => by
            cases hb
            rw [List.append_nil, hafter.2 rfl]
          exited := nofun
          joined := fun hj => absurd (h.joined hj) (by simp) }⟩
  | popped batch =>
    have hpopped : popped = written ++ batch := h.popped_eq
    by_cases hn : batch.length = 0
    · obtain rfl : batch = [] := List.eq_nil_of_length_eq_zero hn
      by_cases hs : stopping = true
      · refine ⟨⟨ring, out ++ [.flush], stop, recordsWritten, recordsDropped, stopping, dirty,
          caller, .exited⟩, by simp [stepConsumer, hs], popped, written, { h with
            ring := hring
            contents := by simpa [contents, StreamOp.bytes] using hcontents
            drained := nofun
            flushed := fun _ => by simp
            exited := fun _ => ⟨hs, h.drained rfl hs, by simp⟩
            joined := fun _ => rfl }⟩
      · by_cases hd : dirty = true
        · refine ⟨⟨ring, out ++ [.flush], stop, recordsWritten, recordsDropped, stopping, false,
            caller, .loadStop⟩, by simp [stepConsumer, hs, hd], popped, written, { h with
              ring := hring
              contents := by simpa [contents, StreamOp.bytes] using hcontents
              drained := nofun
              flushed := fun _ => by simp
              exited := nofun
              joined := fun hj => absurd (h.joined hj) (by simp) }⟩
        · refine ⟨⟨ring, out, stop, recordsWritten, recordsDropped, stopping, dirty, caller,
            .loadStop⟩, by simp [stepConsumer, hs, hd], popped, written, { h with
              ring := hring
              drained := nofun
              exited := nofun
              joined := fun hj => absurd (h.joined hj) (by simp) }⟩
    · refine ⟨⟨ring, out ++ [.write (LogRecord.layout.encodeAll batch)], stop,
        recordsWritten + UInt64.ofNat batch.length, recordsDropped, stopping, true, caller,
        LogConsumer.again⟩, by simp [stepConsumer, hn], popped, written ++ batch, { h with
          ring := hring.callPop (by decide)
          popped_eq := by simpa [LogConsumer.again, LogConsumer.pending] using hpopped
          contents := by simp [contents, StreamOp.bytes, hcontents, Layout.encodeAll]
          count := by
            have hcount : recordsWritten = UInt64.ofNat written.length := h.count
            rw [List.length_append, ← ofNat_add, hcount]
          drained := nofun
          flushed := nofun
          exited := nofun
          joined := fun hj => absurd (h.joined hj) (by simp) }⟩

theorem step_inv (c : LogChoice) (h : s.Inv k log) :
    ∃ s' out, s.step c = .ok (s', out) ∧ s'.Inv k (log ++ out) := by
  have hskip : s.Inv k (log ++ []) := by rwa [List.append_nil]
  cases c with
  | producer => exact stepCaller_inv h
  | consumer =>
    obtain ⟨s', hrun, hinv⟩ := stepConsumer_inv h
    exact ⟨s', [], by simp [step, hrun], by rwa [List.append_nil]⟩
  | callStop =>
    by_cases hidle : s.caller = .idle
    · obtain ⟨popped, written, h⟩ := hskip
      have hring := h.ring
      have hdrops := h.drops
      rw [hidle] at hring hdrops
      refine ⟨_, _, if_pos hidle, popped, written, { h with
        ring := hring
        record := nofun
        drops := hdrops
        stopped := fun hs => by simpa [hidle] using h.stopped hs
        joined := nofun }⟩
    · exact ⟨_, _, if_neg hidle, hskip⟩
  | call call =>
    by_cases hidle : s.caller = .idle
    · obtain ⟨popped, written, h⟩ := hskip
      have hdrops := h.drops
      rw [hidle] at hdrops
      refine ⟨_, _, if_pos hidle, popped, written, { h with
        ring := h.ring.callPush _
        record := fun c p hp => by
          cases hp
          rfl
        drops := hdrops
        stopped := fun hs => by simpa [hidle] using h.stopped hs
        joined := nofun }⟩
    · exact ⟨_, _, if_neg hidle, hskip⟩

theorem inv_of_step (h : s.Inv k log) {c : LogChoice} {s' : AsyncLogger} {out : List Attempt}
    (hstep : s.step c = .ok (s', out)) : s'.Inv k (log ++ out) := by
  obtain ⟨s₁, out₁, hok, hinv⟩ := step_inv c h
  cases hok.symm.trans hstep
  exact hinv

theorem stepConsumer_caller {s' : AsyncLogger} (h : s.stepConsumer = .ok s') :
    s'.caller = s.caller := by
  unfold stepConsumer at h
  split at h
  · obtain ⟨⟨ring, r⟩, -, h⟩ := bind_eq_ok.mp h
    cases r <;> cases h <;> rfl
  · simp only at h
    split at h
    · cases h
      rfl
    · split at h
      · cases h
        rfl
      · split at h <;> cases h <;> rfl
  · cases h
    rfl
  · cases h
    rfl

/-- A `log` of `rec` that is going to drop it: its push has found the ring full. -/
def Dropping (rec : LogRecord) (s : AsyncLogger) : Prop :=
  s.caller = .countDrop rec ∨ ∃ pc, s.caller = .pushing (.log rec) pc ∧ pc.Full

/-- The only step that decides on a drop loads `head_` from a full ring. -/
theorem dropping_of_step {rec : LogRecord} {c : LogChoice} {s' : AsyncLogger}
    {out : List Attempt} (h : s.Inv k log) (hs : ¬ s.Dropping rec)
    (hstep : s.step c = .ok (s', out)) (hs' : s'.Dropping rec) :
    c = .producer ∧ ∃ tail, s.caller = .pushing (.log rec) (.loadHead rec tail) ∧
      s.ring.size = s.ring.capacity := by
  have hsame : s'.caller ≠ s.caller := fun he => hs (by rwa [Dropping, he] at hs')
  cases c with
  | consumer =>
    obtain ⟨s₁, hrun, he⟩ := bind_eq_ok.mp hstep
    cases he
    exact absurd (stepConsumer_caller hrun) hsame
  | callStop =>
    by_cases hidle : s.caller = .idle
    · cases hstep.symm.trans (if_pos hidle)
      simp [Dropping] at hs'
    · cases hstep.symm.trans (if_neg hidle)
      exact absurd rfl hsame
  | call call =>
    by_cases hidle : s.caller = .idle
    · cases hstep.symm.trans (if_pos hidle)
      simp [Dropping, TryPush.Full] at hs'
    · cases hstep.symm.trans (if_neg hidle)
      exact absurd rfl hsame
  | producer =>
    refine ⟨rfl, ?_⟩
    obtain ⟨popped, written, h⟩ := h
    obtain ⟨ring, out, stop, recordsWritten, recordsDropped, stopping, dirty, caller, consumer⟩ := s
    cases caller with
    | pushing call pc =>
      obtain ⟨⟨q', r⟩, hrun, hstep⟩ := bind_eq_ok.mp hstep
      -- Whichever way the push goes on, it was this call and it found the ring full.
      have hfull : call = .log rec ∧ (r = .done false ∨ ∃ pc', r = .next pc' ∧ pc'.Full) := by
        cases r with
        | next pc' =>
          cases hstep
          simpa [Dropping] using hs'
        | done ok =>
          cases call <;> cases ok <;> cases hstep <;> simp_all [Dropping]
      obtain ⟨rfl, hr⟩ := hfull
      have hpc : ¬ pc.Full := fun hf => hs (.inr ⟨pc, rfl, hf⟩)
      obtain ⟨tail, htail, hsize⟩ := RingOk.full_of_step h.ring hpc hrun hr
      have hvalue : pc.value = rec := h.record _ pc rfl
      exact ⟨tail, by rw [htail, hvalue], hsize⟩
    | join =>
      simp only [step, stepCaller] at hstep
      split at hstep <;> cases hstep <;> simp [Dropping] at hs'
    | _ =>
      cases hstep
      simp [Dropping] at hs'

end AsyncLogger

/-- Every record whose push succeeds is written once, in call order; every other one
handed to `log` is counted; and a drop means the ring was full. -/
theorem logger_accounts {capacity : UInt64} {q : SPSCQueue LogRecord}
    (hq : SPSCQueue.new capacity = .ok q) (sched : List LogChoice) :
    ∃ s log, Schedule.run AsyncLogger.step { ring := q } sched = .ok (s, log) ∧
      (s.caller = .stopped →
        s.contents = LogRecord.layout.encodeAll (acceptedOf log) ∧
        s.recordsWritten = UInt64.ofNat (acceptedOf log).length ∧
        s.recordsDropped = UInt64.ofNat (droppedOf log).length ∧
        s.out.getLast? = some .flush) ∧
      ∀ rec, s.caller = .countDrop rec → ∃ pre post s₁ log₁ tail,
        sched = pre ++ LogChoice.producer :: post ∧
        Schedule.run AsyncLogger.step { ring := q } pre = .ok (s₁, log₁) ∧
        s₁.caller = .pushing (.log rec) (.loadHead rec tail) ∧ s₁.ring.size = s₁.ring.capacity ∧
        ∀ mid, mid <+: post → ∃ s₂ log₂, Schedule.run AsyncLogger.step { ring := q }
          (pre ++ LogChoice.producer :: mid) = .ok (s₂, log₂) ∧ s₂.Dropping rec := by
  obtain ⟨k, -, -, hring⟩ := RingOk.new hq
  have h₀ : AsyncLogger.Inv k { ring := q } [] := AsyncLogger.start_inv hring
  have hsched : ∀ c ∈ sched, True := fun _ _ => trivial
  obtain ⟨s, log, hrun, hinv⟩ := Schedule.run_ok (AsyncLogger.Inv k) (fun _ => True)
    (fun s log c _ hs => AsyncLogger.step_inv c hs) h₀ hsched
  refine ⟨s, log, hrun, fun hstopped => ?_, fun rec hdrop => ?_⟩
  · obtain ⟨popped, written, h⟩ := hinv
    have hexited := h.joined hstopped
    obtain ⟨-, hpopped, hlast⟩ := h.exited hexited
    have hwritten := h.popped_eq
    have hdrops := h.drops
    simp only [hexited, LogConsumer.pending, List.append_nil] at hwritten
    simp only [hstopped, LogCaller.uncounted] at hdrops
    rw [← hpopped, hwritten]
    exact ⟨h.contents, h.count, by simpa using hdrops, hlast⟩
  · obtain ⟨pre, c, post, s₁, log₁, s₂, out, rfl, hpre, hs₁, hstep, hs₂, hmid⟩ :=
      Schedule.run_enter (AsyncLogger.Dropping rec) hrun (by simp [AsyncLogger.Dropping])
        (.inl hdrop)
    have hinv₁ := Schedule.run_inv (AsyncLogger.Inv k)
      (fun s hist c s' out hs hstep => AsyncLogger.inv_of_step hs hstep) h₀ hpre
    obtain ⟨rfl, tail, hload, hsize⟩ := AsyncLogger.dropping_of_step hinv₁ hs₁ hstep hs₂
    exact ⟨pre, post, s₁, log₁, tail, rfl, hpre, hload, hsize, hmid⟩

theorem logger_accounts_small : ∃ q s log,
    SPSCQueue.new (UInt64.ofNat 1) = .ok q ∧
    Schedule.run AsyncLogger.step { ring := q } (List.flatten [
      [LogChoice.call (.log ⟨1, 2, 3, 4, 2, 0, 0, 0⟩)],
      List.replicate 5 .producer, [.call (.log ⟨5, 6, 7, 8, 2, 1, 0, 0⟩)],
      List.replicate 4 .producer, [.callStop, .producer], List.replicate 14 .consumer,
      [.producer]]) = .ok (s, log) ∧
    s.caller = .stopped ∧ log.map Attempt.ok = [true, false] ∧
    s.contents = LogRecord.layout.encodeAll (acceptedOf log) ∧
    s.recordsDropped = UInt64.ofNat (droppedOf log).length := by
  obtain ⟨q, hq⟩ : ∃ q, SPSCQueue.new (T := LogRecord) (UInt64.ofNat 1) = .ok q := ⟨_, rfl⟩
  have hrun : ∃ r, (SPSCQueue.new (T := LogRecord) (UInt64.ofNat 1) >>= fun q =>
      Schedule.run AsyncLogger.step { ring := q } (List.flatten [
        [LogChoice.call (.log ⟨1, 2, 3, 4, 2, 0, 0, 0⟩)],
        List.replicate 5 .producer, [.call (.log ⟨5, 6, 7, 8, 2, 1, 0, 0⟩)],
        List.replicate 4 .producer, [.callStop, .producer], List.replicate 14 .consumer,
        [.producer]])) = .ok r ∧
      r.1.caller = .stopped ∧ r.2.map Attempt.ok = [true, false] := Holds.exists_ok (by decide)
  rw [hq, ok_bind] at hrun
  obtain ⟨⟨s, log⟩, hrun, hstopped, hlog⟩ := hrun
  obtain ⟨s', log', hrun', haccount, -⟩ := logger_accounts hq _
  cases hrun'.symm.trans hrun
  obtain ⟨hcontents, -, hdropped, -⟩ := haccount hstopped
  exact ⟨q, s, log, hq, hrun, hstopped, hlog, hcontents, hdropped⟩

end LimitOrderBook
