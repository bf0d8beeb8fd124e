import LimitOrderBook.E2eRun
import LimitOrderBook.AsyncLogger

/-!
`run_e2e` with all of its threads: the producer, the engine thread whose sink logs, the
logger thread, and the main thread that joins them and checks the book.
-/

set_option autoImplicit false

namespace LimitOrderBook
open Checked

/-- A command whose `process` has begun: `cmd_ts`, its class, and the events that the
sink has not taken up. -/
structure InFlight where
  cmdTs : UInt64
  cls : OpClass
  events : List Event

namespace EngineThread

/-- An entry up to its `process`. The sink touches nothing that `process` reads, so its
calls of `log` may come after. -/
def enter (ndebug : Bool) (clock : Nat → UInt64) (warmup : UInt64) (s : EngineThread)
    (cmd : Command) : Exec (EngineThread × InFlight) := do
  let s := if s.processed = warmup then s.openWindow else s
  let cls ← classify ndebug cmd
  let cmdTs := clock s.reads
  let (engine, events) ← s.engine.process ndebug cmd
  let logged := s.logged ++ events.map fun e => (cmdTs, e)
  pure ({ s with engine, reads := s.reads + 1, logged }, { cmdTs, cls, events })

def leave (clock : Nat → UInt64) (s : EngineThread) (b : InFlight) : Exec EngineThread := do
  let recorders ← recordAt s.recorders b.cls (clock s.reads - b.cmdTs)
  pure { s with recorders, processed := s.processed + 1, reads := s.reads + 1 }

theorem command_eq (ndebug : Bool) (clock : Nat → UInt64) (warmup : UInt64) (s : EngineThread)
    (cmd : Command) : command ndebug clock warmup s cmd =
      enter ndebug clock warmup s cmd >>= fun r => leave clock r.1 r.2 := by
  simp only [command, enter, leave, bind_assoc, pure_bind]

end EngineThread

/-- The engine thread: inside the pop, at entry `i` of the batch, inside the `process` of
that entry, before the load of `stop`, or past the loop. -/
inductive E2eLoop where
  | popping (pc : TryPop Command)
  | entry (batch : List Command) (i : Nat)
  | inProcess (batch : List Command) (i : Nat) (b : InFlight)
  | loadStop
  | broke

namespace E2eLoop

def again : E2eLoop := popping (.loadHead (.popBatch kEngineBatchSize))

def inFlight : E2eLoop → Option InFlight
  | inProcess _ _ b => some b
  | _ => none

def unlogged : E2eLoop → List LogCall
  | inProcess _ _ b => b.events.map (LogCall.logEvent b.cmdTs)
  | _ => []

end E2eLoop

inductive MainThread where
  | joinProducer
  | joinEngine
  | callStop
  | inStop
  | checks
  | done
  deriving DecidableEq

structure E2e where
  cmdRing : SPSCQueue Command
  stop : Bool := false
  feeder : Feeder
  run : EngineThread
  stopping : Bool := false
  loop : E2eLoop := E2eLoop.again
  logger : AsyncLogger
  main : MainThread := .joinProducer

inductive E2eThread where
  | producer
  | engine
  | logger
  | main
  deriving DecidableEq

/-- What `run_e2e` has read and checked before it starts its threads, and the clock they
will read. -/
structure E2eJob where
  ndebug : Bool
  clock : Nat → UInt64
  warmup : UInt64
  engine : MatchingEngine
  cmds : List Command

namespace E2eJob

def ops (j : E2eJob) : UInt64 := UInt64.ofNat j.cmds.length

def command (j : E2eJob) : EngineThread → Command → Exec EngineThread :=
  EngineThread.command j.ndebug j.clock j.warmup

theorem commands_snoc (j : E2eJob) (cmds : List Command) (cmd : Command) (s : EngineThread) :
    (cmds ++ [cmd]).foldlM j.command s = cmds.foldlM j.command s >>= fun s => j.command s cmd := by
  rw [List.foldlM_append]
  simp only [List.foldlM_cons, List.foldlM_nil, bind_pure]

/-- The commands go through the engine one after the other, and leave a book that passes
the check. -/
def Sound (j : E2eJob) : Prop :=
  ∃ r, j.engine.processAll j.ndebug j.cmds = .ok r ∧
    (j.ndebug = false → r.1.book.checkInvariants = .ok ())

end E2eJob

namespace E2e

def start (j : E2eJob) (cmdRing : SPSCQueue Command) (logRing : SPSCQueue LogRecord) : E2e :=
  { cmdRing, feeder := .next j.cmds, run := { engine := j.engine }, logger := { ring := logRing } }

def stepProducer (s : E2e) : Exec E2e :=
  match s.feeder with
  | .next (cmd :: rest) => pure { s with feeder := .pushing (.loadTail cmd) rest }
  | .next [] => pure { s with stop := true, feeder := .stopped }
  | .pushing pc rest => do
    match ← pc.step s.cmdRing with
    | (cmdRing, .next pc) => pure { s with cmdRing, feeder := .pushing pc rest }
    | (cmdRing, .done ok) =>
      pure { s with cmdRing, feeder := .next (if ok then rest else pc.value :: rest) }
  | .stopped => pure s

def stepEngine (j : E2eJob) (s : E2e) : Exec (E2e × List Attempt) :=
  match s.loop with
  | .popping pc => do
    match ← pc.step s.cmdRing with
    | (cmdRing, .next pc) => pure ({ s with cmdRing, loop := .popping pc }, [])
    | (cmdRing, .done batch) => pure ({ s with cmdRing, loop := .entry batch 0 }, [])
  | .entry batch i =>
    match batch[i]? with
    | some cmd => do
      let (run, b) ← s.run.enter j.ndebug j.clock j.warmup cmd
      pure ({ s with run, loop := .inProcess batch i b }, [])
    | none =>
      if batch.length ≠ 0 then pure ({ s with loop := E2eLoop.again }, [])
      else if s.stopping then pure ({ s with loop := .broke }, [])
      else pure ({ s with loop := .loadStop }, [])
  | .inProcess batch i b =>
    match s.logger.caller, b.events with
    | .idle, e :: events => do
      let (logger, out) ← s.logger.step (.call (LogCall.logEvent b.cmdTs e))
      pure ({ s with logger, loop := .inProcess batch i { b with events } }, out)
    | .idle, [] => do
      let run ← s.run.leave j.clock b
      pure ({ s with run, loop := .entry batch (i + 1) }, [])
    | _, _ => do
      let (logger, out) ← s.logger.step .producer
      pure ({ s with logger }, out)
  | .loadStop => pure ({ s with stopping := s.stop, loop := E2eLoop.again }, [])
  | .broke => pure (s, [])

def stepMain (j : E2eJob) (s : E2e) : Exec (E2e × List Attempt) :=
  match s.main with
  | .joinProducer =>
    match s.feeder with
    | .stopped => pure ({ s with main := .joinEngine }, [])
    | _ => pure (s, [])
  | .joinEngine =>
    match s.loop with
    | .broke => pure ({ s with main := .callStop }, [])
    | _ => pure (s, [])
  | .callStop => do
    let (logger, out) ← s.logger.step .callStop
    pure ({ s with logger, main := .inStop }, out)
  | .inStop =>
    match s.logger.caller with
    | .stopped => pure ({ s with main := .checks }, [])
    | _ => do
      let (logger, out) ← s.logger.step .producer
      pure ({ s with logger }, out)
  | .checks =>
    if j.ndebug then pure ({ s with main := .done }, [])
    else do
      s.run.engine.book.checkInvariants
      assert (s.run.processed = j.ops) "the pipeline must drain every command"
      pure ({ s with main := .done }, [])
  | .done => pure (s, [])

def step (j : E2eJob) (s : E2e) : E2eThread → Exec (E2e × List Attempt)
  | .producer => do
    let s ← s.stepProducer
    pure (s, [])
  | .engine => s.stepEngine j
  | .logger => do
    let (logger, out) ← s.logger.step .consumer
    pure ({ s with logger }, out)
  | .main => s.stepMain j

end E2e

namespace E2eLoop

/-- The loop as `run` has it, which counts a command as processed once its events are out. -/
def runLoop (result : UInt64) : E2eLoop → RunLoop
  | popping pc => .popping pc
  | entry batch i => .processing batch i
  | inProcess batch i _ => .processing batch (i + 1)
  | loadStop => .loadStop
  | broke => .returned result

end E2eLoop

namespace EngineThread

variable {ndebug : Bool} {clock : Nat → UInt64} {warmup : UInt64} {s s' : EngineThread}
  {cmd : Command} {b : InFlight}

theorem enter_spec (h : enter ndebug clock warmup s cmd = .ok (s', b)) (stats : EngineStats) :
    ∃ stats', MatchingEngine.process ndebug { s.engine with stats } cmd =
      .ok ({ s'.engine with stats := stats' }, b.events) ∧ b.cls.byte.toNat < kOpClasses ∧
      s'.logged = s.logged ++ b.events.map fun e => (b.cmdTs, e) := by
  obtain ⟨c, hc, h⟩ := bind_eq_ok.mp h
  obtain ⟨⟨engine, events⟩, hengine, h⟩ := bind_eq_ok.mp h
  cases h
  have hstart : ∃ stats₀, (if s.processed = warmup then s.openWindow else s).engine =
      { s.engine with stats := stats₀ } := by
    split
    · exact ⟨{}, rfl⟩
    · exact ⟨s.engine.stats, rfl⟩
  obtain ⟨stats₀, hstart⟩ := hstart
  rw [hstart] at hengine
  obtain ⟨stats', hrun⟩ := MatchingEngine.process_with_stats hengine stats
  have hbyte : c.byte.toNat < kOpClasses := by
    rcases classify_cases hc with rfl | rfl | rfl | rfl <;> decide
  refine ⟨stats', hrun, hbyte, ?_⟩
  split <;> rfl

theorem enter_ok (clock : Nat → UInt64) (warmup : UInt64) {c : OpClass}
    (hc : classify ndebug cmd = .ok c) {stats : EngineStats} {r : MatchingEngine × List Event}
    (h : MatchingEngine.process ndebug { s.engine with stats } cmd = .ok r) :
    ∃ r, enter ndebug clock warmup s cmd = .ok r := by
  have hrun : ∃ r, (if s.processed = warmup then s.openWindow else s).engine.process ndebug cmd =
      .ok r := by
    split
    · obtain ⟨stats', hrun⟩ := MatchingEngine.process_with_stats h {}
      exact ⟨_, hrun⟩
    · obtain ⟨stats', hrun⟩ := MatchingEngine.process_with_stats h s.engine.stats
      exact ⟨_, hrun⟩
  obtain ⟨⟨engine, events⟩, hrun⟩ := hrun
  unfold enter
  simp [hc, hrun]

theorem leave_ok (hb : b.cls.byte.toNat < kOpClasses) :
    ∃ s', s.leave clock b = .ok s' ∧ s'.engine = s.engine ∧ s'.logged = s.logged := by
  simp [leave, recordAt, hb]

end EngineThread

namespace LogCaller

/-- Inside a call of `log` or `try_log`. -/
def busy : LogCaller → Bool
  | pushing _ _ | countDrop _ => true
  | _ => false

def offering : LogCaller → List LogCall
  | pushing call _ => [call]
  | _ => []

end LogCaller

namespace AsyncLogger

variable {s s' : AsyncLogger} {out : List Attempt}

theorem busy_step (hbusy : s.caller.busy = true) (hstep : s.step .producer = .ok (s', out)) :
    out.map Attempt.call ++ s'.caller.offering = s.caller.offering ∧
      (s'.caller = .idle ∨ s'.caller.busy = true) := by
  obtain ⟨ring, out₁, stop, recordsWritten, recordsDropped, stopping, dirty, caller,
    consumer⟩ := s
  cases caller with
  | pushing call pc =>
    obtain ⟨⟨q, r⟩, -, hstep⟩ := bind_eq_ok.mp hstep
    cases r with
    | next pc' =>
      cases hstep
      exact ⟨rfl, .inr rfl⟩
    | done ok =>
      cases call <;> cases ok <;> cases hstep
      · exact ⟨rfl, .inr rfl⟩
      · exact ⟨rfl, .inl rfl⟩
      · exact ⟨rfl, .inl rfl⟩
      · exact ⟨rfl, .inl rfl⟩
  | countDrop rec =>
    cases hstep
    exact ⟨rfl, .inl rfl⟩
  | _ => cases hbusy

theorem consumer_step (hstep : s.step .consumer = .ok (s', out)) :
    out = [] ∧ s'.caller = s.caller := by
  obtain ⟨s₁, hrun, he⟩ := bind_eq_ok.mp hstep
  cases he
  exact ⟨rfl, stepConsumer_caller hrun⟩

theorem inStop_producer (h : s.caller = .storeStop ∨ s.caller = .join)
    (hstep : s.step .producer = .ok (s', out)) : out = [] ∧
      (s'.caller = .storeStop ∨ s'.caller = .join ∨ s'.caller = .stopped) := by
  rcases h with h | h
  · simp only [step, stepCaller, h] at hstep
    cases hstep
    exact ⟨rfl, .inr (.inl rfl)⟩
  · simp only [step, stepCaller, h] at hstep
    split at hstep
    · cases hstep
      exact ⟨rfl, .inr (.inr rfl)⟩
    · cases hstep
      exact ⟨rfl, .inr (.inl h)⟩

end AsyncLogger

def MainThread.Admits : MainThread → LogCaller → Prop
  | joinProducer, c | joinEngine, c | callStop, c => c = .idle ∨ c.busy = true
  | inStop, c => c = .storeStop ∨ c = .join ∨ c = .stopped
  | checks, c | done, c => c = .stopped

/-- The order of the joins. -/
def MainThread.pastProducer : MainThread → Bool
  | joinProducer => false
  | _ => true

def MainThread.pastEngine : MainThread → Bool
  | joinProducer | joinEngine => false
  | _ => true

namespace E2e

variable {j : E2eJob} {k kl : Nat} {s s' : E2e} {log out : List Attempt}
  {processed : List Command}

/-- The part of the harness that mirrors `run`, with counters that are never reset and the
count that `run` keeps. -/
def pipe (s : E2e) (stats : EngineStats) (n result : UInt64) : Pipeline :=
  { queue := s.cmdRing
    stop := s.stop
    feeder := s.feeder
    engine := { s.run.engine with stats }
    processed := n
    stopping := s.stopping
    loop := s.loop.runLoop result }

theorem stepProducer_pipe (s : E2e) (stats : EngineStats) (n result : UInt64) :
    (s.pipe stats n result).stepProducer =
      s.stepProducer >>= fun s => pure (s.pipe stats n result) := by
  obtain ⟨cmdRing, stop, feeder, run, stopping, loop, logger, main⟩ := s
  cases feeder with
  | stopped => rfl
  | next todo => cases todo <;> rfl
  | pushing pc rest =>
    simp only [Pipeline.stepProducer, stepProducer, pipe]
    cases pc.step cmdRing with
    | error f => rfl
    | ok r =>
      obtain ⟨q, r⟩ := r
      cases r <;> rfl

theorem stepProducer_frame (h : s.stepProducer = .ok s') :
    s'.run = s.run ∧ s'.loop = s.loop ∧ s'.logger = s.logger ∧ s'.main = s.main ∧
      (s.feeder = .stopped → s'.feeder = .stopped) := by
  unfold stepProducer at h
  split at h
  · rename_i hf
    cases h
    simp [hf]
  · cases h
    simp
  · rename_i hf
    obtain ⟨⟨q, r⟩, -, h⟩ := bind_eq_ok.mp h
    cases r <;> cases h <;> simp [hf]
  · cases h
    simp

/-- What the engine thread will have done once the command in flight is through. -/
def finish (clock : Nat → UInt64) (s : E2e) : Exec EngineThread :=
  match s.loop.inFlight with
  | some b => s.run.leave clock b
  | none => pure s.run

/-- What a step of the engine thread leaves alone when it neither begins a command nor is
in the middle of one. -/
structure Front (s s' : E2e) (n result n' result' : UInt64) : Prop where
  run : s'.run = s.run
  inFlight : s'.loop.inFlight = none
  logger : s'.logger = s.logger
  main : s'.main = s.main
  feeder : s'.feeder = s.feeder
  broke : s.loop = .broke → s'.loop = .broke
  count : n' + UInt64.ofNat (s'.loop.runLoop result').uncounted =
    n + UInt64.ofNat (s.loop.runLoop result).uncounted

/-- Such a step is one of `run`. -/
theorem front_pipe (hflight : s.loop.inFlight = none)
    (hentry : ∀ batch i, s.loop = .entry batch i → i = batch.length)
    (hstep : s.stepEngine j = .ok (s', out)) (stats : EngineStats) (n result : UInt64) :
    ∃ n' result', (s.pipe stats n result).stepEngine j.ndebug = .ok (s'.pipe stats n' result', []) ∧
      out = [] ∧ s.Front s' n result n' result' := by
  obtain ⟨cmdRing, stop, feeder, run, stopping, loop, logger, main⟩ := s
  cases loop with
  | inProcess batch i b => cases hflight
  | broke =>
    cases hstep
    exact ⟨n, result, rfl, rfl, rfl, rfl, rfl, rfl, rfl, fun _ => rfl, rfl⟩
  | loadStop =>
    cases hstep
    exact ⟨n, result, rfl, rfl, rfl, rfl, rfl, rfl, rfl, (fun h => by cases h), rfl⟩
  | popping pc =>
    obtain ⟨⟨q, r⟩, hrun, hstep⟩ := bind_eq_ok.mp hstep
    refine ⟨n, result, ?_⟩
    cases r with
    | next pc' =>
      cases hstep
      refine ⟨?_, rfl, rfl, rfl, rfl, rfl, rfl, (fun h => by cases h), rfl⟩
      simp only [Pipeline.stepEngine, pipe, E2eLoop.runLoop, hrun, ok_bind]
      rfl
    | done batch =>
      cases hstep
      refine ⟨?_, rfl, rfl, rfl, rfl, rfl, rfl, (fun h => by cases h), rfl⟩
      simp only [Pipeline.stepEngine, pipe, E2eLoop.runLoop, hrun, ok_bind]
      rfl
  | entry batch i =>
    obtain rfl := hentry batch i rfl
    have hnone : batch[batch.length]? = none := List.getElem?_eq_none le_rfl
    refine ⟨n + UInt64.ofNat batch.length, n + UInt64.ofNat batch.length, ?_⟩
    simp only [stepEngine, hnone] at hstep
    simp only [Pipeline.stepEngine, pipe, E2eLoop.runLoop, hnone]
    split at hstep
    · rename_i hn
      cases hstep
      rw [if_pos hn]
      exact ⟨rfl, rfl, rfl, rfl, rfl, rfl, rfl, (fun h => by cases h), UInt64.add_zero _⟩
    · rename_i hn
      rw [if_neg hn]
      cases stopping <;> cases hstep <;>
        exact ⟨rfl, rfl, rfl, rfl, rfl, rfl, rfl, (fun h => by cases h), UInt64.add_zero _⟩

section

variable {batch : List Command} {i : Nat} {b : InFlight}

theorem stepEngine_call (hloop : s.loop = .inProcess batch i b) (hidle : s.logger.caller = .idle)
    {e : Event} {events : List Event} (hb : b.events = e :: events) : s.stepEngine j =
      s.logger.step (.call (LogCall.logEvent b.cmdTs e)) >>= fun r =>
        pure ({ s with logger := r.1, loop := .inProcess batch i { b with events } }, r.2) := by
  simp only [stepEngine, hloop, hidle, hb]

theorem stepEngine_leave (hloop : s.loop = .inProcess batch i b)
    (hidle : s.logger.caller = .idle) (hb : b.events = []) : s.stepEngine j =
      s.run.leave j.clock b >>= fun run =>
        pure ({ s with run, loop := .entry batch (i + 1) }, []) := by
  simp only [stepEngine, hloop, hidle, hb]

theorem stepEngine_busy (hloop : s.loop = .inProcess batch i b)
    (hbusy : s.logger.caller.busy = true) : s.stepEngine j =
      s.logger.step .producer >>= fun r => pure ({ s with logger := r.1 }, r.2) := by
  simp only [stepEngine, hloop]
  cases hc : s.logger.caller <;> simp [hc, LogCaller.busy] at hbusy <;> rfl

end

end E2e

end LimitOrderBook
