import LimitOrderBook.E2eAccounts
import LimitOrderBook.EngineProgress
import LimitOrderBook.LoggerProgress

set_option autoImplicit false

namespace LimitOrderBook
open Checked Wrapping Schedule

def LogCaller.left : LogCaller → Nat
  | pushing _ pc => pc.left + 1
  | countDrop _ => 1
  | _ => 0

theorem AsyncLogger.busy_left {s s' : AsyncLogger} {out : List Attempt}
    (hbusy : s.caller.busy = true) (hstep : s.step .producer = .ok (s', out)) :
    s'.caller.left < s.caller.left := by
  obtain ⟨ring, out₁, stop, recordsWritten, recordsDropped, stopping, dirty, caller,
    consumer⟩ := s
  cases caller with
  | pushing call pc =>
    obtain ⟨⟨q, r⟩, hrun, hstep⟩ := bind_eq_ok.mp hstep
    have hpos := pc.left_bounds
    cases r with
    | next pc' =>
      cases hstep
      have hleft := TryPush.step_left hrun
      simp only [LogCaller.left]
      omega
    | done ok =>
      cases call <;> cases ok <;> cases hstep <;> simp only [LogCaller.left] <;> omega
  | countDrop rec =>
    cases hstep
    simp [LogCaller.left]
  | _ => cases hbusy

def E2eLoop.left (caller : LogCaller) : E2eLoop → Nat
  | inProcess _ _ b => 8 * b.events.length + caller.left + 1
  | _ => 0

def MainThread.left : MainThread → Nat
  | joinProducer => 5
  | joinEngine => 4
  | callStop => 3
  | inStop => 2
  | checks => 1
  | done => 0

namespace E2e

variable {j : E2eJob} {k kl : Nat} {s s' : E2e} {log out : List Attempt} {t : E2eThread}

/-- The threads of `run` in the harness. -/
def thread : Thread → E2eThread
  | .producer => .producer
  | .consumer => .engine

/-- The part that mirrors `run`; what it ranks does not depend on the counters. -/
def front (s : E2e) : Pipeline := s.pipe {} 0 0

def drainer (s : E2e) : E2eThread :=
  if s.loop.inFlight.isSome then .engine else thread s.front.helper

def drainRank (s : E2e) : (ℕ ×ₗ ℕ ×ₗ ℕ) ×ₗ ℕ :=
  toLex (s.front.rank, s.loop.left s.logger.caller)

theorem drainRank_front (h : s'.front.rank < s.front.rank) : s'.drainRank < s.drainRank :=
  Prod.Lex.toLex_lt_toLex.mpr (.inl h)

theorem drainRank_left (h : s'.front.rank = s.front.rank)
    (hleft : s'.loop.left s'.logger.caller < s.loop.left s.logger.caller) :
    s'.drainRank < s.drainRank :=
  Prod.Lex.toLex_lt_toLex.mpr (.inr ⟨h, hleft⟩)

/-- What the engine thread may do while a command is in flight. -/
theorem inProcess_cases {batch : List Command} {i : Nat} {b : InFlight}
    (hloop : s.loop = .inProcess batch i b) (h : s.stepEngine j = .ok (s', out)) :
    (s.logger.caller ≠ .idle ∧ ∃ logger, s.logger.step .producer = .ok (logger, out) ∧
      s' = { s with logger }) ∨
    (s.logger.caller = .idle ∧ ∃ e events logger, b.events = e :: events ∧
      s.logger.step (.call (LogCall.logEvent b.cmdTs e)) = .ok (logger, out) ∧
      s' = { s with logger, loop := .inProcess batch i { b with events } }) ∨
    (out = [] ∧ ∃ run, s' = { s with run, loop := .entry batch (i + 1) }) := by
  by_cases hidle : s.logger.caller = .idle
  · cases hb : b.events with
    | nil =>
      rw [stepEngine_leave hloop hidle hb] at h
      obtain ⟨run, -, h⟩ := bind_eq_ok.mp h
      cases h
      exact .inr (.inr ⟨rfl, run, rfl⟩)
    | cons e events =>
      rw [stepEngine_call hloop hidle hb] at h
      obtain ⟨⟨logger, out₁⟩, hrun, h⟩ := bind_eq_ok.mp h
      cases h
      exact .inr (.inl ⟨hidle, e, events, logger, rfl, hrun, rfl⟩)
  · have hgo : s.stepEngine j =
        s.logger.step .producer >>= fun r => pure ({ s with logger := r.1 }, r.2) := by
      simp only [stepEngine, hloop]
      cases hc : s.logger.caller with
      | idle => exact absurd hc hidle
      | _ => rfl
    rw [hgo] at h
    obtain ⟨⟨logger, out₁⟩, hrun, h⟩ := bind_eq_ok.mp h
    cases h
    exact .inl ⟨hidle, logger, hrun, rfl⟩

theorem outside_cases (hflight : s.loop.inFlight = none) (h : s.stepEngine j = .ok (s', out)) :
    out = [] ∧ s'.logger = s.logger ∧ s'.main = s.main ∧ s'.feeder = s.feeder ∧
      s'.stop = s.stop := by
  obtain ⟨cmdRing, stop, feeder, run, stopping, loop, logger, main⟩ := s
  cases loop with
  | inProcess batch i b => cases hflight
  | broke =>
    cases h
    exact ⟨rfl, rfl, rfl, rfl, rfl⟩
  | loadStop =>
    cases h
    exact ⟨rfl, rfl, rfl, rfl, rfl⟩
  | popping pc =>
    obtain ⟨⟨q, r⟩, -, h⟩ := bind_eq_ok.mp h
    cases r <;> cases h <;> exact ⟨rfl, rfl, rfl, rfl, rfl⟩
  | entry batch i =>
    simp only [stepEngine] at h
    split at h
    · obtain ⟨⟨run', b⟩, -, h⟩ := bind_eq_ok.mp h
      cases h
      exact ⟨rfl, rfl, rfl, rfl, rfl⟩
    · split at h
      · cases h
        exact ⟨rfl, rfl, rfl, rfl, rfl⟩
      · split at h <;> cases h <;> exact ⟨rfl, rfl, rfl, rfl, rfl⟩

theorem stepMain_frame (h : s.stepMain j = .ok (s', out)) :
    s'.cmdRing = s.cmdRing ∧ s'.stop = s.stop ∧ s'.feeder = s.feeder ∧ s'.run = s.run ∧
      s'.stopping = s.stopping ∧ s'.loop = s.loop ∧
      ((s'.logger = s.logger ∧ out = []) ∨
        s.main.pastEngine = true ∧ ∃ c, s.logger.step c = .ok (s'.logger, out)) := by
  unfold stepMain at h
  split at h
  · split at h <;> cases h <;> simp
  · split at h <;> cases h <;> simp
  · rename_i hm
    obtain ⟨⟨logger, out₁⟩, hrun, he⟩ := bind_eq_ok.mp h
    cases he
    exact ⟨rfl, rfl, rfl, rfl, rfl, rfl, .inr ⟨by rw [hm]; rfl, _, hrun⟩⟩
  · rename_i hm
    split at h
    · cases h
      simp
    · obtain ⟨⟨logger, out₁⟩, hrun, he⟩ := bind_eq_ok.mp h
      cases he
      exact ⟨rfl, rfl, rfl, rfl, rfl, rfl, .inr ⟨by rw [hm]; rfl, _, hrun⟩⟩
  · split at h
    · cases h
      simp
    · obtain ⟨u, -, h⟩ := bind_eq_ok.mp h
      obtain ⟨u', -, h⟩ := bind_eq_ok.mp h
      cases h
      simp
  · cases h
    simp

theorem inFlight_eq {b : InFlight} (h : s.loop.inFlight = some b) :
    ∃ batch i, s.loop = .inProcess batch i b := by
  cases hl : s.loop with
  | inProcess batch i b' =>
    rw [hl] at h
    obtain rfl := Option.some.inj h
    exact ⟨batch, i, rfl⟩
  | _ => simp [hl, E2eLoop.inFlight] at h

theorem step_logger (h : s.step j t = .ok (s', out)) :
    (s'.logger = s.logger ∧ out = []) ∨ ∃ c, s.logger.step c = .ok (s'.logger, out) := by
  cases t with
  | producer =>
    obtain ⟨s₁, hrun, he⟩ := bind_eq_ok.mp h
    cases he
    exact .inl ⟨(stepProducer_frame hrun).2.2.1, rfl⟩
  | logger =>
    obtain ⟨⟨logger, out₁⟩, hrun, he⟩ := bind_eq_ok.mp h
    cases he
    exact .inr ⟨_, hrun⟩
  | engine =>
    cases hf : s.loop.inFlight with
    | none =>
      obtain ⟨hout, hlogger, -⟩ := outside_cases hf h
      exact .inl ⟨hlogger, hout⟩
    | some b =>
      obtain ⟨batch, i, hl⟩ := inFlight_eq hf
      rcases inProcess_cases hl h with
        ⟨-, logger, hrun, rfl⟩ | ⟨-, e, events, logger, -, hrun, rfl⟩ | ⟨rfl, run, rfl⟩
      · exact .inr ⟨_, hrun⟩
      · exact .inr ⟨_, hrun⟩
      · exact .inl ⟨rfl, rfl⟩
  | main =>
    rcases (stepMain_frame h).2.2.2.2.2.2 with hsame | ⟨-, hstep⟩
    · exact .inl hsame
    · exact .inr hstep

/-- The invariant, that whoever has passed a store of a flag has stored it, and that the
loop breaks only when the producer is through. -/
structure Live (j : E2eJob) (k kl : Nat) (s : E2e) (log : List Attempt) : Prop where
  inv : s.Inv j k kl log
  logger : s.logger.Live kl log
  stored : s.feeder.active = false → s.stop = true
  broke : s.loop = .broke → s.feeder = .stopped

theorem start_live {q : SPSCQueue Command} {lq : SPSCQueue LogRecord}
    (h : RingOk k q none none [] []) (hl : RingOk kl lq none none [] []) :
    (start j q lq).Live j k kl [] :=
  ⟨start_inv h hl, ⟨AsyncLogger.start_inv hl, nofun⟩, nofun, nofun⟩

theorem stored_of_step (h : s.feeder.active = false → s.stop = true)
    (hstep : s.step j t = .ok (s', out)) : s'.feeder.active = false → s'.stop = true := by
  have hsame : s'.feeder = s.feeder → s'.stop = s.stop → s'.feeder.active = false →
      s'.stop = true := by
    intro hf hs
    rwa [hf, hs]
  cases t with
  | producer =>
    obtain ⟨s₁, hrun, he⟩ := bind_eq_ok.mp hstep
    cases he
    have hpipe : (s.pipe {} 0 0).step j.ndebug .producer = .ok (s'.pipe {} 0 0, []) := by
      simp [Pipeline.step, stepProducer_pipe, hrun]
    exact Pipeline.stored_of_step h hpipe
  | logger =>
    obtain ⟨⟨logger, out₁⟩, hrun, he⟩ := bind_eq_ok.mp hstep
    cases he
    exact h
  | main =>
    obtain ⟨-, hs, hf, -⟩ := stepMain_frame hstep
    exact hsame hf hs
  | engine =>
    cases hf : s.loop.inFlight with
    | none =>
      obtain ⟨-, -, -, hfeeder, hstop⟩ := outside_cases hf hstep
      exact hsame hfeeder hstop
    | some b =>
      obtain ⟨batch, i, hl⟩ := inFlight_eq hf
      rcases inProcess_cases hl hstep with
        ⟨-, logger, -, rfl⟩ | ⟨-, e, events, logger, -, -, rfl⟩ | ⟨-, run, rfl⟩ <;> exact h

theorem stopping_of_broke (hstep : s.stepEngine j = .ok (s', out)) (hbroke : s'.loop = .broke) :
    s.loop = .broke ∨ s.stopping = true := by
  obtain ⟨cmdRing, stop, feeder, run, stopping, loop, logger, main⟩ := s
  cases loop with
  | broke => exact .inl rfl
  | loadStop =>
    cases hstep
    cases hbroke
  | popping pc =>
    obtain ⟨⟨q, r⟩, -, hstep⟩ := bind_eq_ok.mp hstep
    cases r <;> cases hstep <;> cases hbroke
  | inProcess batch i b =>
    rcases inProcess_cases rfl hstep with
      ⟨-, logger, -, rfl⟩ | ⟨-, e, events, logger, -, -, rfl⟩ | ⟨-, run, rfl⟩ <;> cases hbroke
  | entry batch i =>
    simp only [stepEngine] at hstep
    split at hstep
    · obtain ⟨⟨run', b⟩, -, hstep⟩ := bind_eq_ok.mp hstep
      cases hstep
      cases hbroke
    · split at hstep
      · cases hstep
        cases hbroke
      · split at hstep
        · rename_i hs
          exact .inr hs
        · cases hstep
          cases hbroke

theorem broke_of_step (h : s.Inv j k kl log) (hb : s.loop = .broke → s.feeder = .stopped)
    (hstep : s.step j t = .ok (s', out)) : s'.loop = .broke → s'.feeder = .stopped := by
  cases t with
  | producer =>
    obtain ⟨s₁, hrun, he⟩ := bind_eq_ok.mp hstep
    cases he
    obtain ⟨-, hl, -, -, hstopped⟩ := stepProducer_frame hrun
    rw [hl]
    exact fun hbroke => hstopped (hb hbroke)
  | logger =>
    obtain ⟨⟨logger, out₁⟩, hrun, he⟩ := bind_eq_ok.mp hstep
    cases he
    exact hb
  | main =>
    obtain ⟨-, -, hf, -, -, hl, -⟩ := stepMain_frame hstep
    rwa [hf, hl]
  | engine =>
    intro hbroke
    have hfeeder : s.feeder = .stopped := by
      rcases stopping_of_broke hstep hbroke with hl | hs
      · exact hb hl
      · obtain ⟨processed, h⟩ := h
        obtain ⟨stats, n, result, events, pushed, popped, hpipe⟩ := h.pipe
        exact hpipe.stopped (hpipe.seen hs)
    cases hf : s.loop.inFlight with
    | none =>
      obtain ⟨-, -, -, hsame, -⟩ := outside_cases hf hstep
      rwa [hsame]
    | some b =>
      obtain ⟨batch, i, hl⟩ := inFlight_eq hf
      rcases inProcess_cases hl hstep with
        ⟨-, logger, -, rfl⟩ | ⟨-, e, events, logger, -, -, rfl⟩ | ⟨-, run, rfl⟩ <;> exact hfeeder

theorem live_step (hcmds : validateCommands j.cmds = none) (hlen : j.cmds.length < 2 ^ 64)
    (hsound : j.Sound) (h : s.Live j k kl log) (t : E2eThread) :
    ∃ s' out, s.step j t = .ok (s', out) ∧ s'.Live j k kl (log ++ out) := by
  obtain ⟨s', out, hstep, hinv⟩ :=
    (step_inv hcmds hlen h.inv t).resolve_right fun hf => hf.2 hsound
  refine ⟨s', out, hstep, hinv, ?_, stored_of_step h.stored hstep,
    broke_of_step h.inv h.broke hstep⟩
  rcases step_logger hstep with ⟨hsame, rfl⟩ | ⟨c, hrun⟩
  · rw [hsame, List.append_nil]
    exact h.logger
  · obtain ⟨logger, out', hrun', hlive⟩ := AsyncLogger.live_step h.logger c
    cases hrun'.symm.trans hrun
    exact hlive

theorem rank_front (s : E2e) (stats : EngineStats) (n result : UInt64) :
    (s.pipe stats n result).rank = s.front.rank := by
  obtain ⟨cmdRing, stop, feeder, run, stopping, loop, logger, main⟩ := s
  cases loop <;> rfl

theorem helper_front (s : E2e) (stats : EngineStats) (n result : UInt64) :
    (s.pipe stats n result).helper = s.front.helper := by
  obtain ⟨cmdRing, stop, feeder, run, stopping, loop, logger, main⟩ := s
  cases loop <;> rfl

/-- A step brings the loop nearer to its end, or is none of the thread that can. -/
def Nearer (s s' : E2e) (t : E2eThread) : Prop :=
  s'.drainRank < s.drainRank ∨
    (t ≠ s.drainer ∧ s'.drainRank = s.drainRank ∧ s'.drainer = s.drainer)

theorem nearer_of_pipe {thr : Thread} {stats stats' : EngineStats} {n n' result result' : UInt64}
    (h : (s.pipe stats n result).Nearer (s'.pipe stats' n' result') thr)
    (hleft : s'.loop.left s'.logger.caller = s.loop.left s.logger.caller)
    (hflight : s'.loop.inFlight.isSome = s.loop.inFlight.isSome)
    (hthr : s.loop.inFlight.isSome → thread thr ≠ .engine) : s.Nearer s' (thread thr) := by
  rcases h with hlt | ⟨hne, hrank, hhelper⟩
  · rw [rank_front, rank_front] at hlt
    exact .inl (drainRank_front hlt)
  · rw [rank_front, rank_front] at hrank
    rw [helper_front, helper_front] at hhelper
    rw [helper_front] at hne
    refine .inr ⟨?_, ?_, ?_⟩
    · unfold drainer
      split
      · rename_i hb
        exact hthr hb
      · intro he
        apply hne
        cases thr <;> cases hh : s.front.helper <;> simp [thread, hh] at he ⊢
    · rw [drainRank, drainRank, hrank, hleft]
    · rw [drainer, drainer, hhelper, hflight]

theorem producer_nearer (h : s.Live j k kl log) (hstep : s.stepProducer = .ok s') :
    s.Nearer s' .producer := by
  obtain ⟨processed, hat⟩ := h.inv
  obtain ⟨stats, n, result, events, pushed, popped, hpipe⟩ := hat.pipe
  obtain ⟨-, hl, hlog, -⟩ := stepProducer_frame hstep
  have hrun : (s.pipe stats n result).stepProducer = .ok (s'.pipe stats n result) := by
    simp [stepProducer_pipe, hstep]
  have hnear : (s.pipe stats n result).Nearer (s'.pipe stats n result) .producer := by
    rcases Pipeline.stepProducer_nearer ⟨_, _, _, hpipe⟩ hrun with hnear | ⟨hsame, ha⟩
    · exact hnear
    · exact .inr ⟨by simp [Pipeline.helper, ha], by rw [hsame], by rw [hsame]⟩
  exact nearer_of_pipe hnear (by rw [hl, hlog]) (by rw [hl]) fun _ => by simp [thread]

theorem left_of_none {l : E2eLoop} (h : l.inFlight = none) (caller : LogCaller) :
    l.left caller = 0 := by
  cases l with
  | inProcess batch i b => cases h
  | _ => rfl

theorem inFlight_nearer (h : s.Inv j k kl log) {b : InFlight} (hf : s.loop.inFlight = some b)
    (hstep : s.stepEngine j = .ok (s', out)) : s'.drainRank < s.drainRank := by
  obtain ⟨processed, hat⟩ := h
  obtain ⟨batch, i, hl⟩ := inFlight_eq hf
  have hadmits := hat.admits
  have hbroke := hat.broke
  obtain ⟨cmdRing, stop, feeder, run, stopping, loop, logger, main⟩ := s
  obtain rfl : loop = .inProcess batch i b := hl
  have hcaller : logger.caller = .idle ∨ logger.caller.busy = true := by
    cases main <;> first | exact hadmits | cases hbroke rfl
  rcases inProcess_cases rfl hstep with
    ⟨hidle, logger', hrun, rfl⟩ | ⟨hidle, e, events, logger', hb, hrun, rfl⟩ | ⟨-, run', rfl⟩
  · have hleft := AsyncLogger.busy_left (hcaller.resolve_left hidle) hrun
    refine drainRank_left rfl ?_
    simp only [E2eLoop.left]
    omega
  · have hcalled := hrun
    cases hcalled.symm.trans (if_pos hidle)
    refine drainRank_left rfl ?_
    simp only [E2eLoop.left, LogCaller.left, TryPush.left, hb, List.length_cons]
    omega
  · refine drainRank_left rfl ?_
    simp only [E2eLoop.left]
    omega

theorem begin_nearer {batch : List Command} {i : Nat} {cmd : Command}
    (hl : s.loop = .entry batch i) (hget : batch[i]? = some cmd)
    (hstep : s.stepEngine j = .ok (s', out)) : s'.drainRank < s.drainRank := by
  obtain ⟨hi, -⟩ := List.getElem?_eq_some_iff.mp hget
  simp only [stepEngine, hl, hget] at hstep
  obtain ⟨⟨run, b⟩, -, hstep⟩ := bind_eq_ok.mp hstep
  cases hstep
  refine drainRank_front (Pipeline.rank_left (Nat.add_lt_add_right (Nat.add_lt_add_left ?_ _) _))
  simp only [front, pipe, hl, E2eLoop.runLoop, Pipeline.waiting, RunLoop.pending, List.length_drop]
  omega

theorem engine_nearer (h : s.Live j k kl log) (hbusy : s.loop ≠ .broke)
    (hstep : s.stepEngine j = .ok (s', out)) : s'.loop = .broke ∨ s.Nearer s' .engine := by
  obtain ⟨processed, hat⟩ := h.inv
  obtain ⟨stats, n, result, events, pushed, popped, hpipe⟩ := hat.pipe
  cases hf : s.loop.inFlight with
  | some b => exact .inr (.inl (inFlight_nearer h.inv hf hstep))
  | none =>
    by_cases hbegin : ∃ batch i cmd, s.loop = .entry batch i ∧ batch[i]? = some cmd
    · obtain ⟨batch, i, cmd, hl, hget⟩ := hbegin
      exact .inr (.inl (begin_nearer hl hget hstep))
    · have hentry : ∀ batch i, s.loop = .entry batch i → i = batch.length := by
        intro batch i hl
        have hle : i ≤ batch.length := hpipe.within batch i (by simp [pipe, hl, E2eLoop.runLoop])
        have hge : ¬ i < batch.length := fun hi =>
          hbegin ⟨batch, i, batch[i], hl, List.getElem?_eq_getElem hi⟩
        omega
      obtain ⟨n', result', hrun, rfl, hfront⟩ := front_pipe hf hentry hstep stats n result
      have hlive : (s.pipe stats n result).Live j.ndebug j.cmds j.engine k events :=
        ⟨⟨_, _, _, hpipe⟩, h.stored⟩
      have hret : (s.pipe stats n result).loop.isReturned = false := by
        cases hl : s.loop <;> simp [hl] at hbusy <;>
          simp [pipe, hl, E2eLoop.runLoop, RunLoop.isReturned]
      rcases Pipeline.stepEngine_nearer hlive hrun hret with hdone | hnear
      · refine .inl ?_
        cases hl : s'.loop <;> simp [pipe, hl, E2eLoop.runLoop, RunLoop.isReturned] at hdone ⊢
      · refine .inr (nearer_of_pipe hnear ?_ (by rw [hfront.inFlight, hf]) (by simp [hf]))
        rw [left_of_none hf, left_of_none hfront.inFlight]

theorem other_nearer (h : s.Inv j k kl log) (hbusy : s.loop ≠ .broke)
    (ht : t = .logger ∨ t = .main) (hstep : s.step j t = .ok (s', out)) : s.Nearer s' t := by
  have hne : t ≠ s.drainer := by
    unfold drainer
    rcases ht with rfl | rfl
    · split
      · simp
      · cases s.front.helper <;> simp [thread]
    · split
      · simp
      · cases s.front.helper <;> simp [thread]
  have hsame : ∀ s₁ : E2e, s₁.cmdRing = s.cmdRing → s₁.stop = s.stop → s₁.feeder = s.feeder →
      s₁.run = s.run → s₁.stopping = s.stopping → s₁.loop = s.loop →
      s₁.logger.caller = s.logger.caller → s.Nearer s₁ t := by
    intro s₁ h₁ h₂ h₃ h₄ h₅ h₆ h₇
    have hfront : s₁.front = s.front := by rw [front, front, pipe, pipe, h₁, h₂, h₃, h₄, h₅, h₆]
    exact .inr ⟨hne, by rw [drainRank, drainRank, hfront, h₆, h₇],
      by rw [drainer, drainer, hfront, h₆]⟩
  rcases ht with rfl | rfl
  · obtain ⟨⟨logger, out₁⟩, hrun, he⟩ := bind_eq_ok.mp hstep
    cases he
    exact hsame _ rfl rfl rfl rfl rfl rfl (AsyncLogger.consumer_step hrun).2
  · obtain ⟨processed, hat⟩ := h
    obtain ⟨h₁, h₂, h₃, h₄, h₅, h₆, hlogger⟩ := stepMain_frame hstep
    rcases hlogger with ⟨hl, -⟩ | ⟨hpast, -⟩
    · exact hsame s' h₁ h₂ h₃ h₄ h₅ h₆ (by rw [hl])
    · exact absurd (hat.broke hpast) hbusy

theorem drains (hcmds : validateCommands j.cmds = none) (hlen : j.cmds.length < 2 ^ 64)
    (hsound : j.Sound) : Descends (step j) (fun _ => True) (Live j k kl)
      (fun s => s.loop = .broke) drainer drainRank := by
  refine ⟨fun s log t _ h hbusy => ?_⟩
  obtain ⟨s', out, hstep, hlive⟩ := live_step hcmds hlen hsound h t
  refine ⟨s', out, hstep, hlive, ?_⟩
  cases t with
  | producer =>
    obtain ⟨s₁, hrun, he⟩ := bind_eq_ok.mp hstep
    cases he
    exact .inr (producer_nearer h hrun)
  | engine => exact engine_nearer h hbusy hstep
  | logger => exact .inr (other_nearer h.inv hbusy (.inl rfl) hstep)
  | main => exact .inr (other_nearer h.inv hbusy (.inr rfl) hstep)

def Ended (j : E2eJob) (k kl : Nat) (s : E2e) (log : List Attempt) : Prop :=
  s.Live j k kl log ∧ s.loop = .broke

def winder (s : E2e) : E2eThread :=
  if s.main = .inStop ∧ s.logger.helper = .consumer then .logger else .main

def windRank (s : E2e) : ℕ ×ₗ (ℕ ×ₗ ℕ ×ₗ ℕ) :=
  toLex (s.main.left, if s.main = .inStop then s.logger.rank else toLex (0, toLex (0, 0)))

theorem windRank_main (h : s'.main.left < s.main.left) : s'.windRank < s.windRank :=
  Prod.Lex.toLex_lt_toLex.mpr (.inl h)

theorem wind_inStop (h : s.main = .inStop) (h' : s'.main = .inStop) :
    (s'.logger.rank < s.logger.rank → s'.windRank < s.windRank) ∧
      (s'.logger.rank = s.logger.rank → s'.windRank = s.windRank) := by
  constructor
  · intro hlt
    refine Prod.Lex.toLex_lt_toLex.mpr (.inr ⟨by rw [h, h'], ?_⟩)
    rwa [if_pos h, if_pos h']
  · intro he
    rw [windRank, windRank, if_pos h, if_pos h', h, h', he]

theorem ended_step (hcmds : validateCommands j.cmds = none) (hlen : j.cmds.length < 2 ^ 64)
    (hsound : j.Sound) (h : s.Ended j k kl log) (t : E2eThread) :
    ∃ s' out, s.step j t = .ok (s', out) ∧ s'.Ended j k kl (log ++ out) := by
  obtain ⟨hlive, hbroke⟩ := h
  obtain ⟨s', out, hstep, hlive'⟩ := live_step hcmds hlen hsound hlive t
  refine ⟨s', out, hstep, hlive', ?_⟩
  cases t with
  | producer =>
    obtain ⟨s₁, hrun, he⟩ := bind_eq_ok.mp hstep
    cases he
    rw [(stepProducer_frame hrun).2.1, hbroke]
  | logger =>
    obtain ⟨⟨logger, out₁⟩, hrun, he⟩ := bind_eq_ok.mp hstep
    cases he
    exact hbroke
  | engine =>
    simp only [step, stepEngine, hbroke] at hstep
    cases hstep
    exact hbroke
  | main =>
    obtain ⟨-, -, -, -, -, hl, -⟩ := stepMain_frame hstep
    rw [hl, hbroke]

theorem inStop_nearer (h : s.Ended j k kl log) (hm : s.main = .inStop) {c : LogChoice}
    {logger : AsyncLogger} (hstop : s.logger.caller ≠ .stopped)
    (hstep : s.logger.step c = .ok (logger, out)) :
    let s' : E2e := { s with logger }
    s'.windRank < s.windRank ∨
      (c ≠ s.logger.helper ∧ s'.windRank = s.windRank ∧ s'.winder = s.winder) := by
  obtain ⟨hlive, hbroke⟩ := h
  obtain ⟨processed, hat⟩ := hlive.inv
  have hadmits := hat.admits
  rw [hm] at hadmits
  have hstopping : s.logger.caller.Stopping := by
    rcases hadmits with hc | hc | hc
    · rw [hc]
      trivial
    · rw [hc]
      trivial
    · exact absurd hc hstop
  obtain ⟨hlower, hsame⟩ := @wind_inStop s { s with logger } hm hm
  obtain ⟨-, hnear⟩ := AsyncLogger.stopping_step hlive.logger hstopping hstep
  rcases hnear with hstopped | ⟨-, hlt | ⟨hne, hrank, hhelper⟩⟩
  · refine .inl (hlower (AsyncLogger.rank_stage ?_))
    cases hcall : s.logger.caller <;> simp [hcall, LogCaller.Stopping] at hstopping <;>
      simp [AsyncLogger.stage, hstopped, hcall]
    split <;> simp
  · exact .inl (hlower hlt)
  · exact .inr ⟨hne, hsame hrank, by simp [winder, hhelper]⟩

theorem done_stays (h : s.Ended j k kl log) (hdone : s.main = .done)
    (hstep : s.step j t = .ok (s', out)) : s'.main = .done := by
  cases t with
  | producer =>
    obtain ⟨s₁, hrun, he⟩ := bind_eq_ok.mp hstep
    cases he
    rw [(stepProducer_frame hrun).2.2.2.1, hdone]
  | logger =>
    obtain ⟨⟨logger, out₁⟩, hrun, he⟩ := bind_eq_ok.mp hstep
    cases he
    exact hdone
  | engine =>
    simp only [step, stepEngine, h.2] at hstep
    cases hstep
    exact hdone
  | main =>
    simp only [step, stepMain, hdone] at hstep
    cases hstep
    exact hdone

theorem windsUp (hcmds : validateCommands j.cmds = none) (hlen : j.cmds.length < 2 ^ 64)
    (hsound : j.Sound) : Descends (step j) (fun _ => True) (Ended j k kl)
      (fun s => s.main = .done) winder windRank := by
  refine ⟨fun s log t _ h hdone => ?_⟩
  obtain ⟨s', out, hstep, hended⟩ := ended_step hcmds hlen hsound h t
  refine ⟨s', out, hstep, hended, ?_⟩
  have hfeeder := h.1.broke h.2
  have hskip : t ≠ s.winder → s' = s → s'.main = .done ∨ s'.windRank < s.windRank ∨
      (t ≠ s.winder ∧ s'.windRank = s.windRank ∧ s'.winder = s.winder) := by
    rintro hne rfl
    exact .inr (.inr ⟨hne, rfl, rfl⟩)
  cases t with
  | producer =>
    simp only [step, stepProducer, hfeeder] at hstep
    cases hstep
    exact hskip (by unfold winder; split <;> simp) rfl
  | engine =>
    simp only [step, stepEngine, h.2] at hstep
    cases hstep
    exact hskip (by unfold winder; split <;> simp) rfl
  | logger =>
    obtain ⟨⟨logger, out₁⟩, hrun, he⟩ := bind_eq_ok.mp hstep
    cases he
    by_cases hm : s.main = .inStop
    · by_cases hstopped : s.logger.caller = .stopped
      · obtain ⟨popped, written, hat⟩ := h.1.logger.1
        obtain ⟨rfl, -⟩ := AsyncLogger.stopped_step hstopped (hat.joined hstopped) hrun
        have hstage : s.logger.stage = 0 := by simp [AsyncLogger.stage, hstopped]
        exact hskip (by simp [winder, AsyncLogger.helper, hstage]) rfl
      · rcases inStop_nearer h hm hstopped hrun with hlt | ⟨hne, hrank, hwinder⟩
        · exact .inr (.inl hlt)
        · refine .inr (.inr ⟨?_, hrank, hwinder⟩)
          simp [winder, hne.symm]
    · refine .inr (.inr ⟨by simp [winder, hm], ?_, by simp [winder, hm]⟩)
      simp [windRank, hm]
  | main =>
    simp only [step, stepMain] at hstep
    cases hm : s.main with
    | done => exact absurd hm hdone
    | joinProducer =>
      simp only [hm, hfeeder] at hstep
      cases hstep
      exact .inr (.inl (windRank_main (by simp [hm, MainThread.left])))
    | joinEngine =>
      simp only [hm, h.2] at hstep
      cases hstep
      exact .inr (.inl (windRank_main (by simp [hm, MainThread.left])))
    | callStop =>
      simp only [hm] at hstep
      obtain ⟨⟨logger, out₁⟩, -, he⟩ := bind_eq_ok.mp hstep
      cases he
      exact .inr (.inl (windRank_main (by simp [hm, MainThread.left])))
    | checks =>
      simp only [hm] at hstep
      refine .inl ?_
      split at hstep
      · cases hstep
        rfl
      · obtain ⟨u, -, hstep⟩ := bind_eq_ok.mp hstep
        obtain ⟨u', -, hstep⟩ := bind_eq_ok.mp hstep
        cases hstep
        rfl
    | inStop =>
      simp only [hm] at hstep
      split at hstep
      · cases hstep
        exact .inr (.inl (windRank_main (by simp [hm, MainThread.left])))
      · rename_i hstopped
        obtain ⟨⟨logger, out₁⟩, hrun, he⟩ := bind_eq_ok.mp hstep
        cases he
        have hnear := inStop_nearer h hm hstopped hrun
        simp only [hm] at hnear
        rcases hnear with hlt | ⟨hne, hrank, hwinder⟩
        · exact .inr (.inl hlt)
        · refine .inr (.inr ⟨?_, hrank, hwinder⟩)
          have hconsumer : s.logger.helper = .consumer := by
            unfold AsyncLogger.helper at hne ⊢
            split at hne
            · rename_i h2
              rw [if_pos h2]
            · exact absurd rfl hne
          simp [winder, hm, hconsumer]

end E2e

theorem E2e.settles {j : E2eJob} {k kl : Nat} {q : SPSCQueue Command} {lq : SPSCQueue LogRecord}
    (hq : RingOk k q none none [] []) (hlq : RingOk kl lq none none [] [])
    (hcmds : validateCommands j.cmds = none) (hlen : j.cmds.length < 2 ^ 64) (hsound : j.Sound)
    {f : Nat → E2eThread} (hfair : ∀ t, FairTo f t) :
    ∃ N, ∀ n, N ≤ n → ∃ s log,
      Schedule.run (E2e.step j) (E2e.start j q lq) (upTo f n) = .ok (s, log) ∧
      s.Inv j k kl log ∧ s.main = .done := by
  have hdrain : LeadsTo (E2e.step j) (E2e.start j q lq) f (E2e.Live j k kl) (E2e.Ended j k kl) :=
    (E2e.drains hcmds hlen hsound).leadsTo (fun _ => trivial) fun s => hfair _
  have hwind : LeadsTo (E2e.step j) (E2e.start j q lq) f (E2e.Ended j k kl)
      fun s log => s.Ended j k kl log ∧ s.main = .done :=
    (E2e.windsUp hcmds hlen hsound).leadsTo (fun _ => trivial) fun s => hfair _
  obtain ⟨N, hN⟩ := (hdrain.trans hwind).settles (C := fun _ => True) (E2e.start_live hq hlq)
    (fun _ => trivial) fun s log t _ h => by
      obtain ⟨s', out, hstep, hended⟩ := E2e.ended_step hcmds hlen hsound h.1 t
      exact ⟨s', out, hstep, hended, E2e.done_stays h.1 h.2 hstep⟩
  refine ⟨N, fun n hn => ?_⟩
  obtain ⟨s, log, hrun, hended, hdone⟩ := hN n hn
  exact ⟨s, log, hrun, hended.1.inv, hdone⟩

/-- Under every fair scheduler `run_e2e` comes to its end, and then it has a report to make. -/
theorem e2e_finishes {capacity logCapacity : UInt64} {q : SPSCQueue Command}
    {lq : SPSCQueue LogRecord} (hq : SPSCQueue.new capacity = .ok q)
    (hlq : SPSCQueue.new logCapacity = .ok lq) (j : E2eJob)
    (hcmds : validateCommands j.cmds = none) (hlen : j.cmds.length < 2 ^ 64)
    (hw : j.warmup.toNat < j.cmds.length) (hsound : j.Sound) (f : Nat → E2eThread)
    (hfair : ∀ t, FairTo f t) :
    ∃ N, ∀ n, N ≤ n → ∃ s log,
      Schedule.run (E2e.step j) (E2e.start j q lq) (upTo f n) = .ok (s, log) ∧
      s.main = .done ∧ s.Reports j log := by
  obtain ⟨k, -, -, hring⟩ := RingOk.new hq
  obtain ⟨kl, -, -, hlring⟩ := RingOk.new hlq
  obtain ⟨N, hN⟩ := E2e.settles hring hlring hcmds hlen hsound hfair
  refine ⟨N, fun n hn => ?_⟩
  obtain ⟨s, log, hrun, hinv, hdone⟩ := hN n hn
  exact ⟨s, log, hrun, hdone, hinv.reports hlen hw hdone⟩

theorem e2e_finishes_small : ∃ q lq e N,
    SPSCQueue.new (UInt64.ofNat 2) = .ok q ∧ SPSCQueue.new (UInt64.ofNat 1) = .ok lq ∧
    MatchingEngine.new { anchorPrice := 100, bandRadius := 1, poolCapacity := 2 } = .ok e ∧
    let j : E2eJob := ⟨false, UInt64.ofNat, 1, e, [⟨.kNew, .kBuy, .kLimit, 0, 1, 100, 0⟩,
      ⟨.kNew, .kSell, .kIoc, 0, 1, 100, 0⟩]⟩
    ∀ n, N ≤ n → ∃ s log, Schedule.run (E2e.step j) (E2e.start j q lq)
        (upTo (roundRobin [.producer, .engine, .logger, .main] (by simp)) n) = .ok (s, log) ∧
      s.main = .done ∧ s.Reports j log := by
  obtain ⟨q, hq⟩ : ∃ q, SPSCQueue.new (T := Command) (UInt64.ofNat 2) = .ok q := ⟨_, rfl⟩
  obtain ⟨lq, hlq⟩ : ∃ q, SPSCQueue.new (T := LogRecord) (UInt64.ofNat 1) = .ok q := ⟨_, rfl⟩
  obtain ⟨e, he⟩ : ∃ e, MatchingEngine.new
      { anchorPrice := 100, bandRadius := 1, poolCapacity := 2 } = .ok e := ⟨_, rfl⟩
  let j : E2eJob := ⟨false, UInt64.ofNat, 1, e, [⟨.kNew, .kBuy, .kLimit, 0, 1, 100, 0⟩,
    ⟨.kNew, .kSell, .kIoc, 0, 1, 100, 0⟩]⟩
  have hrun : ∃ r, (MatchingEngine.new
      { anchorPrice := 100, bandRadius := 1, poolCapacity := 2 } >>= fun e =>
        e.processAll false [⟨.kNew, .kBuy, .kLimit, 0, 1, 100, 0⟩,
          ⟨.kNew, .kSell, .kIoc, 0, 1, 100, 0⟩]) = .ok r ∧
      r.1.book.checkInvariants = .ok () := Holds.exists_ok (by decide)
  rw [he, ok_bind] at hrun
  obtain ⟨r, hrun, hcheck⟩ := hrun
  have hsound : j.Sound := ⟨r, hrun, fun _ => hcheck⟩
  obtain ⟨N, hN⟩ := e2e_finishes hq hlq j rfl (show 2 < 2 ^ 64 by decide)
    (show (1 : UInt64).toNat < 2 by decide) hsound
    (roundRobin [.producer, .engine, .logger, .main] (by simp))
    fun t => roundRobin_fair _ (by cases t <;> simp)
  exact ⟨q, lq, e, N, hq, hlq, he, hN⟩

end LimitOrderBook
