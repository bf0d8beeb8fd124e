import LimitOrderBook.E2ePipeline

set_option autoImplicit false

namespace LimitOrderBook
open Checked

namespace Pipeline

variable {ndebug : Bool} {cmds : List Command} {e₀ : MatchingEngine} {k : Nat} {p p' : Pipeline}
  {events events' : List Event} {pushed popped processed pushed' popped' processed' : List Command}

theorem At.processed_prefix (h : p.At ndebug cmds e₀ k events pushed popped processed) :
    processed <+: cmds := by
  refine List.IsPrefix.trans ?_ h.popped_of_list
  rw [h.popped_eq]
  exact List.prefix_append ..

theorem At.processed_length (h : p.At ndebug cmds e₀ k events pushed popped processed)
    (hlen : cmds.length < 2 ^ 64) :
    processed.length = (p.processed + UInt64.ofNat p.loop.uncounted).toNat := by
  have hfits : processed.length < 2 ^ 64 := lt_of_le_of_lt h.processed_prefix.length_le hlen
  rw [h.count, UInt64.toNat_ofNat_of_lt' hfits]

theorem At.same_processed (h : p.At ndebug cmds e₀ k events pushed popped processed)
    (h' : p'.At ndebug cmds e₀ k events' pushed' popped' processed') (hlen : cmds.length < 2 ^ 64)
    (hcount : p'.processed + UInt64.ofNat p'.loop.uncounted =
      p.processed + UInt64.ofNat p.loop.uncounted) : processed' = processed := by
  have hlength : processed'.length = processed.length := by
    rw [h'.processed_length hlen, h.processed_length hlen, hcount]
  have hpre := List.prefix_of_prefix_length_le h'.processed_prefix h.processed_prefix hlength.le
  exact hpre.eq_of_length hlength

theorem At.next_processed (h : p.At ndebug cmds e₀ k events pushed popped processed)
    (h' : p'.At ndebug cmds e₀ k events' pushed' popped' processed') (hlen : cmds.length < 2 ^ 64)
    {batch : List Command} {i : Nat} {cmd : Command} (hloop : p.loop = .processing batch i)
    (hget : batch[i]? = some cmd) (hloop' : p'.loop = .processing batch (i + 1))
    (hcount : p'.processed = p.processed) : processed' = processed ++ [cmd] := by
  obtain ⟨hi, rfl⟩ := List.getElem?_eq_some_iff.mp hget
  have hpopped : processed ++ [batch[i]] <+: cmds := by
    refine List.IsPrefix.trans ?_ h.popped_of_list
    rw [h.popped_eq, hloop, RunLoop.pending, List.drop_eq_getElem_cons hi]
    exact ⟨batch.drop (i + 1), by simp⟩
  have hlength : processed'.length = (processed ++ [batch[i]]).length := by
    have hfits : (processed ++ [batch[i]]).length < 2 ^ 64 :=
      lt_of_le_of_lt hpopped.length_le hlen
    have hfits' : processed'.length < 2 ^ 64 :=
      lt_of_le_of_lt h'.processed_prefix.length_le hlen
    rw [List.length_append, List.length_singleton] at hfits ⊢
    have hone := h'.count
    rw [hcount, hloop', RunLoop.uncounted, ← Wrapping.ofNat_succ, ← UInt64.add_assoc] at hone
    have hold := h.count
    rw [hloop, RunLoop.uncounted] at hold
    rw [hold, Wrapping.ofNat_succ] at hone
    have hnat := congrArg UInt64.toNat hone
    rw [UInt64.toNat_ofNat_of_lt' hfits, UInt64.toNat_ofNat_of_lt' hfits'] at hnat
    exact hnat.symm
  have hpre := List.prefix_of_prefix_length_le h'.processed_prefix hpopped hlength.le
  exact hpre.eq_of_length hlength

end Pipeline

namespace E2e

variable {j : E2eJob} {k kl : Nat} {s s' : E2e} {log out : List Attempt}
  {processed : List Command}

/-- The records of what the sink was given, stamped with the admission of their command. -/
def handed (s : E2e) : List LogCall := s.run.logged.map fun e => LogCall.logEvent e.1 e.2

/-- The threads, after `processed`. -/
structure At (j : E2eJob) (k kl : Nat) (s : E2e) (log : List Attempt) (processed : List Command) :
    Prop where
  pipe : ∃ stats n result events pushed popped, (s.pipe stats n result).At j.ndebug j.cmds
    j.engine k events pushed popped processed
  thread : processed.foldlM j.command { engine := j.engine } = s.finish j.clock
  range : ∀ b, s.loop.inFlight = some b → b.cls.byte.toNat < kOpClasses
  logger : s.logger.Inv kl log
  offered : log.map Attempt.call ++ s.logger.caller.offering ++ s.loop.unlogged = s.handed
  admits : s.main.Admits s.logger.caller
  quiet : s.loop.inFlight = none → s.logger.caller.busy = false
  joined : s.main.pastProducer = true → s.feeder = .stopped
  broke : s.main.pastEngine = true → s.loop = .broke

def Inv (j : E2eJob) (k kl : Nat) (s : E2e) (log : List Attempt) : Prop :=
  ∃ processed, s.At j k kl log processed

theorem start_inv {q : SPSCQueue Command} {lq : SPSCQueue LogRecord}
    (h : RingOk k q none none [] []) (hl : RingOk kl lq none none [] []) :
    (start j q lq).Inv j k kl [] := by
  refine ⟨[], ?_⟩
  exact {
    pipe := ⟨j.engine.stats, 0, 0, [], [], [], {
      ring := h.callPop (by decide)
      fed := rfl
      stopped := nofun
      seen := nofun
      engine := ⟨[], rfl, rfl⟩
      popped_eq := rfl
      count := rfl
      within := nofun
      drained := nofun
      result := nofun }⟩
    thread := rfl
    range := nofun
    logger := AsyncLogger.start_inv hl
    offered := rfl
    admits := .inl rfl
    quiet := fun _ => rfl
    joined := nofun
    broke := nofun }

theorem stepProducer_inv (hlen : j.cmds.length < 2 ^ 64) (h : s.At j k kl log processed) :
    ∃ s', s.stepProducer = .ok s' ∧ s'.At j k kl log processed := by
  obtain ⟨stats, n, result, events, pushed, popped, hpipe⟩ := h.pipe
  obtain ⟨p', hrun, pushed', popped', processed', hpipe'⟩ :=
    Pipeline.stepProducer_inv ⟨_, _, _, hpipe⟩
  rw [stepProducer_pipe] at hrun
  obtain ⟨s', hstep, he⟩ := bind_eq_ok.mp hrun
  cases he
  obtain ⟨hr, hl, hlog, hmain, hstopped⟩ := stepProducer_frame hstep
  have hsame : processed' = processed := by
    refine hpipe.same_processed hpipe' hlen ?_
    simp [pipe, hl]
  subst hsame
  refine ⟨s', hstep, ⟨stats, n, result, events, pushed', popped', hpipe'⟩, ?_, ?_, ?_, ?_, ?_, ?_,
    ?_, ?_⟩
  · simpa [finish, hl, hr] using h.thread
  · simpa [hl] using h.range
  · simpa [hlog] using h.logger
  · simpa [handed, hl, hr, hlog] using h.offered
  · simpa [hlog, hmain] using h.admits
  · simpa [hl, hlog] using h.quiet
  · rw [hmain]
    exact fun hp => hstopped (h.joined hp)
  · simpa [hl, hmain] using h.broke

theorem front_ok (h : s.At j k kl log processed) (hflight : s.loop.inFlight = none)
    (hentry : ∀ batch i, s.loop = .entry batch i → i = batch.length) :
    ∃ r, s.stepEngine j = .ok r := by
  obtain ⟨stats, n, result, events, pushed, popped, hpipe⟩ := h.pipe
  have hring := hpipe.ring
  obtain ⟨cmdRing, stop, feeder, run, stopping, loop, logger, main⟩ := s
  cases loop with
  | inProcess batch i b => cases hflight
  | broke => exact ⟨_, rfl⟩
  | loadStop => exact ⟨_, rfl⟩
  | popping pc =>
    obtain ⟨q, r, hrun, -⟩ := RingOk.pop_step hring
    have hrun : pc.step cmdRing = .ok (q, r) := hrun
    cases r <;> simp [stepEngine, hrun]
  | entry batch i =>
    obtain rfl := hentry batch i rfl
    simp only [stepEngine, List.getElem?_eq_none le_rfl]
    split
    · exact ⟨_, rfl⟩
    · split <;> exact ⟨_, rfl⟩

theorem front_inv (hlen : j.cmds.length < 2 ^ 64) (h : s.At j k kl log processed)
    (hflight : s.loop.inFlight = none)
    (hentry : ∀ batch i, s.loop = .entry batch i → i = batch.length)
    (hstep : s.stepEngine j = .ok (s', out)) : s'.At j k kl (log ++ out) processed := by
  obtain ⟨stats, n, result, events, pushed, popped, hpipe⟩ := h.pipe
  obtain ⟨n', result', hrun, rfl, hfront⟩ := front_pipe hflight hentry hstep stats n result
  obtain ⟨pushed', popped', processed', hpipe'⟩ :=
    Pipeline.inv_of_step (t := .consumer) ⟨_, _, _, hpipe⟩ hrun
  have hsame : processed' = processed := hpipe.same_processed hpipe' hlen hfront.count
  subst hsame
  have hunlogged : ∀ s₁ : E2e, s₁.loop.inFlight = none → s₁.loop.unlogged = [] := by
    intro s₁ h₁
    cases hl : s₁.loop <;> simp [hl, E2eLoop.inFlight] at h₁ <;> rfl
  have hoffered := h.offered
  rw [hunlogged s hflight] at hoffered
  have hthread := h.thread
  simp only [finish, hflight] at hthread
  rw [List.append_nil]
  exact {
    pipe := ⟨stats, n', result', _, pushed', popped', hpipe'⟩
    thread := by simpa [finish, hfront.inFlight, hfront.run] using hthread
    range := by simp [hfront.inFlight]
    logger := hfront.logger ▸ h.logger
    offered := by
      rw [hunlogged s' hfront.inFlight, hfront.logger]
      simpa [handed, hfront.run] using hoffered
    admits := by
      rw [hfront.main, hfront.logger]
      exact h.admits
    quiet := fun _ => by
      rw [hfront.logger]
      exact h.quiet hflight
    joined := by
      rw [hfront.main, hfront.feeder]
      exact h.joined
    broke := by
      rw [hfront.main]
      exact fun hp => hfront.broke (h.broke hp) }

/-- The first half of an entry. -/
theorem begin_inv (hcmds : validateCommands j.cmds = none) (hlen : j.cmds.length < 2 ^ 64)
    (h : s.At j k kl log processed) {batch : List Command} {i : Nat} {cmd : Command}
    (hloop : s.loop = .entry batch i) (hget : batch[i]? = some cmd) :
    (∃ s' out, s.stepEngine j = .ok (s', out) ∧ s'.Inv j k kl (log ++ out)) ∨
      (∃ f, s.stepEngine j = .error f) ∧ ¬ j.Sound := by
  obtain ⟨stats, n, result, events, pushed, popped, hpipe⟩ := h.pipe
  have hploop : (s.pipe stats n result).loop = .processing batch i := by
    simp [pipe, hloop, E2eLoop.runLoop]
  have hpopped : popped = processed ++ cmd :: batch.drop (i + 1) := by
    obtain ⟨hi, rfl⟩ := List.getElem?_eq_some_iff.mp hget
    rw [hpipe.popped_eq, hploop, RunLoop.pending, List.drop_eq_getElem_cons hi]
  have hmem : cmd ∈ j.cmds := hpipe.popped_of_list.subset (by simp [hpopped])
  obtain ⟨hknown, htype⟩ := validateCommands_none.mp hcmds cmd hmem
  obtain ⟨c, hc, -⟩ := classify_ok hknown htype j.ndebug
  have hengine : (s.pipe stats n result).engine = { s.run.engine with stats } := rfl
  cases hp : MatchingEngine.process j.ndebug { s.run.engine with stats } cmd with
  | error f =>
    refine .inr ⟨?_, ?_⟩
    · cases he : s.run.enter j.ndebug j.clock j.warmup cmd with
      | error f => exact ⟨f, by simp [stepEngine, hloop, hget, he]⟩
      | ok r =>
        obtain ⟨stats', hrun, -⟩ := EngineThread.enter_spec he stats
        cases hp.symm.trans hrun
    · rintro ⟨r, hr, -⟩
      exact hpipe.processAll_error hpopped hp r hr
  | ok r =>
    obtain ⟨⟨run, b⟩, henter⟩ := EngineThread.enter_ok j.clock j.warmup hc hp
    obtain ⟨stats', hrun, hbyte, hlogged⟩ := EngineThread.enter_spec henter stats
    let s₁ : E2e := { s with run, loop := .inProcess batch i b }
    have hpstep : (s.pipe stats n result).step j.ndebug .consumer =
        .ok (s₁.pipe stats' n result, b.events) := by
      simp [Pipeline.step, Pipeline.stepEngine, hploop, hget, hengine, hrun, s₁]
      simp [pipe, E2eLoop.runLoop]
    obtain ⟨pushed', popped', processed', hpipe'⟩ :=
      Pipeline.inv_of_step ⟨_, _, _, hpipe⟩ hpstep
    obtain rfl := hpipe.next_processed hpipe' hlen hploop hget rfl rfl
    refine .inl ⟨s₁, [], by simp [stepEngine, hloop, hget, henter, s₁], processed ++ [cmd], ?_⟩
    have hthread := h.thread
    have hoffered := h.offered
    rw [finish, hloop] at hthread
    rw [hloop] at hoffered
    simp only [E2eLoop.unlogged, List.append_nil] at hoffered
    rw [List.append_nil]
    exact {
      pipe := ⟨stats', n, result, _, pushed', popped', hpipe'⟩
      thread := by
        rw [j.commands_snoc, hthread]
        simp only [E2eLoop.inFlight, pure_bind, E2eJob.command, EngineThread.command_eq, henter,
          ok_bind, finish, s₁]
      range := fun b' hb => by
        cases hb
        exact hbyte
      logger := h.logger
      offered := by
        simp only [s₁, E2eLoop.unlogged, handed, hlogged, List.map_append, List.map_map]
        rw [hoffered]
        rfl
      admits := h.admits
      quiet := fun hq => by cases hq
      joined := h.joined
      broke := fun hp => by cases hloop.symm.trans (h.broke hp) }

/-- A call of the sink, or the second half of the entry. -/
theorem inProcess_inv (h : s.At j k kl log processed) {batch : List Command} {i : Nat}
    {b : InFlight} (hloop : s.loop = .inProcess batch i b) :
    ∃ s' out, s.stepEngine j = .ok (s', out) ∧ s'.At j k kl (log ++ out) processed := by
  have hbyte := h.range b (by simp [hloop, E2eLoop.inFlight])
  have hoffered := h.offered
  have hthread := h.thread
  have hallowed := h.admits
  have hmain : s.main.pastEngine = false := by
    cases hp : s.main.pastEngine with
    | false => rfl
    | true => cases hloop.symm.trans (h.broke hp)
  have hpipe := h.pipe
  obtain ⟨cmdRing, stop, feeder, run, stopping, loop, logger, main⟩ := s
  obtain rfl : loop = .inProcess batch i b := hloop
  have hbroke : main.pastEngine = true → False := by simp_all
  -- Nothing but the logger and the events still to log changes until the sink is through.
  have hsink : ∀ (logger' : AsyncLogger) (out : List Attempt) (b' : InFlight),
      b'.cls = b.cls → b'.cmdTs = b.cmdTs → logger'.Inv kl (log ++ out) →
      (logger'.caller = .idle ∨ logger'.caller.busy = true) →
      (log ++ out).map Attempt.call ++ logger'.caller.offering ++
        b'.events.map (LogCall.logEvent b'.cmdTs) =
        run.logged.map (fun e => LogCall.logEvent e.1 e.2) →
      At j k kl ⟨cmdRing, stop, feeder, run, stopping, .inProcess batch i b', logger', main⟩
        (log ++ out) processed := by
    intro logger' out b' hcls hts hlogger hcaller hoff
    exact { h with
      pipe := hpipe
      thread := by
        rw [hthread]
        simp only [finish, E2eLoop.inFlight, EngineThread.leave, hcls, hts]
      range := fun b₁ hb => by
        cases hb
        rwa [hcls]
      logger := hlogger
      offered := hoff
      admits := by
        cases main <;> first | exact hcaller | cases hmain
      quiet := fun hq => by cases hq
      broke := fun hp => (hbroke hp).elim }
  have hcaller : logger.caller = .idle ∨ logger.caller.busy = true := by
    cases main <;> first | exact hallowed | cases hmain
  rcases hcaller with hidle | hbusy
  · obtain ⟨cmdTs, cls, events⟩ := b
    cases events with
    | nil =>
      obtain ⟨run', hrun, hengine, hlogged⟩ : ∃ run', run.leave j.clock ⟨cmdTs, cls, []⟩ =
          .ok run' ∧ run'.engine = run.engine ∧ run'.logged = run.logged :=
        EngineThread.leave_ok hbyte
      refine ⟨⟨cmdRing, stop, feeder, run', stopping, .entry batch (i + 1), logger, main⟩, [], ?_,
        ?_⟩
      · rw [stepEngine_leave rfl hidle rfl]
        simp only [hrun, ok_bind, pure_eq_ok]
      · rw [List.append_nil]
        exact { h with
          pipe := by simpa [pipe, hengine, E2eLoop.runLoop] using hpipe
          thread := by
            rw [hthread]
            exact hrun
          range := fun _ hb => by cases hb
          offered := by simpa [handed, hlogged, E2eLoop.unlogged] using hoffered
          admits := hallowed
          quiet := fun _ => by
            change logger.caller.busy = false
            rw [hidle]
            rfl
          broke := fun hp => (hbroke hp).elim }
    | cons e events =>
      obtain ⟨logger', out, hrun, hlogger⟩ := AsyncLogger.step_inv
        (.call (LogCall.logEvent cmdTs e)) h.logger
      have hcalled := hrun
      cases hcalled.symm.trans (if_pos hidle)
      refine ⟨_, _, ?_, hsink _ [] ⟨cmdTs, cls, events⟩ rfl rfl hlogger (.inr rfl) ?_⟩
      · rw [stepEngine_call rfl hidle rfl]
        simp only [hrun, ok_bind, pure_eq_ok]
      · simpa [hidle, LogCaller.offering, E2eLoop.unlogged, handed] using hoffered
  · obtain ⟨logger', out, hrun, hlogger⟩ := AsyncLogger.step_inv .producer h.logger
    obtain ⟨hcalls, hcaller'⟩ := AsyncLogger.busy_step hbusy hrun
    refine ⟨⟨cmdRing, stop, feeder, run, stopping, .inProcess batch i b, logger', main⟩, out, ?_,
      hsink logger' out b rfl rfl hlogger hcaller' ?_⟩
    · rw [stepEngine_busy rfl hbusy]
      simp only [hrun, ok_bind, pure_eq_ok]
    · rw [List.map_append, List.append_assoc (log.map _), hcalls]
      exact hoffered

theorem stepEngine_inv (hcmds : validateCommands j.cmds = none) (hlen : j.cmds.length < 2 ^ 64)
    (h : s.Inv j k kl log) :
    (∃ s' out, s.stepEngine j = .ok (s', out) ∧ s'.Inv j k kl (log ++ out)) ∨
      (∃ f, s.stepEngine j = .error f) ∧ ¬ j.Sound := by
  obtain ⟨processed, h⟩ := h
  have hfront : s.loop.inFlight = none → (∀ batch i, s.loop = .entry batch i → i = batch.length) →
      ∃ s' out, s.stepEngine j = .ok (s', out) ∧ s'.Inv j k kl (log ++ out) := by
    intro hflight hentry
    obtain ⟨⟨s', out⟩, hrun⟩ := front_ok h hflight hentry
    exact ⟨s', out, hrun, processed, front_inv hlen h hflight hentry hrun⟩
  cases hl : s.loop with
  | popping pc => exact .inl (hfront (by rw [hl]; rfl) (by simp [hl]))
  | loadStop => exact .inl (hfront (by rw [hl]; rfl) (by simp [hl]))
  | broke => exact .inl (hfront (by rw [hl]; rfl) (by simp [hl]))
  | inProcess batch i b =>
    obtain ⟨s', out, hrun, hinv⟩ := inProcess_inv h hl
    exact .inl ⟨s', out, hrun, processed, hinv⟩
  | entry batch i =>
    cases hget : batch[i]? with
    | some cmd => exact begin_inv hcmds hlen h hl hget
    | none =>
      obtain ⟨stats, n, result, events, pushed, popped, hpipe⟩ := h.pipe
      have hle : i ≤ batch.length := hpipe.within batch i (by simp [pipe, hl, E2eLoop.runLoop])
      have hge := List.getElem?_eq_none_iff.mp hget
      refine .inl (hfront (by rw [hl]; rfl) fun batch' i' he => ?_)
      cases hl.symm.trans he
      omega

theorem stepLogger_inv (h : s.Inv j k kl log) :
    ∃ s' out, s.step j .logger = .ok (s', out) ∧ s'.Inv j k kl (log ++ out) := by
  obtain ⟨processed, h⟩ := h
  obtain ⟨logger, out, hrun, hlogger⟩ := AsyncLogger.step_inv .consumer h.logger
  obtain ⟨rfl, hcaller⟩ := AsyncLogger.consumer_step hrun
  rw [List.append_nil] at hlogger
  refine ⟨{ s with logger }, [], by simp [step, hrun], processed, ?_⟩
  rw [List.append_nil]
  exact { h with
    logger := hlogger
    offered := by
      change _ ++ logger.caller.offering ++ _ = _
      rw [hcaller]
      exact h.offered
    admits := by
      change s.main.Admits logger.caller
      rw [hcaller]
      exact h.admits
    quiet := by
      change _ → logger.caller.busy = false
      rw [hcaller]
      exact h.quiet }

theorem At.finished (h : s.At j k kl log processed) (hbroke : s.loop = .broke) :
    j.cmds.foldlM j.command { engine := j.engine } = .ok s.run ∧ s.cmdRing.empty ∧
      ∃ e batches, j.engine.processAll j.ndebug j.cmds = .ok (e, batches) ∧
        e.book = s.run.engine.book := by
  obtain ⟨stats, n, result, events, pushed, popped, hpipe⟩ := h.pipe
  have hploop : (s.pipe stats n result).loop = .returned result := by
    simp [E2e.pipe, hbroke, E2eLoop.runLoop]
  obtain ⟨-, hpopped⟩ := hpipe.result result hploop
  have hprocessed := hpipe.popped_eq
  rw [hploop] at hprocessed
  simp only [RunLoop.pending, List.append_nil] at hprocessed
  obtain rfl : processed = j.cmds := hprocessed.symm.trans hpopped
  have hthread := h.thread
  simp only [finish, hbroke, E2eLoop.inFlight] at hthread
  refine ⟨hthread, ?_, ?_⟩
  · have hfed := congrArg List.length hpipe.fed
    rw [List.length_append, ← hpopped] at hfed
    have hpushed := hpipe.ring.served.eq_of_length_le (by omega)
    exact RingOk.empty (hpushed ▸ hpipe.ring)
  · obtain ⟨batches, hrun, -⟩ := hpipe.engine
    exact ⟨_, batches, hrun, rfl⟩

theorem At.counted (hlen : j.cmds.length < 2 ^ 64) (h : s.At j k kl log processed)
    (hbroke : s.loop = .broke) : EngineThread.Phase j.ndebug j.engine j.warmup j.cmds s.run ∧
      s.run.processed = j.ops := by
  obtain ⟨hrun, -⟩ := h.finished hbroke
  have hstart : EngineThread.Phase j.ndebug j.engine j.warmup [] { engine := j.engine } :=
    .warming (Nat.zero_le _) rfl
  exact EngineThread.commands_phase hstart rfl hlen hrun

theorem stepMain_inv (hlen : j.cmds.length < 2 ^ 64) (h : s.Inv j k kl log) :
    (∃ s' out, s.stepMain j = .ok (s', out) ∧ s'.Inv j k kl (log ++ out)) ∨
      (∃ f, s.stepMain j = .error f) ∧ ¬ j.Sound := by
  have hskip : s.Inv j k kl (log ++ []) := by rwa [List.append_nil]
  obtain ⟨processed, h⟩ := h
  have hbroke := h.broke
  have hjoined := h.joined
  have hallowed := h.admits
  have hquiet := h.quiet
  cases hm : s.main with
  | done => exact .inl ⟨s, [], by simp [stepMain, hm], hskip⟩
  | joinProducer =>
    rw [hm] at hallowed
    cases hf : s.feeder with
    | stopped =>
      refine .inl ⟨{ s with main := .joinEngine }, [], by simp [stepMain, hm, hf], processed, ?_⟩
      rw [List.append_nil]
      exact { h with
        admits := hallowed
        joined := fun _ => hf
        broke := nofun }
    | _ => exact .inl ⟨s, [], by simp [stepMain, hm, hf], hskip⟩
  | joinEngine =>
    rw [hm] at hallowed
    cases hl : s.loop with
    | broke =>
      refine .inl ⟨{ s with main := .callStop }, [], by simp [stepMain, hm, hl], processed, ?_⟩
      rw [List.append_nil]
      exact { h with
        admits := hallowed
        joined := fun _ => hjoined (by simp [hm, MainThread.pastProducer])
        broke := fun _ => hl }
    | _ => exact .inl ⟨s, [], by simp [stepMain, hm, hl], hskip⟩
  | callStop =>
    rw [hm] at hallowed hbroke hjoined
    have hl := hbroke rfl
    have hidle : s.logger.caller = .idle := by
      rcases hallowed with hidle | hbusy
      · exact hidle
      · simp [hquiet (by rw [hl]; rfl)] at hbusy
    obtain ⟨logger, out, hrun, hlogger⟩ := AsyncLogger.step_inv .callStop h.logger
    have hcalled := hrun
    cases hcalled.symm.trans (if_pos hidle)
    refine .inl ⟨{ s with logger := { s.logger with caller := .storeStop }, main := .inStop }, [],
      by simp [stepMain, hm, hrun], processed, ?_⟩
    exact { h with
      logger := hlogger
      offered := by
        have hoffered := h.offered
        rw [hidle] at hoffered
        rw [List.append_nil]
        exact hoffered
      admits := .inl rfl
      quiet := fun _ => rfl
      joined := fun _ => hjoined rfl
      broke := fun _ => hl }
  | inStop =>
    rw [hm] at hallowed hbroke hjoined
    by_cases hstopped : s.logger.caller = .stopped
    · refine .inl ⟨{ s with main := .checks }, [], by simp [stepMain, hm, hstopped], processed, ?_⟩
      rw [List.append_nil]
      exact { h with
        admits := hstopped
        joined := fun _ => hjoined rfl
        broke := fun _ => hbroke rfl }
    · have hstop : s.logger.caller = .storeStop ∨ s.logger.caller = .join := by
        rcases hallowed with hc | hc | hc
        · exact .inl hc
        · exact .inr hc
        · exact absurd hc hstopped
      obtain ⟨logger, out, hrun, hlogger⟩ := AsyncLogger.step_inv .producer h.logger
      obtain ⟨rfl, hcaller⟩ := AsyncLogger.inStop_producer hstop hrun
      refine .inl ⟨{ s with logger }, [], ?_, processed, ?_⟩
      · rcases hstop with hc | hc <;> simp [stepMain, hm, hc, hrun]
      · exact { h with
          logger := hlogger
          offered := by
            have hoffered := h.offered
            have hnone : s.logger.caller.offering = [] := by
              rcases hstop with hc | hc <;> rw [hc] <;> rfl
            have hnone' : logger.caller.offering = [] := by
              rcases hcaller with hc | hc | hc <;> rw [hc] <;> rfl
            rw [hnone] at hoffered
            rw [List.append_nil]
            change _ ++ logger.caller.offering ++ _ = _
            rwa [hnone']
          admits := by
            change s.main.Admits logger.caller
            rw [hm]
            exact hcaller
          quiet := fun _ => by
            change logger.caller.busy = false
            rcases hcaller with hc | hc | hc <;> rw [hc] <;> rfl
          joined := fun _ => hjoined rfl
          broke := fun _ => hbroke rfl }
  | checks =>
    rw [hm] at hallowed hbroke hjoined
    have hl := hbroke rfl
    obtain ⟨-, -, e, batches, hall, hbook⟩ := h.finished hl
    have hcount := (h.counted hlen hl).2
    have hnext : Inv j k kl { s with main := .done } (log ++ []) := by
      refine ⟨processed, ?_⟩
      rw [List.append_nil]
      exact { h with
        admits := hallowed
        joined := fun _ => hjoined rfl
        broke := fun _ => hl }
    cases hd : j.ndebug with
    | true => exact .inl ⟨_, _, by simp [stepMain, hm, hd], hnext⟩
    | false =>
      cases hcheck : s.run.engine.book.checkInvariants with
      | ok u => exact .inl ⟨_, _, by simp [stepMain, hm, hd, hcheck, hcount], hnext⟩
      | error f =>
        refine .inr ⟨⟨f, by simp [stepMain, hm, hd, hcheck]⟩, ?_⟩
        rintro ⟨⟨e', batches'⟩, hall', hsound⟩
        cases hall.symm.trans hall'
        have hpass := hsound hd
        rw [hbook] at hpass
        cases hcheck.symm.trans hpass

theorem step_inv (hcmds : validateCommands j.cmds = none) (hlen : j.cmds.length < 2 ^ 64)
    (h : s.Inv j k kl log) (t : E2eThread) :
    (∃ s' out, s.step j t = .ok (s', out) ∧ s'.Inv j k kl (log ++ out)) ∨
      (∃ f, s.step j t = .error f) ∧ ¬ j.Sound := by
  cases t with
  | producer =>
    obtain ⟨processed, h⟩ := h
    obtain ⟨s', hrun, hinv⟩ := stepProducer_inv hlen h
    rw [← List.append_nil log] at hinv
    exact .inl ⟨s', [], by simp [step, hrun], processed, hinv⟩
  | engine => exact stepEngine_inv hcmds hlen h
  | logger => exact .inl (stepLogger_inv h)
  | main => exact stepMain_inv hlen h

theorem inv_of_step (hcmds : validateCommands j.cmds = none) (hlen : j.cmds.length < 2 ^ 64)
    (h : s.Inv j k kl log) {t : E2eThread} (hstep : s.step j t = .ok (s', out)) :
    s'.Inv j k kl (log ++ out) := by
  rcases step_inv hcmds hlen h t with ⟨s₁, out₁, hok, hinv⟩ | ⟨⟨f, hf⟩, -⟩
  · cases hok.symm.trans hstep
    exact hinv
  · cases hf.symm.trans hstep

end E2e

def stamped (clock : Nat → UInt64) : Nat → List (List Event) → List LogRecord
  | _, [] => []
  | reads, events :: rest =>
    events.map (makeLogRecord (clock reads)) ++ stamped clock (reads + 2) rest

namespace EngineThread

variable {ndebug : Bool} {clock : Nat → UInt64} {warmup : UInt64}

theorem command_stamped {s s' : EngineThread} {cmd : Command}
    (h : command ndebug clock warmup s cmd = .ok s') : ∃ stats stats' events,
      MatchingEngine.process ndebug { s.engine with stats } cmd =
        .ok ({ s'.engine with stats := stats' }, events) ∧ s'.reads = s.reads + 2 ∧
      s'.logged = s.logged ++ events.map fun e => (clock s.reads, e) := by
  obtain ⟨c, -, h⟩ := bind_eq_ok.mp h
  obtain ⟨⟨engine, events⟩, hengine, h⟩ := bind_eq_ok.mp h
  obtain ⟨recorders, -, h⟩ := bind_eq_ok.mp h
  cases h
  split at hengine
  · rename_i hb
    rw [if_pos hb]
    exact ⟨{}, engine.stats, events, hengine, rfl, rfl⟩
  · rename_i hb
    rw [if_neg hb]
    exact ⟨s.engine.stats, engine.stats, events, hengine, rfl, rfl⟩

theorem commands_stamped {cmds : List Command} : ∀ {s s' : EngineThread} {stats : EngineStats}
    {e : MatchingEngine} {batches : List (List Event)},
    cmds.foldlM (command ndebug clock warmup) s = .ok s' →
    MatchingEngine.processAll ndebug { s.engine with stats } cmds = .ok (e, batches) →
    s'.logged.map (fun x => makeLogRecord x.1 x.2) =
      s.logged.map (fun x => makeLogRecord x.1 x.2) ++ stamped clock s.reads batches := by
  induction cmds with
  | nil =>
    intro s s' stats e batches hrun hall
    cases hrun
    cases hall
    simp [stamped]
  | cons cmd cmds ih =>
    intro s s' stats e batches hrun hall
    obtain ⟨s₁, hcmd, hrun⟩ := bind_eq_ok.mp hrun
    obtain ⟨⟨e₁, events⟩, hprocess, hall⟩ := bind_eq_ok.mp hall
    obtain ⟨⟨e₂, rest⟩, hrest, hall⟩ := bind_eq_ok.mp hall
    cases hall
    obtain ⟨stats₁, stats₂, events', hengine, hreads, hlogged⟩ := command_stamped hcmd
    obtain ⟨stats₃, hengine'⟩ := MatchingEngine.process_with_stats hengine stats
    cases hengine'.symm.trans hprocess
    rw [ih hrun hrest, hlogged, hreads]
    simp [stamped]

end EngineThread

theorem acceptedOf_sublist (log : List Attempt) :
    (acceptedOf log).Sublist (log.map fun a => a.call.record) := by
  induction log with
  | nil => exact .slnil
  | cons a log ih =>
    obtain ⟨call, ok⟩ := a
    cases ok with
    | true => exact ih.cons_cons _
    | false => exact ih.cons _

theorem accepted_add_dropped {log : List Attempt} {records : List LogRecord}
    (h : log.map Attempt.call = records.map LogCall.log) :
    (acceptedOf log).length + (droppedOf log).length = records.length := by
  induction log generalizing records with
  | nil =>
    cases records with
    | nil => rfl
    | cons rec records => cases h
  | cons a log ih =>
    cases records with
    | nil => cases h
    | cons rec records =>
      obtain ⟨call, ok⟩ := a
      obtain ⟨rfl, htail⟩ := List.cons.inj h
      have hrest := ih htail
      cases ok <;> simp [acceptedOf, droppedOf, Attempt.acceptedRecord, Attempt.droppedRecord]
        at hrest ⊢ <;> omega

theorem AsyncLogger.Inv.accounts {k : Nat} {s : AsyncLogger} {log : List Attempt}
    (h : s.Inv k log) (hstopped : s.caller = .stopped) :
    s.contents = LogRecord.layout.encodeAll (acceptedOf log) ∧
      s.recordsWritten = UInt64.ofNat (acceptedOf log).length ∧
      s.recordsDropped = UInt64.ofNat (droppedOf log).length := by
  obtain ⟨popped, written, h⟩ := h
  have hexited := h.joined hstopped
  obtain ⟨-, hpopped, -⟩ := h.exited hexited
  have hwritten := h.popped_eq
  have hdrops := h.drops
  simp only [hexited, LogConsumer.pending, List.append_nil] at hwritten
  simp only [hstopped, LogCaller.uncounted] at hdrops
  rw [← hpopped, hwritten]
  exact ⟨h.contents, h.count, by simpa using hdrops⟩

/-- What a finished run has left behind: the measured window, and a log in which every
event of the engine is written or counted as dropped. -/
structure E2e.Reports (j : E2eJob) (s : E2e) (log : List Attempt) : Prop where
  window : MeasuredWindow j.ndebug j.engine j.cmds j.warmup.toNat s.run
  drained : s.cmdRing.empty = true
  logged : ∃ e batches, j.engine.processAll j.ndebug j.cmds = .ok (e, batches) ∧
    log.map Attempt.call = (stamped j.clock 0 batches).map LogCall.log ∧
    (acceptedOf log).Sublist (stamped j.clock 0 batches) ∧
    (acceptedOf log).length + (droppedOf log).length = (stamped j.clock 0 batches).length
  contents : s.logger.contents = LogRecord.layout.encodeAll (acceptedOf log)
  written : s.logger.recordsWritten = UInt64.ofNat (acceptedOf log).length
  dropped : s.logger.recordsDropped = UInt64.ofNat (droppedOf log).length

theorem E2e.Inv.reports {j : E2eJob} {k kl : Nat} {s : E2e} {log : List Attempt}
    (hlen : j.cmds.length < 2 ^ 64) (hw : j.warmup.toNat < j.cmds.length) (h : s.Inv j k kl log)
    (hdone : s.main = .done) : s.Reports j log := by
  obtain ⟨processed, h⟩ := h
  have hallowed := h.admits
  have hbroke := h.broke
  have hoffered := h.offered
  rw [hdone] at hallowed hbroke
  have hl := hbroke rfl
  obtain ⟨hphase, hcount⟩ := h.counted hlen hl
  obtain ⟨hrun, hempty, e, batches, hall, -⟩ := h.finished hl
  obtain ⟨hcontents, hwritten, hdropped⟩ := h.logger.accounts hallowed
  have hstamped : s.run.logged.map (fun x => makeLogRecord x.1 x.2) = stamped j.clock 0 batches :=
    EngineThread.commands_stamped hrun (show MatchingEngine.processAll j.ndebug
      { j.engine with stats := j.engine.stats } j.cmds = .ok (e, batches) from hall)
  have hcalls : log.map Attempt.call = (stamped j.clock 0 batches).map LogCall.log := by
    rw [show s.logger.caller = .stopped from hallowed, hl] at hoffered
    simp only [LogCaller.offering, E2eLoop.unlogged, List.append_nil] at hoffered
    rw [hoffered, ← hstamped, handed, List.map_map]
    rfl
  have hrecords : log.map (fun a => a.call.record) = stamped j.clock 0 batches := by
    have hmap := congrArg (List.map LogCall.record) hcalls
    rw [List.map_map, List.map_map] at hmap
    exact hmap.trans (List.map_id _)
  exact {
    window := hphase.window hw hlen hcount
    drained := hempty
    logged := ⟨e, batches, hall, hcalls, hrecords ▸ acceptedOf_sublist log,
      accepted_add_dropped hcalls⟩
    contents := hcontents
    written := hwritten
    dropped := hdropped }

theorem E2e.Reports.lossless {j : E2eJob} {s : E2e} {log : List Attempt} (h : s.Reports j log)
    {e : MatchingEngine} {batches : List (List Event)}
    (hall : j.engine.processAll j.ndebug j.cmds = .ok (e, batches))
    (hfits : (stamped j.clock 0 batches).length < 2 ^ 64) (hdropped : s.logger.recordsDropped = 0) :
    s.logger.contents = LogRecord.layout.encodeAll (stamped j.clock 0 batches) := by
  obtain ⟨e', batches', hall', -, hsub, hsum⟩ := h.logged
  cases hall.symm.trans hall'
  have hnone : (droppedOf log).length = 0 := by
    have hd := congrArg UInt64.toNat (h.dropped.symm.trans hdropped)
    have hlt : (droppedOf log).length < 2 ^ 64 := lt_of_le_of_lt (by omega) hfits
    rw [UInt64.toNat_ofNat_of_lt' hlt] at hd
    exact hd
  rw [h.contents, hsub.eq_of_length (by omega)]

/-- Whatever the interleaving of the four threads: when `run_e2e` is through, it reports the
window it was asked for and a log that accounts for every event. It faults on no schedule,
unless the commands in one sequence would, or leave a book that fails the check. -/
theorem e2e_accounts {capacity logCapacity : UInt64} {q : SPSCQueue Command}
    {lq : SPSCQueue LogRecord} (hq : SPSCQueue.new capacity = .ok q)
    (hlq : SPSCQueue.new logCapacity = .ok lq) (j : E2eJob)
    (hcmds : validateCommands j.cmds = none) (hlen : j.cmds.length < 2 ^ 64)
    (hw : j.warmup.toNat < j.cmds.length) (sched : List E2eThread) :
    (∀ s log, Schedule.run (E2e.step j) (E2e.start j q lq) sched = .ok (s, log) →
      s.main = .done → s.Reports j log ∧ ∀ e batches,
        j.engine.processAll j.ndebug j.cmds = .ok (e, batches) →
        (stamped j.clock 0 batches).length < 2 ^ 64 → s.logger.recordsDropped = 0 →
        s.logger.contents = LogRecord.layout.encodeAll (stamped j.clock 0 batches)) ∧
    (j.Sound → ∃ s log,
      Schedule.run (E2e.step j) (E2e.start j q lq) sched = .ok (s, log)) := by
  obtain ⟨k, -, -, hring⟩ := RingOk.new hq
  obtain ⟨kl, -, -, hlring⟩ := RingOk.new hlq
  have h₀ : (E2e.start j q lq).Inv j k kl [] := E2e.start_inv hring hlring
  constructor
  · intro s log hrun hdone
    have hinv := Schedule.run_inv (E2e.Inv j k kl)
      (fun s hist t s' out hs hstep => E2e.inv_of_step hcmds hlen hs hstep) h₀ hrun
    have hreports := hinv.reports hlen hw hdone
    exact ⟨hreports, fun e batches => hreports.lossless⟩
  · intro hsound
    obtain ⟨s, log, hrun, -⟩ := Schedule.run_ok (E2e.Inv j k kl) (fun _ => True)
      (fun s hist t _ hs => (E2e.step_inv hcmds hlen hs t).resolve_right fun hf => hf.2 hsound) h₀
      (fun _ _ => trivial)
    exact ⟨s, log, hrun⟩

/-- Two commands, four events, and a log ring with room for one of them. -/
theorem e2e_accounts_small : ∃ q lq e s log,
    SPSCQueue.new (UInt64.ofNat 2) = .ok q ∧ SPSCQueue.new (UInt64.ofNat 1) = .ok lq ∧
    MatchingEngine.new { anchorPrice := 100, bandRadius := 1, poolCapacity := 2 } = .ok e ∧
    let j : E2eJob := ⟨false, UInt64.ofNat, 1, e, [⟨.kNew, .kBuy, .kLimit, 0, 1, 100, 0⟩,
      ⟨.kNew, .kSell, .kIoc, 0, 1, 100, 0⟩]⟩
    Schedule.run (E2e.step j) (E2e.start j q lq) (List.flatten
      [List.replicate 13 E2eThread.producer, List.replicate 38 .engine, List.replicate 4 .main,
        List.replicate 14 .logger, List.replicate 3 .main]) = .ok (s, log) ∧
    s.main = .done ∧ s.Reports j log ∧ log.map Attempt.ok = [true, false, false, false] := by
  obtain ⟨q, hq⟩ : ∃ q, SPSCQueue.new (T := Command) (UInt64.ofNat 2) = .ok q := ⟨_, rfl⟩
  obtain ⟨lq, hlq⟩ : ∃ q, SPSCQueue.new (T := LogRecord) (UInt64.ofNat 1) = .ok q := ⟨_, rfl⟩
  obtain ⟨e, he⟩ : ∃ e, MatchingEngine.new
      { anchorPrice := 100, bandRadius := 1, poolCapacity := 2 } = .ok e := ⟨_, rfl⟩
  let j : E2eJob := ⟨false, UInt64.ofNat, 1, e, [⟨.kNew, .kBuy, .kLimit, 0, 1, 100, 0⟩,
    ⟨.kNew, .kSell, .kIoc, 0, 1, 100, 0⟩]⟩
  have hrun : ∃ r, (do
      let q ← SPSCQueue.new (T := Command) (UInt64.ofNat 2)
      let lq ← SPSCQueue.new (T := LogRecord) (UInt64.ofNat 1)
      let e ← MatchingEngine.new { anchorPrice := 100, bandRadius := 1, poolCapacity := 2 }
      let j : E2eJob := ⟨false, UInt64.ofNat, 1, e, [⟨.kNew, .kBuy, .kLimit, 0, 1, 100, 0⟩,
        ⟨.kNew, .kSell, .kIoc, 0, 1, 100, 0⟩]⟩
      Schedule.run (E2e.step j) (E2e.start j q lq) (List.flatten
        [List.replicate 13 E2eThread.producer, List.replicate 38 .engine, List.replicate 4 .main,
          List.replicate 14 .logger, List.replicate 3 .main])) = .ok r ∧
      r.1.main = .done ∧ r.2.map Attempt.ok = [true, false, false, false] :=
    Holds.exists_ok (by decide +kernel)
  rw [hq, ok_bind, hlq, ok_bind, he, ok_bind] at hrun
  obtain ⟨⟨s, log⟩, hrun, hdone, hlog⟩ := hrun
  obtain ⟨hreports, -⟩ := (e2e_accounts hq hlq j rfl (show 2 < 2 ^ 64 by decide)
    (show (1 : UInt64).toNat < 2 by decide) _).1 s log hrun hdone
  exact ⟨q, lq, e, s, log, hq, hlq, he, hrun, hdone, hreports, hlog⟩

end LimitOrderBook
