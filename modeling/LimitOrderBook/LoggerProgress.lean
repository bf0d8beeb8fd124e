import LimitOrderBook.AsyncLogger
import LimitOrderBook.SpscProgress
import LimitOrderBook.Lib.Fairness

set_option autoImplicit false

namespace LimitOrderBook
open Checked Wrapping Schedule

namespace LogConsumer

def far : LogConsumer → Nat
  | popping pc => pc.left
  | popped batch => if batch.length = 0 then kLoggerBatchSize.toNat + 5 else 0
  | loadStop => kLoggerBatchSize.toNat + 4
  | exited => 0

/-- How far the thread is from its exit, with an empty ring and `stop` stored. -/
def farFromEnd (stopping : Bool) : LogConsumer → Nat
  | popping pc => (if stopping then 0 else kLoggerBatchSize.toNat + 6) + pc.left + 1
  | popped _ => if stopping then 0 else kLoggerBatchSize.toNat + 6
  | loadStop => kLoggerBatchSize.toNat + 5
  | exited => 0

end LogConsumer

/-- In `stop`, at its store or at its join. -/
def LogCaller.Stopping : LogCaller → Prop
  | storeStop | join => True
  | _ => False

namespace AsyncLogger

variable {k : Nat} {s s' : AsyncLogger} {log out : List Attempt} {c : LogChoice}

def waiting (s : AsyncLogger) : Nat := s.ring.size.toNat + s.consumer.pending.length

/-- What `stop` still has to see: its own store, the exit of the thread, the join. -/
def stage (s : AsyncLogger) : Nat :=
  match s.caller with
  | .storeStop => 3
  | .join => if s.consumer = .exited then 1 else 2
  | _ => 0

def far (s : AsyncLogger) : Nat :=
  if s.stage = 2 then
    if s.waiting = 0 then s.consumer.farFromEnd s.stopping else s.consumer.far
  else 0

def helper (s : AsyncLogger) : LogChoice := if s.stage = 2 then .consumer else .producer

def rank (s : AsyncLogger) : ℕ ×ₗ ℕ ×ₗ ℕ :=
  toLex (s.stage, toLex (if s.stage = 2 then s.waiting else 0, s.far))

/-- The invariant, and that whoever waits in `stop` has stored its flag. -/
def Live (k : Nat) (s : AsyncLogger) (log : List Attempt) : Prop :=
  s.Inv k log ∧ (s.caller = .join → s.stop = true)

theorem rank_stage (h : s'.stage < s.stage) : s'.rank < s.rank :=
  Prod.Lex.toLex_lt_toLex.mpr (.inl h)

theorem rank_waiting (h : s.stage = 2) (h' : s'.stage = 2) (hw : s'.waiting < s.waiting) :
    s'.rank < s.rank := by
  refine Prod.Lex.toLex_lt_toLex.mpr (.inr ⟨h'.trans h.symm, Prod.Lex.toLex_lt_toLex.mpr (.inl ?_)⟩)
  rwa [if_pos h, if_pos h']

theorem rank_far (h : s.stage = 2) (h' : s'.stage = 2) (hw : s'.waiting = s.waiting)
    (hfar : s.waiting ≠ 0 → s'.consumer.far < s.consumer.far)
    (hend : s.waiting = 0 → s'.consumer.farFromEnd s'.stopping < s.consumer.farFromEnd s.stopping) :
    s'.rank < s.rank := by
  refine Prod.Lex.toLex_lt_toLex.mpr
    (.inr ⟨h'.trans h.symm, Prod.Lex.toLex_lt_toLex.mpr (.inr ⟨?_, ?_⟩)⟩)
  · rw [if_pos h, if_pos h', hw]
  · by_cases hz : s.waiting = 0
    · simpa [far, h, h', hw, hz] using hend hz
    · simpa [far, h, h', hw, hz] using hfar hz

/-- Every step of the thread brings the end of `stop` nearer. -/
theorem stepConsumer_nearer (h : s.Live k log) (hjoin : s.caller = .join)
    (hexit : s.consumer ≠ .exited) (hstep : s.stepConsumer = .ok s') : s'.rank < s.rank := by
  obtain ⟨⟨popped, written, h⟩, hstored⟩ := h
  have hstop := hstored hjoin
  have hcaller := stepConsumer_caller hstep
  have hstage : s.stage = 2 := by simp [stage, hjoin, hexit]
  have hstage' : s'.stage = 2 ∨ s'.consumer = .exited := by
    by_cases he : s'.consumer = .exited
    · exact .inr he
    · exact .inl (by simp [stage, hcaller, hjoin, he])
  rcases hstage' with hstage' | he
  · obtain ⟨ring, out, stop, recordsWritten, recordsDropped, stopping, dirty, caller, consumer⟩ := s
    have hring := h.ring
    have hsize : ring.size.toNat + popped.length = (acceptedOf log).length := hring.size_add
    cases consumer with
    | exited => exact absurd rfl hexit
    | loadStop =>
      cases hstep
      obtain rfl : stop = true := hstop
      refine rank_far hstage hstage' rfl (fun _ => ?_) fun _ => ?_
      · simp [LogConsumer.again, LogConsumer.far, TryPop.left, PopRequest.most]
      · simp [LogConsumer.again, LogConsumer.farFromEnd, TryPop.left, PopRequest.most]
    | popping pc =>
      obtain ⟨q', r, hrun, hafter⟩ := RingOk.pop_step hring
      simp only [stepConsumer, hrun, ok_bind] at hstep
      cases r with
      | next pc' =>
        cases hstep
        have hsize' : q'.size.toNat + popped.length = (acceptedOf log).length :=
          RingOk.size_add (show RingOk _ _ _ _ _ _ from hafter)
        have hleft := RingOk.pop_left hring hrun
        refine rank_far hstage hstage' ?_ (fun _ => hleft) fun _ => ?_
        · simp only [waiting, LogConsumer.pending]
          omega
        · simp only [LogConsumer.farFromEnd]
          omega
      | done batch =>
        cases hstep
        have hsize' : q'.size.toNat + (popped ++ batch).length = (acceptedOf log).length :=
          RingOk.size_add hafter.1
        rw [List.length_append] at hsize'
        have hwait : waiting ⟨ring, out, stop, recordsWritten, recordsDropped, stopping, dirty,
            caller, .popping pc⟩ = ring.size.toNat := rfl
        refine rank_far hstage hstage' ?_ (fun hw => ?_) fun hw => ?_
        · simp only [waiting, LogConsumer.pending, List.length_nil]
          omega
        · have hne : batch.length ≠ 0 := by
            intro hb
            have := congrArg List.length (hafter.2 (List.eq_nil_of_length_eq_zero hb))
            omega
          have : 0 < pc.left := by cases pc <;> simp [TryPop.left]
          simpa only [LogConsumer.far, if_neg hne] using this
        · simp only [LogConsumer.farFromEnd]
          omega
    | popped batch =>
      simp only [stepConsumer] at hstep
      split at hstep
      · rename_i hn
        cases hstep
        refine rank_waiting hstage hstage' ?_
        simp only [waiting, LogConsumer.again, LogConsumer.pending, List.length_nil]
        omega
      · rename_i hn
        have hb : batch.length = 0 := not_not.mp hn
        split at hstep
        · cases hstep
          obtain rfl : caller = .join := hjoin
          simp [stage] at hstage'
        · rename_i hs
          have hnear : ∀ s₁ : AsyncLogger, s₁.stage = 2 → s₁.ring = ring →
              s₁.consumer = .loadStop → s₁.rank < rank ⟨ring, out, stop, recordsWritten,
                recordsDropped, stopping, dirty, caller, .popped batch⟩ := by
            intro s₁ h₁ hr hc
            refine rank_far hstage h₁ ?_ (fun _ => ?_) fun _ => ?_
            · simp [waiting, hr, hc, LogConsumer.pending, hb]
            · simp [hc, LogConsumer.far, hb]
            · simp [hc, LogConsumer.farFromEnd, hs]
          split at hstep <;> cases hstep <;> exact hnear _ hstage' rfl rfl
  · refine rank_stage ?_
    rw [hstage]
    simp [stage, hcaller, hjoin, he]

theorem live_step (h : s.Live k log) (c : LogChoice) :
    ∃ s' out, s.step c = .ok (s', out) ∧ s'.Live k (log ++ out) := by
  obtain ⟨hinv, hstored⟩ := h
  obtain ⟨s', out, hstep, hinv'⟩ := step_inv c hinv
  refine ⟨s', out, hstep, hinv', ?_⟩
  cases c with
  | call call =>
    by_cases hidle : s.caller = .idle
    · cases hstep.symm.trans (if_pos hidle)
      exact fun h => by cases h
    · cases hstep.symm.trans (if_neg hidle)
      exact hstored
  | callStop =>
    by_cases hidle : s.caller = .idle
    · cases hstep.symm.trans (if_pos hidle)
      exact fun h => by cases h
    · cases hstep.symm.trans (if_neg hidle)
      exact hstored
  | consumer =>
    obtain ⟨s₁, hrun, he⟩ := bind_eq_ok.mp hstep
    cases he
    rw [stepConsumer_caller hrun]
    intro hj
    rw [← hstored hj]
    unfold stepConsumer at hrun
    split at hrun
    · obtain ⟨⟨ring, r⟩, -, hrun⟩ := bind_eq_ok.mp hrun
      cases r <;> cases hrun <;> rfl
    · simp only at hrun
      split at hrun
      · cases hrun
        rfl
      · split at hrun
        · cases hrun
          rfl
        · split at hrun <;> cases hrun <;> rfl
    · cases hrun
      rfl
    · cases hrun
      rfl
  | producer =>
    obtain ⟨ring, out₁, stop, recordsWritten, recordsDropped, stopping, dirty, caller,
      consumer⟩ := s
    cases caller with
    | pushing call pc =>
      obtain ⟨⟨q', r⟩, -, hstep⟩ := bind_eq_ok.mp hstep
      cases r with
      | next pc' =>
        cases hstep
        exact fun h => by cases h
      | done ok => cases call <;> cases ok <;> cases hstep <;> exact fun h => by cases h
    | join =>
      simp only [step, stepCaller] at hstep
      split at hstep
      · cases hstep
        exact fun h => by cases h
      · cases hstep
        exact hstored
    | storeStop =>
      cases hstep
      exact fun _ => rfl
    | _ =>
      cases hstep
      exact fun h => by cases h

/-- In `stop` nothing is logged, and every step brings its end nearer or is none of the
thread that can. -/
theorem stopping_step (h : s.Live k log) (hs : s.caller.Stopping)
    (hstep : s.step c = .ok (s', out)) :
    out = [] ∧ (s'.caller = .stopped ∨ s'.caller.Stopping ∧
      (s'.rank < s.rank ∨ (c ≠ s.helper ∧ s'.rank = s.rank ∧ s'.helper = s.helper))) := by
  have hidle : s.caller ≠ .idle := fun e => by simp [e, LogCaller.Stopping] at hs
  have hskip : c ≠ s.helper → s' = s → s'.caller = .stopped ∨ s'.caller.Stopping ∧
      (s'.rank < s.rank ∨ (c ≠ s.helper ∧ s'.rank = s.rank ∧ s'.helper = s.helper)) := by
    rintro hc rfl
    exact .inr ⟨hs, .inr ⟨hc, rfl, rfl⟩⟩
  have hnot : ∀ call, c = .call call ∨ c = .callStop → c ≠ s.helper := by
    rintro call (rfl | rfl) <;> unfold helper <;> split <;> nofun
  cases c with
  | call call =>
    cases hstep.symm.trans (if_neg hidle)
    exact ⟨rfl, hskip (hnot call (.inl rfl)) rfl⟩
  | callStop =>
    cases hstep.symm.trans (if_neg hidle)
    exact ⟨rfl, hskip (by unfold helper; split <;> nofun) rfl⟩
  | consumer =>
    obtain ⟨s₁, hrun, he⟩ := bind_eq_ok.mp hstep
    cases he
    have hcaller := stepConsumer_caller hrun
    refine ⟨rfl, ?_⟩
    cases hc : s.caller with
    | storeStop =>
      have hstage : s.stage = 3 := by simp [stage, hc]
      have hstage' : s'.stage = 3 := by simp [stage, hcaller, hc]
      refine .inr ⟨by rwa [hcaller], .inr ⟨by simp [helper, hstage], ?_, ?_⟩⟩
      · simp [rank, far, hstage, hstage']
      · simp [helper, hstage, hstage']
    | join =>
      by_cases he : s.consumer = .exited
      · rw [stepConsumer, he] at hrun
        cases hrun
        exact hskip (by simp [helper, stage, hc, he]) rfl
      · exact .inr ⟨by rwa [hcaller], .inl (stepConsumer_nearer h hc he hrun)⟩
    | _ => simp [hc, LogCaller.Stopping] at hs
  | producer =>
    cases hc : s.caller with
    | storeStop =>
      simp only [step, stepCaller, hc] at hstep
      cases hstep
      refine ⟨rfl, .inr ⟨trivial, .inl (rank_stage ?_)⟩⟩
      have hstage : s.stage = 3 := by simp [stage, hc]
      by_cases he : s.consumer = .exited <;> simp [stage, hc, he]
    | join =>
      simp only [step, stepCaller, hc] at hstep
      split at hstep
      · cases hstep
        exact ⟨rfl, .inl rfl⟩
      · rename_i he
        cases hstep
        exact ⟨rfl, hskip (by simp [helper, stage, hc, he]) rfl⟩
    | _ => simp [hc, LogCaller.Stopping] at hs

theorem stopped_step (h : s.caller = .stopped) (hexit : s.consumer = .exited)
    (hstep : s.step c = .ok (s', out)) : s' = s ∧ out = [] := by
  obtain ⟨ring, out₁, stop, recordsWritten, recordsDropped, stopping, dirty, caller,
    consumer⟩ := s
  obtain rfl : caller = .stopped := h
  obtain rfl : consumer = .exited := hexit
  cases c <;> cases hstep <;> exact ⟨rfl, rfl⟩

/-- The owner is in `stop` or back from it, and has logged nothing since it called it. -/
def InStop (k : Nat) (log : List Attempt) (s : AsyncLogger) (hist : List Attempt) : Prop :=
  hist = [] ∧ s.Live k log ∧ (s.caller = .stopped ∨ s.caller.Stopping)

theorem inStop_step {hist : List Attempt} (h : InStop k log s hist) (c : LogChoice) :
    ∃ s' out, s.step c = .ok (s', out) ∧ InStop k log s' (hist ++ out) ∧
      (s'.caller = .stopped ∨ s'.rank < s.rank ∨
        (c ≠ s.helper ∧ s'.rank = s.rank ∧ s'.helper = s.helper)) := by
  obtain ⟨rfl, hs, hcaller⟩ := h
  obtain ⟨s', out, hstep, hs'⟩ := live_step hs c
  refine ⟨s', out, hstep, ?_⟩
  rcases hcaller with hstopped | hstopping
  · obtain ⟨popped, written, h⟩ := hs.1
    obtain ⟨rfl, rfl⟩ := stopped_step hstopped (h.joined hstopped) hstep
    exact ⟨⟨rfl, hs, .inl hstopped⟩, .inl hstopped⟩
  · obtain ⟨rfl, hnear⟩ := stopping_step hs hstopping hstep
    rw [List.append_nil] at hs'
    rcases hnear with hstopped | ⟨hstopping', hnear⟩
    · exact ⟨⟨rfl, hs', .inl hstopped⟩, .inl hstopped⟩
    · exact ⟨⟨rfl, hs', .inr hstopping'⟩, .inr hnear⟩

theorem descends : Descends AsyncLogger.step (fun _ => True) (InStop k log)
    (fun s => s.caller = .stopped) helper rank :=
  ⟨fun _ _ c _ h _ => inStop_step h c⟩

end AsyncLogger

/-- Whatever was logged and however the threads are scheduled from then on, as long as
neither is left out for ever: `stop` returns, and everything logged is accounted for. -/
theorem stop_returns {capacity : UInt64} {q : SPSCQueue LogRecord}
    (hq : SPSCQueue.new capacity = .ok q) {sched : List LogChoice} {s : AsyncLogger}
    {log : List Attempt} (hrun : Schedule.run AsyncLogger.step { ring := q } sched = .ok (s, log))
    (hidle : s.caller = .idle) (f : Nat → LogChoice) (hproducer : FairTo f .producer)
    (hconsumer : FairTo f .consumer) :
    ∃ N, ∀ n, N ≤ n → ∃ s', Schedule.run AsyncLogger.step { ring := q }
        (sched ++ LogChoice.callStop :: upTo f n) = .ok (s', log) ∧
      s'.caller = .stopped ∧ s'.contents = LogRecord.layout.encodeAll (acceptedOf log) ∧
      s'.recordsWritten = UInt64.ofNat (acceptedOf log).length ∧
      s'.recordsDropped = UInt64.ofNat (droppedOf log).length ∧ s'.out.getLast? = some .flush := by
  obtain ⟨k, -, -, hring⟩ := RingOk.new hq
  have hinv : s.Inv k log := Schedule.run_inv (AsyncLogger.Inv k)
    (fun s hist c s' out hs hstep => AsyncLogger.inv_of_step hs hstep)
    (AsyncLogger.start_inv hring) hrun
  have hcall : s.step .callStop = .ok ({ s with caller := .storeStop }, []) := if_pos hidle
  have hlive : AsyncLogger.Live k { s with caller := .storeStop } (log ++ []) :=
    ⟨AsyncLogger.inv_of_step hinv hcall, nofun⟩
  rw [List.append_nil] at hlive
  have hlead : LeadsTo AsyncLogger.step { s with caller := .storeStop } f
      (AsyncLogger.InStop k log) fun s hist => AsyncLogger.InStop k log s hist ∧
        s.caller = .stopped :=
    AsyncLogger.descends.leadsTo (fun _ => trivial) fun s => by
      unfold AsyncLogger.helper
      split
      · exact hconsumer
      · exact hproducer
  obtain ⟨N, hN⟩ := hlead.settles (C := fun _ => True) ⟨rfl, hlive, .inr trivial⟩
    (fun _ => trivial) fun s hist c _ hs => by
      obtain ⟨s', out, hok, hs', -⟩ := AsyncLogger.inStop_step hs.1 c
      obtain ⟨popped, written, h⟩ := hs.1.2.1.1
      obtain ⟨rfl, -⟩ := AsyncLogger.stopped_step hs.2 (h.joined hs.2) hok
      exact ⟨s', out, hok, hs', hs.2⟩
  refine ⟨N, fun n hn => ?_⟩
  obtain ⟨s', hist, hrest, ⟨rfl, -⟩, hstopped⟩ := hN n hn
  have hwhole : Schedule.run AsyncLogger.step { ring := q }
      (sched ++ LogChoice.callStop :: upTo f n) = .ok (s', log) :=
    Schedule.run_append_eq_ok.mpr ⟨s, log, [], hrun,
      Schedule.run_cons_eq_ok.mpr ⟨_, [], [], hcall, hrest, rfl⟩, (List.append_nil log).symm⟩
  obtain ⟨s₁, log₁, hrun₁, haccount, -⟩ := logger_accounts hq
    (sched ++ LogChoice.callStop :: upTo f n)
  cases hrun₁.symm.trans hwhole
  exact ⟨s', hwhole, hstopped, haccount hstopped⟩

/-- One record is in the ring when `stop` is called. -/
theorem stop_returns_small : ∃ q s log N,
    SPSCQueue.new (UInt64.ofNat 1) = .ok q ∧
    Schedule.run AsyncLogger.step { ring := q }
      (.call (.log ⟨1, 2, 3, 4, 2, 0, 0, 0⟩) :: List.replicate 5 .producer) = .ok (s, log) ∧
    log.map Attempt.ok = [true] ∧ ∀ n, N ≤ n → ∃ s',
      Schedule.run AsyncLogger.step { ring := q }
        ((.call (.log ⟨1, 2, 3, 4, 2, 0, 0, 0⟩) :: List.replicate 5 .producer) ++
          LogChoice.callStop :: upTo (roundRobin [.producer, .consumer] (by simp)) n) =
        .ok (s', log) ∧
      s'.caller = .stopped ∧ s'.contents = LogRecord.layout.encodeAll (acceptedOf log) := by
  obtain ⟨q, hq⟩ : ∃ q, SPSCQueue.new (T := LogRecord) (UInt64.ofNat 1) = .ok q := ⟨_, rfl⟩
  have hrun : ∃ r, (SPSCQueue.new (T := LogRecord) (UInt64.ofNat 1) >>= fun q =>
      Schedule.run AsyncLogger.step { ring := q }
        (.call (.log ⟨1, 2, 3, 4, 2, 0, 0, 0⟩) :: List.replicate 5 .producer)) = .ok r ∧
      r.1.caller = .idle ∧ r.2.map Attempt.ok = [true] := Holds.exists_ok (by decide)
  rw [hq, ok_bind] at hrun
  obtain ⟨⟨s, log⟩, hrun, hidle, hlog⟩ := hrun
  obtain ⟨N, hN⟩ := stop_returns hq hrun hidle (roundRobin [.producer, .consumer] (by simp))
    (roundRobin_fair _ (by simp)) (roundRobin_fair _ (by simp))
  refine ⟨q, s, log, N, hq, hrun, hlog, fun n hn => ?_⟩
  obtain ⟨s', hs', hstopped, hcontents, -⟩ := hN n hn
  exact ⟨s', hs', hstopped, hcontents⟩

end LimitOrderBook
