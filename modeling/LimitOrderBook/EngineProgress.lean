import LimitOrderBook.EngineLoop
import LimitOrderBook.SpscProgress
import LimitOrderBook.Lib.Fairness

set_option autoImplicit false

namespace LimitOrderBook
open Checked Wrapping Schedule

namespace Feeder

/-- Before its store of `stop`. -/
def active : Feeder → Bool
  | stopped => false
  | _ => true

/-- How far the producer is, with an empty ring, from publishing its next command or
from its store of `stop`. -/
def far : Feeder → Nat
  | next [] => 1
  | next (_ :: _) => 7
  | pushing pc _ => pc.toPublish
  | stopped => 0

end Feeder

namespace RunLoop

def far : RunLoop → Nat
  | popping pc => pc.left
  | processing batch i => if i < batch.length then 0 else kEngineBatchSize.toNat + 5
  | loadStop => kEngineBatchSize.toNat + 4
  | returned _ => 0

/-- How far the loop is from its return, with an empty ring and `stop` stored. -/
def farFromEnd (stopping : Bool) : RunLoop → Nat
  | popping pc => (if stopping then 0 else kEngineBatchSize.toNat + 6) + pc.left + 1
  | processing batch _ => (if stopping then 0 else kEngineBatchSize.toNat + 6) +
      if batch.length = 0 then 0 else kEngineBatchSize.toNat + 5
  | loadStop => kEngineBatchSize.toNat + 5
  | returned _ => 0

def isReturned : RunLoop → Bool
  | returned _ => true
  | _ => false

end RunLoop

namespace Pipeline

def waiting (s : Pipeline) : Nat := s.queue.size.toNat + s.loop.pending.length

/-- What is left to do before the end: the commands, and the store of `stop`. -/
def left (s : Pipeline) : Nat :=
  s.feeder.todo.length + s.waiting + if s.feeder.active then 1 else 0

/-- Whose turn it is: the loop has something to process or a `stop` to see, or else the
producer has something to push. -/
def helper (s : Pipeline) : Thread :=
  if s.waiting = 0 ∧ s.feeder.active then .producer else .consumer

def far (s : Pipeline) : Nat :=
  if s.waiting ≠ 0 then s.loop.far
  else if s.feeder.active then s.feeder.far
  else s.loop.farFromEnd s.stopping

def rank (s : Pipeline) : ℕ ×ₗ ℕ ×ₗ ℕ :=
  toLex (s.left, toLex (if s.waiting = 0 then 1 else 0, s.far))

variable {ndebug : Bool} {cmds : List Command} {e₀ : MatchingEngine} {k : Nat} {s s' : Pipeline}
  {events out : List Event}

theorem rank_left (h : s'.left < s.left) : s'.rank < s.rank :=
  Prod.Lex.toLex_lt_toLex.mpr (.inl h)

theorem rank_busy (h : s'.left = s.left) (hw : s.waiting = 0) (hw' : s'.waiting ≠ 0) :
    s'.rank < s.rank := by
  refine Prod.Lex.toLex_lt_toLex.mpr (.inr ⟨h, Prod.Lex.toLex_lt_toLex.mpr (.inl ?_)⟩)
  simp [hw, hw']

theorem rank_far (h : s'.left = s.left) (hw : s'.waiting = s.waiting) (hfar : s'.far < s.far) :
    s'.rank < s.rank := by
  refine Prod.Lex.toLex_lt_toLex.mpr (.inr ⟨h, Prod.Lex.toLex_lt_toLex.mpr (.inr ⟨?_, hfar⟩)⟩)
  simp [hw]

/-- A step brings the pipeline nearer to its end, or is none of the thread that can. -/
def Nearer (s s' : Pipeline) (t : Thread) : Prop :=
  s'.rank < s.rank ∨ (t ≠ s.helper ∧ s'.rank = s.rank ∧ s'.helper = s.helper)

theorem nearer_of_loop (hf : s'.feeder = s.feeder) (hw : s'.waiting = s.waiting)
    (hfar : s.waiting ≠ 0 → s'.loop.far < s.loop.far)
    (hend : s.waiting = 0 → s.feeder.active = false →
      s'.loop.farFromEnd s'.stopping < s.loop.farFromEnd s.stopping) :
    s.Nearer s' .consumer := by
  have hleft : s'.left = s.left := by rw [left, left, hf, hw]
  by_cases hz : s.waiting = 0
  · cases ha : s.feeder.active with
    | false => exact .inl (rank_far hleft hw (by simp [far, hf, hw, hz, ha, hend hz ha]))
    | true =>
      have hfar' : s'.far = s.far := by simp [far, hf, hw, hz, ha]
      refine .inr ⟨by simp [helper, hz, ha], ?_, by simp [helper, hf, hw]⟩
      rw [rank, rank, hleft, hw, hfar']
  · exact .inl (rank_far hleft hw (by simp [far, hw, hz, hfar hz]))

theorem nearer_of_feeder (hl : s'.loop = s.loop) (hq : s'.queue.size.toNat = s.queue.size.toNat)
    (htodo : s'.feeder.todo.length = s.feeder.todo.length)
    (ha : s.feeder.active) (ha' : s'.feeder.active)
    (hfar : s.queue.size.toNat = 0 → s'.feeder.far < s.feeder.far) : s.Nearer s' .producer := by
  have hw : s'.waiting = s.waiting := by rw [waiting, waiting, hl, hq]
  have hleft : s'.left = s.left := by rw [left, left, htodo, hw, ha, ha']
  by_cases hz : s.waiting = 0
  · have hsize : s.queue.size.toNat = 0 := by
      rw [waiting] at hz
      omega
    exact .inl (rank_far hleft hw (by simp [far, hw, hz, ha, ha', hfar hsize]))
  · have hfar' : s'.far = s.far := by simp [far, hw, hz, hl]
    refine .inr ⟨by simp [helper, hz], ?_, by simp [helper, hw, hz]⟩
    rw [rank, rank, hleft, hw, hfar']

/-- The invariant, and that a producer which is through has stored `stop`. -/
def Live (ndebug : Bool) (cmds : List Command) (e₀ : MatchingEngine) (k : Nat) (s : Pipeline)
    (events : List Event) : Prop :=
  s.Inv ndebug cmds e₀ k events ∧ (s.feeder.active = false → s.stop = true)

theorem stepProducer_nearer (h : s.Inv ndebug cmds e₀ k events)
    (hstep : s.stepProducer = .ok s') :
    s.Nearer s' .producer ∨ s' = s ∧ s.feeder.active = false := by
  obtain ⟨pushed, popped, processed, h⟩ := h
  obtain ⟨queue, stop, feeder, engine, count, stopping, loop⟩ := s
  have hring := h.ring
  have hsize : queue.size.toNat + popped.length = pushed.length := hring.size_add
  cases feeder with
  | stopped =>
    cases hstep
    exact .inr ⟨rfl, rfl⟩
  | next todo =>
    refine .inl ?_
    cases todo with
    | nil =>
      cases hstep
      exact .inl (rank_left (by simp [left, waiting, Feeder.todo, Feeder.active]))
    | cons cmd rest =>
      cases hstep
      refine nearer_of_feeder rfl rfl rfl rfl rfl fun _ => ?_
      simp [Feeder.far, TryPush.toPublish, TryPush.left]
  | pushing pc rest =>
    refine .inl ?_
    obtain ⟨q', r, hrun, hafter⟩ := RingOk.push_step hring
    simp only [stepProducer, hrun, ok_bind] at hstep
    cases r with
    | next pc' =>
      cases hstep
      have hsize' : q'.size.toNat + popped.length = pushed.length := hafter.2.size_add
      have hsame : q'.size.toNat = queue.size.toNat := by omega
      exact nearer_of_feeder rfl hsame rfl rfl rfl fun hz => RingOk.push_toPublish hring hz hrun
    | done ok =>
      cases hstep
      cases ok with
      | true =>
        have hsize' : q'.size.toNat + popped.length = (pushed ++ [pc.value]).length :=
          RingOk.size_add hafter
        rw [List.length_append, List.length_singleton] at hsize'
        have hmore : waiting ⟨q', stop, .next rest, engine, count, stopping, loop⟩ =
            waiting ⟨queue, stop, .pushing pc rest, engine, count, stopping, loop⟩ + 1 := by
          simp only [waiting]
          omega
        have hleft : left ⟨q', stop, .next rest, engine, count, stopping, loop⟩ =
            left ⟨queue, stop, .pushing pc rest, engine, count, stopping, loop⟩ := by
          simp only [left, hmore, Feeder.todo, Feeder.active, List.length_cons]
          omega
        by_cases hz : waiting ⟨queue, stop, .pushing pc rest, engine, count, stopping, loop⟩ = 0
        · exact .inl (rank_busy hleft hz fun he => absurd (hmore.symm.trans he) (by omega))
        · refine .inr ⟨by simp [helper, hz], ?_, by simp [helper, hz, hmore]⟩
          simp [rank, hleft, far, hz, hmore]
      | false =>
        have hsize' : q'.size.toNat + popped.length = pushed.length :=
          RingOk.size_add (show RingOk k q' none loop.pop pushed popped from hafter)
        have hsame : q'.size.toNat = queue.size.toNat := by omega
        have hfull := TryPush.toPublish_of_full (TryPush.full_of_refused hrun)
        have hpos := pc.left_bounds
        have hagain : 7 < pc.toPublish := by omega
        exact nearer_of_feeder rfl hsame rfl rfl rfl fun _ => hagain

theorem stepEngine_nearer (h : s.Live ndebug cmds e₀ k events)
    (hstep : s.stepEngine ndebug = .ok (s', out)) (hret : s.loop.isReturned = false) :
    s'.loop.isReturned = true ∨ s.Nearer s' .consumer := by
  obtain ⟨⟨pushed, popped, processed, h⟩, hstored⟩ := h
  obtain ⟨queue, stop, feeder, engine, count, stopping, loop⟩ := s
  have hring := h.ring
  have hsize : queue.size.toNat + popped.length = pushed.length := hring.size_add
  cases loop with
  | returned n => cases hret
  | loadStop =>
    cases hstep
    refine .inr (nearer_of_loop rfl rfl (fun _ => ?_) fun _ ha => ?_)
    · simp [RunLoop.again, RunLoop.far, TryPop.left, PopRequest.most]
    · have hstop : stop = true := hstored ha
      simp [RunLoop.again, RunLoop.farFromEnd, TryPop.left, PopRequest.most, hstop]
  | popping pc =>
    obtain ⟨q', r, hrun, hafter⟩ := RingOk.pop_step hring
    simp only [stepEngine, hrun, ok_bind] at hstep
    cases r with
    | next pc' =>
      cases hstep
      have hsize' : q'.size.toNat + popped.length = pushed.length :=
        RingOk.size_add (show RingOk _ _ _ _ _ _ from hafter)
      have hleft := RingOk.pop_left hring hrun
      refine .inr (nearer_of_loop rfl ?_ (fun _ => hleft) fun _ _ => ?_)
      · simp only [waiting, RunLoop.pending]
        omega
      · simp only [RunLoop.farFromEnd]
        omega
    | done batch =>
      cases hstep
      have hsize' : q'.size.toNat + (popped ++ batch).length = pushed.length :=
        RingOk.size_add hafter.1
      rw [List.length_append] at hsize'
      have hwait : waiting ⟨queue, stop, feeder, engine, count, stopping, .popping pc⟩ =
          queue.size.toNat := rfl
      refine .inr (nearer_of_loop rfl ?_ (fun hw => ?_) fun hw _ => ?_)
      · simp only [waiting, RunLoop.pending, List.drop_zero, List.length_nil]
        omega
      · -- the pop has not come back empty
        have hne : batch.length ≠ 0 := by
          intro hb
          have := congrArg List.length (hafter.2 (List.eq_nil_of_length_eq_zero hb))
          omega
        have : 0 < pc.left := by cases pc <;> simp [TryPop.left]
        simpa [RunLoop.far, Nat.pos_of_ne_zero hne] using this
      · have hb : batch.length = 0 := by omega
        simp only [RunLoop.farFromEnd, if_pos hb]
        omega
  | processing batch i =>
    have hle := h.within batch i rfl
    by_cases hi : i < batch.length
    · have hget : batch[i]? = some batch[i] := List.getElem?_eq_getElem hi
      simp only [stepEngine, hget] at hstep
      obtain ⟨⟨engine', out'⟩, -, hstep⟩ := bind_eq_ok.mp hstep
      cases hstep
      refine .inr (.inl (rank_left ?_))
      simp only [left, waiting, RunLoop.pending, List.length_drop]
      omega
    · obtain rfl : i = batch.length := by omega
      simp only [stepEngine, List.getElem?_eq_none le_rfl] at hstep
      split at hstep
      · rename_i hn
        cases hstep
        refine .inr (nearer_of_loop rfl (by simp [waiting, RunLoop.again, RunLoop.pending])
          (fun _ => ?_) fun _ _ => ?_)
        · simp [RunLoop.again, RunLoop.far, TryPop.left, PopRequest.most]
        · simp only [RunLoop.again, RunLoop.farFromEnd, if_neg hn, TryPop.left, PopRequest.most]
          omega
      · rename_i hn
        have hb : batch.length = 0 := not_not.mp hn
        split at hstep
        · cases hstep
          exact .inl rfl
        · rename_i hs
          cases hstep
          refine .inr (nearer_of_loop rfl (by simp [waiting, RunLoop.pending])
            (fun _ => by simp [RunLoop.far]) fun _ _ => ?_)
          simp only [RunLoop.farFromEnd, if_pos hb, if_neg hs]
          omega

theorem stored_of_step (h : s.feeder.active = false → s.stop = true) {t : Thread}
    (hstep : s.step ndebug t = .ok (s', out)) : s'.feeder.active = false → s'.stop = true := by
  obtain ⟨queue, stop, feeder, engine, count, stopping, loop⟩ := s
  cases t with
  | producer =>
    obtain ⟨s₁, hrun, he⟩ := bind_eq_ok.mp hstep
    cases he
    cases feeder with
    | stopped =>
      cases hrun
      exact h
    | next todo =>
      cases todo with
      | nil =>
        cases hrun
        exact fun _ => rfl
      | cons cmd rest =>
        cases hrun
        exact nofun
    | pushing pc rest =>
      obtain ⟨⟨q', r⟩, -, hrun⟩ := bind_eq_ok.mp hrun
      cases r <;> cases hrun <;> exact nofun
  | consumer =>
    cases loop with
    | returned n =>
      cases hstep
      exact h
    | loadStop =>
      cases hstep
      exact h
    | popping pc =>
      obtain ⟨⟨q', r⟩, -, hstep⟩ := bind_eq_ok.mp hstep
      cases r <;> cases hstep <;> exact h
    | processing batch i =>
      simp only [step, stepEngine] at hstep
      split at hstep
      · obtain ⟨_, -, hstep⟩ := bind_eq_ok.mp hstep
        cases hstep
        exact h
      · split at hstep
        · cases hstep
          exact h
        · split at hstep <;> cases hstep <;> exact h

theorem returned_stays (h : s.loop.isReturned = true) {t : Thread}
    (hstep : s.step ndebug t = .ok (s', out)) : s'.loop.isReturned = true := by
  obtain ⟨queue, stop, feeder, engine, count, stopping, loop⟩ := s
  cases loop with
  | returned n =>
    cases t with
    | consumer =>
      cases hstep
      rfl
    | producer =>
      obtain ⟨s₁, hrun, he⟩ := bind_eq_ok.mp hstep
      cases he
      cases feeder with
      | stopped =>
        cases hrun
        rfl
      | next todo => cases todo <;> cases hrun <;> rfl
      | pushing pc rest =>
        obtain ⟨⟨q', r⟩, -, hrun⟩ := bind_eq_ok.mp hrun
        cases r <;> cases hrun <;> rfl
  | _ => cases h

theorem live_step (h : s.Live ndebug cmds e₀ k events) (t : Thread)
    (hok : ∃ r, e₀.processAll ndebug cmds = .ok r) :
    ∃ s' out, s.step ndebug t = .ok (s', out) ∧ s'.Live ndebug cmds e₀ k (events ++ out) := by
  rcases step_inv h.1 t with ⟨s', out, hstep, hinv⟩ | ⟨-, hf⟩
  · exact ⟨s', out, hstep, hinv, stored_of_step h.2 hstep⟩
  · obtain ⟨r, hr⟩ := hok
    exact absurd hr (hf r)

theorem descends (hok : ∃ r, e₀.processAll ndebug cmds = .ok r) :
    Descends (Pipeline.step ndebug) (fun _ => True) (Live ndebug cmds e₀ k)
      (fun s => s.loop.isReturned = true) helper rank := by
  refine ⟨fun s events t _ h hret => ?_⟩
  obtain ⟨s', out, hstep, hlive⟩ := live_step h t hok
  have hret' : s.loop.isReturned = false := by simpa using hret
  refine ⟨s', out, hstep, hlive, ?_⟩
  cases t with
  | consumer => exact stepEngine_nearer h hstep hret'
  | producer =>
    obtain ⟨s₁, hrun, he⟩ := bind_eq_ok.mp hstep
    cases he
    rcases stepProducer_nearer h.1 hrun with hnear | ⟨rfl, ha⟩
    · exact .inr hnear
    · exact .inr (.inr ⟨by simp [helper, ha], rfl, rfl⟩)

end Pipeline

/-- Whatever the interleaving, as long as neither thread is left out for ever: `run`
returns, and by then it has processed the whole list in order. -/
theorem run_returns {capacity : UInt64} {q : SPSCQueue Command}
    (hq : SPSCQueue.new capacity = .ok q) (ndebug : Bool) (e₀ : MatchingEngine)
    (cmds : List Command) {e : MatchingEngine} {batches : List (List Event)}
    (hok : e₀.processAll ndebug cmds = .ok (e, batches)) (f : Nat → Thread)
    (hfair : ∀ t, FairTo f t) :
    ∃ N, ∀ n, N ≤ n → ∃ s,
      Schedule.run (Pipeline.step ndebug) (Pipeline.start q e₀ cmds) (upTo f n) =
        .ok (s, batches.flatten) ∧
      s.loop = .returned (UInt64.ofNat cmds.length) ∧ s.queue.empty ∧ s.engine = e := by
  obtain ⟨k, -, -, hring⟩ := RingOk.new hq
  have h₀ : (Pipeline.start q e₀ cmds).Live ndebug cmds e₀ k [] :=
    ⟨Pipeline.start_inv hring, nofun⟩
  have hlead : LeadsTo (Pipeline.step ndebug) (Pipeline.start q e₀ cmds) f
      (Pipeline.Live ndebug cmds e₀ k) fun s events =>
        s.Live ndebug cmds e₀ k events ∧ s.loop.isReturned = true :=
    (Pipeline.descends ⟨_, hok⟩).leadsTo (fun _ => trivial) fun s => hfair _
  obtain ⟨N, hN⟩ :=
    hlead.settles (C := fun _ => True) h₀ (fun _ => trivial) fun s events t _ h => by
      obtain ⟨s', out, hstep, hlive⟩ := Pipeline.live_step h.1 t ⟨_, hok⟩
      exact ⟨s', out, hstep, hlive, Pipeline.returned_stays h.2 hstep⟩
  refine ⟨N, fun n hn => ?_⟩
  obtain ⟨s, events, hrun, -, hret⟩ := hN n hn
  obtain ⟨r, hr⟩ : ∃ r, s.loop = .returned r := by
    cases hl : s.loop with
    | returned r => exact ⟨r, rfl⟩
    | _ => simp [hl, RunLoop.isReturned] at hret
  obtain ⟨rfl, hempty, batches', hall, rfl⟩ :=
    (run_drains hq ndebug e₀ cmds (upTo f n)).1 s events r hrun hr
  cases hall.symm.trans hok
  exact ⟨s, hrun, hr, hempty, rfl⟩

theorem run_returns_small : ∃ q e₀ e batches N,
    SPSCQueue.new (UInt64.ofNat 2) = .ok q ∧
    MatchingEngine.new { anchorPrice := 100, bandRadius := 1, poolCapacity := 2 } = .ok e₀ ∧
    e₀.processAll false
      [⟨.kNew, .kBuy, .kLimit, 0, 1, 100, 0⟩, ⟨.kNew, .kSell, .kIoc, 0, 1, 100, 0⟩] =
        .ok (e, batches) ∧
    ∀ n, N ≤ n → ∃ s, Schedule.run (Pipeline.step false) (Pipeline.start q e₀
        [⟨.kNew, .kBuy, .kLimit, 0, 1, 100, 0⟩, ⟨.kNew, .kSell, .kIoc, 0, 1, 100, 0⟩])
        (upTo (roundRobin [.producer, .consumer] (by simp)) n) = .ok (s, batches.flatten) ∧
      s.loop = .returned 2 ∧ s.queue.empty ∧ s.engine = e := by
  obtain ⟨q, hq⟩ : ∃ q, SPSCQueue.new (T := Command) (UInt64.ofNat 2) = .ok q := ⟨_, rfl⟩
  obtain ⟨e₀, he⟩ : ∃ e₀, MatchingEngine.new
      { anchorPrice := 100, bandRadius := 1, poolCapacity := 2 } = .ok e₀ := ⟨_, rfl⟩
  have hrun : ∃ r, (MatchingEngine.new
      { anchorPrice := 100, bandRadius := 1, poolCapacity := 2 } >>= fun e₀ =>
        e₀.processAll false [⟨.kNew, .kBuy, .kLimit, 0, 1, 100, 0⟩,
          ⟨.kNew, .kSell, .kIoc, 0, 1, 100, 0⟩]) = .ok r ∧ True := Holds.exists_ok (by decide)
  rw [he, ok_bind] at hrun
  obtain ⟨⟨e, batches⟩, hrun, -⟩ := hrun
  obtain ⟨N, hN⟩ := run_returns hq false e₀ _ hrun
    (roundRobin [.producer, .consumer] (by simp)) fun t => roundRobin_fair _ (by cases t <;> simp)
  exact ⟨q, e₀, e, batches, N, hq, he, hrun, hN⟩

end LimitOrderBook
