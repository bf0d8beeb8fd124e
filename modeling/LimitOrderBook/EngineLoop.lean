import LimitOrderBook.MatchingEngine
import LimitOrderBook.SpscRing

/-!
`MatchingEngine::run` on its own thread, draining the ring a producer fills. The
producer retries a refused push, and stores `stop` after its last one.
-/

set_option autoImplicit false

namespace LimitOrderBook
open Checked

def kEngineBatchSize : UInt64 := 256

inductive Thread where
  | producer
  | consumer
  deriving DecidableEq, Repr

instance : Inhabited Command := ⟨⟨⟨0⟩, ⟨0⟩, ⟨0⟩, 0, 0, 0, 0⟩⟩

/-- The producer: between two pushes, inside one, or past its store of `stop`. -/
inductive Feeder where
  | next (todo : List Command)
  | pushing (pc : TryPush Command) (rest : List Command)
  | stopped

namespace Feeder

def push : Feeder → Option (TryPush Command)
  | pushing pc _ => some pc
  | _ => none

def todo : Feeder → List Command
  | next todo => todo
  | pushing pc rest => pc.value :: rest
  | stopped => []

end Feeder

/-- The body of the loop: inside the pop, at entry `i` of the batch, before the load
of `stop`, or returned. -/
inductive RunLoop where
  | popping (pc : TryPop Command)
  | processing (batch : List Command) (i : Nat)
  | loadStop
  | returned (result : UInt64)
  deriving DecidableEq

namespace RunLoop

def again : RunLoop := popping (.loadHead (.popBatch kEngineBatchSize))

def pop : RunLoop → Option (TryPop Command)
  | popping pc => some pc
  | _ => none

def pending : RunLoop → List Command
  | processing batch i => batch.drop i
  | _ => []

/-- What was processed but not added to `processed`. -/
def uncounted : RunLoop → Nat
  | processing _ i => i
  | _ => 0

end RunLoop

structure Pipeline where
  queue : SPSCQueue Command
  stop : Bool := false
  feeder : Feeder
  engine : MatchingEngine
  processed : UInt64 := 0
  stopping : Bool := false
  loop : RunLoop := RunLoop.again

namespace Pipeline

def start (queue : SPSCQueue Command) (engine : MatchingEngine) (cmds : List Command) :
    Pipeline := { queue, engine, feeder := .next cmds }

def stepProducer (s : Pipeline) : Exec Pipeline :=
  match s.feeder with
  | .next (cmd :: rest) => pure { s with feeder := .pushing (.loadTail cmd) rest }
  | .next [] => pure { s with stop := true, feeder := .stopped }
  | .pushing pc rest => do
    match ← pc.step s.queue with
    | (queue, .next pc) => pure { s with queue, feeder := .pushing pc rest }
    | (queue, .done ok) =>
      pure { s with queue, feeder := .next (if ok then rest else pc.value :: rest) }
  | .stopped => pure s

def stepEngine (ndebug : Bool) (s : Pipeline) : Exec (Pipeline × List Event) :=
  match s.loop with
  | .popping pc => do
    match ← pc.step s.queue with
    | (queue, .next pc) => pure ({ s with queue, loop := .popping pc }, [])
    | (queue, .done batch) => pure ({ s with queue, loop := .processing batch 0 }, [])
  | .processing batch i =>
    match batch[i]? with
    | some cmd => do
      let (engine, events) ← s.engine.process ndebug cmd
      pure ({ s with engine, loop := .processing batch (i + 1) }, events)
    | none =>
      let n := batch.length
      let s := { s with processed := s.processed + UInt64.ofNat n }
      if n ≠ 0 then pure ({ s with loop := RunLoop.again }, [])
      else if s.stopping then pure ({ s with loop := .returned s.processed }, [])
      else pure ({ s with loop := .loadStop }, [])
  | .loadStop => pure ({ s with stopping := s.stop, loop := RunLoop.again }, [])
  | .returned _ => pure (s, [])

def step (ndebug : Bool) (s : Pipeline) : Thread → Exec (Pipeline × List Event)
  | .producer => do
    let s ← s.stepProducer
    pure (s, [])
  | .consumer => s.stepEngine ndebug

end Pipeline

namespace MatchingEngine

theorem processAll_append {ndebug : Bool} {xs ys : List Command} {e e' : MatchingEngine}
    {batches : List (List Event)} : e.processAll ndebug (xs ++ ys) = .ok (e', batches) ↔
      ∃ e₁ b₁ b₂, e.processAll ndebug xs = .ok (e₁, b₁) ∧
        e₁.processAll ndebug ys = .ok (e', b₂) ∧ batches = b₁ ++ b₂ := by
  induction xs generalizing e batches with
  | nil => simp [processAll]
  | cons cmd xs ih =>
    constructor
    · intro h
      obtain ⟨⟨e₁, events⟩, hcmd, h⟩ := bind_eq_ok.mp h
      obtain ⟨⟨e₂, rest⟩, hrest, h⟩ := bind_eq_ok.mp h
      cases h
      obtain ⟨e₃, b₁, b₂, hxs, hys, rfl⟩ := ih.mp hrest
      exact ⟨e₃, events :: b₁, b₂, by simp [processAll, hcmd, hxs], hys, rfl⟩
    · rintro ⟨e₃, b, b₂, hxs, hys, rfl⟩
      obtain ⟨⟨e₁, events⟩, hcmd, h⟩ := bind_eq_ok.mp hxs
      obtain ⟨⟨e₂, b₁⟩, hrest, h⟩ := bind_eq_ok.mp h
      cases h
      have hall := ih.mpr ⟨_, b₁, b₂, hrest, hys, rfl⟩
      simp [processAll, hcmd, hall]

theorem processAll_one {ndebug : Bool} {cmd : Command} {e e' : MatchingEngine}
    {batches : List (List Event)} : e.processAll ndebug [cmd] = .ok (e', batches) ↔
      ∃ events, e.process ndebug cmd = .ok (e', events) ∧ batches = [events] := by
  simp only [processAll, bind_eq_ok]
  constructor
  · rintro ⟨⟨e₁, events⟩, hcmd, ⟨e₂, b⟩, hnil, h⟩
    cases hnil
    cases h
    exact ⟨events, hcmd, rfl⟩
  · rintro ⟨events, hcmd, rfl⟩
    exact ⟨(e', events), hcmd, (e', []), rfl, rfl⟩

end MatchingEngine

namespace Pipeline

variable {ndebug : Bool} {cmds : List Command} {e₀ : MatchingEngine} {k : Nat} {s : Pipeline}
  {events : List Event}

/-- The state of the two threads, between the published commands, those popped and
those processed. -/
structure At (ndebug : Bool) (cmds : List Command) (e₀ : MatchingEngine) (k : Nat) (s : Pipeline)
    (events : List Event) (pushed popped processed : List Command) : Prop where
  ring : RingOk k s.queue s.feeder.push s.loop.pop pushed popped
  fed : pushed ++ s.feeder.todo = cmds
  stopped : s.stop = true → s.feeder = .stopped
  seen : s.stopping = true → s.stop = true
  engine : ∃ batches, e₀.processAll ndebug processed = .ok (s.engine, batches) ∧
    events = batches.flatten
  popped_eq : popped = processed ++ s.loop.pending
  count : s.processed + UInt64.ofNat s.loop.uncounted = UInt64.ofNat processed.length
  within : ∀ batch i, s.loop = .processing batch i → i ≤ batch.length
  drained : s.loop = .processing [] 0 → s.stopping = true → popped = cmds
  result : ∀ n, s.loop = .returned n → n = s.processed ∧ popped = cmds

def Inv (ndebug : Bool) (cmds : List Command) (e₀ : MatchingEngine) (k : Nat) (s : Pipeline)
    (events : List Event) : Prop :=
  ∃ pushed popped processed, s.At ndebug cmds e₀ k events pushed popped processed

theorem start_inv {q : SPSCQueue Command} (h : RingOk k q none none [] []) :
    (start q e₀ cmds).Inv ndebug cmds e₀ k [] := by
  refine ⟨[], [], [], ?_⟩
  exact {
    ring := h.callPop (by decide)
    fed := rfl
    stopped := by simp [start]
    seen := by simp [start]
    engine := ⟨[], rfl, rfl⟩
    popped_eq := rfl
    count := rfl
    within := by simp [start, RunLoop.again]
    drained := by simp [start, RunLoop.again]
    result := by simp [start, RunLoop.again] }

/-- The producer's steps touch nothing of the engine thread. -/
theorem stepProducer_inv (h : s.Inv ndebug cmds e₀ k events) :
    ∃ s', s.stepProducer = .ok s' ∧ s'.Inv ndebug cmds e₀ k events := by
  obtain ⟨pushed, popped, processed, h⟩ := h
  obtain ⟨queue, stop, feeder, engine, count, stopping, loop⟩ := s
  have hring := h.ring
  have hfed := h.fed
  cases feeder with
  | stopped => exact ⟨_, rfl, pushed, popped, processed, h⟩
  | next todo =>
    have hstop : stop ≠ true := fun hs => by simpa using h.stopped hs
    cases todo with
    | nil =>
      refine ⟨_, rfl, pushed, popped, processed, { h with
        stopped := fun _ => rfl
        seen := fun _ => rfl }⟩
    | cons cmd rest =>
      refine ⟨_, rfl, pushed, popped, processed, { h with
        ring := hring.callPush cmd
        stopped := fun hs => absurd hs hstop }⟩
  | pushing pc rest =>
    have hstop : stop ≠ true := fun hs => by simpa using h.stopped hs
    obtain ⟨q', r, hrun, hafter⟩ := RingOk.push_step hring
    cases r with
    | next pc' =>
      refine ⟨⟨q', stop, .pushing pc' rest, engine, count, stopping, loop⟩, ?_, pushed, popped,
        processed, ?_⟩
      · simp [stepProducer, hrun]
      · exact { h with
          ring := hafter.2
          fed := by simpa [Feeder.todo, hafter.1] using hfed
          stopped := fun hs => absurd hs hstop }
    | done ok =>
      refine ⟨⟨q', stop, .next (if ok then rest else pc.value :: rest), engine, count, stopping,
        loop⟩, ?_, if ok then pushed ++ [pc.value] else pushed, popped, processed, ?_⟩
      · simp [stepProducer, hrun]
      · exact { h with
          ring := hafter
          fed := by cases ok <;> simpa [Feeder.todo] using hfed
          stopped := fun hs => absurd hs hstop }

theorem At.popped_of_list {pushed popped processed : List Command}
    (h : s.At ndebug cmds e₀ k events pushed popped processed) : popped <+: cmds := by
  rw [← h.fed]
  exact h.ring.served.trans (List.prefix_append ..)

theorem At.processAll_error {pushed popped processed : List Command}
    (h : s.At ndebug cmds e₀ k events pushed popped processed) {cmd : Command}
    {rest : List Command} (hp : popped = processed ++ cmd :: rest) {f : Fault}
    (hf : s.engine.process ndebug cmd = .error f) (r : MatchingEngine × List (List Event)) :
    e₀.processAll ndebug cmds ≠ .ok r := by
  intro hall
  obtain ⟨tail, rfl⟩ := h.popped_of_list
  obtain ⟨batches, hdone, -⟩ := h.engine
  rw [hp, List.append_assoc, List.cons_append] at hall
  obtain ⟨e₁, b₁, b₂, h₁, h₂, -⟩ := MatchingEngine.processAll_append.mp hall
  obtain ⟨rfl, -⟩ := Prod.mk.inj (Except.ok.inj (hdone.symm.trans h₁))
  obtain ⟨⟨e₂, out⟩, hcmd, -⟩ := bind_eq_ok.mp h₂
  rw [hf] at hcmd
  cases hcmd

/-- A step of the engine thread goes through, unless the sequential run would fault. -/
theorem stepEngine_inv (h : s.Inv ndebug cmds e₀ k events) :
    (∃ s' out, s.stepEngine ndebug = .ok (s', out) ∧ s'.Inv ndebug cmds e₀ k (events ++ out)) ∨
      (∃ f, s.stepEngine ndebug = .error f) ∧ ∀ r, e₀.processAll ndebug cmds ≠ .ok r := by
  have hskip : s.Inv ndebug cmds e₀ k (events ++ []) := by rwa [List.append_nil]
  obtain ⟨pushed, popped, processed, h⟩ := h
  have hat := h
  obtain ⟨queue, stop, feeder, engine, count, stopping, loop⟩ := s
  have hring := h.ring
  cases loop with
  | returned n => exact .inl ⟨_, _, rfl, hskip⟩
  | loadStop =>
    refine .inl ⟨_, _, rfl, pushed, popped, processed, ?_⟩
    exact { h with
      ring := hring.callPop (by decide)
      seen := fun hs => hs
      engine := by simpa using h.engine
      within := nofun
      drained := nofun
      result := nofun }
  | popping pc =>
    obtain ⟨q', r, hrun, hafter⟩ := RingOk.pop_step hring
    cases r with
    | next pc' =>
      refine .inl ⟨⟨q', stop, feeder, engine, count, stopping, .popping pc'⟩, [], ?_, pushed,
        popped, processed, ?_⟩
      · simp [stepEngine, hrun]
      · exact { h with
          ring := hafter
          engine := by simpa using h.engine
          within := nofun
          drained := nofun
          result := nofun }
    | done batch =>
      refine .inl ⟨⟨q', stop, feeder, engine, count, stopping, .processing batch 0⟩, [], ?_,
        pushed, popped ++ batch, processed, ?_⟩
      · simp [stepEngine, hrun]
      · exact { h with
          ring := hafter.1
          engine := by simpa using h.engine
          popped_eq := by simpa [RunLoop.pending] using h.popped_eq
          within := fun b i hb => by
            cases hb
            exact Nat.zero_le _
          drained := fun hb hs => by
            cases hb
            have hfeeder := h.stopped (h.seen hs)
            have hfed := h.fed
            rw [hfeeder, Feeder.todo, List.append_nil] at hfed
            rw [List.append_nil, hafter.2 rfl, hfed]
          result := nofun }
  | processing batch i =>
    have hle := h.within batch i rfl
    have hpopped : popped = processed ++ batch.drop i := h.popped_eq
    by_cases hi : i < batch.length
    · have hget : batch[i]? = some batch[i] := List.getElem?_eq_getElem hi
      rw [List.drop_eq_getElem_cons hi] at hpopped
      cases hcmd : engine.process ndebug batch[i] with
      | error f =>
        exact .inr ⟨⟨f, by simp [stepEngine, hget, hcmd]⟩, hat.processAll_error hpopped hcmd⟩
      | ok r =>
        obtain ⟨engine', out⟩ := r
        refine .inl ⟨⟨queue, stop, feeder, engine', count, stopping, .processing batch (i + 1)⟩,
          out, by simp [stepEngine, hget, hcmd], pushed, popped, processed ++ [batch[i]], ?_⟩
        obtain ⟨batches, hdone, hevents⟩ := h.engine
        exact { h with
          engine := by
            refine ⟨batches ++ [out], ?_, by simp [hevents]⟩
            exact MatchingEngine.processAll_append.mpr
              ⟨_, batches, [out], hdone, MatchingEngine.processAll_one.mpr ⟨out, hcmd, rfl⟩, rfl⟩
          popped_eq := by simpa [RunLoop.pending] using hpopped
          count := by
            have hcount : count + UInt64.ofNat i = UInt64.ofNat processed.length := h.count
            simp only [RunLoop.uncounted, List.length_append, List.length_singleton]
            rw [← Wrapping.ofNat_succ, ← Wrapping.ofNat_succ, ← UInt64.add_assoc, hcount]
          within := fun b j hb => by
            cases hb
            exact hi
          drained := nofun
          result := nofun }
    · obtain rfl : i = batch.length := by omega
      have hcount : count + UInt64.ofNat batch.length = UInt64.ofNat processed.length := h.count
      rw [List.drop_length, List.append_nil] at hpopped
      -- The next round, the load of `stop` and the return all start from here.
      have hdone : ∀ loop : RunLoop, loop.pending = [] → loop.uncounted = 0 →
          RingOk k queue feeder.push loop.pop pushed popped →
          (∀ b j, loop = .processing b j → False) →
          (∀ n, loop = .returned n → n = count + UInt64.ofNat batch.length ∧ popped = cmds) →
          At ndebug cmds e₀ k ⟨queue, stop, feeder, engine, count + UInt64.ofNat batch.length,
            stopping, loop⟩ (events ++ []) pushed popped processed := by
        intro loop hpending huncounted hring hbatch hresult
        exact { h with
          ring := hring
          engine := by simpa using h.engine
          popped_eq := by simpa [hpending] using hpopped
          count := by simpa [huncounted] using hcount
          within := fun b j hb => (hbatch b j hb).elim
          drained := fun hb => (hbatch _ _ hb).elim
          result := hresult }
      by_cases hn : batch.length = 0
      · obtain rfl : batch = [] := List.eq_nil_of_length_eq_zero hn
        by_cases hs : stopping = true
        · refine .inl ⟨_, [], ?_, pushed, popped, processed,
            hdone (.returned (count + UInt64.ofNat 0)) rfl rfl hring nofun fun n hn => ?_⟩
          · simp [stepEngine, hs]
          · cases hn
            exact ⟨rfl, h.drained rfl hs⟩
        · refine .inl ⟨_, [], ?_, pushed, popped, processed,
            hdone .loadStop rfl rfl hring nofun nofun⟩
          simp [stepEngine, hs]
      · refine .inl ⟨_, [], ?_, pushed, popped, processed,
          hdone .again rfl rfl (hring.callPop (by decide)) nofun nofun⟩
        simp [stepEngine, hn]

theorem step_inv (h : s.Inv ndebug cmds e₀ k events) (t : Thread) :
    (∃ s' out, s.step ndebug t = .ok (s', out) ∧ s'.Inv ndebug cmds e₀ k (events ++ out)) ∨
      (∃ f, s.step ndebug t = .error f) ∧ ∀ r, e₀.processAll ndebug cmds ≠ .ok r := by
  cases t with
  | producer =>
    obtain ⟨s', hrun, hinv⟩ := stepProducer_inv h
    exact .inl ⟨s', [], by simp [step, hrun], by rwa [List.append_nil]⟩
  | consumer => exact stepEngine_inv h

theorem inv_of_step (h : s.Inv ndebug cmds e₀ k events) {t : Thread} {s' : Pipeline}
    {out : List Event} (hstep : s.step ndebug t = .ok (s', out)) :
    s'.Inv ndebug cmds e₀ k (events ++ out) := by
  rcases step_inv h t with ⟨s₁, out₁, hok, hinv⟩ | ⟨⟨f, hf⟩, -⟩
  · cases hok.symm.trans hstep
    exact hinv
  · cases hf.symm.trans hstep

end Pipeline

/-- Whenever `run` returns, it has processed the whole list in order and left the
ring empty; and it faults on no schedule, unless a command of the list does. -/
theorem run_drains {capacity : UInt64} {q : SPSCQueue Command}
    (hq : SPSCQueue.new capacity = .ok q) (ndebug : Bool) (e₀ : MatchingEngine)
    (cmds : List Command) (sched : List Thread) :
    (∀ s events n,
      Schedule.run (Pipeline.step ndebug) (Pipeline.start q e₀ cmds) sched = .ok (s, events) →
      s.loop = .returned n → n = UInt64.ofNat cmds.length ∧ s.queue.empty ∧
        ∃ batches, e₀.processAll ndebug cmds = .ok (s.engine, batches) ∧
          events = batches.flatten) ∧
    ((∃ r, e₀.processAll ndebug cmds = .ok r) → ∃ s events,
      Schedule.run (Pipeline.step ndebug) (Pipeline.start q e₀ cmds) sched = .ok (s, events)) := by
  obtain ⟨k, -, -, hring⟩ := RingOk.new hq
  have h₀ : (Pipeline.start q e₀ cmds).Inv ndebug cmds e₀ k [] := Pipeline.start_inv hring
  constructor
  · intro s events n hrun hret
    have hinv := Schedule.run_inv (Pipeline.Inv ndebug cmds e₀ k)
      (fun s hist t s' out hs hstep => Pipeline.inv_of_step hs hstep) h₀ hrun
    obtain ⟨pushed, popped, processed, h⟩ := hinv
    obtain ⟨rfl, hpopped⟩ := h.result n hret
    have hprocessed := h.popped_eq
    have hcount := h.count
    rw [hret] at hprocessed hcount
    simp only [RunLoop.pending, List.append_nil] at hprocessed
    simp only [RunLoop.uncounted] at hcount
    obtain rfl : processed = cmds := hprocessed.symm.trans hpopped
    refine ⟨by simpa using hcount, ?_, h.engine⟩
    have hlen := congrArg List.length h.fed
    rw [List.length_append, ← hpopped] at hlen
    have hpushed := h.ring.served.eq_of_length_le (by omega)
    exact RingOk.empty (hpushed ▸ h.ring)
  · rintro ⟨r, hr⟩
    obtain ⟨s, events, hrun, -⟩ := Schedule.run_ok (Pipeline.Inv ndebug cmds e₀ k) (fun _ => True)
      (fun s hist t _ hs => (Pipeline.step_inv hs t).resolve_right fun hf => hf.2 r hr) h₀
      (fun _ _ => trivial)
    exact ⟨s, events, hrun⟩

theorem run_drains_small : ∃ q e₀ s events,
    SPSCQueue.new (UInt64.ofNat 2) = .ok q ∧
    MatchingEngine.new { anchorPrice := 100, bandRadius := 1, poolCapacity := 2 } = .ok e₀ ∧
    Schedule.run (Pipeline.step false) (Pipeline.start q e₀
      [⟨.kNew, .kBuy, .kLimit, 0, 1, 100, 0⟩, ⟨.kNew, .kSell, .kIoc, 0, 1, 100, 0⟩])
      (List.replicate 13 Thread.producer ++ List.replicate 15 Thread.consumer) = .ok (s, events) ∧
    s.loop = .returned 2 ∧ s.queue.empty ∧ events.length = 4 := by
  obtain ⟨q, hq⟩ : ∃ q, SPSCQueue.new (T := Command) (UInt64.ofNat 2) = .ok q := ⟨_, rfl⟩
  obtain ⟨e₀, he⟩ : ∃ e₀, MatchingEngine.new
      { anchorPrice := 100, bandRadius := 1, poolCapacity := 2 } = .ok e₀ := ⟨_, rfl⟩
  have hrun : ∃ r, (do
      let q ← SPSCQueue.new (T := Command) (UInt64.ofNat 2)
      let e₀ ← MatchingEngine.new { anchorPrice := 100, bandRadius := 1, poolCapacity := 2 }
      Schedule.run (Pipeline.step false) (Pipeline.start q e₀
        [⟨.kNew, .kBuy, .kLimit, 0, 1, 100, 0⟩, ⟨.kNew, .kSell, .kIoc, 0, 1, 100, 0⟩])
        (List.replicate 13 Thread.producer ++ List.replicate 15 Thread.consumer)) = .ok r ∧
      r.1.loop = .returned 2 ∧ r.2.length = 4 := Holds.exists_ok (by decide)
  rw [hq, ok_bind, he, ok_bind] at hrun
  obtain ⟨⟨s, events⟩, hrun, hret, hlen⟩ := hrun
  obtain ⟨-, hempty, -⟩ := (run_drains hq false e₀ _ _).1 s events 2 hrun hret
  exact ⟨q, e₀, s, events, hq, he, hrun, hret, hempty, hlen⟩

end LimitOrderBook
