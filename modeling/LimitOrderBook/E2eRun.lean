import LimitOrderBook.E2eBench
import LimitOrderBook.EngineLoop
import LimitOrderBook.LatencyMerge

/-!
`run_e2e` of `e2e_bench_lib.h`: the loop of the engine thread, with the warmup boundary
and one recorder for each class, over any way the pops cut the stream. The two readings
of the wall clock around the window are left out.
-/

set_option autoImplicit false

namespace LimitOrderBook
open Checked LatencyRecorder

abbrev Recorders := Vector LatencyRecorder kOpClasses

/-- The engine, what `EngineRun` collects, the readings of the cycle counter made so far,
and what the sink passed to the logger. -/
structure EngineThread where
  engine : MatchingEngine
  recorders : Recorders := Vector.replicate kOpClasses {}
  processed : UInt64 := 0
  reads : Nat := 0
  logged : List (UInt64 × Event) := []

namespace EngineThread

def openWindow (s : EngineThread) : EngineThread :=
  { s with
    recorders := s.recorders.map LatencyRecorder.reset
    engine := { s.engine with stats := {} } }

/-- `run.recorders[c].record(ticks)`. -/
def recordAt (recorders : Recorders) (c : OpClass) (ticks : UInt64) : Exec Recorders :=
  if h : c.byte.toNat < kOpClasses then
    .ok (recorders.set c.byte.toNat (recorders[c.byte.toNat].record ticks))
  else .error .outOfBounds

/-- One entry of a batch; `clock` is what `rdtsc_now` reads. -/
def command (ndebug : Bool) (clock : Nat → UInt64) (warmup : UInt64) (s : EngineThread)
    (cmd : Command) : Exec EngineThread := do
  let s := if s.processed = warmup then s.openWindow else s
  let c ← classify ndebug cmd
  let cmdTs := clock s.reads
  let (engine, events) ← s.engine.process ndebug cmd
  let recorders ← recordAt s.recorders c (clock (s.reads + 1) - cmdTs)
  pure {
    engine
    recorders
    processed := s.processed + 1
    reads := s.reads + 2
    logged := s.logged ++ events.map fun e => (cmdTs, e) }

end EngineThread

/-- A round of the loop: how many pushes its pop sees, the batch it comes back with, and
the flag the load of `stop` would see. -/
structure Round where
  pushed : Nat
  batch : List Command
  stop : Bool

namespace EngineThread

/-- The loop, as long as there are rounds. When it breaks, it leaves the rounds after. -/
def loop (ndebug : Bool) (clock : Nat → UInt64) (warmup : UInt64) :
    EngineThread → Bool → List Round → Exec (EngineThread × Option (List Round))
  | s, _, [] => pure (s, none)
  | s, stopping, round :: rounds => do
    let s ← round.batch.foldlM (command ndebug clock warmup) s
    if round.batch.length ≠ 0 then loop ndebug clock warmup s stopping rounds
    else if stopping then pure (s, some rounds)
    else loop ndebug clock warmup s round.stop rounds

/-- `all` of the report. -/
def mergeAll (recorders : Recorders) : LatencyRecorder := recorders.toList.foldl merge {}

end EngineThread

/-- The rounds from the moment when `popped` commands are out of the ring. A pop takes up
to 256 of the commands it sees, in order, and comes back empty only if it sees none; the
producer stores `stop` behind its last push, so that once a load has seen it (`seen`) every
pop sees all the commands. -/
inductive Cuts (cmds : List Command) : Bool → Nat → List Round → Prop where
  | nil {seen : Bool} {popped : Nat} : Cuts cmds seen popped []
  | round {seen : Bool} {popped : Nat} {round : Round} {rounds : List Round}
      (order : round.batch <+: cmds.drop popped)
      (size : round.batch.length ≤ kEngineBatchSize.toNat)
      (visible : popped + round.batch.length ≤ round.pushed ∧ round.pushed ≤ cmds.length)
      (empty : round.batch = [] → round.pushed ≤ popped)
      (last : seen = true → round.pushed = cmds.length)
      (rest : Cuts cmds (seen || round.stop) (popped + round.batch.length) rounds) :
      Cuts cmds seen popped (round :: rounds)

/-- An empty pop is followed by a load that sees `stop`, and that by another empty pop. -/
def StopSeen (rounds : List Round) : Prop :=
  ∃ before round after, rounds = before ++ round :: after ∧ round.batch = [] ∧
    round.stop = true ∧ ∃ last ∈ after, last.batch = []

namespace MatchingEngine

variable {ndebug : Bool} {e e' : MatchingEngine}

theorem process_with_stats {cmd : Command} {events : List Event}
    (h : e.process ndebug cmd = .ok (e', events)) (stats : EngineStats) :
    ∃ stats', process ndebug { e with stats } cmd = .ok ({ e' with stats := stats' }, events) := by
  unfold process at h
  split at h
  · rename_i hk
    obtain ⟨⟨id, e₁, out⟩, hsub, h⟩ := bind_eq_ok.mp h
    obtain ⟨⟨id', book, out'⟩, hadd, hsub⟩ := bind_eq_ok.mp hsub
    cases hsub
    cases h
    exact ⟨_, by rw [process, if_pos hk, submit, hadd]; rfl⟩
  · rename_i hn
    split at h
    · rename_i hk
      obtain ⟨⟨found, e₁, out⟩, hcancel, h⟩ := bind_eq_ok.mp h
      obtain ⟨⟨found', book, out'⟩, hrun, hcancel⟩ := bind_eq_ok.mp hcancel
      cases hcancel
      cases h
      exact ⟨_, by rw [process, if_neg hn, if_pos hk, cancel, hrun]; rfl⟩
    · rename_i hc
      split at h
      · rename_i hd
        cases h
        exact ⟨stats, by rw [process, if_neg hn, if_neg hc, if_pos hd]; rfl⟩
      · cases h

theorem processAll_with_stats {cmds : List Command} : ∀ {e e' : MatchingEngine}
    {batches : List (List Event)}, e.processAll ndebug cmds = .ok (e', batches) →
    ∀ stats, ∃ stats',
      processAll ndebug { e with stats } cmds = .ok ({ e' with stats := stats' }, batches) := by
  induction cmds with
  | nil =>
    intro e e' batches h stats
    cases h
    exact ⟨stats, rfl⟩
  | cons cmd cmds ih =>
    intro e e' batches h stats
    obtain ⟨⟨e₁, out⟩, hcmd, h⟩ := bind_eq_ok.mp h
    obtain ⟨⟨e₂, rest⟩, hrest, h⟩ := bind_eq_ok.mp h
    cases h
    obtain ⟨stats₁, hcmd'⟩ := process_with_stats hcmd stats
    obtain ⟨stats₂, hrest'⟩ := ih hrest stats₁
    exact ⟨stats₂, by simp [processAll, hcmd', hrest']⟩

end MatchingEngine

namespace EngineThread

variable {ndebug : Bool} {clock : Nat → UInt64} {warmup : UInt64} {e₀ : MatchingEngine}

/-- Each recorder holds one value for every measured command of its class. -/
structure Recorded (ndebug : Bool) (recorders : Recorders) (measured : List Command) : Prop where
  values : ∀ (c : OpClass) (hc : c.byte.toNat < kOpClasses), ∃ values : Multiset UInt64,
    recorders[c.byte.toNat] = ofValues values ∧
    values.card = measured.countP fun cmd => classify ndebug cmd = .ok c
  classified : ∀ cmd ∈ measured, ∃ c, classify ndebug cmd = .ok c

theorem recorded_reset (recorders : Recorders) :
    Recorded ndebug (recorders.map LatencyRecorder.reset) [] := by
  refine ⟨fun c hc => ⟨0, ?_, rfl⟩, by simp⟩
  rw [Vector.getElem_map]
  rfl

theorem Recorded.record {recorders recorders' : Recorders} {measured : List Command}
    (h : Recorded ndebug recorders measured) {cmd : Command} {c : OpClass} {ticks : UInt64}
    (hc : classify ndebug cmd = .ok c) (hrun : recordAt recorders c ticks = .ok recorders') :
    Recorded ndebug recorders' (measured ++ [cmd]) := by
  unfold recordAt at hrun
  split at hrun
  · rename_i hlt
    cases hrun
    refine ⟨fun d hd => ?_, fun x hx => ?_⟩
    · obtain ⟨values, hvalues, hcard⟩ := h.values d hd
      rw [Vector.getElem_set, List.countP_append, ← hcard]
      by_cases he : c = d
      · subst he
        refine ⟨ticks ::ₘ values, ?_, ?_⟩
        · rw [if_pos rfl, hvalues, ofValues_cons]
        · simp [hc]
      · have hne : c.byte.toNat ≠ d.byte.toNat := by
          intro e
          cases c
          cases d
          exact he (congrArg OpClass.mk (UInt8.toNat_inj.mp e))
        refine ⟨values, ?_, ?_⟩
        · rw [if_neg hne, hvalues]
        · simp [hc, he]
    · rcases List.mem_append.mp hx with hx | hx
      · exact h.classified x hx
      · exact ⟨c, List.mem_singleton.mp hx ▸ hc⟩
  · cases hrun

theorem classify_cases {cmd : Command} {c : OpClass} (h : classify ndebug cmd = .ok c) :
    c = .kLimit ∨ c = .kMarket ∨ c = .kIoc ∨ c = .kCancel := by
  unfold classify at h
  split at h
  · cases h
    simp
  · split at h
    · cases h
      simp
    · split at h
      · cases h
        simp
      · split at h
        · cases h
          simp
        · split at h
          · cases h
            simp
          · cases h

def classCount (ndebug : Bool) (cmds : List Command) (c : OpClass) : Nat :=
  cmds.countP fun cmd => classify ndebug cmd = .ok c

theorem classCount_sum {cmds : List Command} (h : ∀ cmd ∈ cmds, ∃ c, classify ndebug cmd = .ok c) :
    classCount ndebug cmds .kLimit + classCount ndebug cmds .kMarket +
      classCount ndebug cmds .kIoc + classCount ndebug cmds .kCancel = cmds.length := by
  induction cmds with
  | nil => rfl
  | cons cmd cmds ih =>
    have hrest := ih fun x hx => h x (by simp [hx])
    obtain ⟨c, hc⟩ := h cmd (by simp)
    simp only [classCount, List.countP_cons, List.length_cons, hc] at hrest ⊢
    rcases classify_cases hc with rfl | rfl | rfl | rfl <;>
      simp [OpClass.kLimit, OpClass.kMarket, OpClass.kIoc, OpClass.kCancel] at hrest ⊢ <;> omega

theorem ofValues_count (values : Multiset UInt64) :
    (ofValues values).count = UInt64.ofNat values.card := by
  induction values using Multiset.induction with
  | empty => rfl
  | cons ticks values ih =>
    rw [ofValues_cons, LatencyRecorder.record, Multiset.card_cons, ih, Wrapping.ofNat_succ]

theorem recorders_toList (recorders : Recorders) :
    recorders.toList = [recorders[0], recorders[1], recorders[2], recorders[3]] := by
  refine List.ext_getElem Vector.length_toList fun n h₁ h₂ => ?_
  match n with
  | 0 | 1 | 2 | 3 => simp
  | n + 4 => simp at h₂

theorem Recorded.mergeAll {recorders : Recorders} {measured : List Command}
    (h : Recorded ndebug recorders measured) : ∃ values : Multiset UInt64,
    EngineThread.mergeAll recorders = ofValues values ∧ values.card = measured.length := by
  obtain ⟨v₀, h₀, c₀⟩ := h.values .kLimit (by decide)
  obtain ⟨v₁, h₁, c₁⟩ := h.values .kMarket (by decide)
  obtain ⟨v₂, h₂, c₂⟩ := h.values .kIoc (by decide)
  obtain ⟨v₃, h₃, c₃⟩ := h.values .kCancel (by decide)
  refine ⟨0 + v₀ + v₁ + v₂ + v₃, ?_, ?_⟩
  · rw [EngineThread.mergeAll, recorders_toList]
    simp only [List.foldl_cons, List.foldl_nil, ofValues_add, ← h₀, ← h₁, ← h₂, ← h₃]
    rfl
  · have hsum := classCount_sum h.classified
    simp only [classCount, ← c₀, ← c₁, ← c₂, ← c₃] at hsum
    simpa using hsum

/-- Before the boundary the engine has processed everything; past it, it has processed the
measured commands with counters that started at the boundary. -/
inductive Phase (ndebug : Bool) (e₀ : MatchingEngine) (warmup : UInt64) :
    List Command → EngineThread → Prop
  | warming {s : EngineThread} {done : List Command} {batches : List (List Event)}
      (hle : done.length ≤ warmup.toNat)
      (hrun : e₀.processAll ndebug done = .ok (s.engine, batches)) :
      Phase ndebug e₀ warmup done s
  | measuring {s : EngineThread} {discarded measured : List Command} {e : MatchingEngine}
      {batches batches' : List (List Event)} (hlen : discarded.length = warmup.toNat)
      (hne : measured ≠ []) (hrun : e₀.processAll ndebug discarded = .ok (e, batches))
      (hrun' : MatchingEngine.processAll ndebug { e with stats := {} } measured =
        .ok (s.engine, batches'))
      (hrec : Recorded ndebug s.recorders measured) :
      Phase ndebug e₀ warmup (discarded ++ measured) s

theorem at_boundary {n : Nat} (hn : n < 2 ^ 64) : UInt64.ofNat n = warmup ↔ n = warmup.toNat := by
  rw [← UInt64.toNat_inj, UInt64.toNat_ofNat_of_lt' hn]

theorem command_inv {s s' : EngineThread} {cmd : Command}
    (h : command ndebug clock warmup s cmd = .ok s') :
    let s₀ := if s.processed = warmup then s.openWindow else s
    ∃ c ticks events, classify ndebug cmd = .ok c ∧
      s₀.engine.process ndebug cmd = .ok (s'.engine, events) ∧
      recordAt s₀.recorders c ticks = .ok s'.recorders ∧ s'.processed = s.processed + 1 := by
  have hcount : (if s.processed = warmup then s.openWindow else s).processed = s.processed := by
    split <;> rfl
  obtain ⟨c, hc, h⟩ := bind_eq_ok.mp h
  obtain ⟨⟨engine, events⟩, hengine, h⟩ := bind_eq_ok.mp h
  obtain ⟨recorders, hrecord, h⟩ := bind_eq_ok.mp h
  cases h
  exact ⟨c, _, events, hc, hengine, hrecord, congrArg (· + 1) hcount⟩

theorem processAll_snoc {e e₁ e₂ : MatchingEngine} {done : List Command} {cmd : Command}
    {batches : List (List Event)} {events : List Event}
    (h₁ : e.processAll ndebug done = .ok (e₁, batches))
    (h₂ : e₁.process ndebug cmd = .ok (e₂, events)) :
    e.processAll ndebug (done ++ [cmd]) = .ok (e₂, batches ++ [events]) :=
  MatchingEngine.processAll_append.mpr
    ⟨_, _, _, h₁, MatchingEngine.processAll_one.mpr ⟨_, h₂, rfl⟩, rfl⟩

theorem command_phase {s s' : EngineThread} {done : List Command} {cmd : Command}
    (h : Phase ndebug e₀ warmup done s) (hcount : s.processed = UInt64.ofNat done.length)
    (hlt : done.length < 2 ^ 64) (hrun : command ndebug clock warmup s cmd = .ok s') :
    Phase ndebug e₀ warmup (done ++ [cmd]) s' ∧
      s'.processed = UInt64.ofNat (done ++ [cmd]).length := by
  have hboundary : s.processed = warmup ↔ done.length = warmup.toNat := by
    rw [hcount, at_boundary hlt]
  obtain ⟨c, ticks, events, hc, hengine, hrecord, hprocessed⟩ := command_inv hrun
  rw [hcount, Wrapping.ofNat_succ] at hprocessed
  refine ⟨?_, by rw [hprocessed, List.length_append, List.length_singleton]⟩
  cases h with
  | warming hle hall =>
    by_cases hb : s.processed = warmup
    · rw [if_pos hb] at hengine hrecord
      have hfirst : MatchingEngine.processAll ndebug { s.engine with stats := {} } [cmd] =
          .ok (s'.engine, [events]) := MatchingEngine.processAll_one.mpr ⟨events, hengine, rfl⟩
      exact .measuring (hboundary.mp hb) (by simp) hall hfirst
        ((recorded_reset s.recorders).record hc hrecord)
    · rw [if_neg hb] at hengine
      have hne : done.length ≠ warmup.toNat := fun e => hb (hboundary.mpr e)
      refine .warming ?_ (processAll_snoc hall hengine)
      rw [List.length_append, List.length_singleton]
      omega
  | measuring hlen hne hall hall' hrec =>
    have hb : ¬ s.processed = warmup := by
      have hpos := List.length_pos_of_ne_nil hne
      rw [hboundary, List.length_append]
      omega
    rw [if_neg hb] at hengine hrecord
    rw [List.append_assoc]
    exact .measuring hlen (by simp) hall (processAll_snoc hall' hengine) (hrec.record hc hrecord)

theorem commands_phase {cmds : List Command} : ∀ {s s' : EngineThread} {done : List Command},
    Phase ndebug e₀ warmup done s → s.processed = UInt64.ofNat done.length →
    (done ++ cmds).length < 2 ^ 64 → cmds.foldlM (command ndebug clock warmup) s = .ok s' →
    Phase ndebug e₀ warmup (done ++ cmds) s' ∧
      s'.processed = UInt64.ofNat (done ++ cmds).length := by
  induction cmds with
  | nil =>
    intro s s' done h hcount _ hrun
    cases hrun
    rw [List.append_nil]
    exact ⟨h, hcount⟩
  | cons cmd cmds ih =>
    intro s s' done h hcount hlt hrun
    obtain ⟨s₁, hcmd, hrun⟩ := bind_eq_ok.mp hrun
    have hlt₁ : done.length < 2 ^ 64 := by
      rw [List.length_append] at hlt
      omega
    obtain ⟨h₁, hcount₁⟩ := command_phase h hcount hlt₁ hcmd
    have happend : done ++ cmd :: cmds = (done ++ [cmd]) ++ cmds := by simp
    rw [happend] at hlt ⊢
    exact ih h₁ hcount₁ hlt hrun

theorem loop_stream {cmds : List Command} {seen : Bool} {popped : Nat} {rounds : List Round}
    (hcut : Cuts cmds seen popped rounds) : ∀ {s s' : EngineThread} {stopping : Bool}
    {rest : List Round}, (stopping = true → seen = true) →
    loop ndebug clock warmup s stopping rounds = .ok (s', some rest) →
    (cmds.drop popped).foldlM (command ndebug clock warmup) s = .ok s' := by
  induction hcut with
  | nil =>
    intro s s' stopping rest _ h
    cases h
  | @round seen popped round rounds horder _ _ hempty hlast _ ih =>
    intro s s' stopping rest hstopping h
    obtain ⟨s₁, hbatch, h⟩ := bind_eq_ok.mp h
    obtain ⟨todo, htodo⟩ := horder
    have hdrop : cmds.drop (popped + round.batch.length) = todo := by
      rw [← List.drop_drop, ← htodo, List.drop_left]
    rw [← htodo, List.foldlM_append, hbatch, ok_bind, ← hdrop]
    split at h
    · exact ih (fun hs => by rw [hstopping hs, Bool.true_or]) h
    · rename_i hnone
      split at h
      · rename_i hs
        cases h
        have hnil : round.batch = [] := List.eq_nil_of_length_eq_zero (not_not.mp hnone)
        have hall := hempty hnil
        rw [hlast (hstopping hs)] at hall
        rw [List.drop_eq_nil_of_le (by omega)]
        rfl
      · exact ih (fun hs => by rw [hs, Bool.or_true]) h

theorem command_ok (clock : Nat → UInt64) {s : EngineThread} {cmd : Command} {c : OpClass}
    {e : MatchingEngine}
    {events : List Event} (hc : classify ndebug cmd = .ok c) (hbyte : c.byte.toNat < kOpClasses)
    (h : (if s.processed = warmup then s.openWindow else s).engine.process ndebug cmd =
      .ok (e, events)) :
    ∃ s', command ndebug clock warmup s cmd = .ok s' ∧ s'.engine = e := by
  unfold command
  generalize (if s.processed = warmup then s.openWindow else s) = s₀ at h
  simp [hc, h, recordAt, hbyte]

theorem commands_total (clock : Nat → UInt64) (warmup : UInt64) {cmds : List Command}
    (hcmds : validateCommands cmds = none) :
    ∀ {s : EngineThread}, (∃ r, s.engine.processAll ndebug cmds = .ok r) →
      ∃ s', cmds.foldlM (command ndebug clock warmup) s = .ok s' := by
  have hall := validateCommands_none.mp hcmds
  clear hcmds
  induction cmds with
  | nil => exact fun {s} _ => ⟨s, rfl⟩
  | cons cmd cmds ih =>
    rintro s ⟨⟨e', batches⟩, hrun⟩
    obtain ⟨⟨e₁, events⟩, hcmd, hrun⟩ := bind_eq_ok.mp hrun
    obtain ⟨⟨e₂, rest⟩, hrest, -⟩ := bind_eq_ok.mp hrun
    obtain ⟨hk, ht⟩ := hall cmd (by simp)
    obtain ⟨c, hc, hbyte⟩ := classify_ok hk ht ndebug
    let s₀ := if s.processed = warmup then s.openWindow else s
    have hengine : ∃ stats, s₀.engine = { s.engine with stats } := by
      by_cases hb : s.processed = warmup
      · exact ⟨{}, by simp only [s₀, if_pos hb]; rfl⟩
      · exact ⟨s.engine.stats, by simp only [s₀, if_neg hb]⟩
    obtain ⟨stats, hengine⟩ := hengine
    obtain ⟨stats₁, hcmd'⟩ := MatchingEngine.process_with_stats hcmd stats
    obtain ⟨stats₂, hrest'⟩ := MatchingEngine.processAll_with_stats hrest stats₁
    rw [← hengine] at hcmd'
    obtain ⟨s₁, hstep, hs₁⟩ := command_ok clock hc hbyte hcmd'
    obtain ⟨s', hs'⟩ := ih (fun x hx => hall x (by simp [hx])) (s := s₁)
      ⟨_, by rw [hs₁]; exact hrest'⟩
    exact ⟨s', by rw [List.foldlM_cons, hstep, ok_bind, hs']⟩

theorem loop_total {cmds : List Command} {seen : Bool} {popped : Nat} {rounds : List Round}
    (hcut : Cuts cmds seen popped rounds) : ∀ {s s' : EngineThread} (stopping : Bool),
    (cmds.drop popped).foldlM (command ndebug clock warmup) s = .ok s' →
    ∃ r, loop ndebug clock warmup s stopping rounds = .ok r := by
  induction hcut with
  | nil => exact fun _ _ => ⟨_, rfl⟩
  | @round seen popped round rounds horder _ _ _ _ _ ih =>
    intro s s' stopping h
    obtain ⟨todo, htodo⟩ := horder
    have hdrop : cmds.drop (popped + round.batch.length) = todo := by
      rw [← List.drop_drop, ← htodo, List.drop_left]
    rw [← htodo, List.foldlM_append, ← hdrop] at h
    obtain ⟨s₁, hbatch, h⟩ := bind_eq_ok.mp h
    simp only [loop, hbatch, ok_bind]
    split
    · exact ih _ h
    · split
      · exact ⟨_, rfl⟩
      · exact ih _ h

theorem loop_breaks {rounds : List Round} : ∀ {s s' : EngineThread} {rest : Option (List Round)},
    loop ndebug clock warmup s true rounds = .ok (s', rest) →
    (∃ last ∈ rounds, last.batch = []) → ∃ left, rest = some left := by
  induction rounds with
  | nil => exact fun _ ⟨_, hmem, _⟩ => absurd hmem List.not_mem_nil
  | cons round rounds ih =>
    intro s s' rest h hlast
    obtain ⟨last, hmem, hnil⟩ := hlast
    obtain ⟨s₁, _, h⟩ := bind_eq_ok.mp h
    split at h
    · rename_i hsome
      refine ih h ⟨last, (List.mem_cons.mp hmem).resolve_left fun he => hsome ?_, hnil⟩
      rw [← he, hnil]
      rfl
    · cases h
      exact ⟨rounds, rfl⟩

theorem loop_ends {rounds : List Round} : ∀ {s s' : EngineThread} {stopping : Bool}
    {rest : Option (List Round)}, loop ndebug clock warmup s stopping rounds = .ok (s', rest) →
    StopSeen rounds → ∃ left, rest = some left := by
  induction rounds with
  | nil =>
    rintro s s' stopping rest _ ⟨before, round, after, he, _⟩
    exact absurd he.symm (List.append_ne_nil_of_right_ne_nil before (List.cons_ne_nil round after))
  | cons round rounds ih =>
    rintro s s' stopping rest h ⟨before, seen, after, he, hnil, hstop, hlast⟩
    obtain ⟨s₁, _, h⟩ := bind_eq_ok.mp h
    cases before with
    | nil =>
      obtain ⟨rfl, rfl⟩ := List.cons.inj he
      rw [hnil, List.length_nil, if_neg (not_not.mpr rfl), hstop] at h
      split at h
      · cases h
        exact ⟨_, rfl⟩
      · exact loop_breaks h hlast
    | cons first before =>
      obtain ⟨rfl, rfl⟩ := List.cons.inj he
      have hseen : StopSeen (before ++ seen :: after) :=
        ⟨before, seen, after, rfl, hnil, hstop, hlast⟩
      split at h
      · exact ih h hseen
      · split at h
        · cases h
          exact ⟨_, rfl⟩
        · exact ih h hseen

end EngineThread

open EngineThread

/-- What the harness reports after warmup. -/
structure MeasuredWindow (ndebug : Bool) (e₀ : MatchingEngine) (cmds : List Command) (warmup : Nat)
    (s : EngineThread) : Prop where
  processed : s.processed.toNat = cmds.length
  counts : ∀ (c : OpClass) (hc : c.byte.toNat < kOpClasses),
    s.recorders[c.byte.toNat].count.toNat = classCount ndebug (cmds.drop warmup) c
  sum : (s.recorders.toList.map fun r => r.count.toNat).sum = cmds.length - warmup
  merged : (mergeAll s.recorders).count.toNat = cmds.length - warmup
  stats : ∃ e batches e' batches', e₀.processAll ndebug (cmds.take warmup) = .ok (e, batches) ∧
    MatchingEngine.processAll ndebug { e with stats := {} } (cmds.drop warmup) =
      .ok (e', batches') ∧ s.engine.stats = e'.stats
  book : ∃ e batches, e₀.processAll ndebug cmds = .ok (e, batches) ∧ s.engine.book = e.book

theorem EngineThread.Phase.window {ndebug : Bool} {e₀ : MatchingEngine} {warmup : UInt64}
    {cmds : List Command} {s : EngineThread} (h : Phase ndebug e₀ warmup cmds s)
    (hw : warmup.toNat < cmds.length)
    (hlen : cmds.length < 2 ^ 64) (hcount : s.processed = UInt64.ofNat cmds.length) :
    MeasuredWindow ndebug e₀ cmds warmup.toNat s := by
  cases h with
  | warming hle _ => exact absurd hw (by omega)
  | @measuring _ discarded measured e batches batches' hlen' hne hall hall' hrec =>
    have hmeasured : (discarded ++ measured).length - warmup.toNat = measured.length := by
      rw [List.length_append]
      omega
    have hfits : measured.length < 2 ^ 64 := by
      rw [List.length_append] at hlen
      omega
    have hcounts : ∀ (c : OpClass) (hc : c.byte.toNat < kOpClasses),
        s.recorders[c.byte.toNat].count.toNat = classCount ndebug measured c := by
      intro c hc
      obtain ⟨values, hvalues, hcard⟩ := hrec.values c hc
      have hle : classCount ndebug measured c ≤ measured.length := List.countP_le_length
      rw [hvalues, ofValues_count, hcard]
      exact UInt64.toNat_ofNat_of_lt' (lt_of_le_of_lt hle hfits)
    obtain ⟨values, hmerge, hcard⟩ := hrec.mergeAll
    obtain ⟨stats, hwhole⟩ := MatchingEngine.processAll_with_stats hall' e.stats
    have hdrop : (discarded ++ measured).drop warmup.toNat = measured := by
      rw [← hlen', List.drop_left]
    refine {
      processed := by rw [hcount]; exact UInt64.toNat_ofNat_of_lt' hlen
      counts := fun c hc => by rw [hdrop]; exact hcounts c hc
      sum := ?_
      merged := by
        rw [hmerge, ofValues_count, hcard, hmeasured]
        exact UInt64.toNat_ofNat_of_lt' hfits
      stats := ⟨e, batches, s.engine, batches', by rw [← hlen', List.take_left]; exact hall,
        by rw [hdrop]; exact hall', rfl⟩
      book := ⟨_, _, MatchingEngine.processAll_append.mpr ⟨e, _, _, hall, hwhole, rfl⟩, rfl⟩ }
    have h₀ := hcounts .kLimit (by decide)
    have h₁ := hcounts .kMarket (by decide)
    have h₂ := hcounts .kIoc (by decide)
    have h₃ := hcounts .kCancel (by decide)
    have hsum := classCount_sum hrec.classified
    rw [← h₀, ← h₁, ← h₂, ← h₃] at hsum
    rw [recorders_toList, hmeasured, ← hsum]
    simp only [List.map_cons, List.map_nil, List.sum_cons, List.sum_nil]
    simp [OpClass.kLimit, OpClass.kMarket, OpClass.kIoc, OpClass.kCancel]
    omega

/-- However the pops cut the stream, the loop breaks only behind its last command and then
has measured the window it was asked for; it faults on no cut, unless processing the commands
in one sequence does, and breaks at the first empty pop after the flag is seen. -/
theorem e2e_window_exact (ndebug : Bool) (clock : Nat → UInt64) (e₀ : MatchingEngine)
    {cmds : List Command} (hcmds : validateCommands cmds = none) (hlen : cmds.length < 2 ^ 64)
    {warmup : UInt64} (hw : warmup.toNat < cmds.length) {rounds : List Round}
    (hcut : Cuts cmds false 0 rounds) :
    (∀ s left, loop ndebug clock warmup { engine := e₀ } false rounds = .ok (s, some left) →
      MeasuredWindow ndebug e₀ cmds warmup.toNat s) ∧
    ((∃ r, e₀.processAll ndebug cmds = .ok r) →
      ∃ s rest, loop ndebug clock warmup { engine := e₀ } false rounds = .ok (s, rest) ∧
        (StopSeen rounds → ∃ left, rest = some left)) := by
  constructor
  · intro s left hrun
    have hstream := loop_stream hcut id hrun
    rw [List.drop_zero] at hstream
    have hstart : Phase ndebug e₀ warmup [] { engine := e₀ } := .warming (Nat.zero_le _) rfl
    obtain ⟨hphase, hcount⟩ := commands_phase hstart rfl hlen hstream
    exact hphase.window hw hlen hcount
  · intro hrun
    obtain ⟨s', hs'⟩ := commands_total clock warmup hcmds
      (s := { engine := e₀ }) hrun
    obtain ⟨⟨s, rest⟩, hloop⟩ := loop_total hcut false hs'
    exact ⟨s, rest, hloop, loop_ends hloop⟩

def threeCommands : List Command :=
  [⟨.kNew, .kBuy, .kLimit, 0, 3, 100, 0⟩, ⟨.kNew, .kSell, .kIoc, 0, 1, 100, 0⟩,
    ⟨.kCancel, .kBuy, .kLimit, 0, 0, 0, makeOrderId 1 0⟩]

/-- The boundary falls between two batches that an empty pop keeps apart. -/
def threeRounds : List Round :=
  [⟨1, threeCommands.take 1, false⟩, ⟨1, [], false⟩, ⟨3, threeCommands.drop 1, false⟩,
    ⟨3, [], true⟩, ⟨3, [], true⟩]

theorem threeRounds_cuts : Cuts threeCommands false 0 threeRounds := by
  refine .round ?_ ?_ ?_ ?_ ?_ (.round ?_ ?_ ?_ ?_ ?_ (.round ?_ ?_ ?_ ?_ ?_
    (.round ?_ ?_ ?_ ?_ ?_ (.round ?_ ?_ ?_ ?_ ?_ .nil)))) <;> decide

theorem e2e_window_exact_small : ∃ e₀ s left,
    MatchingEngine.new { anchorPrice := 100, bandRadius := 1, poolCapacity := 2 } = .ok e₀ ∧
    loop false UInt64.ofNat 1 { engine := e₀ } false threeRounds = .ok (s, some left) ∧
    MeasuredWindow false e₀ threeCommands 1 s ∧
    (∃ e batches, e₀.processAll false threeCommands = .ok (e, batches) ∧
      e.stats.tradedEvents = 2 ∧ e.stats.canceled = 1 ∧ s.engine.book = e.book) ∧
    s.recorders[2].count.toNat = 1 ∧ s.recorders[3].count.toNat = 1 := by
  obtain ⟨e₀, he⟩ : ∃ e₀, MatchingEngine.new
      { anchorPrice := 100, bandRadius := 1, poolCapacity := 2 } = .ok e₀ := ⟨_, rfl⟩
  have hrun : ∃ r, (do
      let e₀ ← MatchingEngine.new { anchorPrice := 100, bandRadius := 1, poolCapacity := 2 }
      e₀.processAll false threeCommands) = .ok r ∧
      r.1.stats.tradedEvents = 2 ∧ r.1.stats.canceled = 1 := Holds.exists_ok (by decide)
  rw [he, ok_bind] at hrun
  obtain ⟨⟨e, batches⟩, hrun, htraded, hcanceled⟩ := hrun
  obtain ⟨hwindow, htotal⟩ := e2e_window_exact false UInt64.ofNat e₀
    (show validateCommands threeCommands = none by decide) (by decide)
    (show (1 : UInt64).toNat < threeCommands.length by decide) threeRounds_cuts
  obtain ⟨s, rest, hloop, hends⟩ := htotal ⟨_, hrun⟩
  obtain ⟨left, rfl⟩ := hends ⟨threeRounds.take 3, ⟨3, [], true⟩, [⟨3, [], true⟩], rfl, rfl, rfl,
    ⟨3, [], true⟩, List.mem_singleton_self _, rfl⟩
  have hmeasured := hwindow s left hloop
  obtain ⟨e', batches', hrun', hbook⟩ := hmeasured.book
  rw [hrun] at hrun'
  cases hrun'
  exact ⟨e₀, s, left, he, hloop, hmeasured, ⟨e, batches, hrun, htraded, hcanceled, hbook⟩,
    hmeasured.counts .kIoc (by decide), hmeasured.counts .kCancel (by decide)⟩

end LimitOrderBook
