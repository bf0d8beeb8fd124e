import LimitOrderBook.ReplayCli
import LimitOrderBook.E2eArgs
import LimitOrderBook.E2eProgress
import LimitOrderBook.Percentile

set_option autoImplicit false

namespace LimitOrderBook
open Checked Audited MemoryImage EngineThread Schedule

/-- The end of `TscCalibration::measure`: the cycle counter read before and after `ns`
nanoseconds. -/
def TscCalibration.measure (ns : Int64) (c0 c1 : UInt64) : TscCalibration :=
  let cal : TscCalibration :=
    if c0 < c1 ∧ 0 < ns then
      { ticksPerSecond := (c1 - c0) * 1000000000 / ns.toUInt64 }
    else {}
  if cal.ticksPerSecond = 0 then { ticksPerSecond := 1000000000 } else cal

def kCmdRingCapacity : UInt64 := (1 : UInt64) <<< 16

def kDefaultLogRingCapacity : UInt64 := (1 : UInt64) <<< 14

/-- The build and the machine of the harness: the CPUs it reports, whether the file of a
name can be opened for writing, the cycle counter, and the readings of the calibration. -/
structure E2eHost where
  ndebug : Bool
  cpus : UInt32
  opens : String → Bool
  clock : Nat → UInt64
  elapsed : Int64
  before : UInt64
  after : UInt64

/-- `run_e2e` ends before its threads, or starts them. -/
inductive E2eStart where
  | exits (r : ToolRun)
  | starts (config : WorkloadConfig) (job : E2eJob) (cmdRing : SPSCQueue Command)
      (logRing : SPSCQueue LogRecord)

namespace E2eHost

/-- `run_e2e` up to its threads. The errors of the file and of its configuration are those
of `run_replay`. -/
def runE2e (host : E2eHost) (opt : E2eOptions) : Option Bytes → Exec E2eStart
  | none => pure (.exits {
      exitCode := kExitRuntime
      err := "error: cannot open '" ++ opt.file ++ "'\n" })
  | some bytes =>
    match admitReplay opt.file bytes with
    | .error text => pure (.exits { exitCode := kExitRuntime, err := text })
    | .ok (engineConfig, cmds) =>
      let ops := UInt64.ofNat cmds.length
      if ops = 0 then pure (.exits {
        exitCode := kExitRuntime
        err := "error: '" ++ opt.file ++ "' contains no commands\n" })
      else
        match validateCommands cmds with
        | some bad => pure (.exits {
            exitCode := kExitRuntime
            err := "error: '" ++ opt.file ++ "' command #" ++ toString bad ++
              " has an unknown kind/type\n" })
        | none =>
          let warmup := if opt.warmupGiven then opt.warmup else ops / 10
          if ops ≤ warmup then pure (.exits {
            exitCode := kExitUsage
            err := "error: --warmup " ++ toString warmup ++ " must be below the file's " ++
              toString ops ++ " commands\n" })
          else if opt.logPath ≠ "" ∧ ¬ host.opens opt.logPath then pure (.exits {
            exitCode := kExitRuntime
            err := "error: cannot open '" ++ opt.logPath ++ "' for writing\n" })
          else do
            let engine ← MatchingEngine.new engineConfig
            let cmdRing ← SPSCQueue.new kCmdRingCapacity
            let logRing ← SPSCQueue.new kDefaultLogRingCapacity
            pure (.starts (readReplay bytes).config
              { ndebug := host.ndebug, clock := host.clock, warmup, engine, cmds } cmdRing logRing)

/-- The text of `print_usage`. -/
def printUsage : String :=
  "lob_e2e_bench - end-to-end pipeline benchmark for the LOB engine\n" ++
    "\n" ++
    "Replays FILE through the full pipeline (producer thread -> command\n" ++
    "ring -> pinned engine thread -> log ring -> logger thread) and\n" ++
    "reports throughput plus latency percentiles per op type.\n" ++
    "\n" ++
    "Usage:\n" ++
    "  lob_e2e_bench FILE [--warmup N] [--pin CPU] [--log PATH] [--csv]\n" ++
    "      --warmup N   commands processed then discarded before the\n" ++
    "                   measured window (default: 10% of the file)\n" ++
    "      --pin CPU    pin the engine thread to CPU, best-effort\n" ++
    "                   (default: the last cpu)\n" ++
    "      --log PATH   logger writes binary records to PATH\n" ++
    "                   (default: records are formatted then discarded)\n" ++
    "      --csv        print machine-readable percentile rows only\n" ++
    "\n" ++
    "  lob_e2e_bench --help\n"

def runE2eCli (host : E2eHost) (disk : Disk) (args : List String) : Exec E2eStart :=
  match args with
  | [] => pure (.exits { exitCode := kExitUsage, err := printUsage })
  | arg :: _ =>
    if arg = "--help" ∨ arg = "-h" then pure (.exits { exitCode := kExitOk, out := printUsage })
    else
      match parseArgs (.new host.cpus) false args with
      | .error text => pure (.exits { exitCode := kExitUsage, err := text })
      | .ok opt => host.runE2e opt (disk opt.file)

end E2eHost

/-! The report. -/

/-- The rows of the table: one for each class of commands, and one for all of them. -/
def e2eRows (cal : TscCalibration) (recorders : Recorders) :
    Exec (List (Audited LatencySummary)) := do
  let rows ← recorders.toList.mapM LatencyRecorder.summary
  let total ← (EngineThread.mergeAll recorders).summary
  pure ((rows ++ [total]).map fun row => row >>= fun s => s.toNanos cal)

def rowNames : List String := ["limit", "market", "ioc", "cancel", "all"]

def csvRow (name : String) (ns : LatencySummary) : String :=
  ",".intercalate (name :: [ns.count, ns.minTicks, ns.p50, ns.p90, ns.p99, ns.p999,
    ns.maxTicks].map toString) ++ "\n"

/-- `std::setw` and `std::right`. -/
def padLeft (width : Nat) (s : String) : String :=
  String.ofList (List.replicate (width - s.length) ' ') ++ s

/-- `std::setw` and `std::left`. -/
def padRight (width : Nat) (s : String) : String :=
  s ++ String.ofList (List.replicate (width - s.length) ' ')

def latencyRow (name : String) (ns : LatencySummary) : String :=
  "    " ++ padRight 10 name ++ padLeft 12 (toString ns.count) ++
    "".intercalate ([ns.minTicks, ns.p50, ns.p90, ns.p99, ns.p999, ns.maxTicks].map
      fun n => padLeft 10 (toString n)) ++ "\n"

/-- What `run_e2e` prints after `us` microseconds in the measured window. -/
def e2eReport (opt : E2eOptions) (config : WorkloadConfig) (cal : TscCalibration) (j : E2eJob)
    (us : UInt64) (pinned : Bool) (s : E2e) : Exec String := do
  let rows ← e2eRows cal s.run.recorders
  if opt.csv then
    pure ("op,count,min_ns,p50_ns,p90_ns,p99_ns,p999_ns,max_ns\n" ++
      "".intercalate ((rowNames.zip rows).map fun row => csvRow row.1 row.2.value))
  else do
    let measured := j.ops - j.warmup
    let bid ← s.run.engine.book.bestBid
    let ask ← s.run.engine.book.bestAsk
    pure ("e2e " ++ opt.file ++ ": " ++ fileText config j.ops ++
      "  pipeline: producer -> cmd ring " ++ toString s.cmdRing.capacity ++
      " -> engine -> log ring " ++ toString s.logger.ring.capacity ++ " -> logger (" ++
      (if opt.logPath = "" then "discarded" else opt.logPath) ++ ")\n" ++
      "  engine thread: " ++
      (if pinned then "pinned to cpu " ++ toString opt.pinCpu
        else if 0 ≤ opt.pinCpu then
          "UNPINNED (pin to cpu " ++ toString opt.pinCpu ++ " refused)"
        else "UNPINNED (no cpu available to choose)") ++
      "; tsc " ++ toString (cal.ticksPerSecond / 1000000) ++ " MHz\n" ++
      "  warmup: " ++ toString j.warmup ++ " commands discarded\n" ++
      "  measured: " ++ toString measured ++ " commands in " ++ toString us ++ " us" ++
      (if 0 < us then " -> " ++ toString (measured * 1000000 / us) ++ " cmd/s" else "") ++
      "\n" ++
      "  latency (ns):    " ++ padLeft 9 "count" ++ "".intercalate
        (["min", "p50", "p90", "p99", "p99.9", "max"].map (padLeft 10)) ++ "\n" ++
      "".intercalate ((rowNames.zip rows).map fun row => latencyRow row.1 row.2.value) ++
      "  events (measured window): " ++ statsText s.run.engine.stats ++
      "  rings: cmd high-water " ++ toString s.cmdRing.highWater ++ "/" ++
      toString s.cmdRing.capacity ++ ", log high-water " ++ toString s.logger.ring.highWater ++
      "/" ++ toString s.logger.ring.capacity ++ "\n" ++
      "  log: " ++ toString s.logger.recordsWritten ++ " records written, " ++
      toString s.logger.recordsDropped ++ " dropped\n" ++
      bookLine bid ask s.run.engine.book.openOrders)

/-- The threads are started on the commands of a complete file. -/
structure Starts (host : E2eHost) (disk : Disk) (args : List String) (opt : E2eOptions)
    (config : WorkloadConfig) (g : WorkloadGenerator UInt64) (j : E2eJob)
    (q : SPSCQueue Command) (lq : SPSCQueue LogRecord) : Prop where
  parsed : parseArgs (.new host.cpus) false args = .ok opt
  build : j.ndebug = host.ndebug ∧ j.clock = host.clock
  complete : ∃ bytes, disk opt.file = some bytes ∧ Complete bytes config j.cmds g
  engine : MatchingEngine.new config.engine = .ok j.engine
  warmup : j.warmup.toNat < j.cmds.length
  given : opt.warmupGiven = true → j.warmup = opt.warmup
  cmdRing : SPSCQueue.new kCmdRingCapacity = .ok q
  logRing : SPSCQueue.new kDefaultLogRingCapacity = .ok lq

theorem new_powerOfTwo (T : Type) [Inhabited T] {capacity : UInt64}
    (h : capacity ≠ 0 ∧ capacity &&& (capacity - 1) = 0) :
    ∃ q : SPSCQueue T, SPSCQueue.new capacity = .ok q :=
  ⟨_, by rw [SPSCQueue.new, assert_pos h]; rfl⟩

theorem Shadows.validateCommands {cfg : WorkloadConfig} {cmds : List Command}
    {g : WorkloadGenerator UInt64} (h : Shadows cfg cmds g) :
    LimitOrderBook.validateCommands cmds = none :=
  validateCommands_none.mpr fun cmd hcmd =>
    ⟨(h.declared cmd hcmd).1, fun hk => ((h.declared cmd hcmd).2 hk).2⟩

theorem parseArgs_error {opt : E2eOptions} {haveFile : Bool} {args : List String} {text : String}
    (h : parseArgs opt haveFile args = .error text) : text ≠ "" := by
  fun_induction parseArgs opt haveFile args with
  | case1 => cases h
  | case2 | case8 | case11 =>
    cases h
    decide
  | case3 _ _ _ ih => exact ih h
  | case5 _ _ _ _ _ _ ih => exact ih h
  | case7 _ _ _ _ _ _ _ _ _ ih => exact ih h
  | case9 _ _ _ _ _ _ _ _ _ _ _ _ ih => exact ih h
  | case12 _ _ _ _ _ _ _ _ ih => exact ih h
  | case4 | case10 =>
    cases h
    exact append_ne_empty (append_ne_empty (by decide) _) _
  | case6 =>
    cases h
    exact append_ne_empty (append_ne_empty (append_ne_empty (append_ne_empty (by decide) _) _) _) _

theorem E2eHost.printUsage_ne_empty : E2eHost.printUsage ≠ "" := by
  unfold E2eHost.printUsage
  iterate 16 refine append_ne_empty ?_ _
  decide

/-- On a made disk the harness ends with an error, or starts its threads on a complete file. -/
theorem Disk.Made.runE2e {disk : Disk} (h : disk.Made) (host : E2eHost) {args : List String}
    {opt : E2eOptions} (hopt : parseArgs (.new host.cpus) false args = .ok opt) :
    ∃ o, host.runE2e opt (disk opt.file) = .ok o ∧ (∀ r, o = .exits r → r.Proper) ∧
      ∀ config j q lq, o = .starts config j q lq →
        ∃ g, Starts host disk args opt config g j q lq := by
  have hexit : ∀ {r : ToolRun}, r.Proper → (∀ r', E2eStart.exits r = .exits r' → r'.Proper) ∧
      ∀ config j q lq, E2eStart.exits r = .starts config j q lq →
        ∃ g, Starts host disk args opt config g j q lq := fun hr =>
    ⟨fun r' he => E2eStart.exits.inj he ▸ hr, fun config j q lq he => (by cases he)⟩
  have htext : ∀ {s : String} (t u : String), s ≠ "" → s ++ t ++ u ≠ "" := fun t u hs =>
    append_ne_empty (append_ne_empty hs t) u
  cases hfile : disk opt.file with
  | none => exact ⟨_, rfl, hexit (.error (.inl rfl) (htext _ _ (by decide)))⟩
  | some bytes =>
    cases hchecks : admitReplay opt.file bytes with
    | error text =>
      simp only [E2eHost.runE2e, hchecks]
      exact ⟨_, rfl, hexit (.error (.inl rfl) (admitReplay_error hchecks))⟩
    | ok r =>
      obtain ⟨cfg, cmds, g, hc⟩ := (h _ _ hfile).resolve_left fun hno => hno _ _ hchecks
      obtain rfl := Except.ok.inj ((hc.admitReplay opt.file).symm.trans hchecks)
      obtain ⟨e₀, -, -, hnew, -⟩ := hc.shadows.replays
      obtain ⟨q, hq⟩ := new_powerOfTwo Command (show kCmdRingCapacity ≠ 0 ∧ _ by decide)
      obtain ⟨lq, hlq⟩ :=
        new_powerOfTwo LogRecord (show kDefaultLogRingCapacity ≠ 0 ∧ _ by decide)
      have hops := UInt64.toNat_ofNat_of_lt' hc.count
      simp only [E2eHost.runE2e, hchecks, hc.shadows.validateCommands, hnew, hq, hlq, ok_bind]
      generalize hgiven : (if opt.warmupGiven then opt.warmup else _) = warmup
      split
      · exact ⟨_, rfl, hexit (.error (.inl rfl) (htext _ _ (by decide)))⟩
      · split
        · exact ⟨_, rfl, hexit (.error (.inr rfl)
            (htext _ _ (htext _ _ (by decide))))⟩
        · rename_i hwarmup
          split
          · exact ⟨_, rfl, hexit (.error (.inl rfl) (htext _ _ (by decide)))⟩
          · refine ⟨_, rfl, fun r he => (by cases he), fun config j q' lq' he => ?_⟩
            cases he
            rw [UInt64.not_le, UInt64.lt_iff_toNat_lt, hops] at hwarmup
            refine ⟨g, hopt, ⟨rfl, rfl⟩, ⟨bytes, hfile, ?_⟩, ?_, hwarmup, fun htrue => ?_,
              hq, hlq⟩
            · rw [hc.readReplay]
              exact hc
            · rw [hc.readReplay]
              exact hnew
            · rw [← hgiven, if_pos htrue]

theorem Disk.Made.runE2eCli {disk : Disk} (h : disk.Made) (host : E2eHost) (args : List String) :
    ∃ o, host.runE2eCli disk args = .ok o ∧ (∀ r, o = .exits r → r.Proper) ∧
      ∀ config j q lq, o = .starts config j q lq →
        ∃ opt g, Starts host disk args opt config g j q lq := by
  have hexit : ∀ {r : ToolRun}, r.Proper → (∀ r', E2eStart.exits r = .exits r' → r'.Proper) ∧
      ∀ config j q lq, E2eStart.exits r = .starts config j q lq →
        ∃ opt g, Starts host disk args opt config g j q lq := fun hr =>
    ⟨fun r' he => E2eStart.exits.inj he ▸ hr, fun config j q lq he => (by cases he)⟩
  cases args with
  | nil => exact ⟨_, rfl, hexit (.error (.inr rfl) E2eHost.printUsage_ne_empty)⟩
  | cons arg rest =>
    rw [E2eHost.runE2eCli]
    split
    · exact ⟨_, rfl, hexit .ok⟩
    · cases hopt : parseArgs (.new host.cpus) false (arg :: rest) with
      | error text => exact ⟨_, rfl, hexit (.error (.inr rfl) (parseArgs_error hopt))⟩
      | ok opt =>
        obtain ⟨o, hrun, hexits, hstarts⟩ := h.runE2e host hopt
        refine ⟨o, hrun, hexits, fun config j q lq he => ?_⟩
        obtain ⟨g, hg⟩ := hstarts config j q lq he
        exact ⟨opt, g, hg⟩

/-! The numbers of the report. -/

theorem summary_ok (r : LatencyRecorder) : ∃ row, r.summary = .ok row ∧
    row.value.count = r.count := by
  have hok : ∀ {num den : UInt64}, 0 < den ∧ num ≤ den → ∃ p, r.percentileTicks num den = .ok p :=
    fun h => ⟨_, by rw [LatencyRecorder.percentileTicks, assert_pos h]; rfl⟩
  obtain ⟨p₁, h₁⟩ := @hok 50 100 (by decide)
  obtain ⟨p₂, h₂⟩ := @hok 90 100 (by decide)
  obtain ⟨p₃, h₃⟩ := @hok 99 100 (by decide)
  obtain ⟨p₄, h₄⟩ := @hok 999 1000 (by decide)
  refine ⟨_, by simp only [LatencyRecorder.summary, h₁, h₂, h₃, h₄, ok_bind]; rfl, ?_⟩
  rfl

theorem EngineThread.Phase.recorded {ndebug : Bool} {e₀ : MatchingEngine} {warmup : UInt64}
    {cmds : List Command} {s : EngineThread} (h : Phase ndebug e₀ warmup cmds s)
    (hw : warmup.toNat < cmds.length) :
    Recorded ndebug s.recorders (cmds.drop warmup.toNat) := by
  cases h with
  | warming hle _ => exact absurd hw (by omega)
  | measuring hlen _ _ _ hrec =>
    rw [← hlen, List.drop_left]
    exact hrec

theorem ofValues_row (values : Multiset UInt64) (hcard : values.card < 2 ^ 32)
    {cal : TscCalibration} (hfast : 10 ^ 9 ≤ cal.ticksPerSecond.toNat)
    (hslow : cal.ticksPerSecond.toNat ≤ 2 ^ 34) {row : Audited LatencySummary}
    (hrow : (LatencyRecorder.ofValues values).summary = .ok row) :
    (row >>= fun s => s.toNanos cal).Gives LatencySummary.Ordered := by
  have hsees := ofValues_sees values (lt_trans hcard (by decide))
  obtain ⟨row', hsummary, hgives⟩ := summary_ordered hsees (by rwa [Multiset.card_map])
    fun hz => by rw [Multiset.map_eq_zero.mp hz]; rfl
  obtain rfl := Except.ok.inj (hsummary.symm.trans hrow)
  refine hgives.bind fun s hs => ?_
  exact (LatencySummary.toNanos_ordered ⟨by omega, hslow⟩ hs
    (TscCalibration.exactNanos_lt_of_fast hfast)).mono fun _ h => h.1

/-- What the rows of a finished run show: how many commands of each class were measured,
and percentiles in order. -/
structure RowsOf (ndebug : Bool) (cal : TscCalibration) (measured : List Command)
    (rows : List (Audited LatencySummary)) : Prop where
  counts : rows.map (fun row => row.value.count.toNat) =
    [classCount ndebug measured .kLimit, classCount ndebug measured .kMarket,
      classCount ndebug measured .kIoc, classCount ndebug measured .kCancel, measured.length]
  sum : classCount ndebug measured .kLimit + classCount ndebug measured .kMarket +
    classCount ndebug measured .kIoc + classCount ndebug measured .kCancel = measured.length
  ordered : measured.length < 2 ^ 32 → 10 ^ 9 ≤ cal.ticksPerSecond.toNat →
    cal.ticksPerSecond.toNat ≤ 2 ^ 34 → ∀ row ∈ rows, row.Gives LatencySummary.Ordered

theorem toNanos_count (row : Audited LatencySummary) (cal : TscCalibration) :
    (row >>= fun s => s.toNanos cal).value.count = row.value.count := by
  have hbind : ∀ {α β : Type} (x : Audited α) (f : α → Audited β),
      (x >>= f).value = (f x.value).value := fun _ _ => rfl
  have hpure : ∀ {α : Type} (a : α), (pure a : Audited α).value = a := fun _ => rfl
  simp only [LatencySummary.toNanos, hbind, hpure]

theorem EngineThread.Recorded.rows {ndebug : Bool} {recorders : Recorders}
    {measured : List Command} (h : Recorded ndebug recorders measured)
    (hlen : measured.length < 2 ^ 64) (cal : TscCalibration) :
    ∃ rows, e2eRows cal recorders = .ok rows ∧ RowsOf ndebug cal measured rows := by
  obtain ⟨v₀, h₀, c₀⟩ := h.values .kLimit (by decide)
  obtain ⟨v₁, h₁, c₁⟩ := h.values .kMarket (by decide)
  obtain ⟨v₂, h₂, c₂⟩ := h.values .kIoc (by decide)
  obtain ⟨v₃, h₃, c₃⟩ := h.values .kCancel (by decide)
  obtain ⟨v, hv, c⟩ := h.mergeAll
  have hsum := classCount_sum h.classified
  simp only [classCount] at hsum
  obtain ⟨r₀, hr₀, n₀⟩ := summary_ok (LatencyRecorder.ofValues v₀)
  obtain ⟨r₁, hr₁, n₁⟩ := summary_ok (LatencyRecorder.ofValues v₁)
  obtain ⟨r₂, hr₂, n₂⟩ := summary_ok (LatencyRecorder.ofValues v₂)
  obtain ⟨r₃, hr₃, n₃⟩ := summary_ok (LatencyRecorder.ofValues v₃)
  obtain ⟨r, hr, n⟩ := summary_ok (LatencyRecorder.ofValues v)
  have hcount : ∀ {row : Audited LatencySummary} {values : Multiset UInt64},
      row.value.count = (LatencyRecorder.ofValues values).count → values.card ≤ measured.length →
      (row >>= fun s => s.toNanos cal).value.count.toNat = values.card := fun he hle => by
    rw [toNanos_count, he, EngineThread.ofValues_count]
    exact UInt64.toNat_ofNat_of_lt' (lt_of_le_of_lt hle hlen)
  have hlist : recorders.toList = [LatencyRecorder.ofValues v₀, LatencyRecorder.ofValues v₁,
      LatencyRecorder.ofValues v₂, LatencyRecorder.ofValues v₃] := by
    rw [EngineThread.recorders_toList, ← h₀, ← h₁, ← h₂, ← h₃]
    rfl
  refine ⟨_, by
    simp only [e2eRows, hlist, hv, List.mapM_cons, List.mapM_nil, hr₀, hr₁, hr₂, hr₃, hr,
      ok_bind, pure_eq_ok]
    rfl, ?_, hsum, fun hfew hfast hslow row hrow => ?_⟩
  · simp only [List.map_cons, List.map_nil, List.cons_append, List.nil_append, classCount,
      hcount n₀ (by omega), hcount n₁ (by omega), hcount n₂ (by omega), hcount n₃ (by omega),
      hcount n (by omega), c₀, c₁, c₂, c₃, c]
  · simp only [List.map_cons, List.map_nil, List.cons_append, List.nil_append, List.mem_cons,
      List.not_mem_nil, or_false] at hrow
    rcases hrow with rfl | rfl | rfl | rfl | rfl
    · exact ofValues_row v₀ (by omega) hfast hslow hr₀
    · exact ofValues_row v₁ (by omega) hfast hslow hr₁
    · exact ofValues_row v₂ (by omega) hfast hslow hr₂
    · exact ofValues_row v₃ (by omega) hfast hslow hr₃
    · exact ofValues_row v (by omega) hfast hslow hr

/-- What a run of the threads ends with: the book of the generator, rows for the measured
commands, and a report that ends with the line on the book that `lob_replay run` prints. -/
structure E2e.Finished (disk : Disk) (opt : E2eOptions) (config : WorkloadConfig)
    (cal : TscCalibration) (j : E2eJob) (g : WorkloadGenerator UInt64) (s : E2e) : Prop where
  book : s.run.engine.book = g.engine.book
  rows : ∃ rows, e2eRows cal s.run.recorders = .ok rows ∧
    RowsOf j.ndebug cal (j.cmds.drop j.warmup.toNat) rows
  report : ∃ bid ask, g.engine.book.bestBid = .ok bid ∧ g.engine.book.bestAsk = .ok ask ∧
    (∀ us pinned, ∃ out, e2eReport opt config cal j us pinned s = .ok out ∧
      (opt.csv = false → ∃ front, out = front ++ bookLine bid ask g.engine.book.openOrders)) ∧
    ∀ v : Invocation, v.args = ["run", opt.file] → ∃ front, runCli v disk = .ok (some {
      exitCode := kExitOk
      out := front ++ bookLine bid ask g.engine.book.openOrders })

section
variable {host : E2eHost} {disk : Disk} {args : List String} {opt : E2eOptions}
  {config : WorkloadConfig} {g : WorkloadGenerator UInt64} {j : E2eJob} {q : SPSCQueue Command}
  {lq : SPSCQueue LogRecord}

theorem Starts.processAll (h : Starts host disk args opt config g j q lq) (ndebug : Bool) :
    ∃ batches, j.engine.processAll ndebug j.cmds = .ok (g.engine, batches) ∧
      g.engine.book.checkInvariants = .ok () := by
  obtain ⟨bytes, -, hc⟩ := h.complete
  obtain ⟨hvalid, hd, -, e₀, ndebug₀, batches, hnew, hrun, -⟩ := hc.shadows
  obtain rfl := Except.ok.inj (hnew.symm.trans h.engine)
  obtain ⟨hall, hcheck, -⟩ := MatchingEngine.processAll_any hvalid hnew hd hrun ndebug
  exact ⟨batches, hall, hcheck⟩

theorem Starts.finished (h : Starts host disk args opt config g j q lq) (cal : TscCalibration)
    {k kl : Nat} {s : E2e} {log : List Attempt} (hinv : s.Inv j k kl log)
    (hdone : s.main = .done) : s.Reports j log ∧ s.Finished disk opt config cal j g := by
  obtain ⟨bytes, hfile, hc⟩ := h.complete
  have hreports := hinv.reports hc.count h.warmup hdone
  obtain ⟨e, batches, hall, hbook⟩ := hreports.window.book
  obtain ⟨batches', hall', -⟩ := h.processAll j.ndebug
  cases hall.symm.trans hall'
  obtain ⟨processed, hat⟩ := hinv
  have hbroke := hat.broke
  rw [hdone] at hbroke
  have hrecorded := (hat.counted hc.count (hbroke rfl)).1.recorded h.warmup
  have hdrop : (j.cmds.drop j.warmup.toNat).length < 2 ^ 64 := by
    have := hc.count
    rw [List.length_drop]
    omega
  obtain ⟨rows, hrows, hrowsOf⟩ := hrecorded.rows hdrop cal
  obtain ⟨bid, ask, hbid, hask, -⟩ := hc.replayFile true 0 opt.file
  refine ⟨hreports, hbook, ⟨rows, hrows, hrowsOf⟩, bid, ask, hbid, hask, fun us pinned => ?_,
    fun v hv => ?_⟩
  · simp only [e2eReport, hrows, ok_bind, hbook, hbid, hask]
    cases hcsv : opt.csv with
    | true => exact ⟨_, rfl, fun he => (by cases he)⟩
    | false => exact ⟨_, rfl, fun _ => ⟨_, rfl⟩⟩
  · obtain ⟨bid', ask', hbid', hask', hreplay⟩ := hc.replayFile v.ndebug v.us opt.file
    cases hbid.symm.trans hbid'
    cases hask.symm.trans hask'
    rw [runCli, hv]
    simp only [hfile, hreplay, ok_bind]
    exact ⟨_, rfl⟩

end

/-- On a disk of generated files, whatever the arguments, the harness refuses them with an
error, or runs its threads to the end: no interleaving faults, every fair one gets there,
and the report shows the measured commands and the book that `lob_replay run` shows. -/
theorem generate_then_e2e {disk : Disk} (h : disk.Made) (host : E2eHost) (args : List String) :
    ∃ o, host.runE2eCli disk args = .ok o ∧ (∀ r, o = .exits r → r.Proper) ∧
      ∀ config j q lq, o = .starts config j q lq → ∃ opt g,
        Starts host disk args opt config g j q lq ∧
        (∀ sched, ∃ s log, Schedule.run (E2e.step j) (E2e.start j q lq) sched = .ok (s, log) ∧
          (s.main = .done → s.Reports j log ∧ s.Finished disk opt config
            (.measure host.elapsed host.before host.after) j g)) ∧
        ∀ f : Nat → E2eThread, (∀ t, FairTo f t) → ∃ N, ∀ n, N ≤ n → ∃ s log,
          Schedule.run (E2e.step j) (E2e.start j q lq) (upTo f n) = .ok (s, log) ∧
            s.main = .done := by
  obtain ⟨o, hrun, hexits, hstarts⟩ := h.runE2eCli host args
  refine ⟨o, hrun, hexits, fun config j q lq he => ?_⟩
  obtain ⟨opt, g, hg⟩ := hstarts config j q lq he
  obtain ⟨bytes, -, hc⟩ := hg.complete
  obtain ⟨k, -, -, hring⟩ := RingOk.new hg.cmdRing
  obtain ⟨kl, -, -, hlring⟩ := RingOk.new hg.logRing
  obtain ⟨batches, hall, hcheck⟩ := hg.processAll j.ndebug
  have hsound : j.Sound := ⟨_, hall, fun _ => hcheck⟩
  refine ⟨opt, g, hg, fun sched => ?_, fun f hfair => ?_⟩
  · obtain ⟨s, log, hrun, hinv⟩ := Schedule.run_ok (E2e.Inv j k kl) (fun _ => True)
      (fun s hist t _ hs => (E2e.step_inv hc.shadows.validateCommands hc.count hs t).resolve_right
        fun hf => hf.2 hsound) (E2e.start_inv hring hlring) (fun t (_ : t ∈ sched) => trivial)
    exact ⟨s, log, hrun, fun hdone => hg.finished _ hinv hdone⟩
  · obtain ⟨N, hN⟩ := E2e.settles hring hlring hc.shadows.validateCommands hc.count hsound hfair
    refine ⟨N, fun n hn => ?_⟩
    obtain ⟨s, log, hrun, -, hdone⟩ := hN n hn
    exact ⟨s, log, hrun, hdone⟩

/-- Two generated commands, the second of them measured. -/
theorem generate_then_e2e_small : ∃ (disk : Disk) (config : WorkloadConfig) (opt : E2eOptions)
    (j : E2eJob) (g : WorkloadGenerator UInt64) (q : SPSCQueue Command) (lq : SPSCQueue LogRecord)
    (N : Nat),
    E2eHost.runE2eCli ⟨false, 4, fun _ => false, UInt64.ofNat, 20, 0, 60⟩ disk
      ["f", "--warmup", "1"] = .ok (.starts config j q lq) ∧ j.cmds.length = 2 ∧
    opt.csv = false ∧
    ∀ n, N ≤ n → ∃ s log, Schedule.run (E2e.step j) (E2e.start j q lq)
        (upTo (roundRobin [.producer, .engine, .logger, .main] (by simp)) n) = .ok (s, log) ∧
      s.main = .done ∧ s.Reports j log ∧ s.Finished disk opt config (.measure 20 0 60) j g := by
  let cfg : WorkloadConfig := runGenerateConfig ⟨100, 1, 2⟩ 1
  have hv : validateEngineConfig cfg.engine = .ok () := by decide
  have hfit : cfg.engine.anchorPrice.toInt + cfg.engine.bandRadius.toNat + 256 ≤ 2 ^ 63 - 1 := by
    decide
  obtain ⟨g₀, cmds, g, hnew, htake, hlen, hs⟩ := runGenerateConfig_shadows hv hfit rfl false 2
  have hc : Complete (writeReplay cfg cmds) cfg cmds g :=
    ⟨hv, hfit, rfl, ⟨false, by rw [generateWorkload, hnew, ok_bind, hlen, htake]⟩,
      by rw [hlen]; decide, rfl⟩
  let disk : Disk := fun _ => some (writeReplay cfg cmds)
  have hmade : disk.Made := fun path bytes hb =>
    .inr ⟨cfg, cmds, g, by cases hb; exact hc⟩
  obtain ⟨o, hrun, -, hstarts⟩ := generate_then_e2e hmade
    ⟨false, 4, fun _ => false, UInt64.ofNat, 20, 0, 60⟩ ["f", "--warmup", "1"]
  obtain ⟨e, -, -, hengine, -⟩ := hs.replays
  obtain ⟨q, hq⟩ := new_powerOfTwo Command (show kCmdRingCapacity ≠ 0 ∧ _ by decide)
  obtain ⟨lq, hlq⟩ :=
    new_powerOfTwo LogRecord (show kDefaultLogRingCapacity ≠ 0 ∧ _ by decide)
  have hparse : parseArgs (.new 4) false ["f", "--warmup", "1"] =
    .ok { file := "f", warmup := 1, warmupGiven := true, pinCpu := 3 } := by decide
  have hstart : E2eHost.runE2eCli ⟨false, 4, fun _ => false, UInt64.ofNat, 20, 0, 60⟩ disk
      ["f", "--warmup", "1"] = .ok (.starts cfg ⟨false, UInt64.ofNat, 1, e, cmds⟩ q lq) := by
    rw [E2eHost.runE2eCli]
    simp only [hparse, E2eHost.runE2e, disk, hc.admitReplay, hlen, hs.validateCommands, hengine,
      hq, hlq, ok_bind, hc.readReplay]
    rfl
  obtain rfl := Except.ok.inj (hrun.symm.trans hstart)
  obtain ⟨opt, g', hstarted, hsafe, hfair⟩ := hstarts _ _ _ _ rfl
  obtain rfl := Except.ok.inj (hstarted.parsed.symm.trans hparse)
  obtain ⟨N, hN⟩ := hfair (roundRobin [.producer, .engine, .logger, .main] (by simp))
    fun t => roundRobin_fair _ (by cases t <;> simp)
  refine ⟨disk, cfg, { file := "f", warmup := 1, warmupGiven := true, pinCpu := 3 }, _, g', q, lq,
    N, hstart, hlen, rfl, fun n hn => ?_⟩
  obtain ⟨s, log, hreach, hdone⟩ := hN n hn
  obtain ⟨s', log', hreach', hreport⟩ :=
    hsafe (upTo (roundRobin [.producer, .engine, .logger, .main] (by simp)) n)
  obtain ⟨rfl, rfl⟩ := Prod.mk.inj (Except.ok.inj (hreach'.symm.trans hreach))
  exact ⟨_, _, hreach, hdone, hreport hdone⟩

end LimitOrderBook
