import LimitOrderBook.ReplayRun
import LimitOrderBook.GenerateRun
import LimitOrderBook.ConfigSafety
import LimitOrderBook.WorkloadBounds
import LimitOrderBook.StatsBalance

set_option autoImplicit false

namespace LimitOrderBook
open Checked MemoryImage LastWrite Tally

namespace EngineStats

def fills (s : EngineStats) : UInt64 := s.tradedEvents / 2

def tradedQty (s : EngineStats) : UInt64 := s.tradedQtyBothSides / 2

end EngineStats

/-- The text of `print_usage`. -/
def printUsage : String :=
  "lob_replay - deterministic replay workloads for the LOB engine\n" ++
    "\n" ++
    "Usage:\n" ++
    "  lob_replay generate --out FILE [--ops N] [--seed S] [--anchor P]\n" ++
    "                      [--band R] [--pool C]\n" ++
    "      Generate a replay file (defaults: ops 100000, seed 1,\n" ++
    "      anchor 10000, band " ++ toString kDefaultBandRadius ++ ", pool " ++
    toString kDefaultPoolCapacity ++ ").\n" ++
    "\n" ++
    "  lob_replay run FILE\n" ++
    "      Replay FILE through a fresh engine and print a stats summary.\n" ++
    "\n" ++
    "  lob_replay --help\n"

def priceText : Option PriceTicks → String
  | some p => toString p
  | none => "-"

def statsText (s : EngineStats) : String :=
  toString s.accepted ++ " accepted, " ++ toString s.rejected ++ " rejected (" ++
    toString s.rejectedUnknownOrder ++ " unknown-order), " ++ toString s.tradedEvents ++
    " traded (" ++ toString s.fills ++ " fills, qty " ++ toString s.tradedQty ++ "), " ++
    toString s.canceled ++ " canceled\n"

/-- The last line of both tools. -/
def bookLine (bid ask : Option PriceTicks) (openOrders : UInt32) : String :=
  "  book: best bid " ++ priceText bid ++ ", best ask " ++ priceText ask ++ ", open orders " ++
    toString openOrders ++ "\n"

def fileText (config : WorkloadConfig) (ops : UInt64) : String :=
  toString ops ++ " commands (seed " ++ toString config.seed ++ ", anchor " ++
    toString config.engine.anchorPrice ++ ", band " ++ toString config.engine.bandRadius ++
    ", pool " ++ toString config.engine.poolCapacity ++ ")\n"

/-- What `run_replay` prints when its clocks are `us` microseconds apart. -/
def replayReport (path : String) (config : WorkloadConfig) (ops us : UInt64)
    (engine : MatchingEngine) (bid ask : Option PriceTicks) : String :=
  "replay " ++ path ++ ": v" ++ toString kReplayFormatVersion ++ ", " ++ fileText config ops ++
    "  processed " ++ toString ops ++ " commands in " ++ toString us ++ " us" ++
    (if 0 < us then " (~" ++ toString (ops * 1000000 / us) ++ " ops/s, wall-clock)" else "") ++
    "\n" ++
    "  events: " ++ statsText engine.stats ++ bookLine bid ask engine.book.openOrders

/-- `run_replay` on what the file of that name holds, `none` if it cannot be opened. -/
def replayFile (ndebug : Bool) (us : UInt64) (path : String) : Option Bytes → Exec ToolRun
  | none => pure {
      exitCode := kExitRuntime
      err := "error: cannot open '" ++ path ++ "'\n" }
  | some bytes =>
    match runReplay ndebug path bytes with
    | .error text => pure { exitCode := kExitRuntime, err := text }
    | .ok (_, run) => do
      let engine ← run
      let res := readReplay bytes
      let bid ← engine.book.bestBid
      let ask ← engine.book.bestAsk
      pure {
        exitCode := kExitOk
        out := replayReport path res.config (UInt64.ofNat res.commands.length) us engine bid ask }

abbrev Disk := String → Option Bytes

/-- One run of the tool: its build, the machine, the time `run` takes, and its arguments. -/
structure Invocation where
  ndebug : Bool
  host : Host
  us : UInt64
  args : List String

/-- `none` when the reservation of `run_generate` throws. -/
def runCli (v : Invocation) (disk : Disk) : Exec (Option ToolRun) :=
  match v.args with
  | [] => pure (some { exitCode := kExitUsage, err := printUsage })
  | command :: args =>
    if command = "--help" ∨ command = "-h" then
      pure (some { exitCode := kExitOk, out := printUsage })
    else if command = "generate" then runGenerate v.ndebug v.host args
    else if command = "run" then
      match args with
      | [path] => do
        let r ← replayFile v.ndebug v.us path (disk path)
        pure (some r)
      | _ => pure (some {
          exitCode := kExitUsage
          err := "error: run takes exactly one FILE argument\n" })
    else pure (some {
      exitCode := kExitUsage
      err := "error: unknown command '" ++ command ++ "'\n" ++ printUsage })

def Disk.write (disk : Disk) (r : ToolRun) : Disk :=
  match r.file with
  | none => disk
  | some (path, bytes) => Function.update disk path (some bytes)

/-- The files after a run of the tool. An exception ends it before a file is opened. -/
def Invocation.after (disk : Disk) (v : Invocation) : Exec Disk := do
  match ← runCli v disk with
  | none => pure disk
  | some r => pure (disk.write r)

namespace MatchingEngine

variable {cfg : EngineConfig} {e : MatchingEngine} {b : QueueBook}

theorem process_of_debug {ndebug : Bool} {cmd : Command} {r : MatchingEngine × List Event}
    (hk : cmd.Known) (h : e.process ndebug cmd = .ok r) : e.process true cmd = .ok r := by
  rcases hk with hk | hk
  · rw [process, if_pos hk] at h ⊢
    obtain ⟨⟨id, e', events⟩, hsubmit, h⟩ := bind_eq_ok.mp h
    obtain ⟨⟨id', book', events'⟩, hadd, hsubmit⟩ := bind_eq_ok.mp hsubmit
    cases hsubmit
    cases h
    rw [submit, add_of_debug hadd]
    rfl
  · have hne : ¬ cmd.kind = .kNew := by
      rw [hk]
      decide
    rw [process, if_neg hne, if_pos hk] at h ⊢
    exact h

theorem processAll_of_debug {ndebug : Bool} (cmds : List Command) :
    ∀ {e : MatchingEngine} {r : MatchingEngine × List (List Event)},
      (∀ cmd ∈ cmds, cmd.Known) → e.processAll ndebug cmds = .ok r →
      e.processAll true cmds = .ok r := by
  induction cmds with
  | nil => exact fun _ h => h
  | cons cmd cmds ih =>
    intro e r hk h
    obtain ⟨⟨e₁, events⟩, hfirst, h⟩ := bind_eq_ok.mp h
    obtain ⟨⟨e₂, batches⟩, hrest, h⟩ := bind_eq_ok.mp h
    cases h
    simp only [processAll, process_of_debug (hk cmd (by simp)) hfirst, ok_bind,
      ih (fun c hc => hk c (by simp [hc])) hrest, pure_eq_ok]

theorem processAll_any (hc : cfg.Valid) {e₀ : MatchingEngine} (hnew : new cfg = .ok e₀)
    {cmds : List Command} (hd : ∀ cmd ∈ cmds, cmd.Declared) {ndebug : Bool}
    {batches : List (List Event)} (hrun : e₀.processAll ndebug cmds = .ok (e, batches))
    (ndebug' : Bool) : e₀.processAll ndebug' cmds = .ok (e, batches) ∧
      e.book.checkInvariants = .ok () ∧ batches =
        ((QueueBook.new cfg.poolCapacity).run (cmds.map Command.op)).2.map Reply.events ∧
      BookRep cfg e.book ((QueueBook.new cfg.poolCapacity).run (cmds.map Command.op)).1 [] := by
  have hk : ∀ cmd ∈ cmds, cmd.Known := fun cmd hcmd => (hd cmd hcmd).1
  obtain ⟨e₁, hnew₁, hrep⟩ := new_rep hc
  obtain rfl := Except.ok.inj (hnew₁.symm.trans hnew)
  obtain ⟨e', hrun', hrep', hu⟩ := processAll_rep ndebug' cmds hrep QueueBook.new_uncrossed hk
  have hsame := (processAll_of_debug cmds hk hrun').symm.trans (processAll_of_debug cmds hk hrun)
  obtain ⟨rfl, rfl⟩ := Prod.mk.inj (Except.ok.inj hsame)
  refine ⟨hrun', hrep'.checkInvariants_ok (QueueBook.sidesDeclared_run _
    (QueueBook.new_sidesDeclared cfg.poolCapacity) fun op hop r hr => ?_) hu, rfl, hrep'⟩
  obtain ⟨cmd, hcmd, rfl⟩ := List.mem_map.mp hop
  exact (hd cmd hcmd).op.submits hr

end MatchingEngine

/-- Bytes that `generate` has written in full: the commands of a generator that ended
as `g`, with a configuration that leaves its prices room. -/
structure Complete (bytes : Bytes) (cfg : WorkloadConfig) (cmds : List Command)
    (g : WorkloadGenerator UInt64) : Prop where
  checked : validateEngineConfig cfg.engine = .ok ()
  fits : cfg.engine.anchorPrice.toInt + cfg.engine.bandRadius.toNat + 256 ≤ 2 ^ 63 - 1
  config : cfg = runGenerateConfig cfg.engine cfg.seed
  generated : ∃ ndebug, generateWorkload nextU64 ndebug cfg cfg.seed cmds.length = .ok (cmds, g)
  count : cmds.length < 2 ^ 64
  written : bytes = writeReplay cfg cmds

/-- What the engine of the generator and its counters say of its commands. -/
structure Shadows (cfg : WorkloadConfig) (cmds : List Command) (g : WorkloadGenerator UInt64) :
    Prop where
  valid : cfg.engine.Valid
  declared : ∀ cmd ∈ cmds, cmd.Declared
  counted : WorkloadCounts.Counted {} cmds g.counts
  replays : ∃ e₀ ndebug batches, MatchingEngine.new cfg.engine = .ok e₀ ∧
    e₀.processAll ndebug cmds = .ok (g.engine, batches) ∧ ∀ ev ∈ batches.flatten, ev.Benign

theorem runGenerateConfig_shadows {cfg : WorkloadConfig}
    (hv : validateEngineConfig cfg.engine = .ok ())
    (hfit : cfg.engine.anchorPrice.toInt + cfg.engine.bandRadius.toNat + 256 ≤ 2 ^ 63 - 1)
    (hcfg : cfg = runGenerateConfig cfg.engine cfg.seed) (ndebug : Bool) (n : Nat) :
    ∃ g₀ cmds g, WorkloadGenerator.new cfg cfg.seed = .ok g₀ ∧
      g₀.take nextU64 ndebug n = .ok (cmds, g) ∧ cmds.length = n ∧ Shadows cfg cmds g := by
  have hvalid : cfg.engine.Valid := .of_accepted hv (by omega)
  have hacc : cfg.Accepted := hcfg ▸ runGenerateConfig_accepted hvalid cfg.seed
  have hfits : cfg.Fits := by
    rw [hcfg]
    exact hfit
  have hwalk : cfg.engine.anchorPrice.toInt + cfg.walkRadius.toNat ≤ 2 ^ 63 - 1 := by
    rw [WorkloadConfig.Fits] at hfits
    omega
  obtain ⟨g₀, hnew, htracks, -, -⟩ := WorkloadGenerator.new_ok hacc hwalk cfg.seed
  obtain ⟨g₁, hnew₁, hsound, hzero⟩ :=
    WorkloadGenerator.new_sound hacc.toAsserted hfits cfg.seed
  obtain rfl := Except.ok.inj (hnew₁.symm.trans hnew)
  obtain ⟨cmds, g, batches, htake, -, hlen, hd, hreplay, hbenign⟩ :=
    WorkloadGenerator.take_ok nextU64 hacc hfits ndebug n htracks
  have hcounted := (WorkloadGenerator.take_sound hacc.toAsserted hfits n hsound htake).2.2
  rw [hzero] at hcounted
  obtain ⟨e₀, hengine, -⟩ := bind_eq_ok.mp hnew
  have he₀ : g₁.engine = e₀ := WorkloadGenerator.new_engine hengine hnew
  exact ⟨g₁, cmds, g, hnew, htake, hlen, hvalid, hd, hcounted, e₀, ndebug, batches, hengine,
    he₀ ▸ hreplay, hbenign⟩

theorem Complete.shadows {bytes : Bytes} {cfg : WorkloadConfig} {cmds : List Command}
    {g : WorkloadGenerator UInt64} (h : Complete bytes cfg cmds g) : Shadows cfg cmds g := by
  obtain ⟨ndebug, hgen⟩ := h.generated
  obtain ⟨g₀, cmds', g', hnew, htake, -, hs⟩ :=
    runGenerateConfig_shadows h.checked h.fits h.config ndebug cmds.length
  rw [generateWorkload, hnew, ok_bind, htake] at hgen
  cases hgen
  exact hs

theorem Complete.readReplay {bytes : Bytes} {cfg : WorkloadConfig} {cmds : List Command}
    {g : WorkloadGenerator UInt64} (h : Complete bytes cfg cmds g) :
    LimitOrderBook.readReplay bytes = { config := cfg, commands := cmds } := by
  rw [h.written]
  exact readReplay_image 0 cfg h.count

theorem Complete.admitReplay {bytes : Bytes} {cfg : WorkloadConfig} {cmds : List Command}
    {g : WorkloadGenerator UInt64} (h : Complete bytes cfg cmds g) (path : String) :
    LimitOrderBook.admitReplay path bytes = .ok (cfg.engine, cmds) := by
  simp only [LimitOrderBook.admitReplay, h.readReplay, ne_eq, not_true_eq_false, if_false,
    h.checked]

theorem Complete.replayFile {bytes : Bytes} {cfg : WorkloadConfig} {cmds : List Command}
    {g : WorkloadGenerator UInt64} (h : Complete bytes cfg cmds g) (ndebug : Bool) (us : UInt64)
    (path : String) : ∃ bid ask, g.engine.book.bestBid = .ok bid ∧
      g.engine.book.bestAsk = .ok ask ∧
      LimitOrderBook.replayFile ndebug us path (some bytes) = .ok {
        exitCode := kExitOk
        out := replayReport path cfg (UInt64.ofNat cmds.length) us g.engine bid ask } := by
  obtain ⟨hvalid, hd, -, e₀, ndebug₀, batches, hnew, hrun, -⟩ := h.shadows
  obtain ⟨hrun, hcheck, -, hrep⟩ := MatchingEngine.processAll_any hvalid hnew hd hrun ndebug
  have hexec := runReplay_ok (h.admitReplay path) hnew hrun hcheck
  refine ⟨_, _, hrep.bestBid_rep, hrep.bestAsk_rep, ?_⟩
  simp only [LimitOrderBook.replayFile, hexec, ok_bind, hrep.bestBid_rep, hrep.bestAsk_rep,
    h.readReplay]
  rfl

theorem admitReplay_take {cfg : WorkloadConfig} {cmds : List Command} {room : Nat}
    (hcount : cmds.length < 2 ^ 64) (h : room < (writeReplay cfg cmds).length) (path : String) :
    ∃ text, admitReplay path ((writeReplay cfg cmds).take room) = .error text := by
  obtain ⟨hheader, hbody⟩ := length_image 0 cfg cmds
  rw [writeReplay, replayImage, List.length_append, hheader, hbody] at h
  have hlen : ((writeReplay cfg cmds).take room).length = room := by
    rw [writeReplay, replayImage, List.length_take, List.length_append, hheader, hbody]
    omega
  have herror : (readReplay ((writeReplay cfg cmds).take room)).error ≠ .kNone := by
    rw [readReplay_eq, hlen]
    by_cases hshort : room < 96
    · rw [if_pos hshort]
      decide
    · have htake : ((writeReplay cfg cmds).take room).take 96 = ReplayHeader.layout.encode {
          magic := kReplayMagic, version := kReplayFormatVersion, pad0 := 0, config := cfg
          commandCount := UInt64.ofNat cmds.length } := by
        rw [List.take_take, min_eq_left (by omega), writeReplay, replayImage,
          List.take_left' hheader]
      rw [if_neg hshort, htake, ReplayHeader.layout.decode_encode]
      simp only [ne_eq, not_true_eq_false, if_false, UInt64.toNat_ofNat_of_lt' hcount]
      rw [if_pos (by omega)]
      exact fun he => by cases he
  exact ⟨_, if_pos herror⟩

/-- What `generate` comes to: the file it writes, in full or in part, if any. -/
inductive Wrote (host : Host) (a : GenerateArgs) (bytes : Bytes) (report : String) :
    Option ToolRun → Prop where
  | thrown (full : host.reserves a.ops = false) : Wrote host a bytes report none
  | unopened (closed : host.room a.outPath = none) : Wrote host a bytes report (some {
      exitCode := kExitRuntime
      err := "error: cannot open '" ++ a.outPath ++ "' for writing\n" })
  | cut {room : Nat} (opened : host.room a.outPath = some room) (small : room < bytes.length) :
    Wrote host a bytes report (some {
      exitCode := kExitRuntime
      err := "error: write to '" ++ a.outPath ++ "' failed\n"
      file := some (a.outPath, bytes.take room) })
  | full {room : Nat} (opened : host.room a.outPath = some room) (fits : bytes.length ≤ room) :
    Wrote host a bytes report (some {
      exitCode := kExitOk
      out := report
      file := some (a.outPath, bytes) })

theorem runGenerate_wrote {args : List String} {a : GenerateArgs}
    (ha : runGenerateArgs args = .ok a)
    (hfit : a.cfg.engine.anchorPrice.toInt + a.cfg.engine.bandRadius.toNat + 256 ≤ 2 ^ 63 - 1)
    (ndebug : Bool) (host : Host) :
    ∃ cmds g o, Complete (writeReplay a.cfg cmds) a.cfg cmds g ∧ cmds.length = a.ops.toNat ∧
      runGenerate ndebug host args = .ok o ∧
      Wrote host a (writeReplay a.cfg cmds) (generateReport a g.counts) o := by
  obtain ⟨hcfg, hv⟩ := runGenerateArgs_config ha
  obtain ⟨g₀, cmds, g, hnew, htake, hlen, -⟩ :=
    runGenerateConfig_shadows hv hfit hcfg ndebug a.ops.toNat
  have hcomplete : Complete (writeReplay a.cfg cmds) a.cfg cmds g :=
    ⟨hv, hfit, hcfg, ⟨ndebug, by rw [generateWorkload, hnew, ok_bind, hlen, htake]⟩,
      hlen ▸ a.ops.toNat_lt, rfl⟩
  simp only [runGenerate, ha, hnew, ok_bind]
  by_cases hres : host.reserves a.ops = true
  · rw [if_neg (not_not.mpr hres), htake, ok_bind]
    cases hroom : host.room a.outPath with
    | none => exact ⟨cmds, g, _, hcomplete, hlen, rfl, .unopened hroom⟩
    | some room =>
      by_cases hsmall : room < (writeReplay a.cfg cmds).length
      · exact ⟨cmds, g, _, hcomplete, hlen, if_pos hsmall, .cut hroom hsmall⟩
      · exact ⟨cmds, g, _, hcomplete, hlen, if_neg hsmall, .full hroom (not_lt.mp hsmall)⟩
  · rw [if_pos hres]
    exact ⟨cmds, g, _, hcomplete, hlen, rfl, .thrown (Bool.eq_false_iff.mpr hres)⟩

/-- Every file that `run` accepts was written in full. -/
def Disk.Made (disk : Disk) : Prop :=
  ∀ path bytes, disk path = some bytes →
    (∀ p r, admitReplay p bytes ≠ .ok r) ∨ ∃ cfg cmds g, Complete bytes cfg cmds g

/-- If the checks of `generate` pass its arguments, the prices have room above the band. -/
def Invocation.InRange (v : Invocation) : Prop :=
  ∀ args a, v.args = "generate" :: args → runGenerateArgs args = .ok a →
    a.cfg.engine.anchorPrice.toInt + a.cfg.engine.bandRadius.toNat + 256 ≤ 2 ^ 63 - 1

def Invocation.Targets (v : Invocation) (path : String) : Prop :=
  ∃ args, v.args = "generate" :: args ∧ lastValue "--out" (flagPairs args) = some path

/-- What the exit code says of the rest of a run. -/
structure ToolRun.Proper (r : ToolRun) : Prop where
  code : r.exitCode = kExitOk ∨ r.exitCode = kExitRuntime ∨ r.exitCode = kExitUsage
  silent : r.exitCode = kExitOk ↔ r.err = ""
  failed : r.exitCode ≠ kExitOk → r.out = ""
  usage : r.exitCode = kExitUsage → r.file = none

/-- How a call ends on a made disk: the run is proper, and what it writes is a file in
full, or in part and so of no use to `run`. -/
structure Ended (r : ToolRun) : Prop where
  proper : r.Proper
  made : ∀ path bytes, r.file = some (path, bytes) →
    (∀ p r, admitReplay p bytes ≠ .ok r) ∨ ∃ cfg cmds g, Complete bytes cfg cmds g

theorem append_ne_empty {s : String} (hs : s ≠ "") (t : String) : s ++ t ≠ "" :=
  fun h => hs (String.append_eq_empty_iff.mp h).1

theorem printUsage_ne_empty : printUsage ≠ "" := by
  unfold printUsage
  iterate 14 refine append_ne_empty ?_ _
  decide

theorem ToolRun.Proper.error {code : Nat} {text : String}
    (hcode : code = kExitRuntime ∨ code = kExitUsage) (htext : text ≠ "") :
    ToolRun.Proper { exitCode := code, err := text } := by
  have hne : code ≠ kExitOk := by
    rcases hcode with rfl | rfl <;> decide
  exact ⟨.inr hcode, iff_of_false hne htext, fun _ => rfl, fun _ => rfl⟩

theorem ToolRun.Proper.ok {out : String} : ToolRun.Proper { exitCode := kExitOk, out } :=
  ⟨.inl rfl, iff_of_true rfl rfl, fun h => absurd rfl h, fun _ => rfl⟩

theorem Ended.of_none {r : ToolRun} (h : r.Proper) (hfile : r.file = none) : Ended r :=
  ⟨h, fun _ _ he => (by cases hfile.symm.trans he)⟩

theorem Ended.error {code : Nat} {text : String}
    (hcode : code = kExitRuntime ∨ code = kExitUsage) (htext : text ≠ "") :
    Ended { exitCode := code, err := text } := .of_none (.error hcode htext) rfl

theorem Wrote.ended {host : Host} {a : GenerateArgs} {bytes : Bytes} {cfg : WorkloadConfig}
    {cmds : List Command} {g : WorkloadGenerator UInt64} {report : String} {r : ToolRun}
    (hc : Complete bytes cfg cmds g) (h : Wrote host a bytes report (some r)) : Ended r := by
  cases h with
  | unopened closed =>
    exact .error (.inl rfl) (append_ne_empty (append_ne_empty (by decide) _) _)
  | @cut room opened small =>
    refine ⟨⟨.inr (.inl rfl), iff_of_false (show kExitRuntime ≠ kExitOk by decide)
      (append_ne_empty (append_ne_empty (by decide) _) _), fun _ => rfl,
      fun h => absurd h (show kExitRuntime ≠ kExitUsage by decide)⟩, fun path b h => ?_⟩
    cases h
    rw [hc.written] at small ⊢
    refine .inl fun p r hchecks => ?_
    obtain ⟨text, herror⟩ := admitReplay_take hc.count small p
    cases herror.symm.trans hchecks
  | full opened fits =>
    refine ⟨⟨.inl rfl, iff_of_true rfl rfl, fun h => absurd rfl h,
      fun h => absurd h (show kExitOk ≠ kExitUsage by decide)⟩, fun path b h => ?_⟩
    cases h
    exact .inr ⟨cfg, cmds, g, hc⟩

theorem parseFlags_error (args : List String) : ∀ {a : GenerateArgs} {text : String},
    GenerateArgs.parseFlags a args = .error text → text ≠ "" := by
  induction args using List.twoStepInduction with
  | nil =>
    intro a text h
    cases h
  | singleton flag =>
    intro a text h
    cases h
    exact append_ne_empty (append_ne_empty (by decide) _) _
  | cons_cons flag value rest ih _ =>
    intro a text h
    rw [GenerateArgs.parseFlags] at h
    split at h
    · exact ih h
    · split at h
      · cases h
        exact append_ne_empty (append_ne_empty (append_ne_empty (append_ne_empty (by decide) _) _)
          _) _
      · cases hset : a.setFlag flag _ with
        | ok a' =>
          rw [hset] at h
          exact ih h
        | error e =>
          rw [hset] at h
          cases h
          unfold GenerateArgs.setFlag at hset
          repeat' split at hset
          all_goals cases hset
          exact append_ne_empty (append_ne_empty (by decide) _) _

theorem runGenerateArgs_error {args : List String} {text : String}
    (h : runGenerateArgs args = .error text) : text ≠ "" := by
  unfold runGenerateArgs at h
  cases hparse : GenerateArgs.parseFlags {} args with
  | error e =>
    rw [hparse] at h
    cases h
    exact parseFlags_error args hparse
  | ok a =>
    rw [hparse] at h
    simp only [bind, Except.bind] at h
    split at h
    · cases h
      decide
    · split at h
      · cases h
        exact append_ne_empty (append_ne_empty (by decide) _) _
      · cases h

theorem admitReplay_error {path text : String} {bytes : Bytes}
    (h : admitReplay path bytes = .error text) : text ≠ "" := by
  simp only [admitReplay] at h
  split at h
  · cases h
    exact append_ne_empty (append_ne_empty (append_ne_empty (append_ne_empty (by decide) _) _)
      _) _
  · split at h
    · cases h
      exact append_ne_empty (append_ne_empty (append_ne_empty (append_ne_empty (by decide) _) _)
        _) _
    · cases h

theorem Invocation.Targets.of_args {v : Invocation} {args : List String} {a : GenerateArgs}
    (hargs : v.args = "generate" :: args) (ha : runGenerateArgs args = .ok a) :
    v.Targets a.outPath := by
  obtain ⟨hpass, hread⟩ := runGenerateArgs_passes ha
  obtain ⟨path, hlast, -⟩ := hpass.out
  refine ⟨args, hargs, ?_⟩
  rw [hread.outPath, hlast]
  rfl

theorem runGenerate_file {ndebug : Bool} {host : Host} {args : List String} {r : ToolRun}
    {path : String} {bytes : Bytes} (h : runGenerate ndebug host args = .ok (some r))
    (hfile : r.file = some (path, bytes)) :
    ∃ a, runGenerateArgs args = .ok a ∧ a.outPath = path := by
  unfold runGenerate at h
  cases ha : runGenerateArgs args with
  | error text =>
    rw [ha] at h
    cases h
    cases hfile
  | ok a =>
    rw [ha] at h
    obtain ⟨g, -, h⟩ := bind_eq_ok.mp h
    refine ⟨a, rfl, ?_⟩
    split at h
    · cases h
    · obtain ⟨⟨cmds, g'⟩, -, h⟩ := bind_eq_ok.mp h
      dsimp only at h
      split at h
      · cases h
        cases hfile
      · split at h <;> cases h <;> cases hfile <;> rfl

theorem replayFile_file {ndebug : Bool} {us : UInt64} {path : String} {bytes : Option Bytes}
    {r : ToolRun} (h : replayFile ndebug us path bytes = .ok r) : r.file = none := by
  unfold replayFile at h
  split at h
  · cases h
    rfl
  · split at h
    · cases h
      rfl
    · obtain ⟨engine, -, h⟩ := bind_eq_ok.mp h
      obtain ⟨bid, -, h⟩ := bind_eq_ok.mp h
      obtain ⟨ask, -, h⟩ := bind_eq_ok.mp h
      cases h
      rfl

variable {disk : Disk}

theorem Disk.Made.replayFile (h : disk.Made) (v : Invocation) (path : String) :
    ∃ r, LimitOrderBook.replayFile v.ndebug v.us path (disk path) = .ok r ∧ Ended r ∧
      (r.exitCode = kExitOk ∨ r.exitCode = kExitRuntime) ∧
      (r.exitCode = kExitOk ↔ ∃ bytes cfg cmds g, disk path = some bytes ∧
        Complete bytes cfg cmds g) := by
  cases hfile : disk path with
  | none =>
    refine ⟨_, rfl, .error (.inl rfl) (append_ne_empty (append_ne_empty (by decide) _) _),
      .inr rfl, ?_⟩
    refine iff_of_false (show kExitRuntime ≠ kExitOk by decide) ?_
    rintro ⟨bytes, -, -, -, hbytes, -⟩
    cases hbytes
  | some bytes =>
    rcases h path bytes hfile with hno | ⟨cfg, cmds, g, hc⟩
    · cases hchecks : admitReplay path bytes with
      | ok r => exact absurd hchecks (hno path r)
      | error text =>
        have hrun : runReplay v.ndebug path bytes = .error text := by
          rw [runReplay, hchecks]
          rfl
        simp only [LimitOrderBook.replayFile, hrun]
        refine ⟨_, rfl, .error (.inl rfl) (admitReplay_error hchecks), .inr rfl, ?_⟩
        refine iff_of_false (show kExitRuntime ≠ kExitOk by decide) ?_
        rintro ⟨_, cfg, cmds, g, hbytes, hc⟩
        cases hbytes
        exact hno path _ (hc.admitReplay path)
    · obtain ⟨bid, ask, -, -, hrun⟩ := hc.replayFile v.ndebug v.us path
      exact ⟨_, hrun, .of_none .ok rfl, .inl rfl, iff_of_true rfl ⟨bytes, cfg, cmds, g, rfl, hc⟩⟩

/-- A call on a made disk ends, unless a vector of its commands cannot be reserved. -/
theorem Disk.Made.runCli (h : disk.Made) {v : Invocation} (hv : v.InRange) :
    ∃ o, LimitOrderBook.runCli v disk = .ok o ∧ (∀ r, o = some r → Ended r) ∧
      (o = none → ∃ args a, v.args = "generate" :: args ∧ runGenerateArgs args = .ok a ∧
        v.host.reserves a.ops = false) := by
  have hreturn : ∀ {r : ToolRun}, Ended r → (∀ r', some r = some r' → Ended r') ∧
      (some r = none → ∃ args a, v.args = "generate" :: args ∧ runGenerateArgs args = .ok a ∧
        v.host.reserves a.ops = false) := fun hr =>
    ⟨fun r' he => Option.some.inj he ▸ hr, fun he => (by cases he)⟩
  have husage : ∀ {text : String}, text ≠ "" →
      Ended { exitCode := kExitUsage, err := text } := fun ht => .error (.inr rfl) ht
  unfold LimitOrderBook.runCli
  cases hargs : v.args with
  | nil => exact ⟨_, rfl, hargs ▸ hreturn (husage printUsage_ne_empty)⟩
  | cons command args =>
    dsimp only
    rw [← hargs]
    split
    · exact ⟨_, rfl, hreturn (.of_none .ok rfl)⟩
    · split
      · rename_i hcommand
        rw [hcommand] at hargs
        cases ha : runGenerateArgs args with
        | error text =>
          rw [runGenerate, ha]
          exact ⟨_, rfl, hreturn (husage (runGenerateArgs_error ha))⟩
        | ok a =>
          obtain ⟨cmds, g, o, hc, -, hrun, hwrote⟩ :=
            runGenerate_wrote ha (hv args a hargs ha) v.ndebug v.host
          refine ⟨o, hrun, fun r ho => ?_, fun ho => ?_⟩
          · rw [ho] at hwrote
            exact hwrote.ended hc
          · rw [ho] at hwrote
            cases hwrote with
            | thrown full => exact ⟨args, a, hargs, ha, full⟩
      · split
        · split
          · rename_i path
            obtain ⟨r, hrun, hr, -⟩ := h.replayFile v path
            exact ⟨_, by rw [hrun]; rfl, hreturn hr⟩
          · exact ⟨_, rfl, hreturn (husage (by decide))⟩
        · exact ⟨_, rfl, hreturn (husage (append_ne_empty (append_ne_empty (append_ne_empty
            (by decide) _) _) _))⟩

theorem Disk.write_none {r : ToolRun} (h : r.file = none) : disk.write r = disk := by
  rw [Disk.write, h]

theorem Disk.write_some {r : ToolRun} {path : String} {bytes : Bytes}
    (h : r.file = some (path, bytes)) : disk.write r = Function.update disk path (some bytes) := by
  rw [Disk.write, h]

theorem Invocation.targets_of_write {v : Invocation} {r : ToolRun} {path : String} {bytes : Bytes}
    (h : runCli v disk = .ok (some r)) (hfile : r.file = some (path, bytes)) : v.Targets path := by
  unfold runCli at h
  cases hargs : v.args with
  | nil =>
    rw [hargs] at h
    cases h
    cases hfile
  | cons command args =>
    rw [hargs] at h
    dsimp only at h
    split at h
    · cases h
      cases hfile
    · split at h
      · rename_i hcommand
        obtain ⟨a, ha, rfl⟩ := runGenerate_file h hfile
        exact .of_args (hcommand ▸ hargs) ha
      · split at h
        · split at h
          · obtain ⟨r', hr', h⟩ := bind_eq_ok.mp h
            cases h
            cases (replayFile_file hr').symm.trans hfile
          · cases h
            cases hfile
        · cases h
          cases hfile

theorem Invocation.after_keeps {v : Invocation} {disk' : Disk} (h : v.after disk = .ok disk')
    {path : String} (hpath : ¬ v.Targets path) : disk' path = disk path := by
  obtain ⟨o, hrun, h⟩ := bind_eq_ok.mp h
  cases o with
  | none =>
    cases h
    rfl
  | some r =>
    cases h
    cases hfile : r.file with
    | none => rw [Disk.write_none hfile]
    | some f =>
      rw [Disk.write_some hfile]
      refine Function.update_of_ne (fun hp => hpath ?_) ..
      exact hp ▸ targets_of_write hrun hfile

theorem session_keeps (vs : List Invocation) {path : String} (hpath : ∀ v ∈ vs, ¬ v.Targets path) :
    ∀ {disk disk' : Disk}, vs.foldlM Invocation.after disk = .ok disk' →
      disk' path = disk path := by
  induction vs with
  | nil =>
    intro disk disk' h
    cases h
    rfl
  | cons v vs ih =>
    intro disk disk' h
    rw [List.foldlM_cons] at h
    obtain ⟨disk₁, hfirst, hrest⟩ := bind_eq_ok.mp h
    rw [ih (fun w hw => hpath w (List.mem_cons_of_mem v hw)) hrest,
      Invocation.after_keeps hfirst (hpath v List.mem_cons_self)]

theorem Disk.Made.after (h : disk.Made) {v : Invocation} (hv : v.InRange) :
    ∃ disk', v.after disk = .ok disk' ∧ disk'.Made := by
  obtain ⟨o, hrun, hend, -⟩ := h.runCli hv
  rw [Invocation.after, hrun, ok_bind]
  cases o with
  | none => exact ⟨_, rfl, h⟩
  | some r =>
    obtain ⟨-, hmade⟩ := hend r rfl
    refine ⟨_, rfl, ?_⟩
    cases hfile : r.file with
    | none => rwa [Disk.write_none hfile]
    | some f =>
      obtain ⟨target, bytes⟩ := f
      rw [Disk.write_some hfile]
      intro path b hb
      by_cases hp : path = target
      · subst hp
        rw [Function.update_self] at hb
        obtain rfl := Option.some.inj hb
        exact hmade _ _ hfile
      · rw [Function.update_of_ne hp] at hb
        exact h path b hb

theorem Disk.Made.session (vs : List Invocation) : ∀ {disk : Disk}, disk.Made →
    (∀ v ∈ vs, v.InRange) → ∃ disk', vs.foldlM Invocation.after disk = .ok disk' ∧ disk'.Made := by
  induction vs with
  | nil => exact fun h _ => ⟨_, rfl, h⟩
  | cons v vs ih =>
    intro disk h hvs
    obtain ⟨disk₁, hfirst, h₁⟩ := h.after (hvs v (by simp))
    obtain ⟨disk', hrest, h'⟩ := ih h₁ fun w hw => hvs w (by simp [hw])
    exact ⟨disk', by rw [List.foldlM_cons, hfirst, ok_bind, hrest], h'⟩

/-- Whatever the tool is called with, and however its machine fails it, files that `run`
accepts stay complete: no call stops at an assertion or overflows, and `run` succeeds
exactly on the files that a `generate` has finished. -/
theorem session_safe (h : disk.Made) {vs : List Invocation} (hvs : ∀ v ∈ vs, v.InRange) :
    ∃ disk', vs.foldlM Invocation.after disk = .ok disk' ∧ disk'.Made ∧
      ∀ v : Invocation, v.InRange → ∃ o, runCli v disk' = .ok o ∧
        (∀ r, o = some r → r.Proper) ∧
        (o = none → ∃ args a, v.args = "generate" :: args ∧ runGenerateArgs args = .ok a ∧
          v.host.reserves a.ops = false) ∧
        ∀ path, v.args = ["run", path] → ∃ r, o = some r ∧ r.file = none ∧
          (r.exitCode = kExitOk ∨ r.exitCode = kExitRuntime) ∧
          (r.exitCode = kExitOk ↔ ∃ bytes cfg cmds g, disk' path = some bytes ∧
            Complete bytes cfg cmds g) := by
  obtain ⟨disk', hsession, h'⟩ := Disk.Made.session vs h hvs
  refine ⟨disk', hsession, h', fun v hv => ?_⟩
  obtain ⟨o, hrun, hend, hthrown⟩ := h'.runCli hv
  refine ⟨o, hrun, fun r ho => (hend r ho).proper, hthrown, fun path hargs => ?_⟩
  obtain ⟨r, hfile, -, hcode⟩ := h'.replayFile v path
  have hsame : runCli v disk' = .ok (some r) := by
    rw [runCli, hargs]
    simp only [hfile, ok_bind]
    rfl
  obtain rfl := Except.ok.inj (hsame.symm.trans hrun)
  exact ⟨r, rfl, replayFile_file hfile, hcode⟩

/-- A write that the machine cuts short, and a `run` of what it left. -/
theorem session_safe_small : ∃ (disk₁ : Disk) (r : ToolRun),
    [(⟨false, ⟨fun _ => true, fun _ => some 50⟩, 0, ["generate", "--out", "f", "--ops", "2"]⟩ :
      Invocation)].foldlM Invocation.after (fun _ => none) = .ok disk₁ ∧ disk₁.Made ∧
    (disk₁ "f").map List.length = some 50 ∧
    runCli ⟨true, ⟨fun _ => true, fun _ => some 50⟩, 0, ["run", "f"]⟩ disk₁ = .ok (some r) ∧
    r.exitCode = kExitRuntime ∧ r.err ≠ "" := by
  have hargs : runGenerateArgs ["--out", "f", "--ops", "2"] =
      .ok { outPath := "f", ops := 2 } := by decide
  obtain ⟨disk₁, hsession, hmade, hcalls⟩ := @session_safe (fun _ => none)
    (fun path bytes h => (by cases h)) [⟨false, ⟨fun _ => true, fun _ => some 50⟩, 0,
      ["generate", "--out", "f", "--ops", "2"]⟩] fun v hv args a hcli ha => by
      obtain rfl := List.mem_singleton.mp hv
      obtain rfl := (List.cons.inj hcli).2
      obtain rfl := Except.ok.inj (hargs.symm.trans ha)
      decide
  obtain ⟨o, hrun, hproper, -, hpath⟩ := hcalls
    ⟨true, ⟨fun _ => true, fun _ => some 50⟩, 0, ["run", "f"]⟩
    fun args a hcli => absurd (List.cons.inj hcli).1 (by decide)
  obtain ⟨r, rfl, -, hcode, hok⟩ := hpath "f" rfl
  -- what the first call has left of its file
  have hleft : (disk₁ "f").map List.length = some 50 := by
    obtain ⟨cmds, g, o, hc, -, hgen, hwrote⟩ := runGenerate_wrote hargs (by decide) false
      ⟨fun _ => true, fun _ => some 50⟩
    obtain ⟨hheader, hbody⟩ := length_image 0 ({ outPath := "f", ops := 2 } : GenerateArgs).cfg cmds
    have hafter : o.elim (fun _ => none) (Disk.write (fun _ => none)) = disk₁ := by
      rw [List.foldlM_cons, Invocation.after, runCli] at hsession
      simp only [hgen] at hsession
      cases o <;> exact Except.ok.inj hsession
    rw [← hafter]
    cases hwrote with
    | thrown full => cases full
    | unopened closed => cases closed
    | cut opened small =>
      cases opened
      rw [Option.elim_some, Disk.write_some rfl, Function.update_self, Option.map_some,
        List.length_take, min_eq_left small.le]
    | full opened fits =>
      cases opened
      rw [writeReplay, replayImage, List.length_append, hheader] at fits
      omega
  have hcut : r.exitCode ≠ kExitOk := fun h => by
    obtain ⟨bytes, cfg, cmds, g, hbytes, hc⟩ := hok.mp h
    obtain ⟨hheader, -⟩ := length_image 0 cfg cmds
    rw [hbytes, hc.written, Option.map_some, writeReplay, replayImage, List.length_append,
      hheader] at hleft
    have := Option.some.inj hleft
    omega
  exact ⟨disk₁, r, hsession, hmade, hleft, hrun, hcode.resolve_left hcut,
    fun h => hcut ((hproper r rfl).silent.mpr h)⟩

/-- How the counts that `generate` prints and those that `run` prints go together. -/
structure CountsAgree (c : WorkloadCounts) (engine : MatchingEngine) : Prop where
  adds : engine.stats.accepted.toNat + engine.stats.rejected.toNat =
    c.limits.toNat + c.markets.toNat + c.iocs.toNat
  unknown : engine.stats.rejectedUnknownOrder = 0
  canceled : c.cancels.toNat ≤ engine.stats.canceled.toNat ∧
    engine.stats.canceled.toNat ≤ c.cancels.toNat + c.markets.toNat + c.iocs.toNat
  openOrders : engine.book.openOrders.toNat + engine.stats.canceled.toNat ≤
    engine.stats.accepted.toNat

theorem leftOpenOrders_le (cmds : List Command) : ∀ batches : List (List Event),
    leftOpenOrders cmds batches ≤
      cmds.countP (Command.isNew .kMarket) + cmds.countP (Command.isNew .kIoc) := by
  induction cmds with
  | nil => exact fun batches => Nat.zero_le _
  | cons cmd cmds ih =>
    intro batches
    cases batches with
    | nil => exact Nat.zero_le _
    | cons events batches =>
      have hrest := ih batches
      have hone : leftOpen cmd events ≤
          (if cmd.isNew .kMarket then 1 else 0) + (if cmd.isNew .kIoc then 1 else 0) := by
        unfold leftOpen Command.isNew
        split_ifs <;> simp_all
      rw [leftOpenOrders, List.zip_cons_cons, tally_cons, List.countP_cons, List.countP_cons]
      rw [leftOpenOrders] at hrest
      dsimp only
      omega

theorem tally_cancels {cmds : List Command} (hk : ∀ cmd ∈ cmds, cmd.Known) :
    tally Command.cancels cmds = cmds.countP Command.isCancel ∧
      tally Command.news cmds + tally Command.cancels cmds = cmds.length := by
  induction cmds with
  | nil => exact ⟨rfl, rfl⟩
  | cons cmd cmds ih =>
    obtain ⟨hcancels, hall⟩ := ih fun c hc => hk c (by simp [hc])
    have hne : CommandType.kNew ≠ .kCancel := by decide
    rw [tally_cons, tally_cons, List.countP_cons, List.length_cons, hcancels]
    rcases hk cmd (by simp) with h | h
    · simp only [Command.cancels, Command.news, Command.isCancel, h, if_true, hne]
      simp
      omega
    · simp only [Command.cancels, Command.news, Command.isCancel, h, hne.symm, if_false]
      simp
      omega

theorem Shadows.countsAgree {cfg : WorkloadConfig} {cmds : List Command}
    {g : WorkloadGenerator UInt64} (h : Shadows cfg cmds g) (hcount : cmds.length < 2 ^ 64) :
    CountsAgree g.counts g.engine := by
  obtain ⟨hvalid, hd, hcounted, e₀, ndebug, batches, hnew, hrun, hbenign⟩ := h
  have hknown : ∀ cmd ∈ cmds, cmd.Known := fun cmd hcmd => (hd cmd hcmd).1
  obtain ⟨-, -, hbatches, hrep⟩ := MatchingEngine.processAll_any hvalid hnew hd hrun ndebug
  obtain ⟨e₁, hnew₁, hrep₁⟩ := MatchingEngine.new_rep hvalid
  have hbal := BookRep.run_balance cmds hrep₁ hd
  rw [← hbatches] at hbal
  obtain ⟨hrejected, hnews, hcancels, -, -, horders, -⟩ := hbal
  have hrefused : ∀ w : Event → Nat, (∀ ev, ev.reason = .kPoolExhausted → w ev = 0) →
      tally (Event.weigh .kRejected w) batches.flatten = 0 := fun w hw =>
    tally_eq_zero fun ev hev => by
      unfold Event.weigh
      split
      · exact hw ev (hbenign ev hev ‹_›)
      · rfl
  have hunknown : tally (Event.refused .kUnknownOrder) batches.flatten = 0 :=
    hrefused _ fun ev hr => by rw [hr]; rfl
  have hinvalid : tally Event.invalid batches.flatten = 0 :=
    hrefused _ fun ev hr => by rw [hr]; rfl
  have hzero : e₀.stats = {} := by
    obtain ⟨book, -, he⟩ := bind_eq_ok.mp hnew
    cases he
    rfl
  have hstats := MatchingEngine.processAll_stats cmds hknown hrun
  rw [hzero] at hstats
  have hcounter : ∀ {counter : EngineStats → UInt64} {n : Nat},
      counter (EngineStats.bump {} cmds batches.flatten) = 0 + UInt64.ofNat n → n < 2 ^ 64 →
      (counter g.engine.stats).toNat = n := fun h hn => by
    rw [hstats]
    exact counter_exact h hn
  obtain ⟨hisCancel, hall⟩ := tally_cancels hknown
  have hleft := leftOpenOrders_le cmds batches
  have hcountAll := hcounted.all
  have hopen := hrep.openOrders_rep
  have hempty : (QueueBook.new cfg.engine.poolCapacity).resting = [] := rfl
  rw [hempty, List.length_nil] at horders
  have h₁ := @hcounter EngineStats.accepted _ rfl (by omega)
  have h₂ := @hcounter EngineStats.rejected _ rfl (by omega)
  have h₃ := @hcounter EngineStats.rejectedUnknownOrder _ rfl (by omega)
  have h₄ := @hcounter EngineStats.canceled _ rfl (by omega)
  have h₅ := counter_exact hcounted.limits (by omega)
  have h₆ := counter_exact hcounted.markets (by omega)
  have h₇ := counter_exact hcounted.iocs (by omega)
  have h₈ := counter_exact hcounted.cancels (by omega)
  refine ⟨by omega, ?_, by omega, by omega⟩
  exact UInt64.toNat_inj.mp (h₃.trans hunknown)

/-- A file that `generate` has written gives the same summary whenever `run` is called
later, in any build and after any other calls: that of the engine the generator kept,
which agrees with the counts that `generate` printed. On a made disk those calls end. -/
theorem generate_then_run (disk : Disk) {v : Invocation} {args : List String} {a : GenerateArgs}
    (hargs : v.args = "generate" :: args) (ha : runGenerateArgs args = .ok a)
    (hfit : a.cfg.engine.anchorPrice.toInt + a.cfg.engine.bandRadius.toNat + 256 ≤ 2 ^ 63 - 1)
    (hres : v.host.reserves a.ops = true) {room : Nat} (hroom : v.host.room a.outPath = some room)
    (hsize : 96 + 24 * a.ops.toNat ≤ room) :
    ∃ (r : ToolRun) (g : WorkloadGenerator UInt64), runCli v disk = .ok (some r) ∧
      r.exitCode = kExitOk ∧
      r.out = generateReport a g.counts ∧ CountsAgree g.counts g.engine ∧
      (∀ (vs : List Invocation) disk', (∀ w ∈ vs, ¬ w.Targets a.outPath) →
        vs.foldlM Invocation.after (disk.write r) = .ok disk' →
          ∀ w : Invocation, w.args = ["run", a.outPath] → ∃ bid ask,
            g.engine.book.bestBid = .ok bid ∧ g.engine.book.bestAsk = .ok ask ∧
            runCli w disk' = .ok (some {
              exitCode := kExitOk
              out := replayReport a.outPath a.cfg a.ops w.us g.engine bid ask })) ∧
      (disk.Made → ∀ vs : List Invocation, (∀ w ∈ vs, w.InRange) →
        ∃ disk', vs.foldlM Invocation.after (disk.write r) = .ok disk') := by
  obtain ⟨cmds, g, o, hc, hlen, hrun, hwrote⟩ := runGenerate_wrote ha hfit v.ndebug v.host
  have hcli : runCli v disk = .ok o := by
    rw [runCli, hargs]
    exact hrun
  obtain ⟨hheader, hbody⟩ := length_image 0 a.cfg cmds
  cases hwrote with
  | thrown full => exact absurd (full.symm.trans hres) (by decide)
  | unopened closed => cases closed.symm.trans hroom
  | cut opened small =>
    cases opened.symm.trans hroom
    rw [writeReplay, replayImage, List.length_append, hheader, hbody, hlen] at small
    omega
  | full opened fits =>
    refine ⟨_, g, hcli, rfl, rfl, hc.shadows.countsAgree hc.count, fun vs disk' hvs hsession => ?_,
      fun h vs hvs => ?_⟩
    · have hfile : disk' a.outPath = some (writeReplay a.cfg cmds) := by
        rw [session_keeps vs hvs hsession]
        exact Function.update_self ..
      intro w hw
      obtain ⟨bid, ask, hbid, hask, hreplay⟩ := hc.replayFile w.ndebug w.us a.outPath
      refine ⟨bid, ask, hbid, hask, ?_⟩
      rw [runCli, hw]
      simp only [hfile, hreplay, ok_bind, hlen, UInt64.ofNat_toNat]
      rfl
    · have hv : v.InRange := fun args' a' hargs' ha' => by
        obtain rfl := (List.cons.inj (hargs'.symm.trans hargs)).2
        obtain rfl := Except.ok.inj (ha'.symm.trans ha)
        exact hfit
      obtain ⟨disk₁, hafter, hmade⟩ := h.after hv
      rw [Invocation.after, hcli] at hafter
      cases hafter
      obtain ⟨disk', hrest, -⟩ := Disk.Made.session vs hmade hvs
      exact ⟨disk', hrest⟩

/-- Between the two calls the file is read once, and the writing of another is cut short. -/
theorem generate_then_run_small : ∃ (r : ToolRun) (g : WorkloadGenerator UInt64) (disk : Disk)
    (bid ask : Option PriceTicks),
    runCli ⟨false, ⟨fun _ => true, fun _ => some 1000⟩, 0,
      ["generate", "--out", "f", "--ops", "2"]⟩ (fun _ => none) = .ok (some r) ∧
    r.exitCode = kExitOk ∧ CountsAgree g.counts g.engine ∧
    [(⟨true, ⟨fun _ => true, fun _ => some 1000⟩, 5, ["run", "f"]⟩ : Invocation),
      ⟨true, ⟨fun _ => true, fun _ => some 50⟩, 0, ["generate", "--out", "g"]⟩].foldlM
        Invocation.after (Disk.write (fun _ => none) r) = .ok disk ∧
    runCli ⟨true, ⟨fun _ => true, fun _ => some 1000⟩, 7, ["run", "f"]⟩ disk = .ok (some {
      exitCode := kExitOk
      out := replayReport "f" { engine := { anchorPrice := 10000 } } 2 7 g.engine bid ask }) := by
  have hargs : runGenerateArgs ["--out", "f", "--ops", "2"] =
      .ok { outPath := "f", ops := 2 } := by decide
  have hargs' : runGenerateArgs ["--out", "g"] = .ok { outPath := "g" } := by decide
  obtain ⟨r, g, hcli, hcode, -, hagree, hlater, hends⟩ := generate_then_run (fun _ => none)
    (v := ⟨false, ⟨fun _ => true, fun _ => some 1000⟩, 0, ["generate", "--out", "f", "--ops", "2"]⟩)
    rfl hargs (by decide) rfl rfl (show _ ≤ 1000 by decide)
  obtain ⟨disk', hsession⟩ := hends (fun path bytes h => (by cases h))
    [⟨true, ⟨fun _ => true, fun _ => some 1000⟩, 5, ["run", "f"]⟩,
      ⟨true, ⟨fun _ => true, fun _ => some 50⟩, 0, ["generate", "--out", "g"]⟩]
    fun w hw args a hcli ha => by
      simp only [List.mem_cons, List.not_mem_nil, or_false] at hw
      rcases hw with rfl | rfl
      · exact absurd (List.cons.inj hcli).1 (by decide)
      · obtain rfl := (List.cons.inj hcli).2
        obtain rfl := Except.ok.inj (hargs'.symm.trans ha)
        decide
  have hother : ∀ w ∈ [(⟨true, ⟨fun _ => true, fun _ => some 1000⟩, 5, ["run", "f"]⟩ : Invocation),
      ⟨true, ⟨fun _ => true, fun _ => some 50⟩, 0, ["generate", "--out", "g"]⟩],
      ¬ w.Targets "f" := by
    rintro w hw ⟨args, hcli, hout⟩
    simp only [List.mem_cons, List.not_mem_nil, or_false] at hw
    rcases hw with rfl | rfl
    · exact absurd (List.cons.inj hcli).1 (by decide)
    · obtain rfl := (List.cons.inj hcli).2
      exact absurd hout (by decide)
  obtain ⟨bid, ask, -, -, hrun⟩ := hlater _ disk' hother hsession
    ⟨true, ⟨fun _ => true, fun _ => some 1000⟩, 7, ["run", "f"]⟩ rfl
  exact ⟨r, g, disk', bid, ask, hcli, hcode, hagree, hsession, hrun⟩

end LimitOrderBook
