import LimitOrderBook.ReplayFormat
import LimitOrderBook.ReplayTool
import LimitOrderBook.WorkloadRun
import LimitOrderBook.Lib.LastWrite

set_option autoImplicit false

namespace LimitOrderBook
open Checked MemoryImage LastWrite

def kExitOk : Nat := 0
def kExitRuntime : Nat := 1
def kExitUsage : Nat := 2

/-- What the tool runs on: whether a vector can be reserved for so many commands, and
how many bytes the file of a name takes, `none` if it cannot be opened. -/
structure Host where
  reserves : UInt64 → Bool
  room : String → Option Nat

/-- What a run of the tool returns, prints and writes. -/
structure ToolRun where
  exitCode : Nat
  out : String := ""
  err : String := ""
  file : Option (String × Bytes) := none
  deriving DecidableEq, Repr

def generateReport (a : GenerateArgs) (c : WorkloadCounts) : String :=
  "wrote " ++ a.outPath ++ ": " ++ toString a.ops ++ " commands (seed " ++ toString a.cfg.seed ++
    ", anchor " ++ toString a.cfg.engine.anchorPrice ++ ", band " ++
    toString a.cfg.engine.bandRadius ++ ", pool " ++ toString a.cfg.engine.poolCapacity ++ ")\n" ++
    "  mix: " ++ toString c.limits ++ " limits, " ++ toString c.markets ++ " markets, " ++
    toString c.iocs ++ " iocs, " ++ toString c.cancels ++ " cancels (" ++
    toString c.degradedCancels ++ " degraded)\n"

/-- `none` when the reservation throws: nothing in the tool catches that. -/
def runGenerate (ndebug : Bool) (host : Host) (args : List String) : Exec (Option ToolRun) :=
  match runGenerateArgs args with
  | .error text => pure (some { exitCode := kExitUsage, err := text })
  | .ok a => do
    let g ← WorkloadGenerator.new a.cfg a.cfg.seed
    if ¬ host.reserves a.ops then pure none
    else
      let (cmds, g) ← g.take nextU64 ndebug a.ops.toNat
      match host.room a.outPath with
      | none => pure (some {
          exitCode := kExitRuntime
          err := "error: cannot open '" ++ a.outPath ++ "' for writing\n" })
      | some room =>
        let bytes := writeReplay a.cfg cmds
        if room < bytes.length then pure (some {
          exitCode := kExitRuntime
          err := "error: write to '" ++ a.outPath ++ "' failed\n"
          file := some (a.outPath, bytes.take room) })
        else pure (some {
          exitCode := kExitOk
          out := generateReport a g.counts
          file := some (a.outPath, bytes) })

/-! The arguments as they are meant. -/

def flagPairs : List String → List (String × String)
  | flag :: value :: rest => (flag, value) :: flagPairs rest
  | _ => []

def numberFlags : List String := ["--ops", "--seed", "--anchor", "--band", "--pool"]

def IsNumeral (s : String) : Prop := s.toList ≠ [] ∧ s.toList.all Char.isDigit

instance (s : String) : Decidable (IsNumeral s) := inferInstanceAs (Decidable (_ ∧ _))

def decimalValue (s : String) : Nat :=
  s.toList.foldl (fun n c => 10 * n + (c.toNat - '0'.toNat)) 0

def numberGiven (args : List String) (flag : String) (default : Nat) : Nat :=
  (lastValue flag (flagPairs args)).elim default decimalValue

def fieldMax (flag : String) : Nat :=
  if flag = "--anchor" then 2 ^ 63 - 1
  else if flag = "--band" ∨ flag = "--pool" then 2 ^ 32 - 1
  else 2 ^ 64 - 1

def ValuesFit (args : List String) : Prop :=
  ∀ p ∈ flagPairs args, p.1 ∈ numberFlags → IsNumeral p.2 ∧ decimalValue p.2 ≤ fieldMax p.1

/-- The configuration and the number of commands are the numbers given. -/
structure UsesNumbers (args : List String) (cfg : WorkloadConfig) (count : Nat) : Prop where
  seed : cfg.seed.toNat = numberGiven args "--seed" 1
  anchor : cfg.engine.anchorPrice.toInt = numberGiven args "--anchor" 10000
  band : cfg.engine.bandRadius.toNat = numberGiven args "--band" 4096
  pool : cfg.engine.poolCapacity.toNat = numberGiven args "--pool" (2 ^ 20)
  walk : lastValue "--band" (flagPairs args) ≠ none → cfg.walkRadius = cfg.engine.bandRadius
  ops : count = numberGiven args "--ops" 100000

/-- The tool generates and writes what it was asked for, or refuses. -/
structure ExactOrRefused (ndebug : Bool) (host : Host) (args : List String) : Prop where
  exact : ∀ r, runGenerate ndebug host args = .ok (some r) → r.exitCode = kExitOk →
    ∃ cfg cmds g path, generateWorkload nextU64 ndebug cfg cfg.seed cmds.length = .ok (cmds, g) ∧
      r.file = some (path, writeReplay cfg cmds) ∧
      readReplay (writeReplay cfg cmds) = { config := cfg, commands := cmds } ∧
      UsesNumbers args cfg cmds.length
  refused : ∀ p ∈ flagPairs args, p.1 ∈ numberFlags →
    ¬ (IsNumeral p.2 ∧ decimalValue p.2 ≤ fieldMax p.1) →
    ∃ r, runGenerate ndebug host args = .ok (some r) ∧ r.exitCode = kExitUsage ∧ r.file = none

/-- The arguments that pass the checks of the tool: a band and a pool are checked by
what is left of them in 32 bits. -/
structure PassesChecks (args : List String) : Prop where
  complete : args.length % 2 = 0
  known : ∀ p ∈ flagPairs args,
    p.1 = "--out" ∨ p.1 ∈ numberFlags ∧ IsNumeral p.2 ∧ decimalValue p.2 < 2 ^ 64
  out : ∃ path, lastValue "--out" (flagPairs args) = some path ∧ path ≠ ""
  anchor : 1 ≤ numberGiven args "--anchor" 10000 ∧ numberGiven args "--anchor" 10000 < 2 ^ 63
  band : 1 ≤ numberGiven args "--band" 4096 % 2 ^ 32 ∧
    numberGiven args "--band" 4096 % 2 ^ 32 ≤ 2 ^ 20
  pool : 1 ≤ numberGiven args "--pool" (2 ^ 20) % 2 ^ 32 ∧
    numberGiven args "--pool" (2 ^ 20) % 2 ^ 32 ≤ 2 ^ 24

theorem parseU64_eq_some {s : String} {n : UInt64} : parseU64 s = some n ↔
    (IsNumeral s ∧ decimalValue s < 2 ^ 64) ∧ n = UInt64.ofNat (decimalValue s) := by
  unfold parseU64 IsNumeral decimalValue
  by_cases hs : s.toList = [] ∨ ¬ s.toList.all Char.isDigit
  · rw [if_pos hs]
    refine iff_of_false (by simp) fun h => ?_
    rcases hs with he | hd
    · exact h.1.1.1 he
    · exact hd h.1.1.2
  · rw [if_neg hs]
    obtain ⟨hne, hdigits⟩ := not_or.mp hs
    simp only [Option.ite_none_right_eq_some, Option.some.injEq]
    exact ⟨fun h => ⟨⟨⟨hne, not_not.mp hdigits⟩, h.1⟩, h.2.symm⟩, fun h => ⟨h.1.2, h.2.symm⟩⟩

namespace GenerateArgs

def assign (a : GenerateArgs) (p : String × String) : GenerateArgs :=
  if p.1 = "--out" then { a with outPath := p.2 }
  else
    match a.setFlag p.1 (UInt64.ofNat (decimalValue p.2)) with
    | .ok a => a
    | .error _ => a

theorem setFlag_ok {a a' : GenerateArgs} {flag : String} {parsed : UInt64}
    (h : a.setFlag flag parsed = .ok a') : flag ∈ numberFlags := by
  unfold setFlag at h
  by_contra hflag
  simp only [numberFlags, List.mem_cons, List.not_mem_nil, or_false, not_or] at hflag
  obtain ⟨h₁, h₂, h₃, h₄, h₅⟩ := hflag
  rw [if_neg h₁, if_neg h₂, if_neg h₃, if_neg h₄, if_neg h₅] at h
  cases h

theorem setFlag_assign (a : GenerateArgs) {p : String × String} (h : p.1 ∈ numberFlags) :
    a.setFlag p.1 (UInt64.ofNat (decimalValue p.2)) = .ok (a.assign p) := by
  have hout : p.1 ≠ "--out" := fun e => by
    rw [e] at h
    exact absurd h (by decide)
  have hok : ∃ a', a.setFlag p.1 (UInt64.ofNat (decimalValue p.2)) = .ok a' := by
    simp only [numberFlags, List.mem_cons, List.not_mem_nil, or_false] at h
    rcases h with h | h | h | h | h <;> rw [h] <;> exact ⟨_, rfl⟩
  obtain ⟨a', ha'⟩ := hok
  rw [assign, if_neg hout, ha']

/-- The loop reads every pair, or stops at one it cannot read. -/
theorem parseFlags_iff (args : List String) : ∀ {a a' : GenerateArgs},
    parseFlags a args = .ok a' ↔ args.length % 2 = 0 ∧
      (∀ p ∈ flagPairs args,
        p.1 = "--out" ∨ p.1 ∈ numberFlags ∧ IsNumeral p.2 ∧ decimalValue p.2 < 2 ^ 64) ∧
      a' = (flagPairs args).foldl assign a := by
  induction args using List.twoStepInduction with
  | nil =>
    intro a a'
    simp [parseFlags, flagPairs, eq_comm]
  | singleton flag =>
    intro a a'
    simp [parseFlags]
  | cons_cons flag value rest ih _ =>
    intro a a'
    have hlen : (flag :: value :: rest).length % 2 = rest.length % 2 := by
      simp only [List.length_cons]
      omega
    rw [hlen, flagPairs, List.forall_mem_cons, List.foldl_cons, parseFlags]
    by_cases hout : flag = "--out"
    · rw [if_pos hout, ih, assign, if_pos hout]
      simp [hout]
    · rw [if_neg hout]
      simp only [hout, false_or]
      cases hparse : parseU64 value with
      | none =>
        refine iff_of_false (by simp) fun h => ?_
        have := parseU64_eq_some.mpr ⟨h.2.1.1.2, rfl⟩
        rw [hparse] at this
        cases this
      | some n =>
        obtain ⟨hvalue, rfl⟩ := parseU64_eq_some.mp hparse
        by_cases hflag : flag ∈ numberFlags
        · have hset := setFlag_assign a (p := (flag, value)) hflag
          simp only [hset, bind, Except.bind, ih, hflag, hvalue, true_and, and_self]
        · refine iff_of_false (fun h => ?_) fun h => hflag h.2.1.1.1
          cases hset : a.setFlag flag (UInt64.ofNat (decimalValue value)) with
          | ok a₁ => exact hflag (setFlag_ok hset)
          | error e =>
            simp only [hset] at h
            cases h

variable {args : List String}

section
variable (a : GenerateArgs) (p : String × String)

/-! Each field is written by its own flag only. -/

theorem assign_outPath :
    (a.assign p).outPath = if p.1 = "--out" then p.2 else a.outPath := by
  unfold assign setFlag
  split_ifs <;> simp_all

theorem assign_ops :
    (a.assign p).ops = if p.1 = "--ops" then UInt64.ofNat (decimalValue p.2) else a.ops := by
  unfold assign setFlag
  split_ifs <;> simp_all

theorem assign_seed : (a.assign p).cfg.seed =
    if p.1 = "--seed" then UInt64.ofNat (decimalValue p.2) else a.cfg.seed := by
  unfold assign setFlag
  split_ifs <;> simp_all

theorem assign_anchor : (a.assign p).cfg.engine.anchorPrice =
    if p.1 = "--anchor" then (UInt64.ofNat (decimalValue p.2)).toInt64
    else a.cfg.engine.anchorPrice := by
  unfold assign setFlag
  split_ifs <;> simp_all

theorem assign_band : (a.assign p).cfg.engine.bandRadius =
    if p.1 = "--band" then (UInt64.ofNat (decimalValue p.2)).toUInt32
    else a.cfg.engine.bandRadius := by
  unfold assign setFlag
  split_ifs <;> simp_all

theorem assign_pool : (a.assign p).cfg.engine.poolCapacity =
    if p.1 = "--pool" then (UInt64.ofNat (decimalValue p.2)).toUInt32
    else a.cfg.engine.poolCapacity := by
  unfold assign setFlag
  split_ifs <;> simp_all

end

end GenerateArgs

theorem ofNat_pos_iff {n : Nat} (h : n < 2 ^ 64) :
    0 < (Int64.ofNat n).toInt ↔ 1 ≤ n ∧ n < 2 ^ 63 := by
  rw [Int64.toInt_ofNat', Int.bmod_def, show Int64.size = 2 ^ 64 from rfl]
  split <;> omega

/-- What the loop of `run_generate` has read from the arguments. -/
structure HasRead (args : List String) (a : GenerateArgs) : Prop where
  outPath : a.outPath = (lastValue "--out" (flagPairs args)).elim "" id
  ops : a.ops.toNat = numberGiven args "--ops" 100000
  seed : a.cfg.seed.toNat = numberGiven args "--seed" 1
  anchor : a.cfg.engine.anchorPrice = Int64.ofNat (numberGiven args "--anchor" 10000)
  anchorLt : numberGiven args "--anchor" 10000 < 2 ^ 64
  band : a.cfg.engine.bandRadius.toNat = numberGiven args "--band" 4096 % 2 ^ 32
  pool : a.cfg.engine.poolCapacity.toNat = numberGiven args "--pool" (2 ^ 20) % 2 ^ 32

theorem numberGiven_le {args : List String} {flag : String} {default m : Nat}
    (h : ∀ p ∈ flagPairs args, p.1 = flag → decimalValue p.2 ≤ m) (hdefault : default ≤ m) :
    numberGiven args flag default ≤ m := by
  unfold numberGiven
  cases hlast : lastValue flag (flagPairs args) with
  | none => exact hdefault
  | some v => exact h _ (lastValue_mem hlast) rfl

theorem numberGiven_lt {args : List String} {flag : String} {default : Nat}
    (hknown : ∀ p ∈ flagPairs args,
      p.1 = "--out" ∨ p.1 ∈ numberFlags ∧ IsNumeral p.2 ∧ decimalValue p.2 < 2 ^ 64)
    (hflag : flag ≠ "--out") (hdefault : default < 2 ^ 64) :
    numberGiven args flag default < 2 ^ 64 := by
  refine Nat.lt_of_le_pred (by decide) (numberGiven_le (fun p hp he => ?_)
    (Nat.le_pred_of_lt hdefault))
  rcases hknown p hp with hout | hnumber
  · exact absurd (he.symm.trans hout) hflag
  · exact Nat.le_pred_of_lt hnumber.2.2

theorem hasRead {args : List String} {a : GenerateArgs}
    (h : GenerateArgs.parseFlags {} args = .ok a) : HasRead args a := by
  obtain ⟨-, hknown, rfl⟩ := (GenerateArgs.parseFlags_iff args).mp h
  have hlt : ∀ {flag : String} {default : Nat}, flag ≠ "--out" → default < 2 ^ 64 →
      numberGiven args flag default < 2 ^ 64 := fun hf hd => numberGiven_lt hknown hf hd
  -- each field is the last number given for its flag, narrowed
  have hfield : ∀ {β : Type} (field : GenerateArgs → β) {flag : String} (narrow : UInt64 → β)
      (default : Nat), (∀ a p, field (a.assign p) =
        if p.1 = flag then narrow (UInt64.ofNat (decimalValue p.2)) else field a) →
      field {} = narrow (UInt64.ofNat default) →
      field ((flagPairs args).foldl GenerateArgs.assign {}) =
        narrow (UInt64.ofNat (numberGiven args flag default)) := by
    intro β field flag narrow default hassign hdefault
    rw [foldl_field (fun v => narrow (UInt64.ofNat (decimalValue v))) hassign,
      numberGiven]
    cases lastValue flag (flagPairs args) with
    | none => exact hdefault
    | some v => rfl
  have hexact : ∀ {n : Nat}, n < 2 ^ 64 → (UInt64.ofNat n).toNat = n := fun hn => by
    rw [UInt64.toNat_ofNat', Nat.mod_eq_of_lt hn]
  have hnarrow : ∀ {n : Nat}, n < 2 ^ 64 → (UInt64.ofNat n).toUInt32.toNat = n % 2 ^ 32 :=
    fun hn => by rw [UInt64.toNat_toUInt32, hexact hn]
  refine ⟨foldl_field id GenerateArgs.assign_outPath _ _, ?_, ?_, ?_, hlt (by decide) (by decide),
    ?_, ?_⟩
  · rw [hfield GenerateArgs.ops id 100000 GenerateArgs.assign_ops rfl]
    exact hexact (hlt (by decide) (by decide))
  · rw [hfield (·.cfg.seed) id 1 GenerateArgs.assign_seed rfl]
    exact hexact (hlt (by decide) (by decide))
  · exact hfield (·.cfg.engine.anchorPrice) UInt64.toInt64 10000 GenerateArgs.assign_anchor rfl
  · rw [hfield (·.cfg.engine.bandRadius) UInt64.toUInt32 4096 GenerateArgs.assign_band rfl]
    exact hnarrow (hlt (by decide) (by decide))
  · rw [hfield (·.cfg.engine.poolCapacity) UInt64.toUInt32 (2 ^ 20) GenerateArgs.assign_pool rfl]
    exact hnarrow (hlt (by decide) (by decide))

/-- The checks pass the arguments just described. -/
theorem runGenerateArgs_passes {args : List String} {a : GenerateArgs}
    (h : runGenerateArgs args = .ok a) : PassesChecks args ∧ HasRead args a := by
  obtain ⟨-, hvalid⟩ := runGenerateArgs_config h
  unfold runGenerateArgs at h
  cases hparse : GenerateArgs.parseFlags {} args with
  | error e =>
    rw [hparse] at h
    cases h
  | ok a₁ =>
    rw [hparse] at h
    simp only [bind, Except.bind] at h
    split at h
    · cases h
    · rename_i hpath
      split at h
      · cases h
      · cases h
        have hread := hasRead hparse
        obtain ⟨hlen, hknown, -⟩ := (GenerateArgs.parseFlags_iff args).mp hparse
        obtain ⟨hanchor, hband, hpool⟩ := validateEngineConfig_iff.mp hvalid
        rw [hread.anchor, ofNat_pos_iff hread.anchorLt] at hanchor
        rw [hread.band] at hband
        rw [hread.pool] at hpool
        refine ⟨⟨hlen, hknown, ?_, hanchor, hband, hpool⟩, hread⟩
        rw [hread.outPath] at hpath
        cases hout : lastValue "--out" (flagPairs args) with
        | none =>
          rw [hout] at hpath
          exact absurd rfl hpath
        | some path =>
          rw [hout] at hpath
          exact ⟨path, rfl, hpath⟩

theorem PassesChecks.runGenerateArgs {args : List String} (h : PassesChecks args) :
    ∃ a, runGenerateArgs args = .ok a := by
  have hparse := (GenerateArgs.parseFlags_iff args (a := {})).mpr ⟨h.complete, h.known, rfl⟩
  have hread := hasRead hparse
  generalize (flagPairs args).foldl GenerateArgs.assign {} = a at hparse hread
  refine ⟨a, ?_⟩
  obtain ⟨path, hlast, hpath⟩ := h.out
  have hout : a.outPath ≠ "" := by
    rw [hread.outPath, hlast]
    exact hpath
  have hvalid : validateEngineConfig a.cfg.engine = .ok () := by
    refine validateEngineConfig_iff.mpr ⟨?_, ?_, ?_⟩
    · rw [hread.anchor, ofNat_pos_iff hread.anchorLt]
      exact h.anchor
    · rw [hread.band]
      exact h.band
    · rw [hread.pool]
      exact h.pool
  rw [LimitOrderBook.runGenerateArgs, hparse]
  simp only [bind, Except.bind, if_neg hout, hvalid]

section
variable {ndebug : Bool} {host : Host} {args : List String}

theorem runGenerate_refused (h : ¬ PassesChecks args) :
    ∃ r, runGenerate ndebug host args = .ok (some r) ∧ r.exitCode = kExitUsage ∧
      r.file = none := by
  unfold runGenerate
  cases hargs : runGenerateArgs args with
  | error text => exact ⟨_, rfl, rfl, rfl⟩
  | ok a => exact absurd (runGenerateArgs_passes hargs).1 h

theorem runGenerate_passed {a : GenerateArgs} (h : runGenerateArgs args = .ok a) {r : ToolRun}
    (hrun : runGenerate ndebug host args = .ok (some r)) :
    r.exitCode = kExitRuntime ∨ r.exitCode = kExitOk ∧ ∃ cmds g,
      generateWorkload nextU64 ndebug a.cfg a.cfg.seed cmds.length = .ok (cmds, g) ∧
        r.file = some (a.outPath, writeReplay a.cfg cmds) ∧ cmds.length = a.ops.toNat := by
  rw [runGenerate, h] at hrun
  obtain ⟨g, hnew, hrun⟩ := bind_eq_ok.mp hrun
  split at hrun
  · cases hrun
  · obtain ⟨⟨cmds, g'⟩, htake, hrun⟩ := bind_eq_ok.mp hrun
    have hlen := WorkloadGenerator.take_length a.ops.toNat htake
    dsimp only at hrun
    split at hrun
    · cases hrun
      exact .inl rfl
    · split at hrun
      · cases hrun
        exact .inl rfl
      · cases hrun
        refine .inr ⟨rfl, cmds, g', ?_, rfl, hlen⟩
        rw [generateWorkload, hnew, ok_bind, hlen, htake]

theorem HasRead.usesNumbers {a : GenerateArgs} (h : HasRead args a) (hfit : ValuesFit args)
    (hpass : PassesChecks args) (hcfg : a.cfg.walkRadius = a.cfg.engine.bandRadius) :
    UsesNumbers args a.cfg a.ops.toNat := by
  have hle : ∀ {flag : String} {default : Nat}, flag ∈ numberFlags → default ≤ fieldMax flag →
      numberGiven args flag default ≤ fieldMax flag := fun hflag hdefault =>
    numberGiven_le (fun p hp he => he ▸ (hfit p hp (he ▸ hflag)).2) hdefault
  have hband : numberGiven args "--band" 4096 ≤ 2 ^ 32 - 1 := hle (by decide) (by decide)
  have hpool : numberGiven args "--pool" (2 ^ 20) ≤ 2 ^ 32 - 1 := hle (by decide) (by decide)
  refine ⟨h.seed, ?_, ?_, ?_, fun _ => hcfg, h.ops⟩
  · rw [h.anchor, WorkloadGenerator.ofNat_toInt hpass.anchor.2]
  · rw [h.band]
    omega
  · rw [h.pool]
    omega

theorem not_exactOrRefused (hpass : PassesChecks args) (hfit : ¬ ValuesFit args) :
    ¬ ExactOrRefused ndebug host args := by
  intro h
  refine hfit fun p hp hflag => ?_
  by_contra hbad
  obtain ⟨r, hrun, hcode, -⟩ := h.refused p hp hflag hbad
  obtain ⟨a, ha⟩ := hpass.runGenerateArgs
  rcases runGenerate_passed ha hrun with hruntime | ⟨hok, -⟩
  · exact absurd (hcode.symm.trans hruntime) (by decide)
  · exact absurd (hcode.symm.trans hok) (by decide)

end

/-- The tool narrows `--band` and `--pool` to 32 bits, and reads `--anchor` as a signed
number, before it checks the ranges: it does what it was asked for, or refuses, unless
the checks pass arguments among which a number does not fit its field. -/
theorem generate_exact_iff (ndebug : Bool) (host : Host) (args : List String) :
    ExactOrRefused ndebug host args ↔ (PassesChecks args → ValuesFit args) := by
  constructor
  · intro h hpass
    by_contra hfit
    exact not_exactOrRefused hpass hfit h
  · intro h
    refine ⟨fun r hrun hcode => ?_, fun p hp hflag hbad =>
      runGenerate_refused fun hpass => hbad (h hpass p hp hflag)⟩
    cases ha : runGenerateArgs args with
    | error text =>
      rw [runGenerate, ha] at hrun
      cases hrun
      exact absurd hcode (show kExitUsage ≠ kExitOk by decide)
    | ok a =>
      obtain ⟨hpass, hread⟩ := runGenerateArgs_passes ha
      have hcfg : a.cfg.walkRadius = a.cfg.engine.bandRadius := by
        rw [(runGenerateArgs_config ha).1]
        rfl
      rcases runGenerate_passed ha hrun with hruntime | ⟨-, cmds, g, hgen, hfile, hlen⟩
      · exact absurd (hcode.symm.trans hruntime) (by decide)
      · refine ⟨a.cfg, cmds, g, a.outPath, hgen, hfile, readReplay_image 0 a.cfg ?_,
          hlen ▸ hread.usesNumbers (h hpass) hpass hcfg⟩
        rw [hlen]
        exact a.ops.toNat_lt

/-- A band of `2 ^ 32 + 1` passes for a band of one. -/
theorem generate_narrows_band :
    ¬ ExactOrRefused false ⟨fun _ => true, fun _ => some 1000⟩
      ["--out", "x", "--band", "4294967297", "--pool", "1", "--ops", "0"] ∧
    ∃ r, runGenerate false ⟨fun _ => true, fun _ => some 1000⟩
        ["--out", "x", "--band", "4294967297", "--pool", "1", "--ops", "0"] = .ok (some r) ∧
      r.exitCode = kExitOk ∧ r.file = some ("x", writeReplay
        { engine := ⟨10000, 1, 1⟩, walkRadius := 1 } []) := by
  constructor
  · refine not_exactOrRefused ⟨by decide, by decide, ⟨"x", by decide⟩, by decide, by decide,
      by decide⟩ ?_
    unfold ValuesFit
    decide
  · have hargs : runGenerateArgs
        ["--out", "x", "--band", "4294967297", "--pool", "1", "--ops", "0"] =
        .ok ⟨"x", 0, { engine := ⟨10000, 1, 1⟩, walkRadius := 1 }⟩ := by decide
    have hc : WorkloadConfig.Accepted { engine := ⟨10000, 1, 1⟩, walkRadius := 1 } :=
      { engine := ⟨by decide, by decide, by decide⟩
        high := by decide
        qty := by decide
        crossOneIn := by decide
        walkOneIn := by decide
        maxWalkStep := by decide
        weight := by decide }
    obtain ⟨g, hnew, -⟩ := WorkloadGenerator.new_ok hc (by decide) (1 : UInt64)
    refine ⟨{
      exitCode := kExitOk
      out := generateReport ⟨"x", 0, { engine := ⟨10000, 1, 1⟩, walkRadius := 1 }⟩ g.counts
      file := some ("x", writeReplay { engine := ⟨10000, 1, 1⟩, walkRadius := 1 } []) },
      ?_, rfl, rfl⟩
    rw [runGenerate, hargs]
    simp only [hnew, ok_bind]
    rfl

end LimitOrderBook
