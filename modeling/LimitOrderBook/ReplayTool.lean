import LimitOrderBook.WorkloadGen

set_option autoImplicit false

namespace LimitOrderBook

def kMaxBandRadius : UInt32 := (1 : UInt32) <<< 20

def kMaxPoolCapacity : UInt32 := (1 : UInt32) <<< 24

/-- The error is the text of `why`. -/
def validateEngineConfig (cfg : EngineConfig) : Except String Unit :=
  if cfg.anchorPrice ≤ 0 then .error "anchor_price must be > 0"
  else if cfg.bandRadius = 0 ∨ kMaxBandRadius < cfg.bandRadius then
    .error ("band_radius out of range [1, " ++ toString kMaxBandRadius.toNat ++ "]")
  else if cfg.poolCapacity = 0 ∨ kMaxPoolCapacity < cfg.poolCapacity then
    .error ("pool_capacity out of range [1, " ++ toString kMaxPoolCapacity.toNat ++ "]")
  else .ok ()

/-- `std::from_chars` over the whole text: decimal digits, and a value of 64 bits. -/
def parseU64 (s : String) : Option UInt64 :=
  if s.toList = [] ∨ ¬ s.toList.all Char.isDigit then none
  else
    let n := s.toList.foldl (fun n c => 10 * n + (c.toNat - '0'.toNat)) 0
    if n < 2 ^ 64 then some (UInt64.ofNat n) else none

structure GenerateArgs where
  outPath : String := ""
  ops : UInt64 := 100000
  cfg : WorkloadConfig := { engine := { anchorPrice := 10000 } }
  deriving DecidableEq, Repr

namespace GenerateArgs

def setFlag (a : GenerateArgs) (flag : String) (parsed : UInt64) : Except String GenerateArgs :=
  if flag = "--ops" then .ok { a with ops := parsed }
  else if flag = "--seed" then .ok { a with cfg.seed := parsed }
  else if flag = "--anchor" then .ok { a with cfg.engine.anchorPrice := parsed.toInt64 }
  else if flag = "--band" then
    .ok { a with cfg.engine.bandRadius := parsed.toUInt32, cfg.walkRadius := parsed.toUInt32 }
  else if flag = "--pool" then .ok { a with cfg.engine.poolCapacity := parsed.toUInt32 }
  else .error ("error: unknown flag '" ++ flag ++ "'\n")

/-- The loop of `run_generate` over the arguments. -/
def parseFlags : GenerateArgs → List String → Except String GenerateArgs
  | a, [] => .ok a
  | _, [flag] => .error ("error: " ++ flag ++ " needs a value\n")
  | a, flag :: value :: rest =>
    if flag = "--out" then parseFlags { a with outPath := value } rest
    else
      match parseU64 value with
      | none =>
        .error ("error: " ++ flag ++ " expects an unsigned integer, got '" ++ value ++ "'\n")
      | some parsed => do
        let a ← a.setFlag flag parsed
        parseFlags a rest

end GenerateArgs

/-- `run_generate` up to the construction of the generator. -/
def runGenerateArgs (args : List String) : Except String GenerateArgs := do
  let a ← GenerateArgs.parseFlags {} args
  if a.outPath = "" then .error "error: generate requires --out FILE\n"
  else
    match validateEngineConfig a.cfg.engine with
    | .error why => .error ("error: invalid config: " ++ why ++ "\n")
    | .ok () => .ok a

theorem validateEngineConfig_iff {cfg : EngineConfig} : validateEngineConfig cfg = .ok () ↔
    0 < cfg.anchorPrice.toInt ∧
      (0 < cfg.bandRadius.toNat ∧ cfg.bandRadius.toNat ≤ 2 ^ 20) ∧
      (0 < cfg.poolCapacity.toNat ∧ cfg.poolCapacity.toNat ≤ 2 ^ 24) := by
  have hzero : ∀ n : UInt32, n = 0 ↔ n.toNat = 0 := fun n => by
    rw [← UInt32.toNat_inj, UInt32.toNat_zero]
  have hband : kMaxBandRadius.toNat = 2 ^ 20 := rfl
  have hpool : kMaxPoolCapacity.toNat = 2 ^ 24 := rfl
  simp only [validateEngineConfig, hzero, UInt32.lt_iff_toNat_lt, Int64.le_iff_toInt_le,
    Int64.toInt_zero, hband, hpool]
  split
  · exact iff_of_false (by simp) (by omega)
  · split
    · exact iff_of_false (by simp) (by omega)
    · split
      · exact iff_of_false (by simp) (by omega)
      · exact iff_of_true rfl (by omega)

theorem EngineConfig.Asserted.of_accepted {cfg : EngineConfig}
    (h : validateEngineConfig cfg = .ok ()) : cfg.Asserted := by
  obtain ⟨hanchor, hband, hpool⟩ := validateEngineConfig_iff.mp h
  exact ⟨hanchor, by omega, by omega⟩

theorem EngineConfig.Valid.of_accepted {cfg : EngineConfig} (h : validateEngineConfig cfg = .ok ())
    (hhigh : cfg.anchorPrice.toInt + cfg.bandRadius.toNat + 1 ≤ 2 ^ 63 - 1) : cfg.Valid := by
  obtain ⟨hanchor, hband, hpool⟩ := validateEngineConfig_iff.mp h
  exact ⟨hanchor, by omega, hhigh, by omega⟩

/-- The configuration `run_generate` makes of an engine configuration and a seed. -/
def runGenerateConfig (engine : EngineConfig) (seed : UInt64) : WorkloadConfig :=
  { engine, seed, walkRadius := engine.bandRadius }

namespace GenerateArgs

theorem setFlag_config {a a' : GenerateArgs} {flag : String} {parsed : UInt64}
    (h : a.setFlag flag parsed = .ok a')
    (hc : a.cfg = runGenerateConfig a.cfg.engine a.cfg.seed) :
    a'.cfg = runGenerateConfig a'.cfg.engine a'.cfg.seed := by
  unfold setFlag at h
  obtain ⟨path, ops, cfg⟩ := a
  simp only at hc
  repeat' split at h
  all_goals
    cases h
    try (simp only; rw [hc]; rfl)

theorem parseFlags_config (args : List String) : ∀ {a a' : GenerateArgs},
    parseFlags a args = .ok a' → a.cfg = runGenerateConfig a.cfg.engine a.cfg.seed →
    a'.cfg = runGenerateConfig a'.cfg.engine a'.cfg.seed := by
  induction args using List.twoStepInduction with
  | nil =>
    intro a a' h hc
    cases h
    exact hc
  | singleton flag =>
    intro a a' h _
    cases h
  | cons_cons flag value rest ih _ =>
    intro a a' h hc
    rw [parseFlags] at h
    split at h
    · exact ih h hc
    · split at h
      · cases h
      · cases hset : a.setFlag flag _ with
        | error e =>
          rw [hset] at h
          cases h
        | ok a₁ =>
          rw [hset] at h
          exact ih h (setFlag_config hset hc)

end GenerateArgs

theorem runGenerateArgs_config {args : List String} {a : GenerateArgs}
    (h : runGenerateArgs args = .ok a) :
    a.cfg = runGenerateConfig a.cfg.engine a.cfg.seed ∧
      validateEngineConfig a.cfg.engine = .ok () := by
  unfold runGenerateArgs at h
  cases hparse : GenerateArgs.parseFlags {} args with
  | error e =>
    rw [hparse] at h
    cases h
  | ok a₁ =>
    rw [hparse] at h
    simp only [bind, Except.bind] at h
    split at h
    · cases h
    · split at h
      · cases h
      · rename_i hv
        cases h
        exact ⟨GenerateArgs.parseFlags_config args hparse rfl, hv⟩

end LimitOrderBook
