import LimitOrderBook.EventStream
import LimitOrderBook.Lib.SwapIndex

/-!
`workload_gen.h`: the generator of command streams, which runs a shadow engine
to know which ids a cancel may name. The random source is a parameter; the one
of the source file is `nextU64`.
-/

set_option autoImplicit false

namespace LimitOrderBook
open Checked SwapIndex

structure WorkloadCounts where
  limits : UInt64 := 0
  markets : UInt64 := 0
  iocs : UInt64 := 0
  cancels : UInt64 := 0
  degradedCancels : UInt64 := 0
  deriving DecidableEq, Repr

structure WorkloadConfig where
  engine : EngineConfig := {}
  seed : UInt64 := 1
  limitWeight : UInt32 := 60
  marketWeight : UInt32 := 5
  iocWeight : UInt32 := 15
  cancelWeight : UInt32 := 20
  minQty : Qty := 1
  maxQty : Qty := 100
  maxPriceOffset : UInt32 := 256
  crossOneIn : UInt32 := 4
  walkOneIn : UInt32 := 4
  maxWalkStep : UInt32 := 2
  walkRadius : UInt32 := kDefaultBandRadius
  pad0 : UInt32 := 0
  deriving DecidableEq, Repr

namespace WorkloadConfig

def kZipfScale : Nat := 2 ^ 20

/-- Four 32-bit weights, so the 64-bit sum is exact. -/
def totalWeight (cfg : WorkloadConfig) : Nat :=
  cfg.limitWeight.toNat + cfg.marketWeight.toNat + cfg.iocWeight.toNat + cfg.cancelWeight.toNat

/-- One iteration of the loop that fills `zipf_cdf_`, on the sum so far and the table. -/
def zipfStep (s : Nat × Array Nat) (k : Nat) : Nat × Array Nat :=
  let acc := s.1 + (kZipfScale / (k + 1) + 1)
  (acc, s.2.push acc)

/-- One entry for each offset, the running sum of the weights: at most `2 ^ 32` of
them and none above `2 ^ 20 + 1`, so the 64-bit sums are exact too. -/
def zipfCdf (cfg : WorkloadConfig) : Array Nat :=
  ((List.range (cfg.maxPriceOffset.toNat + 1)).foldl zipfStep (0, #[])).2

end WorkloadConfig

/-- splitmix64. -/
def nextU64 (rngState : UInt64) : UInt64 × UInt64 :=
  let rngState := rngState + 0x9E3779B97F4A7C15
  let z := rngState
  let z := (z ^^^ (z >>> 30)) * 0xBF58476D1CE4E5B9
  let z := (z ^^^ (z >>> 27)) * 0x94D049BB133111EB
  (z ^^^ (z >>> 31), rngState)

structure WorkloadGenerator (σ : Type) where
  cfg : WorkloadConfig
  totalWeight : Nat
  rngState : σ
  mid : PriceTicks
  walkLo : PriceTicks
  walkHi : PriceTicks
  zipfCdf : Array Nat
  engine : MatchingEngine
  liveIds : Array OrderId := #[]
  livePos : Std.ExtTreeMap OrderId Nat := ∅
  counts : WorkloadCounts := {}

namespace WorkloadGenerator

variable {σ : Type} (draw : σ → UInt64 × σ)

def new (cfg : WorkloadConfig) (rngState : σ) : Exec (WorkloadGenerator σ) := do
  let engine ← MatchingEngine.new cfg.engine
  assert (0 < cfg.engine.anchorPrice) "cfg.engine.anchor_price > 0"
  assert (1 ≤ cfg.minQty ∧ cfg.minQty ≤ cfg.maxQty)
    "cfg.min_qty >= 1 && cfg.max_qty >= cfg.min_qty"
  assert (1 ≤ cfg.crossOneIn ∧ 1 ≤ cfg.walkOneIn ∧ 1 ≤ cfg.maxWalkStep)
    "cfg.cross_one_in >= 1 && cfg.walk_one_in >= 1 && cfg.max_walk_step >= 1"
  assert (0 < cfg.totalWeight) "op mix must have at least one nonzero weight"
  let low ← subI64 cfg.engine.anchorPrice (Int64.ofNat cfg.walkRadius.toNat)
  let walkHi ← addI64 cfg.engine.anchorPrice (Int64.ofNat cfg.walkRadius.toNat)
  pure { cfg, totalWeight := cfg.totalWeight, rngState, mid := cfg.engine.anchorPrice,
         walkLo := max 1 low, walkHi, zipfCdf := cfg.zipfCdf, engine }

def boundedRand (g : WorkloadGenerator σ) (n : Nat) : Exec (Nat × WorkloadGenerator σ) := do
  assert (0 < n) "n > 0"
  pure ((draw g.rngState).1.toNat % n, { g with rngState := (draw g.rngState).2 })

def oneIn (g : WorkloadGenerator σ) (n : UInt32) : Exec (Bool × WorkloadGenerator σ) := do
  let (r, g) ← g.boundedRand draw n.toNat
  pure (r == 0, g)

/-- `std::clamp`. -/
def clamp (v lo hi : PriceTicks) : PriceTicks :=
  if v < lo then lo else if hi < v then hi else v

def maybeStepMid (g : WorkloadGenerator σ) : Exec (WorkloadGenerator σ) := do
  let (walks, g) ← g.oneIn draw g.cfg.walkOneIn
  if !walks then pure g
  else
    let (r, g) ← g.boundedRand draw g.cfg.maxWalkStep.toNat
    let step := Int64.ofNat (1 + r)
    let (up, g) ← g.oneIn draw 2
    let delta ← if up then pure step else negI64 step
    let mid ← addI64 g.mid delta
    pure { g with mid := clamp mid g.walkLo g.walkHi }

/-- `std::upper_bound`: the first entry above the draw. -/
def sampleZipfOffset (g : WorkloadGenerator σ) : Exec (Nat × WorkloadGenerator σ) :=
  match g.zipfCdf.back? with
  | none => .error .outOfBounds
  | some total => do
    let (r, g) ← g.boundedRand draw total
    pure (g.zipfCdf.findIdx (fun acc => decide (r < acc)), g)

/-- The price of a limit or IOC order: the mid, moved away from the touch, or
through the mid by an aggressive one. -/
def samplePrice (g : WorkloadGenerator σ) (side : Side) :
    Exec (PriceTicks × WorkloadGenerator σ) := do
  let (k, g) ← g.sampleZipfOffset draw
  let offset := Int64.ofNat k
  let (aggressive, g) ← g.oneIn draw g.cfg.crossOneIn
  let aboveMid := decide (side = .kBuy) == aggressive
  let price ← if aboveMid then addI64 g.mid offset else subI64 g.mid offset
  pure (max 1 price, g)

def makeAdd (g : WorkloadGenerator σ) (type : OrderType) :
    Exec (Command × WorkloadGenerator σ) := do
  let (r, g) ← g.boundedRand draw 2
  let side : Side := if r = 0 then .kBuy else .kSell
  let (q, g) ← g.boundedRand draw (g.cfg.maxQty.toNat - g.cfg.minQty.toNat + 1)
  let qty := UInt32.ofNat (g.cfg.minQty.toNat + q)
  if type ≠ .kMarket then
    let (price, g) ← g.samplePrice draw side
    pure (⟨.kNew, side, type, 0, qty, price, kInvalidOrderId⟩, g)
  else pure (⟨.kNew, side, type, 0, qty, 0, kInvalidOrderId⟩, g)

def makeCancel (g : WorkloadGenerator σ) : Exec (Command × WorkloadGenerator σ) := do
  let (r, g) ← g.boundedRand draw g.liveIds.size
  match g.liveIds[r]? with
  | none => .error .outOfBounds
  | some id => pure (⟨.kCancel, .kBuy, .kLimit, 0, 0, 0, id⟩, g)

/-- The weighted choice of `next`, with the counters. -/
def choose (g : WorkloadGenerator σ) : Exec (Command × WorkloadGenerator σ) := do
  let (r, g) ← g.boundedRand draw g.totalWeight
  if r < g.cfg.cancelWeight.toNat then
    if !g.liveIds.isEmpty then
      let (cmd, g) ← g.makeCancel draw
      pure (cmd, { g with counts.cancels := g.counts.cancels + 1 })
    else
      let (cmd, g) ← g.makeAdd draw .kLimit
      pure (cmd, { g with
        counts.limits := g.counts.limits + 1
        counts.degradedCancels := g.counts.degradedCancels + 1 })
  else
    let r := r - g.cfg.cancelWeight.toNat
    if r < g.cfg.limitWeight.toNat then
      let (cmd, g) ← g.makeAdd draw .kLimit
      pure (cmd, { g with counts.limits := g.counts.limits + 1 })
    else if r < g.cfg.limitWeight.toNat + g.cfg.marketWeight.toNat then
      let (cmd, g) ← g.makeAdd draw .kMarket
      pure (cmd, { g with counts.markets := g.counts.markets + 1 })
    else
      let (cmd, g) ← g.makeAdd draw .kIoc
      pure (cmd, { g with counts.iocs := g.counts.iocs + 1 })

/-- `emplace` keeps the entry of a key that is there already. -/
def addLive (ndebug : Bool) (g : WorkloadGenerator σ) (id : OrderId) :
    Exec (WorkloadGenerator σ) :=
  if id ∈ g.livePos ∧ ¬ ndebug then .error (.assertion "shadow tracking out of sync")
  else pure { g with
    livePos := g.livePos.insertIfNew id g.liveIds.size
    liveIds := g.liveIds.push id }

def removeLive (ndebug : Bool) (g : WorkloadGenerator σ) (id : OrderId) :
    Exec (WorkloadGenerator σ) :=
  match g.livePos[id]? with
  | none => if ndebug then pure g else .error (.assertion "shadow tracking out of sync")
  | some pos =>
    match g.liveIds.back? with
    | none => .error .outOfBounds
    | some last =>
      if pos < g.liveIds.size then
        pure { g with
          liveIds := (g.liveIds.setIfInBounds pos last).pop
          livePos := (g.livePos.insert last pos).erase id }
      else .error .outOfBounds

def observe (ndebug : Bool) (g : WorkloadGenerator σ) (e : Event) : Exec (WorkloadGenerator σ) :=
  match e.kind with
  | .kAccepted => g.addLive ndebug e.orderId
  | .kTraded => if e.remaining = 0 then g.removeLive ndebug e.orderId else pure g
  | .kCanceled => g.removeLive ndebug e.orderId
  | .kRejected => pure g

def apply (ndebug : Bool) (g : WorkloadGenerator σ) (cmd : Command) :
    Exec (WorkloadGenerator σ) := do
  let (engine, events) ← g.engine.process ndebug cmd
  events.foldlM (observe ndebug) { g with engine }

def next (ndebug : Bool) (g : WorkloadGenerator σ) : Exec (Command × WorkloadGenerator σ) := do
  let g ← g.maybeStepMid draw
  let (cmd, g) ← g.choose draw
  let g ← g.apply ndebug cmd
  pure (cmd, g)

/-- The first `n` commands, and the generator after them. -/
def take (ndebug : Bool) : Nat → WorkloadGenerator σ → Exec (List Command × WorkloadGenerator σ)
  | 0, g => pure ([], g)
  | n + 1, g => do
    let (cmd, g) ← g.next draw ndebug
    let (cmds, g) ← take ndebug n g
    pure (cmd :: cmds, g)

end WorkloadGenerator

def generateWorkload {σ : Type} (draw : σ → UInt64 × σ) (ndebug : Bool) (cfg : WorkloadConfig)
    (rngState : σ) (n : Nat) : Exec (List Command × WorkloadGenerator σ) := do
  let g ← WorkloadGenerator.new cfg rngState
  g.take draw ndebug n

end LimitOrderBook
