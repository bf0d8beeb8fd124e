import LimitOrderBook.Lib.Checked
import LimitOrderBook.Lib.Audited

/-!
`latency.h`: conversion of ticks, the log2 histogram of one recorder, and merging.
Reading the cycle counter and calibrating it are left out.
-/

set_option autoImplicit false

namespace LimitOrderBook
open Checked Audited

structure TscCalibration where
  ticksPerSecond : UInt64 := 1000000000
  deriving DecidableEq, Repr

def TscCalibration.ticksToNanos (cal : TscCalibration) (ticks : UInt64) : Audited UInt64 := do
  let sec ← div ticks cal.ticksPerSecond
  let rem ← mod ticks cal.ticksPerSecond
  let whole ← mul sec 1000000000
  let scaled ← mul rem 1000000000
  let part ← div scaled cal.ticksPerSecond
  add whole part

structure LatencySummary where
  count : UInt64
  minTicks : UInt64
  maxTicks : UInt64
  p50 : UInt64
  p90 : UInt64
  p99 : UInt64
  p999 : UInt64
  deriving DecidableEq, Repr

def LatencySummary.toNanos (s : LatencySummary) (cal : TscCalibration) :
    Audited LatencySummary := do
  let minTicks ← cal.ticksToNanos s.minTicks
  let maxTicks ← cal.ticksToNanos s.maxTicks
  let p50 ← cal.ticksToNanos s.p50
  let p90 ← cal.ticksToNanos s.p90
  let p99 ← cal.ticksToNanos s.p99
  let p999 ← cal.ticksToNanos s.p999
  pure { count := s.count, minTicks, maxTicks, p50, p90, p99, p999 }

/-- The order every summary is meant to have. -/
structure LatencySummary.Ordered (s : LatencySummary) : Prop where
  p50 : s.minTicks.toNat ≤ s.p50.toNat
  p90 : s.p50.toNat ≤ s.p90.toNat
  p99 : s.p90.toNat ≤ s.p99.toNat
  p999 : s.p99.toNat ≤ s.p999.toNat
  max : s.p999.toNat ≤ s.maxTicks.toNat

namespace TscCalibration

variable {cal : TscCalibration} {ticks : UInt64}

def exactNanos (cal : TscCalibration) (ticks : UInt64) : Nat :=
  ticks.toNat * 10 ^ 9 / cal.ticksPerSecond.toNat

structure Supported (cal : TscCalibration) : Prop where
  pos : 1 ≤ cal.ticksPerSecond.toNat
  le : cal.ticksPerSecond.toNat ≤ 2 ^ 34

theorem exactNanos_mono (cal : TscCalibration) {ticks ticks' : UInt64}
    (h : ticks.toNat ≤ ticks'.toNat) :
    cal.exactNanos ticks ≤ cal.exactNanos ticks' :=
  Nat.div_le_div_right (Nat.mul_le_mul_right _ h)

theorem exactNanos_lt_of_fast (h : 10 ^ 9 ≤ cal.ticksPerSecond.toNat) :
    cal.exactNanos ticks < 2 ^ 64 := by
  have hle : cal.exactNanos ticks ≤ ticks.toNat * 10 ^ 9 / 10 ^ 9 :=
    Nat.div_le_div_left h (by decide)
  rw [Nat.mul_div_cancel _ (by decide)] at hle
  exact lt_of_le_of_lt hle ticks.toNat_lt

theorem ticksToNanos_exact (hcal : cal.Supported) (h : cal.exactNanos ticks < 2 ^ 64) :
    (cal.ticksToNanos ticks).Gives fun nanos => nanos.toNat = cal.exactNanos ticks := by
  have hpos : 0 < cal.ticksPerSecond.toNat := hcal.pos
  have hsum := div_mul_add_mod_mul_div ticks.toNat (10 ^ 9) hpos
  -- the remainder is below the clock rate, and 2^34 * 10^9 < 2^64
  have hscaled : ticks.toNat % cal.ticksPerSecond.toNat * 10 ^ 9 < 2 ^ 64 := by
    have hrem := Nat.mod_lt ticks.toNat hpos
    have hle := hcal.le
    omega
  have hbillion : (1000000000 : UInt64).toNat = 10 ^ 9 := rfl
  unfold exactNanos at h
  have hlarge : ticks.toNat / cal.ticksPerSecond.toNat * 10 ^ 9 < 2 ^ 64 :=
    lt_of_le_of_lt (Nat.le_add_right _ _) (lt_of_eq_of_lt hsum h)
  refine (gives_div hpos).bind fun sec hsec => (gives_mod hpos).bind fun rem hrem => ?_
  refine (gives_mul ?_).bind fun whole hwhole => (gives_mul ?_).bind fun scaled hsc => ?_
  · simpa only [hsec, hbillion] using hlarge
  · simpa only [hrem, hbillion] using hscaled
  · rw [hsec, hbillion] at hwhole
    rw [hrem, hbillion] at hsc
    refine (gives_div hpos).bind fun part hpart => ?_
    rw [hsc] at hpart
    have hfits : whole.toNat + part.toNat = ticks.toNat * 10 ^ 9 / cal.ticksPerSecond.toNat := by
      rw [hwhole, hpart]
      exact hsum
    exact (gives_add (hfits ▸ h)).mono fun nanos hnanos => hnanos.trans hfits

theorem ticksToNanos_mono (hcal : cal.Supported) {ticks' : UInt64} (h : ticks ≤ ticks')
    (hlt : cal.exactNanos ticks' < 2 ^ 64) :
    (cal.ticksToNanos ticks).value ≤ (cal.ticksToNanos ticks').value := by
  have hle := exactNanos_mono cal (UInt64.le_iff_toNat_le.mp h)
  rw [UInt64.le_iff_toNat_le, (ticksToNanos_exact hcal hlt).2,
    (ticksToNanos_exact hcal (lt_of_le_of_lt hle hlt)).2]
  exact hle

end TscCalibration

namespace LatencySummary

open TscCalibration

theorem toNanos_ordered {cal : TscCalibration} {s : LatencySummary} (hcal : cal.Supported)
    (hs : s.Ordered) (hlt : cal.exactNanos s.maxTicks < 2 ^ 64) :
    (s.toNanos cal).Gives fun nanos => nanos.Ordered ∧ nanos.count = s.count := by
  have h₁ := exactNanos_mono cal hs.p50
  have h₂ := exactNanos_mono cal hs.p90
  have h₃ := exactNanos_mono cal hs.p99
  have h₄ := exactNanos_mono cal hs.p999
  have h₅ := exactNanos_mono cal hs.max
  refine (ticksToNanos_exact hcal (by omega)).bind fun minNanos hmin => ?_
  refine (ticksToNanos_exact hcal hlt).bind fun maxNanos hmax => ?_
  refine (ticksToNanos_exact hcal (by omega)).bind fun n50 h50 => ?_
  refine (ticksToNanos_exact hcal (by omega)).bind fun n90 h90 => ?_
  refine (ticksToNanos_exact hcal (by omega)).bind fun n99 h99 => ?_
  refine (ticksToNanos_exact hcal (by omega)).bind fun n999 h999 => ?_
  refine Gives.pure ⟨⟨?_, ?_, ?_, ?_, ?_⟩, rfl⟩
  · exact hmin.le.trans (h₁.trans h50.ge)
  · exact h50.le.trans (h₂.trans h90.ge)
  · exact h90.le.trans (h₃.trans h99.ge)
  · exact h99.le.trans (h₄.trans h999.ge)
  · exact h999.le.trans (h₅.trans hmax.ge)

end LatencySummary

/-- The conversion is exact wherever its result fits, with no product or sum that wraps,
so it keeps the order of ticks and of summaries. -/
theorem ticks_to_nanos_exact (cal : TscCalibration) (hcal : cal.Supported) :
    (∀ ticks, cal.exactNanos ticks < 2 ^ 64 →
      (cal.ticksToNanos ticks).Gives fun nanos => nanos.toNat = cal.exactNanos ticks) ∧
    (10 ^ 9 ≤ cal.ticksPerSecond.toNat → ∀ ticks, cal.exactNanos ticks < 2 ^ 64) ∧
    (∀ ticks ticks' : UInt64, ticks ≤ ticks' → cal.exactNanos ticks' < 2 ^ 64 →
      (cal.ticksToNanos ticks).value ≤ (cal.ticksToNanos ticks').value) ∧
    ∀ s : LatencySummary, s.Ordered → cal.exactNanos s.maxTicks < 2 ^ 64 →
      (s.toNanos cal).Gives LatencySummary.Ordered :=
  ⟨fun _ h => TscCalibration.ticksToNanos_exact hcal h,
    fun h _ => TscCalibration.exactNanos_lt_of_fast h,
    fun _ _ h hlt => TscCalibration.ticksToNanos_mono hcal h hlt,
    fun _ hs hlt => (LatencySummary.toNanos_ordered hcal hs hlt).mono fun _ h => h.1⟩

/-- At the largest rate and one tick below a second. -/
theorem ticks_to_nanos_exact_small :
    let cal : TscCalibration := { ticksPerSecond := 17179869184 }
    (cal.ticksToNanos 17179869183).Gives fun nanos => nanos.toNat = 999999999 :=
  (ticks_to_nanos_exact { ticksPerSecond := 17179869184 } ⟨by decide, by decide⟩).1 17179869183
    (by decide)

def kLatencyBuckets : Nat := 65

/-- `std::bit_width`. -/
def bitWidth (n : Nat) : Nat := if n = 0 then 0 else n.log2 + 1

theorem bitWidth_le_iff {n k : Nat} : bitWidth n ≤ k ↔ n < 2 ^ k := by
  unfold bitWidth
  split
  · rename_i h
    simp [h]
  · rename_i h
    rw [Nat.succ_le_iff, Nat.log2_lt h]

def bucketOf (ticks : UInt64) : Fin kLatencyBuckets :=
  ⟨bitWidth ticks.toNat, Nat.lt_succ_of_le (bitWidth_le_iff.mpr ticks.toNat_lt)⟩

@[ext] structure LatencyRecorder where
  counts : Vector UInt64 kLatencyBuckets := Vector.replicate kLatencyBuckets 0
  count : UInt64 := 0
  min : UInt64 := 0xFFFFFFFFFFFFFFFF
  max : UInt64 := 0
  deriving DecidableEq, Repr

namespace LatencyRecorder

def record (r : LatencyRecorder) (ticks : UInt64) : LatencyRecorder where
  counts := r.counts.set (bucketOf ticks) (r.counts[bucketOf ticks] + 1)
  count := r.count + 1
  min := if ticks < r.min then ticks else r.min
  max := if r.max < ticks then ticks else r.max

def merge (r other : LatencyRecorder) : LatencyRecorder where
  counts := Vector.zipWith (· + ·) r.counts other.counts
  count := r.count + other.count
  min := if other.min < r.min then other.min else r.min
  max := if r.max < other.max then other.max else r.max

def reset (_ : LatencyRecorder) : LatencyRecorder := {}

def minTicks (r : LatencyRecorder) : UInt64 := if r.count = 0 then 0 else r.min

def maxTicks (r : LatencyRecorder) : UInt64 := r.max

end LatencyRecorder

def bucketLo (b : Fin kLatencyBuckets) : Audited UInt64 :=
  if b.val = 0 then pure 0 else shl 1 (b - 1)

def bucketHi (b : Fin kLatencyBuckets) : Audited UInt64 :=
  if b.val = 0 then pure 0
  else if b.val = kLatencyBuckets - 1 then pure 0xFFFFFFFFFFFFFFFF
  else do
    let top ← shl 1 b
    sub top 1

def interpolate (b : Fin kLatencyBuckets) (inRank bucketCount : UInt64) : Audited UInt64 := do
  let lo ← bucketLo b
  let hi ← bucketHi b
  let span ← sub hi lo
  let q ← div span bucketCount
  let r ← mod span bucketCount
  let whole ← mul q inRank
  let scaled ← mul r inRank
  let part ← div scaled bucketCount
  let v ← add lo whole
  add v part

/-- The loop of `percentile_ticks`: `n` buckets are left, the next one is `b`. It stops
at the bucket that reaches the rank, with the count of the buckets before it. -/
def findBucket (counts : Vector UInt64 kLatencyBuckets) (rank : UInt64) :
    (n b : Nat) → b + n = kLatencyBuckets → UInt64 →
      Audited (Option (Fin kLatencyBuckets × UInt64))
  | 0, _, _, _ => pure none
  | n + 1, b, h, cum => do
    let reached ← add cum counts[b]
    if rank ≤ reached then pure (some (⟨b, by omega⟩, cum))
    else findBucket counts rank n (b + 1) (by omega) reached

namespace LatencyRecorder

def clampToObserved (r : LatencyRecorder) (v : UInt64) : UInt64 :=
  let v := if v < r.min then r.min else v
  if r.max < v then r.max else v

def ceilRank (r : LatencyRecorder) (num den : UInt64) : Audited UInt64 := do
  let product ← mul r.count num
  let sum ← add product den
  let sum ← sub sum 1
  let rank ← div sum den
  pure (if rank = 0 then 1 else rank)

def percentileTicks (r : LatencyRecorder) (num den : UInt64) : Exec (Audited UInt64) := do
  assert (0 < den ∧ num ≤ den) "den > 0 && num <= den"
  pure <|
    if r.count = 0 then pure 0
    else if num = den then pure r.max
    else do
      let rank ← r.ceilRank num den
      match ← findBucket r.counts rank kLatencyBuckets 0 rfl 0 with
      | some (b, cum) => do
        let inRank ← sub rank cum
        let inRank ← sub inRank 1
        let v ← interpolate b inRank r.counts[b]
        pure (r.clampToObserved v)
      -- the return the source calls unreachable
      | none => pure r.max

def summary (r : LatencyRecorder) : Exec (Audited LatencySummary) := do
  let p50 ← r.percentileTicks 50 100
  let p90 ← r.percentileTicks 90 100
  let p99 ← r.percentileTicks 99 100
  let p999 ← r.percentileTicks 999 1000
  pure do
    let p50 ← p50
    let p90 ← p90
    let p99 ← p99
    let p999 ← p999
    pure { count := r.count, minTicks := r.minTicks, maxTicks := r.maxTicks, p50, p90, p99, p999 }

end LatencyRecorder

end LimitOrderBook
