import LimitOrderBook.WorkloadRun
import LimitOrderBook.BenchDriver

set_option autoImplicit false

namespace LimitOrderBook
open Checked CumulativeTable

/-- splitmix64 again, with the constants of `workload_gen.h`. -/
structure ScriptRng where
  state : UInt64

namespace ScriptRng

def nextU64 (rng : ScriptRng) : UInt64 × ScriptRng :=
  ((LimitOrderBook.nextU64 rng.state).1, { state := (LimitOrderBook.nextU64 rng.state).2 })

def bounded (rng : ScriptRng) (n : Nat) : Exec (Nat × ScriptRng) := do
  assert (0 < n) "n > 0"
  let (z, rng) := rng.nextU64
  pure (z.toNat % n, rng)

theorem bounded_ok (rng : ScriptRng) {n : Nat} (hn : 0 < n) :
    ∃ r rng', rng.bounded n = .ok (r, rng') ∧ r < n :=
  ⟨_, _, by rw [bounded, assert_pos hn]; rfl, Nat.mod_lt _ hn⟩

end ScriptRng

def makeZipfCdf (maxOffset : UInt32) : Array Nat :=
  ((List.range (maxOffset.toNat + 1)).foldl WorkloadConfig.zipfStep (0, #[])).2

def sampleOffset (rng : ScriptRng) (cdf : Array Nat) : Exec (PriceTicks × ScriptRng) :=
  match cdf.back? with
  | none => .error .outOfBounds
  | some total => do
    let (r, rng) ← rng.bounded total
    pure (Int64.ofNat (cdf.findIdx fun acc => decide (r < acc)), rng)

theorem sampleOffset_ok (rng : ScriptRng) (maxOffset : UInt32) :
    ∃ k rng', sampleOffset rng (makeZipfCdf maxOffset) = .ok (Int64.ofNat k, rng') ∧
      k ≤ maxOffset.toNat := by
  have htable : Table WorkloadConfig.zipfWeight (makeZipfCdf maxOffset) (maxOffset.toNat + 1) :=
    (WorkloadConfig.zipf_loop _).2
  have hpos : 0 < cumulative WorkloadConfig.zipfWeight (maxOffset.toNat + 1) := by
    rw [cumulative_succ]
    exact Nat.add_pos_right _ (Nat.succ_pos _)
  obtain ⟨r, rng', hrun, hr⟩ := rng.bounded_ok hpos
  refine ⟨_, rng', ?_, Nat.le_of_lt_succ (htable.owns_findIdx hr).1⟩
  simp only [sampleOffset, htable.back, hrun, ok_bind]
  rfl

def kMaxOffset : UInt32 := 256
def kMinQty : Qty := 1
def kMaxQty : Qty := 100
def kSeed : UInt64 := 20260718

def randQty (rng : ScriptRng) : Exec (Qty × ScriptRng) := do
  let (r, rng) ← rng.bounded (kMaxQty.toNat - kMinQty.toNat + 1)
  pure (UInt32.ofNat (kMinQty.toNat + r), rng)

theorem randQty_ok (rng : ScriptRng) :
    ∃ q rng', randQty rng = .ok (q, rng') ∧ 1 ≤ q.toNat ∧ q.toNat ≤ 100 := by
  obtain ⟨r, rng', hrun, hr⟩ :=
    rng.bounded_ok (show 0 < kMaxQty.toNat - kMinQty.toNat + 1 by decide)
  refine ⟨_, rng', by rw [randQty, hrun, ok_bind]; rfl, ?_⟩
  have hmin : kMinQty.toNat = 1 := rfl
  have hmax : kMaxQty.toNat = 100 := rfl
  have hlt : kMinQty.toNat + r < 2 ^ 32 := by omega
  rw [UInt32.toNat_ofNat_of_lt' hlt]
  omega

end LimitOrderBook
