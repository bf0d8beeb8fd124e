import LimitOrderBook.BenchScript

/-!
`matching_bench.cc`: crossing flow that consumes what it rests. The three
scenarios replay a script of makers and takers over and over and assert that
every pass leaves the book as it was.
-/

set_option autoImplicit false

namespace LimitOrderBook
open Checked PriorityQueue

namespace MatchingBench

structure Op where
  price : PriceTicks := 0
  qty : Qty := 0
  side : Side := .kBuy
  type : OrderType := .kLimit
  deriving DecidableEq, Repr

section Benches

variable {σ : Type} (D : Driver σ)

/-- `Replay`, with everything the sink was given. -/
def replay (d : σ) : List Op → Exec (List Event × σ)
  | [] => pure ([], d)
  | op :: script => do
    let (_, events, d) ← D.add d op.side op.type op.price op.qty
    let (rest, d) ← replay d script
    pure (events ++ rest, d)

/-- The background of `BM_MatchSteady`. -/
def prefill (cdf : Array Nat) : Nat → σ → ScriptRng → Exec (σ × ScriptRng)
  | 0, d, rng => pure (d, rng)
  | depth + 1, d, rng => do
    let (r, rng) ← rng.bounded 2
    let buy : Bool := r = 0
    let (offset, rng) ← sampleOffset rng cdf
    let price ← if buy then subI64 (kMid - 1) offset else addI64 (kMid + 1) offset
    let (qty, rng) ← randQty rng
    let (_, _, d) ← D.add d (if buy then .kBuy else .kSell) .kLimit price qty
    prefill cdf depth d rng

end Benches

/-- `a` acceptances, `t` trades and nothing else. -/
structure Flow (events : List Event) (a t : Nat) : Prop where
  accepted : (events.map Event.kind).count .kAccepted = a
  traded : (events.map Event.kind).count .kTraded = t
  only : events.length = a + t

namespace Flow

variable {es fs : List Event} {a a' t t' : Nat}

theorem nil : Flow [] 0 0 := ⟨rfl, rfl, rfl⟩

theorem append (h : Flow es a t) (h' : Flow fs a' t') : Flow (es ++ fs) (a + a') (t + t') where
  accepted := by rw [List.map_append, List.count_append, h.accepted, h'.accepted]
  traded := by rw [List.map_append, List.count_append, h.traded, h'.traded]
  only := by
    rw [List.length_append, h.only, h'.only]
    omega

theorem rename (h : Flow es a t) (ρ : OrderId → OrderId) : Flow (es.map (Event.rename ρ)) a t := by
  have hk : (es.map (Event.rename ρ)).map Event.kind = es.map Event.kind := by
    rw [List.map_map]
    rfl
  exact ⟨hk ▸ h.accepted, hk ▸ h.traded, (List.length_map _).trans h.only⟩

end Flow

/-! One round on the queue book. -/

section Book

variable {b : QueueBook} {side : Side} {type : OrderType} {price limit : PriceTicks}
  {qty remaining : Qty} {id : OrderId}

end Book

end MatchingBench

end LimitOrderBook
