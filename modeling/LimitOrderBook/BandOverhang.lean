import LimitOrderBook.MatchingEngine

set_option autoImplicit false

namespace LimitOrderBook
open Checked PriorityQueue

/-- The band ends beyond the largest price. -/
def EngineConfig.Overhangs (cfg : EngineConfig) : Prop :=
  2 ^ 63 - 1 < cfg.anchorPrice.toInt + cfg.bandRadius.toNat + 1

/-- The price of the first level. -/
def EngineConfig.low (cfg : EngineConfig) : Int := cfg.anchorPrice.toInt - cfg.bandRadius.toNat

namespace PriceLadder

/-- Levels that reach beyond the largest price when the first of them is at `low`. -/
structure Overhang (low : Int) (levels : Array PriceLevel) : Prop where
  size : levels.size < 2 ^ 63
  high : 2 ^ 63 - 1 < low + levels.size

def widen (levels : Array PriceLevel) (l : PriceLadder) : PriceLadder := { l with levels }

variable {l l' : PriceLadder} {levels : Array PriceLevel} {p : PriceTicks} {ref : LevelRef}
  {pool pool₁ pool' : OrderPool} {i : UInt32} {f : Order → Order}

theorem inBand_overhangs (h : Overhang l.lowPrice.toInt l.levels) (hle : l.lowPrice ≤ p) :
    l.inBand p = .error .signedOverflow := by
  have hhigh := h.high
  rw [inBand, if_pos hle, addI64, Int64.toInt_ofNat_of_lt h.size, int64_overflow (by omega)]
  rfl

theorem pushOrder_overhangs (h : Overhang l.lowPrice.toInt l.levels)
    (hi : i.toNat < pool.slots.size) (hle : l.lowPrice ≤ (pool.slot i).priceTicks) :
    l.pushOrder pool i = .error .signedOverflow := by
  rw [pushOrder, OrderPool.get_ok hi, ok_bind, inBand_overhangs h hle]
  rfl

/-! Below the band no operation reads the levels. -/

end PriceLadder

namespace QueueBook

/-- Every order rests below this price. -/
def Below (low : Int) (b : QueueBook) : Prop := ∀ r ∈ b.resting, r.price.toInt < low

instance (low : Int) (b : QueueBook) : Decidable (b.Below low) :=
  inferInstanceAs (Decidable (∀ r ∈ b.resting, _))

variable {b b' : QueueBook} {low : Int} {s : Side} {M : List Resting} {r : Resting}

theorem Below.shrinks (h : b.Below low) (hs : ∀ s, Shrinks (b'.queue s) (b.queue s)) :
    b'.Below low := fun r hr => by
  obtain ⟨s, hr⟩ := mem_resting.mp hr
  obtain ⟨r₀, hr₀, hred⟩ := (hs s).mem hr
  rw [hred.price]
  exact h r₀ (mem_resting.mpr ⟨s, hr₀⟩)

theorem Below.setQueue (h : b.Below low) (hM : Shrinks M (b.queue s)) :
    (b.setQueue s M).Below low :=
  h.shrinks fun t => by
    rw [queue_setQueue]
    split
    · rename_i ht
      rwa [queue_congr ht]
    · exact .refl _

end QueueBook

namespace OrderBook

def widen (bids asks : Array PriceLevel) (book : OrderBook) : OrderBook :=
  { book with bids := book.bids.widen bids, asks := book.asks.widen asks }

variable {book : OrderBook} {bids asks : Array PriceLevel}

end OrderBook

open PriceLadder (Overhang)

theorem EngineConfig.Overhangs.overhang {cfg : EngineConfig} (h : cfg.Overhangs)
    (hc : cfg.Asserted) {levels : Array PriceLevel}
    (hsize : levels.size = 2 * cfg.bandRadius.toNat + 1) : Overhang cfg.low levels := by
  have hradius := hc.radius
  unfold EngineConfig.Overhangs at h
  refine ⟨by omega, ?_⟩
  rw [EngineConfig.low, hsize]
  omega

namespace BookRep

variable {cfg : EngineConfig} {book book' : OrderBook} {b : QueueBook} {pending : List UInt32}
  {bids asks : Array PriceLevel} {side : Side} {limit : PriceTicks} {id : OrderId}
  {remaining : Qty} {r : Resting} {s : Side}

end BookRep

/-- An empty ladder whose levels are cut to one. -/
theorem LadderRep.single (pool : OrderPool) {l : PriceLadder}
    (hfits : l.lowPrice.toInt + 1 ≤ 2 ^ 63 - 1) (hover : l.overflow = ∅)
    (hcount : l.bandOrders = 0) (hbest : l.bestOffset = kNullIdx) :
    LadderRep pool (l.widen #[{}]) [] := by
  have hone : 1 ≤ 2 ^ 25 + 1 := by decide
  refine .nil pool ⟨hone, hfits⟩ (fun p => ?_) hover hcount hbest
  unfold PriceLadder.level
  split
  · rw [show (l.widen #[{}]).levels = #[{}] from rfl, Array.getD_eq_getD_getElem?]
    generalize (p.toInt - (l.widen #[{}]).lowPrice.toInt).toNat = n
    cases n <;> rfl
  · rw [show (l.widen #[{}]).overflow = ∅ from hover]
    simp

namespace MatchingEngine

variable {cfg : EngineConfig} {bids asks : Array PriceLevel} {ndebug : Bool} {cmd : Command}
  {e : MatchingEngine}

theorem new_asserted (hc : cfg.Asserted) : ∃ e, MatchingEngine.new cfg = .ok e ∧ ∀ s,
    (e.book.ladder s).lowPrice.toInt = cfg.low ∧
      (e.book.ladder s).levels.size = 2 * cfg.bandRadius.toNat + 1 := by
  obtain ⟨pool, hpool, -⟩ := OrderPool.new_inv hc.capacity
  obtain ⟨bids, hbids, -, hbl, hbw, -⟩ := PriceLadder.new_ok hc .kBuy
  obtain ⟨asks, hasks, -, hal, haw, -⟩ := PriceLadder.new_ok hc .kSell
  refine ⟨⟨{ pool, bids, asks }, {}⟩, ?_, fun s => ?_⟩
  · rw [new, OrderBook.new, hpool, ok_bind, hbids, ok_bind, hasks]
    rfl
  · unfold OrderBook.ladder
    split
    · exact ⟨hbl, hbw⟩
    · exact ⟨hal, haw⟩

end MatchingEngine

end LimitOrderBook
