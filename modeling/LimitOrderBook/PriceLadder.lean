import LimitOrderBook.PriceLevel
import LimitOrderBook.Lib.PriorityQueue

/-!
`PriceLadder` of `price_ladder.h`: one side of the book, a banded array of
levels with a best cursor, and an overflow map for the prices outside the band.
-/

set_option autoImplicit false

namespace LimitOrderBook
open Checked IntrusiveList PriorityQueue

def kOverflowIdx : Int32 := -2

structure PriceLadder where
  side : Side
  lowPrice : PriceTicks
  bestOffset : Int32 := kNullIdx
  bandOrders : UInt32 := 0
  levels : Array PriceLevel
  overflow : Std.ExtTreeMap PriceTicks PriceLevel := ∅

/-- What a `PriceLevel&` refers to: a slot of the banded array or a node of the map. -/
inductive LevelRef where
  | band (index : Int)
  | overflow (price : PriceTicks)
  deriving DecidableEq, Repr

structure Census where
  orderCount : UInt64 := 0
  totalQty : UInt64 := 0
  deriving DecidableEq, Repr

namespace PriceLadder

def new (side : Side) (anchorPrice : PriceTicks) (bandRadius : UInt32) : Exec PriceLadder := do
  let lowPrice ← subI64 anchorPrice (Int64.ofNat bandRadius.toNat)
  let levels := Array.replicate (2 * bandRadius + 1).toNat {}
  assert (0 < anchorPrice) "anchor_price > 0"
  assert (0 < bandRadius ∧ bandRadius ≤ (1 : UInt32) <<< 24)
    "band_radius > 0 && band_radius <= (1u << 24)"
  pure { side, lowPrice, levels }

def inBand (l : PriceLadder) (price : PriceTicks) : Exec Bool :=
  if l.lowPrice ≤ price then do
    let high ← addI64 l.lowPrice (Int64.ofNat l.levels.size)
    pure (decide (price < high))
  else pure false

/-- The levels of the band; a negative offset converts to an index no vector has. -/
def bandLevel (l : PriceLadder) (offset : Int) : Exec PriceLevel :=
  if 0 ≤ offset ∧ offset < l.levels.size then .ok (l.levels.getD offset.toNat {})
  else .error .outOfBounds

def setBandLevel (l : PriceLadder) (offset : Int) (level : PriceLevel) : Array PriceLevel :=
  l.levels.setIfInBounds offset.toNat level

def findLevel (l : PriceLadder) (price : PriceTicks) : Exec (Option PriceLevel) := do
  let inBand ← l.inBand price
  if inBand then
    let offset ← subI64 price l.lowPrice
    let level ← l.bandLevel offset.toInt
    pure (some level)
  else
    pure l.overflow[price]?

/-- Better toward the front of the book: higher for bids, lower for asks. -/
def isBetter (l : PriceLadder) (lhs rhs : Int32) : Bool :=
  if l.side = .kBuy then rhs < lhs else lhs < rhs

def pushOrder (l : PriceLadder) (pool : OrderPool) (orderIdx : UInt32) :
    Exec (PriceLadder × OrderPool) := do
  let order ← pool.get orderIdx
  let inBand ← l.inBand order.priceTicks
  if !inBand then
    -- operator[] of the map default-constructs a missing level
    let level := l.overflow.getD order.priceTicks {}
    let (level, pool) ← level.pushBack pool orderIdx
    let pool ← pool.modify orderIdx (Order.setLevelIdx kOverflowIdx)
    pure ({ l with overflow := l.overflow.insert order.priceTicks level }, pool)
  else
    let distance ← subI64 order.priceTicks l.lowPrice
    let offset := distance.toInt32
    let level ← l.bandLevel offset.toInt
    let (level, pool) ← level.pushBack pool orderIdx
    let pool ← pool.modify orderIdx (Order.setLevelIdx offset)
    let improves := l.bestOffset = kNullIdx ∨ l.isBetter offset l.bestOffset
    pure ({ l with
      levels := l.setBandLevel offset.toInt level
      bandOrders := l.bandOrders + 1
      bestOffset := if improves then offset else l.bestOffset }, pool)

/-- The loop of `AdvanceBest`: the first non-empty level on the way to `stop`. -/
def scan (l : PriceLadder) (step stop : Int32) : Nat → Int32 → Exec Int32
  | 0, _ => .error .outOfFuel
  | fuel + 1, off =>
    if off = stop then pure kNullIdx
    else do
      let level ← l.bandLevel off.toInt
      if !level.empty then pure off
      else
        let off ← addI32 off step
        l.scan step stop fuel off

def advanceBest (l : PriceLadder) : Exec PriceLadder := do
  assert (0 < l.bandOrders) "AdvanceBest on an empty side: caller must short-circuit"
  let step : Int32 := if l.side = .kBuy then -1 else 1
  let stop : Int32 := if l.side = .kBuy then -1 else Int32.ofNat l.levels.size
  let start ← addI32 l.bestOffset step
  let best ← l.scan step stop (l.levels.size + 1) start
  pure { l with bestOffset := best }

/-- The end of `remove_order`: the cursor leaves a level that was emptied. -/
def settleBest (l : PriceLadder) (level : PriceLevel) (offset : Int32) : Exec PriceLadder :=
  if level.empty ∧ offset = l.bestOffset then
    if l.bandOrders = 0 then pure { l with bestOffset := kNullIdx } else l.advanceBest
  else pure l

def removeOrder (l : PriceLadder) (pool : OrderPool) (orderIdx : UInt32) :
    Exec (PriceLadder × OrderPool) := do
  let order ← pool.get orderIdx
  let offset := order.levelIdx
  assert (offset ≠ kNullIdx) "order not in a ladder level"
  if offset = kOverflowIdx then
    assert (order.priceTicks ∈ l.overflow) "it != overflow_.end()"
    let level := l.overflow.getD order.priceTicks {}
    let (level, pool) ← level.unlink pool orderIdx
    let pool ← pool.modify orderIdx (Order.setLevelIdx kNullIdx)
    let overflow :=
      if level.empty then l.overflow.erase order.priceTicks
      else l.overflow.insert order.priceTicks level
    pure ({ l with overflow }, pool)
  else
    let distance ← subI64 order.priceTicks l.lowPrice
    assert (offset = distance.toInt32) "offset == order.price_ticks - low_price_"
    let level ← l.bandLevel offset.toInt
    let (level, pool) ← level.unlink pool orderIdx
    let pool ← pool.modify orderIdx (Order.setLevelIdx kNullIdx)
    assert (0 < l.bandOrders) "band_orders_ > 0"
    let l := { l with
      levels := l.setBandLevel offset.toInt level
      bandOrders := l.bandOrders - 1 }
    let l ← l.settleBest level offset
    pure (l, pool)

def empty (l : PriceLadder) : Bool := l.bestOffset = kNullIdx ∧ l.overflow.isEmpty

/-- The best price of the overflow map: `rbegin()` for bids, `begin()` for asks. -/
def overflowBest (l : PriceLadder) : Option PriceTicks :=
  if l.side = .kBuy then l.overflow.keys.getLast? else l.overflow.keys.head?

def bestPrice (l : PriceLadder) : Exec PriceTicks := do
  assert (¬ l.empty) "!empty()"
  match l.overflowBest with
  | none => addI64 l.lowPrice l.bestOffset.toInt64
  | some overflowBest =>
    if l.bestOffset = kNullIdx then
      pure overflowBest
    else
      let bandBest ← addI64 l.lowPrice l.bestOffset.toInt64
      pure (if l.side = .kBuy then max bandBest overflowBest else min bandBest overflowBest)

def levelAt (l : PriceLadder) (price : PriceTicks) : Exec LevelRef := do
  let inBand ← l.inBand price
  if inBand then
    let offset ← subI64 price l.lowPrice
    pure (.band offset.toInt)
  else
    assert (price ∈ l.overflow) "it != overflow_.end()"
    pure (.overflow price)

/-- Reading through a level reference. -/
def load (l : PriceLadder) : LevelRef → Exec PriceLevel
  | .band index => l.bandLevel index
  | .overflow price => pure (l.overflow.getD price {})

/-- Writing through a level reference. -/
def store (l : PriceLadder) (ref : LevelRef) (level : PriceLevel) : PriceLadder :=
  match ref with
  | .band index => { l with levels := l.setBandLevel index level }
  | .overflow price => { l with overflow := l.overflow.insert price level }

theorem width_toNat {radius : UInt32} (h : radius.toNat ≤ 2 ^ 24) :
    (2 * radius + 1).toNat = 2 * radius.toNat + 1 := by
  rw [UInt32.toNat_add, UInt32.toNat_mul]
  simp only [UInt32.toNat_one, show (2 : UInt32).toNat = 2 from rfl]
  omega

/-! The geometry of the band, and the level that belongs to a price. -/

def InBand (l : PriceLadder) (p : PriceTicks) : Prop :=
  l.lowPrice.toInt ≤ p.toInt ∧ p.toInt < l.lowPrice.toInt + l.levels.size

instance (l : PriceLadder) (p : PriceTicks) : Decidable (l.InBand p) :=
  inferInstanceAs (Decidable (_ ∧ _))

/-- The band ends inside the range of a price. -/
structure Geometry (l : PriceLadder) : Prop where
  size : l.levels.size ≤ 2 ^ 25 + 1
  high : l.lowPrice.toInt + l.levels.size ≤ 2 ^ 63 - 1

def offsetOf (l : PriceLadder) (p : PriceTicks) : Int32 :=
  Int32.ofInt (p.toInt - l.lowPrice.toInt)

/-- The level at a price, or the empty level where none exists. -/
def level (l : PriceLadder) (p : PriceTicks) : PriceLevel :=
  if l.InBand p then l.levels.getD (p.toInt - l.lowPrice.toInt).toNat {}
  else l.overflow.getD p {}

/-- What `Order::level_idx` holds for an order resting at a price. -/
def levelIdxOf (l : PriceLadder) (p : PriceTicks) : Int32 :=
  if l.InBand p then l.offsetOf p else kOverflowIdx

variable {l l' : PriceLadder} {p q : PriceTicks}

theorem inBand_ok (hg : l.Geometry) (p : PriceTicks) : l.inBand p = .ok (decide (l.InBand p)) := by
  have h₁ := hg.size
  have h₂ := hg.high
  have h₃ := l.lowPrice.le_toInt
  unfold inBand InBand
  by_cases hlow : l.lowPrice ≤ p
  · have hn : (Int64.ofNat l.levels.size).toInt = l.levels.size :=
      Int64.toInt_ofNat_of_lt (by omega)
    rw [if_pos hlow, addI64, hn, int64_ok (by omega) (by omega)]
    simp only [ok_bind, pure_eq_ok, Int64.lt_iff_toInt_lt, Int64.le_iff_toInt_le] at hlow ⊢
    rw [int64_toInt (by omega) (by omega)]
    simp [hlow]
  · rw [if_neg hlow]
    rw [Int64.le_iff_toInt_le] at hlow
    simp [hlow]

theorem offsetOf_toInt (hg : l.Geometry) (hb : l.InBand p) :
    (l.offsetOf p).toInt = p.toInt - l.lowPrice.toInt := by
  have h₁ := hg.size
  obtain ⟨h₂, h₃⟩ := hb
  exact int32_toInt (by omega) (by omega)

theorem distance_ok (hg : l.Geometry) (hb : l.InBand p) :
    ∃ d, subI64 p l.lowPrice = .ok d ∧ d.toInt = p.toInt - l.lowPrice.toInt ∧
      d.toInt32 = l.offsetOf p := by
  have h₁ := hg.size
  obtain ⟨h₂, h₃⟩ := hb
  refine ⟨_, int64_ok (by omega) (by omega), int64_toInt (by omega) (by omega), ?_⟩
  rw [Int64.toInt32_ofInt, offsetOf]

theorem bandLevel_ok (hb : l.InBand p) :
    l.bandLevel (p.toInt - l.lowPrice.toInt) = .ok (l.level p) := by
  have hr : 0 ≤ p.toInt - l.lowPrice.toInt ∧ p.toInt - l.lowPrice.toInt < l.levels.size := by
    obtain ⟨h₁, h₂⟩ := hb
    omega
  rw [bandLevel, if_pos hr, level, if_pos hb]

theorem offsetOf_ne (hg : l.Geometry) (hb : l.InBand p) :
    l.offsetOf p ≠ kNullIdx ∧ l.offsetOf p ≠ kOverflowIdx := by
  have h := offsetOf_toInt hg hb
  obtain ⟨h₁, _⟩ := hb
  constructor
  · intro e
    rw [e, show kNullIdx.toInt = -1 from rfl] at h
    omega
  · intro e
    rw [e, show kOverflowIdx.toInt = -2 from rfl] at h
    omega

theorem offsetOf_inj (hg : l.Geometry) (hp : l.InBand p) (hq : l.InBand q)
    (h : l.offsetOf p = l.offsetOf q) : p = q := by
  have h₁ := offsetOf_toInt hg hp
  have h₂ := offsetOf_toInt hg hq
  rw [h] at h₁
  exact Int64.toInt_inj.mp (by omega)

theorem isBetter_iff (hg : l.Geometry) (hp : l.InBand p) (hq : l.InBand q) :
    l.isBetter (l.offsetOf p) (l.offsetOf q) = true ↔ l.side.Better p q := by
  have h₁ := offsetOf_toInt hg hp
  have h₂ := offsetOf_toInt hg hq
  unfold isBetter Side.Better
  split <;> simp only [decide_eq_true_eq, Int32.lt_iff_toInt_lt, Int64.lt_iff_toInt_lt] <;> omega

/-- From `l` to `l'` nothing changed away from price `p`. -/
structure Updates (l l' : PriceLadder) (p : PriceTicks) : Prop where
  side : l'.side = l.side
  lowPrice : l'.lowPrice = l.lowPrice
  size : l'.levels.size = l.levels.size
  level : ∀ q, q ≠ p → l'.level q = l.level q
  overflow : ∀ q, q ≠ p → (q ∈ l'.overflow ↔ q ∈ l.overflow)

namespace Updates

theorem inBand (h : Updates l l' p) : l'.InBand q ↔ l.InBand q := by
  rw [InBand, InBand, h.lowPrice, h.size]

theorem offsetOf (h : Updates l l' p) : l'.offsetOf q = l.offsetOf q := by
  rw [PriceLadder.offsetOf, PriceLadder.offsetOf, h.lowPrice]

theorem levelIdxOf (h : Updates l l' p) : l'.levelIdxOf q = l.levelIdxOf q := by
  simp only [PriceLadder.levelIdxOf, h.inBand, h.offsetOf]

theorem geometry (h : Updates l l' p) (hg : l.Geometry) : l'.Geometry :=
  ⟨by rw [h.size]; exact hg.size, by rw [h.size, h.lowPrice]; exact hg.high⟩

end Updates

theorem updates_setBandLevel (hg : l.Geometry) (hb : l.InBand p) (level : PriceLevel)
    (bestOffset : Int32) (bandOrders : UInt32) :
    Updates l { l with
        levels := l.setBandLevel (l.offsetOf p).toInt level, bestOffset, bandOrders } p ∧
      ({ l with levels := l.setBandLevel (l.offsetOf p).toInt level,
                bestOffset, bandOrders } : PriceLadder).level p = level := by
  have hoff := offsetOf_toInt hg hb
  refine ⟨⟨rfl, rfl, by simp [setBandLevel], fun q hq => ?_, fun q _ => Iff.rfl⟩, ?_⟩
  · have hne : p.toInt ≠ q.toInt := fun e => hq (Int64.toInt_inj.mp e.symm)
    obtain ⟨h₁, h₂⟩ := hb
    unfold PriceLadder.level InBand setBandLevel
    simp only [Array.size_setIfInBounds, hoff]
    by_cases hqb : l.lowPrice.toInt ≤ q.toInt ∧ q.toInt < l.lowPrice.toInt + l.levels.size
    · obtain ⟨h₃, h₄⟩ := hqb
      simp only [if_pos (And.intro h₃ h₄), Array.getD_eq_getD_getElem?]
      rw [Array.getElem?_setIfInBounds_ne (by omega)]
    · rw [if_neg hqb]
      exact (if_neg hqb).symm
  · obtain ⟨h₁, h₂⟩ := hb
    unfold PriceLadder.level InBand setBandLevel
    simp only [Array.size_setIfInBounds, hoff]
    rw [if_pos ⟨h₁, h₂⟩]
    simp only [Array.getD_eq_getD_getElem?]
    rw [Array.getElem?_setIfInBounds_self_of_lt (by omega)]
    rfl

theorem updates_insert (hb : ¬ l.InBand p) (level : PriceLevel) :
    Updates l { l with overflow := l.overflow.insert p level } p ∧
      ({ l with overflow := l.overflow.insert p level } : PriceLadder).level p = level := by
  refine ⟨⟨rfl, rfl, rfl, fun q hq => ?_, fun q hq => ?_⟩, ?_⟩
  · unfold PriceLadder.level InBand
    simp [Std.ExtTreeMap.getD_insert, Ne.symm hq]
  · simp [Std.ExtTreeMap.mem_insert, Ne.symm hq]
  · refine (if_neg hb).trans ?_
    simp

theorem updates_erase (hb : ¬ l.InBand p) :
    Updates l { l with overflow := l.overflow.erase p } p ∧
      ({ l with overflow := l.overflow.erase p } : PriceLadder).level p = {} := by
  refine ⟨⟨rfl, rfl, rfl, fun q hq => ?_, fun q hq => ?_⟩, ?_⟩
  · unfold PriceLadder.level InBand
    simp [Std.ExtTreeMap.getD_erase, Ne.symm hq]
  · simp [Std.ExtTreeMap.mem_erase, Ne.symm hq]
  · refine (if_neg hb).trans ?_
    simp

theorem price_at (hg : l.Geometry) {o : Int} (h₁ : 0 ≤ o) (h₂ : o < l.levels.size) :
    ∃ q, l.InBand q ∧ q.toInt = l.lowPrice.toInt + o := by
  have h₃ := hg.high
  have h₄ := l.lowPrice.le_toInt
  have hq := int64_toInt (n := l.lowPrice.toInt + o) (by omega) (by omega)
  exact ⟨_, ⟨by omega, by omega⟩, hq⟩

/-- The scan stops at the first non-empty level, here the one `n` steps ahead. -/
theorem scan_ok (hg : l.Geometry) (step stop : Int32) (target : PriceTicks)
    (hstep : step.toInt = 1 ∨ step.toInt = -1) (hb : l.InBand target)
    (hstop : stop.toInt = -1 ∨ stop.toInt = l.levels.size) (htarget : ¬ (l.level target).empty)
    (n : Nat) : ∀ (fuel : Nat) (off : Int32), n < fuel →
    (0 ≤ off.toInt ∧ off.toInt < l.levels.size) →
    off.toInt + n * step.toInt = target.toInt - l.lowPrice.toInt →
    (∀ q, l.InBand q → (l.level q).empty = false →
      ∀ k : Nat, k < n → off.toInt + k * step.toInt ≠ q.toInt - l.lowPrice.toInt) →
    l.scan step stop fuel off = .ok (l.offsetOf target) := by
  have hsize := hg.size
  have hoff := offsetOf_toInt hg hb
  induction n with
  | zero =>
    intro fuel off hf hrange hn _
    obtain ⟨fuel, rfl⟩ : ∃ m, fuel = m + 1 := ⟨fuel - 1, by omega⟩
    have heq : off = l.offsetOf target := Int32.toInt_inj.mp (by omega)
    have hne : off ≠ stop := by
      rintro rfl
      omega
    rw [scan, if_neg hne, heq, hoff, bandLevel_ok hb, ok_bind, if_pos (by simpa using htarget),
      pure_eq_ok]
  | succ n ih =>
    intro fuel off hf hrange hn hgap
    obtain ⟨fuel, rfl⟩ : ∃ m, fuel = m + 1 := ⟨fuel - 1, by omega⟩
    have hne : off ≠ stop := by
      rintro rfl
      omega
    obtain ⟨q, hqb, hq⟩ := price_at hg hrange.1 hrange.2
    have hlevel : l.bandLevel off.toInt = .ok (l.level q) := by
      rw [← bandLevel_ok hqb, hq]
      congr 1
      omega
    have hempty : (l.level q).empty = true := by
      by_contra hc
      refine hgap q hqb (by simpa using hc) 0 (by omega) ?_
      omega
    have hcast : ((n + 1 : Nat) : Int) * step.toInt = n * step.toInt + step.toInt := by
      push_cast
      ring
    have hnext : 0 ≤ off.toInt + step.toInt ∧ off.toInt + step.toInt < l.levels.size := by
      obtain ⟨ht₁, ht₂⟩ := hb
      rcases hstep with hs | hs <;> rw [hs] at hn ⊢ <;> omega
    obtain ⟨off', hadd, htoInt⟩ := @addI32_ok off step (by omega) (by omega)
    rw [scan, if_neg hne, hlevel, ok_bind, if_neg (by simp [hempty]), hadd, ok_bind]
    refine ih fuel _ (by omega) (by rw [htoInt]; exact hnext) (by rw [htoInt]; omega) ?_
    intro r hr hrne k hk hkr
    refine hgap r hr hrne (k + 1) (by omega) ?_
    rw [htoInt] at hkr
    push_cast
    rw [← hkr]
    ring

theorem start_ok (hg : l.Geometry) (hp : l.InBand p) (hbest : l.bestOffset = l.offsetOf p)
    {step : Int32} (hstep : step.toInt = 1 ∨ step.toInt = -1) :
    ∃ start, addI32 l.bestOffset step = .ok start ∧
      start.toInt = p.toInt - l.lowPrice.toInt + step.toInt := by
  have hsize := hg.size
  have hoff := offsetOf_toInt hg hp
  obtain ⟨h₁, h₂⟩ := hp
  rw [← hbest] at hoff
  rw [← hoff]
  exact addI32_ok (by omega) (by omega)

/-- `AdvanceBest` moves the cursor from `p` to the next non-empty price `q`. -/
theorem advanceBest_ok (hg : l.Geometry) (hcount : 0 < l.bandOrders) (hp : l.InBand p)
    (hq : l.InBand q) (hbest : l.bestOffset = l.offsetOf p) (hlt : l.side.Better p q)
    (hne : ¬ (l.level q).empty)
    (hgap : ∀ r, l.InBand r → l.side.Better p r → l.side.Better r q → (l.level r).empty) :
    l.advanceBest = .ok { l with bestOffset := l.offsetOf q } := by
  have hsize := hg.size
  have hop := offsetOf_toInt hg hp
  have hoq := offsetOf_toInt hg hq
  obtain ⟨hp₁, hp₂⟩ := hp
  obtain ⟨hq₁, hq₂⟩ := hq
  have hlen : (Int32.ofNat l.levels.size).toInt = l.levels.size :=
    Int32.toInt_ofNat_of_lt (by omega)
  by_cases hs : l.side = .kBuy
  · rw [hs, Side.better_buy] at hlt
    have hneg : (-1 : Int32).toInt = -1 := rfl
    obtain ⟨start, hadd, hstart⟩ := start_ok hg ⟨hp₁, hp₂⟩ hbest (.inr hneg)
    have hscan := scan_ok hg (-1) (-1) q (.inr rfl) ⟨hq₁, hq₂⟩ (.inl rfl)
      hne (p.toInt - q.toInt - 1).toNat (l.levels.size + 1) _ (by omega)
      (by rw [hstart]; omega) (by rw [hstart, hneg]; omega)
      (fun r hr hrne k hk hkr => by
        rw [hstart, hneg] at hkr
        have := hgap r hr (by rw [hs, Side.better_buy]; omega) (by rw [hs, Side.better_buy]; omega)
        rw [this] at hrne
        cases hrne)
    simp only [advanceBest, assert_pos hcount, ok_bind, if_pos hs, hadd, hscan, pure_eq_ok]
  · rw [Side.better_of_ne hs] at hlt
    have hone : (1 : Int32).toInt = 1 := rfl
    obtain ⟨start, hadd, hstart⟩ := start_ok hg ⟨hp₁, hp₂⟩ hbest (.inl hone)
    have hscan := scan_ok hg 1 (Int32.ofNat l.levels.size) q (.inl rfl)
      ⟨hq₁, hq₂⟩ (.inr hlen) hne (q.toInt - p.toInt - 1).toNat (l.levels.size + 1) _ (by omega)
      (by rw [hstart]; omega) (by rw [hstart, hone]; omega)
      (fun r hr hrne k hk hkr => by
        rw [hstart, hone] at hkr
        have := hgap r hr (by rw [Side.better_of_ne hs]; omega)
          (by rw [Side.better_of_ne hs]; omega)
        rw [this] at hrne
        cases hrne)
    simp only [advanceBest, assert_pos hcount, ok_bind, if_neg hs, hadd, hscan, pure_eq_ok]

end PriceLadder

end LimitOrderBook
