import LimitOrderBook.Lib.Checked

/-!
The scalar types, enumerations and wire records of `types.h`.
-/

set_option autoImplicit false

namespace LimitOrderBook

abbrev PriceTicks := Int64
abbrev Qty := UInt32
abbrev OrderId := UInt64

def kInvalidOrderId : OrderId := 0

/-- `enum class Side : std::uint8_t`. A byte read from a file need not be a
declared value, so the enumeration keeps the byte. -/
structure Side where
  byte : UInt8
  deriving DecidableEq, Repr

def Side.kBuy : Side := ⟨0⟩
def Side.kSell : Side := ⟨1⟩

def Side.Declared (s : Side) : Prop := s = .kBuy ∨ s = .kSell

instance (s : Side) : Decidable s.Declared := inferInstanceAs (Decidable (_ ∨ _))

structure OrderType where
  byte : UInt8
  deriving DecidableEq, Repr

def OrderType.kLimit : OrderType := ⟨0⟩
def OrderType.kMarket : OrderType := ⟨1⟩
def OrderType.kIoc : OrderType := ⟨2⟩

def OrderType.Declared (t : OrderType) : Prop := t = .kLimit ∨ t = .kMarket ∨ t = .kIoc

instance (t : OrderType) : Decidable t.Declared := inferInstanceAs (Decidable (_ ∨ _))

structure CommandType where
  byte : UInt8
  deriving DecidableEq, Repr

def CommandType.kNew : CommandType := ⟨0⟩
def CommandType.kCancel : CommandType := ⟨1⟩

/-- Events and reasons only ever come from the engine itself. -/
inductive EventType where
  | kAccepted | kRejected | kTraded | kCanceled
  deriving DecidableEq, Repr

inductive RejectReason where
  | kNone | kInvalidQty | kInvalidPrice | kPoolExhausted | kUnknownOrder
  deriving DecidableEq, Repr

structure Command where
  kind : CommandType
  side : Side
  type : OrderType
  pad0 : UInt8
  qty : Qty
  priceTicks : PriceTicks
  orderId : OrderId
  deriving DecidableEq, Repr

structure Event where
  kind : EventType
  side : Side
  reason : RejectReason
  pad0 : UInt8
  qty : Qty
  remaining : Qty
  pad1 : UInt32
  priceTicks : PriceTicks
  orderId : OrderId
  deriving DecidableEq, Repr

def kDefaultBandRadius : UInt32 := 4096

def kDefaultPoolCapacity : UInt32 := (1 : UInt32) <<< 20

structure EngineConfig where
  anchorPrice : PriceTicks := 0
  bandRadius : UInt32 := kDefaultBandRadius
  poolCapacity : UInt32 := kDefaultPoolCapacity
  deriving DecidableEq, Repr

/-- A band and a pool the constructors accept, with a band that ends below the
largest price. -/
structure EngineConfig.Valid (cfg : EngineConfig) : Prop where
  anchor : 0 < cfg.anchorPrice.toInt
  radius : 0 < cfg.bandRadius.toNat ∧ cfg.bandRadius.toNat ≤ 2 ^ 24
  high : cfg.anchorPrice.toInt + cfg.bandRadius.toNat + 1 ≤ 2 ^ 63 - 1
  capacity : cfg.poolCapacity.toNat ≤ 2 ^ 31 - 1

/-- `MakeEvent`, the same function in both books. -/
def makeEvent (kind : EventType) (side : Side) (reason : RejectReason) (qty remaining : Qty)
    (price : PriceTicks) (id : OrderId) : Event :=
  { kind, side, reason, pad0 := 0, qty, remaining, pad1 := 0, priceTicks := price, orderId := id }

/-- The ladder a side byte selects: everything that is not a buy is handled as a sell. -/
def Side.isBuy (s : Side) : Bool := s = .kBuy

def Side.resolve (s : Side) : Side := if s = .kBuy then .kBuy else .kSell

def Side.opposite (s : Side) : Side := if s = .kBuy then .kSell else .kBuy

@[simp] theorem Side.resolve_isBuy (s : Side) : s.resolve.isBuy = s.isBuy := by
  unfold resolve isBuy
  split <;> simp_all [kSell, kBuy]

@[simp] theorem Side.opposite_isBuy (s : Side) : s.opposite.isBuy = !s.isBuy := by
  unfold opposite isBuy
  split <;> simp_all [kSell, kBuy]

theorem Side.resolve_congr {s t : Side} (h : s.isBuy = t.isBuy) : s.resolve = t.resolve := by
  have hst : s = .kBuy ↔ t = .kBuy := by simpa [isBuy] using h
  simp only [resolve, hst]

theorem Side.resolve_of_declared {s : Side} (h : s.Declared) : s.resolve = s := by
  rcases h with rfl | rfl <;> rfl

theorem Side.opposite_declared (s : Side) : s.opposite.Declared := by
  unfold opposite Declared
  split <;> simp

/-- `Crosses`: a buy crosses levels priced at or below its limit, a sell at or above. -/
def crosses (takerSide : Side) (limitPrice levelPrice : PriceTicks) : Bool :=
  if takerSide = .kBuy then levelPrice ≤ limitPrice else limitPrice ≤ levelPrice

/-- A market order is a limit order at a price nothing beats. -/
def takerLimit (side : Side) (type : OrderType) (price : PriceTicks) : PriceTicks :=
  if type ≠ .kMarket then price
  else if side = .kBuy then Int64.maxValue else Int64.minValue

theorem crosses_market (s : Side) (p q : PriceTicks) : crosses s (takerLimit s .kMarket p) q := by
  have h₁ := q.toInt_le
  have h₂ := q.le_toInt
  unfold crosses takerLimit
  by_cases hs : s = .kBuy
  · simp only [ne_eq, not_true_eq_false, if_false, if_pos hs, decide_eq_true_eq,
      Int64.le_iff_toInt_le]
    exact h₁
  · simp only [ne_eq, not_true_eq_false, if_false, if_neg hs, decide_eq_true_eq,
      Int64.le_iff_toInt_le]
    exact h₂

/-- Toward the front of a side: higher bids first, lower asks first. -/
def Side.Better (s : Side) (a b : PriceTicks) : Prop := if s = .kBuy then b < a else a < b

instance (s : Side) : DecidableRel s.Better := fun a b =>
  inferInstanceAs (Decidable (if s = .kBuy then b < a else a < b))

theorem Side.better_buy {a b : PriceTicks} : Side.kBuy.Better a b ↔ b.toInt < a.toInt := by
  simp [Side.Better, Int64.lt_iff_toInt_lt]

theorem Side.better_of_ne {s : Side} (h : s ≠ .kBuy) {a b : PriceTicks} :
    s.Better a b ↔ a.toInt < b.toInt := by
  simp [Side.Better, h, Int64.lt_iff_toInt_lt]

instance (s : Side) : IsStrictTotalOrder PriceTicks s.Better where
  irrefl a h := by
    by_cases hs : s = .kBuy
    · subst hs; rw [Side.better_buy] at h; omega
    · rw [Side.better_of_ne hs] at h; omega
  trans a b c hab hbc := by
    by_cases hs : s = .kBuy
    · subst hs; rw [Side.better_buy] at *; omega
    · rw [Side.better_of_ne hs] at *; omega
  trichotomous a b hab hba := by
    by_cases hs : s = .kBuy
    · subst hs
      rw [Side.better_buy] at *
      exact Int64.toInt_inj.mp (by omega)
    · rw [Side.better_of_ne hs] at *
      exact Int64.toInt_inj.mp (by omega)

theorem Side.not_better_trans {s : Side} {a b c : PriceTicks} (hab : ¬ s.Better a b)
    (hbc : ¬ s.Better b c) : ¬ s.Better a c := by
  by_cases hs : s = .kBuy
  · subst hs
    rw [Side.better_buy] at *
    omega
  · rw [Side.better_of_ne hs] at *
    omega

theorem Side.best_of_two (s : Side) (a b : PriceTicks) :
    ((if s = .kBuy then max a b else min a b) = a ∨ (if s = .kBuy then max a b else min a b) = b) ∧
      ¬ s.Better a (if s = .kBuy then max a b else min a b) ∧
      ¬ s.Better b (if s = .kBuy then max a b else min a b) := by
  have hmax : max a b = if a ≤ b then b else a := rfl
  have hmin : min a b = if a ≤ b then a else b := rfl
  rw [hmax, hmin]
  simp only [Int64.le_iff_toInt_le]
  by_cases hs : s = .kBuy
  · subst hs
    simp only [if_true, Side.better_buy]
    split
    · exact ⟨.inr rfl, by omega, by omega⟩
    · exact ⟨.inl rfl, by omega, by omega⟩
  · simp only [if_neg hs, Side.better_of_ne hs]
    split
    · exact ⟨.inl rfl, by omega, by omega⟩
    · exact ⟨.inr rfl, by omega, by omega⟩

end LimitOrderBook
