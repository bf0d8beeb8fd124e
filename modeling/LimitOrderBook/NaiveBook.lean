import LimitOrderBook.QueueBook

/-!
`naive_book.h`: the reference book, sorted maps of FIFO lists with an index from
ids to list nodes. An iterator is named by the id of the order it points to.
-/

set_option autoImplicit false

namespace LimitOrderBook
open Checked

/-- `NaiveBook::NaiveOrder` has the fields of a resting order. -/
abbrev NaiveOrder := Resting

/-- `std::greater`, the order of the bids. -/
def greater (a b : PriceTicks) : Ordering := compare b a

instance : Std.TransCmp greater := inferInstanceAs (Std.TransCmp fun a b => compare b a)

instance : Std.LawfulEqCmp greater := inferInstanceAs (Std.LawfulEqCmp fun a b => compare b a)

abbrev Levels (cmp : PriceTicks → PriceTicks → Ordering) :=
  Std.ExtTreeMap PriceTicks (List NaiveOrder) cmp

structure Locator where
  side : Side
  price : PriceTicks
  it : OrderId
  deriving DecidableEq, Repr

abbrev Index := Std.ExtTreeMap OrderId Locator

structure NaiveBook where
  bids : Levels greater := ∅
  asks : Levels compare := ∅
  index : Index := ∅

namespace NaiveBook

section Map

variable {cmp : PriceTicks → PriceTicks → Ordering} [Std.TransCmp cmp]

/-- The loop of `Match` on one side map. -/
def matchLoop (crosses : PriceTicks → Bool) (takerId : OrderId) (takerSide : Side) :
    Nat → Levels cmp → Index → Qty → List Event → Exec (Levels cmp × Index × Qty × List Event)
  | 0, _, _, _, _ => .error .outOfFuel
  | fuel + 1, opposite, index, remaining, events =>
    match opposite.keys.head? with
    | none => pure (opposite, index, remaining, events)
    | some levelPx =>
      if remaining = 0 ∨ ¬ crosses levelPx then pure (opposite, index, remaining, events)
      else
        match opposite.getD levelPx [] with
        | [] => .error .danglingNode
        | maker :: level =>
          let fill := min remaining maker.remaining
          let left := maker.remaining - fill
          let remaining := remaining - fill
          let pair := [
            makeEvent .kTraded maker.side .kNone fill left maker.price maker.id,
            makeEvent .kTraded takerSide .kNone fill remaining maker.price takerId]
          if left = 0 then
            let opposite :=
              if level.isEmpty then opposite.erase levelPx else opposite.insert levelPx level
            matchLoop crosses takerId takerSide fuel opposite (index.erase maker.id) remaining
              (events ++ pair)
          else
            let opposite := opposite.insert levelPx ({ maker with remaining := left } :: level)
            matchLoop crosses takerId takerSide fuel opposite index remaining (events ++ pair)

def pushBack (m : Levels cmp) (order : NaiveOrder) : Levels cmp :=
  m.insert order.price (m.getD order.price [] ++ [order])

def eraseOrder (m : Levels cmp) (loc : Locator) : Exec (Levels cmp) := do
  assert (loc.price ∈ m) "level_it != side_map.end()"
  let level := (m.getD loc.price []).eraseP fun o => o.id = loc.it
  pure (if level.isEmpty then m.erase loc.price else m.insert loc.price level)

def levelQty (m : Levels cmp) (price : PriceTicks) : Qty :=
  match m[price]? with
  | none => 0
  | some level => level.foldl (fun total order => total + order.remaining) 0

def levelSize (m : Levels cmp) (price : PriceTicks) : Nat :=
  match m[price]? with
  | none => 0
  | some level => level.length

end Map

def contains (b : NaiveBook) (id : OrderId) : Bool := b.index.contains id

def rest (b : NaiveBook) (id : OrderId) (side : Side) (price : PriceTicks)
    (originalQty remaining : Qty) : NaiveBook :=
  let order : NaiveOrder := { id, price, qty := originalQty, remaining, side }
  let index := b.index.insertIfNew id { side, price, it := id }
  if side = .kBuy then { b with bids := pushBack b.bids order, index }
  else { b with asks := pushBack b.asks order, index }

/-- `Match` on the side opposite to the taker. -/
def sweepOpposite (b : NaiveBook) (id : OrderId) (side : Side) (isMarket : Bool)
    (price : PriceTicks) (qty : Qty) : Exec (NaiveBook × Qty × List Event) :=
  let fuel := b.index.size + 1
  if side = .kBuy then do
    let crosses (levelPx : PriceTicks) := isMarket || levelPx ≤ price
    let (asks, index, remaining, events) ← matchLoop crosses id side fuel b.asks b.index qty []
    pure ({ b with asks, index }, remaining, events)
  else do
    let crosses (levelPx : PriceTicks) := isMarket || price ≤ levelPx
    let (bids, index, remaining, events) ← matchLoop crosses id side fuel b.bids b.index qty []
    pure ({ b with bids, index }, remaining, events)

def add (b : NaiveBook) (id : OrderId) (side : Side) (type : OrderType) (price : PriceTicks)
    (qty : Qty) : Exec (Bool × NaiveBook × List Event) := do
  assert (id ≠ kInvalidOrderId) "id != kInvalidOrderId"
  assert (¬ b.contains id) "order ids must be unique"
  let reject (reason : RejectReason) :=
    (false, b, [makeEvent .kRejected side reason qty 0 price id])
  let isMarket : Bool := type = .kMarket
  if qty = 0 then pure (reject .kInvalidQty)
  else if ¬ isMarket ∧ price ≤ 0 then pure (reject .kInvalidPrice)
  else
    let orderPx := if isMarket then 0 else price
    let accepted := makeEvent .kAccepted side .kNone qty qty orderPx id
    let (b, remaining, trades) ← b.sweepOpposite id side isMarket price qty
    if 0 < remaining then
      if type = .kLimit then
        pure (true, b.rest id side price qty remaining, accepted :: trades)
      else
        pure (true, b,
          accepted :: trades ++ [makeEvent .kCanceled side .kNone remaining 0 orderPx id])
    else
      pure (true, b, accepted :: trades)

def addLimit (b : NaiveBook) (id : OrderId) (side : Side) (price : PriceTicks) (qty : Qty) :
    Exec (Bool × NaiveBook × List Event) := do
  assert (id ≠ kInvalidOrderId) "id != kInvalidOrderId"
  assert (¬ b.contains id) "order ids must be unique"
  let reject (reason : RejectReason) :=
    (false, b, [makeEvent .kRejected side reason qty 0 price id])
  if qty = 0 then pure (reject .kInvalidQty)
  else if price ≤ 0 then pure (reject .kInvalidPrice)
  else
    pure (true, b.rest id side price qty qty, [makeEvent .kAccepted side .kNone qty qty price id])

/-- Dereferencing the iterator of a locator. -/
def node (b : NaiveBook) (loc : Locator) : Exec NaiveOrder :=
  let level := if loc.side = .kBuy then b.bids.getD loc.price [] else b.asks.getD loc.price []
  match level.find? fun o => o.id = loc.it with
  | none => .error .danglingNode
  | some order => .ok order

def cancel (b : NaiveBook) (id : OrderId) : Exec (Bool × NaiveBook × List Event) :=
  match b.index[id]? with
  | none => pure (false, b, [makeEvent .kRejected .kBuy .kUnknownOrder 0 0 0 id])
  | some loc => do
    let order ← b.node loc
    let index := b.index.erase id
    let canceled := makeEvent .kCanceled loc.side .kNone order.remaining 0 loc.price id
    if loc.side = .kBuy then
      let bids ← eraseOrder b.bids loc
      pure (true, { b with bids, index }, [canceled])
    else
      let asks ← eraseOrder b.asks loc
      pure (true, { b with asks, index }, [canceled])

def bestBid (b : NaiveBook) : Option PriceTicks := b.bids.keys.head?

def bestAsk (b : NaiveBook) : Option PriceTicks := b.asks.keys.head?

def qtyAt (b : NaiveBook) (side : Side) (price : PriceTicks) : Qty :=
  if side = .kBuy then levelQty b.bids price else levelQty b.asks price

def ordersAt (b : NaiveBook) (side : Side) (price : PriceTicks) : Nat :=
  if side = .kBuy then levelSize b.bids price else levelSize b.asks price

def openOrders (b : NaiveBook) : Nat := b.index.size

end NaiveBook

end LimitOrderBook
