import LimitOrderBook.PriceLadder

/-!
`order_book.h`: the optimized book, a pool and one ladder per side. Events go
to the sink in the order of the returned list.
-/

set_option autoImplicit false

namespace LimitOrderBook
open Checked

structure OrderBook where
  pool : OrderPool
  bids : PriceLadder
  asks : PriceLadder

/-- What `add` writes into the slot of an order that rests. -/
def Order.submitted (price : PriceTicks) (qty remaining : Qty) (side : Side) (type : OrderType)
    (o : Order) : Order :=
  { o with priceTicks := price, qty, remaining, side, type, flags := 0 }

def Order.setRemaining (remaining : Qty) (o : Order) : Order := { o with remaining }

namespace OrderBook

def new (anchorPrice : PriceTicks) (bandRadius poolCapacity : UInt32) : Exec OrderBook := do
  let pool ← OrderPool.new poolCapacity
  let bids ← PriceLadder.new .kBuy anchorPrice bandRadius
  let asks ← PriceLadder.new .kSell anchorPrice bandRadius
  pure { pool, bids, asks }

def ladder (b : OrderBook) (side : Side) : PriceLadder :=
  if side = .kBuy then b.bids else b.asks

def setLadder (b : OrderBook) (side : Side) (l : PriceLadder) : OrderBook :=
  if side = .kBuy then { b with bids := l } else { b with asks := l }

def uncrossed (b : OrderBook) : Exec Bool :=
  if b.bids.empty ∨ b.asks.empty then pure true
  else do
    let bid ← b.bids.bestPrice
    let ask ← b.asks.bestPrice
    pure (decide (bid < ask))

/-- `assert(uncrossed())`, the only assertion of a book crossed by `add_limit`
that can fail, so the only one that depends on `NDEBUG`. -/
def assertUncrossed (ndebug : Bool) (b : OrderBook) : Exec Unit :=
  if ndebug then pure ()
  else do
    let ok ← b.uncrossed
    assert ok "matching left the book crossed"

/-- One iteration of the loop of `Match`; `none` when the loop is over. -/
def matchStep (b : OrderBook) (takerSide : Side) (limitPrice : PriceTicks) (takerId : OrderId)
    (remaining : Qty) : Exec (Option (OrderBook × Qty × List Event)) := do
  let opposite := b.ladder takerSide.opposite
  if remaining = 0 ∨ opposite.empty then pure none
  else
    let levelPx ← opposite.bestPrice
    if ¬ crosses takerSide limitPrice levelPx then pure none
    else
      let ref ← opposite.levelAt levelPx
      let level ← opposite.load ref
      assert (level.headIdx ≠ kNullIdx) "best level of a non-empty side cannot be empty"
      let makerIdx := level.headIdx.toUInt32
      let maker ← b.pool.get makerIdx
      let fill := min remaining maker.remaining
      assert (0 < fill) "zero-qty fill: sweep would not progress"
      let remaining := remaining - fill
      let makerLeft := maker.remaining - fill
      let events := [
        makeEvent .kTraded maker.side .kNone fill makerLeft maker.priceTicks maker.orderId,
        makeEvent .kTraded takerSide .kNone fill remaining maker.priceTicks takerId]
      if makerLeft = 0 then
        let (opposite, pool) ← opposite.removeOrder b.pool makerIdx
        let pool ← pool.free makerIdx
        pure (some ({ b with pool }.setLadder takerSide.opposite opposite, remaining, events))
      else
        let pool ← b.pool.modify makerIdx (Order.setRemaining makerLeft)
        let opposite := opposite.store ref { level with totalQty := level.totalQty - fill.toUInt64 }
        pure (some ({ b with pool }.setLadder takerSide.opposite opposite, remaining, events))

def matchLoop (takerSide : Side) (limitPrice : PriceTicks) (takerId : OrderId) :
    Nat → OrderBook → Qty → List Event → Exec (OrderBook × Qty × List Event)
  | 0, _, _, _ => .error .outOfFuel
  | fuel + 1, b, remaining, events => do
    match ← b.matchStep takerSide limitPrice takerId remaining with
    | none => pure (b, remaining, events)
    | some (b, remaining, pair) =>
      matchLoop takerSide limitPrice takerId fuel b remaining (events ++ pair)

/-- `Match`. Every iteration but the last fills a different maker. -/
def sweepOpposite (b : OrderBook) (takerSide : Side) (limitPrice : PriceTicks) (qty : Qty)
    (takerId : OrderId) : Exec (OrderBook × Qty × List Event) :=
  matchLoop takerSide limitPrice takerId (b.pool.slots.size + 1) b qty []

/-- The part of `add` between the admission of the order and the last assertion. -/
def execute (b : OrderBook) (id : OrderId) (side : Side) (type : OrderType)
    (price : PriceTicks) (qty : Qty) : Exec (OrderBook × List Event) := do
  let orderPx := if type = .kMarket then 0 else price
  let accepted := makeEvent .kAccepted side .kNone qty qty orderPx id
  let (b, remaining, trades) ← b.sweepOpposite side (takerLimit side type price) qty id
  assert (remaining ≤ qty) "fill accounting underflow"
  let index := indexOf id
  if remaining = 0 ∨ type ≠ .kLimit then
    let canceled :=
      if 0 < remaining then [makeEvent .kCanceled side .kNone remaining 0 orderPx id] else []
    let pool ← b.pool.free index
    pure ({ b with pool }, accepted :: trades ++ canceled)
  else
    let pool ← b.pool.modify index (Order.submitted price qty remaining side type)
    let (ladder, pool) ← (b.ladder side).pushOrder pool index
    pure ({ b with pool }.setLadder side ladder, accepted :: trades)

def add (ndebug : Bool) (b : OrderBook) (side : Side) (type : OrderType) (price : PriceTicks)
    (qty : Qty) : Exec (OrderId × OrderBook × List Event) := do
  let reject (reason : RejectReason) :=
    (kInvalidOrderId, b, [makeEvent .kRejected side reason qty 0 price kInvalidOrderId])
  if qty = 0 then pure (reject .kInvalidQty)
  else if type ≠ .kMarket ∧ price ≤ 0 then pure (reject .kInvalidPrice)
  else
    let (id, pool) ← b.pool.alloc
    if id = kInvalidOrderId then pure (reject .kPoolExhausted)
    else
      let (b, events) ← { b with pool }.execute id side type price qty
      b.assertUncrossed ndebug
      pure (id, b, events)

def addLimit (b : OrderBook) (side : Side) (price : PriceTicks) (qty : Qty) :
    Exec (OrderId × OrderBook) := do
  if qty = 0 ∨ price ≤ 0 then pure (kInvalidOrderId, b)
  else
    let (id, pool) ← b.pool.alloc
    if id = kInvalidOrderId then pure (kInvalidOrderId, b)
    else
      let pool ← pool.modify (indexOf id) (Order.submitted price qty qty side .kLimit)
      let (ladder, pool) ← (b.ladder side).pushOrder pool (indexOf id)
      pure (id, { b with pool }.setLadder side ladder)

def cancel (b : OrderBook) (id : OrderId) : Exec (Bool × OrderBook × List Event) := do
  match b.pool.find id with
  | none => pure (false, b, [makeEvent .kRejected .kBuy .kUnknownOrder 0 0 0 id])
  | some order =>
    let index := indexOf id
    let (ladder, pool) ← (b.ladder order.side).removeOrder b.pool index
    let pool ← pool.free index
    pure (true, { b with pool }.setLadder order.side ladder,
      [makeEvent .kCanceled order.side .kNone order.remaining 0 order.priceTicks id])

def bestBid (b : OrderBook) : Exec (Option PriceTicks) :=
  if b.bids.empty then pure none
  else do
    let p ← b.bids.bestPrice
    pure (some p)

def bestAsk (b : OrderBook) : Exec (Option PriceTicks) :=
  if b.asks.empty then pure none
  else do
    let p ← b.asks.bestPrice
    pure (some p)

def qtyAt (b : OrderBook) (side : Side) (price : PriceTicks) : Exec UInt64 := do
  let level ← (b.ladder side).findLevel price
  pure (level.elim 0 PriceLevel.totalQty)

def ordersAt (b : OrderBook) (side : Side) (price : PriceTicks) : Exec UInt32 := do
  let level ← (b.ladder side).findLevel price
  pure (level.elim 0 PriceLevel.orderCount)

def openOrders (b : OrderBook) : UInt32 := b.pool.liveCount

def contains (b : OrderBook) (id : OrderId) : Bool := (b.pool.find id).isSome

end OrderBook

end LimitOrderBook
