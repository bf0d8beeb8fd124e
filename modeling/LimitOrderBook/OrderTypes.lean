import LimitOrderBook.LadderUndo
import LimitOrderBook.QueueRun

set_option autoImplicit false

namespace LimitOrderBook
open Checked PriorityQueue

/-- The slot without what `add` writes into it for an order that rests. -/
def Order.scrubbed (o : Order) : Order :=
  { o with priceTicks := 0, qty := 0, remaining := 0, side := ⟨0⟩, type := ⟨0⟩ }

def OrderPool.scrub (p : OrderPool) (i : UInt32) : OrderPool := p.set i (p.slot i).scrubbed

/-- The book without what its last order left in the slot `i`. -/
def OrderBook.scrub (b : OrderBook) (i : UInt32) : OrderBook := { b with pool := b.pool.scrub i }

def OrderBook.addThenCancel (ndebug : Bool) (b : OrderBook) (side : Side) (price : PriceTicks)
    (qty : Qty) : Exec (OrderId × OrderBook × List Event) := do
  let (id, b, events) ← b.add ndebug side .kLimit price qty
  if b.contains id then
    let (_, b, canceled) ← b.cancel id
    pure (id, b, events ++ canceled)
  else
    pure (id, b, events)

/-- The event at price 0, if it is the acceptance or the cancel of the order `id`. -/
def Event.unpriced (id : OrderId) (e : Event) : Event :=
  if e.orderId = id ∧ (e.kind = .kAccepted ∨ e.kind = .kCanceled) then { e with priceTicks := 0 }
  else e

theorem crosses_far (s : Side) {p : PriceTicks} (hp : 0 < p.toInt) :
    crosses s (if s = .kBuy then Int64.maxValue else 1) p := by
  have h := p.toInt_le
  unfold crosses
  by_cases hs : s = .kBuy
  · simpa only [if_pos hs, decide_eq_true_eq, Int64.le_iff_toInt_le] using h
  · simp only [if_neg hs, decide_eq_true_eq, Int64.le_iff_toInt_le, Int64.toInt_one]
    omega

namespace OrderPool

variable {p : OrderPool} {i : UInt32}

theorem scrub_release (hi : i.toNat < p.slots.size) (hflags : (p.slot i).flags = 0)
    (price : PriceTicks) (qty remaining : Qty) (side : Side) (type : OrderType) :
    ((p.set i (Order.submitted price qty remaining side type (p.slot i))).release i).scrub i =
      (p.release i).scrub i := by
  have hset := slot_set hi (Order.submitted price qty remaining side type (p.slot i)) i
  have hi' : i.toNat < (p.set i (Order.submitted price qty remaining side type
    (p.slot i))).slots.size := by rwa [set_size]
  have h₁ := slot_release hi i
  have h₂ := slot_release hi' i
  rw [if_pos rfl] at hset h₁ h₂
  rw [hset] at h₂
  rw [scrub, scrub, h₁, h₂]
  simp only [release, set, Order.submitted, Order.scrubbed, hflags,
    Array.setIfInBounds_setIfInBounds]

theorem find_release {id : OrderId} (hi : (indexOf id).toNat < p.slots.size) :
    (p.release (indexOf id)).find id = none := by
  cases hf : (p.release (indexOf id)).find id with
  | none => rfl
  | some o =>
    obtain ⟨hl, _⟩ := find_eq_some.mp hf
    have hslot := slot_release hi (indexOf id)
    rw [if_pos rfl] at hslot
    rw [Live, hslot] at hl
    exact absurd rfl hl.2

end OrderPool

namespace OrderBook

variable {book book' : OrderBook} {side : Side} {type : OrderType} {price : PriceTicks} {qty : Qty}
  {id : OrderId} {ndebug : Bool}

theorem restore_ladder (p q : OrderPool) (l : PriceLadder) :
    { { book with pool := p }.setLadder side l with pool := q }.setLadder side
      (book.ladder side) = { book with pool := q } := by
  unfold setLadder ladder
  by_cases hs : side = .kBuy <;> simp [hs]

theorem add_admitted {pool : OrderPool} {events : List Event}
    (hok : QueueBook.refusal type price qty = none) (halloc : book.pool.alloc = .ok (id, pool))
    (hid : id ≠ kInvalidOrderId)
    (hrun : { book with pool }.execute id side type price qty = .ok (book', events))
    (hu : book'.assertUncrossed ndebug = .ok ()) :
    book.add ndebug side type price qty = .ok (id, book', events) := by
  obtain ⟨hqty, hprice⟩ := QueueBook.refusal_none_iff.mp hok
  have hbad : ¬ (type ≠ .kMarket ∧ price ≤ 0) := by
    rintro ⟨ht, hp⟩
    have hpos := hprice.resolve_left ht
    rw [Int64.lt_iff_toInt_lt] at hpos
    rw [Int64.le_iff_toInt_le] at hp
    omega
  unfold add
  simp only [if_neg hqty, if_neg hbad, halloc, ok_bind, if_neg hid, hrun, hu, pure_eq_ok]

theorem matchStep_congr {l l' : PriceTicks} {remaining : Qty}
    (h : ∀ p, (book.ladder side.opposite).bestPrice = .ok p →
      crosses side l p = crosses side l' p) :
    book.matchStep side l id remaining = book.matchStep side l' id remaining := by
  unfold matchStep
  cases hbest : (book.ladder side.opposite).bestPrice with
  | error e => simp only [hbest, error_bind]
  | ok p => simp only [hbest, ok_bind, h p hbest]

end OrderBook

namespace BookRep

variable {cfg : EngineConfig} {book : OrderBook} {b : QueueBook} {P : List UInt32} {side : Side}
  {price : PriceTicks} {qty : Qty} {id : OrderId}

theorem assertUncrossed_ok (h : BookRep cfg book b P) (hu : b.Uncrossed) (ndebug : Bool) :
    book.assertUncrossed ndebug = .ok () := by
  obtain ⟨ok, hok, hiff⟩ := h.uncrossed_rep
  rw [hiff.mpr hu] at hok
  cases ndebug with
  | true => rfl
  | false => simp [OrderBook.assertUncrossed, hok]

/-- Resting an order and canceling it comes down to freeing its slot. -/
theorem rest_cancel {remaining : Qty} (side : Side) (type : OrderType) (price : PriceTicks)
    (qty : Qty) (h : BookRep cfg book b [indexOf id])
    (hid : (book.pool.slot (indexOf id)).orderId = id)
    (hfree : (book.pool.slot (indexOf id)).Unlinked) (hpos : 1 ≤ remaining.toNat) :
    ∃ pool₁ l' pool₂,
      book.pool.modify (indexOf id) (Order.submitted price qty remaining side type) = .ok pool₁ ∧
      (book.ladder side).pushOrder pool₁ (indexOf id) = .ok (l', pool₂) ∧
      ({ book with pool := pool₂ }.setLadder side l').contains id = true ∧
      ({ book with pool := pool₂ }.setLadder side l').cancel id =
        .ok (true, { book with pool := pool₁.release (indexOf id) },
          [makeEvent .kCanceled side .kNone remaining 0 price id]) ∧
      (pool₁.release (indexOf id)).scrub (indexOf id) =
        (book.pool.release (indexOf id)).scrub (indexOf id) := by
  have hl : book.pool.Live (indexOf id) := (h.live _).mpr (.inr (by simp))
  have hnS : indexOf id ∉ slots (b.queue side) := fun hm =>
    h.apart _ (by simp) (mem_slots.mpr ⟨side, hm⟩)
  have hscrub := OrderPool.scrub_release hl.1 (h.flags _) price qty remaining side type
  have hlad := h.ladder_set (o := Order.submitted price qty remaining side type
    (book.pool.slot (indexOf id))) (List.mem_singleton.mpr rfl) side
  have hself := OrderPool.slot_set hl.1 (Order.submitted price qty remaining side type
    (book.pool.slot (indexOf id))) (indexOf id)
  have hsize := OrderPool.set_size book.pool (indexOf id) (Order.submitted price qty remaining side
    type (book.pool.slot (indexOf id)))
  rw [if_pos rfl] at hself
  generalize hpool : book.pool.set (indexOf id) (Order.submitted price qty remaining side type
    (book.pool.slot (indexOf id))) = pool₁ at *
  have hl₁ : pool₁.Live (indexOf id) := ⟨hsize ▸ hl.1, by rw [hself]; exact hl.2⟩
  obtain ⟨l', pool₂, hpush, hre, hremove⟩ := hlad.push_remove (i := indexOf id)
    (by rw [hsize]; exact h.size_lt) hl₁ hnS
    (by rw [hself]; exact ⟨hfree.prevIdx, hfree.nextIdx, hfree.levelIdx⟩)
    (by rw [hself]; exact hpos) (by rw [hself, h.side, Side.resolve_isBuy]; rfl)
  have hfind : pool₂.find id = some (pool₂.slot (indexOf id)) :=
    OrderPool.find_eq_some.mpr ⟨hre.live.mpr hl₁, by rw [hre.orderId, hself]; exact hid, rfl⟩
  have hside : (pool₂.slot (indexOf id)).side = side := by
    rw [hre.side, hself]
    rfl
  have hrem : (pool₂.slot (indexOf id)).remaining = remaining := by
    rw [hre.remaining, hself]
    rfl
  have hprice : (pool₂.slot (indexOf id)).priceTicks = price := by
    rw [hre.priceTicks, hself]
    rfl
  refine ⟨pool₁, l', pool₂, by rw [OrderPool.modify_ok hl.1, hpool], hpush, ?_, ?_, hscrub⟩
  · rw [OrderBook.contains, OrderBook.setLadder_pool, hfind]
    rfl
  · have hcancel := @OrderBook.cancel_ok ({ book with pool := pool₂ }.setLadder side l') id
      (pool₂.slot (indexOf id)) (book.ladder side) pool₁ (pool₁.release (indexOf id))
      (by rw [OrderBook.setLadder_pool, hfind])
      (by rw [OrderBook.ladder_setLadder, hside, if_pos rfl, OrderBook.setLadder_pool, hremove])
      (OrderPool.free_ok hl₁)
    rwa [hside, hrem, hprice, OrderBook.restore_ladder] at hcancel

/-- An IOC order does what a limit order does, and cancels what the limit order leaves. -/
theorem execute_limit_ioc (h : BookRep cfg book b [indexOf id])
    (hid : (book.pool.slot (indexOf id)).orderId = id)
    (hfree : (book.pool.slot (indexOf id)).Unlinked) (side : Side) (price : PriceTicks)
    (qty : Qty) :
    ∃ limit ioc events canceled,
      book.execute id side .kLimit price qty = .ok (limit, events) ∧
      book.execute id side .kIoc price qty = .ok (ioc, events ++ canceled) ∧
      (limit.contains id = false ∧ limit = ioc ∧ canceled = [] ∨
        limit.contains id = true ∧ ∃ book', limit.cancel id = .ok (true, book', canceled) ∧
          book'.scrub (indexOf id) = ioc.scrub (indexOf id)) := by
  obtain ⟨book₁, hrun, hrep, hkeep⟩ := matchLoop_rep side price id (b.queue side.opposite) qty []
    (book.pool.slots.size + 1) h rfl (Nat.lt_succ_of_le (h.queue_length_le _))
  have hk := hkeep (indexOf id) (by simp)
  have hle := sweep_le side price id (b.queue side.opposite) qty
  have hlimit : takerLimit side .kLimit price = price := rfl
  have hioc : takerLimit side .kIoc price = price := rfl
  have hmarket : ¬ OrderType.kLimit = .kMarket := by decide
  have hmarket' : ¬ OrderType.kIoc = .kMarket := by decide
  simp only [OrderBook.execute, OrderBook.sweepOpposite, hlimit, hioc, hrun, ok_bind,
    if_neg hmarket, if_neg hmarket', List.nil_append]
  generalize sweep side price id qty (b.queue side.opposite) = s at *
  rw [assert_pos (UInt32.le_iff_toNat_le.mpr hle)]
  obtain ⟨hrelease, _⟩ := hrep.free
  have hgone : (OrderType.kIoc ≠ .kLimit) := by decide
  simp only [ok_bind, hrelease, if_pos (Or.inr hgone), pure_eq_ok]
  by_cases hz : s.remaining = 0
  · have hnone : ¬ 0 < s.remaining := by
      rw [hz]
      decide
    simp only [if_pos (Or.inl hz), if_neg hnone]
    refine ⟨_, _, _, [], rfl, by simp only [List.append_nil], .inl ⟨?_, rfl, rfl⟩⟩
    rw [OrderBook.contains, OrderPool.find_release ((hrep.live _).mpr (.inr (by simp))).1]
    rfl
  · have hpos : 1 ≤ s.remaining.toNat := toNat_pos.mpr hz
    have hsome : 0 < s.remaining := UInt32.pos_iff_ne_zero.mpr hz
    have hrests : ¬ (s.remaining = 0 ∨ OrderType.kLimit ≠ .kLimit) := by simp [hz]
    obtain ⟨pool₁, l', pool₂, hmod, hpush, hopen, hcancel, hscrub⟩ := hrep.rest_cancel side .kLimit
      price qty (by rw [hk]; exact hid) (by rw [hk]; exact hfree) hpos
    simp only [if_neg hrests, if_pos hsome, hmod, ok_bind, hpush]
    exact ⟨_, _, _, _, rfl, rfl, .inr ⟨hopen, _, hcancel, by rw [OrderBook.scrub, hscrub]; rfl⟩⟩

/-- Two limits that reach the same orders match alike. -/
theorem matchLoop_congr {l l' : PriceTicks} (id : OrderId) (fuel : Nat) : ∀ {b : QueueBook}
    {book : OrderBook} (remaining : Qty) (events : List Event), BookRep cfg book b P →
    (∀ m ∈ b.queue side.opposite, crosses side l m.price = crosses side l' m.price) →
    OrderBook.matchLoop side l id fuel book remaining events =
      OrderBook.matchLoop side l' id fuel book remaining events := by
  induction fuel with
  | zero => exact fun _ _ _ _ => rfl
  | succ fuel ih =>
    intro b book remaining events h hl
    cases hq : b.queue side.opposite with
    | nil =>
      have hdone : ∀ limit, book.matchStep side limit id remaining = .ok none := fun limit =>
        h.matchStep_done (.inr (by simp [hq]))
      simp only [OrderBook.matchLoop, hdone, ok_bind]
    | cons m M =>
      rw [hq] at hl
      have hstep : book.matchStep side l id remaining = book.matchStep side l' id remaining :=
        OrderBook.matchStep_congr fun p hp => by
          rw [(h.front_level hq).1, Except.ok.injEq] at hp
          exact hp ▸ hl m (by simp)
      rw [OrderBook.matchLoop, OrderBook.matchLoop, hstep]
      by_cases hstop : remaining = 0 ∨ ¬ crosses side l' m.price
      · have hdone : book.matchStep side l' id remaining = .ok none :=
          h.matchStep_done (hstop.imp_right fun hc => by simpa [hq] using hc)
        simp only [hdone, ok_bind]
      · obtain ⟨hr, hc⟩ := not_or.mp hstop
        obtain ⟨book', hfill, hrep, _⟩ := h.matchStep_fill id hq hr (not_not.mp hc)
        simp only [hfill, ok_bind]
        refine ih _ _ hrep fun x hx => ?_
        split at hx
        · rw [QueueBook.queue_release, QueueBook.queue_setQueue, if_pos rfl] at hx
          exact hl x (by simp [hx])
        · rw [QueueBook.queue_setQueue, if_pos rfl] at hx
          rcases List.mem_cons.mp hx with rfl | hx
          · exact hl m (by simp)
          · exact hl x (by simp [hx])

/-- A market order trades as an IOC order at the price `far` does, if `far` reaches every
opposite order, and tells of itself at price 0. -/
theorem execute_market_ioc {far : PriceTicks} (h : BookRep cfg book b [indexOf id]) (side : Side)
    (hfar : ∀ m ∈ b.queue side.opposite, crosses side far m.price) (price : PriceTicks)
    (qty : Qty) :
    ∃ book' events, book.execute id side .kIoc far qty = .ok (book', events) ∧
      book.execute id side .kMarket price qty = .ok (book', events.map (Event.unpriced id)) := by
  obtain ⟨book₁, hrun, hrep, _⟩ := matchLoop_rep side far id (b.queue side.opposite) qty []
    (book.pool.slots.size + 1) h rfl (Nat.lt_succ_of_le (h.queue_length_le _))
  have hsame := @matchLoop_congr _ _ side far (takerLimit side .kMarket price) id
    (book.pool.slots.size + 1) _ _ qty [] h fun m hm => by rw [hfar m hm, crosses_market]
  have hrun' := hsame.symm.trans hrun
  have hle := sweep_le side far id (b.queue side.opposite) qty
  have htraded := sweep_traded side far id (b.queue side.opposite) qty
  have hioc : takerLimit side .kIoc far = far := rfl
  have hmarket : ¬ OrderType.kIoc = .kMarket := by decide
  simp only [OrderBook.execute, OrderBook.sweepOpposite, hioc, hrun, hrun', ok_bind,
    if_neg hmarket, if_true, List.nil_append]
  generalize sweep side far id qty (b.queue side.opposite) = s at *
  have htrades : s.events.map (Event.unpriced id) = s.events := by
    refine (List.map_congr_left fun e he => ?_).trans (List.map_id _)
    simp [Event.unpriced, htraded e he]
  rw [assert_pos (UInt32.le_iff_toNat_le.mpr hle)]
  obtain ⟨hrelease, _⟩ := hrep.free
  have hgone : OrderType.kIoc ≠ .kLimit := by decide
  have hgone' : OrderType.kMarket ≠ .kLimit := by decide
  simp only [ok_bind, hrelease, if_pos (Or.inr hgone), if_pos (Or.inr hgone'), pure_eq_ok]
  refine ⟨_, _, rfl, ?_⟩
  rw [List.map_append, List.map_cons, htrades]
  by_cases hleft : 0 < s.remaining
  · simp [hleft, Event.unpriced, makeEvent]
  · simp [hleft, Event.unpriced, makeEvent]

theorem add_of_execute {b₁ : QueueBook} (h : BookRep cfg book b []) (hu : b.Uncrossed)
    (hm : b.mint = some (id, b₁)) (ndebug : Bool) :
    ∃ pool, BookRep cfg { book with pool } b₁ [indexOf id] ∧
      (pool.slot (indexOf id)).orderId = id ∧ (pool.slot (indexOf id)).Unlinked ∧
      ∀ {side type price qty book' events}, QueueBook.refusal type price qty = none →
        { book with pool }.execute id side type price qty = .ok (book', events) →
        book.add ndebug side type price qty = .ok (id, book', events) := by
  obtain ⟨pool, halloc, hrep, hne, hid, hfree⟩ := h.alloc_some hm
  obtain ⟨_, hwf, hbids, hasks, _⟩ := mint_some h hm
  have hu₁ : b₁.Uncrossed := by
    rw [QueueBook.Uncrossed, hbids, hasks]
    exact hu
  refine ⟨pool, hrep, hid, hfree, fun {side type price qty book' events} hok hrun => ?_⟩
  obtain ⟨book'', hrun', hrep'⟩ := hrep.execute_rep side type price qty hid hfree
  rw [hrun] at hrun'
  obtain rfl := congrArg Prod.fst (Except.ok.inj hrun')
  exact OrderBook.add_admitted hok halloc hne hrun
    (hrep'.assertUncrossed_ok (QueueBook.execute_uncrossed hwf hu₁) ndebug)

end BookRep

/-- From any book that adds and cancels built, and while a slot is free: an IOC order is a
limit order followed by the cancel of what it leaves open, and a market order is an IOC
order at the last price of its side, but for the price of its own events. -/
theorem order_types_reduce {cfg : EngineConfig}
    (hhigh : cfg.anchorPrice.toInt + cfg.bandRadius.toNat + 1 ≤ 2 ^ 63 - 1) (ndebug : Bool)
    (ops : List BookOp) (hops : ∀ op ∈ ops, op.Matched) {book : OrderBook} {replies : List Reply}
    (hrun : OrderBook.drive ndebug cfg ops = .ok (book, replies))
    (hslot : book.openOrders < cfg.poolCapacity) (side : Side) (price : PriceTicks) (qty : Qty)
    (hqty : 0 < qty) :
    (0 < price → ∃ id ioc book' events,
      book.add ndebug side .kIoc price qty = .ok (id, ioc, events) ∧
      book.addThenCancel ndebug side price qty = .ok (id, book', events) ∧
      book'.scrub (indexOf id) = ioc.scrub (indexOf id)) ∧
    ∃ id book' events,
      book.add ndebug side .kIoc (if side = .kBuy then Int64.maxValue else 1) qty =
        .ok (id, book', events) ∧
      book.add ndebug side .kMarket price qty =
        .ok (id, book', events.map (Event.unpriced id)) := by
  have hc : cfg.Valid := .of_drive hrun hhigh
  obtain ⟨book₁, hdrive, hrep, hu⟩ := BookRep.drive_debug hc ndebug ops hops
  rw [hrun] at hdrive
  simp only [Except.ok.injEq, Prod.mk.injEq] at hdrive
  obtain ⟨rfl, rfl⟩ := hdrive
  have hprices : ∀ r ∈ ((QueueBook.new cfg.poolCapacity).run ops).1.resting, 0 < r.price :=
    QueueBook.resting_run (fun hred hp => by rwa [hred.price]) ops (by intro r hr; cases hr)
      fun op _ r hr => hr.2.2
  generalize ((QueueBook.new cfg.poolCapacity).run ops).1 = b at *
  have hne : qty ≠ 0 := by
    rintro rfl
    exact absurd hqty (by decide)
  obtain ⟨⟨id, b₁⟩, hm⟩ : ∃ x, b.mint = some x := by
    refine Option.ne_none_iff_exists'.mp fun hnone => ?_
    rw [mint_none_iff hrep] at hnone
    rw [hnone] at hslot
    exact absurd hslot (UInt32.lt_irrefl _)
  obtain ⟨pool, hrep₁, hid, hfree, hadd⟩ := hrep.add_of_execute hu hm ndebug
  refine ⟨fun hp => ?_, ?_⟩
  · have hok : ∀ type, QueueBook.refusal type price qty = none := fun type =>
      QueueBook.refusal_none_iff.mpr ⟨hne, .inr hp⟩
    obtain ⟨limit, ioc, events, canceled, hlimit, hioc, hcases⟩ :=
      hrep₁.execute_limit_ioc hid hfree side price qty
    have hlimit' := hadd (hok _) hlimit
    have hioc' := hadd (hok _) hioc
    rcases hcases with ⟨hclosed, rfl, rfl⟩ | ⟨hopen, book', hcancel, hsame⟩
    · refine ⟨id, _, limit, _, hioc', ?_, rfl⟩
      simp [OrderBook.addThenCancel, hlimit', hclosed]
    · refine ⟨id, _, book', _, hioc', ?_, hsame⟩
      simp [OrderBook.addThenCancel, hlimit', hopen, hcancel]
  · have hfar : ∀ m ∈ b₁.queue side.opposite,
        crosses side (if side = .kBuy then Int64.maxValue else 1) m.price := fun m hm' => by
      rw [QueueBook.mint_queue hm] at hm'
      have hpos := hprices m (QueueBook.mem_resting.mpr ⟨_, hm'⟩)
      rw [Int64.lt_iff_toInt_lt, Int64.toInt_zero] at hpos
      exact crosses_far side hpos
    have hpos : (0 : PriceTicks) < if side = .kBuy then Int64.maxValue else 1 := by
      split <;> decide
    obtain ⟨book', events, hioc, hmarket⟩ := hrep₁.execute_market_ioc side hfar price qty
    exact ⟨id, book', events, hadd (QueueBook.refusal_none_iff.mpr ⟨hne, .inr hpos⟩) hioc,
      hadd (QueueBook.refusal_none_iff.mpr ⟨hne, .inl rfl⟩) hmarket⟩

/-- A buy of 5 that takes an ask of 3 and leaves 2. -/
theorem order_types_reduce_small : ∃ book replies id ioc book' events,
    OrderBook.drive false ⟨100, 1, 2⟩ [.add .kSell .kLimit 101 3] = .ok (book, replies) ∧
    book.add false .kBuy .kIoc 101 5 = .ok (id, ioc, events) ∧
    book.addThenCancel false .kBuy 101 5 = .ok (id, book', events) ∧
    book'.scrub (indexOf id) = ioc.scrub (indexOf id) := by
  obtain ⟨hlimit, -⟩ := @order_types_reduce ⟨100, 1, 2⟩ (by decide) false
    [.add .kSell .kLimit 101 3] (by simp [BookOp.Matched]) _ _ rfl (by decide) .kBuy 101 5
    (by decide)
  obtain ⟨id, ioc, book', events, hioc, hcancel, hsame⟩ := hlimit (by decide)
  exact ⟨_, _, id, ioc, book', events, rfl, hioc, hcancel, hsame⟩

/-- The price, quantity, side and type of a slot, but not what is open of its order. -/
def Order.erased (o : Order) : Order :=
  { o with priceTicks := 0, qty := 0, side := ⟨0⟩, type := ⟨0⟩ }

def OrderBook.erase (b : OrderBook) (i : UInt32) : OrderBook :=
  { b with pool := b.pool.set i (b.pool.slot i).erased }

theorem OrderBook.erase_ne {b b' : OrderBook} {i : UInt32} (hi : i.toNat < b.pool.slots.size)
    (hi' : i.toNat < b'.pool.slots.size)
    (h : (b.pool.slot i).remaining ≠ (b'.pool.slot i).remaining) : b.erase i ≠ b'.erase i := by
  intro he
  have hslot := congrArg (fun b : OrderBook => (b.pool.slot i).remaining) he
  simp only [erase, OrderPool.slot_set hi, OrderPool.slot_set hi', if_true, Order.erased] at hslot
  exact h hslot

/-- On an empty book an IOC order writes nothing into its slot, while a limit order leaves
its open quantity there. -/
theorem order_types_leave_remaining : ∃ book replies id ioc book' events,
    OrderBook.drive false ⟨100, 1, 1⟩ [] = .ok (book, replies) ∧ book.openOrders < 1 ∧
    book.add false .kBuy .kIoc 100 5 = .ok (id, ioc, events) ∧
    book.addThenCancel false .kBuy 100 5 = .ok (id, book', events) ∧
    (ioc.pool.slot (indexOf id)).remaining = 0 ∧
    (book'.pool.slot (indexOf id)).remaining = 5 ∧
    book'.erase (indexOf id) ≠ ioc.erase (indexOf id) := by
  have hrun : ∃ book replies id ioc book' events,
      OrderBook.drive false ⟨100, 1, 1⟩ [] = .ok (book, replies) ∧ book.openOrders < 1 ∧
      book.add false .kBuy .kIoc 100 5 = .ok (id, ioc, events) ∧
      book.addThenCancel false .kBuy 100 5 = .ok (id, book', events) ∧
      (indexOf id).toNat < ioc.pool.slots.size ∧ (indexOf id).toNat < book'.pool.slots.size ∧
      (ioc.pool.slot (indexOf id)).remaining = 0 ∧ (book'.pool.slot (indexOf id)).remaining = 5 :=
    ⟨_, _, _, _, _, _, rfl, by decide, rfl, rfl, by decide, by decide, rfl, rfl⟩
  obtain ⟨book, replies, id, ioc, book', events, hdrive, hfree, hioc, hcancel, hi, hi', hzero,
    hfive⟩ := hrun
  refine ⟨book, replies, id, ioc, book', events, hdrive, hfree, hioc, hcancel, hzero, hfive, ?_⟩
  refine OrderBook.erase_ne hi' hi ?_
  rw [hzero, hfive]
  decide

end LimitOrderBook
