import LimitOrderBook.QueueRun
import LimitOrderBook.Lib.Guarded

set_option autoImplicit false

namespace LimitOrderBook
open Checked PriorityQueue

/-- `OrderPool::free`. -/
def OrderPool.guardedFree (p : OrderPool) (index : UInt32) : Guarded OrderPool := do
  let freed ← p.free index
  let liveCount ← subU32 p.liveCount 1
  pure { freed with liveCount }

/-- `PriceLevel::unlink`. -/
def PriceLevel.guardedUnlink (level : PriceLevel) (pool : OrderPool) (orderIdx : UInt32) :
    Guarded (PriceLevel × OrderPool) := do
  let (unlinked, pool) ← level.unlink pool orderIdx
  let order ← pool.get orderIdx
  let orderCount ← subU32 level.orderCount 1
  let totalQty ← subU64 level.totalQty order.remaining.toUInt64
  pure ({ unlinked with orderCount, totalQty }, pool)

namespace PriceLadder

/-- `AdvanceBest`, whose loop must not reach the edge of the band. -/
def guardedAdvance (l : PriceLadder) : Guarded PriceLadder := do
  let l ← l.advanceBest
  if l.bestOffset = kNullIdx then .error .unreachable else pure l

def guardedSettle (l : PriceLadder) (level : PriceLevel) (offset : Int32) : Guarded PriceLadder :=
  if level.empty ∧ offset = l.bestOffset then
    if l.bandOrders = 0 then pure { l with bestOffset := kNullIdx } else l.guardedAdvance
  else pure l

/-- `PriceLadder::remove_order`. -/
def guardedRemove (l : PriceLadder) (pool : OrderPool) (orderIdx : UInt32) :
    Guarded (PriceLadder × OrderPool) := do
  let order ← pool.get orderIdx
  let offset := order.levelIdx
  assert (offset ≠ kNullIdx) "order not in a ladder level"
  if offset = kOverflowIdx then
    assert (order.priceTicks ∈ l.overflow) "it != overflow_.end()"
    let level := l.overflow.getD order.priceTicks {}
    let (level, pool) ← level.guardedUnlink pool orderIdx
    let pool ← pool.modify orderIdx (Order.setLevelIdx kNullIdx)
    let overflow :=
      if level.empty then l.overflow.erase order.priceTicks
      else l.overflow.insert order.priceTicks level
    pure ({ l with overflow }, pool)
  else
    let distance ← subI64 order.priceTicks l.lowPrice
    assert (offset = distance.toInt32) "offset == order.price_ticks - low_price_"
    let level ← l.bandLevel offset.toInt
    let (level, pool) ← level.guardedUnlink pool orderIdx
    let pool ← pool.modify orderIdx (Order.setLevelIdx kNullIdx)
    assert (0 < l.bandOrders) "band_orders_ > 0"
    let bandOrders ← subU32 l.bandOrders 1
    let l := { l with levels := l.setBandLevel offset.toInt level, bandOrders }
    let l ← l.guardedSettle level offset
    pure (l, pool)

end PriceLadder

/-- What `Match` did: the fill of each iteration, and the remainder it returned. -/
structure MatchLog where
  fills : List Qty := []
  remainder : Qty
  deriving DecidableEq, Repr

/-- At most `n` iterations, each with a fill, and no more left than came in. -/
structure MatchLog.Bounded (log : MatchLog) (n : Nat) (qty : Qty) : Prop where
  iterations : log.fills.length ≤ n
  progress : ∀ fill ∈ log.fills, 1 ≤ fill
  remainder : log.remainder ≤ qty

namespace OrderBook

/-- One iteration of `Match`, with the fill of it. -/
def guardedStep (b : OrderBook) (takerSide : Side) (limitPrice : PriceTicks) (takerId : OrderId)
    (remaining : Qty) : Guarded (Option (OrderBook × Qty × List Event × Qty)) := do
  let opposite := b.ladder takerSide.opposite
  if remaining = 0 ∨ opposite.empty then pure none
  else
    let levelPx ← opposite.bestPrice
    if ¬ crosses takerSide limitPrice levelPx then pure none
    else
      let ref ← opposite.levelAt levelPx
      let level ← opposite.load ref
      assert (level.headIdx ≠ kNullIdx) "best level of a non-empty side cannot be empty"
      let makerIdx := level.headIdx.toUInt32
      let maker ← b.pool.get makerIdx
      let fill := min remaining maker.remaining
      assert (0 < fill) "zero-qty fill: sweep would not progress"
      let remaining ← subU32 remaining fill
      let makerLeft ← subU32 maker.remaining fill
      let events := [
        makeEvent .kTraded maker.side .kNone fill makerLeft maker.priceTicks maker.orderId,
        makeEvent .kTraded takerSide .kNone fill remaining maker.priceTicks takerId]
      if makerLeft = 0 then
        let (opposite, pool) ← opposite.guardedRemove b.pool makerIdx
        let pool ← pool.guardedFree makerIdx
        pure (some ({ b with pool }.setLadder takerSide.opposite opposite, remaining, events, fill))
      else
        let pool ← b.pool.modify makerIdx (Order.setRemaining makerLeft)
        let totalQty ← subU64 level.totalQty fill.toUInt64
        let opposite := opposite.store ref { level with totalQty }
        pure (some ({ b with pool }.setLadder takerSide.opposite opposite, remaining, events, fill))

def guardedLoop (takerSide : Side) (limitPrice : PriceTicks) (takerId : OrderId) :
    Nat → OrderBook → Qty → List Event → List Qty → Guarded (OrderBook × List Event × MatchLog)
  | 0, _, _, _, _ => .error (.fault .outOfFuel)
  | fuel + 1, b, remaining, events, fills => do
    match ← b.guardedStep takerSide limitPrice takerId remaining with
    | none => pure (b, events, { fills, remainder := remaining })
    | some (b, remaining, pair, fill) =>
      guardedLoop takerSide limitPrice takerId fuel b remaining (events ++ pair) (fills ++ [fill])

def guardedSweep (b : OrderBook) (takerSide : Side) (limitPrice : PriceTicks) (qty : Qty)
    (takerId : OrderId) : Guarded (OrderBook × List Event × MatchLog) :=
  guardedLoop takerSide limitPrice takerId (b.pool.slots.size + 1) b qty [] []

def guardedExecute (b : OrderBook) (id : OrderId) (side : Side) (type : OrderType)
    (price : PriceTicks) (qty : Qty) : Guarded (OrderBook × List Event × MatchLog) := do
  let orderPx := if type = .kMarket then 0 else price
  let accepted := makeEvent .kAccepted side .kNone qty qty orderPx id
  let (b, trades, log) ← b.guardedSweep side (takerLimit side type price) qty id
  assert (log.remainder ≤ qty) "fill accounting underflow"
  let index := indexOf id
  if log.remainder = 0 ∨ type ≠ .kLimit then
    let canceled :=
      if 0 < log.remainder then [makeEvent .kCanceled side .kNone log.remainder 0 orderPx id]
      else []
    let pool ← b.pool.guardedFree index
    pure ({ b with pool }, accepted :: trades ++ canceled, log)
  else
    let pool ← b.pool.modify index (Order.submitted price qty log.remainder side type)
    let (ladder, pool) ← (b.ladder side).pushOrder pool index
    pure ({ b with pool }.setLadder side ladder, accepted :: trades, log)

/-- `OrderBook::add`. A rejected order is not matched. -/
def guardedAdd (ndebug : Bool) (b : OrderBook) (side : Side) (type : OrderType)
    (price : PriceTicks) (qty : Qty) : Guarded (OrderId × OrderBook × List Event × MatchLog) := do
  let reject (reason : RejectReason) :=
    (kInvalidOrderId, b, [makeEvent .kRejected side reason qty 0 price kInvalidOrderId],
      ({ remainder := qty } : MatchLog))
  if qty = 0 then pure (reject .kInvalidQty)
  else if type ≠ .kMarket ∧ price ≤ 0 then pure (reject .kInvalidPrice)
  else
    let (id, pool) ← b.pool.alloc
    if id = kInvalidOrderId then pure (reject .kPoolExhausted)
    else
      let (b, events, log) ← { b with pool }.guardedExecute id side type price qty
      b.assertUncrossed ndebug
      pure (id, b, events, log)

/-- `OrderBook::cancel`. -/
def guardedCancel (b : OrderBook) (id : OrderId) : Guarded (Bool × OrderBook × List Event) := do
  match b.pool.find id with
  | none => pure (false, b, [makeEvent .kRejected .kBuy .kUnknownOrder 0 0 0 id])
  | some order =>
    let index := indexOf id
    let (ladder, pool) ← (b.ladder order.side).guardedRemove b.pool index
    let pool ← pool.guardedFree index
    pure (true, { b with pool }.setLadder order.side ladder,
      [makeEvent .kCanceled order.side .kNone order.remaining 0 order.priceTicks id])

def restingOn (b : OrderBook) (side : Side) : Nat :=
  ((OrderPool.indices b.pool.slots.size).filter fun i =>
    (b.pool.slot i).orderId ≠ kInvalidOrderId ∧
      (b.pool.slot i).side.isBuy = side.isBuy).length

end OrderBook

/-! Each guard passes where the run without it passes, given what the caller knows. -/

namespace OrderPool

variable {p : OrderPool} {index : UInt32}

theorem keeps_free {q : OrderPool} (h : 0 < p.liveCount.toNat) :
    Keeps (p.free index) q (p.guardedFree index) (· = q) := by
  have hle : 1 ≤ p.liveCount := one_le_iff.mpr (toNat_pos.mp h)
  refine .after fun hfree => .check (subU32_ok hle) (.pure fun _ => ?_)
  obtain ⟨_, _, hfree⟩ := bind_eq_ok.mp hfree
  obtain ⟨slot, _, hfree⟩ := bind_eq_ok.mp hfree
  obtain ⟨_, _, hfree⟩ := bind_eq_ok.mp hfree
  cases hfree
  rfl

theorem get_eq_ok {i : UInt32} {o : Order} :
    p.get i = .ok o ↔ i.toNat < p.slots.size ∧ p.slot i = o := by
  unfold get
  split <;> simp_all

theorem modify_remaining {q : OrderPool} {i : UInt32} {f : Order → Order}
    (h : p.modify i f = .ok q) (hf : ∀ o, (f o).remaining = o.remaining) (j : UInt32) :
    (q.slot j).remaining = (p.slot j).remaining := by
  obtain ⟨o, hget, h⟩ := bind_eq_ok.mp h
  cases h
  obtain ⟨hi, rfl⟩ := get_eq_ok.mp hget
  rw [slot_set hi]
  split
  · rename_i hj
    rw [hf, hj]
  · rfl

theorem modifyLink_remaining {q : OrderPool} {x : Int32} {f : Order → Order}
    (h : p.modifyLink x f = .ok q) (hf : ∀ o, (f o).remaining = o.remaining) (j : UInt32) :
    (q.slot j).remaining = (p.slot j).remaining := by
  unfold modifyLink at h
  split at h
  · cases h
    rfl
  · exact modify_remaining h hf j

end OrderPool

theorem PriceLevel.keeps_unlink (level : PriceLevel) (pool : OrderPool) (i : UInt32)
    (r : PriceLevel × OrderPool) :
    Keeps (level.unlink pool i) r (level.guardedUnlink pool i) (· = r) := by
  refine .after fun hrun => ?_
  obtain ⟨order, hget, hrun⟩ := bind_eq_ok.mp hrun
  obtain ⟨_, hcount, hrun⟩ := bind_eq_ok.mp hrun
  obtain ⟨_, _, hrun⟩ := bind_eq_ok.mp hrun
  obtain ⟨_, _, hrun⟩ := bind_eq_ok.mp hrun
  obtain ⟨pool₁, h₁, hrun⟩ := bind_eq_ok.mp hrun
  obtain ⟨pool₂, h₂, hrun⟩ := bind_eq_ok.mp hrun
  obtain ⟨pool₃, h₃, hrun⟩ := bind_eq_ok.mp hrun
  obtain ⟨pool₄, h₄, hrun⟩ := bind_eq_ok.mp hrun
  obtain ⟨order', hget', hrun⟩ := bind_eq_ok.mp hrun
  cases hrun
  obtain ⟨hpos, hle⟩ := assert_eq_ok.mp hcount
  have hone : 1 ≤ level.orderCount := one_le_iff.mpr (UInt32.pos_iff_ne_zero.mp hpos)
  have hrem : order'.remaining = order.remaining := by
    obtain ⟨_, rfl⟩ := OrderPool.get_eq_ok.mp hget
    obtain ⟨_, rfl⟩ := OrderPool.get_eq_ok.mp hget'
    calc (pool₄.slot i).remaining = (pool₃.slot i).remaining :=
          OrderPool.modify_remaining h₄ (fun _ => rfl) i
      _ = (pool₂.slot i).remaining := OrderPool.modify_remaining h₃ (fun _ => rfl) i
      _ = (pool₁.slot i).remaining := OrderPool.modifyLink_remaining h₂ (fun _ => rfl) i
      _ = (pool.slot i).remaining := OrderPool.modifyLink_remaining h₁ (fun _ => rfl) i
  refine .check (by rw [hget']; rfl) ?_
  exact .check (subU32_ok hone) (.check (subU64_ok (hrem ▸ hle)) (.pure id))

namespace PriceLadder

variable {l : PriceLadder}

theorem keeps_advance {l' : PriceLadder} (h : l'.bestOffset ≠ kNullIdx) :
    Keeps l.advanceBest l' l.guardedAdvance (· = l') := by
  refine .after fun _ => ?_
  rw [if_neg h]
  exact .pure id

theorem keeps_settle {l' : PriceLadder} {level : PriceLevel} {offset : Int32}
    (h : l'.bestOffset = kNullIdx → l'.bandOrders = 0) :
    Keeps (l.settleBest level offset) l' (l.guardedSettle level offset) (· = l') := by
  refine .ite (fun _ => .ite (fun _ => .pure id) fun hcount => ?_) fun _ => .pure id
  intro hrun
  refine keeps_advance (fun hnull => hcount ?_) hrun
  obtain ⟨_, _, hrun⟩ := bind_eq_ok.mp hrun
  obtain ⟨_, _, hrun⟩ := bind_eq_ok.mp hrun
  obtain ⟨_, _, hrun⟩ := bind_eq_ok.mp hrun
  cases hrun
  exact h hnull

theorem keeps_remove {pool pool' : OrderPool} {i : UInt32} {l' : PriceLadder}
    (h : l'.bestOffset = kNullIdx → l'.bandOrders = 0) :
    Keeps (l.removeOrder pool i) (l', pool') (l.guardedRemove pool i) (· = (l', pool')) := by
  refine .step fun order _ => .step fun _ _ => .ite (fun _ => ?_) fun _ => ?_
  · refine .step fun _ _ => ?_
    refine .same (fun r hr _ => (PriceLevel.keeps_unlink _ _ _ r).eq_ok hr) fun r _ => ?_
    exact .step fun _ _ => .pure id
  · refine .step fun _ _ => .step fun _ _ => .step fun level _ => ?_
    refine .same (fun r hr _ => (PriceLevel.keeps_unlink _ _ _ r).eq_ok hr) fun r _ => ?_
    refine .step fun _ _ => .step fun _ hpos => ?_
    have hone : 1 ≤ l.bandOrders :=
      one_le_iff.mpr (UInt32.pos_iff_ne_zero.mp (assert_eq_ok.mp hpos))
    refine .check (subU32_ok hone) ?_
    refine .same (fun l₂ hsettle hend => ?_) fun _ _ => .pure id
    cases hend
    exact (keeps_settle h).eq_ok hsettle

end PriceLadder

theorem LadderRep.bandOrders_eq_zero {pool : OrderPool} {l : PriceLadder} {S : List UInt32}
    (h : LadderRep pool l S) (hnull : l.bestOffset = kNullIdx) : l.bandOrders = 0 := by
  have hcount := h.bandOrders
  rw [h.best_eq_null.mp hnull] at hcount
  exact UInt32.toNat_inj.mp hcount

namespace BookRep

variable {cfg : EngineConfig} {book : OrderBook} {b : QueueBook} {pending : List UInt32}
  {s side : Side} {limit : PriceTicks} {id : OrderId} {remaining : Qty} {m : Resting}
  {M : List Resting}

theorem remove_guards {A B : List Resting} {l' : PriceLadder} {pool' : OrderPool}
    (h : BookRep cfg book b pending) (hq : b.queue s = A ++ m :: B)
    (hrun : (book.ladder s).removeOrder book.pool m.slot = .ok (l', pool')) :
    (l'.bestOffset = kNullIdx → l'.bandOrders = 0) ∧ 0 < pool'.liveCount.toNat := by
  obtain ⟨l₁, pool₁, hrun₁, hrep, _⟩ := h.unlink hq
  rw [hrun] at hrun₁
  cases hrun₁
  have hlive := (hrep.live m.slot).mpr (.inr (by simp))
  have hladder := hrep.ladder s
  have hpos := hrep.pool.live_pos hlive
  rw [OrderBook.ladder_setLadder, if_pos rfl] at hladder
  rw [OrderBook.setLadder_pool] at hpos
  exact ⟨hladder.bandOrders_eq_zero, hpos⟩

theorem front_total (h : BookRep cfg book b pending) (hq : b.queue s = m :: M) {ref : LevelRef}
    {level : PriceLevel} (hat : (book.ladder s).levelAt m.price = .ok ref)
    (hload : (book.ladder s).load ref = .ok level) :
    m.remaining.toUInt64 ≤ level.totalQty := by
  have hm : m ∈ b.queue s := by simp [hq]
  have hms := mem_slots_of_mem hm
  obtain ⟨ref', hat', hload', _⟩ := (h.ladder s).levelAt_ok hms
  rw [h.price_slot hm, hat] at hat'
  cases hat'
  rw [hload, h.price_slot hm] at hload'
  cases hload'
  rw [← h.remaining_slot hm]
  exact ((h.ladder s).level _).remaining_le (mem_atPrice.mpr ⟨hms, h.price_slot hm⟩)

theorem keeps_step (side : Side) (limit : PriceTicks) (id : OrderId) (remaining : Qty)
    {r : Option (OrderBook × Qty × List Event)} (h : BookRep cfg book b pending) :
    Keeps (book.matchStep side limit id remaining) r (book.guardedStep side limit id remaining)
      fun g => g.map (fun x => (x.1, x.2.1, x.2.2.1)) = r ∧ ∀ x ∈ g, 1 ≤ x.2.2.2 := by
  unfold OrderBook.matchStep OrderBook.guardedStep
  refine .ite (fun _ => .pure fun hr => ⟨hr, by simp⟩) fun hstop => ?_
  obtain ⟨_, hempty⟩ := not_or.mp hstop
  rw [h.empty_iff] at hempty
  obtain ⟨m, M, hq⟩ := List.exists_cons_of_ne_nil hempty
  have hm : m ∈ b.queue side.opposite := by simp [hq]
  obtain ⟨hbest, ref', level', hat', hload', -, hidx, -⟩ := h.front_level hq
  refine .step fun px hpx => .ite (fun _ => .pure fun hr => ⟨hr, by simp⟩) fun _ => ?_
  rw [hbest] at hpx
  cases hpx
  refine .step fun ref hat => .step fun level hload => .step fun _ _ => .step fun maker hmaker => ?_
  have htotal := h.front_total hq hat hload
  rw [hat'] at hat
  cases hat
  rw [hload'] at hload
  cases hload
  rw [hidx] at hmaker ⊢
  obtain ⟨_, rfl⟩ := OrderPool.get_eq_ok.mp hmaker
  have hmin := toNat_min remaining m.remaining
  rw [h.remaining_slot hm]
  refine .step fun _ hfill => ?_
  have hpos : 1 ≤ min remaining m.remaining :=
    one_le_iff.mpr (UInt32.pos_iff_ne_zero.mp (assert_eq_ok.mp hfill))
  have hle₁ : min remaining m.remaining ≤ remaining := by
    rw [UInt32.le_iff_toNat_le]
    omega
  have hle₂ : min remaining m.remaining ≤ m.remaining := by
    rw [UInt32.le_iff_toNat_le]
    omega
  have hle₃ : (min remaining m.remaining).toUInt64 ≤ level'.totalQty := by
    rw [UInt64.le_iff_toNat_le, UInt32.toNat_toUInt64] at htotal ⊢
    omega
  refine .check (subU32_ok hle₁) (.check (subU32_ok hle₂) (.ite (fun _ => ?_) fun _ => ?_))
  · refine .same (fun r hr _ => ?_) fun r hr => ?_
    · exact (PriceLadder.keeps_remove (h.remove_guards (A := []) hq hr).1).eq_ok hr
    · refine .same (fun _ hfree _ => ?_) fun _ _ => .pure fun hr => ⟨hr, by simpa using hpos⟩
      exact (OrderPool.keeps_free (h.remove_guards (A := []) hq hr).2).eq_ok hfree
  · refine .step fun _ _ => .check (subU64_ok hle₃) (.pure fun hr => ⟨hr, by simpa using hpos⟩)

/-- What the loop logs on its way to `r`: at most `n` fills, of at least 1 each. -/
def Logs (r : OrderBook × Qty × List Event) (fills : List Qty) (n : Nat)
    (g : OrderBook × List Event × MatchLog) : Prop :=
  (g.1, g.2.2.remainder, g.2.1) = r ∧
    ∃ more, g.2.2.fills = fills ++ more ∧ more.length ≤ n ∧ ∀ fill ∈ more, 1 ≤ fill

theorem keeps_loop_done {r : OrderBook × Qty × List Event} {events : List Event}
    {fills : List Qty} (h : BookRep cfg book b pending)
    (hstep : book.matchStep side limit id remaining = .ok none) (n fuel : Nat) :
    Keeps (OrderBook.matchLoop side limit id fuel book remaining events) r
      (OrderBook.guardedLoop side limit id fuel book remaining events fills)
      (Logs r fills n) := by
  cases fuel with
  | zero => exact .fault _ _
  | succ fuel =>
    refine .bind fun a ha _ => ?_
    obtain ⟨g, hg, hmap, -⟩ := h.keeps_step side limit id remaining ha
    rw [hstep] at ha
    cases ha
    rw [Option.map_eq_none_iff] at hmap
    subst hmap
    exact ⟨none, hg, .pure fun hr => ⟨hr, [], by simp⟩⟩

/-- Each iteration of the loop fills at least 1 and, but for the last, takes a maker off
the queue. -/
theorem keeps_loop (side : Side) (limit : PriceTicks) (id : OrderId)
    {r : OrderBook × Qty × List Event} (M : List Resting) :
    ∀ {b : QueueBook} {book : OrderBook} (remaining : Qty) (events : List Event)
      (fills : List Qty) (fuel : Nat),
    BookRep cfg book b pending → b.queue side.opposite = M →
    Keeps (OrderBook.matchLoop side limit id fuel book remaining events) r
      (OrderBook.guardedLoop side limit id fuel book remaining events fills)
      (Logs r fills M.length) := by
  induction M with
  | nil =>
    intro b book remaining events fills fuel h hq
    exact h.keeps_loop_done (h.matchStep_done (.inr (by simp [hq]))) _ fuel
  | cons m M ih =>
    intro b book remaining events fills fuel h hq
    by_cases hstop : remaining = 0 ∨ ¬ crosses side limit m.price
    · refine h.keeps_loop_done (h.matchStep_done (hstop.imp_right fun hc x hx => ?_)) _ fuel
      rw [hq, List.head?_cons, Option.mem_some_iff] at hx
      exact hx ▸ hc
    · cases fuel with
      | zero => exact .fault _ _
      | succ fuel =>
        obtain ⟨hr, hc⟩ := not_or.mp hstop
        obtain ⟨book₁, hstep, hrep, _⟩ := h.matchStep_fill id hq hr (not_not.mp hc)
        refine .bind fun a ha _ => ?_
        obtain ⟨g, hg, hmap, hpos⟩ := h.keeps_step side limit id remaining ha
        rw [hstep] at ha
        cases ha
        obtain ⟨⟨book₂, left, pair, fill⟩, rfl, he⟩ := Option.map_eq_some_iff.mp hmap
        simp only [Prod.mk.injEq] at he
        obtain ⟨rfl, rfl, rfl⟩ := he
        have hfill : 1 ≤ fill := hpos _ rfl
        have hrest : ∀ events, Keeps
            (OrderBook.matchLoop side limit id fuel book₂ (remaining - min remaining m.remaining)
              events) r
            (OrderBook.guardedLoop side limit id fuel book₂ (remaining - min remaining m.remaining)
              events (fills ++ [fill]))
            (Logs r (fills ++ [fill]) M.length) := by
          intro events
          by_cases hleft : m.remaining - min remaining m.remaining = 0
          · rw [if_pos hleft] at hrep
            refine ih _ events (fills ++ [fill]) fuel hrep ?_
            rw [QueueBook.queue_release, QueueBook.queue_setQueue, if_pos rfl]
          · rw [if_neg hleft] at hrep
            exact hrep.keeps_loop_done (hrep.matchStep_done (.inl (left_zero hleft))) _ fuel
        refine ⟨_, hg, fun hloop => ?_⟩
        obtain ⟨g', hg', hsame, more, hmore, hlen, hall⟩ := hrest _ hloop
        refine ⟨g', hg', hsame, fill :: more, by simp [hmore], by simpa using hlen, ?_⟩
        simpa using ⟨hfill, hall⟩

theorem keeps_execute (side : Side) (type : OrderType) (price : PriceTicks) (qty : Qty)
    {r : OrderBook × List Event} (h : BookRep cfg book b [indexOf id]) :
    Keeps (book.execute id side type price qty) r (book.guardedExecute id side type price qty)
      fun g => (g.1, g.2.1) = r ∧ g.2.2.Bounded (b.queue side.opposite).length qty := by
  refine .bind fun swept hsweep _ => ?_
  obtain ⟨book₁, remaining, trades⟩ := swept
  obtain ⟨⟨book₂, trades', log⟩, hg, hsame, fills, hfills, hlen, hall⟩ :=
    keeps_loop side (takerLimit side type price) id _ qty [] [] _ h rfl hsweep
  obtain ⟨book₃, hrun, hrep, _⟩ := matchLoop_rep side (takerLimit side type price) id
    (b.queue side.opposite) qty [] (book.pool.slots.size + 1) h rfl
    (Nat.lt_succ_of_le (h.queue_length_le _))
  have hbook : book₁ = book₃ := congrArg Prod.fst (Except.ok.inj (hsweep.symm.trans hrun))
  subst hbook
  simp only [Prod.mk.injEq] at hsame
  obtain ⟨rfl, rfl, rfl⟩ := hsame
  refine ⟨_, hg, .step fun _ hle => ?_⟩
  have hlog : log.Bounded (b.queue side.opposite).length qty :=
    ⟨by rw [hfills]; exact hlen, by rw [hfills]; exact hall, assert_eq_ok.mp hle⟩
  refine .ite (fun _ => ?_) fun _ => ?_
  · have hlive := (hrep.live (indexOf id)).mpr (.inr (by simp))
    refine .same (fun _ hfree _ => ?_) fun _ _ => .pure fun hr => ⟨hr, hlog⟩
    exact (OrderPool.keeps_free (hrep.pool.live_pos hlive)).eq_ok hfree
  · exact .step fun _ _ => .step fun _ _ => .pure fun hr => ⟨hr, hlog⟩

theorem keeps_add (ndebug : Bool) (side : Side) (type : OrderType) (price : PriceTicks)
    (qty : Qty) {r : OrderId × OrderBook × List Event} (h : BookRep cfg book b []) :
    Keeps (book.add ndebug side type price qty) r (book.guardedAdd ndebug side type price qty)
      fun g => (g.1, g.2.1, g.2.2.1) = r ∧
        g.2.2.2.Bounded (b.queue side.opposite).length qty := by
  have hreject : ({ remainder := qty } : MatchLog).Bounded (b.queue side.opposite).length qty :=
    ⟨Nat.zero_le _, by simp, UInt32.le_refl qty⟩
  refine .ite (fun _ => .pure fun hr => ⟨hr, hreject⟩) fun _ => ?_
  refine .ite (fun _ => .pure fun hr => ⟨hr, hreject⟩) fun _ => ?_
  refine .step fun minted halloc => ?_
  obtain ⟨id, pool⟩ := minted
  refine .ite (fun _ => .pure fun hr => ⟨hr, hreject⟩) fun hne => ?_
  cases hm : b.mint with
  | none =>
    rw [h.alloc_none hm] at halloc
    cases halloc
    exact absurd rfl hne
  | some x =>
    obtain ⟨id', b₁⟩ := x
    obtain ⟨pool', halloc', hrep, _⟩ := h.alloc_some hm
    rw [halloc] at halloc'
    cases halloc'
    have hq : b₁.queue side.opposite = b.queue side.opposite := by
      obtain ⟨_, _, hbids, hasks, _⟩ := mint_some h hm
      rw [QueueBook.queue, QueueBook.queue, hbids, hasks]
    refine .bind fun done hex _ => ?_
    obtain ⟨book', events⟩ := done
    obtain ⟨⟨book₁, events₁, log⟩, hg, hsame, hlog⟩ := hrep.keeps_execute side type price qty hex
    simp only [Prod.mk.injEq] at hsame
    obtain ⟨rfl, rfl⟩ := hsame
    rw [hq] at hlog
    exact ⟨_, hg, .step fun _ _ => .pure fun hr => ⟨hr, hlog⟩⟩

theorem keeps_cancel (id : OrderId) {r : Bool × OrderBook × List Event}
    (h : BookRep cfg book b []) : Keeps (book.cancel id) r (book.guardedCancel id) (· = r) := by
  unfold OrderBook.cancel OrderBook.guardedCancel
  have hfind := h.find_rep id
  cases hf : b.find id with
  | none =>
    rw [hf, Option.map_none] at hfind
    rw [hfind]
    exact .pure fun hr => hr
  | some m =>
    obtain ⟨hm, rfl⟩ := (QueueBook.find_iff h.wf).mp hf
    have hside : (book.pool.slot m.slot).side = m.side := congrArg Resting.side (h.stored m hm)
    obtain ⟨A, B, hq⟩ := List.append_of_mem (h.mem_queue_side hm)
    rw [hf, Option.map_some] at hfind
    rw [← hside] at hq
    rw [hfind]
    refine .same (fun r hr _ => ?_) fun r hr => ?_
    · exact (PriceLadder.keeps_remove (h.remove_guards hq hr).1).eq_ok hr
    · refine .same (fun _ hfree _ => ?_) fun _ _ => .pure fun hr => hr
      exact (OrderPool.keeps_free (h.remove_guards hq hr).2).eq_ok hfree

theorem queue_length_restingOn (h : BookRep cfg book b pending) (s : Side) :
    (b.queue s).length ≤ book.restingOn s := by
  have hsub : slots (b.queue s) ⊆ (OrderPool.indices book.pool.slots.size).filter fun i =>
      (book.pool.slot i).orderId ≠ kInvalidOrderId ∧ (book.pool.slot i).side.isBuy = s.isBuy := by
    intro i hi
    have hlive := h.slot_live hi
    have hlt := h.size_lt
    rw [List.mem_filter, OrderPool.mem_indices (by omega)]
    exact ⟨hlive.1, by simpa using ⟨hlive.2, h.slot_side hi⟩⟩
  have hlen := ((h.slots_nodup s).subperm hsub).length_le
  rwa [slots, List.length_map] at hlen

theorem add_returns (h : BookRep cfg book b []) {ndebug : Bool}
    (hu : ndebug = true ∨ book.uncrossed = .ok true) (side : Side) (type : OrderType)
    (price : PriceTicks) (qty : Qty) :
    ∃ r ok, book.add ndebug side type price qty = .ok r ∧ r.2.1.uncrossed = .ok ok := by
  obtain ⟨book', hadd, hrep, _⟩ := h.add_rep side type price qty
  obtain ⟨ok', hok', hiff'⟩ := hrep.uncrossed_rep
  refine ⟨((b.add side type price qty).1, book', (b.add side type price qty).2.2), ok', ?_, hok'⟩
  rcases hu with rfl | hu
  · exact hadd
  · obtain ⟨ok, hok, hiff⟩ := h.uncrossed_rep
    rw [hu] at hok
    cases hok
    have hun : (b.step (.add side type price qty)).1.Uncrossed :=
      h.step_uncrossed (hiff.mp rfl) trivial
    rw [hiff'.mpr hun] at hok'
    exact add_debug ndebug hadd hok'

end BookRep

/-- From any book that the operations built, `add` and `cancel` run through every guard and
return what they return without. The loop of `Match` runs at most once for each order of
the opposite side, fills each time, and leaves no more than it was given. The assertion
that the book is uncrossed passes where it held before. -/
theorem guarded_operations_run {cfg : EngineConfig}
    (hhigh : cfg.anchorPrice.toInt + cfg.bandRadius.toNat + 1 ≤ 2 ^ 63 - 1) {ndebug : Bool}
    {ops : List BookOp} {book : OrderBook} {replies : List Reply}
    (hrun : OrderBook.drive ndebug cfg ops = .ok (book, replies)) :
    (∀ ndebug', ndebug' = true ∨ book.uncrossed = .ok true →
      ∀ side type price qty, ∃ id book' events log ok,
        book.add ndebug' side type price qty = .ok (id, book', events) ∧
        book.guardedAdd ndebug' side type price qty = .ok (id, book', events, log) ∧
        log.Bounded (book.restingOn side.opposite) qty ∧ book'.uncrossed = .ok ok) ∧
    ∀ id, ∃ found book' events, book.cancel id = .ok (found, book', events) ∧
      book.guardedCancel id = .ok (found, book', events) := by
  obtain ⟨hrep, rfl⟩ := BookRep.of_drive hrun hhigh
  refine ⟨fun ndebug' hu side type price qty => ?_, fun id => ?_⟩
  · obtain ⟨⟨id, book', events⟩, ok, hadd, hok⟩ := hrep.add_returns hu side type price qty
    obtain ⟨⟨id', book₁, events₁, log⟩, hg, hsame, hlog⟩ :=
      hrep.keeps_add ndebug' side type price qty hadd
    simp only [Prod.mk.injEq] at hsame
    obtain ⟨rfl, rfl, rfl⟩ := hsame
    have hn := hrep.queue_length_restingOn side.opposite
    exact ⟨id', book₁, events₁, log, ok, hadd, hg,
      ⟨hlog.iterations.trans hn, hlog.progress, hlog.remainder⟩, hok⟩
  · obtain ⟨book', hcancel, _⟩ := hrep.cancel_rep id
    exact ⟨_, book', _, hcancel, (hrep.keeps_cancel id).eq_ok hcancel⟩

/-- A buy that takes one of two sells and part of the other, and a cancel of the first. -/
theorem guarded_operations_run_small : ∃ book replies id book' events log reply,
    OrderBook.drive false ⟨100, 1, 3⟩ [.addLimit .kSell 100 5, .addLimit .kSell 103 5] =
      .ok (book, replies) ∧
    book.guardedAdd false .kBuy .kMarket 0 7 = .ok (id, book', events, log) ∧
    log.Bounded 2 7 ∧ book.guardedCancel (makeOrderId 1 0) = .ok reply := by
  obtain ⟨hadd, hcancel⟩ := @guarded_operations_run ⟨100, 1, 3⟩ (by decide) false
    [.addLimit .kSell 100 5, .addLimit .kSell 103 5] _ _ rfl
  obtain ⟨id, book', events, log, _, _, hg, hlog, _⟩ := hadd false (.inr (by decide)) .kBuy
    .kMarket 0 7
  obtain ⟨found, book₁, events₁, _, hc⟩ := hcancel (makeOrderId 1 0)
  exact ⟨_, _, id, book', events, log, _, rfl, hg, hlog, hc⟩

end LimitOrderBook
