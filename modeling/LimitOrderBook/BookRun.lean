import LimitOrderBook.BookOps

set_option autoImplicit false

namespace LimitOrderBook
open Checked PriorityQueue

inductive BookOp where
  | add (side : Side) (type : OrderType) (price : PriceTicks) (qty : Qty)
  | addLimit (side : Side) (price : PriceTicks) (qty : Qty)
  | cancel (id : OrderId)
  deriving DecidableEq, Repr

/-- What an operation returns and what it gives to the sink. -/
inductive Reply where
  | minted (id : OrderId) (events : List Event)
  | canceled (found : Bool) (events : List Event)
  deriving DecidableEq, Repr

/-- The id an operation minted, or `kInvalidOrderId`. -/
def Reply.mintedId : Reply → OrderId
  | .minted id _ => id
  | .canceled _ _ => kInvalidOrderId

def OrderBook.step (ndebug : Bool) (book : OrderBook) : BookOp → Exec (OrderBook × Reply)
  | .add side type price qty => do
    let (id, book, events) ← book.add ndebug side type price qty
    pure (book, .minted id events)
  | .addLimit side price qty => do
    let (id, book) ← book.addLimit side price qty
    pure (book, .minted id [])
  | .cancel id => do
    let (found, book, events) ← book.cancel id
    pure (book, .canceled found events)

def OrderBook.run (ndebug : Bool) (book : OrderBook) : List BookOp → Exec (OrderBook × List Reply)
  | [] => pure (book, [])
  | op :: ops => do
    let (book, reply) ← book.step ndebug op
    let (book, replies) ← book.run ndebug ops
    pure (book, reply :: replies)

def OrderBook.drive (ndebug : Bool) (cfg : EngineConfig) (ops : List BookOp) :
    Exec (OrderBook × List Reply) := do
  let book ← OrderBook.new cfg.anchorPrice cfg.bandRadius cfg.poolCapacity
  book.run ndebug ops

def QueueBook.step (b : QueueBook) : BookOp → QueueBook × Reply
  | .add side type price qty =>
    ((b.add side type price qty).2.1,
      .minted (b.add side type price qty).1 (b.add side type price qty).2.2)
  | .addLimit side price qty =>
    ((b.addLimit side price qty).2, .minted (b.addLimit side price qty).1 [])
  | .cancel id => ((b.cancel id).2.1, .canceled (b.cancel id).1 (b.cancel id).2.2)

def QueueBook.run (b : QueueBook) : List BookOp → QueueBook × List Reply
  | [] => (b, [])
  | op :: ops => (((b.step op).1.run ops).1, (b.step op).2 :: ((b.step op).1.run ops).2)

structure EngineConfig.Asserted (cfg : EngineConfig) : Prop where
  anchor : 0 < cfg.anchorPrice.toInt
  radius : 0 < cfg.bandRadius.toNat ∧ cfg.bandRadius.toNat ≤ 2 ^ 24
  capacity : cfg.poolCapacity.toNat ≤ 2 ^ 31 - 1

theorem EngineConfig.Valid.asserted {cfg : EngineConfig} (h : cfg.Valid) : cfg.Asserted :=
  ⟨h.anchor, h.radius, h.capacity⟩

namespace PriceLadder

/-- The constructor builds a side without orders. -/
theorem new_ok {cfg : EngineConfig} (hc : cfg.Asserted) (side : Side) :
    ∃ l, PriceLadder.new side cfg.anchorPrice cfg.bandRadius = .ok l ∧ l.side = side ∧
      l.lowPrice.toInt = cfg.anchorPrice.toInt - cfg.bandRadius.toNat ∧
      l.levels.size = 2 * cfg.bandRadius.toNat + 1 ∧ (∀ n, l.levels.getD n {} = {}) ∧
      l.bestOffset = kNullIdx ∧ l.bandOrders = 0 ∧ l.overflow = ∅ := by
  have h₁ := hc.anchor
  have h₂ := hc.radius
  have h₃ := cfg.anchorPrice.toInt_lt
  have hr : (Int64.ofNat cfg.bandRadius.toNat).toInt = cfg.bandRadius.toNat :=
    Int64.toInt_ofNat_of_lt (by omega)
  have hsub : subI64 cfg.anchorPrice (Int64.ofNat cfg.bandRadius.toNat) =
      .ok (Int64.ofInt (cfg.anchorPrice.toInt - cfg.bandRadius.toNat)) := by
    rw [subI64, hr]
    exact int64_ok (by omega) (by omega)
  have hlow : (Int64.ofInt (cfg.anchorPrice.toInt - cfg.bandRadius.toNat)).toInt =
      cfg.anchorPrice.toInt - cfg.bandRadius.toNat := int64_toInt (by omega) (by omega)
  have hsize := width_toNat h₂.2
  have ha : 0 < cfg.anchorPrice := by
    rw [Int64.lt_iff_toInt_lt]
    exact h₁
  have hb : 0 < cfg.bandRadius ∧ cfg.bandRadius ≤ (1 : UInt32) <<< 24 := by
    rw [UInt32.lt_iff_toNat_lt, UInt32.le_iff_toNat_le]
    exact h₂
  obtain ⟨levels, hlevels⟩ : ∃ levels : Array PriceLevel,
      Array.replicate (2 * cfg.bandRadius + 1).toNat {} = levels := ⟨_, rfl⟩
  have hlen : levels.size = 2 * cfg.bandRadius.toNat + 1 := by
    rw [← hlevels, Array.size_replicate, hsize]
  have hentry : ∀ n, levels.getD n {} = {} := fun n => by
    rw [← hlevels, Array.getD_eq_getD_getElem?, Array.getElem?_replicate]
    split <;> rfl
  have hnew : PriceLadder.new side cfg.anchorPrice cfg.bandRadius = .ok
      { side, lowPrice := Int64.ofInt (cfg.anchorPrice.toInt - cfg.bandRadius.toNat), levels } := by
    rw [PriceLadder.new, hsub, hlevels, ok_bind, assert_pos ha, ok_bind, assert_pos hb]
    rfl
  exact ⟨_, hnew, rfl, hlow, hlen, hentry, rfl, rfl, rfl⟩

theorem new_rep {cfg : EngineConfig} (hc : cfg.Valid) (side : Side) (pool : OrderPool) :
    ∃ l, PriceLadder.new side cfg.anchorPrice cfg.bandRadius = .ok l ∧ l.side = side ∧
      l.lowPrice.toInt = cfg.anchorPrice.toInt - cfg.bandRadius.toNat ∧
      l.levels.size = 2 * cfg.bandRadius.toNat + 1 ∧ LadderRep pool l [] := by
  have h₂ := hc.radius
  have h₃ := hc.high
  obtain ⟨l, hnew, hside, hlow, hlen, hentry, hbest, hcount, hover⟩ := new_ok hc.asserted side
  refine ⟨l, hnew, hside, hlow, hlen, LadderRep.nil pool ⟨?_, ?_⟩ (fun p => ?_) hover hcount hbest⟩
  · rw [hlen]
    omega
  · rw [hlen, hlow]
    omega
  · unfold PriceLadder.level
    split
    · exact hentry _
    · rw [hover]
      simp

end PriceLadder

namespace BookRep

variable {cfg : EngineConfig} {book : OrderBook} {b : QueueBook}

/-- A pool and two ladders as the constructors leave them. -/
theorem of_new {pool : OrderPool} {bids asks : PriceLadder}
    (hinv : pool.Inv (QueueBook.new cfg.poolCapacity).free)
    (hsize : pool.slots.size = cfg.poolCapacity.toNat)
    (hzero : ∀ i, (pool.slot i).generation = 0 ∧ (pool.slot i).orderId = kInvalidOrderId ∧
      (pool.slot i).flags = 0)
    (hbids : bids.side = .kBuy) (hasks : asks.side = .kSell)
    (hladder : ∀ l, l = bids ∨ l = asks →
      l.lowPrice.toInt = cfg.anchorPrice.toInt - cfg.bandRadius.toNat ∧
      l.levels.size = 2 * cfg.bandRadius.toNat + 1 ∧ LadderRep pool l []) :
    BookRep cfg { pool, bids, asks } (QueueBook.new cfg.poolCapacity) [] := by
  have hq : ∀ s, (QueueBook.new cfg.poolCapacity).queue s = [] := fun s => by
    unfold QueueBook.queue
    split <;> rfl
  have hdead : ∀ i, ¬ pool.Live i := fun i hl => hl.2 (hzero i).2.1
  have hside : ∀ s, (OrderBook.ladder { pool, bids, asks } s).lowPrice.toInt =
        cfg.anchorPrice.toInt - cfg.bandRadius.toNat ∧
      (OrderBook.ladder { pool, bids, asks } s).levels.size = 2 * cfg.bandRadius.toNat + 1 ∧
      LadderRep pool (OrderBook.ladder { pool, bids, asks } s) [] := fun s => by
    unfold OrderBook.ladder
    split
    · exact hladder _ (.inl rfl)
    · exact hladder _ (.inr rfl)
  refine ⟨hsize, fun s => (hside s).1, fun s => (hside s).2.1, hinv, fun i => (hzero i).1,
    fun i => (hzero i).2.2, fun s => ?_, fun s => ?_, fun r hr => (by cases hr),
    fun r hr => (by cases hr), fun i => ?_, by simp, List.nodup_nil⟩
  · unfold OrderBook.ladder Side.resolve
    split <;> assumption
  · rw [hq]
    exact (hside s).2.2
  · exact iff_of_false (hdead i) (by rintro (hm | hm) <;> cases hm)

theorem new_rep (hc : cfg.Valid) :
    ∃ book, OrderBook.new cfg.anchorPrice cfg.bandRadius cfg.poolCapacity = .ok book ∧
      BookRep cfg book (QueueBook.new cfg.poolCapacity) [] := by
  obtain ⟨pool, hpool, hinv, hsize, hzero⟩ := OrderPool.new_inv hc.capacity
  obtain ⟨bids, hbids, hbs, hbl, hbw, hbr⟩ := PriceLadder.new_rep hc .kBuy pool
  obtain ⟨asks, hasks, has, hal, haw, har⟩ := PriceLadder.new_rep hc .kSell pool
  refine ⟨{ pool, bids, asks }, by rw [OrderBook.new, hpool, ok_bind, hbids, ok_bind, hasks]; rfl,
    .of_new hinv hsize hzero hbs has ?_⟩
  rintro l (rfl | rfl)
  · exact ⟨hbl, hbw, hbr⟩
  · exact ⟨hal, haw, har⟩

theorem step_rep (h : BookRep cfg book b []) (op : BookOp) :
    ∃ book', book.step true op = .ok (book', (b.step op).2) ∧
      BookRep cfg book' (b.step op).1 [] := by
  cases op with
  | add side type price qty =>
    obtain ⟨book', hrun, hrep, _⟩ := h.add_rep side type price qty
    exact ⟨book', by rw [OrderBook.step, hrun]; rfl, hrep⟩
  | addLimit side price qty =>
    obtain ⟨book', hrun, hrep⟩ := h.addLimit_rep side price qty
    exact ⟨book', by rw [OrderBook.step, hrun]; rfl, hrep⟩
  | cancel id =>
    obtain ⟨book', hrun, hrep⟩ := h.cancel_rep id
    exact ⟨book', by rw [OrderBook.step, hrun]; rfl, hrep⟩

theorem run_rep (ops : List BookOp) : ∀ {book : OrderBook} {b : QueueBook},
    BookRep cfg book b [] → ∃ book', book.run true ops = .ok (book', (b.run ops).2) ∧
      BookRep cfg book' (b.run ops).1 [] := by
  induction ops with
  | nil => exact fun h => ⟨_, rfl, h⟩
  | cons op ops ih =>
    intro book b h
    obtain ⟨book₁, hstep, hrep⟩ := h.step_rep op
    obtain ⟨book', hrun, hrep'⟩ := ih hrep
    exact ⟨book', by simp [OrderBook.run, hstep, hrun, QueueBook.run], hrep'⟩

theorem drive_rep (hc : cfg.Valid) (ops : List BookOp) :
    ∃ book, OrderBook.drive true cfg ops =
        .ok (book, ((QueueBook.new cfg.poolCapacity).run ops).2) ∧
      BookRep cfg book ((QueueBook.new cfg.poolCapacity).run ops).1 [] := by
  obtain ⟨book₀, hnew, hrep₀⟩ := new_rep hc
  obtain ⟨book, hrun, hrep⟩ := run_rep ops hrep₀
  exact ⟨book, by rw [OrderBook.drive, hnew, ok_bind, hrun], hrep⟩

end BookRep

theorem mint_none_iff {cfg : EngineConfig} {book : OrderBook} {b : QueueBook}
    (h : BookRep cfg book b []) : b.mint = none ↔ book.openOrders = cfg.poolCapacity := by
  have hlive := h.pool.live
  have hcap := h.capacity
  rw [OrderBook.openOrders, ← UInt32.toNat_inj]
  unfold QueueBook.mint
  cases hF : b.free with
  | nil =>
    rw [hF, List.length_nil] at hlive
    exact iff_of_true rfl (by omega)
  | cons i F =>
    rw [hF, List.length_cons] at hlive
    exact iff_of_false (by simp) (by omega)

theorem mint_some {cfg : EngineConfig} {book : OrderBook} {b b₁ : QueueBook} {id : OrderId}
    (hf : BookRep cfg book b []) (hm : b.mint = some (id, b₁)) :
    id ≠ kInvalidOrderId ∧ b₁.WF ∧ b₁.bids = b.bids ∧ b₁.asks = b.asks ∧
      ∀ r ∈ b₁.resting, r.id ≠ id := by
  obtain ⟨pool', _, hrep, hne, _⟩ := hf.alloc_some hm
  have hsides : b₁.bids = b.bids ∧ b₁.asks = b.asks := by
    unfold QueueBook.mint at hm
    split at hm
    · cases hm
    · simp only [Option.some.injEq, Prod.mk.injEq] at hm
      obtain ⟨_, rfl⟩ := hm
      exact ⟨rfl, rfl⟩
  refine ⟨hne, hrep.wf, hsides.1, hsides.2, fun r hr he => ?_⟩
  have hslot : indexOf id ∉ slots b₁.resting := hrep.apart (indexOf id) (List.mem_singleton.mpr rfl)
  rw [← he] at hslot
  exact hslot (mem_slots_of_mem hr)

/-! A debug build computes what a release build computes, or stops. -/

theorem add_shape (book : OrderBook) (side : Side) (type : OrderType) (price : PriceTicks)
    (qty : Qty) : ∃ x : Exec (OrderId × OrderBook × List Event),
      (∀ ndebug, book.add ndebug side type price qty = x) ∨
      ∀ ndebug, book.add ndebug side type price qty =
        x >>= fun r => r.2.1.assertUncrossed ndebug >>= fun _ => pure r := by
  unfold OrderBook.add
  by_cases hq : qty = 0
  · exact ⟨_, .inl fun _ => if_pos hq⟩
  · simp only [if_neg hq]
    by_cases hp : type ≠ .kMarket ∧ price ≤ 0
    · exact ⟨_, .inl fun _ => if_pos hp⟩
    · simp only [if_neg hp]
      cases halloc : book.pool.alloc with
      | error e => exact ⟨_, .inl fun _ => error_bind e _⟩
      | ok a =>
        simp only [ok_bind]
        by_cases hid : a.1 = kInvalidOrderId
        · exact ⟨_, .inl fun _ => if_pos hid⟩
        · simp only [if_neg hid]
          cases hex : ({ book with pool := a.2 } : OrderBook).execute a.1 side type price qty with
          | error e => exact ⟨_, .inl fun _ => error_bind e _⟩
          | ok y => exact ⟨.ok (a.1, y.1, y.2), .inr fun _ => rfl⟩

theorem add_of_debug {ndebug : Bool} {book : OrderBook} {side : Side} {type : OrderType}
    {price : PriceTicks} {qty : Qty} {r : OrderId × OrderBook × List Event}
    (h : book.add ndebug side type price qty = .ok r) :
    book.add true side type price qty = .ok r := by
  obtain ⟨x, hx | hx⟩ := add_shape book side type price qty
  · rw [hx, ← hx ndebug]
    exact h
  · rw [hx] at h ⊢
    obtain ⟨r', hr, h⟩ := bind_eq_ok.mp h
    obtain ⟨_, _, h⟩ := bind_eq_ok.mp h
    rw [hr, ok_bind]
    exact h

theorem add_debug (ndebug : Bool) {book : OrderBook} {side : Side} {type : OrderType}
    {price : PriceTicks} {qty : Qty} {r : OrderId × OrderBook × List Event}
    (h : book.add true side type price qty = .ok r) (hu : r.2.1.uncrossed = .ok true) :
    book.add ndebug side type price qty = .ok r := by
  obtain ⟨x, hx | hx⟩ := add_shape book side type price qty
  · rw [hx, ← hx true]
    exact h
  · rw [hx] at h ⊢
    obtain ⟨r', hr, h⟩ := bind_eq_ok.mp h
    cases h
    have hpass : r.2.1.assertUncrossed ndebug = .ok () := by
      cases ndebug with
      | true => rfl
      | false => simp [OrderBook.assertUncrossed, hu]
    rw [hr, ok_bind, hpass]
    rfl

theorem step_of_debug {ndebug : Bool} {book : OrderBook} {op : BookOp} {r : OrderBook × Reply}
    (h : book.step ndebug op = .ok r) : book.step true op = .ok r := by
  cases op with
  | add side type price qty =>
    obtain ⟨⟨id, book', events⟩, hadd, h⟩ := bind_eq_ok.mp h
    rw [OrderBook.step, add_of_debug hadd]
    exact h
  | addLimit side price qty => exact h
  | cancel id => exact h

theorem run_of_debug {ndebug : Bool} (ops : List BookOp) : ∀ {book : OrderBook}
    {r : OrderBook × List Reply}, book.run ndebug ops = .ok r → book.run true ops = .ok r := by
  induction ops with
  | nil => exact fun h => h
  | cons op ops ih =>
    intro book r h
    obtain ⟨⟨book₁, reply⟩, hstep, h⟩ := bind_eq_ok.mp h
    obtain ⟨⟨book₂, replies⟩, hrun, h⟩ := bind_eq_ok.mp h
    simp only [OrderBook.run, step_of_debug hstep, ok_bind, ih hrun]
    exact h

theorem drive_of_debug {ndebug : Bool} {cfg : EngineConfig} {ops : List BookOp}
    {r : OrderBook × List Reply} (h : OrderBook.drive ndebug cfg ops = .ok r) :
    OrderBook.drive true cfg ops = .ok r := by
  obtain ⟨book, hnew, h⟩ := bind_eq_ok.mp h
  rw [OrderBook.drive, hnew, ok_bind, run_of_debug ops h]

theorem EngineConfig.Valid.of_new {cfg : EngineConfig} {book : OrderBook}
    (h : OrderBook.new cfg.anchorPrice cfg.bandRadius cfg.poolCapacity = .ok book)
    (hhigh : cfg.anchorPrice.toInt + cfg.bandRadius.toNat + 1 ≤ 2 ^ 63 - 1) : cfg.Valid := by
  obtain ⟨pool, hpool, hnew⟩ := bind_eq_ok.mp h
  obtain ⟨bids, hbids, _⟩ := bind_eq_ok.mp hnew
  obtain ⟨_, hcap, _⟩ := bind_eq_ok.mp hpool
  obtain ⟨low, _, hbids⟩ := bind_eq_ok.mp hbids
  obtain ⟨_, hanchor, hbids⟩ := bind_eq_ok.mp hbids
  obtain ⟨_, hradius, _⟩ := bind_eq_ok.mp hbids
  have ha := assert_eq_ok.mp hanchor
  have hr := assert_eq_ok.mp hradius
  rw [Int64.lt_iff_toInt_lt] at ha
  rw [UInt32.lt_iff_toNat_lt, UInt32.le_iff_toNat_le] at hr
  exact ⟨ha, hr, hhigh, assert_eq_ok.mp hcap⟩

theorem EngineConfig.Valid.of_drive {ndebug : Bool} {cfg : EngineConfig} {ops : List BookOp}
    {r : OrderBook × List Reply} (h : OrderBook.drive ndebug cfg ops = .ok r)
    (hhigh : cfg.anchorPrice.toInt + cfg.bandRadius.toNat + 1 ≤ 2 ^ 63 - 1) : cfg.Valid := by
  obtain ⟨book, hnew, _⟩ := bind_eq_ok.mp h
  exact .of_new hnew hhigh

theorem BookRep.of_drive {ndebug : Bool} {cfg : EngineConfig} {ops : List BookOp}
    {book : OrderBook} {replies : List Reply}
    (h : OrderBook.drive ndebug cfg ops = .ok (book, replies))
    (hhigh : cfg.anchorPrice.toInt + cfg.bandRadius.toNat + 1 ≤ 2 ^ 63 - 1) :
    BookRep cfg book ((QueueBook.new cfg.poolCapacity).run ops).1 [] ∧
      replies = ((QueueBook.new cfg.poolCapacity).run ops).2 := by
  obtain ⟨book', hdrive, hrep⟩ := BookRep.drive_rep (.of_drive h hhigh) ops
  rw [drive_of_debug h] at hdrive
  simp only [Except.ok.injEq, Prod.mk.injEq] at hdrive
  obtain ⟨rfl, hreplies⟩ := hdrive
  exact ⟨hrep, hreplies⟩

end LimitOrderBook
