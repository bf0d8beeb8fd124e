import LimitOrderBook.CheckInvariants

set_option autoImplicit false

namespace LimitOrderBook
open Checked IntrusiveList PriorityQueue

/-- An order that rests at `p`: its own fields say so. -/
structure OrderInvariant (pool : OrderPool) (l : PriceLadder) (p : PriceTicks) (i : UInt32) :
    Prop where
  live : pool.Live i
  self : indexOf (pool.slot i).orderId = i
  side : (pool.slot i).side = l.side
  priceTicks : (pool.slot i).priceTicks = p
  levelIdx : (pool.slot i).levelIdx = l.levelIdxOf p
  remaining : 1 ≤ (pool.slot i).remaining.toNat ∧
    (pool.slot i).remaining.toNat ≤ (pool.slot i).qty.toNat

/-- The level at `p` against the slots listed in it. -/
structure LevelInvariant (pool : OrderPool) (l : PriceLadder) (p : PriceTicks) (L : List UInt32) :
    Prop where
  forward : Chain pool.next (OrderPool.deref (l.level p).headIdx) L
  backward : Chain pool.prev (OrderPool.deref (l.level p).tailIdx) L.reverse
  nodup : L.Nodup
  orderCount : (l.level p).orderCount.toNat = L.length
  totalQty : (l.level p).totalQty.toNat = openQty pool L
  order : ∀ i ∈ L, OrderInvariant pool l p i

structure LadderInvariant (pool : OrderPool) (l : PriceLadder) (listed : PriceTicks → List UInt32) :
    Prop where
  level : ∀ p, LevelInvariant pool l p (listed p)
  overflow : ∀ p ∈ l.overflow, ¬ l.InBand p ∧ listed p ≠ []
  absent : ∀ p, ¬ l.InBand p → p ∉ l.overflow → listed p = []
  bandOrders : l.bandOrders.toNat = (l.bandPrices.flatMap listed).length
  empty : l.empty = true ↔ ∀ p, listed p = []
  best : l.empty = false → ∃ p, l.bestPrice = .ok p ∧ listed p ≠ [] ∧
    ∀ q, listed q ≠ [] → ¬ l.side.Better q p

/-- Both sides, and the live slots shared out between them. -/
structure BookInvariant (book : OrderBook) (bids asks : PriceTicks → List UInt32) : Prop where
  sides : book.bids.side = .kBuy ∧ book.asks.side = .kSell
  bidLadder : LadderInvariant book.pool book.bids bids
  askLadder : LadderInvariant book.pool book.asks asks
  live : ∀ i, book.pool.Live i ↔ (∃ p, i ∈ bids p) ∨ ∃ p, i ∈ asks p
  once : ∀ i p q, (i ∈ bids p → i ∈ bids q → p = q) ∧ (i ∈ asks p → i ∈ asks q → p = q) ∧
    ¬ (i ∈ bids p ∧ i ∈ asks q)

namespace LadderRep

variable {pool : OrderPool} {l : PriceLadder} {S : List UInt32}

theorem invariant (h : LadderRep pool l S) (hself : ∀ i ∈ S, indexOf (pool.slot i).orderId = i)
    (hle : ∀ i ∈ S, (pool.slot i).remaining.toNat ≤ (pool.slot i).qty.toNat)
    (hside : ∀ i ∈ S, (pool.slot i).side = l.side) : LadderInvariant pool l (atPrice pool S) := by
  have hnonempty : ∀ p, atPrice pool S p ≠ [] ↔ ∃ i ∈ S, pool.price i = p := fun p => by
    constructor
    · intro hne
      obtain ⟨i, hi⟩ := List.exists_mem_of_ne_nil _ hne
      exact ⟨i, mem_atPrice.mp hi⟩
    · rintro ⟨i, hi⟩
      exact List.ne_nil_of_mem (mem_atPrice.mpr hi)
  refine ⟨fun p => ?_, fun p hp => ?_, fun p hb hp => ?_, ?_, ?_, fun he => ?_⟩
  · have hlev := h.level p
    refine ⟨hlev.list.chains.1, hlev.list.chains.2, hlev.nodup, hlev.count, hlev.qty,
      fun i hi => ?_⟩
    obtain ⟨hiS, hip⟩ := mem_atPrice.mp hi
    have ho := h.order i hiS
    exact ⟨ho.live, hself i hiS, hside i hiS, hip, by rw [ho.levelIdx, hip],
      ho.remaining_pos, hle i hiS⟩
  · rw [hnonempty]
    exact (h.overflow p).mp hp
  · by_contra hne
    exact hp ((h.overflow p).mpr ⟨hb, (hnonempty p).mp hne⟩)
  · have hperm : (visited pool S _).Perm _ := visited_perm h.bandPrices_nodup
    simp only [h.mem_bandPrices] at hperm
    exact h.bandOrders.trans hperm.length_eq.symm
  · rw [h.empty_iff, List.eq_nil_iff_forall_not_mem]
    constructor
    · exact fun hS p => List.eq_nil_iff_forall_not_mem.mpr fun i hi => hS i (mem_atPrice.mp hi).1
    · intro hall i hi
      have hmem : i ∈ atPrice pool S (pool.price i) := mem_atPrice.mpr ⟨hi, rfl⟩
      rw [hall] at hmem
      cases hmem
  · cases S with
    | nil =>
      rw [h.empty_iff.mpr rfl] at he
      cases he
    | cons i T =>
      refine ⟨_, h.bestPrice_ok, (hnonempty _).mpr ⟨i, by simp, rfl⟩, fun q hq => ?_⟩
      obtain ⟨j, hj, rfl⟩ := (hnonempty q).mp hq
      rcases List.mem_cons.mp hj with rfl | hj
      · exact irrefl_of _ _
      · exact h.sorted.head_best j hj

end LadderRep

namespace BookRep

variable {cfg : EngineConfig} {book : OrderBook} {b : QueueBook}

theorem slot_self (h : BookRep cfg book b []) (s : Side) :
    ∀ i ∈ slots (b.queue s), indexOf (book.pool.slot i).orderId = i := fun i hi => by
  rw [h.pool.ids i (h.slot_live hi), indexOf_makeOrderId]

theorem slot_filled (h : BookRep cfg book b []) (s : Side) : ∀ i ∈ slots (b.queue s),
    (book.pool.slot i).remaining.toNat ≤ (book.pool.slot i).qty.toNat := fun i hi => by
  obtain ⟨r, hr, rfl⟩ := List.mem_map.mp hi
  have hqty : (book.pool.slot r.slot).qty = r.qty := congrArg Resting.qty (h.stored_queue hr)
  rw [h.remaining_slot hr, hqty]
  exact h.filled_queue hr

theorem slot_side_eq (h : BookRep cfg book b []) (hd : b.SidesDeclared) (s : Side) :
    ∀ i ∈ slots (b.queue s), (book.pool.slot i).side = (book.ladder s).side := fun i hi => by
  obtain ⟨r, hr, rfl⟩ := List.mem_map.mp hi
  have hside : (book.pool.slot r.slot).side = r.side :=
    congrArg Resting.side (h.stored_queue hr)
  rw [hside, h.side, ← Side.resolve_of_declared (hd r (QueueBook.mem_resting.mpr ⟨s, hr⟩))]
  exact Side.resolve_congr (h.side_eq hr)

theorem checkLadder_ok (h : BookRep cfg book b []) (hd : b.SidesDeclared) (s : Side) :
    ∃ census, (book.ladder s).checkInvariants book.pool = .ok census ∧
      census.orderCount.toNat = (b.queue s).length := by
  obtain ⟨census, hrun, hcount, _⟩ := (h.ladder s).checkInvariants_ok h.size_lt (h.slot_self s)
    (h.slot_filled s) (h.slot_side_eq hd s)
  exact ⟨census, hrun, hcount.trans (List.length_map _)⟩

theorem checkLadders_ok (h : BookRep cfg book b []) (hd : b.SidesDeclared) :
    ∃ bids asks, book.bids.checkInvariants book.pool = .ok bids ∧
      book.asks.checkInvariants book.pool = .ok asks ∧
      bids.orderCount + asks.orderCount = book.pool.liveCount.toUInt64 := by
  obtain ⟨bids, hbids, hb⟩ := h.checkLadder_ok hd .kBuy
  obtain ⟨asks, hasks, ha⟩ := h.checkLadder_ok hd .kSell
  refine ⟨bids, asks, hbids, hasks, UInt64.toNat_inj.mp ?_⟩
  have hopen : book.pool.liveCount.toNat = (b.bids ++ b.asks).length := h.openOrders_rep
  have hlt := book.pool.liveCount.toNat_lt
  rw [List.length_append] at hopen
  change _ = b.bids.length at hb
  change _ = b.asks.length at ha
  rw [UInt64.toNat_add, UInt32.toNat_toUInt64, hb, ha]
  omega

theorem find_open (h : BookRep cfg book b []) (id : OrderId) :
    (book.pool.find id).map (fun o => (o.side, o.remaining)) =
      (b.find id).map fun r => (r.side, r.remaining) := by
  rw [h.find_rep]
  cases hf : b.find id with
  | none => rfl
  | some r =>
    have hstored := h.stored r ((QueueBook.find_iff h.wf).mp hf).1
    simp only [Option.map_some, Option.some.injEq, Prod.mk.injEq]
    exact ⟨congrArg Resting.side hstored, congrArg Resting.remaining hstored⟩

theorem checkInvariants_ok (h : BookRep cfg book b []) (hd : b.SidesDeclared)
    (hu : b.Uncrossed) : book.checkInvariants = .ok () := by
  obtain ⟨bids, asks, hbids, hasks, hcount⟩ := h.checkLadders_ok hd
  obtain ⟨ok, hok, hiff⟩ := h.uncrossed_rep
  rw [OrderBook.checkInvariants, hbids, ok_bind, hasks, ok_bind, assert_pos hcount, ok_bind, hok,
    ok_bind, assert_pos (hiff.mpr hu)]

/-- In a book that only matched orders built, an undeclared side byte is all the walk can find. -/
theorem checkInvariants_iff (h : BookRep cfg book b []) (hu : b.Uncrossed) :
    book.checkInvariants = .ok () ↔
      ∀ id o, book.pool.find id = some o → o.side.Declared := by
  have hwalk : ∀ s, (∃ census, (book.ladder s).checkInvariants book.pool = .ok census) →
      ∀ r ∈ b.queue s, r.side.Declared := fun s ⟨census, hrun⟩ r hr => by
    have hside := (h.ladder s).checkInvariants_side hrun r.slot (List.mem_map_of_mem hr)
    have hstored : (book.pool.slot r.slot).side = r.side :=
      congrArg Resting.side (h.stored_queue hr)
    rw [← hstored, hside, h.side]
    unfold Side.resolve Side.Declared
    split <;> simp
  constructor
  · intro hrun id o ho
    obtain ⟨bids, hbids, hrun⟩ := bind_eq_ok.mp hrun
    obtain ⟨asks, hasks, _⟩ := bind_eq_ok.mp hrun
    have hopen := h.find_open id
    rw [ho] at hopen
    obtain ⟨r, hr, he⟩ := Option.map_eq_some_iff.mp hopen.symm
    obtain ⟨s, hs⟩ := QueueBook.mem_resting.mp ((QueueBook.find_iff h.wf).mp hr).1
    have hdecl : r.side.Declared := by
      rw [QueueBook.queue] at hs
      split at hs
      · exact hwalk .kBuy ⟨bids, hbids⟩ r hs
      · exact hwalk .kSell ⟨asks, hasks⟩ r hs
    rw [← (Prod.mk.inj he).1]
    exact hdecl
  · intro hall
    refine h.checkInvariants_ok (fun r hr => ?_) hu
    have hopen := h.find_open r.id
    rw [(QueueBook.find_iff h.wf).mpr ⟨hr, rfl⟩] at hopen
    obtain ⟨o, ho, he⟩ := Option.map_eq_some_iff.mp hopen
    rw [← (Prod.mk.inj he).1]
    exact hall r.id o ho

theorem invariant (h : BookRep cfg book b []) (hd : b.SidesDeclared) :
    BookInvariant book (atPrice book.pool (slots b.bids)) (atPrice book.pool (slots b.asks)) where
  sides := ⟨h.side .kBuy, h.side .kSell⟩
  bidLadder := (h.ladder .kBuy).invariant (h.slot_self .kBuy) (h.slot_filled .kBuy)
    (h.slot_side_eq hd .kBuy)
  askLadder := (h.ladder .kSell).invariant (h.slot_self .kSell) (h.slot_filled .kSell)
    (h.slot_side_eq hd .kSell)
  live i := by
    rw [h.live, QueueBook.resting, slots_append, List.mem_append]
    simp [mem_atPrice]
  once i p q := by
    simp only [mem_atPrice]
    refine ⟨fun hp hq => hp.2.symm.trans hq.2, fun hp hq => hp.2.symm.trans hq.2, fun hpq => ?_⟩
    exact h.other_side (s := .kSell) (t := .kBuy) hpq.2.1 (by decide) hpq.1.1

end BookRep

/-- Every state a run reaches satisfies the full-book invariant, and the walks of
both ladders find nothing wrong. Only orders that rest unmatched can cross the
book; without them the whole check passes, in debug builds too. -/
theorem full_book_invariant {cfg : EngineConfig} (hc : cfg.Valid) (ops : List BookOp)
    (hd : ∀ op ∈ ops, op.SideDeclared) :
    (∃ book replies, OrderBook.drive true cfg ops = .ok (book, replies)) ∧
    (∀ ndebug book replies, OrderBook.drive ndebug cfg ops = .ok (book, replies) →
      (∃ bids asks, BookInvariant book bids asks) ∧
      ∃ bids asks, book.bids.checkInvariants book.pool = .ok bids ∧
        book.asks.checkInvariants book.pool = .ok asks ∧
        bids.orderCount + asks.orderCount = book.pool.liveCount.toUInt64) ∧
    ((∀ op ∈ ops, op.Matched) → ∀ ndebug, ∃ book replies,
      OrderBook.drive ndebug cfg ops = .ok (book, replies) ∧ book.checkInvariants = .ok ()) := by
  have hsides : ((QueueBook.new cfg.poolCapacity).run ops).1.SidesDeclared :=
    QueueBook.sidesDeclared_run ops (QueueBook.new_sidesDeclared _)
      fun op hop _ => (hd op hop).submits
  obtain ⟨book, hrun, hrep⟩ := BookRep.drive_rep hc ops
  refine ⟨⟨book, _, hrun⟩, fun ndebug book' replies h => ?_, fun hm ndebug => ?_⟩
  · have he := hrun.symm.trans (drive_of_debug h)
    simp only [Except.ok.injEq, Prod.mk.injEq] at he
    obtain ⟨rfl, _⟩ := he
    exact ⟨⟨_, _, hrep.invariant hsides⟩, hrep.checkLadders_ok hsides⟩
  · obtain ⟨book', hrun', hrep', hu⟩ := BookRep.drive_debug hc ndebug ops hm
    exact ⟨book', _, hrun', hrep'.checkInvariants_ok hsides hu⟩

/-- A partial fill in the band, with an order resting outside it. -/
theorem full_book_invariant_small : ∃ book replies,
    OrderBook.drive false { anchorPrice := 100, bandRadius := 1, poolCapacity := 3 }
      [.add .kSell .kLimit 101 5, .add .kSell .kLimit 300 7, .add .kBuy .kIoc 101 2] =
        .ok (book, replies) ∧ book.checkInvariants = .ok () :=
  (full_book_invariant ⟨by decide, by decide, by decide, by decide⟩ _
    (by simp [BookOp.SideDeclared, Side.Declared])).2.2 (by simp [BookOp.Matched]) false

end LimitOrderBook
