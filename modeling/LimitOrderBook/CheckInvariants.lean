import LimitOrderBook.QueueRun

set_option autoImplicit false

namespace LimitOrderBook
open Checked IntrusiveList PriorityQueue

structure Walk where
  census : Census := {}
  bestSeen : PriceTicks := 0
  any : Bool := false
  deriving DecidableEq, Repr

namespace PriceLadder

/-- The loop of `check_level`: returns the last index, the count and the quantity. -/
def checkFifo (l : PriceLadder) (pool : OrderPool) (price : PriceTicks) (levelIdx : Int32) :
    Nat → Int32 → Int32 → UInt32 → UInt64 → Exec (Int32 × UInt32 × UInt64)
  | 0, _, _, _, _ => .error .outOfFuel
  | fuel + 1, idx, prev, count, qty =>
    if idx = kNullIdx then pure (prev, count, qty)
    else do
      let order ← pool.get idx.toUInt32
      assert (order.prevIdx = prev) "FIFO links asymmetric"
      assert (order.orderId ≠ kInvalidOrderId ∧ indexOf order.orderId = idx.toUInt32)
        "order id does not name its own slot"
      assert (order.side = l.side) "order resting on the wrong side"
      assert (order.priceTicks = price) "order price != level price"
      assert (order.levelIdx = levelIdx) "order level_idx does not name its level"
      assert (1 ≤ order.remaining ∧ order.remaining ≤ order.qty) "remaining out of range"
      l.checkFifo pool price levelIdx fuel order.nextIdx idx (count + 1)
        (qty + order.remaining.toUInt64)

def checkLevel (l : PriceLadder) (pool : OrderPool) (w : Walk) (price : PriceTicks)
    (level : PriceLevel) (levelIdx : Int32) : Exec Walk :=
  if level.empty then do
    assert (level.tailIdx = kNullIdx ∧ level.orderCount = 0 ∧ level.totalQty = 0)
      "empty level with residue"
    pure w
  else do
    let (prev, count, qty) ←
      l.checkFifo pool price levelIdx (pool.slots.size + 1) level.headIdx kNullIdx 0 0
    assert (prev = level.tailIdx) "tail does not name the last order"
    assert (count = level.orderCount) "order_count drifted from the FIFO"
    assert (qty = level.totalQty) "total_qty drifted from the orders (qty conservation)"
    let better : Bool := if l.side = .kBuy then w.bestSeen < price else price < w.bestSeen
    let census := {
      orderCount := w.census.orderCount + count.toUInt64
      totalQty := w.census.totalQty + qty }
    if !w.any || better then pure { census, bestSeen := price, any := true }
    else pure { w with census }

/-- One iteration of the loop over the band. -/
def checkBandLevel (l : PriceLadder) (pool : OrderPool) (w : Walk) (off : Nat) : Exec Walk := do
  let price ← addI64 l.lowPrice (Int64.ofNat off)
  let level ← l.bandLevel off
  l.checkLevel pool w price level (Int32.ofNat off)

/-- One iteration of the loop over the overflow map. -/
def checkOverflowLevel (l : PriceLadder) (pool : OrderPool) (w : Walk)
    (node : PriceTicks × PriceLevel) : Exec Walk := do
  let inBand ← l.inBand node.1
  assert (inBand = false) "overflow level inside the band"
  assert (node.2.empty = false) "empty overflow level not erased"
  l.checkLevel pool w node.1 node.2 kOverflowIdx

def checkInvariants (l : PriceLadder) (pool : OrderPool) : Exec Census := do
  let w ← (List.range l.levels.size).foldlM (l.checkBandLevel pool) {}
  assert (w.census.orderCount = l.bandOrders.toUInt64) "band_orders_ drifted from the walk"
  let w ← l.overflow.toList.foldlM (l.checkOverflowLevel pool) w
  assert (l.empty = !w.any) "empty() disagrees with the walk"
  if w.any then
    let best ← l.bestPrice
    assert (best = w.bestSeen) "best cursor drifted from the true best"
  pure w.census

def bandPrices (l : PriceLadder) : List PriceTicks :=
  (List.range l.levels.size).map fun off : Nat => Int64.ofInt (l.lowPrice.toInt + off)

end PriceLadder

def OrderBook.checkInvariants (b : OrderBook) : Exec Unit := do
  let bids ← b.bids.checkInvariants b.pool
  let asks ← b.asks.checkInvariants b.pool
  assert (bids.orderCount + asks.orderCount = b.pool.liveCount.toUInt64)
    "pool live_count != resting orders"
  let ok ← b.uncrossed
  assert (ok = true) "book is crossed"

namespace LadderRep

variable {pool : OrderPool} {l : PriceLadder} {S : List UInt32} {p : PriceTicks}

/-- The walk of one level reads every link forward and backward. -/
theorem checkFifo_ok (h : LadderRep pool l S)
    (hself : ∀ i ∈ S, indexOf (pool.slot i).orderId = i)
    (hle : ∀ i ∈ S, (pool.slot i).remaining.toNat ≤ (pool.slot i).qty.toNat)
    (hside : ∀ i ∈ S, (pool.slot i).side = l.side) (T : List UInt32) :
    ∀ (fuel : Nat) (idx prev : Int32) (count : UInt32) (qty : UInt64),
    (∀ i ∈ T, i ∈ atPrice pool S p) →
    Segment pool.next pool.prev (OrderPool.deref prev) T none →
    OrderPool.deref idx = T.head? → T.length < fuel →
    count.toNat + T.length < 2 ^ 32 → qty.toNat + openQty pool T < 2 ^ 64 →
    ∃ last count' qty', l.checkFifo pool p (l.levelIdxOf p) fuel idx prev count qty =
        .ok (last, count', qty') ∧
      OrderPool.deref last = T.getLast?.or (OrderPool.deref prev) ∧
      count'.toNat = count.toNat + T.length ∧ qty'.toNat = qty.toNat + openQty pool T := by
  induction T with
  | nil =>
    intro fuel idx prev count qty _ _ hidx hf _ _
    obtain ⟨fuel, rfl⟩ : ∃ k, fuel = k + 1 := ⟨fuel - 1, by omega⟩
    have hnull : idx = kNullIdx := OrderPool.deref_eq_none.mp hidx
    exact ⟨prev, count, qty, by rw [PriceLadder.checkFifo, if_pos hnull]; rfl, rfl, rfl, rfl⟩
  | cons i T ih =>
    intro fuel idx prev count qty hmem hseg hidx hf hcount hqty
    obtain ⟨fuel, rfl⟩ : ∃ k, fuel = k + 1 := ⟨fuel - 1, by simp at hf; omega⟩
    obtain ⟨hprev, hnext, hrest⟩ := hseg
    obtain ⟨hne, hi⟩ := OrderPool.deref_eq_some hidx
    obtain ⟨hiS, hip⟩ := mem_atPrice.mp (hmem i (by simp))
    have ho := h.order i hiS
    rw [List.length_cons] at hf hcount
    rw [openQty_cons] at hqty
    have hc' : (count + 1).toNat = count.toNat + 1 := by
      rw [UInt32.toNat_add, UInt32.toNat_one]
      omega
    have hq' : (qty + (pool.slot i).remaining.toUInt64).toNat =
        qty.toNat + (pool.slot i).remaining.toNat := by
      rw [UInt64.toNat_add, UInt32.toNat_toUInt64]
      omega
    obtain ⟨last, count', qty', hrun, hlast, hcnt, hq⟩ := ih fuel (pool.slot i).nextIdx idx
      (count + 1) (qty + (pool.slot i).remaining.toUInt64)
      (fun j hj => hmem j (by simp [hj])) (by rw [hidx]; exact hrest)
      (by rw [← OrderPool.next, hnext, Option.or_none]) (by omega) (by omega) (by omega)
    refine ⟨last, count', qty', ?_, ?_, by rw [hcnt, List.length_cons]; omega,
      by rw [hq, openQty_cons]; omega⟩
    · have hid := ho.live.2
      have hpair := And.intro hid (hself i hiS)
      have hlink : (pool.slot i).prevIdx = prev := OrderPool.deref_inj hprev
      have hlevel : (pool.slot i).levelIdx = l.levelIdxOf p := by rw [ho.levelIdx, hip]
      have hrange : 1 ≤ (pool.slot i).remaining ∧ (pool.slot i).remaining ≤ (pool.slot i).qty := by
        rw [UInt32.le_iff_toNat_le, UInt32.le_iff_toNat_le]
        exact ⟨ho.remaining_pos, hle i hiS⟩
      rw [PriceLadder.checkFifo, if_neg hne, hi, OrderPool.get_ok ho.live.1, ok_bind,
        assert_pos hlink, ok_bind, assert_pos hpair, ok_bind, assert_pos (hside i hiS), ok_bind,
        assert_pos (show (pool.slot i).priceTicks = p from hip), ok_bind, assert_pos hlevel,
        ok_bind, assert_pos hrange, ok_bind, hrun]
    · rw [hlast, hidx]
      cases T with
      | nil => rfl
      | cons j T => rw [List.getLast?_cons_cons, List.getLast?_eq_some_getLast (by simp)]; rfl

def visited (pool : OrderPool) (S : List UInt32) (ps : List PriceTicks) : List UInt32 :=
  ps.flatMap fun p => atPrice pool S p

theorem visited_snoc (ps : List PriceTicks) :
    visited pool S (ps ++ [p]) = visited pool S ps ++ atPrice pool S p := by
  simp [visited]

theorem visited_perm {ps : List PriceTicks} (hps : ps.Nodup) :
    (visited pool S ps).Perm (S.filter fun i => decide (pool.price i ∈ ps)) :=
  group_perm S ps hps

/-- What the walk knows after the prices of `ps`. -/
structure Walked (pool : OrderPool) (l : PriceLadder) (S : List UInt32) (ps : List PriceTicks)
    (w : Walk) : Prop where
  count : w.census.orderCount.toNat = (visited pool S ps).length
  qty : w.census.totalQty.toNat = openQty pool (visited pool S ps)
  any : w.any = true ↔ visited pool S ps ≠ []
  seen : w.any = true → ∃ i ∈ visited pool S ps, pool.price i = w.bestSeen
  best : w.any = true → ∀ i ∈ visited pool S ps, ¬ l.side.Better (pool.price i) w.bestSeen

theorem Walked.nil : Walked pool l S [] {} :=
  ⟨rfl, rfl, by simp [visited], by simp, by simp⟩

theorem visited_length_le (h : LadderRep pool l S) {ps : List PriceTicks} (hps : ps.Nodup) :
    (visited pool S ps).length ≤ pool.slots.size :=
  (visited_perm hps).length_eq ▸ (List.length_filter_le _ _).trans h.length_le

theorem visited_qty_lt (h : LadderRep pool l S) (hs : pool.slots.size < 2 ^ 31)
    {ps : List PriceTicks} (hps : ps.Nodup) : openQty pool (visited pool S ps) < 2 ^ 64 := by
  have h₁ := openQty_le pool (visited pool S ps)
  have h₂ := h.visited_length_le hps
  have h₃ : (visited pool S ps).length * (2 ^ 32 - 1) ≤ 2 ^ 31 * (2 ^ 32 - 1) :=
    Nat.mul_le_mul_right _ (by omega)
  omega

theorem checkLevel_ok (h : LadderRep pool l S) (hs : pool.slots.size < 2 ^ 31)
    (hself : ∀ i ∈ S, indexOf (pool.slot i).orderId = i)
    (hle : ∀ i ∈ S, (pool.slot i).remaining.toNat ≤ (pool.slot i).qty.toNat)
    (hside : ∀ i ∈ S, (pool.slot i).side = l.side) {ps : List PriceTicks} {w : Walk}
    (hps : (ps ++ [p]).Nodup) (hw : Walked pool l S ps w) :
    ∃ w', l.checkLevel pool w p (l.level p) (l.levelIdxOf p) = .ok w' ∧
      Walked pool l S (ps ++ [p]) w' := by
  have hlev := h.level p
  by_cases hempty : (l.level p).empty = true
  · have hnil := hlev.empty_iff.mp hempty
    rw [hnil] at hlev
    have hdef := hlev.eq_default
    have hv : visited pool S (ps ++ [p]) = visited pool S ps := by
      rw [visited_snoc, hnil, List.append_nil]
    refine ⟨w, ?_, ?_⟩
    · rw [PriceLadder.checkLevel, if_pos hempty, hdef]
      rfl
    · obtain ⟨h₁, h₂, h₃, h₄, h₅⟩ := hw
      exact ⟨by rw [hv, h₁], by rw [hv, h₂], by rw [hv, h₃], by rw [hv]; exact h₄,
        by rw [hv]; exact h₅⟩
  · have hne : atPrice pool S p ≠ [] := fun e => hempty (hlev.empty_iff.mpr e)
    have hlen := hlev.length_le
    have hql := hlev.qty_lt hs
    obtain ⟨last, count, qty, hrun, hlast, hcount, hqty⟩ := h.checkFifo_ok hself hle hside
      (atPrice pool S p) (pool.slots.size + 1) (l.level p).headIdx kNullIdx 0 0 (fun _ hi => hi)
      hlev.list.links hlev.list.head (by omega) (by rw [UInt32.toNat_zero]; omega)
      (by rw [UInt64.toNat_zero]; omega)
    have htail : last = (l.level p).tailIdx := by
      refine OrderPool.deref_inj ?_
      rw [hlast, hlev.list.tail, OrderPool.deref_null, Option.or_none]
    have hc : count = (l.level p).orderCount := UInt32.toNat_inj.mp (by
      rw [hcount, hlev.count, UInt32.toNat_zero, Nat.zero_add])
    have hq : qty = (l.level p).totalQty := UInt64.toNat_inj.mp (by
      rw [hqty, hlev.qty, UInt64.toNat_zero, Nat.zero_add])
    have hvlen := h.visited_length_le hps
    have hvqty := h.visited_qty_lt hs hps
    rw [visited_snoc, List.length_append] at hvlen
    rw [visited_snoc, openQty_append] at hvqty
    have hcensus₁ : (w.census.orderCount + (l.level p).orderCount.toUInt64).toNat =
        (visited pool S (ps ++ [p])).length := by
      rw [UInt64.toNat_add, UInt32.toNat_toUInt64, hw.count, hlev.count, visited_snoc,
        List.length_append]
      omega
    have hcensus₂ : (w.census.totalQty + (l.level p).totalQty).toNat =
        openQty pool (visited pool S (ps ++ [p])) := by
      rw [UInt64.toNat_add, hw.qty, hlev.qty, visited_snoc, openQty_append]
      omega
    have hbetter : (if l.side = .kBuy then decide (w.bestSeen < p) else decide (p < w.bestSeen)) =
        decide (l.side.Better p w.bestSeen) := by
      unfold Side.Better
      split <;> rfl
    have hmem : ∀ {i}, i ∈ visited pool S (ps ++ [p]) ↔
        i ∈ visited pool S ps ∨ i ∈ atPrice pool S p := by
      intro i
      rw [visited_snoc, List.mem_append]
    have hsome : visited pool S (ps ++ [p]) ≠ [] := by
      rw [visited_snoc]
      simp [hne]
    rw [PriceLadder.checkLevel, if_neg hempty]
    simp only [hrun, ok_bind, assert_pos htail, hc, hq, assert_pos True.intro, hbetter]
    by_cases himp : (!w.any || decide (l.side.Better p w.bestSeen)) = true
    · rw [if_pos himp]
      refine ⟨_, rfl, hcensus₁, hcensus₂, iff_of_true rfl hsome, fun _ => ?_, fun _ i hi => ?_⟩
      · obtain ⟨i, hi⟩ := List.exists_mem_of_ne_nil _ hne
        exact ⟨i, hmem.mpr (.inr hi), (mem_atPrice.mp hi).2⟩
      · rcases hmem.mp hi with hi | hi
        · have hany : w.any = true := hw.any.mpr (List.ne_nil_of_mem hi)
          have hp : l.side.Better p w.bestSeen := by simpa [hany] using himp
          exact fun hlt => hw.best hany i hi (trans_of _ hlt hp)
        · rw [(mem_atPrice.mp hi).2]
          exact irrefl_of _ _
    · rw [if_neg himp]
      obtain ⟨hany, hp⟩ : w.any = true ∧ ¬ l.side.Better p w.bestSeen := by simpa using himp
      refine ⟨_, rfl, hcensus₁, hcensus₂, iff_of_true hany hsome, fun _ => ?_, fun _ i hi => ?_⟩
      · obtain ⟨i, hi, he⟩ := hw.seen hany
        exact ⟨i, hmem.mpr (.inl hi), he⟩
      · rcases hmem.mp hi with hi | hi
        · exact hw.best hany i hi
        · rw [(mem_atPrice.mp hi).2]
          exact hp

theorem bandPrice_toInt (h : LadderRep pool l S) {off : Nat} (ho : off < l.levels.size) :
    (Int64.ofInt (l.lowPrice.toInt + off)).toInt = l.lowPrice.toInt + off := by
  have h₁ := h.geometry.high
  have h₂ := l.lowPrice.le_toInt
  exact int64_toInt (by omega) (by omega)

theorem mem_bandPrices (h : LadderRep pool l S) : p ∈ l.bandPrices ↔ l.InBand p := by
  rw [PriceLadder.bandPrices, List.mem_map]
  constructor
  · rintro ⟨off, ho, rfl⟩
    rw [List.mem_range] at ho
    rw [PriceLadder.InBand, h.bandPrice_toInt ho]
    omega
  · rintro ⟨h₁, h₂⟩
    have ho : (p.toInt - l.lowPrice.toInt).toNat < l.levels.size := by omega
    refine ⟨_, List.mem_range.mpr ho, Int64.toInt_inj.mp ?_⟩
    rw [h.bandPrice_toInt ho]
    omega

theorem bandPrices_nodup (h : LadderRep pool l S) : l.bandPrices.Nodup := by
  refine (List.nodup_range).map_on fun a ha b hb he => ?_
  rw [List.mem_range] at ha hb
  have := congrArg Int64.toInt he
  rw [h.bandPrice_toInt ha, h.bandPrice_toInt hb] at this
  omega

theorem prices_nodup (h : LadderRep pool l S) : (l.bandPrices ++ l.overflow.keys).Nodup := by
  refine List.nodup_append.mpr ⟨h.bandPrices_nodup, Std.ExtTreeMap.nodup_keys, ?_⟩
  rintro p hp q hq rfl
  exact ((h.overflow p).mp (Std.ExtTreeMap.mem_keys.mp hq)).1 (h.mem_bandPrices.mp hp)

theorem checkBandLevel_ok (h : LadderRep pool l S) (hs : pool.slots.size < 2 ^ 31)
    (hself : ∀ i ∈ S, indexOf (pool.slot i).orderId = i)
    (hle : ∀ i ∈ S, (pool.slot i).remaining.toNat ≤ (pool.slot i).qty.toNat)
    (hside : ∀ i ∈ S, (pool.slot i).side = l.side) :
    ∃ w, (List.range l.levels.size).foldlM (l.checkBandLevel pool) {} = .ok w ∧
      Walked pool l S l.bandPrices w := by
  refine foldlM_ok (fun done w => Walked pool l S (done.map fun off : Nat =>
    Int64.ofInt (l.lowPrice.toInt + off)) w) Walked.nil _ (fun done off rest w he hw => ?_)
  have ho : off < l.levels.size := List.mem_range.mp (he ▸ by simp)
  have hsize := h.geometry.size
  have hoff : (Int64.ofNat off).toInt = off := Int64.toInt_ofNat_of_lt (by omega)
  have hprice := h.bandPrice_toInt ho
  have hb : l.InBand (Int64.ofInt (l.lowPrice.toInt + off)) := by
    rw [PriceLadder.InBand, hprice]
    omega
  have hidx : Int32.ofNat off = l.levelIdxOf (Int64.ofInt (l.lowPrice.toInt + off)) := by
    rw [PriceLadder.levelIdxOf, if_pos hb, PriceLadder.offsetOf, hprice, add_sub_cancel_left,
      Int32.ofInt_eq_ofNat]
  have hlevel := PriceLadder.bandLevel_ok hb
  rw [hprice, add_sub_cancel_left] at hlevel
  have hnd : (done.map (fun off : Nat => Int64.ofInt (l.lowPrice.toInt + off)) ++
      [Int64.ofInt (l.lowPrice.toInt + off)]).Nodup := by
    have hall := h.bandPrices_nodup
    rw [PriceLadder.bandPrices, he, List.map_append, List.map_cons, List.append_cons] at hall
    exact (List.nodup_append.mp hall).1
  obtain ⟨w', hrun, hw'⟩ := h.checkLevel_ok hs hself hle hside hnd hw
  refine ⟨w', ?_, by rw [List.map_append]; exact hw'⟩
  rw [PriceLadder.checkBandLevel, addI64, hoff, int64_eq_ok.mpr hprice, ok_bind, hlevel, ok_bind,
    hidx, hrun]

theorem checkOverflowLevel_ok (h : LadderRep pool l S) (hs : pool.slots.size < 2 ^ 31)
    (hself : ∀ i ∈ S, indexOf (pool.slot i).orderId = i)
    (hle : ∀ i ∈ S, (pool.slot i).remaining.toNat ≤ (pool.slot i).qty.toNat)
    (hside : ∀ i ∈ S, (pool.slot i).side = l.side) {w : Walk}
    (hw : Walked pool l S l.bandPrices w) :
    ∃ w', l.overflow.toList.foldlM (l.checkOverflowLevel pool) w = .ok w' ∧
      Walked pool l S (l.bandPrices ++ l.overflow.keys) w' := by
  have hmap : l.overflow.keys = l.overflow.toList.map Prod.fst := by simp
  rw [hmap]
  refine foldlM_ok (fun done w => Walked pool l S (l.bandPrices ++ done.map Prod.fst) w)
    (by simpa using hw) _ (fun done node rest w he hw => ?_)
  obtain ⟨p, level⟩ := node
  have hget : l.overflow[p]? = some level :=
    Std.ExtTreeMap.mem_toList_iff_getElem?_eq_some.mp (he ▸ by simp)
  have hp : p ∈ l.overflow := by
    rw [Std.ExtTreeMap.mem_iff_isSome_getElem?, hget]
    rfl
  obtain ⟨hb, i, hi, hip⟩ := (h.overflow p).mp hp
  have hlevel : l.level p = level := by
    rw [PriceLadder.level, if_neg hb, Std.ExtTreeMap.getD_eq_getD_getElem?, hget]
    rfl
  have hidx : l.levelIdxOf p = kOverflowIdx := if_neg hb
  have hfull : level.empty = false := by
    rw [← hlevel, ← Bool.not_eq_true, (h.level p).empty_iff]
    exact List.ne_nil_of_mem (mem_atPrice.mpr ⟨hi, hip⟩)
  have hout : decide (l.InBand p) = false := decide_eq_false hb
  have hnd : (l.bandPrices ++ done.map Prod.fst ++ [p]).Nodup := by
    have hall : (l.bandPrices ++ l.overflow.keys).Nodup := h.prices_nodup
    rw [hmap, he, List.map_append, List.map_cons, List.append_cons, ← List.append_assoc,
      ← List.append_assoc] at hall
    exact (List.nodup_append.mp hall).1
  obtain ⟨w', hrun, hw'⟩ := h.checkLevel_ok hs hself hle hside hnd hw
  refine ⟨w', ?_, by rw [List.map_append, ← List.append_assoc]; exact hw'⟩
  rw [PriceLadder.checkOverflowLevel, PriceLadder.inBand_ok h.geometry, ok_bind, assert_pos hout,
    ok_bind, assert_pos hfull, ok_bind, ← hlevel, ← hidx, hrun]

theorem visited_all (h : LadderRep pool l S) :
    (visited pool S (l.bandPrices ++ l.overflow.keys)).Perm S := by
  refine (visited_perm h.prices_nodup).trans (.of_eq ?_)
  refine List.filter_eq_self.mpr fun i hi => ?_
  rw [decide_eq_true_eq, List.mem_append, h.mem_bandPrices, Std.ExtTreeMap.mem_keys]
  exact (h.mem_band_or hi).imp (fun hb => (mem_inBandSlots.mp hb).2) id

/-- The walk of a whole ladder: all its assertions hold, and it counts every order once. -/
theorem checkInvariants_ok (h : LadderRep pool l S) (hs : pool.slots.size < 2 ^ 31)
    (hself : ∀ i ∈ S, indexOf (pool.slot i).orderId = i)
    (hle : ∀ i ∈ S, (pool.slot i).remaining.toNat ≤ (pool.slot i).qty.toNat)
    (hside : ∀ i ∈ S, (pool.slot i).side = l.side) :
    ∃ census, l.checkInvariants pool = .ok census ∧ census.orderCount.toNat = S.length ∧
      census.totalQty.toNat = openQty pool S := by
  obtain ⟨w₁, hrun₁, hw₁⟩ := h.checkBandLevel_ok hs hself hle hside
  obtain ⟨w, hrun, hw⟩ := h.checkOverflowLevel_ok hs hself hle hside hw₁
  have hband : w₁.census.orderCount = l.bandOrders.toUInt64 := by
    refine UInt64.toNat_inj.mp ?_
    rw [hw₁.count, UInt32.toNat_toUInt64, h.bandOrders,
      (visited_perm h.bandPrices_nodup).length_eq, inBandSlots]
    simp only [h.mem_bandPrices]
  have hperm := h.visited_all
  have hany : w.any = true ↔ S ≠ [] := by
    rw [hw.any, ← List.length_pos_iff, hperm.length_eq, List.length_pos_iff]
  have hempty : l.empty = !w.any := by
    rw [Bool.eq_iff_iff, h.empty_iff, Bool.not_eq_true', ← Bool.not_eq_true, hany, not_not]
  refine ⟨w.census, ?_, hw.count.trans hperm.length_eq, hw.qty.trans ?_⟩
  · rw [PriceLadder.checkInvariants, hrun₁, ok_bind, assert_pos hband, ok_bind, hrun, ok_bind,
      assert_pos hempty, ok_bind]
    cases S with
    | nil =>
      have hno : ¬ w.any = true := fun e => hany.mp e rfl
      rw [if_neg hno]
      rfl
    | cons i T =>
      have hyes : w.any = true := hany.mpr (by simp)
      have hbest : pool.price i = w.bestSeen := by
        obtain ⟨j, hj, he⟩ := hw.seen hyes
        exact h.front_price ⟨j, hperm.mem_iff.mp hj, he⟩
          fun k hk => hw.best hyes k (hperm.mem_iff.mpr hk)
      rw [if_pos hyes, h.bestPrice_ok, ok_bind, assert_pos hbest]
      rfl
  · exact (hperm.map _).sum_eq

/-! A walk that succeeds has found every order under the side of its ladder. -/

theorem checkFifo_side {levelIdx : Int32} (T : List UInt32) : ∀ {fuel : Nat} {idx prev : Int32}
    {count : UInt32} {qty : UInt64} {r : Int32 × UInt32 × UInt64},
    l.checkFifo pool p levelIdx fuel idx prev count qty = .ok r →
    Chain pool.next (OrderPool.deref idx) T → (∀ i ∈ T, i.toNat < pool.slots.size) →
    ∀ i ∈ T, (pool.slot i).side = l.side := by
  induction T with
  | nil => exact fun _ _ _ i hi => absurd hi (by simp)
  | cons j T ih =>
    intro fuel idx prev count qty r hrun hchain hrange i hi
    obtain ⟨hidx, hchain⟩ := hchain
    obtain ⟨hne, hj⟩ := OrderPool.deref_eq_some hidx
    cases fuel with
    | zero => cases hrun
    | succ fuel =>
      rw [PriceLadder.checkFifo, if_neg hne, hj, OrderPool.get_ok (hrange j (by simp)), ok_bind]
        at hrun
      obtain ⟨_, _, hrun⟩ := bind_eq_ok.mp hrun
      obtain ⟨_, _, hrun⟩ := bind_eq_ok.mp hrun
      obtain ⟨_, hside, hrun⟩ := bind_eq_ok.mp hrun
      obtain ⟨_, _, hrun⟩ := bind_eq_ok.mp hrun
      obtain ⟨_, _, hrun⟩ := bind_eq_ok.mp hrun
      obtain ⟨_, _, hrun⟩ := bind_eq_ok.mp hrun
      rcases List.mem_cons.mp hi with rfl | hi
      · exact assert_eq_ok.mp hside
      · exact ih hrun hchain (fun k hk => hrange k (by simp [hk])) i hi

theorem checkLevel_side (h : LadderRep pool l S) {w w' : Walk} {levelIdx : Int32}
    (hrun : l.checkLevel pool w p (l.level p) levelIdx = .ok w') :
    ∀ i ∈ atPrice pool S p, (pool.slot i).side = l.side := by
  have hlev := h.level p
  by_cases hempty : (l.level p).empty = true
  · rw [hlev.empty_iff.mp hempty]
    exact fun i hi => absurd hi (by simp)
  · rw [PriceLadder.checkLevel, if_neg hempty] at hrun
    obtain ⟨_, hfifo, _⟩ := bind_eq_ok.mp hrun
    exact checkFifo_side _ hfifo hlev.list.chains.1 hlev.inRange

theorem checkInvariants_side (h : LadderRep pool l S) {census : Census}
    (hrun : l.checkInvariants pool = .ok census) : ∀ i ∈ S, (pool.slot i).side = l.side := by
  obtain ⟨w₁, hband, hrun⟩ := bind_eq_ok.mp hrun
  obtain ⟨_, _, hrun⟩ := bind_eq_ok.mp hrun
  obtain ⟨w₂, hoverflow, _⟩ := bind_eq_ok.mp hrun
  intro i hi
  have hat : i ∈ atPrice pool S (pool.price i) := mem_atPrice.mpr ⟨hi, rfl⟩
  by_cases hb : l.InBand (pool.price i)
  · obtain ⟨off, ho, hp⟩ := List.mem_map.mp (h.mem_bandPrices.mpr hb)
    obtain ⟨w, w', hoff⟩ := foldlM_ok_mem _ hband off ho
    have hsize := h.geometry.size
    have htoInt := h.bandPrice_toInt (List.mem_range.mp ho)
    have hlevel := PriceLadder.bandLevel_ok hb
    rw [← hp, htoInt, add_sub_cancel_left, hp] at hlevel
    have hprice : addI64 l.lowPrice (Int64.ofNat off) = .ok (pool.price i) := by
      rw [addI64, int64_eq_ok, Int64.toInt_ofNat_of_lt (by have := List.mem_range.mp ho; omega),
        ← hp, htoInt]
    rw [PriceLadder.checkBandLevel, hprice, ok_bind, hlevel, ok_bind] at hoff
    exact h.checkLevel_side hoff i hat
  · obtain ⟨level, hget⟩ := Option.isSome_iff_exists.mp (Std.ExtTreeMap.mem_iff_isSome_getElem?.mp
      ((h.overflow _).mpr ⟨hb, i, hi, rfl⟩))
    obtain ⟨w, w', hnode⟩ := foldlM_ok_mem _ hoverflow (pool.price i, level)
      (Std.ExtTreeMap.mem_toList_iff_getElem?_eq_some.mpr hget)
    have hlevel : l.level (pool.price i) = level := by
      rw [PriceLadder.level, if_neg hb, Std.ExtTreeMap.getD_eq_getD_getElem?, hget]
      rfl
    obtain ⟨_, _, hnode⟩ := bind_eq_ok.mp hnode
    obtain ⟨_, _, hnode⟩ := bind_eq_ok.mp hnode
    obtain ⟨_, _, hnode⟩ := bind_eq_ok.mp hnode
    rw [← hlevel] at hnode
    exact h.checkLevel_side hnode i hat

end LadderRep

end LimitOrderBook
