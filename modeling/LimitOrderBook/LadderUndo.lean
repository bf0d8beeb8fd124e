import LimitOrderBook.LadderUpdate

set_option autoImplicit false

namespace LimitOrderBook
open Checked IntrusiveList PriorityQueue

namespace LevelRep

variable {pool pool' : OrderPool} {level level' : PriceLevel} {L : List UInt32}

theorem unique (h : LevelRep pool level L) (h' : LevelRep pool' level' L)
    (hrem : ∀ i ∈ L, (pool'.slot i).remaining = (pool.slot i).remaining) : level' = level := by
  have hhead : level'.headIdx = level.headIdx :=
    OrderPool.deref_inj (h'.list.head.trans h.list.head.symm)
  have htail : level'.tailIdx = level.tailIdx :=
    OrderPool.deref_inj (h'.list.tail.trans h.list.tail.symm)
  have hcount : level'.orderCount = level.orderCount :=
    UInt32.toNat_inj.mp (h'.count.trans h.count.symm)
  have hqty : level'.totalQty = level.totalQty :=
    UInt64.toNat_inj.mp (by rw [h'.qty, h.qty, openQty_congr hrem])
  cases level
  cases level'
  simp_all

theorem links_unique (h : LevelRep pool level L) (h' : LevelRep pool' level' L) :
    ∀ i ∈ L, (pool'.slot i).nextIdx = (pool.slot i).nextIdx ∧
      (pool'.slot i).prevIdx = (pool.slot i).prevIdx := fun i hi =>
  (h.list.links_unique h'.list i hi).imp OrderPool.deref_inj OrderPool.deref_inj

end LevelRep

/-- Both ladders stand for one queue over one band, in pools that agree on the orders. -/
structure SameQueue (pool pool' : OrderPool) (l l' : PriceLadder) (S : List UInt32) : Prop where
  rep : LadderRep pool l S
  rep' : LadderRep pool' l' S
  side : l'.side = l.side
  lowPrice : l'.lowPrice = l.lowPrice
  size : l'.levels.size = l.levels.size
  price : ∀ i ∈ S, pool'.price i = pool.price i
  remaining : ∀ i ∈ S, (pool'.slot i).remaining = (pool.slot i).remaining

namespace SameQueue

variable {pool pool' : OrderPool} {l l' : PriceLadder} {S : List UInt32}

theorem inBand (h : SameQueue pool pool' l l' S) (p : PriceTicks) : l'.InBand p ↔ l.InBand p := by
  rw [PriceLadder.InBand, PriceLadder.InBand, h.lowPrice, h.size]

theorem offsetOf (h : SameQueue pool pool' l l' S) (p : PriceTicks) :
    l'.offsetOf p = l.offsetOf p := by
  rw [PriceLadder.offsetOf, PriceLadder.offsetOf, h.lowPrice]

theorem inBandSlots (h : SameQueue pool pool' l l' S) :
    inBandSlots pool' l' S = inBandSlots pool l S := inBandSlots_congr h.price h.inBand

theorem level (h : SameQueue pool pool' l l' S) (p : PriceTicks) : l'.level p = l.level p := by
  have hlevel := h.rep'.level p
  rw [atPrice_congr h.price] at hlevel
  exact (h.rep.level p).unique hlevel fun i hi => h.remaining i (mem_atPrice.mp hi).1

theorem levels (h : SameQueue pool pool' l l' S) : l'.levels = l.levels := by
  refine Array.ext h.size fun n hn' hn => ?_
  obtain ⟨q, hq, htoInt⟩ := PriceLadder.price_at h.rep.geometry (Int.natCast_nonneg n)
    (by omega : (n : Int) < l.levels.size)
  have hlevel := h.level q
  rw [PriceLadder.level, if_pos ((h.inBand q).mpr hq), h.lowPrice, PriceLadder.level, if_pos hq,
    htoInt] at hlevel
  simpa [Array.getD_eq_getD_getElem?, hn, hn'] using hlevel

theorem overflow (h : SameQueue pool pool' l l' S) : l'.overflow = l.overflow := by
  have hmem : ∀ p, p ∈ l'.overflow ↔ p ∈ l.overflow := fun p => by
    rw [h.rep'.overflow, h.rep.overflow, h.inBand]
    refine and_congr_right fun _ => exists_congr fun i => and_congr_right fun hi => ?_
    rw [h.price i hi]
  refine Std.ExtTreeMap.ext_getElem? fun p => ?_
  by_cases hp : p ∈ l.overflow
  · have hp' := (hmem p).mpr hp
    have hlevel := h.level p
    have hb := ((h.rep.overflow p).mp hp).1
    rw [PriceLadder.level, if_neg (mt (h.inBand p).mp hb), PriceLadder.level, if_neg hb,
      Std.ExtTreeMap.getD_eq_getD_getElem?, Std.ExtTreeMap.getD_eq_getD_getElem?] at hlevel
    rw [Std.ExtTreeMap.getElem?_eq_some_getElem hp, Std.ExtTreeMap.getElem?_eq_some_getElem hp']
      at hlevel ⊢
    exact congrArg some hlevel
  · rw [Std.ExtTreeMap.getElem?_eq_none hp, Std.ExtTreeMap.getElem?_eq_none (mt (hmem p).mp hp)]

theorem best (h : SameQueue pool pool' l l' S) : l'.bestOffset = l.bestOffset := by
  rw [h.rep'.best, h.rep.best, h.inBandSlots]
  cases hh : (LimitOrderBook.inBandSlots pool l S).head? with
  | none => rfl
  | some i =>
    have hi := (mem_inBandSlots.mp (List.mem_of_head? hh)).1
    rw [PriceLadder.cursor, PriceLadder.cursor, h.offsetOf, h.price i hi]

theorem ladder_eq (h : SameQueue pool pool' l l' S) : l' = l := by
  have horders : l'.bandOrders = l.bandOrders :=
    UInt32.toNat_inj.mp (by rw [h.rep'.bandOrders, h.rep.bandOrders, h.inBandSlots])
  have hlevels := h.levels
  have hoverflow := h.overflow
  have hbest := h.best
  have hside := h.side
  have hlow := h.lowPrice
  cases l
  cases l'
  simp_all

theorem links (h : SameQueue pool pool' l l' S) {i : UInt32} (hi : i ∈ S) :
    (pool'.slot i).nextIdx = (pool.slot i).nextIdx ∧
      (pool'.slot i).prevIdx = (pool.slot i).prevIdx ∧
      (pool'.slot i).levelIdx = (pool.slot i).levelIdx := by
  have hlevel := h.rep'.level (pool.price i)
  rw [atPrice_congr h.price] at hlevel
  obtain ⟨hnext, hprev⟩ := (h.rep.level (pool.price i)).links_unique hlevel i
    (mem_atPrice.mpr ⟨hi, rfl⟩)
  refine ⟨hnext, hprev, ?_⟩
  rw [(h.rep'.order i hi).levelIdx, (h.rep.order i hi).levelIdx, h.ladder_eq, h.price i hi]

end SameQueue

namespace OrderPool

variable {pool pool' : OrderPool} {touched : UInt32 → Prop}

theorem Relinks.slot_eq (h : pool.Relinks pool' touched) {j : UInt32}
    (hnext : (pool'.slot j).nextIdx = (pool.slot j).nextIdx)
    (hprev : (pool'.slot j).prevIdx = (pool.slot j).prevIdx)
    (hlevel : (pool'.slot j).levelIdx = (pool.slot j).levelIdx) : pool'.slot j = pool.slot j := by
  obtain ⟨a, b, c, he⟩ := h.slot j
  simp only [he, Order.relinked_nextIdx, Order.relinked_prevIdx, Order.relinked_levelIdx]
    at hnext hprev hlevel
  rw [he, hnext, hprev, hlevel, Order.relinked_self]

theorem Relinks.pool_eq (h : pool.Relinks pool' touched) (hs : pool.slots.size < 2 ^ 32)
    (hslot : ∀ j, pool'.slot j = pool.slot j) : pool' = pool := by
  have hslots : pool'.slots = pool.slots := by
    refine Array.ext h.size fun n hn' hn => ?_
    have hj : (UInt32.ofNat n).toNat = n := toNat_ofNat32 (by omega)
    have he := hslot (UInt32.ofNat n)
    rw [OrderPool.slot, OrderPool.slot, hj] at he
    simpa [Array.getD_eq_getD_getElem?, hn, hn'] using he
  have hhead := h.freeHead
  have hlive := h.liveCount
  cases pool
  cases pool'
  simp_all

end OrderPool

/-- An order that is pushed and taken off again leaves no trace. -/
theorem LadderRep.push_remove {pool : OrderPool} {l : PriceLadder} {S : List UInt32} {i : UInt32}
    (h : LadderRep pool l S) (hs : pool.slots.size < 2 ^ 31) (hi : pool.Live i) (hiS : i ∉ S)
    (hfree : (pool.slot i).Unlinked) (hpos : 1 ≤ (pool.slot i).remaining.toNat)
    (hside : (pool.slot i).side.isBuy = l.side.isBuy) :
    ∃ l' pool', l.pushOrder pool i = .ok (l', pool') ∧
      pool.Relinks pool' (fun j => j = i ∨ j ∈ S) ∧
      l'.removeOrder pool' i = .ok (l, pool) := by
  obtain ⟨l₁, pool₁, hpush, hu₁, hrep₁, hre₁⟩ :=
    h.pushOrder_rep hs hi hiS hfree.prevIdx hfree.nextIdx hpos hside
  obtain ⟨A, B, hAB, henq⟩ := @enqueue_split _ _ l.side.Better _ pool.price i S
  rw [henq] at hrep₁
  obtain ⟨l₂, pool₂, hremove, hu₂, hrep₂, hre₂, hfree₂⟩ := hrep₁.removeOrder_rep
  rw [← hAB] at hrep₂
  have hre := hre₁.trans (hre₂.mono fun j hj => by
    rw [← henq] at hj
    exact mem_enqueue.mp hj)
  have hsame : SameQueue pool pool₂ l l₂ S := ⟨h, hrep₂, hu₂.side.trans hu₁.side,
    hu₂.lowPrice.trans hu₁.lowPrice, hu₂.size.trans hu₁.size, fun j _ => hre.price j,
    fun j _ => hre.remaining j⟩
  have hslot : ∀ j, pool₂.slot j = pool.slot j := fun j => by
    by_cases hj : j = i
    · rw [hj]
      exact hre.slot_eq (hfree₂.nextIdx.trans hfree.nextIdx.symm)
        (hfree₂.prevIdx.trans hfree.prevIdx.symm) (hfree₂.levelIdx.trans hfree.levelIdx.symm)
    · by_cases hjS : j ∈ S
      · obtain ⟨hnext, hprev, hlevel⟩ := hsame.links hjS
        exact hre.slot_eq hnext hprev hlevel
      · exact hre.other j (not_or.mpr ⟨hj, hjS⟩)
  refine ⟨l₁, pool₁, hpush, hre₁, ?_⟩
  rw [hremove, hsame.ladder_eq, hre.pool_eq (by omega) hslot]

end LimitOrderBook
