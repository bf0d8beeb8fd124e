import LimitOrderBook.BookInvariants
import LimitOrderBook.Lib.Arrivals
import LimitOrderBook.Lib.Avoids

set_option autoImplicit false

namespace LimitOrderBook
open Checked IntrusiveList PriorityQueue

theorem OrderPool.of_get {pool : OrderPool} {i : UInt32} {o : Order} (h : pool.get i = .ok o) :
    i.toNat < pool.slots.size ∧ o = pool.slot i := by
  unfold OrderPool.get at h
  split at h <;> simp_all

theorem OrderPool.deref_of_ne {x : Int32} (h : x ≠ kNullIdx) :
    OrderPool.deref x = some x.toUInt32 := if_neg h

namespace PriceLadder

variable {pool : OrderPool} {l : PriceLadder} {p : PriceTicks}

theorem checkFifo_succ {levelIdx : Int32} {fuel : Nat} {idx prev : Int32} {count : UInt32}
    {qty : UInt64} {r : Int32 × UInt32 × UInt64} (hne : idx ≠ kNullIdx)
    (hrun : l.checkFifo pool p levelIdx (fuel + 1) idx prev count qty = .ok r) :
    (pool.Live idx.toUInt32 ∧ (pool.slot idx.toUInt32).prevIdx = prev ∧
      indexOf (pool.slot idx.toUInt32).orderId = idx.toUInt32 ∧
      (pool.slot idx.toUInt32).side = l.side ∧ (pool.slot idx.toUInt32).priceTicks = p ∧
      (pool.slot idx.toUInt32).levelIdx = levelIdx ∧
      1 ≤ (pool.slot idx.toUInt32).remaining ∧
      (pool.slot idx.toUInt32).remaining ≤ (pool.slot idx.toUInt32).qty) ∧
    l.checkFifo pool p levelIdx fuel (pool.slot idx.toUInt32).nextIdx idx (count + 1)
      (qty + (pool.slot idx.toUInt32).remaining.toUInt64) = .ok r := by
  rw [checkFifo, if_neg hne] at hrun
  obtain ⟨order, hget, hrun⟩ := bind_eq_ok.mp hrun
  obtain ⟨hrange, rfl⟩ := OrderPool.of_get hget
  obtain ⟨_, hprev, hrun⟩ := bind_eq_ok.mp hrun
  obtain ⟨_, hself, hrun⟩ := bind_eq_ok.mp hrun
  obtain ⟨_, hside, hrun⟩ := bind_eq_ok.mp hrun
  obtain ⟨_, hprice, hrun⟩ := bind_eq_ok.mp hrun
  obtain ⟨_, hlevel, hrun⟩ := bind_eq_ok.mp hrun
  obtain ⟨_, hopen, hrun⟩ := bind_eq_ok.mp hrun
  obtain ⟨hid, hself⟩ := assert_eq_ok.mp hself
  exact ⟨⟨⟨hrange, hid⟩, assert_eq_ok.mp hprev, hself, assert_eq_ok.mp hside,
    assert_eq_ok.mp hprice, assert_eq_ok.mp hlevel, assert_eq_ok.mp hopen⟩, hrun⟩

/-- What a walk that succeeds has found: a chain whose backward links agree, of orders
in good order, and its count and quantity in the widths of the walk. -/
theorem checkFifo_found (fuel : Nat) : ∀ {idx prev last : Int32} {count count' : UInt32}
    {qty qty' : UInt64},
    l.checkFifo pool p (l.levelIdxOf p) fuel idx prev count qty = .ok (last, count', qty') →
    ∃ L, Chain pool.next (OrderPool.deref idx) L ∧
      Segment pool.next pool.prev (OrderPool.deref prev) L none ∧
      OrderPool.deref last = L.getLast?.or (OrderPool.deref prev) ∧
      count' = count + UInt32.ofNat L.length ∧ qty' = qty + UInt64.ofNat (openQty pool L) ∧
      ∀ i ∈ L, OrderInvariant pool l p i := by
  induction fuel with
  | zero =>
    intro idx prev last count count' qty qty' hrun
    cases hrun
  | succ fuel ih =>
    intro idx prev last count count' qty qty' hrun
    by_cases hnull : idx = kNullIdx
    · rw [checkFifo, if_pos hnull] at hrun
      cases hrun
      exact ⟨[], OrderPool.deref_eq_none.mpr hnull, trivial, rfl, (UInt32.add_zero _).symm,
        (UInt64.add_zero _).symm, by simp⟩
    · obtain ⟨⟨hlive, hprev, hself, hside, hprice, hlevel, hpos, hle⟩, hrun⟩ :=
        checkFifo_succ hnull hrun
      obtain ⟨L, hchain, hseg, hlast, hcount, hqty, hall⟩ := ih hrun
      have hidx := OrderPool.deref_of_ne hnull
      generalize idx.toUInt32 = i at *
      rw [hidx] at hseg hlast
      refine ⟨i :: L, ⟨hidx, hchain⟩, ⟨?_, ?_, hseg⟩, ?_, ?_, ?_, fun j hj => ?_⟩
      · rw [OrderPool.prev, hprev]
      · rw [OrderPool.next, hchain.head_eq, Option.or_none]
      · rw [hlast]
        cases L with
        | nil => rfl
        | cons j L => rw [List.getLast?_cons_cons, List.getLast?_eq_some_getLast (by simp)]; rfl
      · rw [hcount, List.length_cons, Nat.add_comm, UInt32.ofNat_add, ← UInt32.add_assoc]
        rfl
      · rw [hqty, openQty_cons, UInt64.ofNat_add, ← UInt64.add_assoc, UInt64.ofNat_uInt32ToNat]
      · rcases List.mem_cons.mp hj with rfl | hj
        · exact ⟨hlive, hself, hside, hprice, hlevel, UInt32.le_iff_toNat_le.mp hpos,
            UInt32.le_iff_toNat_le.mp hle⟩
        · exact hall j hj

def listed (l : PriceLadder) (pool : OrderPool) (p : PriceTicks) : List UInt32 :=
  walk pool.next pool.slots.size (OrderPool.deref (l.level p).headIdx)

end PriceLadder

namespace LevelInvariant

variable {pool : OrderPool} {l : PriceLadder} {p : PriceTicks} {L : List UInt32}

theorem inRange (h : LevelInvariant pool l p L) : ∀ i ∈ L, i.toNat < pool.slots.size :=
  fun i hi => (h.order i hi).live.1

theorem listed_eq (h : LevelInvariant pool l p L) : l.listed pool p = L :=
  h.forward.walk_eq (length_le_slots h.nodup h.inRange)

theorem empty_iff (h : LevelInvariant pool l p L) : (l.level p).empty = true ↔ L = [] := by
  rw [PriceLevel.empty, decide_eq_true_iff, ← OrderPool.deref_eq_none, h.forward.head_eq,
    List.head?_eq_none_iff]

theorem of_nil (h : l.level p = {}) : LevelInvariant pool l p [] where
  forward := by rw [h]; rfl
  backward := by rw [h]; rfl
  nodup := List.nodup_nil
  orderCount := by rw [h]; rfl
  totalQty := by rw [h]; rfl
  order := by simp

theorem of_list (hs : pool.slots.size < 2 ^ 31) (hL : IsList pool.next pool.prev
      (OrderPool.deref (l.level p).headIdx) (OrderPool.deref (l.level p).tailIdx) L)
    (hcount : (l.level p).orderCount = UInt32.ofNat L.length)
    (hqty : (l.level p).totalQty = UInt64.ofNat (openQty pool L))
    (horder : ∀ i ∈ L, OrderInvariant pool l p i) : LevelInvariant pool l p L := by
  have hlen := length_le_slots hL.nodup fun i hi => (horder i hi).live.1
  have hle := openQty_le pool L
  have hmul : L.length * (2 ^ 32 - 1) ≤ 2 ^ 31 * (2 ^ 32 - 1) := Nat.mul_le_mul_right _ (by omega)
  exact {
    forward := hL.chains.1
    backward := hL.chains.2
    nodup := hL.nodup
    orderCount := by rw [hcount, UInt32.toNat_ofNat_of_lt' (show _ < 2 ^ 32 by omega)]
    totalQty := by rw [hqty, UInt64.toNat_ofNat_of_lt' (show _ < 2 ^ 64 by omega)]
    order := horder }

end LevelInvariant

def Walk.see (side : Side) (w : Walk) (p : PriceTicks) (census : Census) : Walk :=
  if !w.any || decide (side.Better p w.bestSeen) then { census, bestSeen := p, any := true }
  else { w with census }

namespace PriceLadder

variable {pool : OrderPool} {l : PriceLadder} {p : PriceTicks} {ps : List PriceTicks} {w w' : Walk}

theorem checkLevel_found (hs : pool.slots.size < 2 ^ 31)
    (hrun : l.checkLevel pool w p (l.level p) (l.levelIdxOf p) = .ok w') :
    LevelInvariant pool l p (l.listed pool p) ∧
      (l.listed pool p = [] ∧ w' = w ∨ l.listed pool p ≠ [] ∧ ∃ qty, w' = Walk.see l.side w p
        { orderCount := w.census.orderCount + UInt64.ofNat (l.listed pool p).length
          totalQty := qty }) := by
  by_cases hempty : (l.level p).empty = true
  · rw [checkLevel, if_pos hempty] at hrun
    obtain ⟨_, hresidue, hrun⟩ := bind_eq_ok.mp hrun
    cases hrun
    obtain ⟨htail, hcount, hqty⟩ := assert_eq_ok.mp hresidue
    have hhead : (l.level p).headIdx = kNullIdx := of_decide_eq_true hempty
    have hinv : LevelInvariant pool l p [] := .of_nil (by cases hl : l.level p; simp_all)
    exact ⟨hinv.listed_eq ▸ hinv, .inl ⟨hinv.listed_eq, rfl⟩⟩
  · have hbetter : (if l.side = .kBuy then decide (w.bestSeen < p) else decide (p < w.bestSeen)) =
        decide (l.side.Better p w.bestSeen) := by
      unfold Side.Better
      split <;> rfl
    rw [checkLevel, if_neg hempty] at hrun
    obtain ⟨⟨last, count, qty⟩, hfifo, hrun⟩ := bind_eq_ok.mp hrun
    obtain ⟨_, htail, hrun⟩ := bind_eq_ok.mp hrun
    obtain ⟨_, hcount, hrun⟩ := bind_eq_ok.mp hrun
    obtain ⟨_, hqty, hrun⟩ := bind_eq_ok.mp hrun
    obtain ⟨L, hchain, hseg, hlast, hcount', hqty', hall⟩ := checkFifo_found _ hfifo
    rw [assert_eq_ok.mp htail, OrderPool.deref_null, Option.or_none] at hlast
    rw [UInt32.zero_add] at hcount'
    rw [UInt64.zero_add] at hqty'
    have hinv : LevelInvariant pool l p L := .of_list hs ⟨hchain.head_eq, hlast, hseg, hchain.nodup⟩
      ((assert_eq_ok.mp hcount).symm.trans hcount') ((assert_eq_ok.mp hqty).symm.trans hqty') hall
    have hL : L ≠ [] := fun he => by
      have hhead := hchain.head_eq
      rw [he] at hhead
      exact hempty (decide_eq_true (OrderPool.deref_eq_none.mp hhead))
    have hlen := length_le_slots hinv.nodup hinv.inRange
    have hwide : count.toUInt64 = UInt64.ofNat L.length := by
      rw [hcount', ← UInt64.ofNat_uInt32ToNat, UInt32.toNat_ofNat_of_lt' (show _ < 2 ^ 32 by omega)]
    rw [hinv.listed_eq]
    refine ⟨hinv, .inr ⟨hL, w.census.totalQty + qty, ?_⟩⟩
    simp only [hbetter, hwide] at hrun
    unfold Walk.see
    split at hrun <;> cases hrun <;> simp [*]

def prices (l : PriceLadder) : List PriceTicks := l.bandPrices ++ l.overflow.keys

/-- What the walk has found out after the prices of `ps`. -/
structure Found (pool : OrderPool) (l : PriceLadder) (ps : List PriceTicks) (w : Walk) : Prop where
  level : ∀ p ∈ ps, LevelInvariant pool l p (l.listed pool p)
  count : w.census.orderCount = UInt64.ofNat (ps.flatMap (l.listed pool)).length
  any : w.any = true ↔ ∃ p ∈ ps, l.listed pool p ≠ []
  seen : w.any = true → w.bestSeen ∈ ps ∧ l.listed pool w.bestSeen ≠ []
  best : w.any = true → ∀ p ∈ ps, l.listed pool p ≠ [] → ¬ l.side.Better p w.bestSeen

theorem Found.nil : Found pool l [] {} := ⟨by simp, rfl, by simp, by simp, by simp⟩

theorem Found.snoc (hs : pool.slots.size < 2 ^ 31) (hw : Found pool l ps w)
    (hrun : l.checkLevel pool w p (l.level p) (l.levelIdxOf p) = .ok w') :
    Found pool l (ps ++ [p]) w' := by
  obtain ⟨hinv, hcase⟩ := checkLevel_found hs hrun
  obtain ⟨hlevel, hcount, hany, hseen, hbest⟩ := hw
  have hall : ∀ q ∈ ps ++ [p], LevelInvariant pool l q (l.listed pool q) := fun q hq => by
    rcases List.mem_append.mp hq with hq | hq
    · exact hlevel q hq
    · rwa [List.mem_singleton.mp hq]
  rcases hcase with ⟨hnil, rfl⟩ | ⟨hne, qty, rfl⟩
  · refine ⟨hall, by simpa [hnil] using hcount, by simpa [hnil] using hany, fun h => ?_,
      fun h q hq hqne => ?_⟩
    · exact ⟨List.mem_append_left _ (hseen h).1, (hseen h).2⟩
    · rcases List.mem_append.mp hq with hq | hq
      · exact hbest h q hq hqne
      · exact absurd (List.mem_singleton.mp hq ▸ hnil) hqne
  · have hsum : w.census.orderCount + UInt64.ofNat (l.listed pool p).length =
        UInt64.ofNat ((ps ++ [p]).flatMap (l.listed pool)).length := by
      rw [hcount, ← UInt64.ofNat_add, List.flatMap_append, List.length_append,
        List.flatMap_singleton]
    unfold Walk.see
    by_cases hsee : (!w.any || decide (l.side.Better p w.bestSeen)) = true
    · rw [if_pos hsee]
      refine ⟨hall, hsum, iff_of_true rfl ⟨p, by simp, hne⟩, fun _ => ⟨by simp, hne⟩,
        fun _ q hq hqne => ?_⟩
      rcases List.mem_append.mp hq with hq | hq
      · have hw : w.any = true := hany.mpr ⟨q, hq, hqne⟩
        have hp : l.side.Better p w.bestSeen := by simpa [hw] using hsee
        exact fun hlt => hbest hw q hq hqne (trans_of _ hlt hp)
      · rw [List.mem_singleton.mp hq]
        exact irrefl_of _ _
    · rw [if_neg hsee]
      obtain ⟨hw, hp⟩ : w.any = true ∧ ¬ l.side.Better p w.bestSeen := by simpa using hsee
      refine ⟨hall, hsum, iff_of_true hw ⟨p, by simp, hne⟩, fun _ => ?_, fun _ q hq hqne => ?_⟩
      · exact ⟨List.mem_append_left _ (hseen hw).1, (hseen hw).2⟩
      · rcases List.mem_append.mp hq with hq | hq
        · exact hbest hw q hq hqne
        · rw [List.mem_singleton.mp hq]
          exact hp

theorem bandPrice_at (hg : l.Geometry) {off : Nat} (ho : off < l.levels.size) :
    (Int64.ofInt (l.lowPrice.toInt + off)).toInt = l.lowPrice.toInt + off ∧
      l.InBand (Int64.ofInt (l.lowPrice.toInt + off)) := by
  have h₁ := hg.high
  have h₂ := l.lowPrice.le_toInt
  have hp : (Int64.ofInt (l.lowPrice.toInt + off)).toInt = l.lowPrice.toInt + off :=
    int64_toInt (by omega) (by omega)
  exact ⟨hp, by rw [InBand, hp]; omega⟩

theorem checkBandLevel_eq (hg : l.Geometry) {off : Nat} (ho : off < l.levels.size) :
    l.checkBandLevel pool w off =
      l.checkLevel pool w (Int64.ofInt (l.lowPrice.toInt + off))
        (l.level (Int64.ofInt (l.lowPrice.toInt + off)))
        (l.levelIdxOf (Int64.ofInt (l.lowPrice.toInt + off))) := by
  have hsize := hg.size
  obtain ⟨hprice, hb⟩ := bandPrice_at hg ho
  have hlevel := bandLevel_ok hb
  rw [hprice, add_sub_cancel_left] at hlevel
  rw [checkBandLevel, addI64, Int64.toInt_ofNat_of_lt (by omega), int64_eq_ok.mpr hprice, ok_bind,
    hlevel, ok_bind, levelIdxOf, if_pos hb, offsetOf, hprice, add_sub_cancel_left,
    Int32.ofInt_eq_ofNat]

theorem checkBand_found (hg : l.Geometry) (hs : pool.slots.size < 2 ^ 31)
    (hrun : (List.range l.levels.size).foldlM (l.checkBandLevel pool) {} = .ok w) :
    Found pool l l.bandPrices w := by
  refine foldlM_inv (fun done w => Found pool l (done.map fun off : Nat =>
    Int64.ofInt (l.lowPrice.toInt + off)) w) Found.nil _ (fun done off rest c c' he hc hstep => ?_)
    hrun
  have ho : off < l.levels.size := List.mem_range.mp (he ▸ by simp)
  rw [checkBandLevel_eq hg ho] at hstep
  rw [List.map_append]
  exact hc.snoc hs hstep

/-- An overflow level that passes lies outside the band and has orders. -/
theorem checkOverflow_found (hg : l.Geometry) (hs : pool.slots.size < 2 ^ 31)
    (hw : Found pool l l.bandPrices w)
    (hrun : l.overflow.toList.foldlM (l.checkOverflowLevel pool) w = .ok w') :
    Found pool l l.prices w' ∧
      ∀ p ∈ l.overflow, ¬ l.InBand p ∧ l.listed pool p ≠ [] := by
  have hmap : l.overflow.keys = l.overflow.toList.map Prod.fst := by simp
  have hall := foldlM_inv (fun done w => Found pool l (l.bandPrices ++ done.map Prod.fst) w ∧
      ∀ p ∈ done.map Prod.fst, ¬ l.InBand p ∧ l.listed pool p ≠ [])
    ⟨by simpa using hw, by simp⟩ _ (fun done node rest c c' he hc hstep => ?_) hrun
  · rw [← hmap] at hall
    exact ⟨hall.1, fun p hp => hall.2 p (Std.ExtTreeMap.mem_keys.mpr hp)⟩
  · obtain ⟨p, level⟩ := node
    obtain ⟨hfound, hdone⟩ := hc
    rw [checkOverflowLevel, inBand_ok hg, ok_bind] at hstep
    obtain ⟨_, hout, hstep⟩ := bind_eq_ok.mp hstep
    obtain ⟨_, hfull, hstep⟩ := bind_eq_ok.mp hstep
    have hb : ¬ l.InBand p := of_decide_eq_false (assert_eq_ok.mp hout)
    have hget : l.overflow[p]? = some level :=
      Std.ExtTreeMap.mem_toList_iff_getElem?_eq_some.mp (he ▸ by simp)
    have hlevel : level = l.level p := by
      rw [PriceLadder.level, if_neg hb, Std.ExtTreeMap.getD_eq_getD_getElem?, hget]
      rfl
    have hidx : kOverflowIdx = l.levelIdxOf p := (if_neg hb).symm
    simp only at hstep
    rw [hlevel, hidx] at hstep
    have hne : l.listed pool p ≠ [] := fun hnil => by
      have hempty := (checkLevel_found hs hstep).1.empty_iff.mpr hnil
      rw [← hlevel, assert_eq_ok.mp hfull] at hempty
      cases hempty
    refine ⟨by rw [List.map_append, ← List.append_assoc]; exact hfound.snoc hs hstep, ?_⟩
    intro q hq
    rw [List.map_append] at hq
    rcases List.mem_append.mp hq with hq | hq
    · exact hdone q hq
    · rw [List.mem_singleton.mp hq]
      exact ⟨hb, hne⟩

theorem mem_bandPrices (hg : l.Geometry) : p ∈ l.bandPrices ↔ l.InBand p := by
  rw [bandPrices, List.mem_map]
  constructor
  · rintro ⟨off, ho, rfl⟩
    exact (bandPrice_at hg (List.mem_range.mp ho)).2
  · rintro ⟨h₁, h₂⟩
    have ho : (p.toInt - l.lowPrice.toInt).toNat < l.levels.size := by omega
    refine ⟨_, List.mem_range.mpr ho, Int64.toInt_inj.mp ?_⟩
    rw [(bandPrice_at hg ho).1]
    omega

theorem prices_nodup (hg : l.Geometry) (hout : ∀ p ∈ l.overflow, ¬ l.InBand p) :
    l.prices.Nodup := by
  refine List.nodup_append.mpr ⟨List.nodup_range.map_on fun a ha b hb he => ?_,
    Std.ExtTreeMap.nodup_keys, ?_⟩
  · have hprice := congrArg Int64.toInt he
    rw [(bandPrice_at hg (List.mem_range.mp ha)).1, (bandPrice_at hg (List.mem_range.mp hb)).1]
      at hprice
    omega
  · rintro p hp q hq rfl
    exact hout p (Std.ExtTreeMap.mem_keys.mp hq) ((mem_bandPrices hg).mp hp)

theorem flatMap_listed_nodup {listed : PriceTicks → List UInt32} (hps : ps.Nodup)
    (h : ∀ p ∈ ps, LevelInvariant pool l p (listed p)) : (ps.flatMap listed).Nodup := by
  refine List.nodup_flatMap.mpr ⟨fun p hp => (h p hp).nodup, ?_⟩
  refine hps.imp_of_mem fun {p q} hp hq hpq i hi hj => hpq ?_
  exact ((h p hp).order i hi).priceTicks.symm.trans ((h q hq).order i hj).priceTicks

theorem flatMap_listed_length {listed : PriceTicks → List UInt32} (hps : ps.Nodup)
    (h : ∀ p ∈ ps, LevelInvariant pool l p (listed p)) :
    (ps.flatMap listed).length ≤ pool.slots.size :=
  length_le_slots (flatMap_listed_nodup hps h) fun i hi => by
    obtain ⟨p, hp, hi⟩ := List.mem_flatMap.mp hi
    exact (h p hp).inRange i hi

theorem checkInvariants_found (hg : l.Geometry) (hs : pool.slots.size < 2 ^ 31) {census : Census}
    (hrun : l.checkInvariants pool = .ok census) :
    LadderInvariant pool l (l.listed pool) ∧
      census.orderCount.toNat = (l.prices.flatMap (l.listed pool)).length := by
  obtain ⟨w₁, hband, hrun⟩ := bind_eq_ok.mp hrun
  obtain ⟨_, hcount, hrun⟩ := bind_eq_ok.mp hrun
  obtain ⟨w, hover, hrun⟩ := bind_eq_ok.mp hrun
  obtain ⟨_, hempty, hrun⟩ := bind_eq_ok.mp hrun
  have hcount := assert_eq_ok.mp hcount
  have hempty := assert_eq_ok.mp hempty
  have hw₁ := checkBand_found hg hs hband
  obtain ⟨hw, hout⟩ := checkOverflow_found hg hs hw₁ hover
  have hnodup := prices_nodup hg fun p hp => (hout p hp).1
  have habsent : ∀ p, p ∉ l.prices → LevelInvariant pool l p [] := fun p hp => by
    obtain ⟨hb, ho⟩ := not_or.mp (List.mem_append.not.mp hp)
    rw [mem_bandPrices hg] at hb
    rw [Std.ExtTreeMap.mem_keys] at ho
    exact .of_nil (by rw [PriceLadder.level, if_neg hb, Std.ExtTreeMap.getD_eq_fallback ho])
  have hlevel : ∀ p, LevelInvariant pool l p (l.listed pool p) := fun p => by
    by_cases hp : p ∈ l.prices
    · exact hw.level p hp
    · have hnil := habsent p hp
      rwa [hnil.listed_eq]
  have hany : w.any = true ↔ ∃ p, l.listed pool p ≠ [] := by
    rw [hw.any]
    constructor
    · rintro ⟨p, -, hne⟩
      exact ⟨p, hne⟩
    · rintro ⟨p, hne⟩
      refine ⟨p, ?_, hne⟩
      by_contra hp
      exact hne (habsent p hp).listed_eq
  have hexact : ∀ {ps : List PriceTicks}, ps.Nodup →
      (UInt64.ofNat (ps.flatMap (l.listed pool)).length).toNat =
        (ps.flatMap (l.listed pool)).length := fun hps => by
    have hlen := flatMap_listed_length hps fun p _ => hlevel p
    exact UInt64.toNat_ofNat_of_lt' (show _ < 2 ^ 64 by omega)
  have hcensus : census = w.census ∧ (w.any = true → l.bestPrice = .ok w.bestSeen) := by
    split at hrun
    · obtain ⟨best, hbest, hrun⟩ := bind_eq_ok.mp hrun
      obtain ⟨_, hsame, hrun⟩ := bind_eq_ok.mp hrun
      cases hrun
      exact ⟨rfl, fun _ => by rw [hbest, assert_eq_ok.mp hsame]⟩
    · rename_i hno
      cases hrun
      exact ⟨rfl, fun h => absurd h hno⟩
  refine ⟨⟨hlevel, hout, fun p hb ho => (habsent p ?_).listed_eq, ?_, ?_, fun he => ?_⟩, ?_⟩
  · rw [prices, List.mem_append, mem_bandPrices hg, Std.ExtTreeMap.mem_keys]
    exact not_or.mpr ⟨hb, ho⟩
  · rw [hw₁.count] at hcount
    have hnum := congrArg UInt64.toNat hcount
    rwa [hexact (List.nodup_append.mp hnodup).1, UInt32.toNat_toUInt64, eq_comm] at hnum
  · rw [hempty, Bool.not_eq_true', ← Bool.not_eq_true, hany]
    push Not
    rfl
  · have hyes : w.any = true := by simpa [he] using hempty
    exact ⟨w.bestSeen, hcensus.2 hyes, (hw.seen hyes).2, fun q hq => hw.best hyes q (by
      by_contra hp
      exact hq (habsent q hp).listed_eq) hq⟩
  · rw [hcensus.1, hw.count, hexact hnodup]

end PriceLadder

namespace LadderInvariant

variable {pool : OrderPool} {l : PriceLadder} {listed : PriceTicks → List UInt32} {p : PriceTicks}

def slots (pool : OrderPool) (l : PriceLadder) (listed : PriceTicks → List UInt32) : List UInt32 :=
  arrange l.side.Better pool.price (l.prices.flatMap listed)

/-- The ladder with the cursor where its queue wants it; the price of the best order does
not fix the cursor when that order lies outside the band. -/
def settled (pool : OrderPool) (l : PriceLadder) (listed : PriceTicks → List UInt32) :
    PriceLadder :=
  { l with bestOffset := l.cursor pool (inBandSlots pool l (slots pool l listed)).head? }

theorem mem_prices (h : LadderInvariant pool l listed) (hg : l.Geometry) {i : UInt32} :
    i ∈ l.prices.flatMap listed ↔ i ∈ listed (pool.price i) := by
  rw [List.mem_flatMap]
  constructor
  · rintro ⟨p, _, hi⟩
    have hp : pool.price i = p := ((h.level p).order i hi).priceTicks
    rwa [hp]
  · intro hi
    refine ⟨_, ?_, hi⟩
    rw [PriceLadder.prices, List.mem_append, PriceLadder.mem_bandPrices hg,
      Std.ExtTreeMap.mem_keys]
    by_contra hp
    obtain ⟨hb, ho⟩ := not_or.mp hp
    rw [h.absent _ hb ho] at hi
    cases hi

theorem mem_slots (h : LadderInvariant pool l listed) (hg : l.Geometry) {i : UInt32} :
    i ∈ slots pool l listed ↔ i ∈ listed (pool.price i) :=
  (arrange_perm _).mem_iff.trans (h.mem_prices hg)

theorem atPrice_slots (h : LadderInvariant pool l listed) (hg : l.Geometry) (p : PriceTicks) :
    atPrice pool (slots pool l listed) p = listed p := by
  have hprice : ∀ q, ∀ i ∈ listed q, pool.price i = q := fun q i hi =>
    ((h.level q).order i hi).priceTicks
  have hkeep : ∀ q, (listed q).filter (fun i => pool.price i = p) =
      if q = p then listed p else [] :=
    fun q => by
      split
      · rename_i hq
        subst hq
        exact List.filter_eq_self.mpr fun i hi => decide_eq_true (hprice q i hi)
      · rename_i hq
        exact List.filter_eq_nil_iff.mpr fun i hi he =>
          hq ((hprice q i hi).symm.trans (of_decide_eq_true he))
  have hnone : ∀ A : List PriceTicks, p ∉ A →
      A.flatMap (fun q => if q = p then listed p else []) = [] := fun A hA =>
    List.flatMap_eq_nil_iff.mpr fun q hq => if_neg fun he : q = p => hA (he ▸ hq)
  rw [atPrice, slots, arrange_filter_key, List.filter_flatMap]
  simp only [hkeep]
  by_cases hp : p ∈ l.prices
  · have hnodup := PriceLadder.prices_nodup hg fun q hq => (h.overflow q hq).1
    obtain ⟨A, B, he⟩ := List.append_of_mem hp
    rw [he] at hnodup ⊢
    obtain ⟨-, hB, hAB⟩ := List.nodup_append.mp hnodup
    rw [List.flatMap_append, List.flatMap_cons, if_pos rfl,
      hnone A fun hA => hAB p hA p (by simp) rfl, hnone B (List.nodup_cons.mp hB).1,
      List.nil_append, List.append_nil]
  · rw [hnone _ hp]
    rw [PriceLadder.prices, List.mem_append, PriceLadder.mem_bandPrices hg,
      Std.ExtTreeMap.mem_keys] at hp
    obtain ⟨hb, ho⟩ := not_or.mp hp
    exact (h.absent p hb ho).symm

theorem rep (h : LadderInvariant pool l listed) (hg : l.Geometry) :
    LadderRep pool (settled pool l listed) (slots pool l listed) where
  geometry := ⟨hg.size, hg.high⟩
  sorted := sorted_arrange _
  level p := by
    have hlevel := h.level p
    rw [h.atPrice_slots hg]
    exact ⟨.of_chains hlevel.forward hlevel.backward, hlevel.inRange, hlevel.orderCount,
      hlevel.totalQty⟩
  overflow p := by
    constructor
    · intro hp
      obtain ⟨hb, hne⟩ := h.overflow p hp
      obtain ⟨i, hi⟩ := List.exists_mem_of_ne_nil _ hne
      have hprice : pool.price i = p := ((h.level p).order i hi).priceTicks
      exact ⟨hb, i, (h.mem_slots hg).mpr (hprice ▸ hi), hprice⟩
    · rintro ⟨hb, i, hi, rfl⟩
      by_contra ho
      have hi := (h.mem_slots hg).mp hi
      rw [h.absent _ hb ho] at hi
      cases hi
  bandOrders := by
    have hnodup := PriceLadder.prices_nodup hg fun q hq => (h.overflow q hq).1
    have hperm := @LadderRep.visited_perm pool (slots pool l listed) _
      (List.nodup_append.mp hnodup).1
    simp only [LadderRep.visited, h.atPrice_slots hg, PriceLadder.mem_bandPrices hg] at hperm
    exact h.bandOrders.trans hperm.length_eq
  best := rfl
  order i hi := by
    have ho := (h.level _).order i ((h.mem_slots hg).mp hi)
    exact ⟨ho.live, ho.levelIdx, ho.remaining.1, by rw [ho.side]; rfl⟩

theorem checkFifo_settled (levelIdx : Int32) (fuel : Nat) : ∀ idx prev count qty,
    (settled pool l listed).checkFifo pool p levelIdx fuel idx prev count qty =
      l.checkFifo pool p levelIdx fuel idx prev count qty := by
  induction fuel with
  | zero => exact fun _ _ _ _ => rfl
  | succ fuel ih =>
    intro idx prev count qty
    simp only [PriceLadder.checkFifo, ih]
    rfl

theorem checkLevel_settled : (settled pool l listed).checkLevel pool = l.checkLevel pool := by
  funext w p level levelIdx
  simp only [PriceLadder.checkLevel, checkFifo_settled]
  rfl

theorem checkBandLevel_settled :
    (settled pool l listed).checkBandLevel pool = l.checkBandLevel pool := by
  funext w off
  simp only [PriceLadder.checkBandLevel, checkLevel_settled]
  rfl

theorem checkOverflowLevel_settled :
    (settled pool l listed).checkOverflowLevel pool = l.checkOverflowLevel pool := by
  funext w node
  simp only [PriceLadder.checkOverflowLevel, checkLevel_settled]
  rfl

theorem unique (h : LadderInvariant pool l listed) : listed = l.listed pool :=
  funext fun p => (h.level p).listed_eq.symm

/-- A ladder in good order passes, and each of its orders is counted once. -/
theorem checkInvariants_ok (h : LadderInvariant pool l listed) (hg : l.Geometry)
    (hs : pool.slots.size < 2 ^ 31) : ∃ census, l.checkInvariants pool = .ok census := by
  have hrep := h.rep hg
  have horder : ∀ i ∈ slots pool l listed, OrderInvariant pool l (pool.price i) i := fun i hi =>
    (h.level _).order i ((h.mem_slots hg).mp hi)
  have hself : ∀ i ∈ slots pool l listed, indexOf (pool.slot i).orderId = i := fun i hi =>
    (horder i hi).self
  have hle : ∀ i ∈ slots pool l listed,
      (pool.slot i).remaining.toNat ≤ (pool.slot i).qty.toNat := fun i hi =>
    (horder i hi).remaining.2
  have hside : ∀ i ∈ slots pool l listed, (pool.slot i).side = (settled pool l listed).side :=
    fun i hi => (horder i hi).side
  obtain ⟨census, hrun, -⟩ := hrep.checkInvariants_ok hs hself hle hside
  have hinv := hrep.invariant hself hle hside
  rw [show atPrice pool (slots pool l listed) = listed from funext (h.atPrice_slots hg)] at hinv
  have hempty : l.empty = (settled pool l listed).empty := by
    rw [Bool.eq_iff_iff, h.empty, hinv.empty]
  -- both ladders name the best price of the same lists
  have hbest : l.empty = false → l.bestPrice = (settled pool l listed).bestPrice := fun he => by
    obtain ⟨p, hp, hpne, hpbest⟩ := h.best he
    obtain ⟨q, hq, hqne, hqbest⟩ := hinv.best (hempty ▸ he)
    rcases trichotomous_of l.side.Better p q with hlt | rfl | hlt
    · exact absurd hlt (hqbest p hpne)
    · rw [hp, hq]
    · exact absurd hlt (hpbest q hqne)
  obtain ⟨w₁, hband, hrun⟩ := bind_eq_ok.mp hrun
  obtain ⟨_, hcount, hrun⟩ := bind_eq_ok.mp hrun
  obtain ⟨w, hover, hrun⟩ := bind_eq_ok.mp hrun
  obtain ⟨_, hany, hrun⟩ := bind_eq_ok.mp hrun
  rw [checkBandLevel_settled] at hband
  rw [checkOverflowLevel_settled] at hover
  have hband : (List.range l.levels.size).foldlM (l.checkBandLevel pool) {} = .ok w₁ := hband
  have hover : l.overflow.toList.foldlM (l.checkOverflowLevel pool) w₁ = .ok w := hover
  have hcount : w₁.census.orderCount = l.bandOrders.toUInt64 := assert_eq_ok.mp hcount
  have hany := assert_eq_ok.mp hany
  rw [← hempty] at hany
  refine ⟨w.census, ?_⟩
  rw [PriceLadder.checkInvariants, hband, ok_bind, assert_pos hcount, ok_bind, hover, ok_bind,
    assert_pos hany, ok_bind]
  split at hrun
  · rename_i hyes
    obtain ⟨best, hbestrun, hrun⟩ := bind_eq_ok.mp hrun
    obtain ⟨_, hseen, -⟩ := bind_eq_ok.mp hrun
    rw [if_pos hyes, hbest (by simp [hany, hyes]), hbestrun, ok_bind,
      assert_pos (assert_eq_ok.mp hseen)]
    rfl
  · rename_i hno
    rw [if_neg hno]
    rfl

end LadderInvariant

/-- A list of live slots holds all of them exactly when it is as long as the pool says. -/
theorem OrderPool.Inv.census {pool : OrderPool} {F L : List UInt32} (h : pool.Inv F)
    (hL : L.Nodup) (hlive : ∀ i ∈ L, pool.Live i) :
    L.length = pool.liveCount.toNat ↔ ∀ i, pool.Live i → i ∈ L := by
  have hsize := h.size
  have hcount := h.live
  have hnodup : (L ++ F).Nodup := List.nodup_append.mpr ⟨hL, h.nodup, fun i hi j hj he =>
    h.not_live hj (he ▸ hlive i hi)⟩
  have hindices : (OrderPool.indices pool.slots.size).length = pool.slots.size := by
    simp [OrderPool.indices]
  have hsub : L ++ F ⊆ OrderPool.indices pool.slots.size := fun i hi => by
    rw [OrderPool.mem_indices (by omega)]
    rcases List.mem_append.mp hi with hi | hi
    · exact (hlive i hi).1
    · exact ((h.mem i).mp hi).1
  constructor
  · intro hlen i hi
    have hperm := (hnodup.subperm hsub).perm_of_length_le (by
      rw [hindices, List.length_append]
      omega)
    have hmem := hperm.mem_iff.mpr ((OrderPool.mem_indices (by omega)).mpr hi.1)
    exact (List.mem_append.mp hmem).resolve_right fun hF => h.not_live hF hi
  · intro hall
    have hperm : (L ++ F).Perm (OrderPool.indices pool.slots.size) :=
      (List.perm_ext_iff_of_nodup hnodup (OrderPool.indices_nodup (by omega))).mpr fun i => by
        refine ⟨fun hi => hsub hi, fun hi => ?_⟩
        rw [OrderPool.mem_indices (by omega)] at hi
        rcases h.mem_or_live hi with hF | hl
        · exact List.mem_append_right _ hF
        · exact List.mem_append_left _ (hall i hl)
    have hlen := hperm.length_eq
    rw [hindices, List.length_append] at hlen
    omega

namespace OrderBook

variable {book : OrderBook} {bids asks : PriceTicks → List UInt32} {F : List UInt32}

theorem uncrossed_iff (hb : LadderInvariant book.pool book.bids bids)
    (ha : LadderInvariant book.pool book.asks asks) (hsides : book.bids.side = .kBuy ∧
      book.asks.side = .kSell) : book.uncrossed = .ok true ↔
      ∀ p q, bids p ≠ [] → asks q ≠ [] → p < q := by
  by_cases hempty : book.bids.empty ∨ book.asks.empty
  · rw [uncrossed, if_pos hempty]
    refine iff_of_true rfl fun p q hp hq => ?_
    rcases hempty with he | he
    · exact absurd (hb.empty.mp he p) hp
    · exact absurd (ha.empty.mp he q) hq
  · obtain ⟨hbne, hane⟩ := not_or.mp hempty
    obtain ⟨p, hp, hpne, hpbest⟩ := hb.best (by simpa using hbne)
    obtain ⟨q, hq, hqne, hqbest⟩ := ha.best (by simpa using hane)
    rw [uncrossed, if_neg hempty, hp, ok_bind, hq, ok_bind]
    have hok : (pure (decide (p < q)) : Exec Bool) = .ok true ↔ p < q := by
      rw [pure_eq_ok, Except.ok.injEq, decide_eq_true_iff]
    rw [hok]
    refine ⟨fun hlt x y hx hy => ?_, fun hall => hall p q hpne hqne⟩
    have hxp := hpbest x hx
    have hyq := hqbest y hy
    rw [hsides.1, Side.better_buy] at hxp
    rw [hsides.2, Side.better_of_ne (by decide)] at hyq
    rw [Int64.lt_iff_toInt_lt] at hlt ⊢
    omega

def met (book : OrderBook) (bids asks : PriceTicks → List UInt32) : List UInt32 :=
  book.bids.prices.flatMap bids ++ book.asks.prices.flatMap asks

theorem mem_met (hgb : book.bids.Geometry) (hga : book.asks.Geometry)
    (hb : LadderInvariant book.pool book.bids bids)
    (ha : LadderInvariant book.pool book.asks asks) {i : UInt32} :
    i ∈ met book bids asks ↔ (∃ p, i ∈ bids p) ∨ ∃ p, i ∈ asks p := by
  have hside : ∀ {l : PriceLadder} {listed : PriceTicks → List UInt32}, l.Geometry →
      LadderInvariant book.pool l listed →
      (i ∈ l.prices.flatMap listed ↔ ∃ p, i ∈ listed p) := fun {l listed} hg h => by
    refine (h.mem_prices hg).trans ⟨fun hi => ⟨_, hi⟩, fun ⟨p, hi⟩ => ?_⟩
    have hprice : book.pool.price i = p := ((h.level p).order i hi).priceTicks
    rwa [hprice]
  rw [met, List.mem_append, hside hgb hb, hside hga ha]

theorem met_nodup (hgb : book.bids.Geometry) (hga : book.asks.Geometry)
    (hb : LadderInvariant book.pool book.bids bids)
    (ha : LadderInvariant book.pool book.asks asks) (hsides : book.bids.side = .kBuy ∧
      book.asks.side = .kSell) : (met book bids asks).Nodup := by
  refine List.nodup_append.mpr ⟨?_, ?_, fun i hi j hj he => ?_⟩
  · exact PriceLadder.flatMap_listed_nodup
      (PriceLadder.prices_nodup hgb fun p hp => (hb.overflow p hp).1) fun p _ => hb.level p
  · exact PriceLadder.flatMap_listed_nodup
      (PriceLadder.prices_nodup hga fun p hp => (ha.overflow p hp).1) fun p _ => ha.level p
  · obtain ⟨p, -, hi⟩ := List.mem_flatMap.mp hi
    obtain ⟨q, -, hj⟩ := List.mem_flatMap.mp hj
    have hbuy := ((hb.level p).order i hi).side
    have hsell := ((ha.level q).order j hj).side
    rw [he, hsell, hsides.1, hsides.2] at hbuy
    cases hbuy

/-- The check passes exactly where the invariant holds and the book is not crossed. -/
theorem checkInvariants_iff (hgb : book.bids.Geometry) (hga : book.asks.Geometry)
    (hsides : book.bids.side = .kBuy ∧ book.asks.side = .kSell) (hpool : book.pool.Inv F) :
    book.checkInvariants = .ok () ↔ ∃ bids asks, BookInvariant book bids asks ∧
      ∀ p q, bids p ≠ [] → asks q ≠ [] → p < q := by
  have hs := hpool.size
  constructor
  · intro hrun
    obtain ⟨cb, hbrun, hrun⟩ := bind_eq_ok.mp hrun
    obtain ⟨ca, harun, hrun⟩ := bind_eq_ok.mp hrun
    obtain ⟨_, hcount, hrun⟩ := bind_eq_ok.mp hrun
    obtain ⟨ok, hok, hrun⟩ := bind_eq_ok.mp hrun
    rw [assert_eq_ok.mp hrun] at hok
    obtain ⟨hb, hcb⟩ := PriceLadder.checkInvariants_found hgb hs hbrun
    obtain ⟨ha, hca⟩ := PriceLadder.checkInvariants_found hga hs harun
    have hnodup := met_nodup hgb hga hb ha hsides
    have hlive : ∀ i ∈ met book (book.bids.listed book.pool) (book.asks.listed book.pool),
        book.pool.Live i := fun i hi => by
      rcases (mem_met hgb hga hb ha).mp hi with ⟨p, hi⟩ | ⟨p, hi⟩
      · exact ((hb.level p).order i hi).live
      · exact ((ha.level p).order i hi).live
    have hlen : (met book (book.bids.listed book.pool) (book.asks.listed book.pool)).length =
        book.pool.liveCount.toNat := by
      have hnum := congrArg UInt64.toNat (assert_eq_ok.mp hcount)
      have hle := length_le_slots hnodup fun i hi => (hlive i hi).1
      rw [UInt64.toNat_add, hcb, hca, UInt32.toNat_toUInt64] at hnum
      rw [met, List.length_append] at hle ⊢
      omega
    refine ⟨_, _, ⟨hsides, hb, ha, fun i => ⟨fun hi => (mem_met hgb hga hb ha).mp
      ((hpool.census hnodup hlive).mp hlen i hi), ?_⟩, fun i p q => ⟨?_, ?_, ?_⟩⟩,
      (uncrossed_iff hb ha hsides).mp hok⟩
    · exact fun hi => hlive i ((mem_met hgb hga hb ha).mpr hi)
    · exact fun hp hq => ((hb.level p).order i hp).priceTicks.symm.trans
        ((hb.level q).order i hq).priceTicks
    · exact fun hp hq => ((ha.level p).order i hp).priceTicks.symm.trans
        ((ha.level q).order i hq).priceTicks
    · rintro ⟨hp, hq⟩
      have hbuy := ((hb.level p).order i hp).side
      rw [((ha.level q).order i hq).side, hsides.1, hsides.2] at hbuy
      cases hbuy
  · rintro ⟨bids, asks, ⟨-, hb, ha, hlive, -⟩, huncrossed⟩
    obtain ⟨cb, hbrun⟩ := hb.checkInvariants_ok hgb hs
    obtain ⟨ca, harun⟩ := ha.checkInvariants_ok hga hs
    have hcb := (PriceLadder.checkInvariants_found hgb hs hbrun).2
    have hca := (PriceLadder.checkInvariants_found hga hs harun).2
    rw [← hb.unique] at hcb
    rw [← ha.unique] at hca
    have hmem : ∀ i, i ∈ met book bids asks ↔ book.pool.Live i := fun i =>
      (mem_met hgb hga hb ha).trans (hlive i).symm
    have hnodup := met_nodup hgb hga hb ha hsides
    have hlen := (hpool.census hnodup fun i hi => (hmem i).mp hi).mpr fun i hi => (hmem i).mpr hi
    have hcount : cb.orderCount + ca.orderCount = book.pool.liveCount.toUInt64 := by
      refine UInt64.toNat_inj.mp ?_
      have hle := book.pool.liveCount.toNat_lt
      rw [met, List.length_append] at hlen
      rw [UInt64.toNat_add, hcb, hca, UInt32.toNat_toUInt64, hlen]
      omega
    rw [checkInvariants, hbrun, ok_bind, harun, ok_bind, assert_pos hcount, ok_bind,
      (uncrossed_iff hb ha hsides).mpr huncrossed, ok_bind]
    rfl

end OrderBook

/-! The check ends on any memory: a walk that came back to a slot would find another
backward link there. -/

namespace PriceLadder

variable {pool : OrderPool} {l : PriceLadder} {p : PriceTicks}

/-- `V` are the slots the walk has passed, each with a link to the one before. -/
theorem checkFifo_ends {levelIdx : Int32} (fuel : Nat) : ∀ {V : List UInt32} {idx prev : Int32}
    {count : UInt32} {qty : UInt64}, V.Nodup → (∀ i ∈ V, i.toNat < pool.slots.size) →
    (∀ A i B, V = A ++ i :: B → pool.prev i = A.getLast?) → OrderPool.deref prev = V.getLast? →
    pool.slots.size < V.length + fuel →
    Avoids .outOfFuel (l.checkFifo pool p levelIdx fuel idx prev count qty) := by
  induction fuel with
  | zero =>
    intro V idx prev count qty hV hrange _ _ hfuel
    have hlen := length_le_slots hV hrange
    omega
  | succ fuel ih =>
    intro V idx prev count qty hV hrange hlinks hlast hfuel
    rw [checkFifo]
    refine .ite (fun _ => .ok _) fun hnull => ?_
    have hget : Avoids .outOfFuel (pool.get idx.toUInt32) :=
      .ite (fun _ => .ok _) fun _ => .error (by decide)
    refine hget.bind fun order horder => ?_
    obtain ⟨hidx, rfl⟩ := OrderPool.of_get horder
    refine .guarded (by decide) fun hprev => .guarded (by decide) fun _ =>
      .guarded (by decide) fun _ => .guarded (by decide) fun _ =>
      .guarded (by decide) fun _ => .guarded (by decide) fun _ => ?_
    have hback : pool.prev idx.toUInt32 = V.getLast? := by rw [OrderPool.prev, hprev, hlast]
    have hnew : idx.toUInt32 ∉ V := fun hmem => by
      obtain ⟨A, B, rfl⟩ := List.append_of_mem hmem
      rw [hlinks A _ B rfl, List.getLast?_append_of_ne_nil _ (by simp)] at hback
      have hx := List.getLast?_eq_some_getLast (List.cons_ne_nil idx.toUInt32 B)
      exact (List.nodup_append.mp hV).2.2 _ (List.mem_of_getLast? (hback.trans hx)) _
        (List.mem_of_getLast? hx) rfl
    refine @ih (V ++ [idx.toUInt32]) _ _ _ _ ?_ ?_ ?_ ?_ ?_
    · refine List.nodup_append.mpr ⟨hV, by simp, fun x hx y hy he => hnew ?_⟩
      rwa [← List.mem_singleton.mp hy, ← he]
    · intro x hx
      rcases List.mem_append.mp hx with hx | hx
      · exact hrange x hx
      · rwa [List.mem_singleton.mp hx]
    · intro A x B he
      rcases List.eq_nil_or_concat B with rfl | ⟨B, y, rfl⟩
      · obtain ⟨rfl, hx⟩ := List.append_inj' he rfl
        rwa [← (List.cons.inj hx).1]
      · rw [List.concat_eq_append, ← List.cons_append, ← List.append_assoc] at he
        exact hlinks A x B (List.append_inj' he rfl).1
    · rw [OrderPool.deref_of_ne hnull, List.getLast?_concat]
    · rw [List.length_append, List.length_singleton]
      omega

theorem checkLevel_ends (w : Walk) (level : PriceLevel) (levelIdx : Int32) :
    Avoids .outOfFuel (l.checkLevel pool w p level levelIdx) := by
  refine .ite (fun _ => .guarded (by decide) fun _ => .ok _) fun _ => ?_
  refine (checkFifo_ends (V := []) _ List.nodup_nil (by simp) (by simp) rfl (by simp)).step
    fun _ => .guarded (by decide) fun _ => .guarded (by decide) fun _ =>
      .guarded (by decide) fun _ => ?_
  exact .ite (fun _ => .ok _) fun _ => .ok _

theorem bestPrice_ends : Avoids .outOfFuel l.bestPrice := by
  refine .guarded (by decide) fun _ => ?_
  split
  · exact .int64 (by decide)
  · exact .ite (fun _ => .ok _) fun _ => (Avoids.int64 (by decide)).step fun _ => .ok _

theorem checkInvariants_ends (l : PriceLadder) (pool : OrderPool) :
    Avoids .outOfFuel (l.checkInvariants pool) := by
  refine (Avoids.foldlM _ (fun off _ w => ?_) _).step fun w => .guarded (by decide) fun _ =>
    (Avoids.foldlM _ (fun node _ w => ?_) _).step fun w => .guarded (by decide) fun _ => ?_
  · have hlevel : Avoids .outOfFuel (l.bandLevel off) :=
      .ite (fun _ => .ok _) fun _ => .error (by decide)
    exact (Avoids.int64 (by decide)).step fun _ => hlevel.step fun _ => checkLevel_ends _ _ _
  · have hband : Avoids .outOfFuel (l.inBand node.1) :=
      .ite (fun _ => (Avoids.int64 (by decide)).step fun _ => .ok _) fun _ => .ok _
    exact hband.step fun _ => .guarded (by decide) fun _ => .guarded (by decide) fun _ =>
      checkLevel_ends _ _ _
  · exact .ite (fun _ => bestPrice_ends.step fun _ => .guarded (by decide) fun _ => .ok _)
      fun _ => .ok _

end PriceLadder

/-- On any memory the check of debug builds comes to an end; and whatever the ladders,
levels and links of the orders hold, it passes exactly where the full-book invariant
holds and no bid reaches an ask. -/
theorem check_invariants_exact (book : OrderBook) :
    book.checkInvariants ≠ .error .outOfFuel ∧
    ∀ F, book.pool.Inv F → book.bids.Geometry → book.asks.Geometry →
      book.bids.side = .kBuy → book.asks.side = .kSell →
      (book.checkInvariants = .ok () ↔ ∃ bids asks, BookInvariant book bids asks ∧
        ∀ p q, bids p ≠ [] → asks q ≠ [] → p < q) := by
  constructor
  · have huncrossed : Avoids .outOfFuel book.uncrossed :=
      .ite (fun _ => .ok _) fun _ => PriceLadder.bestPrice_ends.step fun _ =>
        PriceLadder.bestPrice_ends.step fun _ => .ok _
    exact (PriceLadder.checkInvariants_ends _ _).step fun _ =>
      (PriceLadder.checkInvariants_ends _ _).step fun _ => .guarded (by decide) fun _ =>
        huncrossed.step fun _ => .assert (by decide)
  · intro F hpool hbids hasks hbuy hsell
    exact OrderBook.checkInvariants_iff hbids hasks ⟨hbuy, hsell⟩ hpool

/-- A cursor set on an empty side is found out. -/
theorem check_invariants_exact_small : ∃ book, OrderBook.new 100 1 2 = .ok book ∧
    let bad : OrderBook := { book with bids := { book.bids with bestOffset := 1 } }
    bad.checkInvariants = .error (.assertion "empty() disagrees with the walk") ∧
      ¬ ∃ bids asks, BookInvariant bad bids asks ∧
        ∀ p q, bids p ≠ [] → asks q ≠ [] → p < q := by
  obtain ⟨book, hnew, hrep⟩ := @BookRep.new_rep ⟨100, 1, 2⟩
    ⟨by decide, by decide, by decide, by decide⟩
  obtain ⟨hsize, hhigh⟩ := (hrep.ladder .kBuy).geometry
  have hexact := (check_invariants_exact
    { book with bids := { book.bids with bestOffset := 1 } }).2 _ hrep.pool ⟨hsize, hhigh⟩
    (hrep.ladder .kSell).geometry (hrep.side .kBuy) (hrep.side .kSell)
  have hbad : ∃ r, (OrderBook.new 100 1 2 >>= fun book =>
      .ok (OrderBook.checkInvariants { book with bids := { book.bids with bestOffset := 1 } })) =
        .ok r ∧ r = .error (.assertion "empty() disagrees with the walk") := ⟨_, rfl, by decide⟩
  rw [show OrderBook.new 100 1 2 = .ok book from hnew, ok_bind] at hbad
  obtain ⟨_, he, hbad⟩ := hbad
  cases he
  refine ⟨book, hnew, hbad, fun hinv => ?_⟩
  have hok := hexact.mpr hinv
  rw [hbad] at hok
  cases hok

end LimitOrderBook
