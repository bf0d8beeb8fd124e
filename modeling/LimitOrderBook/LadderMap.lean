import LimitOrderBook.BookRun
import LimitOrderBook.Lib.QueueMap

set_option autoImplicit false

namespace LimitOrderBook
open Checked PriorityQueue

abbrev PriceMap := QueueMap PriceTicks UInt32

def bestKey (side : Side) (m : PriceMap) : Option PriceTicks :=
  if side = .kBuy then m.entries.maxKey? else m.entries.minKey?

namespace PriceLadder

def bestLevel (l : PriceLadder) : Exec PriceLevel := do
  let price ← l.bestPrice
  let ref ← l.levelAt price
  l.load ref

/-- The scan of `AdvanceBest` over the whole band, whatever the counter says. -/
def rescan (l : PriceLadder) : Exec PriceLadder := do
  let step : Int32 := if l.side = .kBuy then -1 else 1
  let stop : Int32 := if l.side = .kBuy then -1 else Int32.ofNat l.levels.size
  let start ← addI32 l.bestOffset step
  let best ← l.scan step stop (l.levels.size + 1) start
  pure { l with bestOffset := best }

/-- The end of `remove_order` without its shortcut for an empty band. -/
def scanBest (l : PriceLadder) (level : PriceLevel) (offset : Int32) : Exec PriceLadder :=
  if level.empty ∧ offset = l.bestOffset then l.rescan else pure l

end PriceLadder

/-- A live order that no level of the ladder links. -/
structure Loose (pool : OrderPool) (m : PriceMap) (i : UInt32) : Prop where
  live : pool.Live i
  prevIdx : (pool.slot i).prevIdx = kNullIdx
  nextIdx : (pool.slot i).nextIdx = kNullIdx
  absent : ∀ p, i ∉ m.queue p

/-- The states of a pool and a ladder, next to the map. Between two calls the owner
of the pool allocates, frees and writes any slots that the ladder does not link. -/
inductive LadderRun (cfg : EngineConfig) (side : Side) : OrderPool → PriceLadder → PriceMap → Prop
  | new {pool : OrderPool} {l : PriceLadder} :
    OrderPool.new cfg.poolCapacity = .ok pool →
    PriceLadder.new side cfg.anchorPrice cfg.bandRadius = .ok l →
    LadderRun cfg side pool l .empty
  | owner {pool pool' : OrderPool} {l : PriceLadder} {m : PriceMap} :
    LadderRun cfg side pool l m → pool'.slots.size = pool.slots.size →
    (∀ p, ∀ i ∈ m.queue p, pool'.slot i = pool.slot i) →
    LadderRun cfg side pool' l m
  | push {pool pool' : OrderPool} {l l' : PriceLadder} {m : PriceMap} {i : UInt32} :
    LadderRun cfg side pool l m → Loose pool m i → (pool.slot i).side = side →
    1 ≤ (pool.slot i).remaining → l.pushOrder pool i = .ok (l', pool') →
    LadderRun cfg side pool' l' (m.push (pool.slot i).priceTicks i)
  | remove {pool pool' : OrderPool} {l l' : PriceLadder} {m : PriceMap} {p : PriceTicks}
      {i : UInt32} :
    LadderRun cfg side pool l m → i ∈ m.queue p → l.removeOrder pool i = .ok (l', pool') →
    LadderRun cfg side pool' l' (m.remove p i)

/-- Every query of the ladder is answered from the map. -/
structure ShowsMap (pool : OrderPool) (l : PriceLadder) (m : PriceMap) : Prop where
  empty : l.empty = true ↔ m.entries = ∅
  best : ∀ p, bestKey l.side m = some p → l.bestPrice = .ok p ∧
    ∃ level oldest younger, l.bestLevel = .ok level ∧ m.queue p = oldest :: younger ∧
      level.headIdx = oldest.toInt32
  found : ∀ p ∈ m.entries, ∃ level, l.findLevel p = .ok (some level) ∧
    LevelRep pool level (m.queue p)
  absent : ∀ p, p ∉ m.entries → l.findLevel p = .ok none ∨ l.findLevel p = .ok (some {})

/-- From `l` to `l'` the cursor left the price `p`, the best of the band, for the
next price of the band at which something rests. -/
structure CursorMoved (l l' : PriceLadder) (m : PriceMap) (p : PriceTicks) : Prop where
  gone : (∀ q ∈ m.entries, l.InBand q → ¬ l.side.Better p q) → l'.bestOffset = kNullIdx
  next : ∀ q ∈ m.entries, l.InBand q → l.side.Better p q →
    (∀ r ∈ m.entries, l.InBand r → l.side.Better p r → ¬ l.side.Better r q) →
    l'.bestOffset = l.offsetOf q

namespace PriceLadder

variable {l : PriceLadder} {p : PriceTicks}

theorem advanceBest_eq (h : 0 < l.bandOrders) : l.advanceBest = l.rescan := by
  rw [advanceBest, assert_pos h]
  rfl

/-- Over empty levels the scan runs up to its end. -/
theorem scan_none (hg : l.Geometry) (hempty : ∀ q, l.InBand q → (l.level q).empty = true)
    (step stop : Int32) (hstep : step.toInt = 1 ∨ step.toInt = -1) (n : Nat) :
    ∀ (fuel : Nat) (off : Int32), n < fuel → off.toInt + n * step.toInt = stop.toInt →
    (∀ k : Nat, k < n → 0 ≤ off.toInt + k * step.toInt ∧
      off.toInt + k * step.toInt < l.levels.size) →
    -1 ≤ stop.toInt ∧ stop.toInt ≤ l.levels.size → l.scan step stop fuel off = .ok kNullIdx := by
  have hsize := hg.size
  induction n with
  | zero =>
    intro fuel off hf hoff _ _
    obtain ⟨fuel, rfl⟩ : ∃ m, fuel = m + 1 := ⟨fuel - 1, by omega⟩
    have heq : off = stop := Int32.toInt_inj.mp (by simpa using hoff)
    rw [scan, if_pos heq, pure_eq_ok]
  | succ n ih =>
    intro fuel off hf hoff hrange hstop
    obtain ⟨fuel, rfl⟩ : ∃ m, fuel = m + 1 := ⟨fuel - 1, by omega⟩
    have hcast : ((n + 1 : Nat) : Int) * step.toInt = n * step.toInt + step.toInt := by
      push_cast
      ring
    have hne : off ≠ stop := by
      rintro rfl
      rcases hstep with hs | hs <;> rw [hs] at hoff <;> omega
    have hhere := hrange 0 (by omega)
    simp only [Nat.cast_zero, zero_mul, add_zero] at hhere
    obtain ⟨q, hqb, hq⟩ := price_at hg hhere.1 hhere.2
    have hlevel : l.bandLevel off.toInt = .ok (l.level q) := by
      rw [← bandLevel_ok hqb, hq]
      congr 1
      omega
    have hnext : -1 ≤ off.toInt + step.toInt ∧ off.toInt + step.toInt ≤ l.levels.size := by
      rcases hstep with hs | hs <;> omega
    obtain ⟨off', hadd, htoInt⟩ := @addI32_ok off step (by omega) (by omega)
    rw [scan, if_neg hne, hlevel, ok_bind, if_neg (by simp [hempty q hqb]), hadd, ok_bind]
    refine ih fuel _ (by omega) (by rw [htoInt]; omega) (fun k hk => ?_) hstop
    have hk' := hrange (k + 1) (by omega)
    have hstepk : ((k + 1 : Nat) : Int) * step.toInt = k * step.toInt + step.toInt := by
      push_cast
      ring
    rw [hstepk] at hk'
    rw [htoInt]
    omega

theorem rescan_none (hg : l.Geometry) (hempty : ∀ q, l.InBand q → (l.level q).empty = true)
    (hb : l.InBand p) (hbest : l.bestOffset = l.offsetOf p) :
    l.rescan = .ok { l with bestOffset := kNullIdx } := by
  have hsize := hg.size
  obtain ⟨hlow, hhigh⟩ := hb
  have hlen : (Int32.ofNat l.levels.size).toInt = l.levels.size :=
    Int32.toInt_ofNat_of_lt (by omega)
  by_cases hs : l.side = .kBuy
  · have hneg : (-1 : Int32).toInt = -1 := rfl
    obtain ⟨start, hadd, hstart⟩ := start_ok hg ⟨hlow, hhigh⟩ hbest (.inr hneg)
    have hscan := scan_none hg hempty (-1) (-1) (.inr hneg) (p.toInt - l.lowPrice.toInt).toNat
      (l.levels.size + 1) start (by omega)
      (by rw [hstart, hneg]; omega) (fun k hk => by rw [hstart, hneg]; omega)
      (by rw [hneg]; omega)
    simp only [rescan, if_pos hs, hadd, ok_bind, hscan, pure_eq_ok]
  · have hone : (1 : Int32).toInt = 1 := rfl
    obtain ⟨start, hadd, hstart⟩ := start_ok hg ⟨hlow, hhigh⟩ hbest (.inl hone)
    have hscan := scan_none hg hempty 1 (Int32.ofNat l.levels.size) (.inl hone)
      (l.levels.size - (p.toInt - l.lowPrice.toInt).toNat - 1)
      (l.levels.size + 1) start (by omega)
      (by rw [hstart, hone, hlen]; omega) (fun k hk => by rw [hstart, hone]; omega)
      (by rw [hlen]; omega)
    simp only [rescan, if_neg hs, hadd, ok_bind, hscan, pure_eq_ok]

end PriceLadder

theorem bestKey_some {side : Side} {m : PriceMap} {p : PriceTicks} :
    bestKey side m = some p ↔ p ∈ m.entries ∧ ∀ q ∈ m.entries, ¬ side.Better q p := by
  have hle : ∀ a b : PriceTicks, (compare a b).isLE = true ↔ a.toInt ≤ b.toInt := by
    intro a b
    rw [Std.isLE_compare, Int64.le_iff_toInt_le]
  unfold bestKey
  by_cases hs : side = .kBuy
  · rw [if_pos hs, Std.ExtTreeMap.maxKey?_eq_some_iff_mem_and_forall]
    simp only [hle, hs, Side.better_buy, not_lt]
  · rw [if_neg hs, Std.ExtTreeMap.minKey?_eq_some_iff_mem_and_forall]
    simp only [hle, Side.better_of_ne hs, not_lt]

namespace LadderRep

variable {pool : OrderPool} {l : PriceLadder} {S A B : List UInt32} {i : UInt32} {m : PriceMap}

/-- On the ladder `remove_order` leaves to it, the shortcut does what the full scan does. -/
theorem scanBest_eq (h : LadderRep pool l (A ++ i :: B)) (hb : l.InBand (pool.price i))
    (level' : PriceLevel) {bandOrders : UInt32}
    (hcount : bandOrders.toNat = (inBandSlots pool l (A ++ B)).length) :
    ({ l with levels := l.setBandLevel (l.offsetOf (pool.price i)).toInt level',
              bandOrders } : PriceLadder).scanBest level' (l.offsetOf (pool.price i)) =
      ({ l with levels := l.setBandLevel (l.offsetOf (pool.price i)).toInt level',
                bandOrders } : PriceLadder).settleBest level' (l.offsetOf (pool.price i)) := by
  obtain ⟨hu, hlev⟩ := PriceLadder.updates_setBandLevel h.geometry hb level' l.bestOffset bandOrders
  unfold PriceLadder.scanBest PriceLadder.settleBest
  by_cases hE : level'.empty ∧ l.offsetOf (pool.price i) = l.bestOffset
  · rw [if_pos hE, if_pos hE]
    by_cases hz : bandOrders = 0
    · rw [if_pos hz]
      have hnone : inBandSlots pool l (A ++ B) = [] := by
        rw [← List.length_eq_zero_iff, ← hcount, hz]
        rfl
      refine PriceLadder.rescan_none (hu.geometry h.geometry) (fun q hq => ?_)
        (hu.inBand.mpr hb) hE.2.symm
      by_cases hqp : q = pool.price i
      · rw [hqp, hlev]
        exact hE.1
      · rw [hu.level q hqp, (h.level q).empty_iff]
        refine List.eq_nil_iff_forall_not_mem.mpr fun j hj => ?_
        obtain ⟨hjS, hjq⟩ := mem_atPrice.mp hj
        have hji : j ≠ i := fun e => hqp (by rw [← hjq, e])
        have hmem : j ∈ inBandSlots pool l (A ++ B) := by
          refine mem_inBandSlots.mpr ⟨?_, by rw [hjq]; exact hu.inBand.mp hq⟩
          simp only [List.mem_append, List.mem_cons] at hjS ⊢
          tauto
        rw [hnone] at hmem
        cases hmem
    · have hpos : 0 < bandOrders := UInt32.pos_iff_ne_zero.mpr hz
      rw [if_neg hz]
      exact (PriceLadder.advanceBest_eq hpos).symm
  · rw [if_neg hE]
    exact (if_neg hE).symm

theorem removeOrder_scan (h : LadderRep pool l (A ++ i :: B)) :
    l.removeOrderBy PriceLadder.scanBest pool i = l.removeOrder pool i := by
  rw [PriceLadder.removeOrder_eq]
  by_cases hb : l.InBand (pool.price i)
  · obtain ⟨level', pool', hrun, -⟩ := h.removeOrderBy_band hb
    rw [hrun, hrun, h.scanBest_eq hb level' (h.bandOrders_pred hb).2]
  · obtain ⟨level', pool', hrun, -⟩ := h.removeOrderBy_overflow hb
    rw [hrun, hrun]

theorem showsMap (h : LadderRep pool l S) (hm : m.Holds pool.price S) : ShowsMap pool l m where
  empty := by
    rw [h.empty_iff, Std.ExtTreeMap.eq_empty_iff_forall_not_mem, List.eq_nil_iff_forall_not_mem]
    constructor
    · intro hS p hp
      obtain ⟨i, hi, -⟩ := hm.mem_entries.mp hp
      exact hS i hi
    · exact fun hall i hi => hall _ (hm.mem_entries.mpr ⟨i, hi, rfl⟩)
  best p hp := by
    obtain ⟨hmem, hbest⟩ := bestKey_some.mp hp
    obtain ⟨j, hj, hjp⟩ := hm.mem_entries.mp hmem
    cases S with
    | nil => cases hj
    | cons i T =>
      obtain rfl := h.front_price ⟨j, hj, hjp⟩ fun k hk =>
        hbest _ (hm.mem_entries.mpr ⟨k, hk, rfl⟩)
      obtain ⟨ref, hat, hload, -⟩ := h.levelAt_ok (i := i) (by simp)
      have hhead := (h.level (pool.price i)).list.head
      obtain ⟨oldest, younger, hq⟩ := List.exists_cons_of_ne_nil (QueueMap.mem_entries.mp hmem)
      have hat' : atPrice pool (i :: T) (pool.price i) = oldest :: younger :=
        (hm (pool.price i)).symm.trans hq
      rw [hat', List.head?_cons] at hhead
      refine ⟨h.bestPrice_ok, _, oldest, younger, ?_, hq,
        congrArg UInt32.toInt32 (OrderPool.deref_eq_some hhead).2⟩
      rw [PriceLadder.bestLevel, h.bestPrice_ok, ok_bind, hat, ok_bind, hload]
  found p hp := by
    obtain ⟨r, hfind, hget⟩ := h.findLevel_ok p
    have hlevel : LevelRep pool (l.level p) (m.queue p) := by
      rw [hm p]
      exact h.level p
    rw [← hget] at hlevel
    cases r with
    | none => exact absurd (hlevel.empty_iff.mp rfl) (QueueMap.mem_entries.mp hp)
    | some level => exact ⟨level, hfind, hlevel⟩
  absent p hp := by
    obtain ⟨r, hfind, hget⟩ := h.findLevel_ok p
    have hnone : m.queue p = [] := by
      by_contra hne
      exact hp (QueueMap.mem_entries.mpr hne)
    have hlevel : LevelRep pool (l.level p) [] := by
      rw [← hnone, hm p]
      exact h.level p
    cases r with
    | none => exact .inl hfind
    | some level =>
      rw [← hget] at hlevel
      exact .inr (by rw [hfind, ← hlevel.eq_default]; rfl)

/-- What a removal does to the cursor when it empties the best level of the band. -/
theorem cursorMoved {pool' : OrderPool} {l' : PriceLadder} (h : LadderRep pool l (A ++ i :: B))
    (hm : m.Holds pool.price (A ++ i :: B)) (hb : l.InBand (pool.price i))
    (hbest : l.bestOffset = l.offsetOf (pool.price i)) (hq : m.queue (pool.price i) = [i])
    (hu : l.Updates l' (pool.price i)) (hprice : pool'.price = pool.price)
    (hrep : LadderRep pool' l' (A ++ B)) : CursorMoved l l' m (pool.price i) := by
  have hgone : atPrice pool (A ++ B) (pool.price i) = [] := by
    have hat : atPrice pool (A ++ i :: B) (pool.price i) = [i] := (hm _).symm.trans hq
    rw [atPrice_append, atPrice_cons, if_pos rfl] at hat
    have hlen := congrArg List.length hat
    rw [List.length_append, List.length_cons, List.length_singleton] at hlen
    rw [atPrice_append, List.append_eq_nil_iff, ← List.length_eq_zero_iff,
      ← List.length_eq_zero_iff]
    omega
  have hsub : ∀ j ∈ A ++ B, j ∈ A ++ i :: B := fun j hj => (sublist_remove A B i).subset hj
  have hcursor := hrep.best
  rw [inBandSlots_congr (l := l) (fun j _ => congrFun hprice j) (fun _ => hu.inBand)] at hcursor
  have hother : ∀ q ∈ m.entries, l.side.Better (pool.price i) q → ∃ j ∈ A ++ B, pool.price j = q :=
    fun q hqm hlt => by
      obtain ⟨j, hj, rfl⟩ := hm.mem_entries.mp hqm
      have hji : j ≠ i := by
        rintro rfl
        exact irrefl_of l.side.Better _ hlt
      refine ⟨j, ?_, rfl⟩
      simp only [List.mem_append, List.mem_cons] at hj ⊢
      tauto
  have hworse : ∀ k ∈ inBandSlots pool l (A ++ B), l.side.Better (pool.price i) (pool.price k) :=
    fun k hk => h.next_best hb hgone hbest.symm (mem_inBandSlots.mp hk).1 (mem_inBandSlots.mp hk).2
  cases hK : inBandSlots pool l (A ++ B) with
  | nil =>
    rw [hK] at hcursor
    refine ⟨fun _ => hcursor, fun q hqm hqb hlt _ => ?_⟩
    obtain ⟨j, hj, rfl⟩ := hother q hqm hlt
    have hmem := mem_inBandSlots.mpr ⟨hj, hqb⟩
    rw [hK] at hmem
    cases hmem
  | cons k K =>
    rw [hK, List.head?_cons, PriceLadder.cursor, hu.offsetOf, hprice] at hcursor
    have hk : k ∈ inBandSlots pool l (A ++ B) := by simp [hK]
    obtain ⟨hkS, hkb⟩ := mem_inBandSlots.mp hk
    have hkm : pool.price k ∈ m.entries := hm.mem_entries.mpr ⟨k, hsub k hkS, rfl⟩
    refine ⟨fun hall => absurd (hworse k hk) (hall _ hkm hkb), fun q hqm hqb hlt hfirst => ?_⟩
    obtain ⟨j, hj, rfl⟩ := hother q hqm hlt
    have hkj := band_best (h.sorted.sublist (sublist_remove A B i)) hK hj hqb
    have hjk := hfirst _ hkm hkb (hworse k hk)
    rcases trichotomous_of l.side.Better (pool.price k) (pool.price j) with hlt | heq | hgt
    · exact absurd hlt hjk
    · rw [hcursor, heq]
    · exact absurd hgt hkj

end LadderRep

namespace LadderRun

variable {cfg : EngineConfig} {side : Side} {pool : OrderPool} {l : PriceLadder} {m : PriceMap}

/-- A ladder built by calls stands for one queue, and the map stores that queue. -/
theorem rep (hc : cfg.Valid) (h : LadderRun cfg side pool l m) :
    pool.slots.size < 2 ^ 31 ∧ l.side = side ∧
      ∃ S, LadderRep pool l S ∧ m.Holds pool.price S := by
  induction h with
  | @new pool l hpool hl =>
    obtain ⟨pool', hpool', hinv, -⟩ := OrderPool.new_inv hc.capacity
    obtain ⟨l', hl', hside, -, -, hrep⟩ := PriceLadder.new_rep hc side pool
    obtain rfl := Except.ok.inj (hpool'.symm.trans hpool)
    obtain rfl := Except.ok.inj (hl'.symm.trans hl)
    exact ⟨hinv.size, hside, [], hrep, QueueMap.holds_empty _⟩
  | @owner pool pool' l m _ hsize hkeep ih =>
    obtain ⟨hlt, hside, S, hrep, hm⟩ := ih
    have hslot : ∀ i ∈ S, pool'.slot i = pool.slot i := fun i hi =>
      hkeep _ i (hm.mem_queue.mpr ⟨hi, rfl⟩)
    exact ⟨hsize ▸ hlt, hside, S, hrep.congr hsize hslot,
      hm.congr fun i hi => by rw [OrderPool.price, OrderPool.price, hslot i hi]⟩
  | @push pool pool' l l' m i _ hloose hi hpos hrun ih =>
    obtain ⟨hlt, hside, S, hrep, hm⟩ := ih
    obtain ⟨l₁, pool₁, hrun₁, hu, hrep₁, hre⟩ := hrep.pushOrder_rep hlt hloose.live
      (fun hiS => hloose.absent _ (hm.mem_queue.mpr ⟨hiS, rfl⟩)) hloose.prevIdx hloose.nextIdx
      (UInt32.le_iff_toNat_le.mp hpos) (by rw [hi, hside])
    obtain ⟨rfl, rfl⟩ := Prod.mk.inj (Except.ok.inj (hrun₁.symm.trans hrun))
    refine ⟨hre.size ▸ hlt, hu.side.trans hside, _, hrep₁, ?_⟩
    exact (hm.push hrep.sorted i).congr fun j _ => hre.price j
  | @remove pool pool' l l' m p i _ hi hrun ih =>
    obtain ⟨hlt, hside, S, hrep, hm⟩ := ih
    obtain ⟨hiS, rfl⟩ := hm.mem_queue.mp hi
    obtain ⟨A, B, rfl⟩ := List.append_of_mem hiS
    obtain ⟨l₁, pool₁, hrun₁, hu, hrep₁, hre, -⟩ := hrep.removeOrder_rep
    obtain ⟨rfl, rfl⟩ := Prod.mk.inj (Except.ok.inj (hrun₁.symm.trans hrun))
    refine ⟨hre.size ▸ hlt, hu.side.trans hside, _, hrep₁, ?_⟩
    exact (hm.remove hrep.nodup).congr fun j _ => hre.price j

theorem push_loose (hc : cfg.Valid) (h : LadderRun cfg side pool l m) {i : UInt32}
    (hloose : Loose pool m i) (hi : (pool.slot i).side = side)
    (hpos : 1 ≤ (pool.slot i).remaining) :
    ∃ l' pool', l.pushOrder pool i = .ok (l', pool') ∧ ∀ j, j ≠ i → Loose pool m j →
      Loose pool' (m.push (pool.slot i).priceTicks i) j ∧ pool'.slot j = pool.slot j := by
  obtain ⟨hlt, hside, S, hrep, hm⟩ := h.rep hc
  have habsent : ∀ {j}, Loose pool m j → j ∉ S := fun hj hjS =>
    hj.absent _ (hm.mem_queue.mpr ⟨hjS, rfl⟩)
  obtain ⟨l', pool', hpush, -, -, hre⟩ := hrep.pushOrder_rep hlt hloose.live (habsent hloose)
    hloose.prevIdx hloose.nextIdx (UInt32.le_iff_toNat_le.mp hpos) (by rw [hi, hside])
  refine ⟨l', pool', hpush, fun j hji hj => ?_⟩
  have hslot : pool'.slot j = pool.slot j := hre.other j (not_or.mpr ⟨hji, habsent hj⟩)
  refine ⟨⟨hre.live.mpr hj.live, hslot ▸ hj.prevIdx, hslot ▸ hj.nextIdx, fun p hp => ?_⟩, hslot⟩
  rw [QueueMap.queue_push, List.mem_append] at hp
  rcases hp with hp | hp
  · exact hj.absent p hp
  · split at hp
    · exact hji (List.mem_singleton.mp hp)
    · exact List.not_mem_nil hp

end LadderRun

/-- After any calls the ladder shows the map, the next call of either kind succeeds,
and a removal does what it would do with a full scan. -/
theorem ladder_sorted_map {cfg : EngineConfig} (hc : cfg.Valid) (side : Side) :
    (∃ pool l, OrderPool.new cfg.poolCapacity = .ok pool ∧
      PriceLadder.new side cfg.anchorPrice cfg.bandRadius = .ok l) ∧
    ∀ pool l m, LadderRun cfg side pool l m → l.side = side ∧ ShowsMap pool l m ∧
      (∀ i, Loose pool m i → (pool.slot i).side = side → 1 ≤ (pool.slot i).remaining →
        ∃ l' pool', l.pushOrder pool i = .ok (l', pool')) ∧
      ∀ p, ∀ i ∈ m.queue p, ∃ l' pool', l.removeOrder pool i = .ok (l', pool') ∧
        l.removeOrderBy PriceLadder.scanBest pool i = .ok (l', pool') ∧
        pool'.Live i ∧ (pool'.slot i).Unlinked ∧
        (l.InBand p → l.bestOffset = l.offsetOf p → m.queue p = [i] → CursorMoved l l' m p) := by
  constructor
  · obtain ⟨pool, hpool, -⟩ := OrderPool.new_inv hc.capacity
    obtain ⟨l, hl, -⟩ := PriceLadder.new_rep hc side pool
    exact ⟨pool, l, hpool, hl⟩
  · intro pool l m hrun
    obtain ⟨hlt, hside, S, hrep, hm⟩ := hrun.rep hc
    refine ⟨hside, hrep.showsMap hm, fun i hloose hi hpos => ?_, fun p i hi => ?_⟩
    · obtain ⟨l', pool', hpush, -⟩ := hrun.push_loose hc hloose hi hpos
      exact ⟨l', pool', hpush⟩
    · obtain ⟨hiS, rfl⟩ := hm.mem_queue.mp hi
      obtain ⟨A, B, rfl⟩ := List.append_of_mem hiS
      obtain ⟨l', pool', hremove, hu, hrep', hre, hfree⟩ := hrep.removeOrder_rep
      exact ⟨l', pool', hremove, hrep.removeOrder_scan.trans hremove,
        hre.live.mpr (hrep.order i hiS).live, hfree, fun hb hbest hq =>
          hrep.cursorMoved hm hb hbest hq hu (funext hre.price) hrep'⟩

/-- A bid in the band, and a better one above the band that leaves again. -/
theorem ladder_sorted_map_small : ∃ pool l m l' pool', LadderRun ⟨100, 1, 2⟩ .kBuy pool l m ∧
    m.queue 100 = [0] ∧ m.queue 200 = [1] ∧ l.bestPrice = .ok 200 ∧
    l.removeOrder pool 1 = .ok (l', pool') ∧ LadderRun ⟨100, 1, 2⟩ .kBuy pool' l' (m.remove 200 1) ∧
    (m.remove 200 1).queue 200 = [] ∧ l'.bestPrice = .ok 100 := by
  have hc : (⟨100, 1, 2⟩ : EngineConfig).Valid := ⟨by decide, by decide, by decide, by decide⟩
  obtain ⟨⟨pool, l, hpool, hl⟩, hall⟩ := ladder_sorted_map hc .kBuy
  let o (p : PriceTicks) : Order := ⟨1, p, 5, 5, .kBuy, .kLimit, 0, kNullIdx, kNullIdx, kNullIdx, 1⟩
  have hsize : pool.slots.size = 2 := by
    obtain ⟨pool', hpool', -, hsize, -⟩ := OrderPool.new_inv hc.capacity
    obtain rfl := Except.ok.inj (hpool'.symm.trans hpool)
    exact hsize
  have hloose : ∀ i : UInt32, i = 0 ∨ i = 1 → Loose ⟨#[o 100, o 200], kNullIdx, 2⟩ .empty i := by
    rintro i (rfl | rfl) <;> exact ⟨⟨by decide, by decide⟩, rfl, rfl, by simp⟩
  have hrun₀ : LadderRun ⟨100, 1, 2⟩ .kBuy ⟨#[o 100, o 200], kNullIdx, 2⟩ l .empty :=
    .owner (.new hpool hl) hsize.symm (by simp)
  obtain ⟨l₁, pool₁, hpush₁, hkeep⟩ := hrun₀.push_loose hc (hloose 0 (.inl rfl)) rfl (by decide)
  have hrun₁ : LadderRun ⟨100, 1, 2⟩ .kBuy pool₁ l₁ (.push .empty 100 0) :=
    .push hrun₀ (hloose 0 (.inl rfl)) rfl (by decide) hpush₁
  obtain ⟨hloose₁, hslot⟩ := hkeep 1 (by decide) (hloose 1 (.inr rfl))
  have hslot : pool₁.slot 1 = o 200 := hslot
  obtain ⟨-, -, hpushes, -⟩ := hall _ _ _ hrun₁
  obtain ⟨l₂, pool₂, hpush₂⟩ := hpushes 1 hloose₁ (by rw [hslot]) (by rw [hslot]; decide)
  have hrun₂ := LadderRun.push hrun₁ hloose₁ (by rw [hslot]) (by rw [hslot]; decide) hpush₂
  rw [hslot] at hrun₂
  let m : PriceMap := .push (.push .empty 100 0) 200 1
  have hqueue : ∀ p, m.queue p = (if 100 = p then [0] else []) ++ if 200 = p then [1] else [] :=
    fun p => by
      rw [QueueMap.queue_push, QueueMap.queue_push, QueueMap.queue_empty, List.nil_append]
  have hremoved : ∀ p, (m.remove 200 1).queue p = if 100 = p then [0] else [] := fun p => by
    rw [QueueMap.queue_remove, hqueue]
    by_cases hp : 200 = p
    · rw [← hp]
      decide
    · rw [if_neg hp, if_neg hp, List.append_nil]
  obtain ⟨hside₂, hshows₂, -, hremoves⟩ := hall _ _ _ hrun₂
  obtain ⟨l₃, pool₃, hremove, -⟩ := hremoves 200 1 (show 1 ∈ m.queue 200 by rw [hqueue]; decide)
  have hrun₃ : LadderRun ⟨100, 1, 2⟩ .kBuy pool₃ l₃ (m.remove 200 1) :=
    .remove hrun₂ (show 1 ∈ m.queue 200 by rw [hqueue]; decide) hremove
  obtain ⟨hside₃, hshows₃, -⟩ := hall _ _ _ hrun₃
  refine ⟨pool₂, l₂, m, l₃, pool₃, hrun₂, by rw [hqueue]; decide, by rw [hqueue]; decide,
    (hshows₂.best 200 ?_).1, hremove, hrun₃, by rw [hremoved]; decide, (hshows₃.best 100 ?_).1⟩
  · rw [bestKey_some, hside₂]
    refine ⟨QueueMap.mem_entries.mpr (by rw [hqueue]; decide), fun q hq => ?_⟩
    have hne := QueueMap.mem_entries.mp hq
    rw [hqueue] at hne
    by_cases h₁ : 100 = q
    · rw [← h₁]
      decide
    · by_cases h₂ : 200 = q
      · rw [← h₂]
        decide
      · rw [if_neg h₁, if_neg h₂] at hne
        exact absurd rfl hne
  · rw [bestKey_some, hside₃]
    refine ⟨QueueMap.mem_entries.mpr (by rw [hremoved]; decide), fun q hq => ?_⟩
    have hne := QueueMap.mem_entries.mp hq
    rw [hremoved] at hne
    by_cases h₁ : 100 = q
    · rw [← h₁]
      decide
    · rw [if_neg h₁] at hne
      exact absurd rfl hne

end LimitOrderBook
