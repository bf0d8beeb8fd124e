import LimitOrderBook.LadderQueue

set_option autoImplicit false

namespace LimitOrderBook
open Checked IntrusiveList PriorityQueue

structure Order.Unlinked (o : Order) : Prop where
  prevIdx : o.prevIdx = kNullIdx
  nextIdx : o.nextIdx = kNullIdx
  levelIdx : o.levelIdx = kNullIdx

namespace PriceLevel

variable {pool : OrderPool} {level : PriceLevel} {L : List UInt32} {i : UInt32}

theorem setLevelIdx_rep (h : LevelRep pool level L) (hi : i.toNat < pool.slots.size) (x : Int32) :
    ∃ pool', pool.modify i (Order.setLevelIdx x) = .ok pool' ∧ LevelRep pool' level L ∧
      pool.Relinks pool' (fun j => j = i) ∧
      ∀ j, pool'.slot j = if j = i then (pool.slot i).setLevelIdx x else pool.slot j := by
  obtain ⟨pool', hrun, hre, hs⟩ := @OrderPool.Relinks.modify pool (fun j => j = i) i hi rfl
    (Order.setLevelIdx x) (fun o => ⟨_, _, _, rfl⟩)
  refine ⟨pool', hrun, h.congr hre.size (fun j _ => ?_) (fun j _ => ?_)
    (fun j _ => hre.remaining j), hre, hs⟩
  all_goals
    rw [hs]
    split
    · rename_i hj
      subst hj
      rfl
    · rfl

theorem pushBack_level (h : LevelRep pool level L) (hs : pool.slots.size < 2 ^ 31)
    (hi : i.toNat < pool.slots.size) (hiL : i ∉ L)
    (hprev : (pool.slot i).prevIdx = kNullIdx) (hnext : (pool.slot i).nextIdx = kNullIdx)
    (x : Int32) :
    ∃ level' pool₁ pool₂, level.pushBack pool i = .ok (level', pool₁) ∧
      pool₁.modify i (Order.setLevelIdx x) = .ok pool₂ ∧ LevelRep pool₂ level' (L ++ [i]) ∧
      pool.Relinks pool₂ (fun j => j = i ∨ j ∈ L) ∧
      ∀ j, (pool₂.slot j).levelIdx = if j = i then x else (pool.slot j).levelIdx := by
  obtain ⟨level', pool₁, hrun₁, hrep₁, hre₁, hidx₁⟩ := pushBack_rep h hs hi hiL hprev hnext
  obtain ⟨pool₂, hrun₂, hrep₂, hre₂, hs₂⟩ := setLevelIdx_rep hrep₁ (hre₁.size ▸ hi) x
  refine ⟨level', pool₁, pool₂, hrun₁, hrun₂, hrep₂, hre₁.trans (hre₂.mono fun _ e => .inl e),
    fun j => ?_⟩
  rw [hs₂]
  split
  · rfl
  · exact hidx₁ j

theorem unlink_level {A B : List UInt32} (h : LevelRep pool level (A ++ i :: B)) :
    ∃ level' pool₁ pool₂, level.unlink pool i = .ok (level', pool₁) ∧
      pool₁.modify i (Order.setLevelIdx kNullIdx) = .ok pool₂ ∧ LevelRep pool₂ level' (A ++ B) ∧
      pool.Relinks pool₂ (fun j => j ∈ A ++ i :: B) ∧
      (∀ j, j ≠ i → (pool₂.slot j).levelIdx = (pool.slot j).levelIdx) ∧
      (pool₂.slot i).Unlinked := by
  obtain ⟨level', pool₁, hrun₁, hrep₁, hre₁, hprev, hnext, hidx₁⟩ := unlink_rep h
  have hi : i.toNat < pool₁.slots.size := hre₁.size ▸ h.inRange i (by simp)
  obtain ⟨pool₂, hrun₂, hrep₂, hre₂, hs₂⟩ := setLevelIdx_rep hrep₁ hi kNullIdx
  refine ⟨level', pool₁, pool₂, hrun₁, hrun₂, hrep₂,
    hre₁.trans (hre₂.mono fun _ e => by simp [e]), fun j hj => ?_, ?_⟩
  · rw [hs₂, if_neg hj, hidx₁]
  · rw [hs₂, if_pos rfl]
    exact ⟨hprev, hnext, rfl⟩

end PriceLevel

namespace PriceLadder

/-- `remove_order` with its last step, the choice of the cursor, left open. -/
def removeOrderBy (settle : PriceLadder → PriceLevel → Int32 → Exec PriceLadder) (l : PriceLadder)
    (pool : OrderPool) (orderIdx : UInt32) : Exec (PriceLadder × OrderPool) := do
  let order ← pool.get orderIdx
  let offset := order.levelIdx
  assert (offset ≠ kNullIdx) "order not in a ladder level"
  if offset = kOverflowIdx then
    assert (order.priceTicks ∈ l.overflow) "it != overflow_.end()"
    let level := l.overflow.getD order.priceTicks {}
    let (level, pool) ← level.unlink pool orderIdx
    let pool ← pool.modify orderIdx (Order.setLevelIdx kNullIdx)
    let overflow :=
      if level.empty then l.overflow.erase order.priceTicks
      else l.overflow.insert order.priceTicks level
    pure ({ l with overflow }, pool)
  else
    let distance ← subI64 order.priceTicks l.lowPrice
    assert (offset = distance.toInt32) "offset == order.price_ticks - low_price_"
    let level ← l.bandLevel offset.toInt
    let (level, pool) ← level.unlink pool orderIdx
    let pool ← pool.modify orderIdx (Order.setLevelIdx kNullIdx)
    assert (0 < l.bandOrders) "band_orders_ > 0"
    let l ← settle { l with
      levels := l.setBandLevel offset.toInt level
      bandOrders := l.bandOrders - 1 } level offset
    pure (l, pool)

theorem removeOrder_eq (l : PriceLadder) (pool : OrderPool) (orderIdx : UInt32) :
    l.removeOrder pool orderIdx = l.removeOrderBy settleBest pool orderIdx := rfl

end PriceLadder

theorem atPrice_append (pool : OrderPool) (A B : List UInt32) (p : PriceTicks) :
    atPrice pool (A ++ B) p = atPrice pool A p ++ atPrice pool B p := List.filter_append A B

theorem atPrice_cons (pool : OrderPool) (i : UInt32) (B : List UInt32) (p : PriceTicks) :
    atPrice pool (i :: B) p =
      if pool.price i = p then i :: atPrice pool B p else atPrice pool B p := by
  simp [atPrice, List.filter_cons]

theorem sublist_remove (A B : List UInt32) (i : UInt32) : (A ++ B).Sublist (A ++ i :: B) :=
  List.Sublist.append_left (List.sublist_cons_self i B) A

theorem inBandSlots_append (pool : OrderPool) (l : PriceLadder) (A B : List UInt32) :
    inBandSlots pool l (A ++ B) = inBandSlots pool l A ++ inBandSlots pool l B :=
  List.filter_append A B

theorem inBandSlots_cons (pool : OrderPool) (l : PriceLadder) (i : UInt32) (B : List UInt32) :
    inBandSlots pool l (i :: B) =
      if l.InBand (pool.price i) then i :: inBandSlots pool l B else inBandSlots pool l B := by
  simp [inBandSlots, List.filter_cons]

variable {pool pool' : OrderPool} {l l' : PriceLadder} {S : List UInt32} {p : PriceTicks}
  {i : UInt32} {touched : UInt32 → Prop}

theorem RestsIn.congr (h : RestsIn pool l i) (hu : l.Updates l' p)
    (hre : pool.Relinks pool' touched)
    (hidx : (pool'.slot i).levelIdx = (pool.slot i).levelIdx) : RestsIn pool' l' i where
  live := hre.live.mpr h.live
  levelIdx := by rw [hidx, hre.price, hu.levelIdxOf, h.levelIdx]
  remaining_pos := by rw [hre.remaining]; exact h.remaining_pos
  side := by rw [hre.side, hu.side]; exact h.side

namespace LadderRep

theorem level_other (h : LadderRep pool l S) (hu : l.Updates l' p)
    (hre : pool.Relinks pool' touched) (ht : ∀ j ∈ S, touched j → pool.price j = p)
    {q : PriceTicks} (hq : q ≠ p) : LevelRep pool' (l'.level q) (atPrice pool S q) := by
  rw [hu.level q hq]
  refine (h.level q).congr_slots hre.size (fun j hj => hre.other j (fun htj => hq ?_))
  obtain ⟨hjS, hjq⟩ := mem_atPrice.mp hj
  rw [← hjq, ht j hjS htj]

/-- Enqueueing at price `p`, put together from what happened at `p`. -/
theorem pushed (h : LadderRep pool l S) (hu : l.Updates l' (pool.price i))
    (hre : pool.Relinks pool' (fun j => j = i ∨ j ∈ atPrice pool S (pool.price i)))
    (hidx : ∀ j, (pool'.slot j).levelIdx =
      if j = i then l.levelIdxOf (pool.price i) else (pool.slot j).levelIdx)
    (hlevel : LevelRep pool' (l'.level (pool.price i)) (atPrice pool S (pool.price i) ++ [i]))
    (hmap : pool.price i ∈ l'.overflow ↔ ¬ l.InBand (pool.price i))
    (hcount : l'.bandOrders.toNat =
      (inBandSlots pool l S).length + if l.InBand (pool.price i) then 1 else 0)
    (hbest : l'.bestOffset =
      l.cursor pool (inBandSlots pool l (enqueue l.side.Better pool.price i S)).head?)
    (hiS : i ∉ S) (hi : pool.Live i) (hpos : 1 ≤ (pool.slot i).remaining.toNat)
    (hside : (pool.slot i).side.isBuy = l.side.isBuy) :
    LadderRep pool' l' (enqueue l.side.Better pool.price i S) := by
  have hprice : ∀ j, pool'.price j = pool.price j := hre.price
  have hat : ∀ q, atPrice pool' (enqueue l.side.Better pool.price i S) q =
      atPrice pool S q ++ if pool.price i = q then [i] else [] := by
    intro q
    rw [atPrice_congr (fun j _ => hprice j)]
    exact h.sorted.filter_key_enqueue i q
  have hband : inBandSlots pool' l' (enqueue l.side.Better pool.price i S) =
      inBandSlots pool l (enqueue l.side.Better pool.price i S) :=
    inBandSlots_congr (fun j _ => hprice j) (fun _ => hu.inBand)
  have hpool : pool'.price = pool.price := funext hprice
  refine ⟨hu.geometry h.geometry, ?_, fun q => ?_, fun q => ?_, ?_, ?_, fun j hj => ?_⟩
  · rw [hu.side, hpool]
    exact h.sorted.enqueue i
  · rw [hat]
    by_cases hq : q = pool.price i
    · rw [hq, if_pos rfl]
      exact hlevel
    · rw [if_neg (Ne.symm hq), List.append_nil]
      refine h.level_other hu hre (fun j hjS hj => ?_) hq
      rcases hj with rfl | hj
      · exact absurd hjS hiS
      · exact (mem_atPrice.mp hj).2
  · rw [hu.inBand]
    simp only [mem_enqueue, hprice]
    by_cases hq : q = pool.price i
    · rw [hq, hmap]
      exact ⟨fun hb => ⟨hb, i, .inl rfl, rfl⟩, fun hb => hb.1⟩
    · rw [hu.overflow q hq, h.overflow q]
      refine and_congr_right fun _ => ⟨fun ⟨j, hj, e⟩ => ⟨j, .inr hj, e⟩, ?_⟩
      rintro ⟨j, rfl | hj, e⟩
      · exact absurd e.symm hq
      · exact ⟨j, hj, e⟩
  · have hperm := (@enqueue_perm _ _ l.side.Better _ pool.price i S).filter
      (fun j => decide (l.InBand (pool.price j)))
    rw [hband, hcount, inBandSlots, inBandSlots, hperm.length_eq, List.filter_cons]
    split <;> simp_all
  · rw [hband, hbest]
    cases (inBandSlots pool l (enqueue l.side.Better pool.price i S)).head? with
    | none => rfl
    | some j => simp only [PriceLadder.cursor, hu.offsetOf, hprice]
  · rcases mem_enqueue.mp hj with rfl | hj
    · refine ⟨hre.live.mpr hi, ?_, ?_, ?_⟩
      · rw [hidx, if_pos rfl, hprice, hu.levelIdxOf]
      · rwa [hre.remaining]
      · rwa [hre.side, hu.side]
    · have hne : j ≠ i := fun e => hiS (e ▸ hj)
      exact (h.order j hj).congr hu hre (by rw [hidx, if_neg hne])

/-- Taking `i` out of the queue, put together from what happened at its price. -/
theorem removed {A B : List UInt32} (h : LadderRep pool l (A ++ i :: B))
    (hu : l.Updates l' (pool.price i))
    (hre : pool.Relinks pool' (fun j => j ∈ atPrice pool (A ++ i :: B) (pool.price i)))
    (hidx : ∀ j, j ≠ i → (pool'.slot j).levelIdx = (pool.slot j).levelIdx)
    (hlevel : LevelRep pool' (l'.level (pool.price i)) (atPrice pool (A ++ B) (pool.price i)))
    (hmap : pool.price i ∈ l'.overflow ↔
      ¬ l.InBand (pool.price i) ∧ atPrice pool (A ++ B) (pool.price i) ≠ [])
    (hcount : l'.bandOrders.toNat = (inBandSlots pool l (A ++ B)).length)
    (hbest : l'.bestOffset = l.cursor pool (inBandSlots pool l (A ++ B)).head?) :
    LadderRep pool' l' (A ++ B) := by
  have hprice : ∀ j, pool'.price j = pool.price j := hre.price
  have hpool : pool'.price = pool.price := funext hprice
  have hsub := sublist_remove A B i
  have hdup := h.nodup
  refine ⟨hu.geometry h.geometry, ?_, fun q => ?_, fun q => ?_, ?_, ?_, fun j hj => ?_⟩
  · rw [hu.side, hpool]
    exact h.sorted.sublist hsub
  · rw [atPrice_congr (fun j _ => hprice j)]
    by_cases hq : q = pool.price i
    · rw [hq]
      exact hlevel
    · have hat := h.level_other hu hre (fun j _ hj => (mem_atPrice.mp hj).2) hq
      rwa [atPrice_append, atPrice_cons, if_neg (Ne.symm hq), ← atPrice_append] at hat
  · rw [hu.inBand]
    simp only [hprice]
    by_cases hq : q = pool.price i
    · rw [hq, hmap, ne_eq, List.eq_nil_iff_forall_not_mem]
      simp only [mem_atPrice]
      push Not
      rfl
    · rw [hu.overflow q hq, h.overflow q]
      refine and_congr_right fun _ => ⟨fun ⟨j, hj, e⟩ => ⟨j, ?_, e⟩, fun ⟨j, hj, e⟩ =>
        ⟨j, hsub.subset hj, e⟩⟩
      have hne : j ≠ i := fun e' => hq (by rw [← e, e'])
      simp only [List.mem_append, List.mem_cons] at hj ⊢
      tauto
  · rw [inBandSlots_congr (fun j _ => hprice j) (fun _ => hu.inBand), hcount]
  · rw [inBandSlots_congr (fun j _ => hprice j) (fun _ => hu.inBand), hbest]
    cases (inBandSlots pool l (A ++ B)).head? with
    | none => rfl
    | some j => simp only [PriceLadder.cursor, hu.offsetOf, hprice]
  · have hne : j ≠ i := by
      rintro rfl
      have hmid := (List.nodup_middle.mp hdup)
      exact (List.nodup_cons.mp hmid).1 hj
    exact (h.order j (hsub.subset hj)).congr hu hre (hidx j hne)

theorem cursor_enqueue (h : LadderRep pool l S) (hb : l.InBand (pool.price i)) :
    (if l.bestOffset = kNullIdx ∨ l.isBetter (l.offsetOf (pool.price i)) l.bestOffset then
        l.offsetOf (pool.price i) else l.bestOffset) =
      l.cursor pool (inBandSlots pool l (enqueue l.side.Better pool.price i S)).head? := by
  have henq : inBandSlots pool l (enqueue l.side.Better pool.price i S) =
      enqueue l.side.Better pool.price i (inBandSlots pool l S) := by
    rw [inBandSlots, h.sorted.filter_enqueue, if_pos (by simpa using hb), inBandSlots]
  rw [henq, enqueue_head?]
  cases hB : inBandSlots pool l S with
  | nil =>
    rw [if_pos (.inl (h.best_eq_null.mpr hB))]
    rfl
  | cons b B =>
    have hmem : b ∈ inBandSlots pool l S := by simp [hB]
    have hbb := (mem_inBandSlots.mp hmem).2
    have hnull := h.best_ne_null hB
    have hbest : l.bestOffset = l.offsetOf (pool.price b) := by
      rw [h.best, hB]
      rfl
    simp only [List.head?_cons, Option.elim_some, hnull, false_or, PriceLadder.cursor]
    rw [hbest]
    simp only [PriceLadder.isBetter_iff h.geometry hb hbb]
    split <;> rfl

theorem pushOrder_rep (h : LadderRep pool l S) (hs : pool.slots.size < 2 ^ 31) (hi : pool.Live i)
    (hiS : i ∉ S) (hprev : (pool.slot i).prevIdx = kNullIdx)
    (hnext : (pool.slot i).nextIdx = kNullIdx) (hpos : 1 ≤ (pool.slot i).remaining.toNat)
    (hside : (pool.slot i).side.isBuy = l.side.isBuy) :
    ∃ l' pool', l.pushOrder pool i = .ok (l', pool') ∧ l.Updates l' (pool.price i) ∧
      LadderRep pool' l' (enqueue l.side.Better pool.price i S) ∧
      pool.Relinks pool' (fun j => j = i ∨ j ∈ S) := by
  have hiL : i ∉ atPrice pool S (pool.price i) := fun hm => hiS (mem_atPrice.mp hm).1
  obtain ⟨level', pool₁, pool₂, hpush, hmod, hrep, hre, hidx⟩ :=
    PriceLevel.pushBack_level (h.level (pool.price i)) hs hi.1 hiL hprev hnext
      (l.levelIdxOf (pool.price i))
  have hre' : pool.Relinks pool₂ (fun j => j = i ∨ j ∈ S) :=
    hre.mono (fun j hj => hj.imp_right (fun hm => (mem_atPrice.mp hm).1))
  have hslot : (pool.slot i).priceTicks = pool.price i := rfl
  by_cases hb : l.InBand (pool.price i)
  · obtain ⟨d, hd, _, hoff⟩ := PriceLadder.distance_ok h.geometry hb
    have hlen : (inBandSlots pool l S).length + 1 < 2 ^ 32 := by
      have h₁ : (inBandSlots pool l S).length ≤ S.length := List.length_filter_le _ _
      have h₂ := h.length_le
      omega
    rw [PriceLadder.levelIdxOf, if_pos hb] at hmod
    obtain ⟨hu, hlev⟩ := PriceLadder.updates_setBandLevel h.geometry hb level'
      (if l.bestOffset = kNullIdx ∨ l.isBetter (l.offsetOf (pool.price i)) l.bestOffset then
        l.offsetOf (pool.price i) else l.bestOffset) (l.bandOrders + 1)
    refine ⟨_, pool₂, ?_, hu, ?_, hre'⟩
    · simp only [PriceLadder.pushOrder, OrderPool.get_ok hi.1, ok_bind, hslot,
        PriceLadder.inBand_ok h.geometry, hb, decide_true, Bool.not_true, Bool.false_eq_true,
        if_false, hd, hoff, PriceLadder.offsetOf_toInt h.geometry hb, PriceLadder.bandLevel_ok hb,
        hpush, hmod, pure_eq_ok]
    · refine h.pushed hu hre hidx (by rw [hlev]; exact hrep) ?_ ?_ (h.cursor_enqueue hb) hiS hi
        hpos hside
      · exact h.overflow (pool.price i) |>.trans ⟨fun e => e.1, fun e => absurd hb e⟩
      · rw [if_pos hb, UInt32.toNat_add, h.bandOrders, UInt32.toNat_one]
        exact Nat.mod_eq_of_lt hlen
  · have henq : inBandSlots pool l (enqueue l.side.Better pool.price i S) =
        inBandSlots pool l S := by
      rw [inBandSlots, h.sorted.filter_enqueue, if_neg (by simpa using hb), inBandSlots]
    have hget : l.overflow.getD (pool.price i) {} = l.level (pool.price i) := by
      rw [PriceLadder.level, if_neg hb]
    rw [PriceLadder.levelIdxOf, if_neg hb] at hmod
    obtain ⟨hu, hlev⟩ := PriceLadder.updates_insert hb level'
    refine ⟨_, pool₂, ?_, hu, ?_, hre'⟩
    · simp only [PriceLadder.pushOrder, OrderPool.get_ok hi.1, ok_bind, hslot,
        PriceLadder.inBand_ok h.geometry, hb, decide_false, Bool.not_false, if_true, hget,
        hpush, hmod, pure_eq_ok]
    · refine h.pushed hu hre hidx (by rw [hlev]; exact hrep) ?_ ?_ ?_ hiS hi hpos hside
      · simp [hb]
      · rw [if_neg hb]
        exact h.bandOrders
      · rw [henq]
        exact h.best

theorem bestOffset_eq (h : LadderRep pool l S) {b : UInt32} {K : List UInt32}
    (hK : inBandSlots pool l S = b :: K) : l.bestOffset = l.offsetOf (pool.price b) := by
  rw [h.best, hK]
  rfl

/-- The cursor need not move while its price, or another one, is still occupied. -/
theorem cursor_stays {A B : List UInt32} (h : LadderRep pool l (A ++ i :: B))
    (hb : l.InBand (pool.price i))
    (hstay : atPrice pool (A ++ B) (pool.price i) ≠ [] ∨ l.offsetOf (pool.price i) ≠ l.bestOffset) :
    l.bestOffset = l.cursor pool (inBandSlots pool l (A ++ B)).head? := by
  have hi : i ∈ inBandSlots pool l (A ++ i :: B) := mem_inBandSlots.mpr ⟨by simp, hb⟩
  obtain ⟨b, K, hK⟩ := List.exists_cons_of_ne_nil (List.ne_nil_of_mem hi)
  have hbest := h.bestOffset_eq hK
  have hbmem : b ∈ inBandSlots pool l (A ++ i :: B) := by simp [hK]
  obtain ⟨hbS, hbb⟩ := mem_inBandSlots.mp hbmem
  have hw : ∃ w ∈ A ++ B, pool.price w = pool.price b := by
    by_cases hp : pool.price b = pool.price i
    · rcases hstay with hne | hne
      · obtain ⟨w, hw⟩ := List.exists_mem_of_ne_nil _ hne
        exact ⟨w, (mem_atPrice.mp hw).1, (mem_atPrice.mp hw).2.trans hp.symm⟩
      · exact absurd (by rw [hbest, hp]) hne
    · have hbi : b ≠ i := fun e => hp (by rw [e])
      refine ⟨b, ?_, rfl⟩
      simp only [List.mem_append, List.mem_cons] at hbS ⊢
      tauto
  obtain ⟨w, hwS, hwp⟩ := hw
  have hwb : w ∈ inBandSlots pool l (A ++ B) := mem_inBandSlots.mpr ⟨hwS, by rwa [hwp]⟩
  obtain ⟨k, K', hK'⟩ := List.exists_cons_of_ne_nil (List.ne_nil_of_mem hwb)
  have hkmem : k ∈ inBandSlots pool l (A ++ B) := by simp [hK']
  obtain ⟨hkS, hkb⟩ := mem_inBandSlots.mp hkmem
  have h₁ := band_best (h.sorted.sublist (sublist_remove A B i)) hK' hwS (by rwa [hwp])
  have h₂ := band_best h.sorted hK ((sublist_remove A B i).subset hkS) hkb
  rw [hwp] at h₁
  have heq : pool.price b = pool.price k := by
    rcases trichotomous_of l.side.Better (pool.price b) (pool.price k) with hlt | heq | hgt
    · exact absurd hlt h₁
    · exact heq
    · exact absurd hgt h₂
  rw [hK', hbest, heq]
  rfl

theorem next_best {A B : List UInt32} (h : LadderRep pool l (A ++ i :: B))
    (hb : l.InBand (pool.price i)) (hgone : atPrice pool (A ++ B) (pool.price i) = [])
    (hbest : l.offsetOf (pool.price i) = l.bestOffset) {k : UInt32} (hk : k ∈ A ++ B)
    (hkb : l.InBand (pool.price k)) : l.side.Better (pool.price i) (pool.price k) := by
  have hi : i ∈ inBandSlots pool l (A ++ i :: B) := mem_inBandSlots.mpr ⟨by simp, hb⟩
  obtain ⟨b, K, hK⟩ := List.exists_cons_of_ne_nil (List.ne_nil_of_mem hi)
  have hbmem : b ∈ inBandSlots pool l (A ++ i :: B) := by simp [hK]
  have hbi : pool.price i = pool.price b :=
    PriceLadder.offsetOf_inj h.geometry hb (mem_inBandSlots.mp hbmem).2
      (hbest.trans (h.bestOffset_eq hK))
  have hnot := band_best h.sorted hK ((sublist_remove A B i).subset hk) hkb
  rw [← hbi] at hnot
  rcases trichotomous_of l.side.Better (pool.price i) (pool.price k) with hlt | heq | hgt
  · exact hlt
  · have hmem : k ∈ atPrice pool (A ++ B) (pool.price i) := mem_atPrice.mpr ⟨hk, heq.symm⟩
    rw [hgone] at hmem
    cases hmem
  · exact absurd hgt hnot

/-- The cursor after an order of the band left the queue. -/
theorem settleBest_ok {A B : List UInt32} (h : LadderRep pool l (A ++ i :: B))
    (hb : l.InBand (pool.price i)) (level' : PriceLevel) {bandOrders : UInt32}
    (hcount : bandOrders.toNat = (inBandSlots pool l (A ++ B)).length)
    (hempty : level'.empty = true ↔ atPrice pool (A ++ B) (pool.price i) = []) :
    ({ l with levels := l.setBandLevel (l.offsetOf (pool.price i)).toInt level',
              bandOrders } : PriceLadder).settleBest level' (l.offsetOf (pool.price i)) =
      .ok { l with
        levels := l.setBandLevel (l.offsetOf (pool.price i)).toInt level'
        bestOffset := l.cursor pool (inBandSlots pool l (A ++ B)).head?, bandOrders } := by
  obtain ⟨hu, hlev⟩ := PriceLadder.updates_setBandLevel h.geometry hb level' l.bestOffset bandOrders
  by_cases hE : level'.empty ∧ l.offsetOf (pool.price i) = l.bestOffset
  · have hgone := hempty.mp hE.1
    rw [PriceLadder.settleBest, if_pos hE]
    cases hK : inBandSlots pool l (A ++ B) with
    | nil =>
      have hz : bandOrders = 0 := UInt32.toNat_inj.mp (by rw [hcount, hK]; rfl)
      rw [if_pos hz]
      rfl
    | cons k K =>
      have hpos : 0 < bandOrders := by
        rw [UInt32.lt_iff_toNat_lt, hcount, hK, UInt32.toNat_zero, List.length_cons]
        omega
      have hz : bandOrders ≠ 0 := by
        rintro rfl
        exact absurd hpos (by decide)
      rw [if_neg hz]
      have hkmem : k ∈ inBandSlots pool l (A ++ B) := by simp [hK]
      obtain ⟨hkS, hkb⟩ := mem_inBandSlots.mp hkmem
      have hbetter := h.next_best hb hgone hE.2 hkS hkb
      have hmem_other : ∀ {r}, r ≠ pool.price i → ∀ j, j ∈ atPrice pool (A ++ i :: B) r →
          j ∈ A ++ B := by
        intro r hr j hj
        obtain ⟨hjS, hjr⟩ := mem_atPrice.mp hj
        have hji : j ≠ i := fun e => hr (by rw [← hjr, e])
        simp only [List.mem_append, List.mem_cons] at hjS ⊢
        tauto
      refine PriceLadder.advanceBest_ok (hu.geometry h.geometry) hpos (hu.inBand.mpr hb)
        (hu.inBand.mpr hkb) hE.2.symm hbetter ?_ (fun r hr hpr hrk => ?_)
      · have hne : pool.price k ≠ pool.price i := by
          intro e
          rw [e] at hbetter
          exact irrefl_of _ _ hbetter
        rw [hu.level _ hne, (h.level _).empty_iff]
        exact List.ne_nil_of_mem (mem_atPrice.mpr ⟨(sublist_remove A B i).subset hkS, rfl⟩)
      · have hne : r ≠ pool.price i := by
          rintro rfl
          exact irrefl_of _ _ hpr
        rw [hu.level _ hne, (h.level _).empty_iff]
        refine List.eq_nil_iff_forall_not_mem.mpr (fun j hj => ?_)
        have hjS := hmem_other hne j hj
        obtain ⟨_, rfl⟩ := mem_atPrice.mp hj
        exact band_best (h.sorted.sublist (sublist_remove A B i)) hK hjS (hu.inBand.mp hr) hrk
  · have hstay : atPrice pool (A ++ B) (pool.price i) ≠ [] ∨
        l.offsetOf (pool.price i) ≠ l.bestOffset := by
      rw [← not_and_or, ← hempty]
      exact hE
    rw [PriceLadder.settleBest, ← h.cursor_stays hb hstay]
    exact if_neg hE

theorem bandOrders_pred {A B : List UInt32} (h : LadderRep pool l (A ++ i :: B))
    (hb : l.InBand (pool.price i)) :
    0 < l.bandOrders ∧ (l.bandOrders - 1).toNat = (inBandSlots pool l (A ++ B)).length := by
  have hlen : (inBandSlots pool l (A ++ i :: B)).length =
      (inBandSlots pool l (A ++ B)).length + 1 := by
    rw [inBandSlots_append, inBandSlots_cons, if_pos hb, inBandSlots_append]
    simp only [List.length_append, List.length_cons]
    omega
  have hcount := h.bandOrders
  have hne : l.bandOrders ≠ 0 := toNat_pos.mp (by omega)
  refine ⟨UInt32.pos_iff_ne_zero.mpr hne, ?_⟩
  rw [UInt32.toNat_sub_of_le _ _ (one_le_iff.mpr hne), UInt32.toNat_one]
  omega

theorem unlink_slot {A B : List UInt32} (h : LadderRep pool l (A ++ i :: B)) :
    ∃ level' pool₁ pool', (l.level (pool.price i)).unlink pool i = .ok (level', pool₁) ∧
      pool₁.modify i (Order.setLevelIdx kNullIdx) = .ok pool' ∧
      LevelRep pool' level' (atPrice pool (A ++ B) (pool.price i)) ∧
      pool.Relinks pool' (fun j => j ∈ atPrice pool (A ++ i :: B) (pool.price i)) ∧
      (∀ j, j ≠ i → (pool'.slot j).levelIdx = (pool.slot j).levelIdx) ∧
      (pool'.slot i).Unlinked := by
  have hlevel := h.level (pool.price i)
  have hat : atPrice pool (A ++ i :: B) (pool.price i) =
      atPrice pool A (pool.price i) ++ i :: atPrice pool B (pool.price i) := by
    rw [atPrice_append, atPrice_cons, if_pos rfl]
  rw [hat] at hlevel
  rw [hat, atPrice_append]
  exact PriceLevel.unlink_level hlevel

theorem removeOrderBy_band {A B : List UInt32} (h : LadderRep pool l (A ++ i :: B))
    (hb : l.InBand (pool.price i)) :
    ∃ level' pool', (∀ settle, l.removeOrderBy settle pool i = do
        let l ← settle { l with
          levels := l.setBandLevel (l.offsetOf (pool.price i)).toInt level'
          bandOrders := l.bandOrders - 1 } level' (l.offsetOf (pool.price i))
        pure (l, pool')) ∧
      LevelRep pool' level' (atPrice pool (A ++ B) (pool.price i)) ∧
      pool.Relinks pool' (fun j => j ∈ atPrice pool (A ++ i :: B) (pool.price i)) ∧
      (∀ j, j ≠ i → (pool'.slot j).levelIdx = (pool.slot j).levelIdx) ∧
      (pool'.slot i).Unlinked := by
  have hiS : i ∈ A ++ i :: B := by simp
  have hslot : (pool.slot i).priceTicks = pool.price i := rfl
  have hlidx := (h.order i hiS).levelIdx
  obtain ⟨level', pool₁, pool', hun, hmod, hrep⟩ := h.unlink_slot
  obtain ⟨d, hd, _, hoff⟩ := PriceLadder.distance_ok h.geometry hb
  obtain ⟨hnull, hover⟩ := PriceLadder.offsetOf_ne h.geometry hb
  rw [PriceLadder.levelIdxOf, if_pos hb] at hlidx
  refine ⟨level', pool', fun settle => ?_, hrep⟩
  simp only [PriceLadder.removeOrderBy, OrderPool.get_ok (h.inRange hiS), ok_bind, hslot, hlidx,
    assert_pos hnull, if_neg hover, hd, hoff, assert_pos,
    PriceLadder.offsetOf_toInt h.geometry hb, PriceLadder.bandLevel_ok hb, hun, hmod,
    (h.bandOrders_pred hb).1]

theorem removeOrderBy_overflow {A B : List UInt32} (h : LadderRep pool l (A ++ i :: B))
    (hb : ¬ l.InBand (pool.price i)) :
    ∃ level' pool', (∀ settle, l.removeOrderBy settle pool i = .ok ({ l with
        overflow := if level'.empty then l.overflow.erase (pool.price i)
          else l.overflow.insert (pool.price i) level' }, pool')) ∧
      LevelRep pool' level' (atPrice pool (A ++ B) (pool.price i)) ∧
      pool.Relinks pool' (fun j => j ∈ atPrice pool (A ++ i :: B) (pool.price i)) ∧
      (∀ j, j ≠ i → (pool'.slot j).levelIdx = (pool.slot j).levelIdx) ∧
      (pool'.slot i).Unlinked := by
  have hiS : i ∈ A ++ i :: B := by simp
  have hslot : (pool.slot i).priceTicks = pool.price i := rfl
  have hlidx := (h.order i hiS).levelIdx
  obtain ⟨level', pool₁, pool', hun, hmod, hrep⟩ := h.unlink_slot
  have hmem : pool.price i ∈ l.overflow := (h.overflow _).mpr ⟨hb, i, hiS, rfl⟩
  have hget : l.overflow.getD (pool.price i) {} = l.level (pool.price i) := by
    rw [PriceLadder.level, if_neg hb]
  have hnull : kOverflowIdx ≠ kNullIdx := by decide
  rw [PriceLadder.levelIdxOf, if_neg hb] at hlidx
  refine ⟨level', pool', fun settle => ?_, hrep⟩
  simp only [PriceLadder.removeOrderBy, OrderPool.get_ok (h.inRange hiS), ok_bind, hslot, hlidx,
    assert_pos hnull, if_true, assert_pos hmem, hget, hun, hmod, pure_eq_ok]

theorem removeOrder_rep {A B : List UInt32} (h : LadderRep pool l (A ++ i :: B)) :
    ∃ l' pool', l.removeOrder pool i = .ok (l', pool') ∧ l.Updates l' (pool.price i) ∧
      LadderRep pool' l' (A ++ B) ∧ pool.Relinks pool' (fun j => j ∈ A ++ i :: B) ∧
      (pool'.slot i).Unlinked := by
  rw [PriceLadder.removeOrder_eq]
  by_cases hb : l.InBand (pool.price i)
  · obtain ⟨level', pool', hrun, hrep, hre, hidx, hfree⟩ := h.removeOrderBy_band hb
    have hempty := hrep.empty_iff
    obtain ⟨_, hdec⟩ := h.bandOrders_pred hb
    have hmap : pool.price i ∈ l.overflow ↔
        ¬ l.InBand (pool.price i) ∧ atPrice pool (A ++ B) (pool.price i) ≠ [] :=
      ⟨fun e => absurd hb ((h.overflow _).mp e).1, fun e => absurd hb e.1⟩
    obtain ⟨hu, hlev⟩ := PriceLadder.updates_setBandLevel h.geometry hb level'
      (l.cursor pool (inBandSlots pool l (A ++ B)).head?) (l.bandOrders - 1)
    refine ⟨_, pool', ?_, hu, h.removed hu hre hidx (by rw [hlev]; exact hrep) hmap hdec rfl,
      hre.mono (fun j hj => (mem_atPrice.mp hj).1), hfree⟩
    rw [hrun, h.settleBest_ok hb level' hdec hempty, ok_bind, pure_eq_ok]
  · obtain ⟨level', pool', hrun, hrep, hre, hidx, hfree⟩ := h.removeOrderBy_overflow hb
    have hempty := hrep.empty_iff
    have hre' : pool.Relinks pool' (fun j => j ∈ A ++ i :: B) :=
      hre.mono (fun j hj => (mem_atPrice.mp hj).1)
    have hband : inBandSlots pool l (A ++ B) = inBandSlots pool l (A ++ i :: B) := by
      rw [inBandSlots_append, inBandSlots_append, inBandSlots_cons, if_neg hb]
    have hcount := hband ▸ h.bandOrders
    have hbest := hband ▸ h.best
    rw [hrun]
    by_cases hE : level'.empty
    · obtain ⟨hu, hlev⟩ := PriceLadder.updates_erase hb
      rw [hempty.mp hE] at hrep
      refine ⟨_, pool', rfl, by simpa only [if_pos hE] using hu, ?_, hre', hfree⟩
      simp only [if_pos hE]
      refine h.removed hu hre hidx ?_ ?_ hcount hbest
      · rw [hlev, hempty.mp hE]
        exact LevelRep.nil _
      · simp [hempty.mp hE]
    · obtain ⟨hu, hlev⟩ := PriceLadder.updates_insert hb level'
      refine ⟨_, pool', rfl, by simpa only [if_neg hE] using hu, ?_, hre', hfree⟩
      simp only [if_neg hE]
      refine h.removed hu hre hidx (by rw [hlev]; exact hrep) ?_ hcount hbest
      simpa [hb] using mt hempty.mpr hE

theorem levelAt_ok (h : LadderRep pool l S) (hi : i ∈ S) :
    ∃ ref, l.levelAt (pool.price i) = .ok ref ∧ l.load ref = .ok (l.level (pool.price i)) ∧
      ∀ level, l.Updates (l.store ref level) (pool.price i) ∧
        (l.store ref level).level (pool.price i) = level ∧
        (pool.price i ∈ (l.store ref level).overflow ↔ pool.price i ∈ l.overflow) ∧
        (l.store ref level).bandOrders = l.bandOrders ∧
        (l.store ref level).bestOffset = l.bestOffset := by
  by_cases hb : l.InBand (pool.price i)
  · obtain ⟨d, hd, hdi, _⟩ := PriceLadder.distance_ok h.geometry hb
    have hoff := PriceLadder.offsetOf_toInt h.geometry hb
    refine ⟨.band d.toInt, ?_, ?_, fun level => ?_⟩
    · simp [PriceLadder.levelAt, PriceLadder.inBand_ok h.geometry, hb, hd]
    · rw [PriceLadder.load, hdi, PriceLadder.bandLevel_ok hb]
    · obtain ⟨hu, hlev⟩ := PriceLadder.updates_setBandLevel h.geometry hb level l.bestOffset
        l.bandOrders
      rw [hdi, ← hoff]
      exact ⟨hu, hlev, Iff.rfl, rfl, rfl⟩
  · have hmem : pool.price i ∈ l.overflow := (h.overflow _).mpr ⟨hb, i, hi, rfl⟩
    refine ⟨.overflow (pool.price i), ?_, ?_, fun level => ?_⟩
    · simp [PriceLadder.levelAt, PriceLadder.inBand_ok h.geometry, hb, assert_pos hmem]
    · rw [PriceLadder.load, PriceLadder.level, if_neg hb, pure_eq_ok]
    · obtain ⟨hu, hlev⟩ := PriceLadder.updates_insert hb level
      exact ⟨hu, hlev, by simp [PriceLadder.store, hmem], rfl, rfl⟩

theorem findLevel_ok (h : LadderRep pool l S) (p : PriceTicks) :
    ∃ r, l.findLevel p = .ok r ∧ r.getD {} = l.level p := by
  by_cases hb : l.InBand p
  · obtain ⟨d, hd, hdi, _⟩ := PriceLadder.distance_ok h.geometry hb
    refine ⟨some (l.level p), ?_, rfl⟩
    simp [PriceLadder.findLevel, PriceLadder.inBand_ok h.geometry, hb, hd, hdi,
      PriceLadder.bandLevel_ok hb]
  · refine ⟨l.overflow[p]?, ?_, ?_⟩
    · simp [PriceLadder.findLevel, PriceLadder.inBand_ok h.geometry, hb]
    · rw [PriceLadder.level, if_neg hb, Std.ExtTreeMap.getD_eq_getD_getElem?]

end LadderRep

/-! A partial fill debits one order and the aggregate of its level by hand. -/

theorem openQty_debit {L : List UInt32} {fill : Nat} (hd : L.Nodup) (hi : i ∈ L)
    (hrem : (pool'.slot i).remaining.toNat + fill = (pool.slot i).remaining.toNat)
    (hs : ∀ j ∈ L, j ≠ i → pool'.slot j = pool.slot j) :
    openQty pool' L + fill = openQty pool L := by
  induction L with
  | nil => cases hi
  | cons j L ih =>
    obtain ⟨hj, hL⟩ := List.nodup_cons.mp hd
    rw [openQty_cons, openQty_cons]
    rcases List.mem_cons.mp hi with rfl | hi
    · have hrest : openQty pool' L = openQty pool L :=
        openQty_congr (fun k hk => by rw [hs k (by simp [hk]) (fun e => hj (e ▸ hk))])
      omega
    · have hne : j ≠ i := fun e => hj (e ▸ hi)
      have := ih hL hi (fun k hk => hs k (by simp [hk]))
      rw [hs j (by simp) hne]
      omega

theorem LevelRep.debit {level : PriceLevel} {L : List UInt32} {fill : UInt32}
    (h : LevelRep pool level L) (hi : i ∈ L) (hsize : pool'.slots.size = pool.slots.size)
    (hs : ∀ j, j ≠ i → pool'.slot j = pool.slot j)
    (hnext : (pool'.slot i).nextIdx = (pool.slot i).nextIdx)
    (hprev : (pool'.slot i).prevIdx = (pool.slot i).prevIdx)
    (hrem : (pool'.slot i).remaining.toNat + fill.toNat = (pool.slot i).remaining.toNat) :
    LevelRep pool' { level with totalQty := level.totalQty - fill.toUInt64 } L where
  list := by
    refine h.list.congr (fun j hj => ?_) (fun j hj => ?_)
    all_goals
      by_cases hji : j = i
      · simp only [hji, OrderPool.next, OrderPool.prev, hnext, hprev]
      · simp only [OrderPool.next, OrderPool.prev, hs j hji]
  inRange j hj := hsize ▸ h.inRange j hj
  count := h.count
  qty := by
    have hsum := openQty_debit h.nodup hi hrem (fun j _ => hs j)
    have hle : fill.toUInt64 ≤ level.totalQty := by
      rw [UInt64.le_iff_toNat_le, UInt32.toNat_toUInt64, h.qty]
      omega
    rw [UInt64.toNat_sub_of_le _ _ hle, h.qty, UInt32.toNat_toUInt64]
    omega

namespace LadderRep

/-- A partial fill leaves the queue as it is. -/
theorem debit {fill : UInt32} (h : LadderRep pool l S) (hi : i ∈ S)
    (hsize : pool'.slots.size = pool.slots.size) (hs : ∀ j, j ≠ i → pool'.slot j = pool.slot j)
    (hslot : ∃ left, pool'.slot i = { pool.slot i with remaining := left } ∧ 1 ≤ left.toNat ∧
      left.toNat + fill.toNat = (pool.slot i).remaining.toNat)
    (hu : l.Updates l' (pool.price i))
    (hlev : l'.level (pool.price i) = { l.level (pool.price i) with
      totalQty := (l.level (pool.price i)).totalQty - fill.toUInt64 })
    (hmap : pool.price i ∈ l'.overflow ↔ pool.price i ∈ l.overflow)
    (hcount : l'.bandOrders = l.bandOrders) (hbest : l'.bestOffset = l.bestOffset) :
    LadderRep pool' l' S := by
  obtain ⟨left, hslot, hleft, hsum⟩ := hslot
  have hprice : ∀ j, pool'.price j = pool.price j := by
    intro j
    by_cases hji : j = i
    · rw [OrderPool.price, hji, hslot, OrderPool.price]
    · rw [OrderPool.price, OrderPool.price, hs j hji]
  have hpool : pool'.price = pool.price := funext hprice
  have hiL : i ∈ atPrice pool S (pool.price i) := mem_atPrice.mpr ⟨hi, rfl⟩
  refine ⟨hu.geometry h.geometry, ?_, fun q => ?_, fun q => ?_, ?_, ?_, fun j hj => ?_⟩
  · rw [hu.side, hpool]
    exact h.sorted
  · rw [atPrice_congr (fun j _ => hprice j)]
    by_cases hq : q = pool.price i
    · rw [hq, hlev]
      exact (h.level _).debit hiL hsize hs (by rw [hslot]) (by rw [hslot])
        (by rw [hslot]; exact hsum)
    · rw [hu.level q hq]
      refine (h.level q).congr_slots hsize (fun j hj => hs j ?_)
      rintro rfl
      exact hq (mem_atPrice.mp hj).2.symm
  · rw [hu.inBand]
    simp only [hprice]
    rw [← h.overflow]
    by_cases hq : q = pool.price i
    · rw [hq, hmap]
    · exact hu.overflow q hq
  · rw [inBandSlots_congr (fun j _ => hprice j) (fun _ => hu.inBand), hcount, h.bandOrders]
  · rw [inBandSlots_congr (fun j _ => hprice j) (fun _ => hu.inBand), hbest, h.best]
    cases (inBandSlots pool l S).head? with
    | none => rfl
    | some j => simp only [PriceLadder.cursor, hu.offsetOf, hprice]
  · obtain ⟨h₁, h₂, h₃, h₄⟩ := h.order j hj
    have hlive : pool'.Live j := by
      refine ⟨hsize ▸ h₁.1, ?_⟩
      by_cases hji : j = i
      · rw [hji, hslot]
        exact hji ▸ h₁.2
      · rw [hs j hji]
        exact h₁.2
    rw [← hu.levelIdxOf, ← hprice] at h₂
    rw [← hu.side] at h₄
    by_cases hji : j = i
    · subst hji
      refine ⟨hlive, ?_, ?_, ?_⟩
      · rw [← h₂, hslot]
      · rw [hslot]
        exact hleft
      · rw [← h₄, hslot]
    · refine ⟨hlive, ?_, ?_, ?_⟩ <;> rw [hs j hji] <;> assumption

end LadderRep

end LimitOrderBook
