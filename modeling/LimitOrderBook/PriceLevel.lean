import LimitOrderBook.OrderPool

set_option autoImplicit false

namespace LimitOrderBook
open Checked IntrusiveList

structure PriceLevel where
  headIdx : Int32 := kNullIdx
  tailIdx : Int32 := kNullIdx
  orderCount : UInt32 := 0
  totalQty : UInt64 := 0
  deriving DecidableEq, Repr

namespace PriceLevel

def empty (level : PriceLevel) : Bool := level.headIdx = kNullIdx

def pushBack (level : PriceLevel) (pool : OrderPool) (orderIdx : UInt32) :
    Exec (PriceLevel × OrderPool) := do
  let order ← pool.get orderIdx
  assert (order.prevIdx = kNullIdx ∧ order.nextIdx = kNullIdx) "order already linked"
  let pool ← pool.modify orderIdx (Order.setPrevIdx level.tailIdx)
  let pool ← pool.modifyLink level.tailIdx (Order.setNextIdx orderIdx.toInt32)
  let headIdx := if level.tailIdx ≠ kNullIdx then level.headIdx else orderIdx.toInt32
  let order ← pool.get orderIdx
  pure ({
    headIdx
    tailIdx := orderIdx.toInt32
    orderCount := level.orderCount + 1
    totalQty := level.totalQty + order.remaining.toUInt64 }, pool)

def unlink (level : PriceLevel) (pool : OrderPool) (orderIdx : UInt32) :
    Exec (PriceLevel × OrderPool) := do
  let order ← pool.get orderIdx
  assert (0 < level.orderCount ∧ order.remaining.toUInt64 ≤ level.totalQty)
    "order_count > 0 && total_qty >= order.remaining"
  assert (order.prevIdx ≠ kNullIdx ∨ level.headIdx = orderIdx.toInt32)
    "order.prev_idx != kNullIdx || head_idx == order_idx"
  assert (order.nextIdx ≠ kNullIdx ∨ level.tailIdx = orderIdx.toInt32)
    "order.next_idx != kNullIdx || tail_idx == order_idx"
  let pool ← pool.modifyLink order.prevIdx (Order.setNextIdx order.nextIdx)
  let headIdx := if order.prevIdx ≠ kNullIdx then level.headIdx else order.nextIdx
  let pool ← pool.modifyLink order.nextIdx (Order.setPrevIdx order.prevIdx)
  let tailIdx := if order.nextIdx ≠ kNullIdx then level.tailIdx else order.prevIdx
  let pool ← pool.modify orderIdx (Order.setPrevIdx kNullIdx)
  let pool ← pool.modify orderIdx (Order.setNextIdx kNullIdx)
  let order ← pool.get orderIdx
  pure ({
    headIdx
    tailIdx
    orderCount := level.orderCount - 1
    totalQty := level.totalQty - order.remaining.toUInt64 }, pool)

end PriceLevel

def openQty (pool : OrderPool) (L : List UInt32) : Nat :=
  (L.map fun i => (pool.slot i).remaining.toNat).sum

@[simp] theorem openQty_append (pool : OrderPool) (L M : List UInt32) :
    openQty pool (L ++ M) = openQty pool L + openQty pool M := by simp [openQty]

@[simp] theorem openQty_cons (pool : OrderPool) (i : UInt32) (L : List UInt32) :
    openQty pool (i :: L) = (pool.slot i).remaining.toNat + openQty pool L := by simp [openQty]

@[simp] theorem openQty_nil (pool : OrderPool) : openQty pool [] = 0 := rfl

theorem openQty_congr {pool pool' : OrderPool} {L : List UInt32}
    (h : ∀ i ∈ L, (pool'.slot i).remaining = (pool.slot i).remaining) :
    openQty pool' L = openQty pool L := by
  unfold openQty
  rw [List.map_congr_left (fun i hi => by rw [h i hi])]

theorem openQty_le (pool : OrderPool) (L : List UInt32) :
    openQty pool L ≤ L.length * (2 ^ 32 - 1) := by
  induction L with
  | nil => simp
  | cons i L ih =>
    have h := (pool.slot i).remaining.toNat_lt
    rw [openQty_cons, List.length_cons, Nat.succ_mul]
    omega

theorem length_le_slots {pool : OrderPool} {L : List UInt32} (hn : L.Nodup)
    (hr : ∀ i ∈ L, i.toNat < pool.slots.size) : L.length ≤ pool.slots.size := by
  have hsub : L ⊆ OrderPool.indices pool.slots.size := by
    intro i hi
    exact List.mem_map.mpr ⟨i.toNat, List.mem_range.mpr (hr i hi), UInt32.ofNat_toNat⟩
  simpa [OrderPool.indices] using (hn.subperm hsub).length_le

/-- The level is the FIFO `L`: links, membership and both aggregates. -/
structure LevelRep (pool : OrderPool) (level : PriceLevel) (L : List UInt32) : Prop where
  list : IsList pool.next pool.prev (OrderPool.deref level.headIdx)
    (OrderPool.deref level.tailIdx) L
  inRange : ∀ i ∈ L, i.toNat < pool.slots.size
  count : level.orderCount.toNat = L.length
  qty : level.totalQty.toNat = openQty pool L

namespace LevelRep

variable {pool pool' : OrderPool} {level : PriceLevel} {L : List UInt32}

theorem nil (pool : OrderPool) : LevelRep pool {} [] :=
  ⟨isList_nil _ _, by simp, rfl, rfl⟩

theorem empty_iff (h : LevelRep pool level L) : level.empty = true ↔ L = [] := by
  rw [← h.list.head_eq_none, OrderPool.deref_eq_none, PriceLevel.empty, decide_eq_true_eq]

theorem nodup (h : LevelRep pool level L) : L.Nodup := h.list.nodup

theorem congr (h : LevelRep pool level L) (hsize : pool'.slots.size = pool.slots.size)
    (hnext : ∀ i ∈ L, (pool'.slot i).nextIdx = (pool.slot i).nextIdx)
    (hprev : ∀ i ∈ L, (pool'.slot i).prevIdx = (pool.slot i).prevIdx)
    (hrem : ∀ i ∈ L, (pool'.slot i).remaining = (pool.slot i).remaining) :
    LevelRep pool' level L where
  list := h.list.congr (fun i hi => by simp only [OrderPool.next, hnext i hi])
    (fun i hi => by simp only [OrderPool.prev, hprev i hi])
  inRange i hi := hsize ▸ h.inRange i hi
  count := h.count
  qty := by rw [h.qty, openQty_congr hrem]

theorem congr_slots (h : LevelRep pool level L) (hsize : pool'.slots.size = pool.slots.size)
    (hs : ∀ i ∈ L, pool'.slot i = pool.slot i) : LevelRep pool' level L :=
  h.congr hsize (fun i hi => by rw [hs i hi]) (fun i hi => by rw [hs i hi])
    (fun i hi => by rw [hs i hi])

theorem eq_default (h : LevelRep pool level []) : level = {} := by
  have h₁ := OrderPool.deref_eq_none.mp h.list.head
  have h₂ := OrderPool.deref_eq_none.mp h.list.tail
  have h₃ : level.orderCount = 0 := UInt32.toNat_inj.mp h.count
  have h₄ : level.totalQty = 0 := UInt64.toNat_inj.mp h.qty
  cases level
  simp_all

theorem length_le (h : LevelRep pool level L) : L.length ≤ pool.slots.size :=
  length_le_slots h.nodup h.inRange

theorem qty_lt (h : LevelRep pool level L) (hs : pool.slots.size < 2 ^ 31) :
    openQty pool L + 2 ^ 32 ≤ 2 ^ 64 := by
  have h₁ := h.length_le
  have h₂ := openQty_le pool L
  have h₃ : L.length * (2 ^ 32 - 1) ≤ 2 ^ 31 * (2 ^ 32 - 1) := Nat.mul_le_mul_right _ (by omega)
  omega

theorem count_pos (h : LevelRep pool level L) {i : UInt32} (hi : i ∈ L) :
    1 ≤ level.orderCount := by
  have := List.length_pos_of_mem hi
  rw [UInt32.le_iff_toNat_le, h.count, UInt32.toNat_one]
  omega

theorem remaining_le (h : LevelRep pool level L) {i : UInt32} (hi : i ∈ L) :
    (pool.slot i).remaining.toUInt64 ≤ level.totalQty := by
  obtain ⟨A, B, rfl⟩ := List.append_of_mem hi
  rw [UInt64.le_iff_toNat_le, UInt32.toNat_toUInt64, h.qty, openQty_append, openQty_cons]
  omega

end LevelRep

namespace PriceLevel

variable {pool : OrderPool} {level : PriceLevel} {L : List UInt32} {i : UInt32}

/-- What `push_back` writes: the link of the old tail and the link of the order. -/
theorem pushBack_ok (h : LevelRep pool level L) (hi : i.toNat < pool.slots.size) (hiL : i ∉ L)
    (hprev : (pool.slot i).prevIdx = kNullIdx) (hnext : (pool.slot i).nextIdx = kNullIdx) :
    ∃ pool', level.pushBack pool i = .ok ({
        headIdx := if level.tailIdx ≠ kNullIdx then level.headIdx else i.toInt32
        tailIdx := i.toInt32
        orderCount := level.orderCount + 1
        totalQty := level.totalQty + (pool.slot i).remaining.toUInt64 }, pool') ∧
      pool.Relinks pool' (fun j => j = i ∨ j ∈ L) ∧
      ∀ j, pool'.slot j = (pool.slot j).relinked
        (if j = i then level.tailIdx else (pool.slot j).prevIdx)
        (if OrderPool.deref level.tailIdx = some j then i.toInt32 else (pool.slot j).nextIdx)
        (pool.slot j).levelIdx := by
  obtain ⟨p₁, hrun₁, hre₁, hs₁⟩ := @OrderPool.Relinks.modify pool (fun j => j = i ∨ j ∈ L) i hi
    (.inl rfl) (Order.setPrevIdx level.tailIdx) (fun o => ⟨_, _, _, rfl⟩)
  have htL : ∀ t, OrderPool.deref level.tailIdx = some t → t ∈ L := fun t ht =>
    List.mem_of_getLast? (h.list.tail ▸ ht)
  obtain ⟨p₂, hrun₂, hre₂, hs₂⟩ := @OrderPool.Relinks.modifyLink p₁ (fun j => j = i ∨ j ∈ L)
    level.tailIdx
    (fun t ht => by rw [hre₁.size]; exact h.inRange t (htL t ht)) (fun t ht => .inr (htL t ht))
    (f := Order.setNextIdx i.toInt32) (fun o => ⟨_, _, _, rfl⟩)
  have hi₂ : i.toNat < p₂.slots.size := by rw [hre₂.size, hre₁.size]; exact hi
  refine ⟨p₂, ?_, hre₁.trans hre₂, fun j => ?_⟩
  · simp [pushBack, OrderPool.get_ok hi, hprev, hnext, hrun₁, hrun₂, OrderPool.get_ok hi₂,
      hre₂.remaining, hre₁.remaining]
  · rw [hs₂, hs₁]
    by_cases hj : j = i
    · have hti : OrderPool.deref level.tailIdx ≠ some i := fun e => hiL (htL i e)
      simp [hj, hti, Order.setPrevIdx]
    · by_cases ht : OrderPool.deref level.tailIdx = some j
      · simp [hj, ht, Order.setNextIdx]
      · simp [hj, ht]

theorem pushBack_rep (h : LevelRep pool level L) (hs : pool.slots.size < 2 ^ 31)
    (hi : i.toNat < pool.slots.size) (hiL : i ∉ L)
    (hprev : (pool.slot i).prevIdx = kNullIdx) (hnext : (pool.slot i).nextIdx = kNullIdx) :
    ∃ level' pool', level.pushBack pool i = .ok (level', pool') ∧
      LevelRep pool' level' (L ++ [i]) ∧ pool.Relinks pool' (fun j => j = i ∨ j ∈ L) ∧
      ∀ j, (pool'.slot j).levelIdx = (pool.slot j).levelIdx := by
  obtain ⟨pool', hrun, hre, hslot⟩ := pushBack_ok h hi hiL hprev hnext
  have hderef := OrderPool.deref_toInt32 (lt_trans hi hs)
  have hlist := h.list.push_back pool'.next pool'.prev hiL
    (fun j => by
      simp only [OrderPool.next, hslot, Order.relinked_nextIdx]
      split
      · exact hderef
      · split
        · rename_i hj
          rw [hj, hnext, OrderPool.deref_null]
        · rfl)
    (fun j => by
      simp only [OrderPool.prev, hslot, Order.relinked_prevIdx]
      split <;> rfl)
  have hlen := h.length_le
  have hqty := h.qty_lt hs
  have hrem := (pool.slot i).remaining.toNat_lt
  refine ⟨_, pool', hrun, ⟨?_, fun j hj => ?_, ?_, ?_⟩, hre, fun j => by rw [hslot]; rfl⟩
  · rw [hderef]
    convert hlist using 1
    split
    · rename_i hnull
      rw [h.list.head]
      cases L with
      | nil => exact absurd (OrderPool.deref_eq_none.mp h.list.tail) hnull
      | cons k L => rfl
    · rename_i hnull
      rw [hderef, h.list.tail_eq_none.mp (OrderPool.deref_eq_none.mpr (not_not.mp hnull))]
      rfl
  · rw [hre.size]
    rcases List.mem_append.mp hj with hj | hj
    · exact h.inRange j hj
    · rwa [List.mem_singleton.mp hj]
  · rw [UInt32.toNat_add, h.count, UInt32.toNat_one, List.length_append, List.length_singleton]
    exact Nat.mod_eq_of_lt (by omega)
  · rw [openQty_congr (fun j _ => hre.remaining j), openQty_append, UInt64.toNat_add, h.qty,
      UInt32.toNat_toUInt64, openQty_cons, openQty_nil]
    exact Nat.mod_eq_of_lt (by omega)

/-- What `unlink` writes: the links of both neighbours, and the two links of the order. -/
theorem unlink_ok {A B : List UInt32} (h : LevelRep pool level (A ++ i :: B)) :
    ∃ pool', level.unlink pool i = .ok ({
        headIdx := if (pool.slot i).prevIdx ≠ kNullIdx then level.headIdx else (pool.slot i).nextIdx
        tailIdx := if (pool.slot i).nextIdx ≠ kNullIdx then level.tailIdx else (pool.slot i).prevIdx
        orderCount := level.orderCount - 1
        totalQty := level.totalQty - (pool.slot i).remaining.toUInt64 }, pool') ∧
      pool.Relinks pool' (fun j => j ∈ A ++ i :: B) ∧
      ∀ j, pool'.slot j = (pool.slot j).relinked
        (if j = i then kNullIdx else if pool.next i = some j then (pool.slot i).prevIdx
          else (pool.slot j).prevIdx)
        (if j = i then kNullIdx else if pool.prev i = some j then (pool.slot i).nextIdx
          else (pool.slot j).nextIdx)
        (pool.slot j).levelIdx := by
  have hiL : i ∈ A ++ i :: B := by simp
  have hi := h.inRange i hiL
  obtain ⟨hp, hn⟩ := h.list.at
  have hprevL : ∀ t, OrderPool.deref (pool.slot i).prevIdx = some t → t ∈ A ++ i :: B := by
    intro t ht
    have : t ∈ A := List.mem_of_getLast? (hp ▸ ht)
    simp [this]
  have hnextL : ∀ t, OrderPool.deref (pool.slot i).nextIdx = some t → t ∈ A ++ i :: B := by
    intro t ht
    have : t ∈ B := List.mem_of_head? (hn ▸ ht)
    simp [this]
  obtain ⟨p₁, hrun₁, hre₁, hs₁⟩ := OrderPool.Relinks.modifyLink (x := (pool.slot i).prevIdx)
    (fun t ht => h.inRange t (hprevL t ht)) hprevL
    (f := Order.setNextIdx (pool.slot i).nextIdx) (fun o => ⟨_, _, _, rfl⟩)
  obtain ⟨p₂, hrun₂, hre₂, hs₂⟩ := OrderPool.Relinks.modifyLink (p := p₁)
    (x := (pool.slot i).nextIdx)
    (fun t ht => by rw [hre₁.size]; exact h.inRange t (hnextL t ht)) hnextL
    (f := Order.setPrevIdx (pool.slot i).prevIdx) (fun o => ⟨_, _, _, rfl⟩)
  obtain ⟨p₃, hrun₃, hre₃, hs₃⟩ := OrderPool.Relinks.modify (p := p₂) (i := i)
    (by rw [hre₂.size, hre₁.size]; exact hi) hiL
    (f := Order.setPrevIdx kNullIdx) (fun o => ⟨_, _, _, rfl⟩)
  obtain ⟨p₄, hrun₄, hre₄, hs₄⟩ := OrderPool.Relinks.modify (p := p₃) (i := i)
    (by rw [hre₃.size, hre₂.size, hre₁.size]; exact hi) hiL
    (f := Order.setNextIdx kNullIdx) (fun o => ⟨_, _, _, rfl⟩)
  have hre := ((hre₁.trans hre₂).trans hre₃).trans hre₄
  have hi₄ : i.toNat < p₄.slots.size := by rw [hre.size]; exact hi
  have hcount : 0 < level.orderCount := by
    have := UInt32.le_iff_toNat_le.mp (h.count_pos hiL)
    rwa [UInt32.lt_iff_toNat_lt]
  have hhead : (pool.slot i).prevIdx ≠ kNullIdx ∨ level.headIdx = i.toInt32 := by
    by_cases hnull : (pool.slot i).prevIdx = kNullIdx
    · have hA : A = [] := List.getLast?_eq_none_iff.mp (hp ▸ OrderPool.deref_eq_none.mpr hnull)
      have hd := h.list.head
      rw [hA] at hd
      exact .inr (congrArg UInt32.toInt32 (OrderPool.deref_eq_some hd).2)
    · exact .inl hnull
  have htail : (pool.slot i).nextIdx ≠ kNullIdx ∨ level.tailIdx = i.toInt32 := by
    by_cases hnull : (pool.slot i).nextIdx = kNullIdx
    · have hB : B = [] := List.head?_eq_none_iff.mp (hn ▸ OrderPool.deref_eq_none.mpr hnull)
      have hd := h.list.tail
      rw [hB, List.getLast?_append_of_ne_nil _ (by simp)] at hd
      exact .inr (congrArg UInt32.toInt32 (OrderPool.deref_eq_some hd).2)
    · exact .inl hnull
  have hd := List.nodup_append.mp h.nodup
  have hdB := List.nodup_cons.mp hd.2.1
  have hboth : ∀ j, ¬ (pool.prev i = some j ∧ pool.next i = some j) := by
    rintro j ⟨hpj, hnj⟩
    rw [hp] at hpj
    rw [hn] at hnj
    exact hd.2.2 j (List.mem_of_getLast? hpj) j (by simp [List.mem_of_head? hnj]) rfl
  refine ⟨p₄, ?_, hre, fun j => ?_⟩
  · simp only [unlink, OrderPool.get_ok hi, ok_bind,
      assert_pos (And.intro hcount (h.remaining_le hiL)), assert_pos hhead, assert_pos htail, hrun₁,
      hrun₂, hrun₃, hrun₄, OrderPool.get_ok hi₄,
      hre.remaining, pure_eq_ok]
  · simp only [hs₄, hs₃, hs₂, hs₁, if_true]
    simp only [OrderPool.prev, OrderPool.next] at hboth ⊢
    by_cases hj : j = i
    · subst hj
      by_cases hpj : OrderPool.deref (pool.slot j).prevIdx = some j <;>
        by_cases hnj : OrderPool.deref (pool.slot j).nextIdx = some j <;>
        simp [hpj, hnj, Order.setNextIdx, Order.setPrevIdx]
    · by_cases hpj : OrderPool.deref (pool.slot i).prevIdx = some j
      · have hnj : OrderPool.deref (pool.slot i).nextIdx ≠ some j := fun e => hboth j ⟨hpj, e⟩
        simp [hj, hpj, hnj, Order.setNextIdx]
      · by_cases hnj : OrderPool.deref (pool.slot i).nextIdx = some j
        · simp [hj, hpj, hnj, Order.setPrevIdx]
        · simp [hj, hpj, hnj]

theorem unlink_rep {A B : List UInt32} (h : LevelRep pool level (A ++ i :: B)) :
    ∃ level' pool', level.unlink pool i = .ok (level', pool') ∧
      LevelRep pool' level' (A ++ B) ∧ pool.Relinks pool' (fun j => j ∈ A ++ i :: B) ∧
      (pool'.slot i).prevIdx = kNullIdx ∧ (pool'.slot i).nextIdx = kNullIdx ∧
      ∀ j, (pool'.slot j).levelIdx = (pool.slot j).levelIdx := by
  obtain ⟨pool', hrun, hre, hslot⟩ := unlink_ok h
  have hlist := h.list.unlink pool'.next pool'.prev
    (fun j => by
      simp only [OrderPool.next, hslot, Order.relinked_nextIdx]
      split
      · rfl
      · split <;> rfl)
    (fun j => by
      simp only [OrderPool.prev, hslot, Order.relinked_prevIdx]
      split
      · rfl
      · split <;> rfl)
  have hiL : i ∈ A ++ i :: B := by simp
  refine ⟨_, pool', hrun, ⟨?_, fun j hj => ?_, ?_, ?_⟩, hre, by simp [hslot], by simp [hslot],
    fun j => by rw [hslot]; rfl⟩
  · convert hlist using 1
    · by_cases hnull : (pool.slot i).prevIdx = kNullIdx
      · have hnone : pool.prev i = none := OrderPool.deref_eq_none.mpr hnull
        simp [hnull, hnone, OrderPool.next]
      · have hsome : pool.prev i ≠ none := fun e => hnull (OrderPool.deref_eq_none.mp e)
        simp [hnull, hsome]
    · by_cases hnull : (pool.slot i).nextIdx = kNullIdx
      · have hnone : pool.next i = none := OrderPool.deref_eq_none.mpr hnull
        simp [hnull, hnone, OrderPool.prev]
      · have hsome : pool.next i ≠ none := fun e => hnull (OrderPool.deref_eq_none.mp e)
        simp [hnull, hsome]
  · rw [hre.size]
    refine h.inRange j ?_
    simp only [List.mem_append, List.mem_cons] at hj ⊢
    tauto
  · rw [UInt32.toNat_sub_of_le _ _ (h.count_pos hiL), h.count, UInt32.toNat_one]
    simp only [List.length_append, List.length_cons]
    omega
  · rw [openQty_congr (fun j _ => hre.remaining j), openQty_append,
      UInt64.toNat_sub_of_le _ _ (h.remaining_le hiL), h.qty, UInt32.toNat_toUInt64,
      openQty_append, openQty_cons]
    omega

end PriceLevel

end LimitOrderBook
