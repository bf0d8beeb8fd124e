import LimitOrderBook.OrderBook
import LimitOrderBook.QueueBook
import LimitOrderBook.LadderUpdate

set_option autoImplicit false

namespace LimitOrderBook
open Checked PriorityQueue

def OrderPool.resting (pool : OrderPool) (i : UInt32) : Resting where
  id := (pool.slot i).orderId
  price := (pool.slot i).priceTicks
  qty := (pool.slot i).qty
  remaining := (pool.slot i).remaining
  side := (pool.slot i).side

theorem OrderPool.Relinks.resting {p q : OrderPool} {touched : UInt32 → Prop}
    (h : p.Relinks q touched) (i : UInt32) : q.resting i = p.resting i := by
  simp only [OrderPool.resting, h.orderId, h.priceTicks, h.qty, h.remaining, h.side]

def slots (M : List Resting) : List UInt32 := M.map Resting.slot

@[simp] theorem slots_append (M N : List Resting) : slots (M ++ N) = slots M ++ slots N :=
  List.map_append

@[simp] theorem slots_cons (r : Resting) (M : List Resting) :
    slots (r :: M) = r.slot :: slots M := rfl

@[simp] theorem slots_nil : slots [] = [] := rfl

theorem mem_slots_of_mem {r : Resting} {M : List Resting} (h : r ∈ M) : r.slot ∈ slots M :=
  List.mem_map_of_mem h

namespace OrderBook

variable {book : OrderBook} {s t : Side} {l : PriceLadder}

theorem ladder_setLadder (t : Side) :
    (book.setLadder s l).ladder t = if t.isBuy = s.isBuy then l else book.ladder t := by
  unfold ladder setLadder Side.isBuy
  by_cases hs : s = .kBuy <;> by_cases ht : t = .kBuy <;> simp [hs, ht]

@[simp] theorem setLadder_pool : (book.setLadder s l).pool = book.pool := by
  unfold setLadder; split <;> rfl

theorem setLadder_with_pool (pool : OrderPool) :
    { book.setLadder s l with pool } = { book with pool }.setLadder s l := by
  unfold setLadder; split <;> rfl

@[simp] theorem ladder_with_pool (pool : OrderPool) :
    ({ book with pool } : OrderBook).ladder t = book.ladder t := rfl

end OrderBook

/-- The state `b` of the queue book, with the slots of `pending` allocated but
resting on neither side. -/
structure BookRep (cfg : EngineConfig) (book : OrderBook) (b : QueueBook)
    (pending : List UInt32) : Prop where
  capacity : book.pool.slots.size = cfg.poolCapacity.toNat
  lowPrice : ∀ s, (book.ladder s).lowPrice.toInt = cfg.anchorPrice.toInt - cfg.bandRadius.toNat
  width : ∀ s, (book.ladder s).levels.size = 2 * cfg.bandRadius.toNat + 1
  pool : book.pool.Inv b.free
  generation : ∀ i, (book.pool.slot i).generation = b.generation i
  flags : ∀ i, (book.pool.slot i).flags = 0
  side : ∀ s, (book.ladder s).side = s.resolve
  ladder : ∀ s, LadderRep book.pool (book.ladder s) (slots (b.queue s))
  stored : ∀ r ∈ b.resting, book.pool.resting r.slot = r
  filled : ∀ r ∈ b.resting, r.remaining.toNat ≤ r.qty.toNat
  live : ∀ i, book.pool.Live i ↔ i ∈ slots b.resting ∨ i ∈ pending
  apart : ∀ i ∈ pending, i ∉ slots b.resting
  nodup : pending.Nodup

namespace BookRep

variable {cfg : EngineConfig} {book : OrderBook} {b : QueueBook} {pending : List UInt32}
  {s t : Side} {r r' : Resting}

theorem mem_slots {b : QueueBook} {i : UInt32} :
    i ∈ slots b.resting ↔ ∃ s, i ∈ slots (b.queue s) := by
  simp only [slots, List.mem_map, QueueBook.mem_resting]
  exact ⟨fun ⟨r, ⟨s, hs⟩, e⟩ => ⟨s, r, hs, e⟩, fun ⟨s, r, hs, e⟩ => ⟨r, ⟨s, hs⟩, e⟩⟩

theorem slot_live (h : BookRep cfg book b pending) {i : UInt32} (hi : i ∈ slots (b.queue s)) :
    book.pool.Live i := ((h.ladder s).order i hi).live

theorem stored_queue (h : BookRep cfg book b pending) (hr : r ∈ b.queue s) :
    book.pool.resting r.slot = r := h.stored r (QueueBook.mem_resting.mpr ⟨s, hr⟩)

theorem filled_queue (h : BookRep cfg book b pending) (hr : r ∈ b.queue s) :
    r.remaining.toNat ≤ r.qty.toNat := h.filled r (QueueBook.mem_resting.mpr ⟨s, hr⟩)

theorem slot_side (h : BookRep cfg book b pending) {i : UInt32} (hi : i ∈ slots (b.queue s)) :
    (book.pool.slot i).side.isBuy = s.isBuy := by
  rw [((h.ladder s).order i hi).side, h.side, Side.resolve_isBuy]

theorem side_eq (h : BookRep cfg book b pending) (hr : r ∈ b.queue s) : r.side.isBuy = s.isBuy := by
  rw [← h.slot_side (mem_slots_of_mem hr)]
  exact (congrArg (fun x => x.side.isBuy) (h.stored_queue hr)).symm

theorem other_side (h : BookRep cfg book b pending) {i : UInt32} (hi : i ∈ slots (b.queue s))
    (hst : t.isBuy ≠ s.isBuy) : i ∉ slots (b.queue t) := by
  intro ht
  exact hst ((h.slot_side ht).symm.trans (h.slot_side hi))

theorem price_slot (h : BookRep cfg book b pending) (hr : r ∈ b.queue s) :
    book.pool.price r.slot = r.price := congrArg Resting.price (h.stored_queue hr)

theorem remaining_slot (h : BookRep cfg book b pending) (hr : r ∈ b.queue s) :
    (book.pool.slot r.slot).remaining = r.remaining :=
  congrArg Resting.remaining (h.stored_queue hr)

theorem id_slot (h : BookRep cfg book b pending) (hr : r ∈ b.queue s) :
    (book.pool.slot r.slot).orderId = r.id := congrArg Resting.id (h.stored_queue hr)

theorem remaining_pos (h : BookRep cfg book b pending) (hr : r ∈ b.queue s) :
    1 ≤ r.remaining.toNat := by
  rw [← h.remaining_slot hr]
  exact ((h.ladder s).order _ (mem_slots_of_mem hr)).remaining_pos

theorem slots_nodup (h : BookRep cfg book b pending) (s : Side) : (slots (b.queue s)).Nodup :=
  (h.ladder s).nodup

theorem size_lt (h : BookRep cfg book b pending) : book.pool.slots.size < 2 ^ 31 := h.pool.size

theorem nodup_resting (h : BookRep cfg book b pending) : (slots b.resting).Nodup := by
  rw [QueueBook.resting, slots_append]
  refine List.nodup_append.mpr ⟨h.slots_nodup .kBuy, h.slots_nodup .kSell, fun i hi j hj e => ?_⟩
  subst e
  exact h.other_side (s := .kSell) (t := .kBuy) hj (by decide) hi

end BookRep

/-! What the pool does under a ladder that does not hold the slot in question. -/

theorem LadderRep.release {pool : OrderPool} {l : PriceLadder} {S : List UInt32} {i : UInt32}
    (h : LadderRep pool l S) (hl : pool.Live i) (hi : i ∉ S) : LadderRep (pool.release i) l S :=
  h.congr (OrderPool.release_size pool i) (fun j hj => by
    have hne : j ≠ i := fun e => hi (e ▸ hj)
    rw [OrderPool.slot_release hl.1, if_neg hne])

theorem LadderRep.take {pool : OrderPool} {l : PriceLadder} {S : List UInt32} {i : UInt32}
    (h : LadderRep pool l S) (hr : i.toNat < pool.slots.size) (hi : i ∉ S) :
    LadderRep (pool.take i) l S :=
  h.congr (OrderPool.take_size pool i) (fun j hj => by
    have hne : j ≠ i := fun e => hi (e ▸ hj)
    rw [OrderPool.slot_take hr, if_neg hne])

namespace BookRep

variable {cfg : EngineConfig} {book : OrderBook} {b b' : QueueBook} {pending P : List UInt32}
  {s t : Side} {r : Resting} {i : UInt32}

/-- Freeing a slot that rests on neither side. -/
theorem free (h : BookRep cfg book b (i :: P)) :
    book.pool.free i = .ok (book.pool.release i) ∧
      BookRep cfg { book with pool := book.pool.release i } (b.release [i]) P := by
  have hl : book.pool.Live i := (h.live i).mpr (.inr (by simp))
  have hiP := List.nodup_cons.mp h.nodup
  have hir := h.apart i (by simp)
  have hslot := fun j => OrderPool.slot_release hl.1 j
  refine ⟨OrderPool.free_ok hl,
    ⟨(OrderPool.release_size _ i).trans h.capacity, h.lowPrice, h.width, h.pool.release hl,
      fun j => ?_, fun j => ?_, h.side, fun t => ?_, fun r hr => ?_, h.filled, fun j => ?_,
      fun j hj => h.apart j (by simp [hj]), hiP.2⟩⟩
  · rw [hslot]
    split
    · rename_i hji
      rw [hji]
      exact h.generation i
    · exact h.generation j
  · rw [hslot]
    split
    · exact h.flags i
    · exact h.flags j
  · exact (h.ladder t).release hl (fun hm => hir (mem_slots.mpr ⟨t, hm⟩))
  · have hne : r.slot ≠ i := fun e => hir (e ▸ mem_slots_of_mem hr)
    rw [OrderPool.resting, hslot, if_neg hne]
    exact h.stored r hr
  · have hlive := h.live j
    rw [OrderPool.Live] at hlive ⊢
    rw [OrderPool.release_size, hslot]
    by_cases hji : j = i
    · subst hji
      simp only [if_true, QueueBook.resting_release]
      exact ⟨fun e => absurd rfl e.2, fun e => absurd e (not_or.mpr ⟨hir, hiP.1⟩)⟩
    · rw [if_neg hji, hlive, QueueBook.resting_release, List.mem_cons]
      simp [hji]

theorem alloc_none (h : BookRep cfg book b P) (hm : b.mint = none) :
    book.pool.alloc = .ok (kInvalidOrderId, book.pool) := by
  have hF : b.free = [] := by
    unfold QueueBook.mint at hm
    split at hm
    · assumption
    · cases hm
  exact OrderPool.alloc_empty (hF ▸ h.pool)

/-- Minting an id takes the slot on top of the stack. -/
theorem alloc_some {id : OrderId} (h : BookRep cfg book b []) (hm : b.mint = some (id, b')) :
    ∃ pool', book.pool.alloc = .ok (id, pool') ∧
      BookRep cfg { book with pool := pool' } b' [indexOf id] ∧ id ≠ kInvalidOrderId ∧
      (pool'.slot (indexOf id)).orderId = id ∧ (pool'.slot (indexOf id)).Unlinked := by
  cases hF : b.free with
  | nil => simp [QueueBook.mint, hF] at hm
  | cons i F =>
    simp only [QueueBook.mint, hF, Option.some.injEq, Prod.mk.injEq] at hm
    obtain ⟨hid, rfl⟩ := hm
    have hpool := hF ▸ h.pool
    obtain ⟨hr, hz⟩ := (hpool.mem i).mp (by simp)
    have hnl : ¬ book.pool.Live i := fun hl => hl.2 hz
    have hnS : ∀ {t}, i ∉ slots (b.queue t) := fun hi => hnl (h.slot_live hi)
    have hslot := fun j => OrderPool.slot_take hr j
    have hidx : indexOf id = i := by rw [← hid, indexOf_makeOrderId]
    rw [← h.generation] at hid
    rw [hidx]
    refine ⟨book.pool.take i, by rw [OrderPool.alloc_cons hpool, hid],
      ⟨(OrderPool.take_size _ i).trans h.capacity, h.lowPrice, h.width, hpool.take,
        fun j => ?_, fun j => ?_, h.side, fun t => (h.ladder t).take hr hnS,
        fun r hr' => ?_, h.filled, fun j => ?_, ?_, by simp⟩, ?_, ?_, ?_⟩
    · simp only [hslot, Function.update_apply, ← h.generation]
      split <;> rfl
    · rw [hslot]
      split
      · exact h.flags i
      · exact h.flags j
    · obtain ⟨t, ht⟩ := QueueBook.mem_resting.mp hr'
      have hne : r.slot ≠ i := fun e => hnS (e ▸ mem_slots_of_mem ht)
      rw [OrderPool.resting, hslot, if_neg hne]
      exact h.stored r hr'
    · have hlive := h.live j
      rw [OrderPool.Live] at hlive ⊢
      rw [OrderPool.take_size, hslot]
      by_cases hji : j = i
      · subst hji
        rw [if_pos rfl]
        exact ⟨fun _ => .inr (by simp),
          fun _ => ⟨hr, makeOrderId_ne_invalid (OrderPool.bump_ne_zero _) j⟩⟩
      · rw [if_neg hji, hlive]
        simp [hji]
        rfl
    · intro j hj
      rw [List.mem_singleton] at hj
      subst hj
      intro hm
      obtain ⟨t, ht⟩ := mem_slots.mp hm
      exact hnS ht
    · rw [← hid]
      exact makeOrderId_ne_invalid (OrderPool.bump_ne_zero _) i
    · rw [hslot, if_pos rfl]
      exact hid
    · rw [hslot, if_pos rfl]
      exact ⟨rfl, rfl, rfl⟩

/-- A change of the queue on one side. Orders move between that queue and `pending`,
and only their slots are written. -/
theorem update {pool' : OrderPool} {l' : PriceLadder} {M : List Resting} {p : PriceTicks}
    (h : BookRep cfg book b pending) (hsize : pool'.slots.size = book.pool.slots.size)
    (hhead : pool'.freeHead = book.pool.freeHead) (hcount : pool'.liveCount = book.pool.liveCount)
    (hid : ∀ j, (pool'.slot j).orderId = (book.pool.slot j).orderId)
    (hgen : ∀ j, (pool'.slot j).generation = (book.pool.slot j).generation)
    (hflags : ∀ j, (pool'.slot j).flags = 0)
    (hother : ∀ j, j ∉ slots (b.queue s) → j ∉ pending → pool'.slot j = book.pool.slot j)
    (hu : (book.ladder s).Updates l' p) (hl : LadderRep pool' l' (slots M))
    (hstored : ∀ r ∈ M, pool'.resting r.slot = r)
    (hfilled : ∀ r ∈ M, r.remaining.toNat ≤ r.qty.toNat)
    (hmove : ∀ i, (i ∈ slots M ∨ i ∈ P) ↔ (i ∈ slots (b.queue s) ∨ i ∈ pending))
    (hapart : ∀ i ∈ P, i ∉ slots M) (hnodup : P.Nodup) :
    BookRep cfg ({ book with pool := pool' }.setLadder s l') (b.setQueue s M) P := by
  have hq := fun t => QueueBook.queue_setQueue (b := b) (s := s) (M := M) t
  have hlad := fun t => @OrderBook.ladder_setLadder { book with pool := pool' } s l' t
  have hnot : ∀ {t j}, t.isBuy ≠ s.isBuy → j ∈ slots (b.queue t) →
      j ∉ slots (b.queue s) ∧ j ∉ pending := fun {t j} ht hj =>
    ⟨h.other_side hj (Ne.symm ht), fun hp => h.apart j hp (mem_slots.mpr ⟨t, hj⟩)⟩
  have hslots : ∀ i, i ∈ slots (b.setQueue s M).resting ↔
      i ∈ slots M ∨ ∃ t, t.isBuy ≠ s.isBuy ∧ i ∈ slots (b.queue t) := by
    intro i
    rw [mem_slots]
    simp only [hq]
    constructor
    · rintro ⟨t, ht⟩
      split at ht
      · exact .inl ht
      · exact .inr ⟨t, ‹_›, ht⟩
    · rintro (hM | ⟨t, hts, ht⟩)
      · exact ⟨s, by rwa [if_pos rfl]⟩
      · exact ⟨t, by rwa [if_neg hts]⟩
  refine ⟨?_, fun t => ?_, fun t => ?_, ?_, fun i => ?_, fun i => ?_, fun t => ?_, fun t => ?_,
    fun r hr => ?_, fun r hr => ?_, fun i => ?_, fun i hi hmem => ?_, hnodup⟩
  · rw [OrderBook.setLadder_pool, hsize]
    exact h.capacity
  · rw [hlad]
    split
    · rw [hu.lowPrice]
      exact h.lowPrice s
    · exact h.lowPrice t
  · rw [hlad]
    split
    · rw [hu.size]
      exact h.width s
    · exact h.width t
  · rw [OrderBook.setLadder_pool, QueueBook.setQueue_free]
    refine h.pool.congr hsize hhead hcount hid hgen (fun i hi => ?_)
    have hnl := h.pool.not_live hi
    rw [hother i (fun hm => hnl (h.slot_live hm)) (fun hm => hnl ((h.live i).mpr (.inr hm)))]
  · rw [OrderBook.setLadder_pool, QueueBook.setQueue_generation, hgen]
    exact h.generation i
  · rw [OrderBook.setLadder_pool]
    exact hflags i
  · rw [hlad]
    split
    · rename_i hts
      rw [hu.side, h.side]
      unfold Side.resolve
      unfold Side.isBuy at hts
      simp only [decide_eq_decide] at hts
      simp only [hts]
    · exact h.side t
  · rw [OrderBook.setLadder_pool, hlad, hq]
    split
    · exact hl
    · rename_i hts
      exact (h.ladder t).congr hsize (fun j hj => hother j (hnot hts hj).1 (hnot hts hj).2)
  · rw [OrderBook.setLadder_pool]
    obtain ⟨t, ht⟩ := QueueBook.mem_resting.mp hr
    rw [hq] at ht
    split at ht
    · exact hstored r ht
    · rename_i hts
      have hj := hnot hts (mem_slots_of_mem ht)
      rw [OrderPool.resting, hother _ hj.1 hj.2]
      exact h.stored_queue ht
  · obtain ⟨t, ht⟩ := QueueBook.mem_resting.mp hr
    rw [hq] at ht
    split at ht
    · exact hfilled r ht
    · exact h.filled r (QueueBook.mem_resting.mpr ⟨t, ht⟩)
  · rw [OrderBook.setLadder_pool, OrderPool.Live, hsize, hid, hslots]
    rw [show (i.toNat < book.pool.slots.size ∧ (book.pool.slot i).orderId ≠ kInvalidOrderId) ↔ _
      from h.live i, mem_slots]
    have hm := hmove i
    constructor
    · rintro (⟨t, ht⟩ | hp)
      · by_cases hts : t.isBuy = s.isBuy
        · rw [QueueBook.queue_congr hts] at ht
          rcases hm.mpr (.inl ht) with hm | hm
          · exact .inl (.inl hm)
          · exact .inr hm
        · exact .inl (.inr ⟨t, hts, ht⟩)
      · rcases hm.mpr (.inr hp) with hm | hm
        · exact .inl (.inl hm)
        · exact .inr hm
    · rintro ((hM | ⟨t, _, ht⟩) | hp)
      · rcases hm.mp (.inl hM) with hm | hm
        · exact .inl ⟨s, hm⟩
        · exact .inr hm
      · exact .inl ⟨t, ht⟩
      · rcases hm.mp (.inr hp) with hm | hm
        · exact .inl ⟨s, hm⟩
        · exact .inr hm
  · rcases (hslots i).mp hmem with hM | ⟨t, hts, ht⟩
    · exact hapart i hi hM
    · rcases (hmove i).mp (.inr hi) with hm | hm
      · exact (hnot hts ht).1 hm
      · exact (hnot hts ht).2 hm

/-- Taking a resting order off its ladder, from anywhere in the queue. -/
theorem unlink {A B : List Resting} (h : BookRep cfg book b pending)
    (hq : b.queue s = A ++ r :: B) :
    ∃ l' pool', (book.ladder s).removeOrder book.pool r.slot = .ok (l', pool') ∧
      BookRep cfg ({ book with pool := pool' }.setLadder s l') (b.setQueue s (A ++ B))
        (r.slot :: pending) ∧
      book.pool.Relinks pool' (· ∈ slots (b.queue s)) ∧ (pool'.slot r.slot).Unlinked := by
  have hlad := h.ladder s
  rw [hq, slots_append, slots_cons] at hlad
  obtain ⟨l', pool', hrun, hu, hrep, hre, hfree⟩ := hlad.removeOrder_rep
  have hmem : ∀ x, x ∈ A ++ B → x ∈ b.queue s := by
    intro x hx
    rw [hq]
    simp only [List.mem_append, List.mem_cons] at hx ⊢
    tauto
  have hslots : slots (b.queue s) = slots A ++ r.slot :: slots B := by
    rw [hq, slots_append, slots_cons]
  have hrs : r.slot ∈ slots (b.queue s) := by simp [hslots]
  have hdup := List.nodup_middle.mp (hslots ▸ h.slots_nodup s)
  rw [← slots_cons, ← slots_append, ← hq] at hre
  refine ⟨l', pool', hrun, h.update hre.size hre.freeHead hre.liveCount hre.orderId hre.generation
    (fun j => (hre.flags j).trans (h.flags j)) (fun j hj _ => hre.other j hj) hu
    (by rwa [slots_append]) (fun x hx => ?_) (fun x hx => h.filled_queue (hmem x hx))
    (fun i => ?_) (fun i hi => ?_) ?_, hre, hfree⟩
  · rw [hre.resting]
    exact h.stored_queue (hmem x hx)
  · rw [hslots, slots_append]
    simp only [List.mem_append, List.mem_cons]
    tauto
  · rw [slots_append]
    rcases List.mem_cons.mp hi with rfl | hi
    · exact (List.nodup_cons.mp hdup).1
    · intro hm
      refine h.apart i hi (mem_slots.mpr ⟨s, ?_⟩)
      rw [hslots]
      simp only [List.mem_append, List.mem_cons] at hm ⊢
      tauto
  · exact List.nodup_cons.mpr ⟨fun hp => h.apart _ hp (mem_slots.mpr ⟨s, hrs⟩), h.nodup⟩

theorem ladder_set {o : Order} (h : BookRep cfg book b pending) (hi : i ∈ pending) (s : Side) :
    LadderRep (book.pool.set i o) (book.ladder s) (slots (b.queue s)) :=
  (h.ladder s).congr (OrderPool.set_size _ _ _) fun j hj => by
    have hne : j ≠ i := fun e => h.apart i hi (mem_slots.mpr ⟨s, e ▸ hj⟩)
    rw [OrderPool.slot_set ((h.live i).mpr (.inr hi)).1, if_neg hne]

/-- The slot of an admitted order is filled in and pushed on its own side. -/
theorem rest {id : OrderId} {remaining : Qty} (side : Side) (type : OrderType) (price : PriceTicks)
    (qty : Qty) (h : BookRep cfg book b [indexOf id])
    (hid : (book.pool.slot (indexOf id)).orderId = id)
    (hfree : (book.pool.slot (indexOf id)).Unlinked) (hpos : 1 ≤ remaining.toNat)
    (hle : remaining.toNat ≤ qty.toNat) :
    ∃ pool₁ l' pool₂,
      book.pool.modify (indexOf id) (Order.submitted price qty remaining side type) = .ok pool₁ ∧
      (book.ladder side).pushOrder pool₁ (indexOf id) = .ok (l', pool₂) ∧
      BookRep cfg ({ book with pool := pool₂ }.setLadder side l')
        (b.rest { id, price, qty, remaining, side }) [] := by
  have hl : book.pool.Live (indexOf id) := (h.live _).mpr (.inr (by simp))
  have hnS : indexOf id ∉ slots (b.queue side) := fun hm =>
    h.apart _ (by simp) (mem_slots.mpr ⟨side, hm⟩)
  have hslot := OrderPool.slot_set hl.1
    (Order.submitted price qty remaining side type (book.pool.slot (indexOf id)))
  have hlad := @ladder_set _ _ _ _ _
    (Order.submitted price qty remaining side type (book.pool.slot (indexOf id))) h
    (List.mem_singleton.mpr rfl) side
  generalize hpool : book.pool.set (indexOf id)
    (Order.submitted price qty remaining side type (book.pool.slot (indexOf id))) = pool₁
    at hslot hlad
  have hsize : pool₁.slots.size = book.pool.slots.size := by rw [← hpool, OrderPool.set_size]
  have hid₁ : ∀ j, (pool₁.slot j).orderId = (book.pool.slot j).orderId := by
    intro j
    rw [hslot]
    split
    · rename_i hj
      rw [hj]
      rfl
    · rfl
  have hself : pool₁.slot (indexOf id) =
      Order.submitted price qty remaining side type (book.pool.slot (indexOf id)) := by
    rw [hslot, if_pos rfl]
  obtain ⟨l', pool₂, hpush, hu, hrep, hre⟩ := hlad.pushOrder_rep (i := indexOf id)
    (by rw [hsize]; exact h.size_lt) ⟨hsize ▸ hl.1, by rw [hid₁]; exact hl.2⟩ hnS
    (by rw [hself]; exact hfree.prevIdx) (by rw [hself]; exact hfree.nextIdx)
    (by rw [hself]; exact hpos)
    (by rw [hself, h.side, Side.resolve_isBuy]; rfl)
  have hqueue : slots (enqueue side.resolve.Better Resting.price
        { id, price, qty, remaining, side } (b.queue side)) =
      enqueue (book.ladder side).side.Better pool₁.price (indexOf id) (slots (b.queue side)) := by
    rw [h.side]
    refine enqueue_map Resting.slot ?_ (fun r hr => ?_)
    · change (pool₁.slot (indexOf id)).priceTicks = price
      rw [hself]
      rfl
    · have hne : r.slot ≠ indexOf id := fun e => hnS (e ▸ mem_slots_of_mem hr)
      rw [OrderPool.price, hslot, if_neg hne]
      exact h.price_slot hr
  refine ⟨pool₁, l', pool₂, ?_, hpush, ?_⟩
  · rw [OrderPool.modify_ok hl.1, hpool]
  · refine h.update (hre.size.trans hsize) ?_ ?_ (fun j => (hre.orderId j).trans (hid₁ j))
      (fun j => ?_) (fun j => ?_) (fun j hj hji => ?_) hu (by rw [hqueue]; exact hrep)
      (fun r hr => ?_) (fun r hr => ?_) (fun j => ?_) (by simp) List.nodup_nil
    · rw [hre.freeHead, ← hpool, OrderPool.set_freeHead]
    · rw [hre.liveCount, ← hpool, OrderPool.set_liveCount]
    · rw [hre.generation, hslot]
      split
      · rename_i hj
        rw [hj]
        rfl
      · rfl
    · rw [hre.flags, hslot]
      split
      · rfl
      · exact h.flags j
    · have hne : j ≠ indexOf id := by simpa using hji
      rw [hre.other j (not_or.mpr ⟨hne, hj⟩), hslot, if_neg hne]
    · rw [hre.resting]
      rcases mem_enqueue.mp hr with rfl | hr
      · change pool₁.resting (indexOf id) = _
        rw [OrderPool.resting, hself]
        simp only [Order.submitted, hid]
      · have hne : r.slot ≠ indexOf id := fun e => hnS (e ▸ mem_slots_of_mem hr)
        rw [OrderPool.resting, hslot, if_neg hne]
        exact h.stored_queue hr
    · rcases mem_enqueue.mp hr with rfl | hr
      · exact hle
      · exact h.filled_queue hr
    · rw [hqueue, mem_enqueue]
      simp only [List.mem_singleton, List.not_mem_nil, or_false]
      tauto

/-- The level in front of a side: its first order is the front of the queue. -/
theorem front_level {m : Resting} {M : List Resting} (h : BookRep cfg book b pending)
    (hq : b.queue s = m :: M) :
    (book.ladder s).bestPrice = .ok m.price ∧
    ∃ ref level, (book.ladder s).levelAt m.price = .ok ref ∧
      (book.ladder s).load ref = .ok level ∧ level.headIdx ≠ kNullIdx ∧
      level.headIdx.toUInt32 = m.slot ∧
      ∀ fill left : Qty, 1 ≤ left.toNat → left.toNat + fill.toNat = m.remaining.toNat →
        ∃ pool', book.pool.modify m.slot (Order.setRemaining left) = .ok pool' ∧
          BookRep cfg ({ book with pool := pool' }.setLadder s ((book.ladder s).store ref
              { level with totalQty := level.totalQty - fill.toUInt64 }))
            (b.setQueue s ({ m with remaining := left } :: M)) pending ∧
          ∀ j, j ∉ slots (b.queue s) → pool'.slot j = book.pool.slot j := by
  have hm : m ∈ b.queue s := by simp [hq]
  have hprice := h.price_slot hm
  have hlad := h.ladder s
  have hms := mem_slots_of_mem hm
  have hslots : slots (b.queue s) = m.slot :: slots M := by rw [hq, slots_cons]
  obtain ⟨ref, hat, hload, hstore⟩ := hlad.levelAt_ok hms
  rw [hprice] at hat hload hstore
  have hlevel := hlad.level m.price
  have hhead := hlevel.list.head
  rw [hslots, atPrice_cons, if_pos hprice, List.head?_cons] at hhead
  obtain ⟨hne, hidx⟩ := OrderPool.deref_eq_some hhead
  refine ⟨?_, ref, _, hat, hload, hne, hidx, fun fill left hpos hsum => ?_⟩
  · rw [hslots] at hlad
    rw [← hprice]
    exact hlad.bestPrice_ok
  · have hr := hlad.inRange hms
    have hslot := OrderPool.slot_set hr (Order.setRemaining left (book.pool.slot m.slot))
    obtain ⟨hu, hlev, hmap, hcount, hbest⟩ := hstore
      { (book.ladder s).level m.price with
        totalQty := ((book.ladder s).level m.price).totalQty - fill.toUInt64 }
    refine ⟨_, OrderPool.modify_ok hr _, ?_, fun j hj => by
      have hne : j ≠ m.slot := fun e => hj (e ▸ hms)
      rw [hslot, if_neg hne]⟩
    have hkeep : ∀ j, j ≠ m.slot → (book.pool.set m.slot
        (Order.setRemaining left (book.pool.slot m.slot))).slot j = book.pool.slot j :=
      fun j hj => by rw [hslot, if_neg hj]
    have hself : (book.pool.set m.slot
        (Order.setRemaining left (book.pool.slot m.slot))).slot m.slot =
        { book.pool.slot m.slot with remaining := left } := by
      rw [hslot, if_pos rfl]
      rfl
    have hfield : ∀ {α : Type} (f : Order → α), (f { book.pool.slot m.slot with remaining := left }
        = f (book.pool.slot m.slot)) → ∀ j, f ((book.pool.set m.slot
          (Order.setRemaining left (book.pool.slot m.slot))).slot j) = f (book.pool.slot j) := by
      intro α f hf j
      by_cases hj : j = m.slot
      · rw [hj, hself, hf]
      · rw [hkeep j hj]
    have hrep := hlad.debit hms (OrderPool.set_size _ _ _) hkeep
      ⟨left, hself, hpos, by rw [h.remaining_slot hm]; exact hsum⟩ (hprice.symm ▸ hu)
      (by rw [hprice]; exact hlev) (by rw [hprice]; exact hmap) hcount hbest
    refine h.update (OrderPool.set_size _ _ _) rfl rfl (hfield Order.orderId rfl)
      (hfield Order.generation rfl) (fun j => (hfield Order.flags rfl j).trans (h.flags j))
      (fun j hj _ => hkeep j (fun e => hj (e ▸ hms))) hu
      (by rw [hslots] at hrep; exact hrep) (fun r hr => ?_) (fun r hr => ?_)
      (fun i => by rw [hslots]; rfl)
      (fun i hi hmem => h.apart i hi (mem_slots.mpr ⟨s, by rw [hslots]; exact hmem⟩)) h.nodup
    rcases List.mem_cons.mp hr with rfl | hr
    · change OrderPool.resting _ m.slot = _
      rw [OrderPool.resting, hself]
      exact congrArg (fun x : Resting => { x with remaining := left }) (h.stored_queue hm)
    · have hne : r.slot ≠ m.slot := by
        have hdup := h.slots_nodup s
        rw [hslots] at hdup
        exact fun e => (List.nodup_cons.mp hdup).1 (e ▸ mem_slots_of_mem hr)
      rw [OrderPool.resting, hkeep _ hne]
      exact h.stored_queue (hq ▸ List.mem_cons_of_mem m hr)
    · rcases List.mem_cons.mp hr with rfl | hr
      · have hle := h.filled_queue hm
        simp only
        omega
      · exact h.filled_queue (hq ▸ List.mem_cons_of_mem m hr)

end BookRep

end LimitOrderBook
