import LimitOrderBook.BookRun
import LimitOrderBook.LadderUndo

set_option autoImplicit false

namespace LimitOrderBook
open Checked PriorityQueue

namespace OrderPool

variable {p q r : OrderPool} {L M : List UInt32}

/-- Apart from links, `q` is `p` with the slots of `L` freed. -/
structure Frees (p q : OrderPool) (L : List UInt32) : Prop where
  size : q.slots.size = p.slots.size
  slot : ∀ j, ∃ x y z, q.slot j =
    (if j ∈ L then { p.slot j with orderId := kInvalidOrderId } else p.slot j).relinked x y z
  dead : ∀ j, ¬ p.Live j → q.slot j = p.slot j
  unlinked : ∀ j ∈ L, (q.slot j).prevIdx = kNullIdx ∧ (q.slot j).levelIdx = kNullIdx

theorem Frees.orderId (h : Frees p q L) (j : UInt32) :
    (q.slot j).orderId = if j ∈ L then kInvalidOrderId else (p.slot j).orderId := by
  obtain ⟨x, y, z, he⟩ := h.slot j
  rw [he]
  split <;> rfl

theorem Frees.not_live (h : Frees p q L) {j : UInt32} (hj : j ∈ L) : ¬ q.Live j := fun hl =>
  hl.2 (by rw [h.orderId, if_pos hj])

theorem Relinks.frees {touched : UInt32 → Prop} (h : p.Relinks q touched)
    (ht : ∀ j, touched j → p.Live j) {i : UInt32} (hi : p.Live i) (hfree : (q.slot i).Unlinked) :
    Frees p (q.release i) [i] := by
  have hiq : i.toNat < q.slots.size := h.size ▸ hi.1
  refine ⟨(release_size q i).trans h.size, fun j => ?_, fun j hj => ?_, fun j hj => ?_⟩
  · obtain ⟨x, y, z, he⟩ := h.slot j
    rw [slot_release hiq]
    by_cases hji : j = i
    · subst hji
      refine ⟨x, q.freeHead, z, ?_⟩
      rw [if_pos rfl, if_pos (by simp), he]
      rfl
    · rw [if_neg hji, if_neg (by simpa using hji)]
      exact ⟨x, y, z, he⟩
  · have hji : j ≠ i := fun e => hj (e ▸ hi)
    rw [slot_release hiq, if_neg hji]
    exact h.other j fun hm => hj (ht j hm)
  · rw [List.mem_singleton.mp hj, slot_release hiq, if_pos rfl]
    exact ⟨hfree.prevIdx, hfree.levelIdx⟩

theorem Frees.trans (h : Frees p q L) (h' : Frees q r M) : Frees p r (M ++ L) := by
  have hkeep : ∀ j ∈ L, r.slot j = q.slot j := fun j hj => h'.dead j (h.not_live hj)
  refine ⟨h'.size.trans h.size, fun j => ?_, fun j hj => ?_, fun j hj => ?_⟩
  · obtain ⟨x, y, z, he⟩ := h.slot j
    by_cases hjL : j ∈ L
    · refine ⟨x, y, z, ?_⟩
      rw [hkeep j hjL, he, if_pos hjL, if_pos (by simp [hjL])]
    · obtain ⟨x', y', z', he'⟩ := h'.slot j
      rw [if_neg hjL] at he
      refine ⟨x', y', z', ?_⟩
      by_cases hjM : j ∈ M
      · rw [he', if_pos hjM, if_pos (by simp [hjM]), he]
        rfl
      · rw [he', if_neg hjM, if_neg (by simp [hjM, hjL]), he]
        rfl
  · have hq := h.dead j hj
    have hjq : ¬ q.Live j := by
      rw [Live, h.size, hq]
      exact hj
    exact (h'.dead j hjq).trans hq
  · rcases List.mem_append.mp hj with hj | hj
    · exact h'.unlinked j hj
    · rw [hkeep j hj]
      exact h.unlinked j hj

end OrderPool

/-- Two books that differ only in the order of two slots in front of their free lists. -/
structure OrderBook.SameButFront (x y : OrderBook) (i j : UInt32) : Prop where
  bids : y.bids = x.bids
  asks : y.asks = x.asks
  size : y.pool.slots.size = x.pool.slots.size
  liveCount : y.pool.liveCount = x.pool.liveCount
  find : ∀ id, y.pool.find id = x.pool.find id
  slot : ∀ k, k ≠ i → k ≠ j → y.pool.slot k = x.pool.slot k
  freed : ∀ k, k = i ∨ k = j →
    (y.pool.slot k).setNextIdx kNullIdx = (x.pool.slot k).setNextIdx kNullIdx
  front : ∃ F, x.pool.Inv (i :: j :: F) ∧ y.pool.Inv (j :: i :: F)

namespace QueueBook

variable {b : QueueBook} {x y : Resting}

theorem queue_remove (b : QueueBook) (x : Resting) (t : Side) : (b.remove x).queue t =
    if t.isBuy = x.side.isBuy then (b.queue t).filter fun r => r.id ≠ x.id else b.queue t := by
  rw [remove, queue_release, queue_setQueue]
  split
  · rename_i h
    rw [queue_congr h]
  · rfl

theorem free_remove₂ (b : QueueBook) (x y : Resting) :
    ((b.remove x).remove y).free = y.slot :: x.slot :: b.free := by
  simp [remove, release]

theorem queue_remove_comm (b : QueueBook) (x y : Resting) (t : Side) :
    ((b.remove x).remove y).queue t = ((b.remove y).remove x).queue t := by
  simp only [queue_remove]
  split_ifs <;> simp only [List.filter_filter, Bool.and_comm]

end QueueBook

namespace BookRep

variable {cfg : EngineConfig} {book book' : OrderBook} {b b' : QueueBook} {P P' : List UInt32}
  {x y : Resting}

theorem sameQueue (h : BookRep cfg book b P) (h' : BookRep cfg book' b' P') {s : Side}
    (hq : b'.queue s = b.queue s) :
    SameQueue book.pool book'.pool (book.ladder s) (book'.ladder s) (slots (b.queue s)) := by
  have hmem : ∀ i ∈ slots (b.queue s), ∃ r ∈ b.queue s, r.slot = i := fun i hi =>
    List.mem_map.mp hi
  refine ⟨h.ladder s, hq ▸ h'.ladder s, (h'.side s).trans (h.side s).symm, ?_,
    (h'.width s).trans (h.width s).symm, fun i hi => ?_, fun i hi => ?_⟩
  · exact Int64.toInt_inj.mp ((h'.lowPrice s).trans (h.lowPrice s).symm)
  · obtain ⟨r, hr, rfl⟩ := hmem i hi
    rw [h.price_slot hr, h'.price_slot (hq ▸ hr)]
  · obtain ⟨r, hr, rfl⟩ := hmem i hi
    rw [h.remaining_slot hr, h'.remaining_slot (hq ▸ hr)]

theorem cancel_frees (h : BookRep cfg book b []) (hx : x ∈ b.resting) :
    ∃ book', book.cancel x.id = .ok (true, book',
        [makeEvent .kCanceled x.side .kNone x.remaining 0 x.price x.id]) ∧
      BookRep cfg book' (b.remove x) [] ∧ book.pool.Frees book'.pool [x.slot] := by
  obtain ⟨book', pool, hrun, hrep, hpool, hre, hfree⟩ := h.cancel_open hx
  refine ⟨book', hrun, hrep, ?_⟩
  rw [hpool]
  exact hre.frees (fun j hj => h.slot_live hj)
    (h.slot_live (mem_slots_of_mem (h.mem_queue_side hx))) hfree

theorem mem_remove (h : BookRep cfg book b []) (hx : x ∈ b.resting) (hy : y ∈ b.resting)
    (hne : x.id ≠ y.id) : y ∈ (b.remove x).resting := by
  have hperm := QueueBook.resting_remove h.wf hx
  rcases List.mem_cons.mp (hperm.mem_iff.mp hy) with rfl | hy
  · exact absurd rfl hne
  · exact hy

theorem relinked_eq {o o₁ o₂ : Order} (h₁ : ∃ x y z, o₁ = o.relinked x y z)
    (h₂ : ∃ x y z, o₂ = o.relinked x y z) (hprev : o₂.prevIdx = o₁.prevIdx)
    (hnext : o₂.nextIdx = o₁.nextIdx) (hlevel : o₂.levelIdx = o₁.levelIdx) : o₂ = o₁ := by
  obtain ⟨x₁, y₁, z₁, rfl⟩ := h₁
  obtain ⟨x₂, y₂, z₂, rfl⟩ := h₂
  simp only [Order.relinked_prevIdx, Order.relinked_nextIdx, Order.relinked_levelIdx]
    at hprev hnext hlevel
  rw [hprev, hnext, hlevel]

theorem same_but_front {book₁ book₂ : OrderBook}
    (h₁ : BookRep cfg book₁ ((b.remove x).remove y) [])
    (h₂ : BookRep cfg book₂ ((b.remove y).remove x) [])
    (f₁ : book.pool.Frees book₁.pool [y.slot, x.slot])
    (f₂ : book.pool.Frees book₂.pool [x.slot, y.slot]) :
    book₁.SameButFront book₂ y.slot x.slot := by
  have hsame := fun s => h₁.sameQueue h₂ (s := s) (QueueBook.queue_remove_comm b y x s)
  have hsize : book₂.pool.slots.size = book₁.pool.slots.size :=
    h₂.capacity.trans h₁.capacity.symm
  have hslot : ∀ k, k ≠ y.slot → k ≠ x.slot → book₂.pool.slot k = book₁.pool.slot k := by
    intro k hy hx
    have hk₁ := f₁.slot k
    have hk₂ := f₂.slot k
    rw [if_neg (by simp [hy, hx])] at hk₁ hk₂
    by_cases hl : book.pool.Live k
    · have hl₁ : book₁.pool.Live k := by
        refine ⟨f₁.size ▸ hl.1, ?_⟩
        rw [f₁.orderId, if_neg (by simp [hy, hx])]
        exact hl.2
      rcases (h₁.live k).mp hl₁ with hmem | hmem
      · obtain ⟨s, hs⟩ := mem_slots.mp hmem
        obtain ⟨hnext, hprev, hlevel⟩ := (hsame s).links hs
        exact relinked_eq hk₁ hk₂ hprev hnext hlevel
      · cases hmem
    · rw [f₁.dead k hl, f₂.dead k hl]
  have hzero : ∀ k, k = y.slot ∨ k = x.slot →
      (book₁.pool.slot k).orderId = kInvalidOrderId ∧
        (book₂.pool.slot k).orderId = kInvalidOrderId := by
    intro k hk
    rw [f₁.orderId, f₂.orderId, if_pos (by simpa using hk), if_pos (by simpa using hk.symm)]
    exact ⟨rfl, rfl⟩
  refine ⟨(hsame .kBuy).ladder_eq, (hsame .kSell).ladder_eq, hsize, ?_, fun id => ?_, hslot,
    fun k hk => ?_, b.free, QueueBook.free_remove₂ b x y ▸ h₁.pool,
    QueueBook.free_remove₂ b y x ▸ h₂.pool⟩
  · have hlive₁ := h₁.pool.live
    have hlive₂ := h₂.pool.live
    have hlen : ((b.remove y).remove x).free.length = ((b.remove x).remove y).free.length := by
      rw [QueueBook.free_remove₂, QueueBook.free_remove₂]
      rfl
    exact UInt32.toNat_inj.mp (by omega)
  · unfold OrderPool.find
    rw [hsize]
    by_cases hid : id = kInvalidOrderId ∨ book₁.pool.slots.size ≤ (indexOf id).toNat
    · rw [if_pos hid, if_pos hid]
    · rw [if_neg hid, if_neg hid]
      by_cases hk : indexOf id = y.slot ∨ indexOf id = x.slot
      · obtain ⟨hz₁, hz₂⟩ := hzero _ hk
        have hne : ¬ kInvalidOrderId = id := fun e => hid (.inl e.symm)
        rw [hz₁, hz₂, if_neg hne, if_neg hne]
      · obtain ⟨hy, hx⟩ := not_or.mp hk
        rw [hslot _ hy hx]
  · have hk₁ := f₁.slot k
    have hk₂ := f₂.slot k
    obtain ⟨hprev₁, hlevel₁⟩ := f₁.unlinked k (by simpa using hk)
    obtain ⟨hprev₂, hlevel₂⟩ := f₂.unlinked k (by simpa using hk.symm)
    rw [if_pos (by simpa using hk)] at hk₁
    rw [if_pos (by simpa using hk.symm)] at hk₂
    obtain ⟨x₁, y₁, z₁, he₁⟩ := hk₁
    obtain ⟨x₂, y₂, z₂, he₂⟩ := hk₂
    simp only [Order.setNextIdx, hprev₁, hprev₂, hlevel₁, hlevel₂]
    rw [he₁, he₂, Order.relinked_relinked, Order.relinked_relinked]

end BookRep

/-- From any book that the operations built, the cancels of two open orders succeed in
either order, say the same, and leave the same book but for the order of the two slots in
front of the free list. -/
theorem cancels_commute {cfg : EngineConfig}
    (hhigh : cfg.anchorPrice.toInt + cfg.bandRadius.toNat + 1 ≤ 2 ^ 63 - 1) {ndebug : Bool}
    {ops : List BookOp} {book : OrderBook} {replies : List Reply}
    (hrun : OrderBook.drive ndebug cfg ops = .ok (book, replies)) {i j : OrderId}
    (hi : book.contains i = true) (hj : book.contains j = true) (hij : i ≠ j) :
    ∃ bookᵢ bookᵢⱼ bookⱼ bookⱼᵢ eᵢ eⱼ,
      book.cancel i = .ok (true, bookᵢ, [eᵢ]) ∧ bookᵢ.cancel j = .ok (true, bookᵢⱼ, [eⱼ]) ∧
      book.cancel j = .ok (true, bookⱼ, [eⱼ]) ∧ bookⱼ.cancel i = .ok (true, bookⱼᵢ, [eᵢ]) ∧
      (eᵢ.kind = .kCanceled ∧ eᵢ.orderId = i) ∧ (eⱼ.kind = .kCanceled ∧ eⱼ.orderId = j) ∧
      bookᵢⱼ.SameButFront bookⱼᵢ (indexOf j) (indexOf i) := by
  obtain ⟨hrep, rfl⟩ := BookRep.of_drive hrun hhigh
  generalize ((QueueBook.new cfg.poolCapacity).run ops).1 = b at hrep
  have hopen : ∀ {id}, book.contains id = true → ∃ r ∈ b.resting, r.id = id := fun hid => by
    rw [hrep.contains_rep, Option.isSome_iff_exists] at hid
    obtain ⟨r, hr⟩ := hid
    exact ⟨r, (QueueBook.find_iff hrep.wf).mp hr⟩
  obtain ⟨x, hx, rfl⟩ := hopen hi
  obtain ⟨y, hy, rfl⟩ := hopen hj
  obtain ⟨bookᵢ, hrunᵢ, hrepᵢ, hfreesᵢ⟩ := hrep.cancel_frees hx
  obtain ⟨bookⱼ, hrunⱼ, hrepⱼ, hfreesⱼ⟩ := hrep.cancel_frees hy
  obtain ⟨bookᵢⱼ, hrunᵢⱼ, hrepᵢⱼ, hfreesᵢⱼ⟩ := hrepᵢ.cancel_frees (hrep.mem_remove hx hy hij)
  obtain ⟨bookⱼᵢ, hrunⱼᵢ, hrepⱼᵢ, hfreesⱼᵢ⟩ :=
    hrepⱼ.cancel_frees (hrep.mem_remove hy hx hij.symm)
  exact ⟨bookᵢ, bookᵢⱼ, bookⱼ, bookⱼᵢ, _, _, hrunᵢ, hrunᵢⱼ, hrunⱼ, hrunⱼᵢ, ⟨rfl, rfl⟩, ⟨rfl, rfl⟩,
    hrepᵢⱼ.same_but_front hrepⱼᵢ (hfreesᵢ.trans hfreesᵢⱼ) (hfreesⱼ.trans hfreesⱼᵢ)⟩

/-- The only two orders of the best level. -/
theorem cancels_commute_small : ∃ book replies bookᵢ bookᵢⱼ bookⱼ bookⱼᵢ eᵢ eⱼ,
    OrderBook.drive false ⟨100, 1, 2⟩ [.addLimit .kBuy 100 5, .addLimit .kBuy 100 3] =
      .ok (book, replies) ∧
    book.cancel (makeOrderId 1 0) = .ok (true, bookᵢ, [eᵢ]) ∧
    bookᵢ.cancel (makeOrderId 1 1) = .ok (true, bookᵢⱼ, [eⱼ]) ∧
    book.cancel (makeOrderId 1 1) = .ok (true, bookⱼ, [eⱼ]) ∧
    bookⱼ.cancel (makeOrderId 1 0) = .ok (true, bookⱼᵢ, [eᵢ]) ∧
    bookᵢⱼ.SameButFront bookⱼᵢ 1 0 := by
  obtain ⟨bookᵢ, bookᵢⱼ, bookⱼ, bookⱼᵢ, eᵢ, eⱼ, h₁, h₂, h₃, h₄, -, -, h⟩ :=
    @cancels_commute ⟨100, 1, 2⟩ (by decide) false
      [.addLimit .kBuy 100 5, .addLimit .kBuy 100 3] _ _ rfl (makeOrderId 1 0) (makeOrderId 1 1)
      (by decide) (by decide) (by decide)
  exact ⟨_, _, bookᵢ, bookᵢⱼ, bookⱼ, bookⱼᵢ, eᵢ, eⱼ, rfl, h₁, h₂, h₃, h₄, h⟩

end LimitOrderBook
