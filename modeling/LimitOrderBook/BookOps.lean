import LimitOrderBook.BookRefinement

set_option autoImplicit false

namespace LimitOrderBook
open Checked PriorityQueue

namespace OrderBook

variable {book : OrderBook} {id : OrderId}

theorem cancel_unknown (h : book.pool.find id = none) :
    book.cancel id = .ok (false, book, [makeEvent .kRejected .kBuy .kUnknownOrder 0 0 0 id]) := by
  rw [cancel, h]
  rfl

theorem cancel_ok {o : Order} {l : PriceLadder} {pool pool' : OrderPool}
    (h : book.pool.find id = some o)
    (hrun : (book.ladder o.side).removeOrder book.pool (indexOf id) = .ok (l, pool))
    (hfree : pool.free (indexOf id) = .ok pool') :
    book.cancel id = .ok (true, { book with pool := pool' }.setLadder o.side l,
      [makeEvent .kCanceled o.side .kNone o.remaining 0 o.priceTicks id]) := by
  simp only [cancel, h, hrun, ok_bind, hfree, pure_eq_ok]

end OrderBook

namespace BookRep

variable {cfg : EngineConfig} {book : OrderBook} {b b' : QueueBook} {pending P : List UInt32}
  {side : Side} {limit : PriceTicks} {id : OrderId} {remaining : Qty} {m : Resting}
  {M : List Resting}

theorem empty_iff (h : BookRep cfg book b pending) (s : Side) :
    (book.ladder s).empty = true ↔ b.queue s = [] := by
  rw [(h.ladder s).empty_iff, slots, List.map_eq_nil_iff]

theorem matchStep_done (h : BookRep cfg book b pending)
    (hdone : remaining = 0 ∨ ∀ m ∈ (b.queue side.opposite).head?, ¬ crosses side limit m.price) :
    book.matchStep side limit id remaining = .ok none := by
  unfold OrderBook.matchStep
  by_cases hstop : remaining = 0 ∨ (book.ladder side.opposite).empty = true
  · simp only [if_pos hstop, pure_eq_ok]
  · simp only [if_neg hstop]
    obtain ⟨hr, he⟩ := not_or.mp hstop
    rw [h.empty_iff] at he
    obtain ⟨m, M, hq⟩ := List.exists_cons_of_ne_nil he
    rcases hdone with hz | hc
    · exact absurd hz hr
    · have hnc := hc m (by simp [hq])
      rw [(h.front_level hq).1, ok_bind, if_pos hnc, pure_eq_ok]

/-- One fill: the front maker leaves its queue, or stays in front with less. -/
theorem matchStep_fill (id : OrderId) (h : BookRep cfg book b pending)
    (hq : b.queue side.opposite = m :: M)
    (hr : remaining ≠ 0) (hc : crosses side limit m.price) :
    ∃ book', book.matchStep side limit id remaining =
        .ok (some (book', remaining - min remaining m.remaining,
          tradedPair side id m (min remaining m.remaining)
            (m.remaining - min remaining m.remaining) (remaining - min remaining m.remaining))) ∧
      BookRep cfg book' (if m.remaining - min remaining m.remaining = 0 then
          (b.setQueue side.opposite M).release [m.slot]
        else b.setQueue side.opposite
          ({ m with remaining := m.remaining - min remaining m.remaining } :: M)) pending ∧
      ∀ i ∈ pending, book'.pool.slot i = book.pool.slot i := by
  have hm : m ∈ b.queue side.opposite := by simp [hq]
  have hms := mem_slots_of_mem hm
  have hpos := h.remaining_pos hm
  have hrpos : 0 < remaining.toNat := toNat_pos.mpr hr
  have hmin := toNat_min remaining m.remaining
  obtain ⟨hbest, ref, level, hat, hload, hnull, hidx, hdebit⟩ := h.front_level hq
  have hempty : ¬ (remaining = 0 ∨ (book.ladder side.opposite).empty = true) := by
    rw [h.empty_iff, hq]
    simp [hr]
  have hget : book.pool.get m.slot = .ok (book.pool.slot m.slot) :=
    OrderPool.get_ok ((h.ladder _).inRange hms)
  have hfill : 0 < min remaining m.remaining := by
    rw [UInt32.lt_iff_toNat_lt, hmin, UInt32.toNat_zero]
    omega
  have hmaker : book.pool.resting m.slot = m := h.stored_queue hm
  have hside : (book.pool.slot m.slot).side = m.side := congrArg Resting.side hmaker
  have hprice : (book.pool.slot m.slot).priceTicks = m.price := congrArg Resting.price hmaker
  have hmid : (book.pool.slot m.slot).orderId = m.id := congrArg Resting.id hmaker
  have hnp : ∀ i ∈ pending, i ∉ slots (b.queue side.opposite) := fun i hi hmem =>
    h.apart i hi (mem_slots.mpr ⟨_, hmem⟩)
  unfold OrderBook.matchStep
  simp only [if_neg hempty, hbest, ok_bind, hc, not_true_eq_false, if_false, hat, hload,
    assert_pos hnull, hidx, hget, h.remaining_slot hm, assert_pos hfill, hside, hprice, hmid]
  by_cases hleft : m.remaining - min remaining m.remaining = 0
  · simp only [if_pos hleft]
    obtain ⟨l', pool₁, hrun, hrep, hre, -⟩ := @BookRep.unlink _ _ _ _ _ _ [] M h hq
    obtain ⟨hfree, hrep₂⟩ := hrep.free
    rw [OrderBook.setLadder_pool] at hfree hrep₂
    rw [OrderBook.setLadder_with_pool] at hrep₂
    simp only [hrun, ok_bind, hfree, pure_eq_ok]
    refine ⟨_, rfl, hrep₂, fun i hi => ?_⟩
    have hne : i ≠ m.slot := fun e => hnp i hi (e ▸ hms)
    rw [OrderBook.setLadder_pool, OrderPool.slot_release (hre.size ▸ (h.ladder _).inRange hms),
      if_neg hne]
    exact hre.other i (hnp i hi)
  · simp only [if_neg hleft]
    have hsub := (toNat_sub_min remaining m.remaining).2
    have hl1 : 1 ≤ (m.remaining - min remaining m.remaining).toNat := toNat_pos.mpr hleft
    obtain ⟨pool', hrun, hrep, hkeep⟩ := hdebit (min remaining m.remaining)
      (m.remaining - min remaining m.remaining) hl1 (by omega)
    simp only [hrun, ok_bind, pure_eq_ok]
    exact ⟨_, rfl, hrep, fun i hi => by
      rw [OrderBook.setLadder_pool]
      exact hkeep i (hnp i hi)⟩

theorem settle_nil (b : QueueBook) (side : Side) (r : Qty) (es : List Event) :
    b.settle side { remaining := r, filled := [], rest := b.queue side.opposite, events := es } =
      b := by
  rw [QueueBook.settle, QueueBook.setQueue_self rfl]
  rfl

theorem settle_cons (b : QueueBook) (side : Side) (s : Sweep) (es : List Event) :
    ((b.setQueue side.opposite M).release [m.slot]).settle side s =
      b.settle side { s with filled := m :: s.filled, events := es } := by
  unfold QueueBook.settle QueueBook.release QueueBook.setQueue
  split <;> simp

/-- The loop is the sweep. The induction is on the queue of makers. -/
theorem matchLoop_rep (side : Side) (limit : PriceTicks) (id : OrderId) (M : List Resting) :
    ∀ {b : QueueBook} {book : OrderBook} (remaining : Qty) (events : List Event) (fuel : Nat),
    BookRep cfg book b pending →
    b.queue side.opposite = M → M.length < fuel →
    ∃ book', OrderBook.matchLoop side limit id fuel book remaining events =
        .ok (book', (sweep side limit id remaining M).remaining,
          events ++ (sweep side limit id remaining M).events) ∧
      BookRep cfg book' (b.settle side (sweep side limit id remaining M)) pending ∧
      ∀ i ∈ pending, book'.pool.slot i = book.pool.slot i := by
  induction M with
  | nil =>
    intro b book remaining events fuel h hq hf
    obtain ⟨fuel, rfl⟩ : ∃ k, fuel = k + 1 := ⟨fuel - 1, by omega⟩
    have hstep : book.matchStep side limit id remaining = .ok none :=
      h.matchStep_done (.inr (by simp [hq]))
    refine ⟨book, ?_, ?_, fun _ _ => rfl⟩
    · simp [OrderBook.matchLoop, hstep, sweep]
    · rw [sweep]
      have hb := settle_nil b side remaining []
      rw [hq] at hb
      rwa [hb]
  | cons m M ih =>
    intro b book remaining events fuel h hq hf
    obtain ⟨fuel, rfl⟩ : ∃ k, fuel = k + 1 := ⟨fuel - 1, by omega⟩
    by_cases hstop : remaining = 0 ∨ ¬ crosses side limit m.price
    · have hstep : book.matchStep side limit id remaining = .ok none :=
        h.matchStep_done (hstop.imp_right fun hc x hx => by
          rw [hq, List.head?_cons, Option.mem_some_iff] at hx
          exact hx ▸ hc)
      refine ⟨book, ?_, ?_, fun _ _ => rfl⟩
      · simp only [OrderBook.matchLoop, hstep, ok_bind, pure_eq_ok, sweep_stop hstop,
          List.append_nil]
      · rw [sweep_stop hstop, ← hq, settle_nil]
        exact h
    · obtain ⟨hr, hc⟩ := not_or.mp hstop
      obtain ⟨book₁, hstep, hrep, hkeep⟩ := h.matchStep_fill id hq hr (not_not.mp hc)
      by_cases hleft : m.remaining - min remaining m.remaining = 0
      · rw [if_pos hleft] at hrep
        obtain ⟨book', hrun, hrep', hkeep'⟩ := ih (remaining - min remaining m.remaining)
          (events ++ tradedPair side id m (min remaining m.remaining)
            (m.remaining - min remaining m.remaining) (remaining - min remaining m.remaining))
          fuel hrep (by rw [QueueBook.queue_release, QueueBook.queue_setQueue, if_pos rfl])
          (by simpa using hf)
        refine ⟨book', ?_, ?_, fun i hi => (hkeep' i hi).trans (hkeep i hi)⟩
        · simp only [OrderBook.matchLoop, hstep, ok_bind, hrun, sweep_filled hstop hleft,
            List.append_assoc]
        · rw [settle_cons] at hrep'
          rw [sweep_filled hstop hleft]
          exact hrep'
      · rw [if_neg hleft] at hrep
        obtain ⟨fuel, rfl⟩ : ∃ k, fuel = k + 1 := ⟨fuel - 1, by simp at hf; omega⟩
        have hdone : book₁.matchStep side limit id (remaining - min remaining m.remaining) =
            .ok none := hrep.matchStep_done (.inl (left_zero hleft))
        refine ⟨book₁, ?_, ?_, hkeep⟩
        · simp only [OrderBook.matchLoop, hstep, ok_bind, hdone, pure_eq_ok,
            sweep_left hstop hleft]
        · rw [sweep_left hstop hleft]
          exact hrep

theorem queue_length_le (h : BookRep cfg book b pending) (s : Side) :
    (b.queue s).length ≤ book.pool.slots.size := by
  have := (h.ladder s).length_le
  rwa [slots, List.length_map] at this

theorem sweep_le (side : Side) (limit : PriceTicks) (id : OrderId) (M : List Resting) :
    ∀ remaining, (sweep side limit id remaining M).remaining.toNat ≤ remaining.toNat := by
  intro remaining
  induction remaining, M using sweep_induction side limit with
  | nil => exact le_refl _
  | stop remaining m M hstop => rw [sweep_stop hstop]
  | filled remaining m M hstop hleft ih =>
    have hsub := (toNat_sub_min remaining m.remaining).1
    rw [sweep_filled hstop hleft]
    exact ih.trans (by omega)
  | left remaining m M hstop hleft =>
    rw [sweep_left hstop hleft, left_zero hleft]
    exact Nat.zero_le _

theorem execute_rep (side : Side) (type : OrderType) (price : PriceTicks) (qty : Qty)
    (h : BookRep cfg book b [indexOf id])
    (hid : (book.pool.slot (indexOf id)).orderId = id)
    (hfree : (book.pool.slot (indexOf id)).Unlinked) :
    ∃ book', book.execute id side type price qty =
        .ok (book', (b.execute id side type price qty).2) ∧
      BookRep cfg book' (b.execute id side type price qty).1 [] := by
  obtain ⟨book₁, hrun, hrep, hkeep⟩ := matchLoop_rep side (takerLimit side type price) id
    (b.queue side.opposite) qty []
    (book.pool.slots.size + 1) h rfl (Nat.lt_succ_of_le (h.queue_length_le _))
  have hk := hkeep (indexOf id) (by simp)
  have hle := sweep_le side (takerLimit side type price) id (b.queue side.opposite) qty
  simp only [OrderBook.execute, OrderBook.sweepOpposite, hrun, ok_bind, QueueBook.execute,
    List.nil_append]
  generalize sweep side (takerLimit side type price) id qty (b.queue side.opposite) = s at *
  rw [assert_pos (UInt32.le_iff_toNat_le.mpr hle)]
  simp only [ok_bind]
  by_cases hdone : s.remaining = 0 ∨ type ≠ .kLimit
  · simp only [if_pos hdone]
    obtain ⟨hrun', hrep'⟩ := hrep.free
    simp only [hrun', ok_bind, pure_eq_ok]
    exact ⟨_, rfl, hrep'⟩
  · simp only [if_neg hdone]
    have hpos : 1 ≤ s.remaining.toNat := toNat_pos.mpr fun hz => hdone (.inl hz)
    obtain ⟨pool₁, l', pool₂, hmod, hpush, hrep'⟩ := hrep.rest side type price qty
      (by rw [hk]; exact hid) (by rw [hk]; exact hfree) hpos hle
    simp only [hmod, ok_bind, hpush, pure_eq_ok]
    exact ⟨_, rfl, hrep'⟩

theorem add_rep (h : BookRep cfg book b []) (side : Side) (type : OrderType) (price : PriceTicks)
    (qty : Qty) :
    ∃ book', book.add true side type price qty =
        .ok ((b.add side type price qty).1, book', (b.add side type price qty).2.2) ∧
      BookRep cfg book' (b.add side type price qty).2.1 [] ∧
      ((b.add side type price qty).1 = kInvalidOrderId → book' = book) := by
  unfold OrderBook.add QueueBook.add QueueBook.refusal
  by_cases hqty : qty = 0
  · simp only [if_pos hqty, pure_eq_ok]
    exact ⟨book, rfl, h, fun _ => rfl⟩
  · by_cases hprice : type ≠ .kMarket ∧ price ≤ 0
    · simp only [if_neg hqty, if_pos hprice, pure_eq_ok]
      exact ⟨book, rfl, h, fun _ => rfl⟩
    · simp only [if_neg hqty, if_neg hprice]
      cases hm : b.mint with
      | none =>
        simp only [h.alloc_none hm, ok_bind, if_true, pure_eq_ok]
        exact ⟨book, rfl, h, fun _ => rfl⟩
      | some x =>
        obtain ⟨id, b₁⟩ := x
        obtain ⟨pool', halloc, hrep, hne, hid, hfree⟩ := h.alloc_some hm
        obtain ⟨book', hrun, hrep'⟩ := hrep.execute_rep side type price qty hid hfree
        simp only [halloc, ok_bind, if_neg hne, hrun, OrderBook.assertUncrossed, if_true,
          pure_eq_ok]
        exact ⟨book', rfl, hrep', fun e => absurd e hne⟩

theorem addLimit_rep (h : BookRep cfg book b []) (side : Side) (price : PriceTicks) (qty : Qty) :
    ∃ book', book.addLimit side price qty = .ok ((b.addLimit side price qty).1, book') ∧
      BookRep cfg book' (b.addLimit side price qty).2 [] := by
  unfold OrderBook.addLimit QueueBook.addLimit
  by_cases hbad : qty = 0 ∨ price ≤ 0
  · simp only [if_pos hbad, pure_eq_ok]
    exact ⟨book, rfl, h⟩
  · simp only [if_neg hbad]
    cases hm : b.mint with
    | none =>
      simp only [h.alloc_none hm, ok_bind, if_true, pure_eq_ok]
      exact ⟨book, rfl, h⟩
    | some x =>
      obtain ⟨id, b₁⟩ := x
      obtain ⟨pool', halloc, hrep, hne, hid, hfree⟩ := h.alloc_some hm
      have hpos : 1 ≤ qty.toNat := toNat_pos.mpr fun hz => hbad (.inl hz)
      obtain ⟨pool₁, l', pool₂, hmod, hpush, hrep'⟩ := hrep.rest side .kLimit
        price qty hid hfree hpos (le_refl _)
      simp only [OrderBook.ladder_with_pool] at hpush
      simp only [halloc, ok_bind, if_neg hne, hmod, hpush, pure_eq_ok]
      exact ⟨_, rfl, hrep'⟩

theorem mem_queue_side (h : BookRep cfg book b pending) (hm : m ∈ b.resting) :
    m ∈ b.queue m.side := by
  obtain ⟨t, ht⟩ := QueueBook.mem_resting.mp hm
  rwa [QueueBook.queue_congr (h.side_eq ht)]

theorem queue_sorted (h : BookRep cfg book b pending) (s : Side) :
    Sorted s.resolve.Better Resting.price (b.queue s) := by
  have hs := (h.ladder s).sorted
  rw [h.side] at hs
  refine List.Pairwise.imp_of_mem ?_ (List.pairwise_map.mp hs)
  intro x y hx hy hxy
  rwa [h.price_slot hx, h.price_slot hy] at hxy

theorem wf (h : BookRep cfg book b pending) : b.WF where
  sorted := h.queue_sorted
  side _ _ := h.side_eq
  ids := by
    have hd := h.nodup_resting
    rw [slots, show (Resting.slot : Resting → UInt32) = indexOf ∘ Resting.id from rfl,
      ← List.map_map] at hd
    exact hd.of_map

theorem find_rep (h : BookRep cfg book b []) (id : OrderId) :
    book.pool.find id = (b.find id).map fun r => book.pool.slot r.slot := by
  cases hf : b.find id with
  | none =>
    cases hp : book.pool.find id with
    | none => rfl
    | some o =>
      obtain ⟨hl, he, _⟩ := OrderPool.find_eq_some.mp hp
      rcases (h.live _).mp hl with hm | hm
      · obtain ⟨r, hr, hs⟩ := List.mem_map.mp hm
        have hid : r.id = id := by
          rw [← he, ← hs]
          exact (congrArg Resting.id (h.stored r hr)).symm
        exact absurd (List.find?_eq_none.mp hf r hr) (by simp [hid])
      · cases hm
  | some r =>
    have hr := List.mem_of_find?_eq_some hf
    have hid : r.id = id := by simpa using List.find?_some hf
    refine OrderPool.find_eq_some.mpr ?_
    have hs : indexOf id = r.slot := by rw [← hid]; rfl
    rw [hs]
    refine ⟨(h.live _).mpr (.inl (mem_slots_of_mem hr)), ?_, rfl⟩
    rw [← hid]
    exact congrArg Resting.id (h.stored r hr)

theorem filter_remove {A B : List Resting} {r : Resting} (hd : (slots (A ++ r :: B)).Nodup) :
    (A ++ r :: B).filter (fun x => x.id ≠ r.id) = A ++ B := by
  rw [slots_append, slots_cons] at hd
  have hmid := List.nodup_cons.mp (List.nodup_middle.mp hd)
  have hne : ∀ x ∈ A ++ B, x.id ≠ r.id := by
    intro x hx he
    refine hmid.1 ?_
    rw [← slots_append, show r.slot = x.slot from congrArg indexOf he.symm]
    exact mem_slots_of_mem hx
  have hkeep : (A ++ B).filter (fun x => x.id ≠ r.id) = A ++ B :=
    List.filter_eq_self.mpr (fun x hx => by simpa using hne x hx)
  rw [List.filter_append] at hkeep ⊢
  rw [List.filter_cons_of_neg (by simp)]
  exact hkeep

theorem cancel_open (h : BookRep cfg book b []) (hr : m ∈ b.resting) :
    ∃ book' pool, book.cancel m.id = .ok (true, book',
        [makeEvent .kCanceled m.side .kNone m.remaining 0 m.price m.id]) ∧
      BookRep cfg book' (b.remove m) [] ∧ book'.pool = pool.release m.slot ∧
      book.pool.Relinks pool (· ∈ slots (b.queue m.side)) ∧ (pool.slot m.slot).Unlinked := by
  have hfind := h.find_rep m.id
  rw [(QueueBook.find_iff h.wf).mpr ⟨hr, rfl⟩, Option.map_some] at hfind
  have hrq := h.mem_queue_side hr
  have hs : (book.pool.slot m.slot).side = m.side := congrArg Resting.side (h.stored m hr)
  obtain ⟨A, B, hAB⟩ := List.append_of_mem hrq
  obtain ⟨l', pool', hrun, hrep, hre, hunlinked⟩ := h.unlink hAB
  obtain ⟨hfree, hrep₂⟩ := hrep.free
  rw [OrderBook.setLadder_pool] at hfree
  have hcancel := OrderBook.cancel_ok hfind (by rw [hs]; exact hrun) hfree
  rw [hs, h.remaining_slot hrq, show (book.pool.slot m.slot).priceTicks = m.price from
    h.price_slot hrq] at hcancel
  have hrm : b.remove m = (b.setQueue m.side (A ++ B)).release [m.slot] := by
    rw [QueueBook.remove, hAB, filter_remove (hAB ▸ h.slots_nodup m.side)]
  rw [OrderBook.setLadder_pool, OrderBook.setLadder_with_pool, ← hrm] at hrep₂
  exact ⟨_, pool', hcancel, hrep₂, OrderBook.setLadder_pool, hre, hunlinked⟩

theorem cancel_rep (h : BookRep cfg book b []) (id : OrderId) :
    ∃ book', book.cancel id = .ok ((b.cancel id).1, book', (b.cancel id).2.2) ∧
      BookRep cfg book' (b.cancel id).2.1 [] := by
  unfold QueueBook.cancel
  cases hf : b.find id with
  | none =>
    have hfind := h.find_rep id
    rw [hf, Option.map_none] at hfind
    exact ⟨book, OrderBook.cancel_unknown hfind, h⟩
  | some r =>
    obtain ⟨hr, rfl⟩ := (QueueBook.find_iff h.wf).mp hf
    obtain ⟨book', _, hrun, hrep, _⟩ := h.cancel_open hr
    exact ⟨book', hrun, hrep⟩

/-! The queries. -/

theorem contains_rep (h : BookRep cfg book b []) (id : OrderId) :
    book.contains id = (b.find id).isSome := by
  rw [OrderBook.contains, h.find_rep]
  simp

theorem openOrders_rep (h : BookRep cfg book b []) :
    book.openOrders.toNat = b.resting.length := by
  have hperm : (slots b.resting ++ b.free).Perm (OrderPool.indices book.pool.slots.size) := by
    refine (List.perm_ext_iff_of_nodup ?_ (OrderPool.indices_nodup ?_)).mpr (fun i => ?_)
    · refine List.nodup_append.mpr ⟨h.nodup_resting, h.pool.nodup, fun i hi j hj e => ?_⟩
      exact h.pool.not_live hj (e ▸ (h.live i).mpr (.inl hi))
    · have := h.size_lt
      omega
    · rw [List.mem_append, OrderPool.mem_indices (by have := h.size_lt; omega)]
      constructor
      · rintro (hi | hi)
        · exact ((h.live i).mpr (.inl hi)).1
        · exact ((h.pool.mem i).mp hi).1
      · intro hi
        rcases h.pool.mem_or_live hi with hf | hl
        · exact .inr hf
        · rcases (h.live i).mp hl with hm | hm
          · exact .inl hm
          · cases hm
  have hlen := hperm.length_eq
  have hlive := h.pool.live
  simp only [List.length_append, slots, List.length_map, OrderPool.indices, List.length_range]
    at hlen
  rw [OrderBook.openOrders]
  omega

theorem best_rep (h : BookRep cfg book b pending) (s : Side) :
    (if (book.ladder s).empty then pure none
      else do
        let p ← (book.ladder s).bestPrice
        pure (some p)) = .ok ((b.queue s).head?.map Resting.price) := by
  cases hq : b.queue s with
  | nil =>
    rw [if_pos ((h.empty_iff s).mpr hq)]
    rfl
  | cons m M =>
    rw [if_neg (by rw [h.empty_iff, hq]; simp), (h.front_level hq).1]
    rfl

theorem bestBid_rep (h : BookRep cfg book b pending) :
    book.bestBid = .ok (b.bids.head?.map Resting.price) := h.best_rep .kBuy

theorem bestAsk_rep (h : BookRep cfg book b pending) :
    book.bestAsk = .ok (b.asks.head?.map Resting.price) := h.best_rep .kSell

theorem atPrice_rep (h : BookRep cfg book b pending) (s : Side) (p : PriceTicks) :
    atPrice book.pool (slots (b.queue s)) p = slots (b.atPrice s p) := by
  rw [LimitOrderBook.atPrice, slots, List.filter_map, QueueBook.atPrice, priced, slots]
  refine congrArg _ (List.filter_congr fun r hr => ?_)
  simp only [Function.comp_apply, h.price_slot hr]

theorem openQty_rep (h : BookRep cfg book b pending) {s : Side} {N : List Resting}
    (hN : ∀ r ∈ N, r ∈ b.queue s) :
    openQty book.pool (slots N) = (N.map fun r => r.remaining.toNat).sum := by
  rw [openQty, slots, List.map_map]
  refine congrArg _ (List.map_congr_left fun r hr => ?_)
  simp only [Function.comp_apply, h.remaining_slot (hN r hr)]

theorem qtyAt_rep (h : BookRep cfg book b pending) (s : Side) (p : PriceTicks) :
    ∃ q, book.qtyAt s p = .ok q ∧ q.toNat = b.qtyAt s p := by
  obtain ⟨r, hfind, hget⟩ := (h.ladder s).findLevel_ok p
  have hlevel := (h.ladder s).level p
  rw [h.atPrice_rep, ← hget] at hlevel
  refine ⟨(r.getD {}).totalQty, ?_, ?_⟩
  · rw [OrderBook.qtyAt, hfind]
    cases r <;> rfl
  · rw [hlevel.qty, h.openQty_rep (N := b.atPrice s p) (fun x hx => (List.mem_filter.mp hx).1)]
    rfl

theorem ordersAt_rep (h : BookRep cfg book b pending) (s : Side) (p : PriceTicks) :
    ∃ n, book.ordersAt s p = .ok n ∧ n.toNat = (b.atPrice s p).length := by
  obtain ⟨r, hfind, hget⟩ := (h.ladder s).findLevel_ok p
  have hlevel := (h.ladder s).level p
  rw [h.atPrice_rep, ← hget] at hlevel
  refine ⟨(r.getD {}).orderCount, ?_, ?_⟩
  · rw [OrderBook.ordersAt, hfind]
    cases r <;> rfl
  · rw [hlevel.count, slots, List.length_map]

theorem uncrossed_rep (h : BookRep cfg book b pending) :
    ∃ ok, book.uncrossed = .ok ok ∧ (ok = true ↔ b.Uncrossed) := by
  have hbid := h.empty_iff .kBuy
  have hask := h.empty_iff .kSell
  change book.bids.empty = true ↔ b.bids = [] at hbid
  change book.asks.empty = true ↔ b.asks = [] at hask
  unfold OrderBook.uncrossed QueueBook.Uncrossed
  by_cases hempty : book.bids.empty = true ∨ book.asks.empty = true
  · rw [if_pos hempty]
    refine ⟨true, rfl, iff_of_true rfl ?_⟩
    rw [hbid, hask] at hempty
    rcases hempty with he | he <;> simp [he]
  · rw [if_neg hempty]
    rw [hbid, hask] at hempty
    obtain ⟨x, X, hX⟩ := List.exists_cons_of_ne_nil (not_or.mp hempty).1
    obtain ⟨y, Y, hY⟩ := List.exists_cons_of_ne_nil (not_or.mp hempty).2
    have h₁ := (h.front_level (s := .kBuy) hX).1
    have h₂ := (h.front_level (s := .kSell) hY).1
    change book.bids.bestPrice = _ at h₁
    change book.asks.bestPrice = _ at h₂
    refine ⟨decide (x.price < y.price), by rw [h₁, h₂]; rfl, ?_⟩
    have hsx : Sorted Side.kBuy.Better Resting.price (x :: X) := hX ▸ h.queue_sorted .kBuy
    have hsy : Sorted Side.kSell.Better Resting.price (y :: Y) := hY ▸ h.queue_sorted .kSell
    rw [decide_eq_true_eq, hX, hY]
    refine ⟨fun hxy u hu v hv => ?_, fun hall => hall x (by simp) y (by simp)⟩
    have hu' : u.price.toInt ≤ x.price.toInt := by
      rcases List.mem_cons.mp hu with rfl | hu
      · exact le_refl _
      · have := hsx.head_best u hu
        rw [Side.better_buy] at this
        omega
    have hv' : y.price.toInt ≤ v.price.toInt := by
      rcases List.mem_cons.mp hv with rfl | hv
      · exact le_refl _
      · have := hsy.head_best v hv
        rw [Side.better_of_ne (by decide)] at this
        omega
    rw [Int64.lt_iff_toInt_lt] at hxy ⊢
    omega

end BookRep

end LimitOrderBook
