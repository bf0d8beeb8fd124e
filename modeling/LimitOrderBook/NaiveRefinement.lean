import LimitOrderBook.NaiveBook

set_option autoImplicit false

namespace LimitOrderBook
open Checked PriorityQueue

theorem priced_cons (r : Resting) (M : List Resting) (p : PriceTicks) :
    priced (r :: M) p = if r.price = p then r :: priced M p else priced M p := by
  simp [priced, List.filter_cons]

theorem mem_priced {r : Resting} {M : List Resting} {p : PriceTicks} :
    r ∈ priced M p ↔ r ∈ M ∧ r.price = p := by
  simp [priced]

section Map

variable {cmp : PriceTicks → PriceTicks → Ordering} [Std.TransCmp cmp] [Std.LawfulEqCmp cmp]

/-- The map holds a queue, cut at its prices; no level is empty. -/
structure SideRep (m : Levels cmp) (Q : List Resting) : Prop where
  level : ∀ p, m.getD p [] = priced Q p
  mem : ∀ p, p ∈ m ↔ priced Q p ≠ []

namespace SideRep

variable {m : Levels cmp} {Q Q' : List Resting} {p : PriceTicks} {r : Resting}
  {lt : PriceTicks → PriceTicks → Prop}

omit [Std.LawfulEqCmp cmp] in
theorem nil : SideRep (∅ : Levels cmp) [] := ⟨fun p => by simp [priced], fun p => by simp [priced]⟩

theorem insert (h : SideRep m Q) (Q' : List Resting) (p : PriceTicks) (level : List Resting)
    (hp : priced Q' p = level)
    (hne : level ≠ []) (hother : ∀ q, q ≠ p → priced Q' q = priced Q q) :
    SideRep (m.insert p level) Q' := by
  subst hp
  refine ⟨fun q => ?_, fun q => ?_⟩
  · by_cases hq : p = q
    · subst hq
      simp
    · rw [Std.ExtTreeMap.getD_insert, if_neg (by simpa using hq), hother q (Ne.symm hq), h.level]
  · by_cases hq : p = q
    · subst hq
      simp [hne]
    · rw [Std.ExtTreeMap.mem_insert, hother q (Ne.symm hq), ← h.mem]
      simp [hq]

theorem erase (h : SideRep m Q) (hp : priced Q' p = [])
    (hother : ∀ q, q ≠ p → priced Q' q = priced Q q) : SideRep (m.erase p) Q' := by
  refine ⟨fun q => ?_, fun q => ?_⟩
  · by_cases hq : p = q
    · subst hq
      simp [hp]
    · rw [Std.ExtTreeMap.getD_erase, if_neg (by simpa using hq), hother q (Ne.symm hq), h.level]
  · by_cases hq : p = q
    · subst hq
      simp [hp]
    · rw [Std.ExtTreeMap.mem_erase, hother q (Ne.symm hq), ← h.mem]
      simp [hq]

theorem write (h : SideRep m Q) (Q' : List Resting) (p : PriceTicks) {level : List Resting}
    (hp : priced Q' p = level)
    (hother : ∀ q, q ≠ p → priced Q' q = priced Q q) :
    SideRep (if level.isEmpty then m.erase p else m.insert p level) Q' := by
  by_cases he : level = []
  · rw [if_pos (by simp [he])]
    exact h.erase (hp.trans he) hother
  · rw [if_neg (by simpa using he)]
    exact h.insert Q' p level hp he hother

omit [Std.LawfulEqCmp cmp] in
theorem head_nil (h : SideRep m []) : m.keys.head? = none := by
  have hm : m = ∅ := Std.ExtTreeMap.eq_empty_iff_forall_not_mem.mpr
    (fun p hp => (h.mem p).mp hp rfl)
  simp [hm]

theorem head_cons (hcmp : ∀ a b, (cmp a b).isLE = true ↔ ¬ lt b a) (h : SideRep m (r :: Q))
    (hs : Sorted lt Resting.price (r :: Q)) (hirr : ∀ a, ¬ lt a a) :
    m.keys.head? = some r.price := by
  rw [← Std.ExtTreeMap.minKey?_eq_head?_keys, Std.ExtTreeMap.minKey?_eq_some_iff_mem_and_forall]
  refine ⟨(h.mem _).mpr (by simp [priced_cons]), fun k hk => ?_⟩
  obtain ⟨x, hx⟩ := List.exists_mem_of_ne_nil _ ((h.mem k).mp hk)
  obtain ⟨hxQ, rfl⟩ := mem_priced.mp hx
  rw [hcmp]
  rcases List.mem_cons.mp hxQ with rfl | hxQ
  · exact hirr _
  · exact hs.head_best x hxQ

end SideRep

end Map

def Resting.locator (r : Resting) : Locator := { side := r.side, price := r.price, it := r.id }

/-- The index holds exactly the orders of a list, each under its id. -/
structure IndexRep (index : Index) (R : List Resting) : Prop where
  entry : ∀ id loc, index[id]? = some loc ↔ ∃ r ∈ R, r.id = id ∧ r.locator = loc
  size : index.size = R.length

namespace IndexRep

variable {index : Index} {R R' : List Resting} {r : Resting}

theorem nil : IndexRep ∅ [] := ⟨by simp, by simp⟩

theorem perm (h : IndexRep index R) (hp : R.Perm R') : IndexRep index R' :=
  ⟨fun id loc => by simp only [h.entry, hp.mem_iff], by rw [h.size, hp.length_eq]⟩

theorem mem_iff (h : IndexRep index R) {id : OrderId} : id ∈ index ↔ ∃ r ∈ R, r.id = id := by
  rw [Std.ExtTreeMap.mem_iff_isSome_getElem?, Option.isSome_iff_exists]
  simp only [h.entry]
  exact ⟨fun ⟨_, r, hr, e, _⟩ => ⟨r, hr, e⟩, fun ⟨r, hr, e⟩ => ⟨_, r, hr, e, rfl⟩⟩

theorem erase (h : IndexRep index (r :: R)) (hu : UniqueIds (r :: R)) :
    IndexRep (index.erase r.id) R := by
  have hr : ∀ x ∈ R, x.id ≠ r.id := by
    intro x hx he
    exact (List.nodup_cons.mp hu).1 (List.mem_map.mpr ⟨x, hx, he⟩)
  refine ⟨fun id loc => ?_, ?_⟩
  · rw [Std.ExtTreeMap.getElem?_erase]
    by_cases hid : r.id = id
    · subst hid
      simpa using fun x hx he => absurd he (hr x hx)
    · rw [if_neg (by simpa using hid), h.entry]
      simp [hid]
  · have hmem : r.id ∈ index := h.mem_iff.mpr ⟨r, by simp, rfl⟩
    rw [Std.ExtTreeMap.size_erase, if_pos (Std.ExtTreeMap.contains_iff_mem.mpr hmem), h.size]
    rfl

theorem insert (h : IndexRep index R) (hr : ∀ x ∈ R, x.id ≠ r.id) :
    IndexRep (index.insertIfNew r.id r.locator) (r :: R) := by
  have hmem : r.id ∉ index := fun hm => by
    obtain ⟨x, hx, he⟩ := h.mem_iff.mp hm
    exact hr x hx he
  refine ⟨fun id loc => ?_, ?_⟩
  · rw [Std.ExtTreeMap.getElem?_insertIfNew]
    by_cases hid : r.id = id
    · subst hid
      rw [if_pos ⟨by simp, hmem⟩]
      constructor
      · intro e
        exact ⟨r, by simp, rfl, Option.some.inj e⟩
      · rintro ⟨x, hx, he, rfl⟩
        rcases List.mem_cons.mp hx with rfl | hx
        · rfl
        · exact absurd he (hr x hx)
    · rw [if_neg (by simp [hid]), h.entry]
      simp [hid]
  · rw [Std.ExtTreeMap.size_insertIfNew, if_neg hmem, h.size]
    rfl

theorem refill (h : IndexRep index (r :: R)) (left : Qty) :
    IndexRep index ({ r with remaining := left } :: R) := by
  refine ⟨fun id loc => ?_, h.size⟩
  rw [h.entry]
  simp only [List.mem_cons, exists_eq_or_imp]
  rfl

end IndexRep

namespace NaiveBook

variable {cmp : PriceTicks → PriceTicks → Ordering} [Std.TransCmp cmp] [Std.LawfulEqCmp cmp]
  {lt : PriceTicks → PriceTicks → Prop} {side : Side} {limit : PriceTicks} {id : OrderId}

/-- The loop of the reference book is the same sweep. -/
theorem matchLoop_rep (side : Side) (limit : PriceTicks) (id : OrderId)
    (hcmp : ∀ a b, (cmp a b).isLE = true ↔ ¬ lt b a) (hirr : ∀ a, ¬ lt a a)
    (reach : PriceTicks → Bool) (hreach : ∀ p, reach p = crosses side limit p)
    (R M : List Resting) : ∀ (m : Levels cmp) (index : Index) (remaining : Qty)
    (events : List Event) (fuel : Nat), SideRep m M → Sorted lt Resting.price M →
    IndexRep index (M ++ R) → UniqueIds (M ++ R) → M.length < fuel →
    ∃ m' index', matchLoop reach id side fuel m index remaining events =
        .ok (m', index', (sweep side limit id remaining M).remaining,
          events ++ (sweep side limit id remaining M).events) ∧
      SideRep m' (sweep side limit id remaining M).rest ∧
      IndexRep index' ((sweep side limit id remaining M).rest ++ R) := by
  induction M with
  | nil =>
    intro m index remaining events fuel hm hs hi hu hf
    obtain ⟨fuel, rfl⟩ : ∃ k, fuel = k + 1 := ⟨fuel - 1, by omega⟩
    exact ⟨m, index, by simp [matchLoop, hm.head_nil, sweep], hm, hi⟩
  | cons r M ih =>
    intro m index remaining events fuel hm hs hi hu hf
    obtain ⟨fuel, rfl⟩ : ∃ k, fuel = k + 1 := ⟨fuel - 1, by omega⟩
    have hhead := hm.head_cons hcmp hs hirr
    have hlevel : m.getD r.price [] = r :: priced M r.price := by
      rw [hm.level, priced_cons, if_pos rfl]
    by_cases hstop : remaining = 0 ∨ ¬ crosses side limit r.price
    · refine ⟨m, index, ?_, ?_, ?_⟩
      · simp only [matchLoop, hhead, hreach, if_pos hstop, sweep_stop hstop, pure_eq_ok,
          List.append_nil]
      · rw [sweep_stop hstop]
        exact hm
      · rw [sweep_stop hstop]
        exact hi
    · have hother : ∀ q, q ≠ r.price → priced M q = priced (r :: M) q := by
        intro q hq
        rw [priced_cons, if_neg (Ne.symm hq)]
      by_cases hleft : r.remaining - min remaining r.remaining = 0
      · have hm' := hm.write M r.price rfl hother
        obtain ⟨m', index', hrun, hm'', hi''⟩ := ih _ _ (remaining - min remaining r.remaining)
          (events ++ tradedPair side id r (min remaining r.remaining)
            (r.remaining - min remaining r.remaining) (remaining - min remaining r.remaining))
          fuel hm' hs.tail (hi.erase hu) (List.nodup_cons.mp hu).2 (by simpa using hf)
        rw [sweep_filled hstop hleft]
        refine ⟨m', index', ?_, hm'', hi''⟩
        simp only [matchLoop, hhead, hreach, if_neg hstop, hlevel, if_pos hleft]
        rw [List.append_assoc] at hrun
        exact hrun
      · have hzero : remaining - min remaining r.remaining = 0 := left_zero hleft
        have hm' := hm.insert ({ r with remaining := r.remaining - min remaining r.remaining } :: M)
          r.price
          ({ r with remaining := r.remaining - min remaining r.remaining } :: priced M r.price)
          (by rw [priced_cons, if_pos rfl]) (by simp)
          (fun q hq => by rw [priced_cons, if_neg (Ne.symm hq), hother q hq])
        obtain ⟨fuel, rfl⟩ : ∃ k, fuel = k + 1 := ⟨fuel - 1, by simp at hf; omega⟩
        rw [sweep_left hstop hleft]
        refine ⟨_, index, ?_, hm', hi.refill _⟩
        have hs' : Sorted lt Resting.price
            ({ r with remaining := r.remaining - min remaining r.remaining } :: M) :=
          List.pairwise_cons.mpr ⟨hs.head_best, hs.tail⟩
        rw [matchLoop, hhead]
        simp only [hreach, if_neg hstop, hlevel, if_neg hleft]
        rw [matchLoop, hm'.head_cons hcmp hs' hirr]
        simp only [hzero, true_or, if_true, pure_eq_ok]
        rfl

end NaiveBook

theorem compare_isLE (a b : PriceTicks) : (compare a b).isLE = true ↔ ¬ Side.kSell.Better b a := by
  rw [Std.isLE_compare, Int64.le_iff_toInt_le, Side.better_of_ne (by decide), not_lt]

theorem greater_isLE (a b : PriceTicks) : (greater a b).isLE = true ↔ ¬ Side.kBuy.Better b a := by
  rw [greater, Std.isLE_compare, Int64.le_iff_toInt_le, Side.better_buy, not_lt]

structure NaiveRep (n : NaiveBook) (b : QueueBook) : Prop where
  bids : SideRep n.bids b.bids
  asks : SideRep n.asks b.asks
  index : IndexRep n.index b.resting

theorem resting_perm (b : QueueBook) : (b.asks ++ b.bids).Perm b.resting :=
  List.perm_append_comm

theorem crosses_takerLimit (side : Side) (type : OrderType) (price levelPx : PriceTicks) :
    crosses side (takerLimit side type price) levelPx =
      (decide (type = .kMarket) || if side = .kBuy then decide (levelPx ≤ price)
        else decide (price ≤ levelPx)) := by
  have hmax : levelPx ≤ Int64.maxValue := by
    rw [Int64.le_iff_toInt_le]
    have := levelPx.toInt_lt
    have hm : Int64.maxValue.toInt = 2 ^ 63 - 1 := rfl
    omega
  have hmin : Int64.minValue ≤ levelPx := by
    rw [Int64.le_iff_toInt_le]
    have := levelPx.le_toInt
    have hm : Int64.minValue.toInt = -2 ^ 63 := rfl
    omega
  unfold crosses takerLimit
  by_cases ht : type = .kMarket <;> by_cases hs : side = .kBuy <;> simp [ht, hs, hmax, hmin]

namespace NaiveRep

variable {n : NaiveBook} {b : QueueBook} {id : OrderId} {side : Side} {type : OrderType}
  {price : PriceTicks} {qty remaining : Qty}

theorem empty (capacity : UInt32) : NaiveRep {} (QueueBook.new capacity) :=
  ⟨SideRep.nil, SideRep.nil, IndexRep.nil⟩

theorem congr {b' : QueueBook} (h : NaiveRep n b) (hb : b'.bids = b.bids) (ha : b'.asks = b.asks) :
    NaiveRep n b' :=
  ⟨hb ▸ h.bids, ha ▸ h.asks, by rw [QueueBook.resting, hb, ha]; exact h.index⟩

theorem contains_iff (h : NaiveRep n b) : n.contains id = true ↔ ∃ r ∈ b.resting, r.id = id := by
  rw [NaiveBook.contains, Std.ExtTreeMap.contains_iff_mem, h.index.mem_iff]

theorem sweepOpposite_rep (id : OrderId) (side : Side) (type : OrderType) (price : PriceTicks)
    (qty : Qty) (h : NaiveRep n b) (wf : b.WF) :
    ∃ n', n.sweepOpposite id side (decide (type = .kMarket)) price qty =
        .ok (n', (sweep side (takerLimit side type price) id qty (b.queue side.opposite)).remaining,
          (sweep side (takerLimit side type price) id qty (b.queue side.opposite)).events) ∧
      NaiveRep n' (b.settle side
        (sweep side (takerLimit side type price) id qty (b.queue side.opposite))) := by
  have hlen := h.index.size
  rw [QueueBook.resting, List.length_append] at hlen
  have hreach := crosses_takerLimit side type price
  by_cases hs : side = .kBuy
  · have hopp : side.opposite = .kSell := if_pos hs
    rw [hopp, show b.queue .kSell = b.asks from rfl]
    obtain ⟨m', index', hrun, hm, hi⟩ := NaiveBook.matchLoop_rep side
      (takerLimit side type price) id compare_isLE (fun a => irrefl_of Side.kSell.Better a)
      (fun levelPx => decide (type = .kMarket) || decide (levelPx ≤ price))
      (fun p => by rw [hreach, if_pos hs]) b.bids b.asks n.asks n.index qty [] (n.index.size + 1)
      h.asks (wf.sorted .kSell) (h.index.perm (resting_perm b).symm)
      (((resting_perm b).map _).nodup_iff.mpr wf.ids) (by omega)
    refine ⟨{ n with asks := m', index := index' }, ?_, ?_⟩
    · rw [NaiveBook.sweepOpposite, if_pos hs]
      simp only [hrun, ok_bind, pure_eq_ok, List.nil_append]
    · have hset : b.settle side (sweep side (takerLimit side type price) id qty b.asks) =
          ({ b with asks := (sweep side (takerLimit side type price) id qty b.asks).rest } :
            QueueBook).release ((sweep side (takerLimit side type price) id qty b.asks).filled.map
              Resting.slot) := by
        rw [QueueBook.settle, hopp]
        rfl
      rw [hset]
      exact ⟨h.bids, hm, hi.perm List.perm_append_comm⟩
  · have hopp : side.opposite = .kBuy := if_neg hs
    rw [hopp, show b.queue .kBuy = b.bids from rfl]
    obtain ⟨m', index', hrun, hm, hi⟩ := NaiveBook.matchLoop_rep side
      (takerLimit side type price) id greater_isLE (fun a => irrefl_of Side.kBuy.Better a)
      (fun levelPx => decide (type = .kMarket) || decide (price ≤ levelPx))
      (fun p => by rw [hreach, if_neg hs]) b.asks b.bids n.bids n.index qty [] (n.index.size + 1)
      h.bids (wf.sorted .kBuy) h.index wf.ids (by omega)
    refine ⟨{ n with bids := m', index := index' }, ?_, ?_⟩
    · rw [NaiveBook.sweepOpposite, if_neg hs]
      simp only [hrun, ok_bind, pure_eq_ok, List.nil_append]
    · have hset : b.settle side (sweep side (takerLimit side type price) id qty b.bids) =
          ({ b with bids := (sweep side (takerLimit side type price) id qty b.bids).rest } :
            QueueBook).release ((sweep side (takerLimit side type price) id qty b.bids).filled.map
              Resting.slot) := by
        rw [QueueBook.settle, hopp]
        rfl
      rw [hset]
      exact ⟨hm, h.asks, hi⟩

theorem pushBack_rep {cmp : PriceTicks → PriceTicks → Ordering} [Std.TransCmp cmp]
    [Std.LawfulEqCmp cmp] {m : Levels cmp} {Q : List Resting} (hm : SideRep m Q) {s : Side}
    (hs : Sorted s.Better Resting.price Q) (r : Resting) :
    SideRep (NaiveBook.pushBack m r) (enqueue s.Better Resting.price r Q) := by
  have hfilter := hs.filter_key_enqueue r
  refine hm.insert _ r.price _ ?_ (by simp) (fun q hq => ?_)
  · rw [hm.level]
    exact (hfilter r.price).trans (by rw [if_pos rfl]; rfl)
  · exact (hfilter q).trans (by rw [if_neg (Ne.symm hq), List.append_nil]; rfl)

theorem rest_rep (h : NaiveRep n b) (hs : Sorted side.resolve.Better Resting.price (b.queue side))
    (hid : ∀ r ∈ b.resting, r.id ≠ id) :
    NaiveRep (n.rest id side price qty remaining)
      (b.rest { id, price, qty, remaining, side }) := by
  have hi := h.index.insert (r := { id, price, qty, remaining, side }) hid
  by_cases hb : side = .kBuy
  · subst hb
    refine ⟨pushBack_rep h.bids hs _, h.asks, hi.perm ?_⟩
    exact ((enqueue_perm _ b.bids).append_right b.asks).symm
  · have hq : b.queue side = b.asks := if_neg hb
    have hres : side.resolve = .kSell := if_neg hb
    rw [hq, hres] at hs
    have hrest : b.rest { id, price, qty, remaining, side } =
        { b with asks := (enqueue Side.kSell.Better Resting.price
          { id, price, qty, remaining, side } b.asks) } := by
      rw [QueueBook.rest, QueueBook.setQueue, if_neg hb, hq, hres]
    rw [hrest, NaiveBook.rest]
    simp only [if_neg hb]
    refine ⟨h.bids, pushBack_rep h.asks hs _, hi.perm ?_⟩
    exact List.perm_middle.symm.trans ((enqueue_perm _ b.asks).symm.append_left b.bids)

theorem settle_queue (b : QueueBook) (side : Side) (s : Sweep) :
    (b.settle side s).queue side = b.queue side := by
  rw [QueueBook.settle, QueueBook.queue_release, QueueBook.queue_setQueue]
  simp

theorem settle_mem {r : Resting} {limit : PriceTicks} {k : OrderId}
    (hr : r ∈ (b.settle side (sweep side limit k qty (b.queue side.opposite))).resting) :
    ∃ x ∈ b.resting, x.id = r.id := by
  obtain ⟨t, ht⟩ := QueueBook.mem_resting.mp hr
  rw [QueueBook.settle, QueueBook.queue_release, QueueBook.queue_setQueue] at ht
  split at ht
  · have hids := sweep_ids side limit k (b.queue side.opposite) qty
    have hmem : r.id ∈ (b.queue side.opposite).map Resting.id := by
      rw [← hids, List.map_append]
      exact List.mem_append_right _ (List.mem_map_of_mem ht)
    obtain ⟨x, hx, he⟩ := List.mem_map.mp hmem
    exact ⟨x, QueueBook.mem_resting.mpr ⟨_, hx⟩, he⟩
  · exact ⟨r, QueueBook.mem_resting.mpr ⟨t, ht⟩, rfl⟩

section Caller

variable (hid : id ≠ kInvalidOrderId) (hfresh : ∀ r ∈ b.resting, r.id ≠ id)

include hfresh in
theorem not_contains (h : NaiveRep n b) : ¬ n.contains id = true := by
  rw [h.contains_iff]
  rintro ⟨r, hr, he⟩
  exact hfresh r hr he

include hid hfresh

theorem add_refused (h : NaiveRep n b) {reason : RejectReason}
    (hr : QueueBook.refusal type price qty = some reason) :
    n.add id side type price qty =
      .ok (false, n, [makeEvent .kRejected side reason qty 0 price id]) := by
  rw [NaiveBook.add, assert_pos hid, ok_bind, assert_pos (h.not_contains hfresh), ok_bind]
  unfold QueueBook.refusal at hr
  by_cases hq : qty = 0
  · rw [if_pos hq, Option.some.injEq] at hr
    simp only [if_pos hq, pure_eq_ok, hr]
  · rw [if_neg hq] at hr
    split at hr
    · rename_i hp
      rw [Option.some.injEq] at hr
      simp only [if_neg hq, decide_eq_true_eq, hr]
      rw [if_pos hp]
      rfl
    · cases hr

theorem add_admitted (side : Side) (h : NaiveRep n b) (wf : b.WF)
    (hr : QueueBook.refusal type price qty = none) :
    ∃ n', n.add id side type price qty = .ok (true, n', (b.execute id side type price qty).2) ∧
      NaiveRep n' (b.execute id side type price qty).1 := by
  have hq : qty ≠ 0 := by
    rintro rfl
    simp [QueueBook.refusal] at hr
  have hp : ¬ (¬ decide (type = .kMarket) = true ∧ price ≤ 0) := by
    intro hp
    rw [decide_eq_true_eq] at hp
    simp [QueueBook.refusal, hq, hp] at hr
  obtain ⟨n₁, hrun, hrep⟩ := h.sweepOpposite_rep id side type price qty wf
  have hqueue := settle_queue b side
    (sweep side (takerLimit side type price) id qty (b.queue side.opposite))
  have hmem : ∀ r ∈ (b.settle side
      (sweep side (takerLimit side type price) id qty (b.queue side.opposite))).resting,
      r.id ≠ id := fun r hr => by
    obtain ⟨x, hx, he⟩ := settle_mem hr
    exact fun e => hfresh x hx (he.trans e)
  simp only [NaiveBook.add, assert_pos hid, ok_bind, assert_pos (h.not_contains hfresh), if_neg hq,
    if_neg hp, hrun, QueueBook.execute]
  generalize sweep side (takerLimit side type price) id qty (b.queue side.opposite) = s at *
  by_cases hz : s.remaining = 0
  · have hz' : ¬ 0 < s.remaining := by rw [hz]; decide
    simp only [decide_eq_true_eq, if_neg hz', if_pos (Or.inl hz), pure_eq_ok, List.append_nil]
    exact ⟨_, rfl, hrep.congr rfl rfl⟩
  · have hz' : 0 < s.remaining := UInt32.pos_iff_ne_zero.mpr hz
    by_cases ht : type = .kLimit
    · have hstop : ¬ (s.remaining = 0 ∨ type ≠ .kLimit) := by simp [hz, ht]
      simp only [decide_eq_true_eq, if_pos hz', if_pos ht, if_neg hstop, pure_eq_ok]
      exact ⟨_, rfl, hrep.rest_rep (by rw [hqueue]; exact wf.sorted side) hmem⟩
    · simp only [decide_eq_true_eq, if_pos hz', if_neg ht, if_pos (Or.inr ht), pure_eq_ok]
      exact ⟨_, rfl, hrep.congr rfl rfl⟩

theorem addLimit_refused (side : Side) (h : NaiveRep n b) (hr : qty = 0 ∨ price ≤ 0) :
    ∃ es, n.addLimit id side price qty = .ok (false, n, es) := by
  rw [NaiveBook.addLimit, assert_pos hid, ok_bind, assert_pos (h.not_contains hfresh), ok_bind]
  by_cases hq : qty = 0
  · exact ⟨_, by simp only [if_pos hq]; rfl⟩
  · simp only [if_neg hq, if_pos (hr.resolve_left hq)]
    exact ⟨_, rfl⟩

theorem addLimit_admitted (side : Side) (h : NaiveRep n b) (wf : b.WF)
    (hr : ¬ (qty = 0 ∨ price ≤ 0)) :
    ∃ n', n.addLimit id side price qty =
        .ok (true, n', [makeEvent .kAccepted side .kNone qty qty price id]) ∧
      NaiveRep n' (b.rest { id, price, qty, remaining := qty, side }) := by
  rw [NaiveBook.addLimit, assert_pos hid, ok_bind, assert_pos (h.not_contains hfresh), ok_bind]
  simp only [if_neg (not_or.mp hr).1, if_neg (not_or.mp hr).2, pure_eq_ok]
  exact ⟨_, rfl, h.rest_rep (wf.sorted side) hfresh⟩

end Caller

theorem contains_rep (h : NaiveRep n b) (wf : b.WF) : n.contains id = (b.find id).isSome := by
  rw [Bool.eq_iff_iff, h.contains_iff, Option.isSome_iff_exists]
  simp only [QueueBook.find_iff wf]

theorem eraseOrder_rep {cmp : PriceTicks → PriceTicks → Ordering} [Std.TransCmp cmp]
    [Std.LawfulEqCmp cmp] {m : Levels cmp} {Q : List Resting} (hm : SideRep m Q)
    (hu : UniqueIds Q) {r : Resting} (hr : r ∈ Q) :
    ∃ m', NaiveBook.eraseOrder m r.locator = .ok m' ∧
      SideRep m' (Q.filter fun x => x.id ≠ r.id) := by
  have hrp : r ∈ priced Q r.price := mem_priced.mpr ⟨hr, rfl⟩
  have hmem : r.locator.price ∈ m := (hm.mem _).mpr (List.ne_nil_of_mem hrp)
  have hup : UniqueIds (priced Q r.price) := hu.sublist (List.filter_sublist.map _)
  refine ⟨_, by rw [NaiveBook.eraseOrder, assert_pos hmem]; rfl, ?_⟩
  refine hm.write _ r.price ?_ (fun q hq => ?_)
  · change _ = (m.getD r.price []).eraseP fun o => o.id = r.id
    rw [hm.level, QueueBook.eraseP_unique hup, priced, priced, List.filter_filter,
      List.filter_filter]
    simp only [Bool.and_comm]
  · rw [priced, priced, List.filter_filter]
    refine List.filter_congr fun x hx => ?_
    by_cases hxq : x.price = q
    · have hne : x.id ≠ r.id := by
        intro he
        have hxr : x = r := List.inj_on_of_nodup_map hu hx hr he
        exact hq (by rw [← hxq, hxr])
      simp [hxq, hne]
    · simp [hxq]

theorem node_rep (h : NaiveRep n b) (wf : b.WF) {r : Resting} (hr : r ∈ b.resting) :
    n.node r.locator = .ok r := by
  have hlevel : (if r.locator.side = .kBuy then n.bids.getD r.locator.price []
      else n.asks.getD r.locator.price []) = priced (b.queue r.side) r.price := by
    change (if r.side = .kBuy then n.bids.getD r.price [] else n.asks.getD r.price []) = _
    rw [QueueBook.queue]
    by_cases hs : r.side = .kBuy
    · rw [if_pos hs, if_pos hs, h.bids.level]
    · rw [if_neg hs, if_neg hs, h.asks.level]
  obtain ⟨t, ht⟩ := QueueBook.mem_resting.mp hr
  have hrq : r ∈ b.queue r.side := by rwa [QueueBook.queue_congr (wf.side t r ht)]
  have hsub : (b.queue r.side).Sublist b.resting := by
    unfold QueueBook.queue QueueBook.resting
    split
    · exact List.sublist_append_left _ _
    · exact List.sublist_append_right _ _
  have hu : UniqueIds (priced (b.queue r.side) r.price) :=
    wf.ids.sublist ((List.filter_sublist.trans hsub).map _)
  have hfind : (priced (b.queue r.side) r.price).find? (fun o => o.id = r.locator.it) = some r :=
    QueueBook.find?_unique hu (mem_priced.mpr ⟨hrq, rfl⟩)
  unfold NaiveBook.node
  simp only [hlevel]
  rw [hfind]

theorem cancel_rep (h : NaiveRep n b) (wf : b.WF) (id : OrderId) :
    ∃ n', n.cancel id = .ok ((b.cancel id).1, n', (b.cancel id).2.2) ∧
      NaiveRep n' (b.cancel id).2.1 := by
  unfold NaiveBook.cancel QueueBook.cancel
  cases hf : b.find id with
  | none =>
    have hnone : n.index[id]? = none := by
      refine Std.ExtTreeMap.getElem?_eq_none (fun hm => ?_)
      obtain ⟨r, hr, he⟩ := h.index.mem_iff.mp hm
      rw [(QueueBook.find_iff wf).mpr ⟨hr, he⟩] at hf
      cases hf
    simp only [hnone, pure_eq_ok]
    exact ⟨n, rfl, h⟩
  | some r =>
    obtain ⟨hr, rfl⟩ := (QueueBook.find_iff wf).mp hf
    have hsome : n.index[r.id]? = some r.locator := (h.index.entry _ _).mpr ⟨r, hr, rfl, rfl⟩
    obtain ⟨t, ht⟩ := QueueBook.mem_resting.mp hr
    have hrq : r ∈ b.queue r.side := by rwa [QueueBook.queue_congr (wf.side t r ht)]
    have hperm := QueueBook.resting_remove wf hr
    have hi := (h.index.perm hperm).erase ((hperm.map _).nodup_iff.mp wf.ids)
    have hub : UniqueIds b.bids := wf.ids.sublist ((List.sublist_append_left _ _).map _)
    have hua : UniqueIds b.asks := wf.ids.sublist ((List.sublist_append_right _ _).map _)
    simp only [hsome, h.node_rep wf hr, ok_bind]
    unfold QueueBook.queue at hrq
    by_cases hs : r.side = .kBuy
    · rw [if_pos hs] at hrq
      obtain ⟨m', hrun, hm⟩ := eraseOrder_rep h.bids hub hrq
      refine ⟨{ n with bids := m', index := n.index.erase r.id }, ?_, ?_⟩
      · rw [if_pos (show r.locator.side = .kBuy from hs), hrun]
        rfl
      · rw [QueueBook.remove, QueueBook.setQueue, if_pos hs, QueueBook.queue, if_pos hs] at hi ⊢
        exact ⟨hm, h.asks, hi⟩
    · rw [if_neg hs] at hrq
      obtain ⟨m', hrun, hm⟩ := eraseOrder_rep h.asks hua hrq
      refine ⟨{ n with asks := m', index := n.index.erase r.id }, ?_, ?_⟩
      · rw [if_neg (show ¬ r.locator.side = .kBuy from hs), hrun]
        rfl
      · rw [QueueBook.remove, QueueBook.setQueue, if_neg hs, QueueBook.queue, if_neg hs] at hi ⊢
        exact ⟨h.bids, hm, hi⟩

/-! The queries. -/

theorem bestBid_rep (h : NaiveRep n b) (wf : b.WF) :
    n.bestBid = b.bids.head?.map Resting.price := by
  rw [NaiveBook.bestBid]
  cases hq : b.bids with
  | nil => exact (hq ▸ h.bids).head_nil
  | cons r Q =>
    exact (hq ▸ h.bids).head_cons greater_isLE (hq ▸ wf.sorted .kBuy)
      (fun a => irrefl_of Side.kBuy.Better a)

theorem bestAsk_rep (h : NaiveRep n b) (wf : b.WF) :
    n.bestAsk = b.asks.head?.map Resting.price := by
  rw [NaiveBook.bestAsk]
  cases hq : b.asks with
  | nil => exact (hq ▸ h.asks).head_nil
  | cons r Q =>
    exact (hq ▸ h.asks).head_cons compare_isLE (hq ▸ wf.sorted .kSell)
      (fun a => irrefl_of Side.kSell.Better a)

theorem openOrders_rep (h : NaiveRep n b) : n.openOrders = b.resting.length := h.index.size

theorem foldl_qty (Q : List Resting) : ∀ total : Qty,
    (Q.foldl (fun total order => total + order.remaining) total).toNat =
      (total.toNat + (Q.map fun r => r.remaining.toNat).sum) % 2 ^ 32 := by
  induction Q with
  | nil =>
    intro total
    have := total.toNat_lt
    simp [Nat.mod_eq_of_lt this]
  | cons r Q ih =>
    intro total
    rw [List.foldl_cons, ih, UInt32.toNat_add, List.map_cons, List.sum_cons]
    omega

theorem level_eq {cmp : PriceTicks → PriceTicks → Ordering} [Std.TransCmp cmp]
    [Std.LawfulEqCmp cmp] {m : Levels cmp} {Q : List Resting} (hm : SideRep m Q) (p : PriceTicks) :
    m[p]?.getD [] = priced Q p := by
  rw [← Std.ExtTreeMap.getD_eq_getD_getElem?]
  exact hm.level p

theorem levelQty_rep {cmp : PriceTicks → PriceTicks → Ordering} [Std.TransCmp cmp]
    [Std.LawfulEqCmp cmp] {m : Levels cmp} {Q : List Resting} (hm : SideRep m Q) (p : PriceTicks) :
    (NaiveBook.levelQty m p).toNat =
      ((priced Q p).map fun r => r.remaining.toNat).sum % 2 ^ 32 := by
  rw [← level_eq hm p, NaiveBook.levelQty]
  cases m[p]? with
  | none => rfl
  | some level =>
    have h := foldl_qty level 0
    rw [UInt32.toNat_zero, Nat.zero_add] at h
    exact h

theorem levelSize_rep {cmp : PriceTicks → PriceTicks → Ordering} [Std.TransCmp cmp]
    [Std.LawfulEqCmp cmp] {m : Levels cmp} {Q : List Resting} (hm : SideRep m Q) (p : PriceTicks) :
    NaiveBook.levelSize m p = (priced Q p).length := by
  rw [← level_eq hm p, NaiveBook.levelSize]
  cases m[p]? <;> rfl

theorem qtyAt_rep (h : NaiveRep n b) (side : Side) (p : PriceTicks) :
    (n.qtyAt side p).toNat = b.qtyAt side p % 2 ^ 32 := by
  unfold NaiveBook.qtyAt QueueBook.qtyAt QueueBook.atPrice QueueBook.queue
  split
  · exact levelQty_rep h.bids p
  · exact levelQty_rep h.asks p

theorem ordersAt_rep (h : NaiveRep n b) (side : Side) (p : PriceTicks) :
    n.ordersAt side p = (b.atPrice side p).length := by
  unfold NaiveBook.ordersAt QueueBook.atPrice QueueBook.queue
  split
  · exact levelSize_rep h.bids p
  · exact levelSize_rep h.asks p

end NaiveRep

end LimitOrderBook
