import LimitOrderBook.BookInvariants

set_option autoImplicit false

namespace LimitOrderBook
open Checked PriorityQueue

/-- Operation `n` of the run is the last one that minted `id`. -/
def AcceptedAt (replies : List Reply) (n : Nat) (id : OrderId) : Prop :=
  (replies[n]?).map Reply.mintedId = some id ∧
    ∀ m reply, n < m → replies[m]? = some reply → reply.mintedId ≠ id

/-- `id` was accepted before `id'`. -/
def Earlier (replies : List Reply) (id id' : OrderId) : Prop :=
  ∃ n m, AcceptedAt replies n id ∧ AcceptedAt replies m id' ∧ n < m

section History

variable {replies : List Reply} {reply : Reply} {n m : Nat} {id id' : OrderId}

theorem AcceptedAt.lt_length (h : AcceptedAt replies n id) : n < replies.length := by
  by_contra hn
  have hnone : replies[n]? = none := List.getElem?_eq_none (by omega)
  rw [AcceptedAt, hnone] at h
  cases h.1

theorem AcceptedAt.unique (h : AcceptedAt replies n id) (h' : AcceptedAt replies m id) :
    n = m := by
  have hlast : ∀ {i j : Nat}, AcceptedAt replies i id → AcceptedAt replies j id → ¬ i < j := by
    intro i j hi hj hlt
    obtain ⟨reply, hr, hid⟩ := Option.map_eq_some_iff.mp hj.1
    exact hi.2 j reply hlt hr hid
  have h₁ := hlast h h'
  have h₂ := hlast h' h
  omega

theorem Earlier.asymm (h : Earlier replies id id') : ¬ Earlier replies id' id := by
  rintro ⟨n', m', hn', hm', hlt'⟩
  obtain ⟨n, m, hn, hm, hlt⟩ := h
  have h₁ := hn.unique hm'
  have h₂ := hm.unique hn'
  omega

theorem AcceptedAt.snoc (h : AcceptedAt replies n id) (hne : reply.mintedId ≠ id) :
    AcceptedAt (replies ++ [reply]) n id := by
  refine ⟨by rw [List.getElem?_append_left h.lt_length]; exact h.1, fun m x hm hx => ?_⟩
  by_cases hlt : m < replies.length
  · rw [List.getElem?_append_left hlt] at hx
    exact h.2 m x hm hx
  · rw [List.getElem?_append_right (by omega), List.getElem?_singleton] at hx
    split at hx
    · cases hx
      exact hne
    · cases hx

theorem acceptedAt_last : AcceptedAt (replies ++ [reply]) replies.length reply.mintedId := by
  refine ⟨by simp, fun m x hm hx => ?_⟩
  rw [List.getElem?_eq_none (by simp; omega)] at hx
  cases hx

end History

/-- Every order of a queue was accepted, and those at one price in queue order. -/
structure InOrder (replies : List Reply) (M : List Resting) : Prop where
  accepted : ∀ r ∈ M, ∃ n, AcceptedAt replies n r.id
  fifo : M.Pairwise fun r r' => r.price = r'.price → Earlier replies r.id r'.id

namespace InOrder

variable {replies : List Reply} {reply : Reply} {M N : List Resting}

theorem nil : InOrder replies [] := ⟨by simp, .nil⟩

theorem shrink (h : InOrder replies N) (hs : Shrinks M N) : InOrder replies M := by
  refine ⟨fun r hr => ?_, hs.pairwise (fun ha hb hR => ?_) h.fifo⟩
  · obtain ⟨r₀, hmem, hred⟩ := hs.mem hr
    rw [hred.id]
    exact h.accepted r₀ hmem
  · rw [ha.price, hb.price, ha.id, hb.id]
    exact hR

theorem snoc (h : InOrder replies M) (hne : ∀ r ∈ M, reply.mintedId ≠ r.id) :
    InOrder (replies ++ [reply]) M := by
  refine ⟨fun r hr => ?_, h.fifo.imp_of_mem fun {a b} ha hb hR hp => ?_⟩
  · obtain ⟨n, hn⟩ := h.accepted r hr
    exact ⟨n, hn.snoc (hne r hr)⟩
  · obtain ⟨n, m, hn, hm, hlt⟩ := hR hp
    exact ⟨n, m, hn.snoc (hne a ha), hm.snoc (hne b hb), hlt⟩

theorem enqueue (h : InOrder replies M) {s : Side} (hs : Sorted s.Better Resting.price M)
    {r : Resting} (hr : reply.mintedId = r.id) (hne : ∀ x ∈ M, r.id ≠ x.id) :
    InOrder (replies ++ [reply]) (enqueue s.Better Resting.price r M) := by
  have hM : InOrder (replies ++ [reply]) M := h.snoc fun x hx => hr ▸ hne x hx
  have hlast : AcceptedAt (replies ++ [reply]) replies.length r.id := hr ▸ acceptedAt_last
  refine ⟨fun x hx => ?_, hs.enqueue_pairwise hM.fifo (fun y hy _ _ => ?_) fun y _ hlt hp => ?_⟩
  · rcases mem_enqueue.mp hx with rfl | hx
    · exact ⟨_, hlast⟩
    · exact hM.accepted x hx
  · obtain ⟨n, hn⟩ := h.accepted y hy
    exact ⟨n, _, hn.snoc (hr ▸ hne y hy), hlast, hn.lt_length⟩
  · rw [hp] at hlt
    exact absurd hlt (irrefl_of _ _)

end InOrder

namespace BookRep

variable {cfg : EngineConfig} {book : OrderBook} {b : QueueBook} {replies : List Reply}

theorem step_minted (h : BookRep cfg book b []) (op : BookOp) :
    ∀ r ∈ b.resting, (b.step op).2.mintedId ≠ r.id := by
  intro r hr
  have hinvalid : kInvalidOrderId ≠ r.id := by
    obtain ⟨s, hs⟩ := QueueBook.mem_resting.mp hr
    rw [← h.id_slot hs]
    exact (h.slot_live (mem_slots_of_mem hs)).2.symm
  have hfresh : ∀ {id b'}, b.mint = some (id, b') → id ≠ r.id := fun hm => by
    obtain ⟨_, _, hbids, hasks, hnew⟩ := mint_some h hm
    rw [QueueBook.resting, hbids, hasks] at hnew
    exact (hnew r hr).symm
  cases op with
  | add side type price qty =>
    simp only [QueueBook.step, QueueBook.add]
    cases QueueBook.refusal type price qty with
    | some reason => exact hinvalid
    | none =>
      cases hm : b.mint with
      | none => exact hinvalid
      | some x => exact hfresh hm
  | addLimit side price qty =>
    simp only [QueueBook.step, QueueBook.addLimit]
    split
    · exact hinvalid
    · cases hm : b.mint with
      | none => exact hinvalid
      | some x => exact hfresh hm
  | cancel id => exact hinvalid

theorem step_inOrder (h : BookRep cfg book b []) (hin : ∀ s, InOrder replies (b.queue s))
    (op : BookOp) (s : Side) :
    InOrder (replies ++ [(b.step op).2]) ((b.step op).1.queue s) := by
  have hnew : ∀ r ∈ b.queue s, (b.step op).2.mintedId ≠ r.id := fun r hr =>
    h.step_minted op r (QueueBook.mem_resting.mpr ⟨s, hr⟩)
  rcases QueueBook.step_queue b op s with hq | ⟨r, b', hm, hid, hsub, hs, hq⟩
  · refine ((hin s).shrink hq).snoc fun x hx => ?_
    obtain ⟨x₀, hmem, hred⟩ := hq.mem hx
    rw [hred.id]
    exact hnew x₀ hmem
  · rw [hq, ← Side.resolve_congr hs]
    exact (hin s).enqueue (h.queue_sorted s) hid (hid ▸ hnew)

theorem run_inOrder (ops : List BookOp) : ∀ {book : OrderBook} {b : QueueBook}
    {replies : List Reply}, BookRep cfg book b [] → (∀ s, InOrder replies (b.queue s)) →
    ∀ s, InOrder (replies ++ (b.run ops).2) ((b.run ops).1.queue s) := by
  induction ops with
  | nil =>
    intro book b replies _ hin s
    simpa [QueueBook.run] using hin s
  | cons op ops ih =>
    intro book b replies h hin s
    obtain ⟨book', _, hrep⟩ := h.step_rep op
    have hrest := ih hrep (h.step_inOrder hin op) s
    simpa [QueueBook.run, List.append_assoc] using hrest

end BookRep

/-! The greedy allocation of a taker over a list of resting orders. -/

/-- The quantity the first `n` fills took from the taker. -/
def filledQty (fills : List Qty) (n : Nat) : Nat := ((fills.take n).map UInt32.toNat).sum

/-- Fill by fill the smaller open quantity trades, until the taker or the list is
used up. -/
structure Greedy (qty : Qty) (L : List Resting) (fills : List Qty) : Prop where
  length : fills.length ≤ L.length
  positive : ∀ fill ∈ fills, 1 ≤ fill.toNat
  fill : ∀ i (hi : i < fills.length) (hl : i < L.length),
    fills[i].toNat = min (qty.toNat - filledQty fills i) L[i].remaining.toNat
  filled : ∀ i (hi : i + 1 < fills.length) (hl : i < L.length), fills[i] = L[i].remaining
  stop : filledQty fills fills.length = qty.toNat ∨ fills.length = L.length

def tradedPairs (side : Side) (id : OrderId) : Qty → List Resting → List Qty → List Event
  | remaining, m :: L, fill :: fills =>
    tradedPair side id m fill (m.remaining - fill) (remaining - fill) ++
      tradedPairs side id (remaining - fill) L fills
  | _, _, _ => []

def greedyFills : Qty → List Resting → List Qty
  | _, [] => []
  | remaining, m :: L =>
    if remaining = 0 then []
    else min remaining m.remaining :: greedyFills (remaining - min remaining m.remaining) L

section Greedy

variable {side : Side} {limit : PriceTicks} {id : OrderId} {m : Resting} {M : List Resting}

theorem greedyFills_zero (L : List Resting) : greedyFills 0 L = [] := by
  cases L <;> simp [greedyFills]

theorem filledQty_cons (fill : Qty) (fills : List Qty) (n : Nat) :
    filledQty (fill :: fills) (n + 1) = fill.toNat + filledQty fills n := by
  simp [filledQty]

theorem greedyFills_greedy (L : List Resting) : ∀ qty, (∀ r ∈ L, 1 ≤ r.remaining.toNat) →
    Greedy qty L (greedyFills qty L) := by
  induction L with
  | nil =>
    exact fun qty _ => ⟨le_refl _, by simp [greedyFills], by simp [greedyFills],
      by simp [greedyFills], .inr rfl⟩
  | cons m L ih =>
    intro qty hpos
    by_cases hz : qty = 0
    · subst hz
      rw [greedyFills_zero]
      exact ⟨by simp, by simp, by simp, by simp, .inl rfl⟩
    · have hsub := toNat_sub_min qty m.remaining
      have hmin := toNat_min qty m.remaining
      obtain ⟨h₁, h₀, h₂, h₃, h₄⟩ := ih (qty - min qty m.remaining) fun r hr =>
        hpos r (by simp [hr])
      rw [greedyFills, if_neg hz]
      refine ⟨by simpa using h₁, fun fill hfill => ?_, fun i hi hl => ?_, fun i hi hl => ?_, ?_⟩
      · rcases List.mem_cons.mp hfill with rfl | hfill
        · have hqty := toNat_pos.mpr hz
          have hm := hpos m (by simp)
          omega
        · exact h₀ fill hfill
      · cases i with
        | zero => simpa [filledQty] using hmin
        | succ i =>
          simp only [List.length_cons] at hi hl
          have := h₂ i (by omega) (by omega)
          simp only [List.getElem_cons_succ, filledQty_cons]
          rw [this]
          omega
      · cases i with
        | zero =>
          -- a second fill means that the first one left the taker open
          have hne : qty - min qty m.remaining ≠ 0 := by
            intro he
            rw [he, greedyFills_zero] at hi
            simp at hi
          have hne' : (qty - min qty m.remaining).toNat ≠ 0 := fun he =>
            hne (UInt32.toNat_inj.mp he)
          simp only [List.getElem_cons_zero]
          refine UInt32.toNat_inj.mp ?_
          omega
        | succ i =>
          simp only [List.length_cons] at hi hl
          exact h₃ i (by omega) (by omega)
      · rcases h₄ with h₄ | h₄
        · left
          rw [List.length_cons, filledQty_cons, h₄]
          omega
        · exact .inr (by rw [List.length_cons, List.length_cons, h₄])

theorem sweep_greedy (M : List Resting) : ∀ (remaining : Qty),
    Sorted side.opposite.resolve.Better Resting.price M →
    (sweep side limit id remaining M).events =
      tradedPairs side id remaining (M.filter fun r => crosses side limit r.price)
        (greedyFills remaining (M.filter fun r => crosses side limit r.price)) := by
  induction M with
  | nil => exact fun _ _ => rfl
  | cons m M ih =>
    intro remaining hs
    by_cases hstop : remaining = 0 ∨ ¬ crosses side limit m.price
    · rw [sweep_stop hstop]
      rcases hstop with rfl | hm
      · rw [greedyFills_zero]
        simp [tradedPairs]
      · have hnone : (m :: M).filter (fun r => crosses side limit r.price) = [] :=
          List.filter_eq_nil_iff.mpr (not_crosses_behind hs hm)
        rw [hnone]
        rfl
    · obtain ⟨hr, hm⟩ := not_or.mp hstop
      have hreach : (m :: M).filter (fun r => crosses side limit r.price) =
          m :: M.filter fun r => crosses side limit r.price :=
        List.filter_cons_of_pos (not_not.mp hm)
      rw [hreach, greedyFills, if_neg hr, tradedPairs]
      by_cases hleft : m.remaining - min remaining m.remaining = 0
      · rw [sweep_filled hstop hleft, ih _ hs.tail]
      · rw [sweep_left hstop hleft, left_zero hleft, greedyFills_zero]
        simp [tradedPairs]

theorem tradedPairs_traded (L : List Resting) : ∀ (remaining : Qty) (fills : List Qty),
    ∀ e ∈ tradedPairs side id remaining L fills, e.kind = .kTraded := by
  induction L with
  | nil => simp [tradedPairs]
  | cons m L ih =>
    intro remaining fills e he
    cases fills with
    | nil => simp [tradedPairs] at he
    | cons fill fills =>
      rcases List.mem_append.mp he with he | he
      · simp only [tradedPair, List.mem_cons, List.not_mem_nil, or_false] at he
        rcases he with rfl | rfl <;> rfl
      · exact ih _ _ e he

theorem execute_trades {type : OrderType} {price : PriceTicks} {qty : Qty} (b : QueueBook)
    (hs : Sorted side.opposite.resolve.Better Resting.price (b.queue side.opposite)) :
    (b.execute id side type price qty).2.filter (fun e => e.kind = .kTraded) =
      (sweep side (takerLimit side type price) id qty (b.queue side.opposite)).events := by
  have hall : (sweep side (takerLimit side type price) id qty (b.queue side.opposite)).events.filter
      (fun e => decide (e.kind = .kTraded)) =
      (sweep side (takerLimit side type price) id qty (b.queue side.opposite)).events := by
    rw [sweep_greedy _ _ hs, List.filter_eq_self]
    exact fun e he => decide_eq_true (tradedPairs_traded _ _ _ e he)
  unfold QueueBook.execute
  generalize sweep side (takerLimit side type price) id qty (b.queue side.opposite) = s at hall
  have hcons : ∀ (es : List Event) (px : PriceTicks),
      (makeEvent .kAccepted side .kNone qty qty px id :: es).filter
        (fun e => decide (e.kind = .kTraded)) = es.filter fun e => decide (e.kind = .kTraded) :=
    fun es px => List.filter_cons_of_neg (by simp [makeEvent])
  simp only
  split
  · rw [List.cons_append, hcons, List.filter_append, hall]
    split
    · rw [List.filter_cons_of_neg (by simp [makeEvent])]
      simp
    · simp
  · rw [hcons, hall]

end Greedy

/-- `i` comes before `j` on side `s`: a better price, or the same price and an
earlier acceptance. -/
def OrderPool.Before (pool : OrderPool) (replies : List Reply) (s : Side) (i j : UInt32) : Prop :=
  s.Better (pool.price i) (pool.price j) ∨
    pool.price i = pool.price j ∧ Earlier replies (pool.slot i).orderId (pool.slot j).orderId

/-- `L` lists the orders within a taker's reach, best price first, then oldest first. -/
structure InPriority (book : OrderBook) (replies : List Reply) (side : Side) (limit : PriceTicks)
    (L : List UInt32) : Prop where
  mem : ∀ i, i ∈ L ↔ book.pool.Live i ∧ (book.pool.slot i).side = side.opposite ∧
    crosses side limit (book.pool.price i)
  sorted : L.Pairwise (book.pool.Before replies side.opposite)

theorem OrderPool.Before.asymm {pool : OrderPool} {replies : List Reply} {s : Side} {i j : UInt32}
    (h : pool.Before replies s i j) : ¬ pool.Before replies s j i := by
  rintro (hji | ⟨he, hji⟩)
  · rcases h with hij | ⟨he, _⟩
    · exact asymm_of _ hij hji
    · rw [he] at hji
      exact irrefl_of _ _ hji
  · rcases h with hij | ⟨_, hij⟩
    · rw [he] at hij
      exact irrefl_of _ _ hij
    · exact hij.asymm hji

theorem InPriority.unique {book : OrderBook} {replies : List Reply} {side : Side}
    {limit : PriceTicks} {L M : List UInt32} (hL : InPriority book replies side limit L)
    (hM : InPriority book replies side limit M) : L = M := by
  have hnodup : ∀ {K : List UInt32}, InPriority book replies side limit K → K.Nodup := fun hK =>
    hK.sorted.imp fun hij he => by
      subst he
      exact hij.asymm hij
  have hperm : L.Perm M := (List.perm_ext_iff_of_nodup (hnodup hL) (hnodup hM)).mpr fun i => by
    rw [hL.mem, hM.mem]
  exact hperm.eq_of_pairwise (fun _ _ _ _ hij hji => absurd hji hij.asymm) hL.sorted hM.sorted

namespace BookRep

variable {cfg : EngineConfig} {book : OrderBook} {b : QueueBook} {replies : List Reply}

/-- The part of a queue within reach is the priority list of the taker. -/
theorem inPriority (h : BookRep cfg book b []) (hd : b.SidesDeclared)
    (hin : ∀ s, InOrder replies (b.queue s)) (side : Side) (limit : PriceTicks) :
    InPriority book replies side limit
      (slots ((b.queue side.opposite).filter fun r => crosses side limit r.price)) := by
  have hopp : side.opposite.resolve = side.opposite :=
    Side.resolve_of_declared side.opposite_declared
  refine ⟨fun i => ?_, ?_⟩
  · simp only [slots, List.mem_map, List.mem_filter]
    constructor
    · rintro ⟨r, ⟨hr, hc⟩, rfl⟩
      have hmem := mem_slots_of_mem hr
      refine ⟨h.slot_live hmem, ?_, by rw [h.price_slot hr]; exact hc⟩
      rw [h.slot_side_eq hd side.opposite _ hmem, h.side, hopp]
    · rintro ⟨hl, hs, hc⟩
      have hmem : i ∈ slots b.resting := by simpa using (h.live i).mp hl
      obtain ⟨t, ht⟩ := mem_slots.mp hmem
      have hbuy := h.slot_side ht
      obtain ⟨r, hr, rfl⟩ := List.mem_map.mp ht
      rw [hs] at hbuy
      exact ⟨r, ⟨by rw [QueueBook.queue_congr hbuy]; exact hr, by rw [← h.price_slot hr]; exact hc⟩,
        rfl⟩
  · rw [slots, List.pairwise_map]
    have hsorted := h.queue_sorted side.opposite
    rw [hopp] at hsorted
    refine List.Pairwise.sublist List.filter_sublist ?_
    refine (hsorted.and (hin side.opposite).fifo).imp_of_mem fun {x y} hx hy hxy => ?_
    rw [OrderPool.Before, h.price_slot hx, h.price_slot hy, h.id_slot hx, h.id_slot hy]
    rcases trichotomous_of side.opposite.Better x.price y.price with hlt | heq | hgt
    · exact .inl hlt
    · exact .inr ⟨heq, hxy.2 heq⟩
    · exact absurd hgt hxy.1

theorem map_resting {s : Side} {M : List Resting} (h : BookRep cfg book b [])
    (hM : M ⊆ b.queue s) : (slots M).map book.pool.resting = M := by
  rw [slots, List.map_map]
  conv_rhs => rw [← List.map_id M]
  exact List.map_congr_left fun r hr => h.stored_queue (hM hr)

theorem drive_inOrder (hc : cfg.Valid) (ops : List BookOp) (s : Side) :
    InOrder ((QueueBook.new cfg.poolCapacity).run ops).2
      (((QueueBook.new cfg.poolCapacity).run ops).1.queue s) := by
  obtain ⟨book, _, hrep⟩ := new_rep hc
  have hnil : ∀ t, InOrder [] ((QueueBook.new cfg.poolCapacity).queue t) := fun t => by
    unfold QueueBook.queue QueueBook.new
    split <;> exact .nil
  exact hrep.run_inOrder ops hnil s

theorem add_accepted (h : BookRep cfg book b []) {ndebug : Bool} {side : Side} {type : OrderType}
    {price : PriceTicks} {qty : Qty} {id : OrderId} {book' : OrderBook} {events : List Event}
    (hadd : book.add ndebug side type price qty = .ok (id, book', events))
    (hid : id ≠ kInvalidOrderId) :
    ∃ b₁, b.mint = some (id, b₁) ∧ QueueBook.refusal type price qty = none ∧
      events = (b₁.execute id side type price qty).2 ∧
      BookRep cfg book' (b₁.execute id side type price qty).1 [] := by
  obtain ⟨book₁, hrun, hrep, _⟩ := h.add_rep side type price qty
  rw [add_of_debug hadd] at hrun
  simp only [Except.ok.injEq, Prod.mk.injEq] at hrun
  obtain ⟨hid', rfl, rfl⟩ := hrun
  unfold QueueBook.add at hid' hrep ⊢
  cases hf : QueueBook.refusal type price qty with
  | some reason =>
    rw [hf] at hid'
    exact absurd hid' hid
  | none =>
    cases hm : b.mint with
    | none =>
      rw [hf, hm] at hid'
      exact absurd hid' hid
    | some x =>
      obtain ⟨id₁, b₁⟩ := x
      rw [hf, hm] at hid' hrep
      simp only at hid'
      subst hid'
      exact ⟨b₁, rfl, rfl, rfl, hrep⟩

end BookRep

/-- The Traded pairs of every accepted order are the greedy allocation of its
quantity over the opposite orders within its reach, best price first and at one
price in the order in which the run accepted them. -/
theorem price_time_priority (cfg : EngineConfig)
    (hhigh : cfg.anchorPrice.toInt + cfg.bandRadius.toNat + 1 ≤ 2 ^ 63 - 1)
    (ops : List BookOp) (hd : ∀ op ∈ ops, op.SideDeclared) (ndebug : Bool) {book : OrderBook}
    {replies : List Reply} (hrun : OrderBook.drive ndebug cfg ops = .ok (book, replies))
    (side : Side) (type : OrderType) (price : PriceTicks) (qty : Qty) {id : OrderId}
    {book' : OrderBook} {events : List Event}
    (hadd : book.add ndebug side type price qty = .ok (id, book', events))
    (hid : id ≠ kInvalidOrderId) :
    (∃ L, InPriority book replies side (takerLimit side type price) L) ∧
    ∀ L, InPriority book replies side (takerLimit side type price) L →
      ∃ fills, Greedy qty (L.map book.pool.resting) fills ∧
        events.filter (fun e => e.kind = .kTraded) =
          tradedPairs side id qty (L.map book.pool.resting) fills := by
  have hc : cfg.Valid := .of_drive hrun hhigh
  obtain ⟨hrep, rfl⟩ := BookRep.of_drive hrun hhigh
  have hdecl := QueueBook.sidesDeclared_run ops (QueueBook.new_sidesDeclared cfg.poolCapacity)
    fun op hop _ => (hd op hop).submits
  have hin := BookRep.drive_inOrder hc ops
  obtain ⟨b₁, hm, _, rfl, _⟩ := hrep.add_accepted hadd hid
  have hqueue := QueueBook.mint_queue hm side.opposite
  have hsorted := hrep.queue_sorted side.opposite
  have hL₀ := hrep.inPriority hdecl hin side (takerLimit side type price)
  refine ⟨⟨_, hL₀⟩, fun L hL => ?_⟩
  rw [hL.unique hL₀, execute_trades b₁ (by rw [hqueue]; exact hsorted), hqueue,
    sweep_greedy _ _ hsorted, hrep.map_resting List.filter_sublist.subset]
  exact ⟨_, greedyFills_greedy _ _ fun r hr => hrep.remaining_pos (List.mem_of_mem_filter hr), rfl⟩

/-- A buy of 6 takes the better ask whole and half of the older of two equal ones. -/
theorem price_time_priority_small : ∃ book replies id book' events L fills,
    OrderBook.drive false { anchorPrice := 100, bandRadius := 1, poolCapacity := 4 }
      [.add .kSell .kLimit 101 6, .add .kSell .kLimit 101 2, .add .kSell .kLimit 100 3] =
        .ok (book, replies) ∧
    book.add false .kBuy .kLimit 101 6 = .ok (id, book', events) ∧
    InPriority book replies .kBuy 101 L ∧ Greedy 6 (L.map book.pool.resting) fills ∧
    events.filter (fun e => e.kind = .kTraded) =
      tradedPairs .kBuy id 6 (L.map book.pool.resting) fills := by
  obtain ⟨⟨L, hL⟩, hall⟩ := price_time_priority
    { anchorPrice := 100, bandRadius := 1, poolCapacity := 4 } (by decide)
    [.add .kSell .kLimit 101 6, .add .kSell .kLimit 101 2, .add .kSell .kLimit 100 3]
    (by simp [BookOp.SideDeclared, Side.Declared]) false rfl .kBuy .kLimit 101 6 rfl (by decide)
  obtain ⟨fills, hg, he⟩ := hall L hL
  exact ⟨_, _, _, _, _, L, fills, rfl, rfl, hL, hg, he⟩

end LimitOrderBook
