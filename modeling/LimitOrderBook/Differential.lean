import LimitOrderBook.QueueRun
import LimitOrderBook.NaiveRefinement

set_option autoImplicit false

namespace LimitOrderBook
open Checked PriorityQueue

def NaiveBook.step (n : NaiveBook) (id : OrderId) : BookOp → Exec (Bool × NaiveBook × List Event)
  | .add side type price qty => n.add id side type price qty
  | .addLimit side price qty => n.addLimit id side price qty
  | .cancel target => n.cancel target

def BookOp.PassesValidation : BookOp → Prop
  | .add _ type price qty => qty ≠ 0 ∧ (type = .kMarket ∨ 0 < price)
  | .addLimit _ price qty => qty ≠ 0 ∧ 0 < price
  | .cancel _ => False

/-- The optimized book turned the command away for want of a pool slot: `add` says so in
its event, `add_limit` by minting no id for a command that passes validation. -/
def refusedForSlot : BookOp → Reply → Bool
  | .add .., .minted _ events => events.any fun e => e.reason = .kPoolExhausted
  | .addLimit _ price qty, .minted id _ => id = kInvalidOrderId ∧ qty ≠ 0 ∧ 0 < price
  | _, _ => false

/-- The id the harness hands to the reference book: the minted one, or a dummy. -/
def callerId (dummy : OrderId) : Reply → OrderId
  | .minted id _ => if id = kInvalidOrderId then dummy else id
  | .canceled .. => dummy

/-- The reference book echoes the dummy of a rejected command. -/
def normalise (dummy : OrderId) (e : Event) : Event :=
  if e.orderId = dummy then { e with orderId := kInvalidOrderId } else e

/-- Accept or reject and cancel results agree, and so do the events of `add` and `cancel`. -/
def Agrees (dummy : OrderId) (accepted : Bool) (events : List Event) : BookOp → Reply → Prop
  | .add .., .minted id fastEvents =>
    (accepted = true ↔ id ≠ kInvalidOrderId) ∧
      fastEvents = if id = kInvalidOrderId then events.map (normalise dummy) else events
  | .addLimit .., .minted id _ => accepted = true ↔ id ≠ kInvalidOrderId
  | .cancel _, .canceled found fastEvents => accepted = found ∧ fastEvents = events
  | _, _ => False

/-- The queries of both books give the same answers, the reference quantity wrapped. -/
structure SameAnswers (fast : OrderBook) (naive : NaiveBook) : Prop where
  bestBid : fast.bestBid = .ok naive.bestBid
  bestAsk : fast.bestAsk = .ok naive.bestAsk
  openOrders : fast.openOrders.toNat = naive.openOrders
  contains : ∀ id, fast.contains id = naive.contains id
  ordersAt : ∀ side p, ∃ n, fast.ordersAt side p = .ok n ∧ n.toNat = naive.ordersAt side p
  qtyAt : ∀ side p, ∃ q, fast.qtyAt side p = .ok q ∧
    (naive.qtyAt side p).toNat = q.toNat % 2 ^ 32

/-- The pairs of books the harness reaches, from two empty books. -/
inductive Lockstep (cfg : EngineConfig) : OrderBook → NaiveBook → Prop where
  | start {fast : OrderBook} :
      OrderBook.new cfg.anchorPrice cfg.bandRadius cfg.poolCapacity = .ok fast →
      Lockstep cfg fast {}
  | skip {fast fast' : OrderBook} {naive : NaiveBook} {reply : Reply} (op : BookOp) :
      Lockstep cfg fast naive → fast.step true op = .ok (fast', reply) →
      refusedForSlot op reply = true → Lockstep cfg fast' naive
  | both {fast fast' : OrderBook} {naive naive' : NaiveBook} {reply : Reply} {accepted : Bool}
      {events : List Event} (op : BookOp) (dummy : OrderId) :
      Lockstep cfg fast naive → fast.step true op = .ok (fast', reply) →
      refusedForSlot op reply = false → dummy ≠ kInvalidOrderId → naive.contains dummy = false →
      naive.step (callerId dummy reply) op = .ok (accepted, naive', events) →
      Lockstep cfg fast' naive'

variable {cfg : EngineConfig} {fast : OrderBook} {naive : NaiveBook} {b b₁ : QueueBook}
  {id dummy : OrderId} {side : Side} {type : OrderType} {price : PriceTicks} {qty : Qty}

theorem sameAnswers_of_rep (hf : BookRep cfg fast b []) (hn : NaiveRep naive b) :
    SameAnswers fast naive where
  bestBid := by rw [hf.bestBid_rep, hn.bestBid_rep hf.wf]
  bestAsk := by rw [hf.bestAsk_rep, hn.bestAsk_rep hf.wf]
  openOrders := by rw [hf.openOrders_rep, hn.openOrders_rep]
  contains id := by rw [hf.contains_rep, hn.contains_rep hf.wf]
  ordersAt s p := by
    obtain ⟨n, hrun, hlen⟩ := hf.ordersAt_rep s p
    exact ⟨n, hrun, by rw [hlen, hn.ordersAt_rep]⟩
  qtyAt s p := by
    obtain ⟨q, hrun, hsum⟩ := hf.qtyAt_rep s p
    exact ⟨q, hrun, by rw [hsum, hn.qtyAt_rep]⟩

/-- No event of an admitted order speaks of the pool. -/
theorem execute_reason (b : QueueBook) :
    ((b.execute id side type price qty).2.any fun e => e.reason = .kPoolExhausted) = false := by
  have hsweep : ∀ (M : List Resting) (remaining : Qty) (limit : PriceTicks),
      ((sweep side limit id remaining M).events.any fun e => e.reason = .kPoolExhausted) =
        false := by
    intro M remaining limit
    induction remaining, M using sweep_induction side limit with
    | nil => rfl
    | stop remaining m M hstop =>
      rw [sweep_stop hstop]
      rfl
    | filled remaining m M hstop hleft ih =>
      rw [sweep_filled hstop hleft, List.any_append, ih]
      rfl
    | left remaining m M hstop hleft =>
      rw [sweep_left hstop hleft]
      rfl
  have hs := hsweep (b.queue side.opposite) qty (takerLimit side type price)
  unfold QueueBook.execute
  generalize sweep side (takerLimit side type price) id qty (b.queue side.opposite) = s at hs
  simp only
  split
  · rw [List.any_append, List.any_cons, hs]
    by_cases hz : 0 < s.remaining
    · rw [if_pos hz]
      rfl
    · rw [if_neg hz]
      rfl
  · rw [List.any_cons, hs]
    rfl

/-- One step of the harness, on books that represent one state. -/
theorem harness_step (hf : BookRep cfg fast b []) (hn : NaiveRep naive b) (op : BookOp) :
    ∃ fast' reply, fast.step true op = .ok (fast', reply) ∧
      (refusedForSlot op reply = true ↔
        op.PassesValidation ∧ fast.openOrders = cfg.poolCapacity) ∧
      (refusedForSlot op reply = true → ∃ b', BookRep cfg fast' b' [] ∧ NaiveRep naive b') ∧
      (refusedForSlot op reply = false → ∀ dummy, dummy ≠ kInvalidOrderId →
        naive.contains dummy = false → ∃ accepted naive' events,
          naive.step (callerId dummy reply) op = .ok (accepted, naive', events) ∧
          Agrees dummy accepted events op reply ∧
          ∃ b', BookRep cfg fast' b' [] ∧ NaiveRep naive' b') := by
  have hfresh : ∀ dummy, naive.contains dummy = false → ∀ r ∈ b.resting, r.id ≠ dummy := by
    intro dummy hd r hr he
    have := hn.contains_iff.mpr ⟨r, hr, he⟩
    rw [hd] at this
    cases this
  obtain ⟨fast', hstep, hrep⟩ := hf.step_rep op
  refine ⟨fast', _, hstep, ?_⟩
  have hfull := mint_none_iff hf
  cases op with
  | add side type price qty =>
    simp only [QueueBook.step, QueueBook.add, BookOp.PassesValidation] at hrep ⊢
    rw [← QueueBook.refusal_none_iff]
    cases hr : QueueBook.refusal type price qty with
    | some reason =>
      have hne : reason ≠ .kPoolExhausted := by
        rintro rfl
        unfold QueueBook.refusal at hr
        split at hr
        · cases hr
        · split at hr <;> cases hr
      simp only [hr] at hrep ⊢
      have href : refusedForSlot (.add side type price qty) (.minted kInvalidOrderId
          [makeEvent .kRejected side reason qty 0 price kInvalidOrderId]) = false := by
        simp [refusedForSlot, makeEvent, hne]
      refine ⟨by simp [href], by simp [href], fun _ dummy hd hdc => ?_⟩
      refine ⟨false, naive, _, hn.add_refused hd (hfresh dummy hdc) hr, ⟨by simp, ?_⟩, b, hrep, hn⟩
      rw [if_pos rfl]
      simp [normalise, makeEvent]
    | none =>
      simp only [hr] at hrep ⊢
      cases hm : b.mint with
      | none =>
        simp only [hm] at hrep ⊢
        have href : refusedForSlot (.add side type price qty) (.minted kInvalidOrderId
            [makeEvent .kRejected side .kPoolExhausted qty 0 price kInvalidOrderId]) = true := by
          simp [refusedForSlot, makeEvent]
        refine ⟨by simp [href, hfull.mp hm], fun _ => ⟨b, hrep, hn⟩, by simp [href]⟩
      | some x =>
        obtain ⟨id, b₁⟩ := x
        simp only [hm] at hrep ⊢
        obtain ⟨hne, hwf, hbids, hasks, hnew⟩ := mint_some hf hm
        have href : refusedForSlot (.add side type price qty)
            (.minted id (b₁.execute id side type price qty).2) = false := execute_reason b₁
        have hopen : ¬ fast.openOrders = cfg.poolCapacity := fun e => by
          rw [hfull.mpr e] at hm
          cases hm
        obtain ⟨naive', hrun, hrep'⟩ := (hn.congr hbids hasks).add_admitted hne hnew side hwf hr
        refine ⟨by simp [href, hopen], by simp [href], fun _ dummy _ _ => ?_⟩
        refine ⟨true, naive', _, ?_, ⟨by simp [hne], by rw [if_neg hne]⟩, _, hrep, hrep'⟩
        rw [callerId, if_neg hne]
        exact hrun
  | addLimit side price qty =>
    simp only [QueueBook.step, QueueBook.addLimit, BookOp.PassesValidation] at hrep ⊢
    by_cases hbad : qty = 0 ∨ price ≤ 0
    · simp only [if_pos hbad] at hrep ⊢
      have hval : ¬ (qty ≠ 0 ∧ 0 < price) := by
        rintro ⟨hq, hp⟩
        rcases hbad with h | h
        · exact hq h
        · rw [Int64.le_iff_toInt_le] at h
          rw [Int64.lt_iff_toInt_lt] at hp
          omega
      have href : refusedForSlot (.addLimit side price qty) (.minted kInvalidOrderId []) =
          false := by
        simp only [refusedForSlot, decide_eq_false_iff_not]
        exact fun e => hval e.2
      refine ⟨by simp [href, hval], by simp [href], fun _ dummy hd hdc => ?_⟩
      obtain ⟨es, hrun⟩ := hn.addLimit_refused hd (hfresh dummy hdc) side hbad
      exact ⟨false, naive, es, hrun, by simp [Agrees], b, hrep, hn⟩
    · simp only [if_neg hbad] at hrep ⊢
      have hval : qty ≠ 0 ∧ 0 < price := by
        obtain ⟨hq, hp⟩ := not_or.mp hbad
        refine ⟨hq, ?_⟩
        rw [not_le_toInt] at hp
        rw [Int64.lt_iff_toInt_lt]
        exact hp
      cases hm : b.mint with
      | none =>
        simp only [hm] at hrep ⊢
        have href : refusedForSlot (.addLimit side price qty) (.minted kInvalidOrderId []) =
            true := by
          simp [refusedForSlot, hval]
        refine ⟨by simp [href, hval, hfull.mp hm], fun _ => ⟨b, hrep, hn⟩, by simp [href]⟩
      | some x =>
        obtain ⟨id, b₁⟩ := x
        simp only [hm] at hrep ⊢
        obtain ⟨hne, hwf, hbids, hasks, hnew⟩ := mint_some hf hm
        have href : refusedForSlot (.addLimit side price qty) (.minted id []) = false := by
          simp [refusedForSlot, hne]
        have hopen : ¬ fast.openOrders = cfg.poolCapacity := fun e => by
          rw [hfull.mpr e] at hm
          cases hm
        obtain ⟨naive', hrun, hrep'⟩ := (hn.congr hbids hasks).addLimit_admitted
          hne hnew side hwf hbad
        refine ⟨by simp [href, hopen], by simp [href], fun _ dummy _ _ => ?_⟩
        refine ⟨true, naive', [makeEvent .kAccepted side .kNone qty qty price id], ?_,
          by simp [Agrees, hne], _, hrep, hrep'⟩
        rw [callerId, if_neg hne]
        exact hrun
  | cancel id =>
    simp only [QueueBook.step, BookOp.PassesValidation] at hrep ⊢
    have href : refusedForSlot (.cancel id) (.canceled (b.cancel id).1 (b.cancel id).2.2) = false :=
      rfl
    obtain ⟨naive', hrun, hrep'⟩ := hn.cancel_rep hf.wf id
    exact ⟨by simp [href], by simp [href],
      fun _ dummy _ _ => ⟨_, naive', _, hrun, ⟨rfl, rfl⟩, _, hrep, hrep'⟩⟩

theorem lockstep_rep (hc : cfg.Valid) (h : Lockstep cfg fast naive) :
    ∃ b, BookRep cfg fast b [] ∧ NaiveRep naive b := by
  induction h with
  | start hnew =>
    obtain ⟨book, hnew', hrep⟩ := BookRep.new_rep hc
    rw [hnew'] at hnew
    cases hnew
    exact ⟨_, hrep, NaiveRep.empty _⟩
  | skip op _ hstep href ih =>
    obtain ⟨b, hf, hn⟩ := ih
    obtain ⟨fast', reply, hstep', _, hskip, _⟩ := harness_step hf hn op
    rw [hstep'] at hstep
    cases hstep
    exact hskip href
  | both op dummy _ hstep href hd hdc hrun ih =>
    obtain ⟨b, hf, hn⟩ := ih
    obtain ⟨fast', reply, hstep', _, _, hboth⟩ := harness_step hf hn op
    rw [hstep'] at hstep
    cases hstep
    obtain ⟨accepted, naive', events, hrun', _, hrep⟩ := hboth href dummy hd hdc
    rw [hrun'] at hrun
    cases hrun
    exact hrep

/-- In every pair of books the harness reaches the queries agree, and every further command
finds the books agreeing again; the optimized book refuses one for want of a slot exactly
when it is valid and the pool is full. -/
theorem optimized_refines_reference (cfg : EngineConfig) (hc : cfg.Valid) :
    (∃ fast, Lockstep cfg fast {}) ∧
    ∀ fast naive, Lockstep cfg fast naive → SameAnswers fast naive ∧
      ∀ op, ∃ fast' reply, fast.step true op = .ok (fast', reply) ∧
        (refusedForSlot op reply = true ↔
          op.PassesValidation ∧ fast.openOrders = cfg.poolCapacity) ∧
        (refusedForSlot op reply = true → SameAnswers fast' naive) ∧
        (refusedForSlot op reply = false → ∀ dummy, dummy ≠ kInvalidOrderId →
          naive.contains dummy = false → ∃ accepted naive' events,
            naive.step (callerId dummy reply) op = .ok (accepted, naive', events) ∧
            Agrees dummy accepted events op reply ∧ SameAnswers fast' naive') := by
  obtain ⟨book, hnew, _⟩ := BookRep.new_rep hc
  refine ⟨⟨book, .start hnew⟩, fun fast naive h => ?_⟩
  obtain ⟨b, hf, hn⟩ := lockstep_rep hc h
  refine ⟨sameAnswers_of_rep hf hn, fun op => ?_⟩
  obtain ⟨fast', reply, hstep, hiff, hskip, hboth⟩ := harness_step hf hn op
  refine ⟨fast', reply, hstep, hiff, fun href => ?_, fun href dummy hd hdc => ?_⟩
  · obtain ⟨b', hf', hn'⟩ := hskip href
    exact sameAnswers_of_rep hf' hn'
  · obtain ⟨accepted, naive', events, hrun, hagree, b', hf', hn'⟩ := hboth href dummy hd hdc
    exact ⟨accepted, naive', events, hrun, hagree, sameAnswers_of_rep hf' hn'⟩

/-- A bid that a sell takes a part of, and, once a second bid has the last slot, an ask that
finds none. -/
theorem optimized_refines_reference_small :
    ∃ fast naive fast₂ naive₂,
      Lockstep { anchorPrice := 100, bandRadius := 1, poolCapacity := 2 } fast naive ∧
      SameAnswers fast naive ∧
      (∃ fast' reply accepted naive' events,
        fast.step true (.add .kSell .kIoc 100 3) = .ok (fast', reply) ∧
        naive.step (callerId 1 reply) (.add .kSell .kIoc 100 3) = .ok (accepted, naive', events) ∧
        events.length = 3 ∧ Agrees 1 accepted events (.add .kSell .kIoc 100 3) reply ∧
        SameAnswers fast' naive') ∧
      Lockstep { anchorPrice := 100, bandRadius := 1, poolCapacity := 2 } fast₂ naive₂ ∧
      ∃ fast' reply, fast₂.step true (.add .kSell .kLimit 101 2) = .ok (fast', reply) ∧
        refusedForSlot (.add .kSell .kLimit 101 2) reply = true ∧ fast₂.openOrders = 2 ∧
        SameAnswers fast' naive₂ := by
  have hc : EngineConfig.Valid { anchorPrice := 100, bandRadius := 1, poolCapacity := 2 } :=
    ⟨by decide, by decide, by decide, by decide⟩
  obtain ⟨_, hall⟩ := optimized_refines_reference _ hc
  have hrun : ∃ fast naive fast₂ naive₂ fast' reply fast₂' reply₂ accepted naive' events,
      Lockstep { anchorPrice := 100, bandRadius := 1, poolCapacity := 2 } fast naive ∧
      Lockstep { anchorPrice := 100, bandRadius := 1, poolCapacity := 2 } fast₂ naive₂ ∧
      fast.step true (.add .kSell .kIoc 100 3) = .ok (fast', reply) ∧
      refusedForSlot (.add .kSell .kIoc 100 3) reply = false ∧ naive.contains 1 = false ∧
      naive.step (callerId 1 reply) (.add .kSell .kIoc 100 3) = .ok (accepted, naive', events) ∧
      events.length = 3 ∧ fast₂.step true (.add .kSell .kLimit 101 2) = .ok (fast₂', reply₂) ∧
      refusedForSlot (.add .kSell .kLimit 101 2) reply₂ = true ∧ fast₂.openOrders = 2 :=
    ⟨_, _, _, _, _, _, _, _, _, _, _,
      .both (.add .kBuy .kLimit 100 5) 1 (.start rfl) rfl rfl (by decide) rfl rfl,
      .both (.add .kBuy .kLimit 99 4) 1 (.both (.add .kBuy .kLimit 100 5) 1 (.start rfl)
        rfl rfl (by decide) rfl rfl) rfl rfl (by decide) rfl rfl,
      rfl, rfl, rfl, rfl, rfl, rfl, rfl, rfl⟩
  obtain ⟨fast, naive, fast₂, naive₂, fast', reply, fast₂', reply₂, accepted, naive', events, h, h₂,
    hstep, href, hdummy, hnaive, hlen, hstep₂, href₂, hfull⟩ := hrun
  obtain ⟨hsame, hops⟩ := hall fast naive h
  obtain ⟨_, hops₂⟩ := hall fast₂ naive₂ h₂
  obtain ⟨_, _, hstep', _, _, hboth⟩ := hops (.add .kSell .kIoc 100 3)
  obtain ⟨_, _, hstep₂', _, hskip, _⟩ := hops₂ (.add .kSell .kLimit 101 2)
  cases hstep.symm.trans hstep'
  cases hstep₂.symm.trans hstep₂'
  obtain ⟨_, _, _, hnaive', hagrees, hafter⟩ := hboth href 1 (by decide) hdummy
  cases hnaive.symm.trans hnaive'
  exact ⟨fast, naive, fast₂, naive₂, h, hsame,
    ⟨fast', reply, accepted, naive', events, hstep, hnaive, hlen, hagrees, hafter⟩, h₂,
    fast₂', reply₂, hstep₂, href₂, hfull, hskip href₂⟩

/-! The quantity at a price. The optimized book keeps it in 64 bits, the reference
book sums the orders in the width of one order. -/

def NaiveBook.restingQty (n : NaiveBook) (side : Side) (price : PriceTicks) : Nat :=
  ((if side = .kBuy then n.bids.getD price [] else n.asks.getD price []).map
    fun order => order.remaining.toNat).sum

theorem restingQty_rep (hn : NaiveRep naive b) (side : Side) (price : PriceTicks) :
    naive.restingQty side price = b.qtyAt side price := by
  unfold NaiveBook.restingQty QueueBook.qtyAt QueueBook.atPrice QueueBook.queue
  split
  · rw [hn.bids.level]
  · rw [hn.asks.level]

/-- Both books report the exact quantity at a price exactly when it fits in 32 bits. -/
theorem qtyAt_agrees_iff (cfg : EngineConfig) (hc : cfg.Valid) (fast : OrderBook)
    (naive : NaiveBook) (h : Lockstep cfg fast naive) (side : Side) (price : PriceTicks) :
    (∃ q, fast.qtyAt side price = .ok q ∧ q.toNat = naive.restingQty side price ∧
      (naive.qtyAt side price).toNat = naive.restingQty side price) ↔
    naive.restingQty side price < 2 ^ 32 := by
  obtain ⟨b, hf, hn⟩ := lockstep_rep hc h
  obtain ⟨q, hrun, hsum⟩ := hf.qtyAt_rep side price
  have hnaive := hn.qtyAt_rep side price
  rw [restingQty_rep hn]
  constructor
  · rintro ⟨_, _, _, he⟩
    rw [← he]
    exact (naive.qtyAt side price).toNat_lt
  · intro hlt
    exact ⟨q, hrun, hsum, by rw [hnaive, Nat.mod_eq_of_lt hlt]⟩

/-- Three bids at one price, of which a sell takes the first and a part of the second. -/
theorem qtyAt_agrees_iff_small :
    ∃ fast naive, Lockstep { anchorPrice := 100, bandRadius := 1, poolCapacity := 4 } fast naive ∧
      naive.openOrders = 2 ∧ naive.restingQty .kBuy 100 = 15 ∧
      ∃ q, fast.qtyAt .kBuy 100 = .ok q ∧ q.toNat = naive.restingQty .kBuy 100 ∧
        (naive.qtyAt .kBuy 100).toNat = naive.restingQty .kBuy 100 := by
  have hrun : ∃ fast naive,
      Lockstep { anchorPrice := 100, bandRadius := 1, poolCapacity := 4 } fast naive ∧
      naive.openOrders = 2 ∧ naive.restingQty .kBuy 100 = 15 :=
    ⟨_, _, .both (.add .kSell .kIoc 100 6) 1 (.both (.add .kBuy .kLimit 100 9) 1
      (.both (.add .kBuy .kLimit 100 7) 1 (.both (.add .kBuy .kLimit 100 5) 1 (.start rfl)
        rfl rfl (by decide) rfl rfl) rfl rfl (by decide) rfl rfl) rfl rfl (by decide) rfl rfl)
      rfl rfl (by decide) rfl rfl, rfl, rfl⟩
  obtain ⟨fast, naive, h, hopen, hsum⟩ := hrun
  exact ⟨fast, naive, h, hopen, hsum, (qtyAt_agrees_iff _ ⟨by decide, by decide, by decide,
    by decide⟩ fast naive h .kBuy 100).mpr (by rw [hsum]; decide)⟩

/-- Two bids of 2^31 at one price: the optimized book reports 2^32, the reference book 0. -/
theorem qtyAt_diverges :
    ∃ fast naive, Lockstep { anchorPrice := 100, bandRadius := 1, poolCapacity := 2 } fast naive ∧
      fast.qtyAt .kBuy 100 = .ok 4294967296 ∧ naive.qtyAt .kBuy 100 = 0 ∧
      naive.restingQty .kBuy 100 = 4294967296 := by
  refine ⟨_, _, .both (.add .kBuy .kLimit 100 0x80000000) 1
    (.both (.add .kBuy .kLimit 100 0x80000000) 1 (.start rfl) rfl rfl (by decide) rfl rfl)
    rfl rfl (by decide) rfl rfl, rfl, rfl, rfl⟩

end LimitOrderBook
