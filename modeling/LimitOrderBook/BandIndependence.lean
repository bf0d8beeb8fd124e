import LimitOrderBook.MatchingEngine

set_option autoImplicit false

namespace LimitOrderBook
open Checked PriorityQueue

namespace QueueBook

variable {b b₁ : QueueBook} {spare : List UInt32} {op : BookOp}

/-- The book with more free slots at the bottom of its stack. -/
def extend (b : QueueBook) (spare : List UInt32) : QueueBook := { b with free := b.free ++ spare }

@[simp] theorem extend_nil (b : QueueBook) : b.extend [] = b := by
  simp [extend]

@[simp] theorem queue_extend (side : Side) : (b.extend spare).queue side = b.queue side := rfl

@[simp] theorem find_extend (id : OrderId) : (b.extend spare).find id = b.find id := rfl

theorem setQueue_extend (side : Side) (M : List Resting) :
    (b.extend spare).setQueue side M = (b.setQueue side M).extend spare := by
  unfold setQueue
  split <;> rfl

theorem release_extend (slots : List UInt32) :
    (b.extend spare).release slots = (b.release slots).extend spare := by
  simp [release, extend]

theorem rest_extend (r : Resting) : (b.extend spare).rest r = (b.rest r).extend spare :=
  setQueue_extend ..

theorem settle_extend (side : Side) (s : Sweep) :
    (b.extend spare).settle side s = (b.settle side s).extend spare := by
  rw [settle, setQueue_extend, release_extend, settle]

theorem execute_extend (id : OrderId) (side : Side) (type : OrderType) (price : PriceTicks)
    (qty : Qty) : (b.extend spare).execute id side type price qty =
      ((b.execute id side type price qty).1.extend spare,
        (b.execute id side type price qty).2) := by
  simp only [execute, queue_extend, settle_extend, release_extend, rest_extend]
  split <;> rfl

theorem mint_extend {id : OrderId} (h : b.mint = some (id, b₁)) :
    (b.extend spare).mint = some (id, b₁.extend spare) := by
  unfold mint at h
  cases hf : b.free with
  | nil =>
    rw [hf] at h
    cases h
  | cons i F =>
    rw [hf] at h
    cases h
    simp only [mint, extend, hf, List.cons_append]

theorem step_extend (hm : op.Matched)
    (h : ∀ e ∈ (b.step op).2.events, e.reason ≠ .kPoolExhausted) :
    (b.extend spare).step op = ((b.step op).1.extend spare, (b.step op).2) := by
  cases op with
  | addLimit side price qty => exact hm.elim
  | cancel id =>
    simp only [step, cancel, find_extend]
    cases hf : b.find id with
    | none => rfl
    | some r =>
      simp only [remove, queue_extend, setQueue_extend, release_extend]
  | add side type price qty =>
    simp only [step, add, Reply.events] at h ⊢
    cases hr : refusal type price qty with
    | some reason => rfl
    | none =>
      simp only [hr] at h
      cases hmint : b.mint with
      | none =>
        rw [hmint] at h
        exact absurd rfl (h _ (List.mem_singleton.mpr rfl))
      | some r =>
        simp only [mint_extend hmint, execute_extend]

theorem run_extend (ops : List BookOp) : ∀ {b : QueueBook}, (∀ op ∈ ops, op.Matched) →
    (∀ reply ∈ (b.run ops).2, ∀ e ∈ reply.events, e.reason ≠ .kPoolExhausted) →
    (b.extend spare).run ops = ((b.run ops).1.extend spare, (b.run ops).2) := by
  induction ops with
  | nil => exact fun _ _ => rfl
  | cons op ops ih =>
    intro b hm h
    have hstep : (b.extend spare).step op = ((b.step op).1.extend spare, (b.step op).2) :=
      step_extend (hm op (by simp)) (h (b.step op).2 (by simp [run]))
    have hrest := ih (b := (b.step op).1) (fun o ho => hm o (by simp [ho]))
      fun reply hr => h reply (by simp [run, hr])
    simp only [run, hstep, hrest]

theorem new_extend {c d : UInt32} (h : c ≤ d) : ∃ spare, new d = (new c).extend spare ∧
    (c = d → spare = []) := by
  rw [UInt32.le_iff_toNat_le] at h
  obtain ⟨n, hn⟩ := Nat.exists_eq_add_of_le h
  refine ⟨((List.range n).map (c.toNat + ·)).map UInt32.ofNat, ?_, fun he => ?_⟩
  · simp only [new, extend, OrderPool.indices, hn, List.range_add, List.map_append]
  · have hz : n = 0 := by
      rw [he] at hn
      omega
    rw [hz]
    rfl

end QueueBook

structure Indistinguishable (x y : OrderBook) : Prop where
  bestBid : ∃ p, x.bestBid = .ok p ∧ y.bestBid = .ok p
  bestAsk : ∃ p, x.bestAsk = .ok p ∧ y.bestAsk = .ok p
  qtyAt : ∀ side price, ∃ q, x.qtyAt side price = .ok q ∧ y.qtyAt side price = .ok q
  ordersAt : ∀ side price, ∃ n, x.ordersAt side price = .ok n ∧ y.ordersAt side price = .ok n
  contains : ∀ id, x.contains id = y.contains id
  openOrders : x.openOrders = y.openOrders

namespace BookRep

variable {cfg cfg' : EngineConfig} {x y : OrderBook} {b : QueueBook} {spare : List UInt32}

theorem indistinguishable (hx : BookRep cfg x b []) (hy : BookRep cfg' y (b.extend spare) []) :
    Indistinguishable x y where
  bestBid := ⟨_, hx.bestBid_rep, hy.bestBid_rep⟩
  bestAsk := ⟨_, hx.bestAsk_rep, hy.bestAsk_rep⟩
  qtyAt side price := by
    obtain ⟨p, hp, hpq⟩ := hx.qtyAt_rep side price
    obtain ⟨q, hq, hqq⟩ := hy.qtyAt_rep side price
    obtain rfl : p = q := UInt64.toNat_inj.mp (hpq.trans hqq.symm)
    exact ⟨p, hp, hq⟩
  ordersAt side price := by
    obtain ⟨m, hm, hmq⟩ := hx.ordersAt_rep side price
    obtain ⟨n, hn, hnq⟩ := hy.ordersAt_rep side price
    obtain rfl : m = n := UInt32.toNat_inj.mp (hmq.trans hnq.symm)
    exact ⟨m, hm, hn⟩
  contains id := (hx.contains_rep id).trans (hy.contains_rep id).symm
  openOrders := UInt32.toNat_inj.mp (hx.openOrders_rep.trans hy.openOrders_rep.symm)

end BookRep

/-- Wherever their bands lie, two engines emit the same events and give the same
answers, as long as the smaller pool lasts. -/
theorem band_unobservable {cfg₁ cfg₂ : EngineConfig} (h₁ : cfg₁.Valid) (h₂ : cfg₂.Valid)
    (hcap : cfg₁.poolCapacity ≤ cfg₂.poolCapacity) (ndebug : Bool) (cmds : List Command)
    (hd : ∀ cmd ∈ cmds, cmd.Declared) : ∃ e₁ e₂ e₁' e₂' batches₁ batches₂,
      MatchingEngine.new cfg₁ = .ok e₁ ∧ MatchingEngine.new cfg₂ = .ok e₂ ∧
      e₁.processAll ndebug cmds = .ok (e₁', batches₁) ∧
      e₂.processAll ndebug cmds = .ok (e₂', batches₂) ∧
      (cfg₁.poolCapacity = cfg₂.poolCapacity ∨
          (∀ e ∈ batches₁.flatten, e.reason ≠ .kPoolExhausted) →
        batches₁ = batches₂ ∧ Indistinguishable e₁'.book e₂'.book) := by
  obtain ⟨spare, hspare, hnone⟩ := QueueBook.new_extend hcap
  obtain ⟨e₁, hnew₁, hrep₁⟩ := MatchingEngine.new_rep h₁
  obtain ⟨e₂, hnew₂, hrep₂⟩ := MatchingEngine.new_rep h₂
  obtain ⟨e₁', hrun₁, hrep₁', -⟩ := MatchingEngine.processAll_rep ndebug cmds hrep₁
    QueueBook.new_uncrossed fun cmd hc => (hd cmd hc).1
  obtain ⟨e₂', hrun₂, hrep₂', -⟩ := MatchingEngine.processAll_rep ndebug cmds hrep₂
    QueueBook.new_uncrossed fun cmd hc => (hd cmd hc).1
  refine ⟨e₁, e₂, e₁', e₂', _, _, hnew₁, hnew₂, hrun₁, hrun₂, fun hlasts => ?_⟩
  have hsame : (QueueBook.new cfg₂.poolCapacity).run (cmds.map Command.op) =
      (((QueueBook.new cfg₁.poolCapacity).run (cmds.map Command.op)).1.extend spare,
        ((QueueBook.new cfg₁.poolCapacity).run (cmds.map Command.op)).2) := by
    rcases hlasts with he | hlasts
    · rw [hspare, hnone he, QueueBook.extend_nil, QueueBook.extend_nil]
    · rw [hspare]
      refine QueueBook.run_extend _ (fun op hop => ?_) fun reply hr e he => ?_
      · obtain ⟨cmd, -, rfl⟩ := List.mem_map.mp hop
        exact cmd.op_matched
      · exact hlasts e (List.mem_flatten.mpr ⟨_, List.mem_map.mpr ⟨reply, hr, rfl⟩, he⟩)
  rw [hsame] at hrep₂' ⊢
  exact ⟨rfl, hrep₁'.indistinguishable hrep₂'⟩

theorem band_unobservable_small : ∃ e₁ e₂ e₁' e₂' batches₁ batches₂,
    MatchingEngine.new ⟨100, 1, 1⟩ = .ok e₁ ∧ MatchingEngine.new ⟨7, 3, 1⟩ = .ok e₂ ∧
    e₁.processAll false [⟨.kNew, .kBuy, .kLimit, 0, 2, 9, 0⟩, ⟨.kNew, .kSell, .kIoc, 0, 1, 9, 0⟩] =
      .ok (e₁', batches₁) ∧
    e₂.processAll false [⟨.kNew, .kBuy, .kLimit, 0, 2, 9, 0⟩, ⟨.kNew, .kSell, .kIoc, 0, 1, 9, 0⟩] =
      .ok (e₂', batches₂) ∧
    batches₁ = batches₂ ∧ Indistinguishable e₁'.book e₂'.book := by
  obtain ⟨e₁, e₂, e₁', e₂', b₁, b₂, hnew₁, hnew₂, hrun₁, hrun₂, hsame⟩ :=
    @band_unobservable ⟨100, 1, 1⟩ ⟨7, 3, 1⟩ ⟨by decide, by decide, by decide, by decide⟩
      ⟨by decide, by decide, by decide, by decide⟩ (by decide) false
      [⟨.kNew, .kBuy, .kLimit, 0, 2, 9, 0⟩, ⟨.kNew, .kSell, .kIoc, 0, 1, 9, 0⟩] (by decide)
  exact ⟨e₁, e₂, e₁', e₂', b₁, b₂, hnew₁, hnew₂, hrun₁, hrun₂, hsame (.inl rfl)⟩

end LimitOrderBook
