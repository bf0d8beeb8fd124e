import LimitOrderBook.EventStream

set_option autoImplicit false

namespace LimitOrderBook
open Checked PriorityQueue

theorem sweep_length (side : Side) (limit : PriceTicks) (id : OrderId) (M : List Resting) :
    ∀ remaining, (sweep side limit id remaining M).events.length +
      2 * (sweep side limit id remaining M).rest.length ≤
        2 * M.length + if (sweep side limit id remaining M).remaining = 0 then 2 else 0 := by
  intro remaining
  induction remaining, M using sweep_induction side limit with
  | nil => simp [sweep]
  | stop remaining m M hstop => simp [sweep_stop hstop]
  | filled remaining m M hstop hleft ih =>
    rw [sweep_filled hstop hleft]
    simp only [tradedPair, List.length_append, List.length_cons, List.length_nil] at ih ⊢
    omega
  | left remaining m M hstop hleft =>
    rw [sweep_left hstop hleft, if_pos (left_zero hleft)]
    simp only [tradedPair, List.length_cons, List.length_nil]
    omega

namespace BookOp

def credit : BookOp → Nat
  | .add _ _ _ _ => 3
  | .addLimit _ _ _ => 2
  | .cancel _ => 1

end BookOp

namespace QueueBook

variable {b : QueueBook} {id : OrderId} {side : Side} {type : OrderType} {price : PriceTicks}
  {qty : Qty}

theorem execute_length : (b.execute id side type price qty).2.length +
    2 * (b.execute id side type price qty).1.resting.length ≤ 3 + 2 * b.resting.length := by
  have hsweep := sweep_length side (takerLimit side type price) id (b.queue side.opposite) qty
  have hbefore := (b.resting_sides side).length_eq
  have hafter := ((b.settle side (sweep side (takerLimit side type price) id qty
    (b.queue side.opposite))).resting_sides side).length_eq
  rw [settle_queue_opposite rfl, settle_queue_own (isBuy_ne_opposite rfl)] at hafter
  simp only [execute]
  generalize sweep side (takerLimit side type price) id qty (b.queue side.opposite) = s at *
  simp only [List.length_append] at hbefore hafter
  by_cases hz : s.remaining = 0
  · have hnot : ¬ 0 < s.remaining := by
      rw [hz]
      decide
    rw [if_pos hz] at hsweep
    rw [if_pos (.inl hz), if_neg hnot]
    simp only [resting_release, List.append_nil, List.length_cons]
    omega
  · rw [if_neg hz] at hsweep
    by_cases htype : type = .kLimit
    · have hrest := (rest_resting (b.settle side s)
        { id, price, qty, remaining := s.remaining, side }).length_eq
      rw [List.length_cons] at hrest
      rw [if_neg (not_or.mpr ⟨hz, not_not.mpr htype⟩)]
      simp only [hrest, List.length_cons]
      omega
    · rw [if_pos (.inr htype), if_pos (UInt32.pos_iff_ne_zero.mpr hz)]
      simp only [resting_release, List.length_append, List.length_cons, List.length_nil]
      omega

theorem step_length {cfg : EngineConfig} {book : OrderBook} (h : BookRep cfg book b [])
    (op : BookOp) : (b.step op).2.events.length + 2 * (b.step op).1.resting.length ≤
      op.credit + 2 * b.resting.length := by
  cases op with
  | add side type price qty =>
    simp only [step, add, Reply.events, BookOp.credit]
    cases refusal type price qty with
    | some reason => simp only [List.length_cons, List.length_nil]; omega
    | none =>
      cases hm : b.mint with
      | none => simp only [List.length_cons, List.length_nil]; omega
      | some x =>
        obtain ⟨_, _, hbids, hasks, _⟩ := mint_some h hm
        have hsame : x.2.resting = b.resting := by
          rw [resting, resting, hbids, hasks]
        exact hsame ▸ execute_length
  | addLimit side price qty =>
    simp only [step, addLimit, Reply.events, BookOp.credit]
    split
    · simp
    · cases hm : b.mint with
      | none => simp
      | some x =>
        obtain ⟨_, _, hbids, hasks, _⟩ := mint_some h hm
        have hsame : x.2.resting = b.resting := by
          rw [resting, resting, hbids, hasks]
        have hrest := (rest_resting x.2 { id := x.1, price, qty, remaining := qty, side }).length_eq
        rw [List.length_cons, hsame] at hrest
        simp only [hrest, List.length_nil]
        omega
  | cancel id =>
    simp only [step, cancel, BookOp.credit]
    cases hf : b.find id with
    | none => simp [Reply.events]
    | some r =>
      have hremove := (resting_remove h.wf ((find_iff h.wf).mp hf).1).length_eq
      rw [List.length_cons] at hremove
      simp only [Reply.events, List.length_cons, List.length_nil]
      omega

theorem run_length {cfg : EngineConfig} (ops : List BookOp) : ∀ {book : OrderBook}
    {b : QueueBook}, BookRep cfg book b [] →
    ((b.run ops).2.map Reply.events).flatten.length + 2 * (b.run ops).1.resting.length ≤
      (ops.map BookOp.credit).sum + 2 * b.resting.length := by
  induction ops with
  | nil => simp [run]
  | cons op ops ih =>
    intro book b h
    obtain ⟨_, _, h₁⟩ := h.step_rep op
    have hstep := step_length h op
    have hrest := ih h₁
    simp only [run, List.map_cons, List.flatten_cons, List.length_append, List.sum_cons]
    omega

theorem one_le_events {op : BookOp} (hop : op.Matched) : 1 ≤ (b.step op).2.events.length := by
  cases op with
  | add side type price qty =>
    simp only [step, add, Reply.events]
    cases refusal type price qty with
    | some reason => simp
    | none =>
      cases b.mint with
      | none => simp
      | some x =>
        simp only [execute]
        split <;> simp
  | addLimit side price qty => exact hop.elim
  | cancel id =>
    simp only [step, cancel]
    cases b.find id <;> simp [Reply.events]

theorem length_run (ops : List BookOp) : ∀ b : QueueBook, (b.run ops).2.length = ops.length := by
  induction ops with
  | nil => exact fun _ => rfl
  | cons op ops ih =>
    intro b
    rw [run, List.length_cons, List.length_cons, ih]

theorem run_reports (ops : List BookOp) : ∀ {b : QueueBook}, (∀ op ∈ ops, op.Matched) →
    ∀ batch ∈ (b.run ops).2.map Reply.events, batch ≠ [] := by
  induction ops with
  | nil => simp [run]
  | cons op ops ih =>
    intro b hops batch hbatch
    rw [run, List.map_cons, List.mem_cons] at hbatch
    rcases hbatch with rfl | hbatch
    · exact List.ne_nil_of_length_pos (one_le_events (hops op (by simp)))
    · exact ih (fun o ho => hops o (by simp [ho])) batch hbatch

end QueueBook

theorem credit_commands (cmds : List Command) : ((cmds.map Command.op).map BookOp.credit).sum =
    cmds.length + 2 * cmds.countP fun cmd => cmd.kind = .kNew := by
  induction cmds with
  | nil => rfl
  | cons cmd cmds ih =>
    rw [List.map_cons, List.map_cons, List.sum_cons, ih, List.length_cons, List.countP_cons]
    by_cases hk : cmd.kind = .kNew
    · rw [Command.op, if_pos hk, if_pos (decide_eq_true hk), BookOp.credit]
      omega
    · rw [Command.op, if_neg hk, if_neg (by simpa using hk), BookOp.credit]
      omega

theorem Command.ops_matched (cmds : List Command) : ∀ op ∈ cmds.map Command.op, op.Matched := by
  intro op hop
  obtain ⟨cmd, _, rfl⟩ := List.mem_map.mp hop
  exact cmd.op_matched

section

variable {cfg : EngineConfig} {engine : MatchingEngine} {cmds : List Command}

theorem MatchingEngine.processAll_new
    (hhigh : cfg.anchorPrice.toInt + cfg.bandRadius.toNat + 1 ≤ 2 ^ 63 - 1)
    (hnew : MatchingEngine.new cfg = .ok engine) (ndebug : Bool)
    (hk : ∀ cmd ∈ cmds, cmd.Known) :
    BookRep cfg engine.book (QueueBook.new cfg.poolCapacity) [] ∧
      ∃ engine', engine.processAll ndebug cmds = .ok (engine', ((QueueBook.new
          cfg.poolCapacity).run (cmds.map Command.op)).2.map Reply.events) ∧
        BookRep cfg engine'.book ((QueueBook.new cfg.poolCapacity).run
          (cmds.map Command.op)).1 [] := by
  obtain ⟨book, hbook, he⟩ := bind_eq_ok.mp hnew
  cases he
  obtain ⟨book₀, hbook₀, hrep⟩ := BookRep.new_rep (.of_new hbook hhigh)
  cases hbook.symm.trans hbook₀
  obtain ⟨engine', hrun, hrep', -⟩ := MatchingEngine.processAll_rep ndebug cmds
    (e := { book }) hrep QueueBook.new_uncrossed hk
  exact ⟨hrep, engine', hrun, hrep'⟩

theorem MatchingEngine.length_events
    (hhigh : cfg.anchorPrice.toInt + cfg.bandRadius.toNat + 1 ≤ 2 ^ 63 - 1)
    (hnew : MatchingEngine.new cfg = .ok engine) {ndebug : Bool}
    (hk : ∀ cmd ∈ cmds, cmd.Known) {engine' : MatchingEngine} {batches : List (List Event)}
    (hrun : engine.processAll ndebug cmds = .ok (engine', batches)) :
    batches.flatten.length + 2 * engine'.book.openOrders.toNat ≤
      cmds.length + 2 * cmds.countP fun cmd => cmd.kind = .kNew := by
  obtain ⟨hrep, engine₁, hrun₁, hrep'⟩ := processAll_new hhigh hnew ndebug hk
  cases hrun.symm.trans hrun₁
  have hle := QueueBook.run_length (cmds.map Command.op) hrep
  rw [credit_commands, ← hrep'.openOrders_rep] at hle
  have hempty : (QueueBook.new cfg.poolCapacity).resting.length = 0 := rfl
  omega

end

/-- Every command of a run is reported, and the events are linear in the number of
commands, however far single orders sweep. -/
theorem events_amortized (cfg : EngineConfig)
    (hhigh : cfg.anchorPrice.toInt + cfg.bandRadius.toNat + 1 ≤ 2 ^ 63 - 1)
    {engine : MatchingEngine} (hnew : MatchingEngine.new cfg = .ok engine) (ndebug : Bool)
    (cmds : List Command) (hk : ∀ cmd ∈ cmds, cmd.Known) :
    ∃ engine' batches, engine.processAll ndebug cmds = .ok (engine', batches) ∧
      batches.length = cmds.length ∧ (∀ batch ∈ batches, batch ≠ []) ∧
      batches.flatten.length + 2 * engine'.book.openOrders.toNat ≤
        cmds.length + 2 * cmds.countP fun cmd => cmd.kind = .kNew := by
  obtain ⟨-, engine', hrun, -⟩ := MatchingEngine.processAll_new hhigh hnew ndebug hk
  refine ⟨engine', _, hrun, ?_, QueueBook.run_reports _ (Command.ops_matched cmds),
    MatchingEngine.length_events hhigh hnew hk hrun⟩
  rw [List.length_map, QueueBook.length_run, List.length_map]

/-- Two resting orders and a market order that takes both. -/
theorem events_amortized_small : ∃ engine engine' batches,
    MatchingEngine.new { anchorPrice := 100, bandRadius := 1, poolCapacity := 3 } = .ok engine ∧
    engine.processAll false [⟨.kNew, .kSell, .kLimit, 0, 3, 101, 0⟩,
      ⟨.kNew, .kSell, .kLimit, 0, 4, 102, 0⟩, ⟨.kNew, .kBuy, .kMarket, 0, 9, 0, 0⟩] =
        .ok (engine', batches) ∧
    batches.length = 3 ∧ (∀ batch ∈ batches, batch ≠ []) ∧
    batches.flatten.length + 2 * engine'.book.openOrders.toNat ≤ 9 := by
  obtain ⟨engine', batches, hrun, hlen, hall, hle⟩ := events_amortized
    { anchorPrice := 100, bandRadius := 1, poolCapacity := 3 } (by decide) rfl false
    [⟨.kNew, .kSell, .kLimit, 0, 3, 101, 0⟩, ⟨.kNew, .kSell, .kLimit, 0, 4, 102, 0⟩,
     ⟨.kNew, .kBuy, .kMarket, 0, 9, 0, 0⟩] (by decide)
  exact ⟨_, engine', batches, rfl, hrun, hlen, hall, hle⟩

end LimitOrderBook
