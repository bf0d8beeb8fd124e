import LimitOrderBook.MatchingEngine

set_option autoImplicit false

namespace LimitOrderBook
open Checked PriorityQueue

def Inside (M p : PriceTicks) : Prop := 0 < p.toInt ∧ p.toInt < M.toInt

instance (M p : PriceTicks) : Decidable (Inside M p) := inferInstanceAs (Decidable (_ ∧ _))

def Command.mirror (M : PriceTicks) (cmd : Command) : Command :=
  if cmd.kind = .kNew then
    { cmd with side := cmd.side.opposite, priceTicks := M - cmd.priceTicks }
  else cmd

/-- A new market order, whose own events carry no price. -/
def Command.market (cmd : Command) : Bool := cmd.kind = .kNew ∧ cmd.type = .kMarket

def Event.mirror (M : PriceTicks) (market : Bool) (e : Event) : Event :=
  if e.reason = .kUnknownOrder then e
  else if market ∧ (e.kind = .kAccepted ∨ e.kind = .kCanceled) then
    { e with side := e.side.opposite }
  else { e with side := e.side.opposite, priceTicks := M - e.priceTicks }

def Resting.mirror (M : PriceTicks) (r : Resting) : Resting :=
  { r with side := r.side.opposite, price := M - r.price }

def Sweep.mirror (M : PriceTicks) (market : Bool) (s : Sweep) : Sweep where
  remaining := s.remaining
  filled := s.filled.map (Resting.mirror M)
  rest := s.rest.map (Resting.mirror M)
  events := s.events.map (Event.mirror M market)

def QueueBook.mirror (M : PriceTicks) (b : QueueBook) : QueueBook :=
  { b with bids := b.asks.map (Resting.mirror M), asks := b.bids.map (Resting.mirror M) }

theorem Command.Known.mirror {cmd : Command} (h : cmd.Known) (M : PriceTicks) :
    (cmd.mirror M).Known := by
  unfold Command.mirror
  split
  · exact .inl ‹_›
  · exact h

/-! Prices: the mirror reverses every comparison the book makes. -/

section

variable {M p q price : PriceTicks}

theorem Inside.toInt_sub (h : Inside M p) : (M - p).toInt = M.toInt - p.toInt := by
  obtain ⟨h₁, h₂⟩ := h
  have hM := M.toInt_lt
  rw [Int64.toInt_sub, Int.bmod_eq_of_le (by omega) (by omega)]

theorem crosses_mirror (s : Side) (hp : Inside M p) (hq : Inside M q) :
    crosses s.opposite (M - p) (M - q) = crosses s p q := by
  have h₁ := hp.toInt_sub
  have h₂ := hq.toInt_sub
  unfold crosses Side.opposite
  by_cases hs : s = .kBuy
  · rw [if_pos hs, if_neg (by decide), if_pos hs, decide_eq_decide, Int64.le_iff_toInt_le,
      Int64.le_iff_toInt_le]
    omega
  · rw [if_neg hs, if_pos rfl, if_neg hs, decide_eq_decide, Int64.le_iff_toInt_le,
      Int64.le_iff_toInt_le]
    omega

theorem crosses_takerLimit_mirror (s : Side) (type : OrderType) (hp : Inside M price)
    (hq : Inside M q) : crosses s.opposite (takerLimit s.opposite type (M - price)) (M - q) =
      crosses s (takerLimit s type price) q := by
  by_cases ht : type = .kMarket
  · rw [ht, crosses_market, crosses_market]
  · rw [takerLimit, if_pos ht, takerLimit, if_pos ht, crosses_mirror s hp hq]

theorem better_mirror (s : Side) (hp : Inside M p) (hq : Inside M q) :
    s.opposite.resolve.Better (M - p) (M - q) ↔ s.resolve.Better p q := by
  have h₁ := hp.toInt_sub
  have h₂ := hq.toInt_sub
  by_cases hs : s = .kBuy
  · subst hs
    rw [show Side.kBuy.opposite.resolve = .kSell from rfl, Side.better_of_ne (by decide),
      show Side.kBuy.resolve = .kBuy from rfl, Side.better_buy]
    omega
  · rw [show s.opposite.resolve = .kBuy by simp [Side.opposite, hs, Side.resolve],
      Side.better_buy, show s.resolve = .kSell by simp [Side.resolve, hs],
      Side.better_of_ne (by decide)]
    omega

theorem refusal_mirror (type : OrderType) (qty : Qty) (hp : Inside M price) :
    QueueBook.refusal type (M - price) qty = QueueBook.refusal type price qty := by
  have hsub := hp.toInt_sub
  obtain ⟨h₁, h₂⟩ := hp
  have hpos : ¬ price ≤ 0 := by
    rw [not_le_toInt, Int64.toInt_zero]
    exact h₁
  have hpos' : ¬ M - price ≤ 0 := by
    rw [not_le_toInt, Int64.toInt_zero]
    omega
  simp only [QueueBook.refusal, hpos, hpos']

end

/-! The mirrored sweep. -/

theorem tradedPair_mirror (M : PriceTicks) (market : Bool) (side : Side) (id : OrderId)
    (m : Resting) (fill makerLeft takerLeft : Qty) :
    tradedPair side.opposite id (m.mirror M) fill makerLeft takerLeft =
      (tradedPair side id m fill makerLeft takerLeft).map (Event.mirror M market) := by
  simp [tradedPair, makeEvent, Event.mirror, Resting.mirror]

theorem sweep_mirror {M limit limit' : PriceTicks} (market : Bool) (side : Side) (id : OrderId)
    (Q : List Resting) : ∀ remaining,
    (∀ m ∈ Q, crosses side.opposite limit' (M - m.price) = crosses side limit m.price) →
    sweep side.opposite limit' id remaining (Q.map (Resting.mirror M)) =
      (sweep side limit id remaining Q).mirror M market := by
  induction Q with
  | nil => exact fun _ _ => rfl
  | cons m Q ih =>
    intro remaining h
    have hcross : crosses side.opposite limit' (m.mirror M).price = crosses side limit m.price :=
      h m (by simp)
    rw [List.map_cons]
    by_cases hstop : remaining = 0 ∨ ¬ crosses side limit m.price
    · rw [sweep_stop hstop, sweep_stop (by rwa [hcross])]
      rfl
    · have hgo : ¬ (remaining = 0 ∨ ¬ crosses side.opposite limit' (m.mirror M).price) := by
        rwa [hcross]
      by_cases hleft : m.remaining - min remaining m.remaining = 0
      · have hrest := ih (remaining - min remaining m.remaining) fun x hx => h x (by simp [hx])
        have hsame : (m.mirror M).remaining = m.remaining := rfl
        rw [sweep_filled hstop hleft, sweep_filled hgo hleft, hsame, hrest,
          tradedPair_mirror M market]
        simp only [Sweep.mirror, List.map_cons, List.map_append]
      · have hsame : (m.mirror M).remaining = m.remaining := rfl
        rw [sweep_left hstop hleft, sweep_left hgo hleft, hsame, tradedPair_mirror M market]
        rfl

namespace QueueBook

variable {M price : PriceTicks} {b b₁ : QueueBook} {side : Side} {type : OrderType} {qty : Qty}
  {id : OrderId}

def Within (b : QueueBook) (M : PriceTicks) : Prop := ∀ r ∈ b.resting, Inside M r.price

theorem queue_mirror (s : Side) :
    (b.mirror M).queue s.opposite = (b.queue s).map (Resting.mirror M) := by
  unfold queue mirror Side.opposite
  by_cases hs : s = .kBuy
  · rw [if_pos hs, if_neg (by decide), if_pos hs]
  · rw [if_neg hs, if_pos rfl, if_neg hs]

theorem setQueue_mirror (s : Side) (Q : List Resting) :
    (b.mirror M).setQueue s.opposite (Q.map (Resting.mirror M)) = (b.setQueue s Q).mirror M := by
  unfold setQueue mirror Side.opposite
  by_cases hs : s = .kBuy
  · rw [if_pos hs, if_neg (by decide), if_pos hs]
  · rw [if_neg hs, if_pos rfl, if_neg hs]

theorem slot_mirror (Q : List Resting) :
    (Q.map (Resting.mirror M)).map Resting.slot = Q.map Resting.slot := by
  rw [List.map_map]
  rfl

theorem settle_mirror (market : Bool) (s : Sweep) :
    (b.mirror M).settle side.opposite (s.mirror M market) = (b.settle side s).mirror M := by
  rw [settle, settle, Sweep.mirror, slot_mirror, setQueue_mirror]
  rfl

theorem rest_mirror {r : Resting} (hw : b.Within M) (hr : Inside M r.price) :
    (b.mirror M).rest (r.mirror M) = (b.rest r).mirror M := by
  have hside : (r.mirror M).side = r.side.opposite := rfl
  rw [rest, rest, hside, queue_mirror, ← setQueue_mirror]
  refine congrArg _ (enqueue_map_of (Resting.mirror M) fun y hy => ?_).symm
  exact better_mirror r.side hr (hw y (mem_resting.mpr ⟨_, hy⟩))

theorem within_settle (side : Side) (limit : PriceTicks) (id : OrderId) (qty : Qty)
    (hw : b.Within M) :
    (b.settle side (sweep side limit id qty (b.queue side.opposite))).Within M := by
  intro r hr
  obtain ⟨s, hs⟩ := mem_resting.mp hr
  obtain ⟨r₀, hmem, hred⟩ := (settle_shrinks s limit).mem hs
  rw [hred.price]
  exact hw r₀ (mem_resting.mpr ⟨s, hmem⟩)

theorem execute_mirror (hw : b.Within M) (hp : Inside M price) :
    (b.mirror M).execute id side.opposite type (M - price) qty =
      ((b.execute id side type price qty).1.mirror M,
        (b.execute id side type price qty).2.map (Event.mirror M (type = .kMarket))) := by
  have hqueue : (b.mirror M).queue side.opposite.opposite =
      (b.queue side.opposite).map (Resting.mirror M) := queue_mirror side.opposite
  have hsweep := sweep_mirror (decide (type = .kMarket)) side id (b.queue side.opposite) qty
    fun m hm => crosses_takerLimit_mirror side type hp (hw m (mem_resting.mpr ⟨_, hm⟩))
  have hsettled := within_settle side (takerLimit side type price) id qty hw
  simp only [execute, hqueue, hsweep, settle_mirror]
  generalize sweep side (takerLimit side type price) id qty (b.queue side.opposite) = s at *
  have hsame : (s.mirror M (decide (type = .kMarket))).remaining = s.remaining := rfl
  rw [hsame]
  -- the order's own events carry the price it was given, unless it is a market order
  have hown : ∀ kind qty remaining, kind = .kAccepted ∨ kind = .kCanceled →
      makeEvent kind side.opposite .kNone qty remaining
          (if type = .kMarket then 0 else M - price) id =
        (makeEvent kind side .kNone qty remaining (if type = .kMarket then 0 else price) id).mirror
          M (decide (type = .kMarket)) := by
    intro kind qty remaining hk
    by_cases ht : type = .kMarket
    · simp [makeEvent, Event.mirror, ht, hk]
    · simp [makeEvent, Event.mirror, ht]
  by_cases hdone : s.remaining = 0 ∨ type ≠ .kLimit
  · rw [if_pos hdone, if_pos hdone]
    by_cases hleft : 0 < s.remaining
    · simp only [if_pos hleft, List.map_append, List.map_cons, List.map_nil,
        hown _ _ _ (.inl rfl), hown _ _ _ (.inr rfl)]
      rfl
    · simp only [if_neg hleft, List.map_append, List.map_cons, List.map_nil,
        hown _ _ _ (.inl rfl)]
      rfl
  · simp only [if_neg hdone, List.map_cons, hown _ _ _ (.inl rfl)]
    rw [← rest_mirror hsettled hp]
    rfl

theorem mint_mirror : (b.mirror M).mint = b.mint.map fun x => (x.1, x.2.mirror M) := by
  unfold mint
  cases hf : b.free with
  | nil => simp [mirror, hf]
  | cons i F => simp [mirror, hf]

theorem find_mirror (hu : UniqueIds b.resting) :
    (b.mirror M).find id = (b.find id).map (Resting.mirror M) := by
  have hperm : (b.mirror M).resting.Perm (b.resting.map (Resting.mirror M)) := by
    rw [resting, resting, List.map_append]
    exact List.perm_append_comm
  have hids : (b.resting.map (Resting.mirror M)).map Resting.id = b.resting.map Resting.id := by
    rw [List.map_map]
    rfl
  have hu' : UniqueIds (b.mirror M).resting := by
    rw [UniqueIds, (hperm.map _).nodup_iff, hids]
    exact hu
  cases hf : b.find id with
  | none =>
    refine List.find?_eq_none.mpr fun x hx => ?_
    obtain ⟨r, hr, rfl⟩ := List.mem_map.mp (hperm.subset hx)
    exact List.find?_eq_none.mp hf r hr
  | some r =>
    obtain rfl : r.id = id := by simpa using List.find?_some hf
    have hmem : r.mirror M ∈ (b.mirror M).resting :=
      hperm.symm.subset (List.mem_map_of_mem (List.mem_of_find?_eq_some hf))
    exact find?_unique hu' hmem

theorem remove_mirror (r : Resting) : (b.mirror M).remove (r.mirror M) = (b.remove r).mirror M := by
  have hside : (r.mirror M).side = r.side.opposite := rfl
  have hid : (r.mirror M).id = r.id := rfl
  rw [remove, remove, hside, hid, queue_mirror, List.filter_map, setQueue_mirror]
  rfl

theorem rejected_mirror {reason : RejectReason} (market : Bool) (h : reason ≠ .kUnknownOrder) :
    makeEvent .kRejected side.opposite reason qty 0 (M - price) id =
      (makeEvent .kRejected side reason qty 0 price id).mirror M market := by
  simp [makeEvent, Event.mirror, h]

/-- One mirrored command does to the mirrored book what the command does to the book. -/
theorem step_mirror {cmd : Command} (hu : UniqueIds b.resting) (hw : b.Within M)
    (hp : cmd.kind = .kNew → Inside M cmd.priceTicks) :
    ((b.mirror M).step (cmd.mirror M).op).1 = (b.step cmd.op).1.mirror M ∧
      ((b.mirror M).step (cmd.mirror M).op).2.events =
        (b.step cmd.op).2.events.map (Event.mirror M cmd.market) := by
  by_cases hk : cmd.kind = .kNew
  · have hop : (cmd.mirror M).op =
        .add cmd.side.opposite cmd.type (M - cmd.priceTicks) cmd.qty := by
      simp [Command.mirror, Command.op, hk]
    have hmarket : cmd.market = decide (cmd.type = .kMarket) := by
      simp [Command.market, hk]
    rw [hop, hmarket, Command.op, if_pos hk]
    simp only [step, add, refusal_mirror _ _ (hp hk), mint_mirror]
    cases hr : refusal cmd.type cmd.priceTicks cmd.qty with
    | some reason =>
      have hne : reason ≠ .kUnknownOrder := by
        rcases refusal_invalid hr with rfl | rfl <;> decide
      exact ⟨rfl, congrArg (fun e => [e]) (rejected_mirror _ hne)⟩
    | none =>
      cases hm : b.mint with
      | none => exact ⟨rfl, congrArg (fun e => [e]) (rejected_mirror _ (by decide))⟩
      | some x =>
        obtain ⟨id, b₁⟩ := x
        have hw₁ : b₁.Within M := fun r hr => by
          obtain ⟨s, hs⟩ := mem_resting.mp hr
          rw [mint_queue hm] at hs
          exact hw r (mem_resting.mpr ⟨s, hs⟩)
        simp only [Option.map_some, execute_mirror hw₁ (hp hk), Reply.events, and_self]
  · have hop : (cmd.mirror M).op = .cancel cmd.orderId := by
      simp [Command.mirror, Command.op, hk]
    have hmarket : cmd.market = false := by
      simp [Command.market, hk]
    rw [hop, hmarket, Command.op, if_neg hk]
    simp only [step, cancel, find_mirror hu]
    cases b.find cmd.orderId with
    | none => exact ⟨rfl, rfl⟩
    | some r => exact ⟨remove_mirror r, rfl⟩

theorem within_step {cmd : Command} (hw : b.Within M)
    (hp : cmd.kind = .kNew → Inside M cmd.priceTicks) : (b.step cmd.op).1.Within M := by
  refine resting_step (fun hred h => by rwa [hred.price]) hw fun r hsub => ?_
  unfold Command.op at hsub
  by_cases hk : cmd.kind = .kNew
  · rw [if_pos hk] at hsub
    rcases hsub.1 with he | he
    · obtain ⟨-, -, hprice, -⟩ := BookOp.add.inj he
      exact hprice ▸ hp hk
    · cases he
  · rw [if_neg hk] at hsub
    rcases hsub.1 with he | he <;> cases he

/-- The events of a market order that are its own carry no price. -/
theorem market_unpriced {cmd : Command} (hc : cmd.market = true) :
    ∀ e ∈ (b.step cmd.op).2.events, e.kind = .kAccepted ∨ e.kind = .kCanceled →
      e.priceTicks = 0 := by
  obtain ⟨hk, ht⟩ := of_decide_eq_true hc
  rw [Command.op, if_pos hk]
  intro e he hkind
  simp only [step, add, Reply.events] at he
  cases hr : refusal cmd.type cmd.priceTicks cmd.qty with
  | some reason =>
    rw [hr] at he
    obtain rfl := List.mem_singleton.mp he
    rcases hkind with hkind | hkind <;> cases hkind
  | none =>
    rw [hr] at he
    cases hm : b.mint with
    | none =>
      rw [hm] at he
      obtain rfl := List.mem_singleton.mp he
      rcases hkind with hkind | hkind <;> cases hkind
    | some x =>
      obtain ⟨id, b₁⟩ := x
      rw [hm] at he
      have htraded := sweep_traded cmd.side (takerLimit cmd.side cmd.type cmd.priceTicks) id
        (b₁.queue cmd.side.opposite) cmd.qty e
      have hne : cmd.type ≠ .kLimit := by
        rw [ht]
        decide
      simp only [execute, ht, if_true] at he htraded
      rw [if_pos (.inr (by decide))] at he
      rcases List.mem_append.mp he with he | he
      · rcases List.mem_cons.mp he with rfl | he
        · rfl
        · rw [htraded he] at hkind
          rcases hkind with hkind | hkind <;> cases hkind
      · split at he
        · obtain rfl := List.mem_singleton.mp he
          rfl
        · cases he

end QueueBook

def mirrorBatches (M : PriceTicks) (cmds : List Command) (batches : List (List Event)) :
    List (List Event) :=
  List.zipWith (fun cmd events => events.map (Event.mirror M cmd.market)) cmds batches

theorem BookRep.run_mirror {cfg : EngineConfig} {M : PriceTicks} (cmds : List Command) :
    ∀ {book : OrderBook} {b : QueueBook}, BookRep cfg book b [] → b.Within M →
    (∀ cmd ∈ cmds, cmd.kind = .kNew → Inside M cmd.priceTicks) →
    ((b.mirror M).run ((cmds.map (Command.mirror M)).map Command.op)).1 =
        (b.run (cmds.map Command.op)).1.mirror M ∧
      ((b.mirror M).run ((cmds.map (Command.mirror M)).map Command.op)).2.map Reply.events =
        mirrorBatches M cmds ((b.run (cmds.map Command.op)).2.map Reply.events) ∧
      ((b.run (cmds.map Command.op)).2.map Reply.events).length = cmds.length ∧
      ∀ x ∈ cmds.zip ((b.run (cmds.map Command.op)).2.map Reply.events), x.1.market = true →
        ∀ e ∈ x.2, e.kind = .kAccepted ∨ e.kind = .kCanceled → e.priceTicks = 0 := by
  induction cmds with
  | nil => exact fun _ _ _ => ⟨rfl, rfl, rfl, by simp⟩
  | cons cmd cmds ih =>
    intro book b h hw hp
    obtain ⟨hbook, hevents⟩ := QueueBook.step_mirror h.wf.ids hw (hp cmd (by simp))
    obtain ⟨book', -, hrep'⟩ := h.step_rep cmd.op
    obtain ⟨hbook', hevents', hlen, hzero⟩ := ih hrep'
      (QueueBook.within_step hw (hp cmd (by simp))) fun c hc => hp c (by simp [hc])
    refine ⟨?_, ?_, ?_, fun x hx hm => ?_⟩
    · simp only [List.map_cons, QueueBook.run, hbook, hbook']
    · simp only [List.map_cons, QueueBook.run, hbook, hevents, hevents', mirrorBatches,
        List.zipWith_cons_cons]
    · simpa only [List.map_cons, QueueBook.run, List.length_cons, Nat.add_right_cancel_iff]
        using hlen
    · simp only [List.map_cons, QueueBook.run, List.zip_cons_cons, List.mem_cons] at hx
      rcases hx with rfl | hx
      · exact QueueBook.market_unpriced hm
      · exact hzero x hx hm

/-- Two engines of which one is given the mirrored commands emit mirrored events, and
the best bid of each is the mirrored best ask of the other. -/
theorem engine_mirrored {cfg : EngineConfig} {M : PriceTicks} (ha : Inside M cfg.anchorPrice)
    (hr : 1 ≤ cfg.bandRadius.toNat ∧ cfg.bandRadius.toNat ≤ 2 ^ 24)
    (hM : M.toInt + cfg.bandRadius.toNat + 1 ≤ 2 ^ 63 - 1)
    (hcap : cfg.poolCapacity.toNat ≤ 2 ^ 31 - 1) (ndebug : Bool) (cmds : List Command)
    (hknown : ∀ cmd ∈ cmds, cmd.Known)
    (hp : ∀ cmd ∈ cmds, cmd.kind = .kNew → Inside M cmd.priceTicks) :
    ∃ e₁ e₂ e₁' e₂' batches bid ask,
      MatchingEngine.new cfg = .ok e₁ ∧
      MatchingEngine.new { cfg with anchorPrice := M - cfg.anchorPrice } = .ok e₂ ∧
      e₁.processAll ndebug cmds = .ok (e₁', batches) ∧
      e₂.processAll ndebug (cmds.map (Command.mirror M)) =
        .ok (e₂', mirrorBatches M cmds batches) ∧
      batches.length = cmds.length ∧
      (∀ x ∈ cmds.zip batches, x.1.market = true →
        ∀ e ∈ x.2, e.kind = .kAccepted ∨ e.kind = .kCanceled → e.priceTicks = 0) ∧
      e₁'.book.bestBid = .ok bid ∧ e₂'.book.bestAsk = .ok (bid.map (M - ·)) ∧
      e₁'.book.bestAsk = .ok ask ∧ e₂'.book.bestBid = .ok (ask.map (M - ·)) := by
  have hsub := ha.toInt_sub
  obtain ⟨ha₁, ha₂⟩ := ha
  have h₁ : cfg.Valid := ⟨ha₁, hr, by omega, hcap⟩
  have h₂ : EngineConfig.Valid { cfg with anchorPrice := M - cfg.anchorPrice } :=
    ⟨by simp only [hsub]; omega, hr, by simp only [hsub]; omega, hcap⟩
  obtain ⟨e₁, hnew₁, hrep₁⟩ := MatchingEngine.new_rep h₁
  obtain ⟨e₂, hnew₂, hrep₂⟩ := MatchingEngine.new_rep h₂
  obtain ⟨e₁', hrun₁, hrep₁', -⟩ := MatchingEngine.processAll_rep ndebug cmds hrep₁
    QueueBook.new_uncrossed hknown
  obtain ⟨e₂', hrun₂, hrep₂', -⟩ := MatchingEngine.processAll_rep ndebug
    (cmds.map (Command.mirror M)) hrep₂ QueueBook.new_uncrossed fun cmd hcmd => by
      obtain ⟨c, hc, rfl⟩ := List.mem_map.mp hcmd
      exact (hknown c hc).mirror M
  obtain ⟨hbook, hevents, hlen, hzero⟩ := BookRep.run_mirror cmds hrep₁
    (fun r hr => by cases hr) hp
  have hempty : (QueueBook.new cfg.poolCapacity).mirror M = QueueBook.new cfg.poolCapacity := rfl
  rw [hempty] at hbook hevents
  rw [hevents] at hrun₂
  rw [hbook] at hrep₂'
  have hhead : ∀ Q : List Resting, ((Q.map (Resting.mirror M)).head?).map Resting.price =
      (Q.head?.map Resting.price).map (M - ·) := fun Q => by
    cases Q <;> rfl
  refine ⟨e₁, e₂, e₁', e₂', _, _, _, hnew₁, hnew₂, hrun₁, hrun₂, hlen, hzero,
    hrep₁'.bestBid_rep, ?_, hrep₁'.bestAsk_rep, ?_⟩
  · rw [hrep₂'.bestAsk_rep, ← hhead]
    rfl
  · rw [hrep₂'.bestBid_rep, ← hhead]
    rfl

/-- A market sell into a bid, against a market buy into an ask. -/
theorem engine_mirrored_small : ∃ e₁ e₂ e₁' e₂' batches bid,
    MatchingEngine.new ⟨100, 1, 2⟩ = .ok e₁ ∧ MatchingEngine.new ⟨900, 1, 2⟩ = .ok e₂ ∧
    e₁.processAll false [⟨.kNew, .kBuy, .kLimit, 0, 5, 101, 0⟩,
      ⟨.kNew, .kSell, .kMarket, 0, 2, 7, 0⟩] = .ok (e₁', batches) ∧
    e₂.processAll false [⟨.kNew, .kSell, .kLimit, 0, 5, 899, 0⟩,
      ⟨.kNew, .kBuy, .kMarket, 0, 2, 993, 0⟩] = .ok (e₂', mirrorBatches 1000
        [⟨.kNew, .kBuy, .kLimit, 0, 5, 101, 0⟩, ⟨.kNew, .kSell, .kMarket, 0, 2, 7, 0⟩] batches) ∧
    e₁'.book.bestBid = .ok bid ∧ e₂'.book.bestAsk = .ok (bid.map (1000 - ·)) := by
  obtain ⟨e₁, e₂, e₁', e₂', batches, bid, ask, hnew₁, hnew₂, hrun₁, hrun₂, -, -, hbid, hask, -⟩ :=
    @engine_mirrored ⟨100, 1, 2⟩ 1000 (by decide) (by decide) (by decide) (by decide) false
      [⟨.kNew, .kBuy, .kLimit, 0, 5, 101, 0⟩, ⟨.kNew, .kSell, .kMarket, 0, 2, 7, 0⟩]
      (by decide) (by decide)
  exact ⟨e₁, e₂, e₁', e₂', batches, bid, hnew₁, hnew₂, hrun₁, hrun₂, hbid, hask⟩

end LimitOrderBook
