import LimitOrderBook.EventStream
import LimitOrderBook.Lib.Tally

set_option autoImplicit false

namespace LimitOrderBook
open Checked PriorityQueue Tally

/-! What an event weighs. -/

namespace Event

def weigh (kind : EventType) (w : Event → Nat) (e : Event) : Nat :=
  if e.kind = kind then w e else 0

abbrev one (kind : EventType) : Event → Nat := weigh kind fun _ => 1

abbrev volume (kind : EventType) : Event → Nat := weigh kind fun e => e.qty.toNat

abbrev refused (reason : RejectReason) : Event → Nat :=
  weigh .kRejected fun e => if e.reason = reason then 1 else 0

abbrev invalid : Event → Nat :=
  weigh .kRejected fun e => if e.reason = .kInvalidQty ∨ e.reason = .kInvalidPrice then 1 else 0

abbrev spent : Event → Nat := weigh .kTraded fun e => if e.remaining = 0 then 1 else 0

/-- What a fill took from the order `id`, and from any other order. -/
abbrev fillOf (id : OrderId) : Event → Nat :=
  weigh .kTraded fun e => if e.orderId = id then e.qty.toNat else 0

abbrev fillOfOther (id : OrderId) : Event → Nat :=
  weigh .kTraded fun e => if e.orderId ≠ id then e.qty.toNat else 0

theorem volume_traded (id : OrderId) (e : Event) :
    e.volume .kTraded = e.fillOf id + e.fillOfOther id := by
  by_cases hk : e.kind = .kTraded
  · by_cases hid : e.orderId = id <;> simp [weigh, hk, hid]
  · simp [weigh, hk]

theorem tally_foreign {k kind : EventType} {es : List Event} {w : Event → Nat}
    (h : ∀ e ∈ es, e.kind = k) (hne : k ≠ kind) : tally (weigh kind w) es = 0 :=
  tally_eq_zero fun e he => if_neg (by rw [h e he]; exact hne)

end Event

/-- The fills of the resting orders in the events of one call, which start with the
acceptance of the taker. -/
def makerQty : List Event → Nat
  | [] => 0
  | e :: es => tally (Event.fillOfOther e.orderId) es

/-- What the fills in the events of one call leave open of the accepted order. -/
def openRemainder : List Event → Nat
  | [] => 0
  | e :: es => e.volume .kAccepted - tally (Event.fillOf e.orderId) es

def Command.news (cmd : Command) : Nat := if cmd.kind = .kNew then 1 else 0

def Command.cancels (cmd : Command) : Nat := if cmd.kind = .kNew then 0 else 1

def leftOpen (cmd : Command) (events : List Event) : Nat :=
  if cmd.kind = .kNew ∧ (cmd.type = .kMarket ∨ cmd.type = .kIoc) ∧ 0 < openRemainder events
  then 1 else 0

def restingQty (R : List Resting) : Nat := (R.map fun r => r.remaining.toNat).sum

@[simp] theorem restingQty_nil : restingQty [] = 0 := rfl

@[simp] theorem restingQty_cons (r : Resting) (R : List Resting) :
    restingQty (r :: R) = r.remaining.toNat + restingQty R := by simp [restingQty]

@[simp] theorem restingQty_append (R T : List Resting) :
    restingQty (R ++ T) = restingQty R + restingQty T := by simp [restingQty]

theorem restingQty_perm {R T : List Resting} (h : R.Perm T) : restingQty R = restingQty T :=
  (h.map _).sum_eq

/-- What a sweep with quantity `q` over `M` takes, gives and reports. -/
structure SweepBalance (id : OrderId) (q : Qty) (M : List Resting) (s : Sweep) : Prop where
  taker : tally (Event.fillOf id) s.events + s.remaining.toNat = q.toNat
  maker : tally (Event.fillOfOther id) s.events + s.remaining.toNat = q.toNat
  rest : restingQty s.rest + tally (Event.fillOf id) s.events = restingQty M
  spent : s.rest.length + tally Event.spent s.events =
    M.length + if q ≠ 0 ∧ s.remaining = 0 then 1 else 0
  even : tally (Event.one .kTraded) s.events % 2 = 0

section

variable {side : Side} {id : OrderId} {m : Resting} {fill makerLeft takerLeft : Qty}

theorem tradedPair_fillOf (hid : m.id ≠ id) :
    tally (Event.fillOf id) (tradedPair side id m fill makerLeft takerLeft) = fill.toNat := by
  simp [tradedPair, makeEvent, Event.weigh, hid]

theorem tradedPair_fillOfOther (hid : m.id ≠ id) :
    tally (Event.fillOfOther id) (tradedPair side id m fill makerLeft takerLeft) = fill.toNat := by
  simp [tradedPair, makeEvent, Event.weigh, hid]

theorem tradedPair_spent :
    tally Event.spent (tradedPair side id m fill makerLeft takerLeft) =
      (if makerLeft = 0 then 1 else 0) + if takerLeft = 0 then 1 else 0 := by
  simp [tradedPair, makeEvent, Event.weigh]

theorem tradedPair_one :
    tally (Event.one .kTraded) (tradedPair side id m fill makerLeft takerLeft) = 2 := by
  simp [tradedPair, makeEvent, Event.weigh]

end

theorem toNat_eq_zero {q : Qty} : q.toNat = 0 ↔ q = 0 :=
  ⟨fun h => UInt32.toNat_inj.mp h, fun h => by rw [h]; rfl⟩

theorem sweep_balance (side : Side) (limit : PriceTicks) (id : OrderId) (M : List Resting) :
    ∀ q, (∀ r ∈ M, 1 ≤ r.remaining.toNat) → (∀ r ∈ M, r.id ≠ id) →
    SweepBalance id q M (sweep side limit id q M) := by
  induction M with
  | nil =>
    intro q _ _
    have hnot : ¬ (q ≠ 0 ∧ q = 0) := fun h => h.1 h.2
    have hnil : sweep side limit id q [] = ⟨q, [], [], []⟩ := rfl
    rw [hnil]
    refine ⟨by simp, by simp, by simp, ?_, by simp⟩
    rw [if_neg hnot]
    rfl
  | cons m M ih =>
    intro q hpos hid
    have hm := hpos m (by simp)
    have hmid := hid m (by simp)
    by_cases hstop : q = 0 ∨ ¬ crosses side limit m.price
    · rw [sweep_stop hstop]
      have hnot : ¬ (q ≠ 0 ∧ q = 0) := fun h => h.1 h.2
      refine ⟨by simp, by simp, by simp, ?_, by simp⟩
      simp only [tally_nil]
      rw [if_neg hnot]
    · have hq : q ≠ 0 := (not_or.mp hstop).1
      have hmin := toNat_min q m.remaining
      have hsub := toNat_sub_min q m.remaining
      by_cases hleft : m.remaining - min q m.remaining = 0
      · obtain ⟨h₁, h₂, h₃, h₄, h₅⟩ := ih (q - min q m.remaining)
          (fun r hr => hpos r (by simp [hr])) fun r hr => hid r (by simp [hr])
        have hgone : (m.remaining - min q m.remaining).toNat = 0 := toNat_eq_zero.mpr hleft
        rw [sweep_filled hstop hleft]
        generalize sweep side limit id (q - min q m.remaining) M = s at *
        refine ⟨?_, ?_, ?_, ?_, ?_⟩
        · simp only [tally_append, tradedPair_fillOf hmid]
          omega
        · simp only [tally_append, tradedPair_fillOfOther hmid]
          omega
        · simp only [tally_append, tradedPair_fillOf hmid, restingQty_cons]
          omega
        · -- the taker's event is its last one exactly if nothing is left for the sweep to do
          simp only [tally_append, tradedPair_spent, if_pos hleft, List.length_cons]
          by_cases hz : q - min q m.remaining = 0
          · have hnone := toNat_eq_zero.mpr hz
            have hdone : s.remaining = 0 := toNat_eq_zero.mp (by omega)
            rw [if_neg (by simp [hz])] at h₄
            rw [if_pos hz, if_pos ⟨hq, hdone⟩]
            omega
          · rw [if_neg hz]
            simp only [ne_eq, hz, not_false_eq_true, true_and, hq] at h₄ ⊢
            omega
        · simp only [tally_append, tradedPair_one]
          omega
      · have hz := left_zero hleft
        have hzero : (q - min q m.remaining).toNat = 0 := toNat_eq_zero.mpr hz
        rw [sweep_left hstop hleft]
        refine ⟨?_, ?_, ?_, ?_, ?_⟩
        · simp only [tradedPair_fillOf hmid]
          omega
        · simp only [tradedPair_fillOfOther hmid]
          omega
        · simp only [tradedPair_fillOf hmid, restingQty_cons]
          omega
        · simp only [tradedPair_spent, if_neg hleft, if_pos hz, List.length_cons]
          rw [if_pos ⟨hq, hz⟩]
        · simp only [tradedPair_one]

/-- One command, from the book `b` to the book `b'`, and its events. -/
structure Balance (b b' : QueueBook) (cmd : Command) (events : List Event) : Prop where
  rejected : tally (Event.one .kRejected) events = tally Event.invalid events +
    tally (Event.refused .kPoolExhausted) events + tally (Event.refused .kUnknownOrder) events
  news : cmd.news = tally (Event.one .kAccepted) events +
    tally Event.invalid events + tally (Event.refused .kPoolExhausted) events
  cancels : cmd.cancels + leftOpen cmd events =
    tally (Event.one .kCanceled) events + tally (Event.refused .kUnknownOrder) events
  even : tally (Event.one .kTraded) events % 2 = 0
  maker : tally (Event.volume .kTraded) events = 2 * makerQty events
  orders : b'.resting.length + tally (Event.one .kCanceled) events + tally Event.spent events =
    b.resting.length + tally (Event.one .kAccepted) events
  quantity : restingQty b.resting + tally (Event.volume .kAccepted) events =
    tally (Event.volume .kTraded) events + tally (Event.volume .kCanceled) events +
      restingQty b'.resting

namespace QueueBook

variable {b : QueueBook} {cmd : Command} {side : Side} {type : OrderType} {price : PriceTicks}
  {qty : Qty} {id : OrderId}

theorem balance_rejected (hk : cmd.kind = .kNew) {reason : RejectReason}
    (hr : reason = .kInvalidQty ∨ reason = .kInvalidPrice ∨ reason = .kPoolExhausted) :
    Balance b b cmd [makeEvent .kRejected side reason qty 0 price kInvalidOrderId] := by
  rcases hr with rfl | rfl | rfl <;> constructor <;>
    simp [makeEvent, Event.weigh, makerQty, leftOpen, openRemainder, Command.news,
      Command.cancels, hk]

theorem balance_unknown (hk : cmd.kind ≠ .kNew) :
    Balance b b cmd [makeEvent .kRejected .kBuy .kUnknownOrder 0 0 0 id] := by
  constructor <;>
    simp [makeEvent, Event.weigh, makerQty, leftOpen, Command.news, Command.cancels, hk]

theorem balance_canceled (hk : cmd.kind ≠ .kNew) (hw : b.WF) {r : Resting} (hr : r ∈ b.resting) :
    Balance b (b.remove r) cmd [makeEvent .kCanceled r.side .kNone r.remaining 0 r.price id] := by
  have hperm := resting_remove hw hr
  have hlen := hperm.length_eq
  have hqty := restingQty_perm hperm
  rw [List.length_cons] at hlen
  rw [restingQty_cons] at hqty
  constructor <;>
    simp [makeEvent, Event.weigh, makerQty, leftOpen, Command.news, Command.cancels, hk, hlen,
      hqty]

theorem balance_accepted {b' : QueueBook} {T C : List Event} (hk : cmd.kind = .kNew)
    (hT : ∀ e ∈ T, e.kind = .kTraded) (hC : ∀ e ∈ C, e.kind = .kCanceled)
    (heven : tally (Event.one .kTraded) T % 2 = 0)
    (hsame : tally (Event.fillOf id) T = tally (Event.fillOfOther id) T)
    (hleft : (if (cmd.type = .kMarket ∨ cmd.type = .kIoc) ∧
      0 < qty.toNat - tally (Event.fillOf id) T then 1 else 0) = C.length)
    (horders : b'.resting.length + C.length + tally Event.spent T = b.resting.length + 1)
    (hquantity : restingQty b.resting + qty.toNat = 2 * tally (Event.fillOf id) T +
      tally (Event.volume .kCanceled) C + restingQty b'.resting) :
    Balance b b' cmd (makeEvent .kAccepted side .kNone qty qty price id :: T ++ C) := by
  have hone : tally (Event.one .kCanceled) C = C.length :=
    (tally_congr fun e he => if_pos (hC e he)).trans (tally_length C)
  have hvolume : tally (Event.volume .kTraded) T =
      tally (Event.fillOf id) T + tally (Event.fillOfOther id) T :=
    (tally_congr fun e _ => e.volume_traded id).trans (tally_add _)
  constructor
  all_goals
    simp (disch := decide) only [List.cons_append, tally_cons, tally_append, makerQty, leftOpen,
      openRemainder, Event.tally_foreign hT, Event.tally_foreign hC, hone, hvolume, hsame]
    simp [makeEvent, Event.weigh, Command.news, Command.cancels, hk]
  · simpa using hleft
  · exact heven
  · omega
  · exact horders
  · omega

theorem execute_balance (side : Side) (price : PriceTicks) (hk : cmd.kind = .kNew)
    (ht : cmd.type.Declared) (hpos : ∀ r ∈ b.resting, 1 ≤ r.remaining.toNat)
    (hid : ∀ r ∈ b.resting, r.id ≠ id) (hqty : qty ≠ 0) :
    Balance b (b.execute id side cmd.type price qty).1 cmd
      (b.execute id side cmd.type price qty).2 := by
  have hmem : ∀ r ∈ b.queue side.opposite, r ∈ b.resting := fun r hr => mem_resting.mpr ⟨_, hr⟩
  have hs := sweep_balance side (takerLimit side cmd.type price) id (b.queue side.opposite) qty
    (fun r hr => hpos r (hmem r hr)) fun r hr => hid r (hmem r hr)
  have htraded := sweep_traded side (takerLimit side cmd.type price) id (b.queue side.opposite) qty
  have hbefore := b.resting_sides side
  have hafter := (b.settle side (sweep side (takerLimit side cmd.type price) id qty
    (b.queue side.opposite))).resting_sides side
  rw [settle_queue_opposite rfl, settle_queue_own (isBuy_ne_opposite rfl)] at hafter
  simp only [execute]
  generalize sweep side (takerLimit side cmd.type price) id qty (b.queue side.opposite) = s at *
  obtain ⟨htaker, hmaker, hrest, hspent, heven⟩ := hs
  have hlen := hbefore.length_eq
  have hlen' := hafter.length_eq
  have hsum := restingQty_perm hbefore
  have hsum' := restingQty_perm hafter
  rw [List.length_append] at hlen hlen'
  rw [restingQty_append] at hsum hsum'
  by_cases hz : s.remaining = 0
  · have hnot : ¬ 0 < s.remaining := by
      rw [hz]
      decide
    have hdone := toNat_eq_zero.mpr hz
    rw [if_pos ⟨hqty, hz⟩] at hspent
    rw [if_pos (.inl hz), if_neg hnot]
    refine balance_accepted hk htraded (by simp) heven (by omega) (if_neg ?_) ?_ ?_
    · omega
    · simp only [resting_release, List.length_nil]
      omega
    · simp only [resting_release, tally_nil]
      omega
  · have hopen : s.remaining.toNat ≠ 0 := fun e => hz (toNat_eq_zero.mp e)
    have hpos' : 0 < s.remaining := UInt32.pos_iff_ne_zero.mpr hz
    rw [if_neg fun h => hz h.2] at hspent
    by_cases hlimit : cmd.type = .kLimit
    · have hgo : ¬ (s.remaining = 0 ∨ cmd.type ≠ .kLimit) := by simp [hz, hlimit]
      have hperm := rest_resting (b.settle side s)
        { id, price, qty, remaining := s.remaining, side }
      have hlen'' := hperm.length_eq
      have hsum'' := restingQty_perm hperm
      rw [List.length_cons] at hlen''
      rw [restingQty_cons] at hsum''
      simp only at hsum''
      have hnone : ¬ ((cmd.type = .kMarket ∨ cmd.type = .kIoc) ∧
          0 < qty.toNat - tally (Event.fillOf id) s.events) := by
        rw [hlimit]
        exact fun h => absurd h.1 (by decide)
      rw [if_neg hgo, ← List.append_nil (_ :: s.events)]
      refine balance_accepted hk htraded (by simp) heven (by omega) (if_neg hnone) ?_ ?_
      · simp only [List.length_nil]
        omega
      · simp only [tally_nil]
        omega
    · rw [if_pos (.inr hlimit), if_pos hpos']
      refine balance_accepted hk htraded (by simp [makeEvent]) heven (by omega)
        (if_pos ⟨ht.resolve_left hlimit, by omega⟩) ?_ ?_
      · simp only [resting_release, List.length_singleton]
        omega
      · simp only [resting_release, tally_cons, tally_nil, makeEvent, Event.weigh, if_true]
        omega

/-- Every declared command balances, in a book that a run built. -/
theorem step_balance {cfg : EngineConfig} {book : OrderBook} (h : BookRep cfg book b [])
    (hd : cmd.Declared) : Balance b (b.step cmd.op).1 cmd (b.step cmd.op).2.events := by
  by_cases hk : cmd.kind = .kNew
  · rw [Command.op, if_pos hk]
    simp only [step, add]
    cases hf : refusal cmd.type cmd.priceTicks cmd.qty with
    | some reason => exact balance_rejected hk ((refusal_invalid hf).imp_right .inl)
    | none =>
      cases hm : b.mint with
      | none => exact balance_rejected hk (.inr (.inr rfl))
      | some x =>
        obtain ⟨_, hwf, hbids, hasks, hnew⟩ := mint_some h hm
        have hresting : x.2.resting = b.resting := by
          rw [resting, hbids, hasks]
          rfl
        have hpos : ∀ r ∈ x.2.resting, 1 ≤ r.remaining.toNat := fun r hr => by
          obtain ⟨s, hs⟩ := mem_resting.mp (hresting ▸ hr)
          exact h.remaining_pos hs
        have hbal := execute_balance cmd.side cmd.priceTicks hk (hd.2 hk).2 hpos
          hnew (refusal_none_iff.mp hf).1
        exact { hbal with
          orders := by rw [← hresting]; exact hbal.orders
          quantity := by rw [← hresting]; exact hbal.quantity }
  · rw [Command.op, if_neg hk]
    simp only [step, cancel]
    cases hf : b.find cmd.orderId with
    | none => exact balance_unknown hk
    | some r =>
      obtain ⟨hr, _⟩ := (find_iff h.wf).mp hf
      exact balance_canceled hk h.wf hr

end QueueBook

def leftOpenOrders (cmds : List Command) (batches : List (List Event)) : Nat :=
  tally (fun x : Command × List Event => leftOpen x.1 x.2) (cmds.zip batches)

structure RunBalance (b b' : QueueBook) (cmds : List Command) (batches : List (List Event)) :
    Prop where
  rejected : tally (Event.one .kRejected) batches.flatten =
    tally Event.invalid batches.flatten + tally (Event.refused .kPoolExhausted) batches.flatten +
      tally (Event.refused .kUnknownOrder) batches.flatten
  news : tally Command.news cmds = tally (Event.one .kAccepted) batches.flatten +
    tally Event.invalid batches.flatten + tally (Event.refused .kPoolExhausted) batches.flatten
  cancels : tally Command.cancels cmds + leftOpenOrders cmds batches =
    tally (Event.one .kCanceled) batches.flatten +
      tally (Event.refused .kUnknownOrder) batches.flatten
  even : tally (Event.one .kTraded) batches.flatten % 2 = 0
  maker : tally (Event.volume .kTraded) batches.flatten = 2 * tally makerQty batches
  orders : b'.resting.length + tally (Event.one .kCanceled) batches.flatten +
      tally Event.spent batches.flatten =
    b.resting.length + tally (Event.one .kAccepted) batches.flatten
  quantity : restingQty b.resting + tally (Event.volume .kAccepted) batches.flatten =
    tally (Event.volume .kTraded) batches.flatten +
      tally (Event.volume .kCanceled) batches.flatten + restingQty b'.resting

theorem RunBalance.cons {b b₁ b' : QueueBook} {cmd : Command} {cmds : List Command}
    {events : List Event} {batches : List (List Event)} (h : Balance b b₁ cmd events)
    (hs : RunBalance b₁ b' cmds batches) :
    RunBalance b b' (cmd :: cmds) (events :: batches) := by
  obtain ⟨h₁, h₂, h₃, h₄, h₅, h₆, h₇⟩ := h
  obtain ⟨k₁, k₂, k₃, k₄, k₅, k₆, k₇⟩ := hs
  unfold leftOpenOrders at k₃
  constructor
  all_goals
    simp only [List.flatten_cons, tally_append, tally_cons, leftOpenOrders, List.zip_cons_cons]
    omega

theorem BookRep.run_balance {cfg : EngineConfig} (cmds : List Command) :
    ∀ {book : OrderBook} {b : QueueBook}, BookRep cfg book b [] →
    (∀ cmd ∈ cmds, cmd.Declared) → RunBalance b (b.run (cmds.map Command.op)).1 cmds
      ((b.run (cmds.map Command.op)).2.map Reply.events) := by
  induction cmds with
  | nil => exact fun _ _ => by constructor <;> simp [QueueBook.run, leftOpenOrders]
  | cons cmd cmds ih =>
    intro book b h hd
    obtain ⟨book', -, hrep⟩ := h.step_rep cmd.op
    exact .cons (QueueBook.step_balance h (hd cmd (by simp)))
      (ih hrep fun c hc => hd c (by simp [hc]))

/-! What rests, read off the aggregates of the levels. -/

def PriceLadder.totalQty (l : PriceLadder) : Nat :=
  (l.levels.toList.map fun level => level.totalQty.toNat).sum +
    (l.overflow.toList.map fun node => node.2.totalQty.toNat).sum

theorem openQty_visited (pool : OrderPool) (S : List UInt32) (ps : List PriceTicks) :
    openQty pool (LadderRep.visited pool S ps) =
      (ps.map fun p => openQty pool (atPrice pool S p)).sum := by
  induction ps with
  | nil => rfl
  | cons p ps ih =>
    rw [List.map_cons, List.sum_cons, ← ih, ← openQty_append]
    rfl

theorem LadderRep.totalQty_eq {pool : OrderPool} {l : PriceLadder} {S : List UInt32}
    (h : LadderRep pool l S) : l.totalQty = openQty pool S := by
  have hband : (l.levels.toList.map fun level => level.totalQty.toNat) =
      l.bandPrices.map fun p => openQty pool (atPrice pool S p) := by
    rw [PriceLadder.bandPrices, List.map_map]
    refine List.ext_getElem (by simp) fun n hn hn' => ?_
    have hlt : n < l.levels.size := by simpa using hn
    have hp := h.bandPrice_toInt hlt
    have hb : l.InBand (Int64.ofInt (l.lowPrice.toInt + n)) := by
      rw [PriceLadder.InBand, hp]
      omega
    have hlevel : l.level (Int64.ofInt (l.lowPrice.toInt + n)) = l.levels[n] := by
      rw [PriceLadder.level, if_pos hb, hp, Array.getD_eq_getD_getElem?]
      simp [hlt]
    simp only [List.getElem_map, List.getElem_range, Function.comp_apply, Array.getElem_toList]
    rw [← hlevel, (h.level _).qty]
  have hover : (l.overflow.toList.map fun node => node.2.totalQty.toNat) =
      l.overflow.keys.map fun p => openQty pool (atPrice pool S p) := by
    have hkeys : l.overflow.keys = l.overflow.toList.map Prod.fst := by simp
    rw [hkeys, List.map_map]
    refine List.map_congr_left fun node hnode => ?_
    have hget := Std.ExtTreeMap.mem_toList_iff_getElem?_eq_some.mp hnode
    have hmem : node.1 ∈ l.overflow := by
      rw [Std.ExtTreeMap.mem_iff_isSome_getElem?, hget]
      rfl
    have hlevel : l.level node.1 = node.2 := by
      rw [PriceLadder.level, if_neg ((h.overflow _).mp hmem).1,
        Std.ExtTreeMap.getD_eq_getD_getElem?, hget]
      rfl
    rw [← hlevel, (h.level _).qty]
    rfl
  rw [PriceLadder.totalQty, hband, hover, ← List.sum_append, ← List.map_append, ← openQty_visited]
  unfold openQty
  exact (h.visited_all.map _).sum_eq

/-! The engine. -/

inductive EngineCall where
  | process (cmd : Command)
  | submit (side : Side) (type : OrderType) (price : PriceTicks) (qty : Qty)
  | cancel (id : OrderId)
  deriving DecidableEq, Repr

namespace EngineCall

def Declared : EngineCall → Prop
  | .process cmd => cmd.Declared
  | .submit side type _ _ => side.Declared ∧ type.Declared
  | .cancel _ => True

instance (call : EngineCall) : Decidable call.Declared :=
  match call with
  | .process cmd => inferInstanceAs (Decidable cmd.Declared)
  | .submit side type _ _ => inferInstanceAs (Decidable (side.Declared ∧ type.Declared))
  | .cancel _ => inferInstanceAs (Decidable True)

def command : EngineCall → Command
  | .process cmd => cmd
  | .submit side type price qty => ⟨.kNew, side, type, 0, qty, price, kInvalidOrderId⟩
  | .cancel id => ⟨.kCancel, .kBuy, .kLimit, 0, 0, 0, id⟩

theorem Declared.command {call : EngineCall} (h : call.Declared) : call.command.Declared := by
  cases call with
  | process cmd => exact h
  | submit side type price qty => exact ⟨.inl rfl, fun _ => h⟩
  | cancel id =>
    have hk : CommandType.kCancel ≠ .kNew := by decide
    exact ⟨.inr rfl, fun h => absurd h hk⟩

end EngineCall

namespace MatchingEngine

def call (ndebug : Bool) (e : MatchingEngine) : EngineCall → Exec (MatchingEngine × List Event)
  | .process cmd => e.process ndebug cmd
  | .submit side type price qty => do
    let (_, e, events) ← e.submit ndebug side type price qty
    pure (e, events)
  | .cancel id => do
    let (_, e, events) ← e.cancel id
    pure (e, events)

def callAll (ndebug : Bool) (e : MatchingEngine) :
    List EngineCall → Exec (MatchingEngine × List (List Event))
  | [] => pure (e, [])
  | call :: calls => do
    let (e, events) ← e.call ndebug call
    let (e, batches) ← e.callAll ndebug calls
    pure (e, events :: batches)

theorem call_eq (ndebug : Bool) (e : MatchingEngine) (call : EngineCall) :
    e.call ndebug call = e.process ndebug call.command := by
  cases call <;> rfl

theorem callAll_eq (ndebug : Bool) (calls : List EngineCall) : ∀ e : MatchingEngine,
    e.callAll ndebug calls = e.processAll ndebug (calls.map EngineCall.command) := by
  induction calls with
  | nil => exact fun _ => rfl
  | cons call calls ih =>
    intro e
    simp only [callAll, call_eq, ih, List.map_cons, processAll]

end MatchingEngine

namespace EngineStats

/-- The counters after commands and events, each counted exactly and then cut to its
width. -/
def bump (s : EngineStats) (cmds : List Command) (events : List Event) : EngineStats where
  news := s.news + UInt64.ofNat (tally Command.news cmds)
  cancelRequests := s.cancelRequests + UInt64.ofNat (tally Command.cancels cmds)
  events := s.events + UInt64.ofNat events.length
  accepted := s.accepted + UInt64.ofNat (tally (Event.one .kAccepted) events)
  rejected := s.rejected + UInt64.ofNat (tally (Event.one .kRejected) events)
  rejectedUnknownOrder :=
    s.rejectedUnknownOrder + UInt64.ofNat (tally (Event.refused .kUnknownOrder) events)
  rejectedInvalid := s.rejectedInvalid + UInt64.ofNat (tally Event.invalid events)
  rejectedPoolExhausted :=
    s.rejectedPoolExhausted + UInt64.ofNat (tally (Event.refused .kPoolExhausted) events)
  tradedEvents := s.tradedEvents + UInt64.ofNat (tally (Event.one .kTraded) events)
  tradedQtyBothSides :=
    s.tradedQtyBothSides + UInt64.ofNat (tally (Event.volume .kTraded) events)
  canceled := s.canceled + UInt64.ofNat (tally (Event.one .kCanceled) events)

variable (s : EngineStats)

@[simp] theorem bump_nil : s.bump [] [] = s := by
  simp [bump]

theorem bump_bump (cmds cmds' : List Command) (es es' : List Event) :
    (s.bump cmds es).bump cmds' es' = s.bump (cmds ++ cmds') (es ++ es') := by
  simp [bump, UInt64.ofNat_add, UInt64.add_assoc]

theorem onNew_eq {cmd : Command} (hk : cmd.kind = .kNew) : s.onNew = s.bump [cmd] [] := by
  simp [onNew, bump, Command.news, Command.cancels, hk]

theorem onCancelRequest_eq {cmd : Command} (hk : cmd.kind ≠ .kNew) :
    s.onCancelRequest = s.bump [cmd] [] := by
  simp [onCancelRequest, bump, Command.news, Command.cancels, hk]

theorem onEvent_eq (e : Event) : s.onEvent e = s.bump [] [e] := by
  have hqty : UInt64.ofNat e.qty.toNat = e.qty.toUInt64 := by
    refine UInt64.toNat_inj.mp ?_
    have := e.qty.toNat_lt
    rw [UInt64.toNat_ofNat', UInt32.toNat_toUInt64]
    omega
  unfold onEvent onReject bump
  cases hk : e.kind <;> cases hr : e.reason <;> simp [Event.weigh, hk, hr, hqty]

theorem foldl_onEvent (es : List Event) : ∀ s : EngineStats,
    es.foldl onEvent s = s.bump [] es := by
  induction es with
  | nil => simp
  | cons e es ih =>
    intro s
    rw [List.foldl_cons, ih, onEvent_eq, bump_bump]
    rfl

end EngineStats

namespace MatchingEngine

variable {ndebug : Bool} {e e' : MatchingEngine}

theorem process_stats {cmd : Command} {events : List Event} (hk : cmd.Known)
    (h : e.process ndebug cmd = .ok (e', events)) : e'.stats = e.stats.bump [cmd] events := by
  rcases hk with hk | hk
  · rw [process, if_pos hk] at h
    obtain ⟨⟨id, e₁, events₁⟩, hsubmit, h⟩ := bind_eq_ok.mp h
    obtain ⟨⟨id₂, book₂, events₂⟩, hadd, hsubmit⟩ := bind_eq_ok.mp hsubmit
    cases hsubmit
    cases h
    rw [EngineStats.foldl_onEvent, EngineStats.onNew_eq _ hk, EngineStats.bump_bump]
    rfl
  · have hne : ¬ cmd.kind = .kNew := by
      rw [hk]
      decide
    rw [process, if_neg hne, if_pos hk] at h
    obtain ⟨⟨found, e₁, events₁⟩, hcancel, h⟩ := bind_eq_ok.mp h
    obtain ⟨⟨found₂, book₂, events₂⟩, hbook, hcancel⟩ := bind_eq_ok.mp hcancel
    cases hcancel
    cases h
    rw [EngineStats.foldl_onEvent, EngineStats.onCancelRequest_eq _ hne, EngineStats.bump_bump]
    rfl

theorem processAll_stats (cmds : List Command) : ∀ {e e' : MatchingEngine}
    {batches : List (List Event)}, (∀ cmd ∈ cmds, cmd.Known) →
    e.processAll ndebug cmds = .ok (e', batches) →
    e'.stats = e.stats.bump cmds batches.flatten := by
  induction cmds with
  | nil =>
    intro e e' batches _ h
    cases h
    exact (EngineStats.bump_nil _).symm
  | cons cmd cmds ih =>
    intro e e' batches hk h
    obtain ⟨⟨e₁, events⟩, hrun₁, h⟩ := bind_eq_ok.mp h
    obtain ⟨⟨e₂, rest⟩, hrun₂, h⟩ := bind_eq_ok.mp h
    cases h
    rw [ih (fun c hc => hk c (by simp [hc])) hrun₂, process_stats (hk cmd (by simp)) hrun₁,
      EngineStats.bump_bump]
    rfl

end MatchingEngine

/-- No counter has reached its width. -/
structure Countable (calls : List EngineCall) (batches : List (List Event)) : Prop where
  calls : calls.length < 2 ^ 64
  events : batches.flatten.length < 2 ^ 64
  volume : tally (Event.volume .kTraded) batches.flatten < 2 ^ 64

/-- What the counters count, and how they add up. -/
structure Reconciled (e : MatchingEngine) (cmds : List Command) (batches : List (List Event)) :
    Prop where
  counted : e.stats.events.toNat = batches.flatten.length ∧
    e.stats.news.toNat = tally Command.news cmds ∧
    e.stats.cancelRequests.toNat = tally Command.cancels cmds
  kinds : e.stats.accepted.toNat = tally (Event.one .kAccepted) batches.flatten ∧
    e.stats.rejected.toNat = tally (Event.one .kRejected) batches.flatten ∧
    e.stats.tradedEvents.toNat = tally (Event.one .kTraded) batches.flatten ∧
    e.stats.canceled.toNat = tally (Event.one .kCanceled) batches.flatten
  events : e.stats.events.toNat = e.stats.accepted.toNat + e.stats.rejected.toNat +
    e.stats.tradedEvents.toNat + e.stats.canceled.toNat
  rejected : e.stats.rejected.toNat = e.stats.rejectedInvalid.toNat +
    e.stats.rejectedPoolExhausted.toNat + e.stats.rejectedUnknownOrder.toNat
  news : e.stats.news.toNat = e.stats.accepted.toNat + e.stats.rejectedInvalid.toNat +
    e.stats.rejectedPoolExhausted.toNat
  cancels : e.stats.cancelRequests.toNat + leftOpenOrders cmds batches =
    e.stats.canceled.toNat + e.stats.rejectedUnknownOrder.toNat
  tradedEven : e.stats.tradedEvents.toNat % 2 = 0
  tradedQty : e.stats.tradedQtyBothSides.toNat = 2 * tally makerQty batches
  openOrders : e.book.openOrders.toNat + e.stats.canceled.toNat +
    tally Event.spent batches.flatten = e.stats.accepted.toNat
  quantity : tally (Event.volume .kAccepted) batches.flatten =
    e.stats.tradedQtyBothSides.toNat + tally (Event.volume .kCanceled) batches.flatten +
      (e.book.bids.totalQty + e.book.asks.totalQty)

theorem length_kinds (es : List Event) : es.length = tally (Event.one .kAccepted) es +
    tally (Event.one .kRejected) es + tally (Event.one .kTraded) es +
    tally (Event.one .kCanceled) es := by
  induction es with
  | nil => rfl
  | cons e es ih =>
    have hone : Event.one .kAccepted e + Event.one .kRejected e + Event.one .kTraded e +
        Event.one .kCanceled e = 1 := by
      cases hk : e.kind <;> simp [Event.weigh, hk]
    simp only [List.length_cons, tally_cons]
    omega

/-- From construction, after any calls, the counters reconcile. -/
theorem stats_reconcile {cfg : EngineConfig} (hc : cfg.Valid) (ndebug : Bool)
    (calls : List EngineCall) (hd : ∀ call ∈ calls, call.Declared) :
    ∃ e e' batches, MatchingEngine.new cfg = .ok e ∧
      e.callAll ndebug calls = .ok (e', batches) ∧
      (Countable calls batches →
        Reconciled e' (calls.map EngineCall.command) batches) := by
  have hdecl : ∀ cmd ∈ calls.map EngineCall.command, cmd.Declared := fun cmd hcmd => by
    obtain ⟨call, hcall, rfl⟩ := List.mem_map.mp hcmd
    exact (hd call hcall).command
  have hknown := fun cmd hcmd => (hdecl cmd hcmd).1
  obtain ⟨e, hnew, hrep⟩ := MatchingEngine.new_rep hc
  obtain ⟨e', hrun, hrep', -⟩ := MatchingEngine.processAll_rep ndebug _ hrep
    QueueBook.new_uncrossed hknown
  generalize hb : ((QueueBook.new cfg.poolCapacity).run _).1 = b at hrep'
  generalize hbatches : ((QueueBook.new cfg.poolCapacity).run _).2.map Reply.events = batches
    at hrun
  refine ⟨e, e', batches, hnew, by rw [MatchingEngine.callAll_eq, hrun], fun hcount => ?_⟩
  have hbal := BookRep.run_balance _ hrep hdecl
  rw [hb, hbatches] at hbal
  have hstats := MatchingEngine.processAll_stats _ hknown hrun
  have hzero : e.stats = {} := by
    obtain ⟨book, -, he⟩ := bind_eq_ok.mp hnew
    cases he
    rfl
  have hopen := hrep'.openOrders_rep
  have hbids := (hrep'.ladder .kBuy).totalQty_eq.trans (hrep'.openQty_rep fun r hr => hr)
  have hasks := (hrep'.ladder .kSell).totalQty_eq.trans (hrep'.openQty_rep fun r hr => hr)
  rw [hzero] at hstats
  obtain ⟨hrejected, hnews, hcancels, heven, hmaker, horders, hquantity⟩ := hbal
  obtain ⟨hfew, hevents, hvolume⟩ := hcount
  have hkinds := length_kinds batches.flatten
  have hcmds : (calls.map EngineCall.command).length < 2 ^ 64 := by rwa [List.length_map]
  have hfewNews : tally Command.news (calls.map EngineCall.command) ≤ _ :=
    (tally_le fun cmd => by unfold Command.news; split <;> omega).trans_eq (tally_length _)
  have hfewCancels : tally Command.cancels (calls.map EngineCall.command) ≤ _ :=
    (tally_le fun cmd => by unfold Command.cancels; split <;> omega).trans_eq (tally_length _)
  have hcounter : ∀ {counter : EngineStats → UInt64} {n : Nat},
      counter (EngineStats.bump {} (calls.map EngineCall.command) batches.flatten) =
        0 + UInt64.ofNat n → n < 2 ^ 64 → (counter e'.stats).toNat = n := fun h hn => by
    rw [hstats]
    exact counter_exact h hn
  have h₁ := @hcounter EngineStats.news _ rfl (by omega)
  have h₂ := @hcounter EngineStats.cancelRequests _ rfl (by omega)
  have h₃ := @hcounter EngineStats.events _ rfl (by omega)
  have h₄ := @hcounter EngineStats.accepted _ rfl (by omega)
  have h₅ := @hcounter EngineStats.rejected _ rfl (by omega)
  have h₆ := @hcounter EngineStats.rejectedUnknownOrder _ rfl (by omega)
  have h₇ := @hcounter EngineStats.rejectedInvalid _ rfl (by omega)
  have h₈ := @hcounter EngineStats.rejectedPoolExhausted _ rfl (by omega)
  have h₉ := @hcounter EngineStats.tradedEvents _ rfl (by omega)
  have h₁₀ := @hcounter EngineStats.tradedQtyBothSides _ rfl (by omega)
  have h₁₁ := @hcounter EngineStats.canceled _ rfl (by omega)
  have hempty : (QueueBook.new cfg.poolCapacity).resting = [] := rfl
  rw [hempty, List.length_nil] at horders
  rw [hempty, restingQty_nil] at hquantity
  have hresting : restingQty b.resting = e'.book.bids.totalQty + e'.book.asks.totalQty := by
    rw [QueueBook.resting, restingQty_append]
    exact congrArg₂ _ hbids.symm hasks.symm
  constructor <;> omega

/-- A market order that a resting bid fills in part, and the cancel of an unknown id. -/
theorem stats_reconcile_small : ∃ e e' batches, MatchingEngine.new ⟨100, 1, 2⟩ = .ok e ∧
    e.callAll false [.submit .kBuy .kLimit 101 5,
      .process ⟨.kNew, .kSell, .kMarket, 0, 7, 0, 0⟩, .cancel 9] = .ok (e', batches) ∧
    Reconciled e' [⟨.kNew, .kBuy, .kLimit, 0, 5, 101, 0⟩, ⟨.kNew, .kSell, .kMarket, 0, 7, 0, 0⟩,
      ⟨.kCancel, .kBuy, .kLimit, 0, 0, 0, 9⟩] batches := by
  obtain ⟨e, e', batches, hnew, hrun, hreconciled⟩ :=
    @stats_reconcile ⟨100, 1, 2⟩ ⟨by decide, by decide, by decide, by decide⟩ false
      [.submit .kBuy .kLimit 101 5, .process ⟨.kNew, .kSell, .kMarket, 0, 7, 0, 0⟩, .cancel 9]
      (by decide)
  have hcount : Holds (MatchingEngine.new ⟨100, 1, 2⟩ >>= fun e => e.callAll false
      [.submit .kBuy .kLimit 101 5, .process ⟨.kNew, .kSell, .kMarket, 0, 7, 0, 0⟩, .cancel 9])
      fun r => r.2.flatten.length < 2 ^ 64 ∧
        tally (Event.volume .kTraded) r.2.flatten < 2 ^ 64 := by decide
  rw [hnew, ok_bind, hrun] at hcount
  exact ⟨e, e', batches, hnew, hrun, hreconciled ⟨by decide, hcount.1, hcount.2⟩⟩

end LimitOrderBook
