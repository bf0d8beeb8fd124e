import LimitOrderBook.OrderPool
import LimitOrderBook.Lib.PriorityQueue

/-!
What the optimized book is for: two priority queues of resting orders, and a
stack of free slots from which the next order id is minted.
-/

set_option autoImplicit false

namespace LimitOrderBook
open Checked PriorityQueue

structure Resting where
  id : OrderId
  price : PriceTicks
  qty : Qty
  remaining : Qty
  side : Side
  deriving DecidableEq, Repr

def Resting.slot (r : Resting) : UInt32 := indexOf r.id

/-- Both events of one fill, at the resting order's price. -/
def tradedPair (takerSide : Side) (takerId : OrderId) (maker : Resting)
    (fill makerLeft takerLeft : Qty) : List Event :=
  [makeEvent .kTraded maker.side .kNone fill makerLeft maker.price maker.id,
   makeEvent .kTraded takerSide .kNone fill takerLeft maker.price takerId]

/-- The orders of a queue at one price, oldest first. -/
def priced (M : List Resting) (price : PriceTicks) : List Resting :=
  M.filter fun r => r.price = price

structure Sweep where
  remaining : Qty
  filled : List Resting
  rest : List Resting
  events : List Event
  deriving DecidableEq, Repr

/-- The greedy allocation of a taker's quantity over a queue. -/
def sweep (takerSide : Side) (limitPrice : PriceTicks) (takerId : OrderId) :
    Qty → List Resting → Sweep
  | remaining, [] => { remaining, filled := [], rest := [], events := [] }
  | remaining, m :: M =>
    if remaining = 0 ∨ ¬ crosses takerSide limitPrice m.price then
      { remaining, filled := [], rest := m :: M, events := [] }
    else
      let fill := min remaining m.remaining
      let pair := tradedPair takerSide takerId m fill (m.remaining - fill) (remaining - fill)
      if m.remaining - fill = 0 then
        let s := sweep takerSide limitPrice takerId (remaining - fill) M
        { s with filled := m :: s.filled, events := pair ++ s.events }
      else
        { remaining := remaining - fill, filled := []
          rest := { m with remaining := m.remaining - fill } :: M, events := pair }

section

variable {side : Side} {limit : PriceTicks} {id : OrderId} {remaining : Qty} {m : Resting}
  {M : List Resting}

theorem sweep_stop (h : remaining = 0 ∨ ¬ crosses side limit m.price) :
    sweep side limit id remaining (m :: M) =
      { remaining, filled := [], rest := m :: M, events := [] } := by
  rw [sweep, if_pos h]

theorem sweep_filled (h : ¬ (remaining = 0 ∨ ¬ crosses side limit m.price))
    (hleft : m.remaining - min remaining m.remaining = 0) :
    sweep side limit id remaining (m :: M) =
      { sweep side limit id (remaining - min remaining m.remaining) M with
        filled := m :: (sweep side limit id (remaining - min remaining m.remaining) M).filled
        events := tradedPair side id m (min remaining m.remaining)
            (m.remaining - min remaining m.remaining) (remaining - min remaining m.remaining) ++
          (sweep side limit id (remaining - min remaining m.remaining) M).events } := by
  rw [sweep, if_neg h]
  exact if_pos hleft

theorem sweep_left (h : ¬ (remaining = 0 ∨ ¬ crosses side limit m.price))
    (hleft : m.remaining - min remaining m.remaining ≠ 0) :
    sweep side limit id remaining (m :: M) =
      { remaining := remaining - min remaining m.remaining, filled := []
        rest := { m with remaining := m.remaining - min remaining m.remaining } :: M
        events := tradedPair side id m (min remaining m.remaining)
          (m.remaining - min remaining m.remaining) (remaining - min remaining m.remaining) } := by
  rw [sweep, if_neg h]
  exact if_neg hleft

theorem left_zero (hleft : m.remaining - min remaining m.remaining ≠ 0) :
    remaining - min remaining m.remaining = 0 := by
  have h := toNat_sub_min remaining m.remaining
  have hpos := toNat_pos.mpr hleft
  refine UInt32.toNat_inj.mp ?_
  rw [UInt32.toNat_zero]
  omega

/-- How a sweep goes: through an empty queue, or past a front that stays, is filled, or
keeps a remainder. -/
@[elab_as_elim]
theorem sweep_induction (side : Side) (limit : PriceTicks) {motive : Qty → List Resting → Prop}
    (nil : ∀ remaining, motive remaining [])
    (stop : ∀ remaining m M, (remaining = 0 ∨ ¬ crosses side limit m.price) →
      motive remaining (m :: M))
    (filled : ∀ remaining m M, ¬ (remaining = 0 ∨ ¬ crosses side limit m.price) →
      m.remaining - min remaining m.remaining = 0 →
      motive (remaining - min remaining m.remaining) M → motive remaining (m :: M))
    (left : ∀ remaining m M, ¬ (remaining = 0 ∨ ¬ crosses side limit m.price) →
      m.remaining - min remaining m.remaining ≠ 0 → motive remaining (m :: M))
    (remaining : Qty) (M : List Resting) : motive remaining M := by
  induction M generalizing remaining with
  | nil => exact nil remaining
  | cons m M ih =>
    by_cases hstop : remaining = 0 ∨ ¬ crosses side limit m.price
    · exact stop remaining m M hstop
    · by_cases hleft : m.remaining - min remaining m.remaining = 0
      · exact filled remaining m M hstop hleft (ih _)
      · exact left remaining m M hstop hleft

theorem sweep_ids (side : Side) (limit : PriceTicks) (id : OrderId) (M : List Resting) :
    ∀ remaining, ((sweep side limit id remaining M).filled ++
      (sweep side limit id remaining M).rest).map Resting.id = M.map Resting.id := by
  intro remaining
  induction remaining, M using sweep_induction side limit with
  | nil => rfl
  | stop remaining m M hstop =>
    rw [sweep_stop hstop]
    rfl
  | filled remaining m M hstop hleft ih =>
    rw [sweep_filled hstop hleft]
    simp only [List.cons_append, List.map_cons, ih]
  | left remaining m M hstop hleft =>
    rw [sweep_left hstop hleft]
    rfl

theorem sweep_traded (side : Side) (limit : PriceTicks) (id : OrderId) (M : List Resting) :
    ∀ remaining, ∀ e ∈ (sweep side limit id remaining M).events, e.kind = .kTraded := by
  have hpair : ∀ m fill left rest, ∀ e ∈ tradedPair side id m fill left rest,
      e.kind = .kTraded := by
    simp [tradedPair, makeEvent]
  intro remaining e he
  induction remaining, M using sweep_induction side limit with
  | nil => simp [sweep] at he
  | stop remaining m M hstop => simp [sweep_stop hstop] at he
  | filled remaining m M hstop hleft ih =>
    rw [sweep_filled hstop hleft] at he
    rcases List.mem_append.mp he with he | he
    · exact hpair _ _ _ _ e he
    · exact ih he
  | left remaining m M hstop hleft =>
    rw [sweep_left hstop hleft] at he
    exact hpair _ _ _ _ e he

end

def UniqueIds (R : List Resting) : Prop := (R.map Resting.id).Nodup

structure QueueBook where
  free : List UInt32
  generation : UInt32 → UInt32
  bids : List Resting
  asks : List Resting

namespace QueueBook

def new (capacity : UInt32) : QueueBook where
  free := OrderPool.indices capacity.toNat
  generation := fun _ => 0
  bids := []
  asks := []

def queue (b : QueueBook) (side : Side) : List Resting := if side = .kBuy then b.bids else b.asks

def setQueue (b : QueueBook) (side : Side) (M : List Resting) : QueueBook :=
  if side = .kBuy then { b with bids := M } else { b with asks := M }

def resting (b : QueueBook) : List Resting := b.bids ++ b.asks

def release (b : QueueBook) (slots : List UInt32) : QueueBook :=
  { b with free := slots.reverse ++ b.free }

def mint (b : QueueBook) : Option (OrderId × QueueBook) :=
  match b.free with
  | [] => none
  | i :: F =>
    let generation := OrderPool.bump (b.generation i)
    some (makeOrderId generation i,
      { b with free := F, generation := Function.update b.generation i generation })

def rest (b : QueueBook) (r : Resting) : QueueBook :=
  b.setQueue r.side (enqueue r.side.resolve.Better Resting.price r (b.queue r.side))

/-- The book after a sweep through the side opposite to the taker. -/
def settle (b : QueueBook) (takerSide : Side) (s : Sweep) : QueueBook :=
  (b.setQueue takerSide.opposite s.rest).release (s.filled.map Resting.slot)

/-- An admitted order trades, and its remainder rests or is canceled. -/
def execute (b : QueueBook) (id : OrderId) (side : Side) (type : OrderType) (price : PriceTicks)
    (qty : Qty) : QueueBook × List Event :=
  let orderPx := if type = .kMarket then 0 else price
  let accepted := makeEvent .kAccepted side .kNone qty qty orderPx id
  let s := sweep side (takerLimit side type price) id qty (b.queue side.opposite)
  let b := b.settle side s
  if s.remaining = 0 ∨ type ≠ .kLimit then
    let canceled :=
      if 0 < s.remaining then [makeEvent .kCanceled side .kNone s.remaining 0 orderPx id] else []
    (b.release [indexOf id], accepted :: s.events ++ canceled)
  else
    (b.rest { id, price, qty, remaining := s.remaining, side }, accepted :: s.events)

/-- Why `add` turns an order away before it asks the pool for a slot. -/
def refusal (type : OrderType) (price : PriceTicks) (qty : Qty) : Option RejectReason :=
  if qty = 0 then some .kInvalidQty
  else if type ≠ .kMarket ∧ price ≤ 0 then some .kInvalidPrice
  else none

def add (b : QueueBook) (side : Side) (type : OrderType) (price : PriceTicks) (qty : Qty) :
    OrderId × QueueBook × List Event :=
  let reject (reason : RejectReason) :=
    (kInvalidOrderId, b, [makeEvent .kRejected side reason qty 0 price kInvalidOrderId])
  match refusal type price qty with
  | some reason => reject reason
  | none =>
    match b.mint with
    | none => reject .kPoolExhausted
    | some (id, b) => (id, b.execute id side type price qty)

def addLimit (b : QueueBook) (side : Side) (price : PriceTicks) (qty : Qty) :
    OrderId × QueueBook :=
  if qty = 0 ∨ price ≤ 0 then (kInvalidOrderId, b)
  else
    match b.mint with
    | none => (kInvalidOrderId, b)
    | some (id, b) => (id, b.rest { id, price, qty, remaining := qty, side })

def find (b : QueueBook) (id : OrderId) : Option Resting := b.resting.find? fun r => r.id = id

def remove (b : QueueBook) (r : Resting) : QueueBook :=
  (b.setQueue r.side ((b.queue r.side).filter fun x => x.id ≠ r.id)).release [r.slot]

def cancel (b : QueueBook) (id : OrderId) : Bool × QueueBook × List Event :=
  match b.find id with
  | none => (false, b, [makeEvent .kRejected .kBuy .kUnknownOrder 0 0 0 id])
  | some r => (true, b.remove r, [makeEvent .kCanceled r.side .kNone r.remaining 0 r.price id])

/-- Both queues in priority order, every order on its own side under its own id. -/
structure WF (b : QueueBook) : Prop where
  sorted : ∀ s, Sorted s.resolve.Better Resting.price (b.queue s)
  side : ∀ s, ∀ r ∈ b.queue s, r.side.isBuy = s.isBuy
  ids : UniqueIds b.resting

/-- No bid reaches an ask. -/
def Uncrossed (b : QueueBook) : Prop := ∀ x ∈ b.bids, ∀ y ∈ b.asks, x.price < y.price

def atPrice (b : QueueBook) (side : Side) (price : PriceTicks) : List Resting :=
  priced (b.queue side) price

def qtyAt (b : QueueBook) (side : Side) (price : PriceTicks) : Nat :=
  ((b.atPrice side price).map fun r => r.remaining.toNat).sum

end QueueBook

namespace QueueBook

variable {b : QueueBook} {s t : Side} {M : List Resting} {r : Resting}

theorem queue_congr (h : s.isBuy = t.isBuy) : b.queue s = b.queue t := by
  unfold queue Side.isBuy at *
  by_cases hs : s = .kBuy <;> by_cases ht : t = .kBuy <;> simp_all

theorem queue_setQueue (t : Side) :
    (b.setQueue s M).queue t = if t.isBuy = s.isBuy then M else b.queue t := by
  unfold queue setQueue Side.isBuy
  by_cases hs : s = .kBuy <;> by_cases ht : t = .kBuy <;> simp [hs, ht]

@[simp] theorem setQueue_free : (b.setQueue s M).free = b.free := by
  unfold setQueue; split <;> rfl

@[simp] theorem setQueue_generation : (b.setQueue s M).generation = b.generation := by
  unfold setQueue; split <;> rfl

@[simp] theorem queue_release (L : List UInt32) : (b.release L).queue = b.queue := rfl

@[simp] theorem resting_release (L : List UInt32) : (b.release L).resting = b.resting := rfl

theorem mem_resting : r ∈ b.resting ↔ ∃ s, r ∈ b.queue s := by
  rw [resting, List.mem_append]
  constructor
  · rintro (h | h)
    · exact ⟨.kBuy, h⟩
    · exact ⟨.kSell, h⟩
  · rintro ⟨s, h⟩
    unfold queue at h
    split at h
    · exact .inl h
    · exact .inr h

theorem setQueue_self (h : s.isBuy = t.isBuy) : b.setQueue s (b.queue t) = b := by
  rw [← queue_congr h]
  unfold setQueue queue
  split <;> rfl

theorem eraseP_unique {R : List Resting} (hu : UniqueIds R) (id : OrderId) :
    R.eraseP (fun r => r.id = id) = R.filter fun r => r.id ≠ id := by
  induction R with
  | nil => rfl
  | cons r R ih =>
    obtain ⟨hr, hR⟩ := List.nodup_cons.mp hu
    by_cases he : r.id = id
    · have hkeep : R.filter (fun x => x.id ≠ id) = R := by
        refine List.filter_eq_self.mpr (fun x hx => ?_)
        have : x.id ≠ id := fun e => hr (List.mem_map.mpr ⟨x, hx, e.trans he.symm⟩)
        simpa using this
      rw [List.eraseP_cons_of_pos (by simpa using he), List.filter_cons_of_neg (by simpa using he),
        hkeep]
    · rw [List.eraseP_cons_of_neg (by simpa using he), List.filter_cons_of_pos (by simpa using he),
        ih hR]

theorem find?_unique {R : List Resting} (hu : UniqueIds R) {r : Resting} (hr : r ∈ R) :
    R.find? (fun x => x.id = r.id) = some r := by
  induction R with
  | nil => cases hr
  | cons x R ih =>
    obtain ⟨hx, hR⟩ := List.nodup_cons.mp hu
    rcases List.mem_cons.mp hr with rfl | hr
    · simp
    · have hne : x.id ≠ r.id := fun e => hx (List.mem_map.mpr ⟨r, hr, e.symm⟩)
      rw [List.find?_cons_of_neg (by simpa using hne), ih hR hr]

theorem find_iff (wf : b.WF) {id : OrderId} {r : Resting} :
    b.find id = some r ↔ r ∈ b.resting ∧ r.id = id := by
  constructor
  · intro hf
    exact ⟨List.mem_of_find?_eq_some hf, by simpa using List.find?_some hf⟩
  · rintro ⟨hr, rfl⟩
    exact find?_unique wf.ids hr

theorem resting_remove (wf : b.WF) {r : Resting} (hr : r ∈ b.resting) :
    b.resting.Perm (r :: (b.remove r).resting) := by
  have hcount : ∀ Q : List Resting, UniqueIds Q → r ∈ Q →
      Q.Perm (r :: Q.filter fun x => x.id ≠ r.id) := by
    intro Q hu hq
    rw [← eraseP_unique hu]
    obtain ⟨A, B, rfl⟩ := List.append_of_mem hq
    have hA : ∀ x ∈ A, x.id ≠ r.id := by
      intro x hx he
      rw [UniqueIds, List.map_append, List.map_cons] at hu
      have hd := List.nodup_append.mp hu
      exact hd.2.2 x.id (List.mem_map_of_mem hx) r.id (by simp) he
    rw [List.eraseP_append_right _ (by simpa using hA), List.eraseP_cons_of_pos (by simp)]
    exact List.perm_middle
  obtain ⟨t, ht⟩ := mem_resting.mp hr
  have hrq : r ∈ b.queue r.side := by rwa [queue_congr (wf.side t r ht)]
  have hub : UniqueIds b.bids := wf.ids.sublist ((List.sublist_append_left _ _).map _)
  have hua : UniqueIds b.asks := wf.ids.sublist ((List.sublist_append_right _ _).map _)
  rw [remove, resting_release]
  unfold queue setQueue at *
  by_cases hs : r.side = .kBuy
  · simp only [if_pos hs] at hrq ⊢
    exact (hcount b.bids hub hrq).append_right b.asks
  · simp only [if_neg hs] at hrq ⊢
    exact ((hcount b.asks hua hrq).append_left b.bids).trans List.perm_middle

theorem refusal_none_iff {type : OrderType} {price : PriceTicks} {qty : Qty} :
    refusal type price qty = none ↔ qty ≠ 0 ∧ (type = .kMarket ∨ 0 < price) := by
  unfold refusal
  by_cases hq : qty = 0
  · simp [hq]
  · by_cases ht : type = .kMarket
    · simp [hq, ht]
    · by_cases hp : 0 < price
      · have hp' : ¬ price ≤ 0 := by
          rw [not_le_toInt]
          exact Int64.lt_iff_toInt_lt.mp hp
        simp [hq, ht, hp, hp']
      · have hp' : price ≤ 0 := by
          rw [Int64.le_iff_toInt_le]
          exact not_lt_toInt.mp hp
        simp [hq, ht, hp, hp']

theorem refusal_invalid {type : OrderType} {price : PriceTicks} {qty : Qty} {reason : RejectReason}
    (h : refusal type price qty = some reason) :
    reason = .kInvalidQty ∨ reason = .kInvalidPrice := by
  unfold refusal at h
  split at h
  · exact .inl (Option.some.inj h).symm
  · split at h
    · exact .inr (Option.some.inj h).symm
    · cases h

end QueueBook

end LimitOrderBook
