import LimitOrderBook.MatchingEngine
import LimitOrderBook.BookInvariants

set_option autoImplicit false

namespace LimitOrderBook
open Checked PriorityQueue

abbrev OpenOrders := OrderId → Option (Side × Qty)

namespace OpenOrders

/-- One event; `none` when the map contradicts it. -/
def apply (m : OpenOrders) (e : Event) : Option OpenOrders :=
  match e.kind with
  | .kAccepted =>
    if m e.orderId = none then some (Function.update m e.orderId (some (e.side, e.qty)))
    else none
  | .kTraded =>
    match m e.orderId with
    | none => none
    | some (side, remaining) =>
      if side = e.side ∧ 1 ≤ e.qty.toNat ∧ remaining.toNat = e.qty.toNat + e.remaining.toNat then
        some (Function.update m e.orderId
          (if e.remaining = 0 then none else some (side, e.remaining)))
      else none
  | .kCanceled =>
    if m e.orderId = some (e.side, e.qty) then some (Function.update m e.orderId none) else none
  | .kRejected => some m

def fold (m : OpenOrders) (events : List Event) : Option OpenOrders := events.foldlM apply m

/-- The map holds exactly the orders of `R`. -/
structure Holds (m : OpenOrders) (R : List Resting) : Prop where
  mem : ∀ r ∈ R, m r.id = some (r.side, r.remaining)
  only : ∀ id, (∀ r ∈ R, r.id ≠ id) → m id = none

variable {m : OpenOrders} {R S : List Resting} {r : Resting}

theorem holds_nil : Holds (fun _ => none) [] := ⟨by simp, fun _ _ => rfl⟩

theorem Holds.perm (h : Holds m R) (hp : R.Perm S) : Holds m S :=
  ⟨fun r hr => h.mem r (hp.mem_iff.mpr hr), fun id hid =>
    h.only id fun r hr => hid r (hp.mem_iff.mp hr)⟩

theorem Holds.insert (h : Holds m R) (hr : ∀ x ∈ R, x.id ≠ r.id) :
    Holds (Function.update m r.id (some (r.side, r.remaining))) (r :: R) := by
  refine ⟨fun x hx => ?_, fun id hid => ?_⟩
  · rcases List.mem_cons.mp hx with rfl | hx
    · exact Function.update_self ..
    · rw [Function.update_of_ne (hr x hx)]
      exact h.mem x hx
  · rw [Function.update_of_ne (hid r (by simp)).symm]
    exact h.only id fun x hx => hid x (by simp [hx])

theorem Holds.erase (h : Holds m (r :: R)) (hr : ∀ x ∈ R, x.id ≠ r.id) :
    Holds (Function.update m r.id none) R := by
  refine ⟨fun x hx => ?_, fun id hid => ?_⟩
  · rw [Function.update_of_ne (hr x hx)]
    exact h.mem x (by simp [hx])
  · by_cases he : id = r.id
    · rw [he]
      exact Function.update_self ..
    · rw [Function.update_of_ne he]
      refine h.only id fun x hx => ?_
      rcases List.mem_cons.mp hx with rfl | hx
      · exact Ne.symm he
      · exact hid x hx

def open? (r : Resting) : List Resting := if r.remaining = 0 then [] else [r]

theorem Holds.apply_accepted (h : Holds m R) (hr : ∀ x ∈ R, x.id ≠ r.id) (px : PriceTicks) :
    ∃ m', m.apply (makeEvent .kAccepted r.side .kNone r.remaining r.remaining px r.id) = some m' ∧
      Holds m' (r :: R) :=
  ⟨_, if_pos (h.only r.id hr), h.insert hr⟩

theorem Holds.apply_traded (h : Holds m (r :: R)) (hr : ∀ x ∈ R, x.id ≠ r.id) (fill left : Qty)
    (hpos : 1 ≤ fill.toNat) (hleft : r.remaining.toNat = fill.toNat + left.toNat)
    (px : PriceTicks) :
    ∃ m', m.apply (makeEvent .kTraded r.side .kNone fill left px r.id) = some m' ∧
      Holds m' (open? { r with remaining := left } ++ R) := by
  have hm := h.mem r (by simp)
  refine ⟨Function.update m r.id (if left = 0 then none else some (r.side, left)),
    by simp only [apply, makeEvent, hm, true_and]; exact if_pos ⟨hpos, hleft⟩, ?_⟩
  unfold open?
  by_cases hz : left = 0
  · rw [if_pos hz, if_pos hz]
    exact h.erase hr
  · rw [if_neg hz, if_neg hz]
    have hins := (h.erase hr).insert (r := { r with remaining := left }) hr
    rwa [Function.update_idem] at hins

theorem Holds.apply_canceled (h : Holds m (r :: R)) (hr : ∀ x ∈ R, x.id ≠ r.id) (px : PriceTicks) :
    ∃ m', m.apply (makeEvent .kCanceled r.side .kNone r.remaining 0 px r.id) = some m' ∧
      Holds m' R :=
  ⟨_, if_pos (h.mem r (by simp)), h.erase hr⟩

theorem fold_append (m : OpenOrders) (es fs : List Event) :
    m.fold (es ++ fs) = (m.fold es).bind fun m' => m'.fold fs := by
  simp [fold, List.foldlM_append]

theorem fold_cons (m : OpenOrders) (e : Event) (es : List Event) :
    m.fold (e :: es) = (m.apply e).bind fun m' => m'.fold es := by
  simp [fold]

/-- The fold follows a sweep fill by fill: the maker, then the taker `t`. -/
theorem fold_sweep (limit : PriceTicks) (t : Resting) (O M : List Resting) :
    ∀ {m : OpenOrders} (remaining : Qty),
    Holds m (open? { t with remaining } ++ (M ++ O)) → UniqueIds (M ++ O) →
    (∀ x ∈ M ++ O, x.id ≠ t.id) → (∀ r ∈ M, 1 ≤ r.remaining.toNat) →
    ∃ m', m.fold (sweep t.side limit t.id remaining M).events = some m' ∧
      Holds m' (open? { t with remaining := (sweep t.side limit t.id remaining M).remaining } ++
        ((sweep t.side limit t.id remaining M).rest ++ O)) := by
  induction M with
  | nil => exact fun _ h _ _ _ => ⟨_, rfl, h⟩
  | cons x M ih =>
    intro m remaining h hu hid hpos
    by_cases hstop : remaining = 0 ∨ ¬ crosses t.side limit x.price
    · rw [sweep_stop hstop]
      exact ⟨m, rfl, h⟩
    · obtain ⟨hr, _⟩ := not_or.mp hstop
      have hr' : remaining.toNat ≠ 0 := fun e => hr (UInt32.toNat_inj.mp e)
      have hx := hpos x (by simp)
      have hmin := toNat_min remaining x.remaining
      have hsub := toNat_sub_min remaining x.remaining
      obtain ⟨hxnot, hMO⟩ := List.nodup_cons.mp hu
      have hxid : ∀ y ∈ M ++ O, y.id ≠ x.id := fun y hy he =>
        hxnot (List.mem_map.mpr ⟨y, hy, he⟩)
      have htx : t.id ≠ x.id := (hid x (by simp)).symm
      rw [open?, if_neg hr] at h
      -- the maker's event
      obtain ⟨m₁, hrun₁, h₁⟩ := (h.perm (List.Perm.swap ..)).apply_traded
        (fun y hy => by
          rcases List.mem_cons.mp hy with rfl | hy
          · exact htx
          · exact hxid y hy)
        (min remaining x.remaining) (x.remaining - min remaining x.remaining)
        (by omega) (by omega) x.price
      -- the taker's event
      obtain ⟨m₂, hrun₂, h₂⟩ := (h₁.perm List.perm_middle).apply_traded
        (fun y hy => by
          rcases List.mem_append.mp hy with hy | hy
          · have hyx : y.id = x.id := by
              unfold open? at hy
              split at hy
              · cases hy
              · rw [List.mem_singleton.mp hy]
            rw [hyx]
            exact htx.symm
          · exact hid y (List.mem_cons_of_mem x hy))
        (min remaining x.remaining) (remaining - min remaining x.remaining)
        (by omega) (by simp only; omega) x.price
      have hpair : m.fold (tradedPair t.side t.id x (min remaining x.remaining)
          (x.remaining - min remaining x.remaining) (remaining - min remaining x.remaining)) =
          some m₂ := by
        rw [tradedPair, fold_cons, hrun₁, Option.bind_some, fold_cons, hrun₂]
        rfl
      by_cases hleft : x.remaining - min remaining x.remaining = 0
      · have hgone : open? { x with remaining := x.remaining - min remaining x.remaining } = [] :=
          if_pos hleft
        rw [hgone, List.nil_append] at h₂
        obtain ⟨m', hrun', h'⟩ := ih _ h₂ hMO (fun y hy => hid y (List.mem_cons_of_mem x hy))
          fun y hy => hpos y (by simp [hy])
        rw [sweep_filled hstop hleft]
        exact ⟨m', by rw [fold_append, hpair, Option.bind_some, hrun'], h'⟩
      · have hkept : open? { x with remaining := x.remaining - min remaining x.remaining } =
            [{ x with remaining := x.remaining - min remaining x.remaining }] := if_neg hleft
        rw [hkept] at h₂
        rw [sweep_left hstop hleft]
        exact ⟨m₂, hpair, h₂⟩

end OpenOrders

namespace QueueBook

variable {b : QueueBook} {r : Resting}

theorem resting_sides (b : QueueBook) (s : Side) :
    b.resting.Perm (b.queue s.opposite ++ b.queue s) := by
  unfold resting queue Side.opposite
  by_cases hs : s = .kBuy
  · rw [if_pos hs, if_pos hs, if_neg (by decide)]
    exact List.perm_append_comm
  · rw [if_neg hs, if_neg hs, if_pos rfl]

theorem rest_resting (b : QueueBook) (r : Resting) : (b.rest r).resting.Perm (r :: b.resting) := by
  have hopp : r.side.opposite.isBuy ≠ r.side.isBuy := (isBuy_ne_opposite rfl).symm
  refine ((b.rest r).resting_sides r.side).trans ?_
  rw [rest_queue, if_neg hopp, rest_queue, if_pos rfl]
  refine ((enqueue_perm r _).append_left _).trans (List.perm_middle.trans ?_)
  exact ((b.resting_sides r.side).symm.cons r)

end QueueBook

namespace OpenOrders

variable {m : OpenOrders} {b b' : QueueBook} {id : OrderId} {side : Side} {type : OrderType}
  {price : PriceTicks} {qty : Qty}

theorem fold_execute (h : Holds m b.resting) (hu : UniqueIds b.resting)
    (hid : ∀ x ∈ b.resting, x.id ≠ id) (hpos : ∀ r ∈ b.resting, 1 ≤ r.remaining.toNat)
    (hqty : qty ≠ 0) :
    ∃ m', m.fold (b.execute id side type price qty).2 = some m' ∧
      Holds m' (b.execute id side type price qty).1.resting := by
  have hsides := b.resting_sides side
  obtain ⟨m₁, hrun₁, h₁⟩ := h.apply_accepted (r := { id, price, qty, remaining := qty, side }) hid
    (if type = .kMarket then 0 else price)
  have hopen : open? { id, price, qty, remaining := qty, side } =
      [{ id, price, qty, remaining := qty, side }] := if_neg hqty
  obtain ⟨m₂, hrun₂, h₂⟩ := fold_sweep (takerLimit side type price)
    { id, price, qty, remaining := qty, side } (b.queue side) (b.queue side.opposite)
    qty (by rw [hopen]; exact h₁.perm (hsides.cons _))
    ((hsides.map _).nodup_iff.mp hu) (fun x hx => hid x (hsides.mem_iff.mpr hx))
    (fun r hr => hpos r (hsides.mem_iff.mpr (List.mem_append_left _ hr)))
  have hrest := (b.settle side
    (sweep side (takerLimit side type price) id qty (b.queue side.opposite))).resting_sides side
  rw [QueueBook.settle_queue_opposite rfl, QueueBook.settle_queue_own
    (QueueBook.isBuy_ne_opposite rfl)] at hrest
  have hold : ∀ x ∈ (b.settle side (sweep side (takerLimit side type price) id qty
      (b.queue side.opposite))).resting, ∃ r ∈ b.resting, x.Reduces r := fun x hx => by
    obtain ⟨s, hs⟩ := QueueBook.mem_resting.mp hx
    obtain ⟨r, hr, hred⟩ := (QueueBook.settle_shrinks s _).mem hs
    exact ⟨r, QueueBook.mem_resting.mpr ⟨s, hr⟩, hred⟩
  have hnew : (sweep side (takerLimit side type price) id qty
      (b.queue side.opposite)).remaining ≠ 0 →
      Holds m₂ ({ id, price, qty, side, remaining := (sweep side (takerLimit side type price) id qty
        (b.queue side.opposite)).remaining } :: (b.settle side (sweep side
          (takerLimit side type price) id qty (b.queue side.opposite))).resting) := by
    intro hne
    have hkept := h₂
    rw [open?, if_neg hne] at hkept
    exact hkept.perm (hrest.symm.cons _)
  simp only at hrun₁ hrun₂ h₂
  simp only [QueueBook.execute]
  generalize sweep side (takerLimit side type price) id qty (b.queue side.opposite) = s at *
  by_cases hstop : s.remaining = 0 ∨ type ≠ .kLimit
  · rw [if_pos hstop]
    simp only [List.cons_append, fold_cons, hrun₁, Option.bind_some, fold_append, hrun₂]
    by_cases hz : s.remaining = 0
    · have hdone : open? { id, price, qty, remaining := s.remaining, side } = [] := if_pos hz
      have hnot : ¬ 0 < s.remaining := by
        rw [hz]
        decide
      rw [if_neg hnot]
      rw [hdone] at h₂
      exact ⟨m₂, rfl, h₂.perm hrest.symm⟩
    · have hpos' : 0 < s.remaining := UInt32.pos_iff_ne_zero.mpr hz
      rw [if_pos hpos']
      obtain ⟨m₃, hrun₃, h₃⟩ := (hnew hz).apply_canceled (fun x hx => by
        obtain ⟨r, hr, hred⟩ := hold x hx
        rw [hred.id]
        exact hid r hr) (if type = .kMarket then 0 else price)
      exact ⟨m₃, by rw [fold_cons, hrun₃]; rfl, h₃⟩
  · rw [if_neg hstop]
    simp only [fold_cons, hrun₁, Option.bind_some]
    exact ⟨m₂, hrun₂, (hnew (not_or.mp hstop).1).perm (QueueBook.rest_resting _ _).symm⟩

theorem fold_step {cfg : EngineConfig} {book : OrderBook} (hrep : BookRep cfg book b [])
    (h : Holds m b.resting) {op : BookOp} (hop : op.Matched) :
    ∃ m', m.fold (b.step op).2.events = some m' ∧ Holds m' (b.step op).1.resting := by
  cases op with
  | add side type price qty =>
    simp only [QueueBook.step, QueueBook.add]
    cases hf : QueueBook.refusal type price qty with
    | some reason => exact ⟨m, rfl, h⟩
    | none =>
      cases hm : b.mint with
      | none => exact ⟨m, rfl, h⟩
      | some x =>
        obtain ⟨_, hwf, hbids, hasks, hnew⟩ := mint_some hrep hm
        have hresting : x.2.resting = b.resting := by
          rw [QueueBook.resting, hbids, hasks]
          rfl
        refine fold_execute (hresting ▸ h) hwf.ids hnew (fun r hr => ?_)
          (QueueBook.refusal_none_iff.mp hf).1
        obtain ⟨s, hs⟩ := QueueBook.mem_resting.mp (hresting ▸ hr)
        exact hrep.remaining_pos hs
  | addLimit side price qty => exact hop.elim
  | cancel id =>
    simp only [QueueBook.step, QueueBook.cancel]
    cases hf : b.find id with
    | none => exact ⟨m, rfl, h⟩
    | some r =>
      obtain ⟨hr, rfl⟩ := (QueueBook.find_iff hrep.wf).mp hf
      have hperm := QueueBook.resting_remove hrep.wf hr
      have hids := List.nodup_cons.mp ((hperm.map Resting.id).nodup_iff.mp hrep.wf.ids)
      obtain ⟨m', hrun, h'⟩ := (h.perm hperm).apply_canceled
        (fun x hx he => hids.1 (List.mem_map.mpr ⟨x, hx, he⟩)) r.price
      exact ⟨m', by rw [Reply.events, fold_cons, hrun]; rfl, h'⟩

theorem fold_run {cfg : EngineConfig} (ops : List BookOp) : ∀ {book : OrderBook} {b : QueueBook}
    {m : OpenOrders}, BookRep cfg book b [] → Holds m b.resting → (∀ op ∈ ops, op.Matched) →
    ∃ m', m.fold ((b.run ops).2.map Reply.events).flatten = some m' ∧
      Holds m' (b.run ops).1.resting := by
  induction ops with
  | nil => exact fun _ h _ => ⟨_, rfl, h⟩
  | cons op ops ih =>
    intro book b m hrep h hops
    obtain ⟨m₁, hrun₁, h₁⟩ := fold_step hrep h (hops op (by simp))
    obtain ⟨book₁, _, hrep₁⟩ := hrep.step_rep op
    obtain ⟨m', hrun', h'⟩ := ih hrep₁ h₁ fun o ho => hops o (by simp [ho])
    exact ⟨m', by simp [QueueBook.run, fold_append, hrun₁, hrun'], h'⟩

theorem Holds.eq_find {cfg : EngineConfig} {book : OrderBook} (h : Holds m b.resting)
    (hrep : BookRep cfg book b []) (id : OrderId) :
    m id = (book.pool.find id).map fun o => (o.side, o.remaining) := by
  rw [hrep.find_open]
  cases hf : b.find id with
  | none =>
    refine h.only id fun r hr he => ?_
    rw [(QueueBook.find_iff hrep.wf).mpr ⟨hr, he⟩] at hf
    cases hf
  | some r =>
    obtain ⟨hr, rfl⟩ := (QueueBook.find_iff hrep.wf).mp hf
    exact h.mem r hr

end OpenOrders

/-! What one new order reports. -/

structure Fill where
  makerId : OrderId
  price : PriceTicks
  qty : Qty
  makerLeft : Qty
  takerLeft : Qty
  deriving DecidableEq, Repr

/-- The maker's event, then the taker's. -/
def Fill.events (side : Side) (takerId : OrderId) (f : Fill) : List Event :=
  [makeEvent .kTraded side.opposite .kNone f.qty f.makerLeft f.price f.makerId,
   makeEvent .kTraded side .kNone f.qty f.takerLeft f.price takerId]

/-- One reject that leaves the book as it is, or an acceptance, the fills, and the
end of what is left of a market or IOC order. -/
inductive NewOrderReport (cmd : Command) (before after : OrderBook) : List Event → Prop where
  | rejected (reason : RejectReason) (unchanged : after = before) :
    NewOrderReport cmd before after
      [makeEvent .kRejected cmd.side reason cmd.qty 0 cmd.priceTicks kInvalidOrderId]
  | accepted (id : OrderId) (fills : List Fill) (left : Qty) (valid : id ≠ kInvalidOrderId)
    (positive : ∀ f ∈ fills, 1 ≤ f.qty.toNat)
    (conserved : (fills.map fun f => f.qty.toNat).sum + left.toNat = cmd.qty.toNat)
    (rests : (after.pool.find id).map (fun o => (o.side, o.remaining)) =
      if left ≠ 0 ∧ cmd.type = .kLimit then some (cmd.side, left) else none) :
    NewOrderReport cmd before after
      (makeEvent .kAccepted cmd.side .kNone cmd.qty cmd.qty
          (if cmd.type = .kMarket then 0 else cmd.priceTicks) id ::
        fills.flatMap (Fill.events cmd.side id) ++
        if left ≠ 0 ∧ cmd.type ≠ .kLimit then
          [makeEvent .kCanceled cmd.side .kNone left 0
            (if cmd.type = .kMarket then 0 else cmd.priceTicks) id]
        else [])

theorem sweep_fills {side : Side} (limit : PriceTicks) (id : OrderId) (M : List Resting) :
    ∀ (remaining : Qty), (∀ r ∈ M, r.side = side.opposite ∧ 1 ≤ r.remaining.toNat) →
    ∃ fills : List Fill, (sweep side limit id remaining M).events =
        fills.flatMap (Fill.events side id) ∧ (∀ f ∈ fills, 1 ≤ f.qty.toNat) ∧
      (fills.map fun f => f.qty.toNat).sum + (sweep side limit id remaining M).remaining.toNat =
        remaining.toNat := by
  induction M with
  | nil => exact fun _ _ => ⟨[], rfl, by simp, by simp [sweep]⟩
  | cons m M ih =>
    intro remaining hM
    obtain ⟨hside, hpos⟩ := hM m (by simp)
    by_cases hstop : remaining = 0 ∨ ¬ crosses side limit m.price
    · rw [sweep_stop hstop]
      exact ⟨[], rfl, by simp, by simp⟩
    · have hr : remaining.toNat ≠ 0 := fun e => (not_or.mp hstop).1 (UInt32.toNat_inj.mp e)
      have hmin := toNat_min remaining m.remaining
      have hsub := toNat_sub_min remaining m.remaining
      have hpair : tradedPair side id m (min remaining m.remaining)
          (m.remaining - min remaining m.remaining) (remaining - min remaining m.remaining) =
          Fill.events side id ⟨m.id, m.price, min remaining m.remaining,
            m.remaining - min remaining m.remaining, remaining - min remaining m.remaining⟩ := by
        rw [tradedPair, hside]
        rfl
      by_cases hleft : m.remaining - min remaining m.remaining = 0
      · obtain ⟨fills, hev, hall, hsum⟩ := ih (remaining - min remaining m.remaining)
          fun r hr => hM r (by simp [hr])
        rw [sweep_filled hstop hleft, hpair, hev]
        refine ⟨_ :: fills, rfl, fun f hf => ?_, ?_⟩
        · rcases List.mem_cons.mp hf with rfl | hf
          · simp only
            omega
          · exact hall f hf
        · simp only [List.map_cons, List.sum_cons]
          omega
      · rw [sweep_left hstop hleft, hpair]
        refine ⟨[_], (List.flatMap_singleton _ _).symm, fun f hf => ?_, ?_⟩
        · rw [List.mem_singleton.mp hf]
          simp only
          omega
        · simp only [List.map_cons, List.map_nil, List.sum_cons, List.sum_nil]
          omega

namespace BookRep

variable {cfg : EngineConfig} {book book' : OrderBook} {b b₁ : QueueBook}

theorem opposite_side (h : BookRep cfg book b []) (hd : b.SidesDeclared) (side : Side) :
    ∀ r ∈ b.queue side.opposite, r.side = side.opposite ∧ 1 ≤ r.remaining.toNat := by
  intro r hr
  refine ⟨?_, h.remaining_pos hr⟩
  have hres := Side.resolve_congr (h.side_eq hr)
  rw [Side.resolve_of_declared (hd r (QueueBook.mem_resting.mpr ⟨_, hr⟩)),
    Side.resolve_of_declared side.opposite_declared] at hres
  exact hres

theorem report_accepted (h : BookRep cfg book b []) (hd : b.SidesDeclared) {cmd : Command}
    {id : OrderId} (hm : b.mint = some (id, b₁))
    (hrep' : BookRep cfg book' (b₁.execute id cmd.side cmd.type cmd.priceTicks cmd.qty).1 [])
    (before : OrderBook) :
    NewOrderReport cmd before book'
      (b₁.execute id cmd.side cmd.type cmd.priceTicks cmd.qty).2 := by
  obtain ⟨hne, _, hbids, hasks, hnew⟩ := mint_some h hm
  have hopp := h.opposite_side hd cmd.side
  rw [← QueueBook.mint_queue hm] at hopp
  obtain ⟨fills, hev, hpos, hsum⟩ := sweep_fills (takerLimit cmd.side cmd.type cmd.priceTicks) id
    (b₁.queue cmd.side.opposite) cmd.qty hopp
  have hold : ∀ r ∈ (b₁.settle cmd.side (sweep cmd.side (takerLimit cmd.side cmd.type
      cmd.priceTicks) id cmd.qty (b₁.queue cmd.side.opposite))).resting, r.id ≠ id := by
    intro r hr
    obtain ⟨s, hs⟩ := QueueBook.mem_resting.mp hr
    obtain ⟨r₀, hr₀, hred⟩ := (QueueBook.settle_shrinks s _).mem hs
    rw [hred.id]
    exact hnew r₀ (QueueBook.mem_resting.mpr ⟨s, hr₀⟩)
  have hfind := hrep'.find_open id
  have hwf := hrep'.wf
  simp only [QueueBook.execute] at hfind hwf ⊢
  generalize sweep cmd.side (takerLimit cmd.side cmd.type cmd.priceTicks) id cmd.qty
    (b₁.queue cmd.side.opposite) = s at *
  by_cases hstop : s.remaining = 0 ∨ cmd.type ≠ .kLimit
  · rw [if_pos hstop] at hfind hwf ⊢
    have hrests : ¬ (s.remaining ≠ 0 ∧ cmd.type = .kLimit) := by tauto
    have htail : 0 < s.remaining ↔ s.remaining ≠ 0 ∧ cmd.type ≠ .kLimit := by
      rw [UInt32.lt_iff_toNat_lt, UInt32.toNat_zero, Nat.pos_iff_ne_zero, ne_eq, ne_eq,
        ← UInt32.toNat_zero, UInt32.toNat_inj]
      tauto
    have hnone : ((b₁.settle cmd.side s).release [indexOf id]).find id = none := by
      refine List.find?_eq_none.mpr fun r hr he => ?_
      exact hold r hr (of_decide_eq_true he)
    simp only [hev, htail]
    refine .accepted id fills s.remaining hne hpos hsum ?_
    rw [hfind, hnone, if_neg hrests]
    rfl
  · rw [if_neg hstop] at hfind hwf ⊢
    obtain ⟨hz, ht⟩ := not_or.mp hstop
    have hkept := (@QueueBook.find_iff _ hwf id _).mpr ⟨(QueueBook.rest_resting _ _).mem_iff.mpr
      List.mem_cons_self, rfl⟩
    have hno : ¬ (s.remaining ≠ 0 ∧ cmd.type ≠ .kLimit) := fun h => ht h.2
    have hreport := @NewOrderReport.accepted cmd before book' id
      fills s.remaining hne hpos hsum (by
        rw [hfind, hkept, if_pos ⟨hz, not_not.mp ht⟩]
        rfl)
    rw [if_neg hno, List.append_nil] at hreport
    simp only [hev]
    exact hreport

theorem report (h : BookRep cfg book b []) (hd : b.SidesDeclared) (hu : b.Uncrossed)
    (ndebug : Bool) (cmd : Command) :
    ∃ id book' events, book.add ndebug cmd.side cmd.type cmd.priceTicks cmd.qty =
        .ok (id, book', events) ∧ NewOrderReport cmd book book' events := by
  obtain ⟨book', hrun, hrep', hsame⟩ := h.add_rep cmd.side cmd.type cmd.priceTicks cmd.qty
  obtain ⟨ok, hok, hiff⟩ := hrep'.uncrossed_rep
  have hstep : (b.step (.add cmd.side cmd.type cmd.priceTicks cmd.qty)).1.Uncrossed :=
    h.step_uncrossed hu trivial
  rw [hiff.mpr hstep] at hok
  refine ⟨_, book', _, add_debug ndebug hrun hok, ?_⟩
  unfold QueueBook.add at hrep' hsame ⊢
  cases hf : QueueBook.refusal cmd.type cmd.priceTicks cmd.qty with
  | some reason =>
    rw [hf] at hsame
    exact .rejected reason (hsame rfl)
  | none =>
    rw [hf] at hsame hrep'
    cases hm : b.mint with
    | none =>
      rw [hm] at hsame
      exact .rejected .kPoolExhausted (hsame rfl)
    | some x =>
      rw [hm] at hrep'
      exact h.report_accepted hd hm hrep' book

end BookRep

/-- Folding the events of any run of commands never contradicts the map, and after
each command the map is exactly the open orders of the book; and each new order
reports one reject of an untouched book, or its acceptance, fills and end. -/
theorem event_stream_complete (cfg : EngineConfig)
    (hhigh : cfg.anchorPrice.toInt + cfg.bandRadius.toNat + 1 ≤ 2 ^ 63 - 1)
    {engine : MatchingEngine} (hnew : MatchingEngine.new cfg = .ok engine) (ndebug : Bool)
    (cmds : List Command) (hd : ∀ cmd ∈ cmds, cmd.Declared) :
    ∃ engine' batches, engine.processAll ndebug cmds = .ok (engine', batches) ∧
      (∃ m, OpenOrders.fold (fun _ => none) batches.flatten = some m ∧
        ∀ id, m id = (engine'.book.pool.find id).map fun o => (o.side, o.remaining)) ∧
      ∀ cmd, cmd.Declared → cmd.kind = .kNew → ∃ engine'' events,
        engine'.process ndebug cmd = .ok (engine'', events) ∧
        NewOrderReport cmd engine'.book engine''.book events := by
  obtain ⟨book, hbook, he⟩ := bind_eq_ok.mp hnew
  cases he
  have hc : cfg.Valid := .of_new hbook hhigh
  obtain ⟨book₀, hbook₀, hrep⟩ := BookRep.new_rep hc
  rw [hbook] at hbook₀
  cases hbook₀
  have hops : ∀ op ∈ cmds.map Command.op, op.SideDeclared := fun op hop => by
    obtain ⟨cmd, hcmd, rfl⟩ := List.mem_map.mp hop
    exact (hd cmd hcmd).op
  have hmatched : ∀ op ∈ cmds.map Command.op, op.Matched := fun op hop => by
    obtain ⟨cmd, _, rfl⟩ := List.mem_map.mp hop
    exact cmd.op_matched
  obtain ⟨engine', hrun, hrep', hu⟩ := MatchingEngine.processAll_rep ndebug cmds
    (e := { book }) hrep QueueBook.new_uncrossed fun cmd hcmd => (hd cmd hcmd).1
  have hsides := QueueBook.sidesDeclared_run _ (QueueBook.new_sidesDeclared cfg.poolCapacity)
    fun op hop _ => (hops op hop).submits
  obtain ⟨m, hfold, hm⟩ := OpenOrders.fold_run _ hrep OpenOrders.holds_nil hmatched
  refine ⟨engine', _, hrun, ⟨m, hfold, hm.eq_find hrep'⟩, fun cmd hcmd hk => ?_⟩
  obtain ⟨id, book', events, hadd, hreport⟩ := hrep'.report hsides hu ndebug cmd
  exact ⟨_, events, by rw [MatchingEngine.process, if_pos hk, MatchingEngine.submit, hadd]; rfl,
    hreport⟩

/-- Two sells, a buy that fills one of them and half of the other, and a cancel of the rest. -/
theorem event_stream_complete_small : ∃ engine engine' batches m,
    MatchingEngine.new { anchorPrice := 100, bandRadius := 1, poolCapacity := 3 } = .ok engine ∧
    engine.processAll false
      [⟨.kNew, .kSell, .kLimit, 0, 3, 101, 0⟩, ⟨.kNew, .kSell, .kLimit, 0, 4, 102, 0⟩,
       ⟨.kNew, .kBuy, .kMarket, 0, 5, 0, 0⟩, ⟨.kCancel, .kBuy, .kLimit, 0, 0, 0, 4294967297⟩] =
        .ok (engine', batches) ∧
    batches.map (List.map fun e => (e.kind, e.orderId, e.qty)) =
      [[(.kAccepted, 4294967296, 3)], [(.kAccepted, 4294967297, 4)],
       [(.kAccepted, 4294967298, 5), (.kTraded, 4294967296, 3), (.kTraded, 4294967298, 3),
        (.kTraded, 4294967297, 2), (.kTraded, 4294967298, 2)], [(.kCanceled, 4294967297, 2)]] ∧
    OpenOrders.fold (fun _ => none) batches.flatten = some m ∧
      ∀ id, m id = (engine'.book.pool.find id).map fun o => (o.side, o.remaining) := by
  let cmds : List Command := [⟨.kNew, .kSell, .kLimit, 0, 3, 101, 0⟩,
    ⟨.kNew, .kSell, .kLimit, 0, 4, 102, 0⟩, ⟨.kNew, .kBuy, .kMarket, 0, 5, 0, 0⟩,
    ⟨.kCancel, .kBuy, .kLimit, 0, 0, 0, 4294967297⟩]
  obtain ⟨engine, hnew⟩ : ∃ engine, MatchingEngine.new
      { anchorPrice := 100, bandRadius := 1, poolCapacity := 3 } = .ok engine := ⟨_, rfl⟩
  obtain ⟨engine', batches, hrun, ⟨m, hfold, hm⟩, _⟩ := event_stream_complete
    { anchorPrice := 100, bandRadius := 1, poolCapacity := 3 } (by decide) hnew false cmds
    (by decide)
  have hevents : ∃ r, (do
      let engine ← MatchingEngine.new { anchorPrice := 100, bandRadius := 1, poolCapacity := 3 }
      engine.processAll false cmds) = .ok r ∧
      r.2.map (List.map fun e => (e.kind, e.orderId, e.qty)) =
        [[(.kAccepted, 4294967296, 3)], [(.kAccepted, 4294967297, 4)],
         [(.kAccepted, 4294967298, 5), (.kTraded, 4294967296, 3), (.kTraded, 4294967298, 3),
          (.kTraded, 4294967297, 2), (.kTraded, 4294967298, 2)], [(.kCanceled, 4294967297, 2)]] :=
    Holds.exists_ok (by decide +kernel)
  rw [hnew, ok_bind] at hevents
  obtain ⟨r, hr, hr'⟩ := hevents
  obtain rfl := Except.ok.inj (hr.symm.trans hrun)
  exact ⟨engine, engine', batches, m, hnew, hrun, hr', hfold, hm⟩

end LimitOrderBook
