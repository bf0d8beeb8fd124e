import LimitOrderBook.E2eAccounts
import LimitOrderBook.EventBound
import LimitOrderBook.Lib.Arrivals

set_option autoImplicit false

namespace LimitOrderBook
open Checked PriorityQueue IntrusiveList MemoryImage

/-- The kind a byte of the log stands for. -/
def EventType.ofByte? (b : UInt8) : Option EventType :=
  [kAccepted, kRejected, kTraded, kCanceled].find? fun k => k.byte = b

/-- What is left of an order, unless it is filled. -/
def Resting.left? (r : Resting) : Option Resting := if r.remaining = 0 then none else some r

/-- The order after a trade of `qty` of the order `id`. -/
def Resting.trade (id : OrderId) (qty : Qty) (r : Resting) : Option Resting :=
  if r.id = id then Resting.left? { r with remaining := r.remaining - qty } else some r

abbrev Journal := List Resting

namespace Journal

def find (J : Journal) (id : OrderId) : Option Resting := J.find? fun r => r.id = id

def fill (J : Journal) (id : OrderId) (qty : Qty) : Journal := J.filterMap (Resting.trade id qty)

def without (J : Journal) (id : OrderId) : Journal := J.filter fun r => r.id ≠ id

/-- One record; `none` when the journal contradicts it. -/
def apply (J : Journal) (rec : LogRecord) : Option Journal := do
  match ← EventType.ofByte? rec.kind with
  | .kAccepted =>
    if rec.qty ≠ 0 ∧ J.find rec.orderId = none then
      some (J ++ [{ id := rec.orderId, price := rec.priceTicks, qty := rec.qty,
                    remaining := rec.qty, side := ⟨rec.side⟩ }])
    else none
  | .kTraded =>
    let r ← J.find rec.orderId
    if r.side.byte = rec.side ∧ 0 < rec.qty ∧ rec.qty ≤ r.remaining then
      some (J.fill rec.orderId rec.qty)
    else none
  | .kCanceled =>
    let r ← J.find rec.orderId
    if r.side.byte = rec.side ∧ rec.priceTicks = r.price ∧ rec.qty = r.remaining then
      some (J.without rec.orderId)
    else none
  | .kRejected => some J

def replay (J : Journal) (records : List LogRecord) : Option Journal := records.foldlM apply J

def read (bytes : Bytes) : Option Journal :=
  if bytes.length % LogRecord.layout.size = 0 then
    replay [] (LogRecord.layout.decodeAll (bytes.length / LogRecord.layout.size) bytes)
  else none

def on (J : Journal) (s : Side) : Journal := J.filter fun r => r.side.isBuy = s.isBuy

def queue (J : Journal) (s : Side) : List Resting :=
  arrange s.resolve.Better Resting.price (J.on s)

variable {J : Journal} {r m : Resting} {s t : Side} {id : OrderId} {qty : Qty}

theorem read_encodeAll (records : List LogRecord) :
    read (LogRecord.layout.encodeAll records) = replay [] records := by
  have hlen := LogRecord.layout.length_encodeAll records
  have hsize : 0 < LogRecord.layout.size := by rw [LogRecord.layout_size]; omega
  rw [read, hlen, Nat.mul_mod_left, if_pos rfl, Nat.mul_div_cancel _ hsize,
    LogRecord.layout.decodeAll_encodeAll]

theorem replay_append (J : Journal) (rs qs : List LogRecord) :
    J.replay (rs ++ qs) = (J.replay rs).bind fun J' => J'.replay qs := by
  simp [replay, List.foldlM_append]

theorem mem_on : r ∈ J.on s ↔ r ∈ J ∧ r.side.isBuy = s.isBuy := by
  simp [on]

theorem mem_queue : r ∈ J.queue s ↔ r ∈ J ∧ r.side.isBuy = s.isBuy := by
  rw [queue, (arrange_perm _).mem_iff, mem_on]

theorem on_append (J K : Journal) (s : Side) : on (J ++ K) s = J.on s ++ K.on s :=
  List.filter_append ..

theorem on_congr (h : s.isBuy = t.isBuy) : J.on s = J.on t := by
  simp only [on, h]

theorem queue_congr (h : s.isBuy = t.isBuy) : J.queue s = J.queue t := by
  rw [queue, queue, on_congr h]
  simp only [Side.resolve_congr h]

theorem priced_queue (J : Journal) (s : Side) (p : PriceTicks) :
    priced (J.queue s) p = priced (J.on s) p := arrange_filter_key (J.on s) p

theorem find_of_mem (hu : UniqueIds J) (hr : r ∈ J) : J.find r.id = some r :=
  QueueBook.find?_unique hu hr

theorem find_none (h : ∀ x ∈ J, x.id ≠ id) : J.find id = none :=
  List.find?_eq_none.mpr fun x hx he => h x hx (of_decide_eq_true he)

theorem eq_of_id (hu : UniqueIds J) (hr : r ∈ J) (hm : m ∈ J) (h : r.id = m.id) : r = m :=
  List.inj_on_of_nodup_map hu hr hm h

theorem on_filterMap {f : Resting → Option Resting} (hf : ∀ x y, f x = some y → y.side = x.side)
    (J : Journal) (s : Side) : on (J.filterMap f) s = (J.on s).filterMap f := by
  rw [on, on, List.filter_filterMap, List.filterMap_filter]
  refine List.filterMap_congr fun x _ => ?_
  cases hx : f x with
  | none => simp
  | some y => simp [hf x y hx, Option.filter]

theorem queue_unique (hu : UniqueIds J) (s : Side) : UniqueIds (J.queue s) :=
  ((arrange_perm (J.on s)).map Resting.id).nodup_iff.mpr (hu.sublist (List.filter_sublist.map _))

theorem apart (hu : UniqueIds J) (hr : r ∈ J) (hs : r.side.isBuy ≠ s.isBuy) {x : Resting}
    (hx : x ∈ J) (hxs : x.side.isBuy = s.isBuy) : x.id ≠ r.id := fun he =>
  hs (eq_of_id hu hx hr he ▸ hxs)

theorem queue_filterMap {f : Resting → Option Resting}
    (hf : ∀ x y, f x = some y → y.price = x.price ∧ y.side = x.side) (J : Journal) (s : Side) :
    queue (J.filterMap f) s = (J.queue s).filterMap f := by
  rw [queue, queue, on_filterMap fun x y h => (hf x y h).2,
    arrange_filterMap fun x y h => (hf x y h).1]

theorem trade_keeps (id : OrderId) (qty : Qty) (x y : Resting)
    (h : Resting.trade id qty x = some y) :
    y.id = x.id ∧ y.price = x.price ∧ y.side = x.side := by
  unfold Resting.trade Resting.left? at h
  split at h
  · split at h
    · cases h
    · cases h
      exact ⟨rfl, rfl, rfl⟩
  · cases h
    exact ⟨rfl, rfl, rfl⟩

theorem queue_fill (J : Journal) (s : Side) : (J.fill id qty).queue s = fill (J.queue s) id qty :=
  queue_filterMap (fun x y h => (trade_keeps id qty x y h).2) J s

theorem on_fill (J : Journal) (s : Side) : (J.fill id qty).on s = (J.on s).fill id qty :=
  on_filterMap (fun x y h => (trade_keeps id qty x y h).2.2) J s

theorem queue_without (J : Journal) (s : Side) :
    (J.without id).queue s = without (J.queue s) id := by
  rw [queue, queue, without, without, arrange_filter, on, on, List.filter_filter,
    List.filter_filter]
  simp only [Bool.and_comm]

theorem on_without (J : Journal) (s : Side) : (J.without id).on s = (J.on s).without id := by
  rw [on, on, without, without, List.filter_filter, List.filter_filter]
  simp only [Bool.and_comm]

theorem fill_of_ne (h : ∀ x ∈ J, x.id ≠ id) : J.fill id qty = J := by
  have hkeep : ∀ x ∈ J, Resting.trade id qty x = some x := fun x hx => if_neg (h x hx)
  rw [fill, List.filterMap_congr hkeep]
  exact List.filterMap_some

theorem without_of_ne (h : ∀ x ∈ J, x.id ≠ id) : J.without id = J :=
  List.filter_eq_self.mpr fun x hx => decide_eq_true (h x hx)

theorem fill_append (J K : Journal) : fill (J ++ K) id qty = J.fill id qty ++ K.fill id qty :=
  List.filterMap_append ..

theorem fill_single (r : Resting) :
    fill [r] r.id qty = (Resting.left? { r with remaining := r.remaining - qty }).toList := by
  rw [fill, List.filterMap_cons, Resting.trade, if_pos rfl]
  cases Resting.left? { r with remaining := r.remaining - qty } <;> rfl

theorem fill_unique (hu : UniqueIds J) : UniqueIds (J.fill id qty) := by
  refine hu.sublist ?_
  induction J with
  | nil => exact .slnil
  | cons x J ih =>
    have htail := ih (List.nodup_cons.mp hu).2
    rw [fill] at htail ⊢
    cases hx : Resting.trade id qty x with
    | none =>
      rw [List.filterMap_cons_none hx]
      exact htail.cons _
    | some y =>
      rw [List.filterMap_cons_some hx, List.map_cons, List.map_cons, (trade_keeps id qty x y hx).1]
      exact htail.cons_cons _

theorem without_unique (hu : UniqueIds J) : UniqueIds (J.without id) :=
  hu.sublist (List.filter_sublist.map _)

/-! The records of the engine's events, whatever their time stamps are. -/

def follow (J : Journal) (es : List Event) : Option Journal := J.replay (es.map (makeLogRecord 0))

theorem replay_eq_follow {records : List LogRecord} {es : List Event}
    (h : List.Forall₂ (fun rec e => rec = makeLogRecord rec.timestamp e) records es) :
    ∀ J : Journal, J.replay records = J.follow es := by
  induction h with
  | nil => exact fun _ => rfl
  | cons hrec _ ih =>
    intro J
    rw [hrec]
    simp only [replay, follow, List.map_cons, List.foldlM_cons] at ih ⊢
    exact bind_congr fun J' => ih J'

theorem follow_append (J : Journal) (es fs : List Event) :
    J.follow (es ++ fs) = (J.follow es).bind fun J' => J'.follow fs := by
  rw [follow, List.map_append, replay_append]
  rfl

theorem follow_cons (J : Journal) (e : Event) (es : List Event) :
    J.follow (e :: es) = (J.apply (makeLogRecord 0 e)).bind fun J' => J'.follow es := rfl

theorem apply_accepted (hid : ∀ x ∈ J, x.id ≠ id) (hqty : qty ≠ 0) (px : PriceTicks) :
    J.apply (makeLogRecord 0 (makeEvent .kAccepted s .kNone qty qty px id)) =
      some (J ++ [{ id, price := px, qty, remaining := qty, side := s }]) := by
  have happly : J.apply (makeLogRecord 0 (makeEvent .kAccepted s .kNone qty qty px id)) =
      if qty ≠ 0 ∧ J.find id = none then
        some (J ++ [{ id, price := px, qty, remaining := qty, side := s }])
      else none := rfl
  rw [happly, if_pos ⟨hqty, find_none hid⟩]

theorem apply_traded (hu : UniqueIds J) (hr : r ∈ J) (hpos : 0 < qty)
    (hle : qty ≤ r.remaining) (left : Qty) (px : PriceTicks) :
    J.apply (makeLogRecord 0 (makeEvent .kTraded r.side .kNone qty left px r.id)) =
      some (J.fill r.id qty) := by
  have happly : J.apply (makeLogRecord 0 (makeEvent .kTraded r.side .kNone qty left px r.id)) =
      (J.find r.id).bind fun x =>
        if x.side.byte = r.side.byte ∧ 0 < qty ∧ qty ≤ x.remaining then some (J.fill r.id qty)
        else none := rfl
  rw [happly, find_of_mem hu hr, Option.bind_some, if_pos ⟨rfl, hpos, hle⟩]

theorem follow_canceled (hu : UniqueIds J) (hr : r ∈ J) :
    J.follow [makeEvent .kCanceled r.side .kNone r.remaining 0 r.price r.id] =
      some (J.without r.id) := by
  have happly : J.follow [makeEvent .kCanceled r.side .kNone r.remaining 0 r.price r.id] =
      ((J.find r.id).bind fun x =>
        if x.side.byte = r.side.byte ∧ r.price = x.price ∧ r.remaining = x.remaining then
          some (J.without r.id)
        else none).bind some := rfl
  rw [happly, find_of_mem hu hr, Option.bind_some, if_pos ⟨rfl, rfl, rfl⟩, Option.bind_some]

theorem ahead_ne {K : Journal} (hu : UniqueIds J) (hon : J.on s = K ++ [r]) :
    ∀ x ∈ K, x.id ≠ r.id := fun x hx he => by
  have huo : UniqueIds (K ++ [r]) := hon ▸ hu.sublist (List.filter_sublist.map _)
  rw [UniqueIds, List.map_append] at huo
  exact (List.nodup_append.mp huo).2.2 x.id (List.mem_map_of_mem hx) r.id (by simp) he

theorem without_last {K : Journal} (hu : UniqueIds J) (hon : J.on r.side = K ++ [r]) :
    (J.without r.id).on r.side = K ∧
      (J.without r.id).queue r.side.opposite = J.queue r.side.opposite := by
  have hr : r ∈ J := (mem_on.mp (show r ∈ J.on r.side by simp [hon])).1
  constructor
  · have hlast : without [r] r.id = [] := by simp [without]
    have hK := without_of_ne (ahead_ne hu hon)
    rw [on_without, hon]
    exact (List.filter_append ..).trans (by rw [← without, ← without, hK, hlast, List.append_nil])
  · rw [queue_without]
    refine without_of_ne fun x hx => ?_
    obtain ⟨hxJ, hxs⟩ := mem_queue.mp hx
    exact apart hu hr (QueueBook.isBuy_ne_opposite rfl) hxJ hxs

/-- The two records of one fill, the maker's and that of the taker `t`, which stands last
on its side. -/
theorem follow_pair {t : Resting} {remaining : Qty} {K M : List Resting} (hu : UniqueIds J)
    (hqueue : J.queue t.side.opposite = m :: M)
    (hon : J.on t.side = K ++ [{ t with remaining }]) (hr : 1 ≤ remaining.toNat)
    (hm : 1 ≤ m.remaining.toNat) :
    ∃ J', J.follow (tradedPair t.side t.id m (min remaining m.remaining)
          (m.remaining - min remaining m.remaining) (remaining - min remaining m.remaining)) =
        some J' ∧ UniqueIds J' ∧
      J'.queue t.side.opposite =
        (Resting.left? { m with remaining := m.remaining - min remaining m.remaining }).toList ++
          M ∧
      J'.on t.side = K ++
        (Resting.left? { t with remaining := remaining - min remaining m.remaining }).toList := by
  have hmin := toNat_min remaining m.remaining
  generalize min remaining m.remaining = qty at hmin ⊢
  have hpos : 0 < qty := UInt32.lt_iff_toNat_lt.mpr (show 0 < qty.toNat by omega)
  have hsides : t.side.opposite.isBuy ≠ t.side.isBuy := (QueueBook.isBuy_ne_opposite rfl).symm
  obtain ⟨hmJ, hmside⟩ := mem_queue.mp (show m ∈ J.queue t.side.opposite by simp [hqueue])
  -- the maker's record
  have hrun₁ := apply_traded hu hmJ hpos (UInt32.le_iff_toNat_le.mpr (by omega))
    (m.remaining - qty) m.price
  have hu₁ : UniqueIds (J.fill m.id qty) := fill_unique hu
  have hM : ∀ x ∈ M, x.id ≠ m.id := fun x hx he => by
    have huq := queue_unique hu t.side.opposite
    rw [hqueue] at huq
    exact (List.nodup_cons.mp huq).1 (List.mem_map.mpr ⟨x, hx, he⟩)
  have hqueue₁ : (J.fill m.id qty).queue t.side.opposite =
      (Resting.left? { m with remaining := m.remaining - qty }).toList ++ M := by
    have happend : fill ([m] ++ M) m.id qty = fill [m] m.id qty ++ fill M m.id qty :=
      fill_append [m] M
    rw [queue_fill, hqueue]
    rwa [fill_single, fill_of_ne hM] at happend
  have hon₁ : (J.fill m.id qty).on t.side = K ++ [{ t with remaining }] := by
    rw [on_fill, fill_of_ne fun x hx => ?_, hon]
    obtain ⟨hxJ, hxs⟩ := mem_on.mp hx
    exact apart hu hmJ (by rwa [hmside]) hxJ hxs
  -- the taker's record
  have htJ : ({ t with remaining } : Resting) ∈ J.fill m.id qty :=
    (mem_on.mp (show _ ∈ on _ t.side by rw [hon₁]; simp)).1
  have hrun₂ := apply_traded hu₁ htJ hpos
    (UInt32.le_iff_toNat_le.mpr (show _ ≤ remaining.toNat by omega))
    (remaining - qty) m.price
  have hK : ∀ x ∈ K, x.id ≠ t.id := ahead_ne (r := { t with remaining }) hu₁ hon₁
  refine ⟨(J.fill m.id qty).fill t.id qty, ?_, fill_unique hu₁, ?_, ?_⟩
  · rw [tradedPair, follow_cons, hrun₁, Option.bind_some, follow_cons, hrun₂]
    rfl
  · rw [queue_fill, fill_of_ne fun x hx => ?_, hqueue₁]
    obtain ⟨hxJ, hxs⟩ := mem_queue.mp hx
    exact apart hu₁ htJ (Ne.symm hsides) hxJ hxs
  · rw [on_fill, hon₁, fill_append, fill_of_ne hK]
    exact congrArg (K ++ ·) (fill_single { t with remaining })

/-- Replay follows a sweep fill by fill. -/
theorem follow_sweep (limit : PriceTicks) (t : Resting) (K M : List Resting) :
    ∀ {J : Journal} (remaining : Qty), UniqueIds J → J.queue t.side.opposite = M →
    J.on t.side = K ++ (Resting.left? { t with remaining }).toList →
    (∀ r ∈ M, 1 ≤ r.remaining.toNat) →
    ∃ J', J.follow (sweep t.side limit t.id remaining M).events = some J' ∧ UniqueIds J' ∧
      J'.queue t.side.opposite = (sweep t.side limit t.id remaining M).rest ∧
      J'.on t.side = K ++ (Resting.left?
        { t with remaining := (sweep t.side limit t.id remaining M).remaining }).toList := by
  intro J remaining hu hqueue hon hpos
  induction remaining, M using sweep_induction t.side limit generalizing J with
  | nil => exact ⟨J, rfl, hu, hqueue, hon⟩
  | stop remaining m M hstop =>
    rw [sweep_stop hstop]
    exact ⟨J, rfl, hu, hqueue, hon⟩
  | filled remaining m M hstop hleft ih =>
    have hr : remaining ≠ 0 := (not_or.mp hstop).1
    rw [Resting.left?, if_neg hr] at hon
    obtain ⟨J₁, hrun₁, hu₁, hqueue₁, hon₁⟩ := follow_pair hu hqueue hon (toNat_pos.mpr hr)
      (hpos m (by simp))
    rw [Resting.left?, if_pos hleft] at hqueue₁
    obtain ⟨J', hrun', h'⟩ := ih hu₁ hqueue₁ hon₁ fun x hx => hpos x (by simp [hx])
    rw [sweep_filled hstop hleft]
    exact ⟨J', by rw [follow_append, hrun₁, Option.bind_some, hrun'], h'⟩
  | left remaining m M hstop hleft =>
    have hr : remaining ≠ 0 := (not_or.mp hstop).1
    rw [Resting.left?, if_neg hr] at hon
    obtain ⟨J₁, hrun₁, hu₁, hqueue₁, hon₁⟩ := follow_pair hu hqueue hon (toNat_pos.mpr hr)
      (hpos m (by simp))
    rw [Resting.left?, if_neg hleft] at hqueue₁
    rw [sweep_left hstop hleft]
    exact ⟨J₁, hrun₁, hu₁, hqueue₁, hon₁⟩

/-- The journal has the orders of the queue book, in the queues of the queue book. -/
structure Tells (J : Journal) (b : QueueBook) : Prop where
  unique : UniqueIds J
  queues : ∀ s, J.queue s = b.queue s

variable {b : QueueBook} {type : OrderType} {price : PriceTicks} {x : Sweep}

theorem tells_new (capacity : UInt32) : Tells [] (QueueBook.new capacity) where
  unique := List.nodup_nil
  queues s := by
    unfold QueueBook.queue QueueBook.new
    split <;> rfl

theorem Tells.mem (h : J.Tells b) : r ∈ J ↔ r ∈ b.resting := by
  rw [QueueBook.mem_resting]
  simp only [← h.queues, mem_queue]
  exact ⟨fun hr => ⟨r.side, hr, rfl⟩, fun ⟨_, hr⟩ => hr.1⟩

theorem tells_settle (hu : UniqueIds J) (hopp : J.queue s.opposite = x.rest)
    (hown : J.queue s = b.queue s) : J.Tells (b.settle s x) where
  unique := hu
  queues u := by
    by_cases hs : u.isBuy = s.opposite.isBuy
    · rw [QueueBook.settle_queue_opposite hs, queue_congr hs, hopp]
    · have hsame : u.isBuy = s.isBuy := by
        rw [Side.opposite_isBuy] at hs
        simpa using hs
      rw [QueueBook.settle_queue_own hs, queue_congr hsame, QueueBook.queue_congr hsame, hown]

theorem tells_rest (hu : UniqueIds J)
    (hown : J.queue r.side = enqueue r.side.resolve.Better Resting.price r (b.queue r.side))
    (hopp : J.queue r.side.opposite = b.queue r.side.opposite) : J.Tells (b.rest r) where
  unique := hu
  queues u := by
    rw [QueueBook.rest_queue]
    split
    · rename_i hs
      rw [queue_congr hs, hown]
    · rename_i hs
      have hother : u.isBuy = r.side.opposite.isBuy := by
        rw [Side.opposite_isBuy]
        exact Bool.eq_not.mpr hs
      rw [queue_congr hother, QueueBook.queue_congr hother, hopp]

theorem follow_taker (hu : UniqueIds J) (hid : ∀ x ∈ J, x.id ≠ id) {M : List Resting}
    (hqueue : J.queue s.opposite = M) (hpos : ∀ r ∈ M, 1 ≤ r.remaining.toNat) (hqty : qty ≠ 0)
    (px limit : PriceTicks) :
    ∃ J', J.follow (makeEvent .kAccepted s .kNone qty qty px id ::
        (sweep s limit id qty M).events) = some J' ∧ UniqueIds J' ∧
      J'.queue s.opposite = (sweep s limit id qty M).rest ∧
      J'.on s = J.on s ++ (Resting.left? { id, price := px, qty, side := s, remaining :=
        (sweep s limit id qty M).remaining }).toList := by
  let t : Resting := { id, price := px, qty, remaining := qty, side := s }
  have hrun₁ := apply_accepted (s := s) hid hqty px
  have hu₁ : UniqueIds (J ++ [t]) := by
    rw [UniqueIds, List.map_append]
    refine List.nodup_append.mpr ⟨hu, by simp, fun x hx y hy he => ?_⟩
    obtain ⟨r, hr, rfl⟩ := List.mem_map.mp hx
    exact hid r hr (he.trans (List.mem_singleton.mp hy))
  have hon₁ : on (J ++ [t]) s = J.on s ++ (Resting.left? t).toList := by
    rw [on_append, Resting.left?, if_neg hqty]
    simp [on, t]
  have hqueue₁ : queue (J ++ [t]) s.opposite = M := by
    have hnone : on [t] s.opposite = [] := by
      simp [on, t]
    rw [← hqueue, queue, queue, on_append, hnone, List.append_nil]
  obtain ⟨J', hrun', h'⟩ := follow_sweep limit t (J.on s) M qty hu₁ hqueue₁ hon₁ hpos
  exact ⟨J', by rw [follow_cons, hrun₁]; exact hrun', h'⟩

theorem Tells.execute (h : J.Tells b) (hid : ∀ x ∈ J, x.id ≠ id)
    (hpos : ∀ r ∈ b.queue s.opposite, 1 ≤ r.remaining.toNat) (hqty : qty ≠ 0) :
    ∃ J', J.follow (b.execute id s type price qty).2 = some J' ∧
      J'.Tells (b.execute id s type price qty).1 := by
  obtain ⟨J₁, hrun₁, hu₁, hqueue₁, hon₁⟩ := follow_taker h.unique hid (h.queues s.opposite) hpos
    hqty (if type = .kMarket then 0 else price) (takerLimit s type price)
  simp only [QueueBook.execute]
  generalize sweep s (takerLimit s type price) id qty (b.queue s.opposite) = x at *
  have hopp : s.isBuy ≠ s.opposite.isBuy := QueueBook.isBuy_ne_opposite rfl
  by_cases hz : x.remaining = 0
  · have hown : J₁.queue s = b.queue s := by
      rw [Resting.left?, if_pos hz, Option.toList_none, List.append_nil] at hon₁
      rw [← h.queues, queue, queue, hon₁]
    have hnot : ¬ 0 < x.remaining := by
      rw [hz]
      decide
    have htells := tells_settle hu₁ hqueue₁ hown
    rw [if_pos (.inl hz), if_neg hnot, List.append_nil]
    exact ⟨J₁, hrun₁, htells.unique, htells.queues⟩
  · rw [Resting.left?, if_neg hz, Option.toList_some] at hon₁
    by_cases htype : type = .kLimit
    · rw [if_neg (not_or.mpr ⟨hz, not_not.mpr htype⟩)]
      have hmarket : ¬ type = .kMarket := by
        rw [htype]
        decide
      rw [if_neg hmarket] at hon₁ hrun₁ ⊢
      have htells := tells_rest (b := b.settle s x)
        (r := { id, price, qty, side := s, remaining := x.remaining }) hu₁
        (by rw [queue, hon₁, arrange_snoc, QueueBook.settle_queue_own hopp, ← h.queues]; rfl)
        (by rw [QueueBook.settle_queue_opposite rfl, ← hqueue₁])
      exact ⟨J₁, hrun₁, htells⟩
    · -- what is left of a market or IOC order is canceled
      rw [if_pos (.inr htype), if_pos (UInt32.pos_iff_ne_zero.mpr hz)]
      have hlast := without_last
        (r := ⟨id, if type = .kMarket then 0 else price, qty, x.remaining, s⟩) hu₁ hon₁
      have hrun₂ := follow_canceled hu₁ (mem_on.mp (hon₁ ▸ List.mem_append_right _
        (List.mem_singleton_self _))).1
      have htells := tells_settle (b := b) (without_unique hu₁) (hlast.2.trans hqueue₁)
        (by rw [← h.queues, queue, queue]; exact congrArg (arrange _ _) hlast.1)
      refine ⟨J₁.without id, ?_, htells.unique, htells.queues⟩
      rw [follow_append, hrun₁, Option.bind_some]
      exact hrun₂

theorem Tells.cancel (h : J.Tells b) (hr : r ∈ b.resting) :
    ∃ J', J.follow [makeEvent .kCanceled r.side .kNone r.remaining 0 r.price r.id] = some J' ∧
      J'.Tells (b.remove r) := by
  have hrJ := h.mem.mpr hr
  refine ⟨J.without r.id, follow_canceled h.unique hrJ, without_unique h.unique, fun s => ?_⟩
  rw [queue_without, QueueBook.remove, QueueBook.queue_release, QueueBook.queue_setQueue, h.queues]
  split
  · rename_i hs
    rw [QueueBook.queue_congr hs]
    rfl
  · rename_i hs
    refine without_of_ne fun x hx => ?_
    rw [← h.queues] at hx
    obtain ⟨hxJ, hxs⟩ := mem_queue.mp hx
    exact apart h.unique hrJ (Ne.symm hs) hxJ hxs

theorem Tells.step {cfg : EngineConfig} {book : OrderBook} (hrep : BookRep cfg book b [])
    (h : J.Tells b) {op : BookOp} (hop : op.Matched) :
    ∃ J', J.follow (b.step op).2.events = some J' ∧ J'.Tells (b.step op).1 := by
  cases op with
  | add side type price qty =>
    simp only [QueueBook.step, QueueBook.add]
    cases hf : QueueBook.refusal type price qty with
    | some reason => exact ⟨J, rfl, h⟩
    | none =>
      cases hm : b.mint with
      | none => exact ⟨J, rfl, h⟩
      | some x =>
        obtain ⟨_, _, hbids, hasks, hnew⟩ := mint_some hrep hm
        have h₁ : J.Tells x.2 := ⟨h.unique, fun s => by
          rw [h.queues, QueueBook.queue, QueueBook.queue, hbids, hasks]⟩
        exact h₁.execute (fun y hy => hnew y (h₁.mem.mp hy))
          (fun r hr => hrep.remaining_pos (by rwa [← QueueBook.mint_queue hm]))
          (QueueBook.refusal_none_iff.mp hf).1
  | addLimit side price qty => exact hop.elim
  | cancel id =>
    simp only [QueueBook.step, QueueBook.cancel]
    cases hf : b.find id with
    | none => exact ⟨J, rfl, h⟩
    | some r =>
      obtain ⟨hr, rfl⟩ := (QueueBook.find_iff hrep.wf).mp hf
      exact h.cancel hr

theorem Tells.run {cfg : EngineConfig} (ops : List BookOp) : ∀ {book : OrderBook} {b : QueueBook}
    {J : Journal}, BookRep cfg book b [] → J.Tells b → (∀ op ∈ ops, op.Matched) →
    ∃ J', J.follow ((b.run ops).2.map Reply.events).flatten = some J' ∧ J'.Tells (b.run ops).1 := by
  induction ops with
  | nil => exact fun _ h _ => ⟨_, rfl, h⟩
  | cons op ops ih =>
    intro book b J hrep h hops
    obtain ⟨J₁, hrun₁, h₁⟩ := h.step hrep (hops op (by simp))
    obtain ⟨book₁, _, hrep₁⟩ := hrep.step_rep op
    obtain ⟨J', hrun', h'⟩ := ih hrep₁ h₁ fun o ho => hops o (by simp [ho])
    exact ⟨J', by simp [QueueBook.run, follow_append, hrun₁, hrun'], h'⟩

/-- What a reader of the journal knows of the book: its orders, the list of every level
in the order in which it is served, and the answers of the book's queries. -/
structure Shows (J : Journal) (book : OrderBook) : Prop where
  live : ∀ i, book.pool.Live i ↔ i ∈ slots J
  order : ∀ r ∈ J, book.pool.resting r.slot = r
  level : ∀ s p, LevelRep book.pool ((book.ladder s).level p) (slots (priced (J.on s) p))
  bestBid : book.bestBid = .ok ((J.queue .kBuy).head?.map Resting.price)
  bestAsk : book.bestAsk = .ok ((J.queue .kSell).head?.map Resting.price)
  qtyAt : ∀ s p, ∃ q, book.qtyAt s p = .ok q ∧
    q.toNat = ((priced (J.on s) p).map fun r => r.remaining.toNat).sum
  ordersAt : ∀ s p, ∃ n, book.ordersAt s p = .ok n ∧ n.toNat = (priced (J.on s) p).length
  contains : ∀ id, book.contains id = (J.find id).isSome

theorem Tells.shows {cfg : EngineConfig} {book : OrderBook} (hrep : BookRep cfg book b [])
    (h : J.Tells b) : J.Shows book where
  live i := by
    rw [hrep.live]
    simp only [slots, List.mem_map, h.mem, List.not_mem_nil, or_false]
  order r hr := hrep.stored r (h.mem.mp hr)
  level s p := by
    have hlevel := (hrep.ladder s).level p
    rwa [hrep.atPrice_rep, QueueBook.atPrice, ← h.queues, priced_queue] at hlevel
  bestBid := by
    rw [hrep.bestBid_rep, h.queues]
    rfl
  bestAsk := by
    rw [hrep.bestAsk_rep, h.queues]
    rfl
  qtyAt s p := by
    obtain ⟨q, hq, hsum⟩ := hrep.qtyAt_rep s p
    rw [QueueBook.qtyAt, QueueBook.atPrice, ← h.queues, priced_queue] at hsum
    exact ⟨q, hq, hsum⟩
  ordersAt s p := by
    obtain ⟨n, hn, hlen⟩ := hrep.ordersAt_rep s p
    rw [QueueBook.atPrice, ← h.queues, priced_queue] at hlen
    exact ⟨n, hn, hlen⟩
  contains id := by
    rw [hrep.contains_rep]
    refine Bool.eq_iff_iff.mpr ?_
    rw [QueueBook.find, find, List.find?_isSome, List.find?_isSome]
    simp only [h.mem]

theorem replay_run {cfg : EngineConfig}
    (hhigh : cfg.anchorPrice.toInt + cfg.bandRadius.toNat + 1 ≤ 2 ^ 63 - 1)
    {engine : MatchingEngine} (hnew : MatchingEngine.new cfg = .ok engine) (ndebug : Bool)
    {cmds : List Command} (hk : ∀ cmd ∈ cmds, cmd.Known) :
    ∃ engine' batches J, engine.processAll ndebug cmds = .ok (engine', batches) ∧
      follow [] batches.flatten = some J ∧ J.Shows engine'.book := by
  obtain ⟨hrep, engine', hrun, hrep'⟩ := MatchingEngine.processAll_new hhigh hnew ndebug hk
  obtain ⟨J, hfollow, hJ⟩ := Tells.run _ hrep (tells_new _) (Command.ops_matched cmds)
  exact ⟨engine', _, J, hrun, hfollow, hJ.shows hrep'⟩

end Journal

/-- Whatever the time stamps: the bytes of the records of a run, read back, never
contradict each other, and give the book the run ends in, every queue in its order. -/
theorem log_rebuilds_book (cfg : EngineConfig)
    (hhigh : cfg.anchorPrice.toInt + cfg.bandRadius.toNat + 1 ≤ 2 ^ 63 - 1)
    {engine : MatchingEngine} (hnew : MatchingEngine.new cfg = .ok engine) (ndebug : Bool)
    (cmds : List Command) (hk : ∀ cmd ∈ cmds, cmd.Known) :
    ∃ engine' batches, engine.processAll ndebug cmds = .ok (engine', batches) ∧
      ∀ records, List.Forall₂ (fun rec e => rec = makeLogRecord rec.timestamp e) records
          batches.flatten →
        ∃ J, Journal.read (LogRecord.layout.encodeAll records) = some J ∧
          J.Shows engine'.book := by
  obtain ⟨engine', batches, J, hrun, hfollow, hJ⟩ := Journal.replay_run hhigh hnew ndebug hk
  refine ⟨engine', batches, hrun, fun records hrecords => ⟨J, ?_, hJ⟩⟩
  rw [Journal.read_encodeAll, Journal.replay_eq_follow hrecords, hfollow]

/-- Two sells and a buy that fills one of them and a part of the other, all stamped 7. -/
theorem log_rebuilds_book_small : ∃ engine engine' batches J,
    MatchingEngine.new { anchorPrice := 100, bandRadius := 1, poolCapacity := 3 } = .ok engine ∧
    engine.processAll false [⟨.kNew, .kSell, .kLimit, 0, 3, 101, 0⟩,
      ⟨.kNew, .kSell, .kLimit, 0, 4, 300, 0⟩, ⟨.kNew, .kBuy, .kMarket, 0, 5, 0, 0⟩] =
        .ok (engine', batches) ∧
    Journal.read (LogRecord.layout.encodeAll (batches.flatten.map (makeLogRecord 7))) = some J ∧
      J.Shows engine'.book := by
  obtain ⟨engine', batches, hrun, hall⟩ := log_rebuilds_book
    { anchorPrice := 100, bandRadius := 1, poolCapacity := 3 } (by decide) rfl false
    [⟨.kNew, .kSell, .kLimit, 0, 3, 101, 0⟩, ⟨.kNew, .kSell, .kLimit, 0, 4, 300, 0⟩,
     ⟨.kNew, .kBuy, .kMarket, 0, 5, 0, 0⟩] (by decide)
  obtain ⟨J, hread, hJ⟩ := hall (batches.flatten.map (makeLogRecord 7))
    (List.forall₂_map_left_iff.mpr (List.forall₂_same.mpr fun _ _ => rfl))
  exact ⟨_, engine', batches, J, rfl, hrun, hread, hJ⟩

theorem stamped_forall₂ (clock : Nat → UInt64) (batches : List (List Event)) : ∀ reads,
    List.Forall₂ (fun rec e => rec = makeLogRecord rec.timestamp e)
      (stamped clock reads batches) batches.flatten := by
  induction batches with
  | nil => exact fun _ => .nil
  | cons events rest ih =>
    intro reads
    refine List.rel_append ?_ (ih (reads + 2))
    rw [List.forall₂_map_left_iff, List.forall₂_same]
    exact fun _ _ => rfl

/-- Whatever the interleaving of the four threads: a run of `run_e2e` that has dropped no
record leaves a file from which the book of its engine can be read back. -/
theorem e2e_log_rebuilds_book {capacity logCapacity : UInt64} {q : SPSCQueue Command}
    {lq : SPSCQueue LogRecord} (hq : SPSCQueue.new capacity = .ok q)
    (hlq : SPSCQueue.new logCapacity = .ok lq) (cfg : EngineConfig)
    (hhigh : cfg.anchorPrice.toInt + cfg.bandRadius.toNat + 1 ≤ 2 ^ 63 - 1) (j : E2eJob)
    (hnew : MatchingEngine.new cfg = .ok j.engine) (hcmds : validateCommands j.cmds = none)
    (hlen : 3 * j.cmds.length < 2 ^ 64) (hw : j.warmup.toNat < j.cmds.length)
    {sched : List E2eThread} {s : E2e} {log : List Attempt}
    (hrun : Schedule.run (E2e.step j) (E2e.start j q lq) sched = .ok (s, log))
    (hdone : s.main = .done) (hdropped : s.logger.recordsDropped = 0) :
    ∃ J, Journal.read s.logger.contents = some J ∧ J.Shows s.run.engine.book := by
  have hlen' : j.cmds.length < 2 ^ 64 := by omega
  obtain ⟨k, -, -, hring⟩ := RingOk.new hq
  obtain ⟨kl, -, -, hlring⟩ := RingOk.new hlq
  have hinv := Schedule.run_inv (E2e.Inv j k kl)
    (fun s hist t s' out hs hstep => E2e.inv_of_step hcmds hlen' hs hstep)
    (E2e.start_inv hring hlring) hrun
  have hreports := hinv.reports hlen' hw hdone
  obtain ⟨processed, h⟩ := hinv
  have hbroke := h.broke
  rw [hdone] at hbroke
  obtain ⟨-, -, e, batches, hall, hbook⟩ := h.finished (hbroke rfl)
  have hknown : ∀ cmd ∈ j.cmds, cmd.Known := fun cmd hcmd =>
    (validateCommands_none.mp hcmds cmd hcmd).1
  obtain ⟨e', batches', J, hall', hfollow, hJ⟩ :=
    Journal.replay_run hhigh hnew j.ndebug hknown
  cases hall.symm.trans hall'
  have hle := MatchingEngine.length_events hhigh hnew hknown hall
  have hstamped := stamped_forall₂ j.clock batches 0
  have hfits : (stamped j.clock 0 batches).length < 2 ^ 64 := by
    have hlength := hstamped.length_eq
    have hnews := List.countP_le_length (p := fun cmd : Command => cmd.kind = .kNew) (l := j.cmds)
    omega
  refine ⟨J, ?_, hbook ▸ hJ⟩
  rw [hreports.lossless hall hfits hdropped, Journal.read_encodeAll,
    Journal.replay_eq_follow hstamped, hfollow]

/-- Two commands, four events, and a log ring that holds them all. -/
theorem e2e_log_rebuilds_book_small : ∃ q lq e s log J,
    SPSCQueue.new (UInt64.ofNat 2) = .ok q ∧ SPSCQueue.new (UInt64.ofNat 4) = .ok lq ∧
    MatchingEngine.new { anchorPrice := 100, bandRadius := 1, poolCapacity := 2 } = .ok e ∧
    let j : E2eJob := ⟨false, UInt64.ofNat, 1, e, [⟨.kNew, .kBuy, .kLimit, 0, 2, 100, 0⟩,
      ⟨.kNew, .kSell, .kIoc, 0, 1, 100, 0⟩]⟩
    Schedule.run (E2e.step j) (E2e.start j q lq) (List.flatten
      [List.replicate 13 E2eThread.producer, List.replicate 46 .engine, List.replicate 4 .main,
        List.replicate 18 .logger, List.replicate 3 .main]) = .ok (s, log) ∧
    Journal.read s.logger.contents = some J ∧ J.Shows s.run.engine.book := by
  obtain ⟨q, hq⟩ : ∃ q, SPSCQueue.new (T := Command) (UInt64.ofNat 2) = .ok q := ⟨_, rfl⟩
  obtain ⟨lq, hlq⟩ : ∃ q, SPSCQueue.new (T := LogRecord) (UInt64.ofNat 4) = .ok q := ⟨_, rfl⟩
  obtain ⟨e, he⟩ : ∃ e, MatchingEngine.new
      { anchorPrice := 100, bandRadius := 1, poolCapacity := 2 } = .ok e := ⟨_, rfl⟩
  let j : E2eJob := ⟨false, UInt64.ofNat, 1, e, [⟨.kNew, .kBuy, .kLimit, 0, 2, 100, 0⟩,
    ⟨.kNew, .kSell, .kIoc, 0, 1, 100, 0⟩]⟩
  have hrun : ∃ r, (do
      let q ← SPSCQueue.new (T := Command) (UInt64.ofNat 2)
      let lq ← SPSCQueue.new (T := LogRecord) (UInt64.ofNat 4)
      let e ← MatchingEngine.new { anchorPrice := 100, bandRadius := 1, poolCapacity := 2 }
      let j : E2eJob := ⟨false, UInt64.ofNat, 1, e, [⟨.kNew, .kBuy, .kLimit, 0, 2, 100, 0⟩,
        ⟨.kNew, .kSell, .kIoc, 0, 1, 100, 0⟩]⟩
      Schedule.run (E2e.step j) (E2e.start j q lq) (List.flatten
        [List.replicate 13 E2eThread.producer, List.replicate 46 .engine, List.replicate 4 .main,
          List.replicate 18 .logger, List.replicate 3 .main])) = .ok r ∧
      r.1.main = .done ∧ r.1.logger.recordsDropped = 0 :=
    Holds.exists_ok (by decide +kernel)
  rw [hq, ok_bind, hlq, ok_bind, he, ok_bind] at hrun
  obtain ⟨⟨s, log⟩, hrun, hdone, hdropped⟩ := hrun
  obtain ⟨J, hread, hJ⟩ := e2e_log_rebuilds_book hq hlq
    { anchorPrice := 100, bandRadius := 1, poolCapacity := 2 } (by decide) j he rfl
    (show 3 * 2 < 2 ^ 64 by decide) (show (1 : UInt64).toNat < 2 by decide) hrun hdone hdropped
  exact ⟨q, lq, e, s, log, J, hq, hlq, he, hrun, hread, hJ⟩

end LimitOrderBook
