import LimitOrderBook.Renaming

/-!
The drivers of `matching_bench.cc` and `book_micro_bench.cc`: one surface over the
reference book, which is given its ids, and the optimized book, which mints them.
-/

set_option autoImplicit false

namespace LimitOrderBook
open Checked PriorityQueue

/-- What the templates use of a driver. `add` also returns what the sink was given. -/
structure Driver (σ : Type) where
  make : Nat → Exec σ
  add : σ → Side → OrderType → PriceTicks → Qty → Exec (OrderId × List Event × σ)
  addLimit : σ → Side → PriceTicks → Qty → Exec (OrderId × σ)
  cancel : σ → OrderId → Exec (Bool × σ)
  openOrders : σ → Nat

structure NaiveDriver where
  book : NaiveBook := {}
  events : List Event := []
  nextId : OrderId := 1

namespace NaiveDriver

def add (d : NaiveDriver) (side : Side) (type : OrderType) (price : PriceTicks) (qty : Qty) :
    Exec (OrderId × List Event × NaiveDriver) := do
  let id := d.nextId
  let (_, book, events) ← d.book.add id side type price qty
  pure (id, events, { book, events, nextId := id + 1 })

def addLimit (d : NaiveDriver) (side : Side) (price : PriceTicks) (qty : Qty) :
    Exec (OrderId × NaiveDriver) := do
  let id := d.nextId
  let (_, book, events) ← d.book.addLimit id side price qty
  pure (id, { book, events, nextId := id + 1 })

def cancel (d : NaiveDriver) (id : OrderId) : Exec (Bool × NaiveDriver) := do
  let (found, book, events) ← d.book.cancel id
  pure (found, { d with book, events })

end NaiveDriver

def naiveDriver : Driver NaiveDriver where
  make := fun _ => pure {}
  add := NaiveDriver.add
  addLimit := NaiveDriver.addLimit
  cancel := NaiveDriver.cancel
  openOrders d := d.book.openOrders

def kMid : PriceTicks := 100000

structure BookDriver where
  book : OrderBook

namespace BookDriver

def make (poolCapacity : Nat) : Exec BookDriver := do
  let book ← OrderBook.new kMid kDefaultBandRadius (UInt32.ofNat poolCapacity)
  pure { book }

def add (ndebug : Bool) (d : BookDriver) (side : Side) (type : OrderType) (price : PriceTicks)
    (qty : Qty) : Exec (OrderId × List Event × BookDriver) := do
  let (id, book, events) ← d.book.add ndebug side type price qty
  pure (id, events, { book })

def addLimit (d : BookDriver) (side : Side) (price : PriceTicks) (qty : Qty) :
    Exec (OrderId × BookDriver) := do
  let (id, book) ← d.book.addLimit side price qty
  pure (id, { book })

def cancel (d : BookDriver) (id : OrderId) : Exec (Bool × BookDriver) := do
  let (found, book, _) ← d.book.cancel id
  pure (found, { book })

end BookDriver

def bookDriver (ndebug : Bool) : Driver BookDriver where
  make := BookDriver.make
  add := BookDriver.add ndebug
  addLimit := BookDriver.addLimit
  cancel := BookDriver.cancel
  openOrders d := d.book.openOrders.toNat

/-- The id of the `n`-th submission in the queue book. -/
def serial (n : Nat) : OrderId := UInt64.ofNat n

theorem serial_toNat {n : Nat} (h : n < 2 ^ 64) : (serial n).toNat = n :=
  UInt64.toNat_ofNat_of_lt' h

theorem serial_succ (n : Nat) : serial n + 1 = serial (n + 1) := (UInt64.ofNat_add n 1).symm

theorem serial_ne_zero {n : Nat} (h : n + 1 < 2 ^ 64) : serial (n + 1) ≠ kInvalidOrderId := by
  intro he
  have := congrArg UInt64.toNat he
  rw [serial_toNat h] at this
  cases this

/-- A book after `n` submissions, its orders under serial ids. -/
structure Numbered (n : Nat) (b : QueueBook) : Prop where
  wf : b.WF
  issued : ∀ r ∈ b.resting, r.id.toNat ≤ n

namespace Numbered

variable {n : Nat} {b b' : QueueBook} {r : Resting}

theorem empty (capacity : UInt32) : Numbered 0 (QueueBook.new capacity) :=
  ⟨QueueBook.new_wf capacity, fun r hr => (by cases hr)⟩

theorem fresh (h : Numbered n b) (hn : n + 1 < 2 ^ 64) :
    ∀ r ∈ b.resting, r.id ≠ serial (n + 1) := by
  intro r hr he
  have := h.issued r hr
  rw [he, serial_toNat hn] at this
  omega

theorem congr (h : Numbered n b) (hb : b'.bids = b.bids) (ha : b'.asks = b.asks) :
    Numbered n b' := by
  have hq : ∀ s, b'.queue s = b.queue s := fun s => by
    rw [QueueBook.queue, QueueBook.queue, hb, ha]
  refine ⟨h.wf.shrinks fun s => hq s ▸ .refl _, fun r hr => h.issued r ?_⟩
  rwa [QueueBook.resting, hb, ha] at hr

theorem execute (h : Numbered n b) (hn : n + 1 < 2 ^ 64) (side : Side) (type : OrderType)
    (price : PriceTicks) (qty : Qty) :
    Numbered (n + 1) (b.execute (serial (n + 1)) side type price qty).1 := by
  refine ⟨h.wf.execute (h.fresh hn), fun r hr => ?_⟩
  obtain ⟨s, hs⟩ := QueueBook.mem_resting.mp hr
  rcases QueueBook.execute_queue s with hq | ⟨x, hid, _, _, _, _, _, hq⟩
  · obtain ⟨r₀, hr₀, hred⟩ := hq.mem hs
    rw [hred.id]
    exact Nat.le_succ_of_le (h.issued r₀ (QueueBook.mem_resting.mpr ⟨s, hr₀⟩))
  · rw [hq] at hs
    rcases mem_enqueue.mp hs with rfl | hs
    · rw [hid, serial_toNat hn]
    · exact Nat.le_succ_of_le (h.issued r (QueueBook.mem_resting.mpr ⟨s, hs⟩))

theorem rest (h : Numbered n b) (hn : n + 1 < 2 ^ 64) (hr : r.id = serial (n + 1)) :
    Numbered (n + 1) (b.rest r) := by
  refine ⟨h.wf.rest fun x hx => hr ▸ h.fresh hn x hx, fun x hx => ?_⟩
  rcases List.mem_cons.mp ((QueueBook.rest_perm b r).mem_iff.mp hx) with rfl | hx
  · rw [hr, serial_toNat hn]
  · exact Nat.le_succ_of_le (h.issued x hx)

theorem remove (h : Numbered n b) (hr : r ∈ b.resting) : Numbered n (b.remove r) := by
  refine ⟨h.wf.remove r, fun x hx => h.issued x ?_⟩
  rw [(QueueBook.resting_remove h.wf hr).mem_iff]
  exact List.mem_cons_of_mem r hx

end Numbered

/-- The names after submission `n + 1` was given the id `id`. -/
structure Named (n : Nat) (ρ : OrderId → OrderId) (id : OrderId) (ρ' : OrderId → OrderId) :
    Prop where
  new : ρ' (serial (n + 1)) = id
  old : ∀ x : OrderId, x.toNat ≤ n → ρ' x = ρ x

theorem exists_named {n : Nat} (hn : n + 1 < 2 ^ 64) (ρ : OrderId → OrderId) (id : OrderId) :
    ∃ ρ', Named n ρ id ρ' := by
  refine ⟨fun x => if x = serial (n + 1) then id else ρ x, if_pos rfl, fun x hx => if_neg ?_⟩
  rintro rfl
  rw [serial_toNat hn] at hx
  omega

/-- The driver plays the queue book: `Rep capacity n ρ d b` says that after `n` submissions
the book of `d` holds the orders of `b` under the names `ρ`. -/
structure Driver.Plays {σ : Type} (D : Driver σ)
    (Rep : Nat → Nat → (OrderId → OrderId) → σ → QueueBook → Prop) : Prop where
  make : ∀ {capacity}, capacity < 2 ^ 31 →
    ∃ d, D.make capacity = .ok d ∧ Rep capacity 0 id d (QueueBook.new 0)
  numbered : ∀ {capacity n ρ d b}, Rep capacity n ρ d b → Numbered n b
  congr : ∀ {capacity n ρ d b b'}, Rep capacity n ρ d b → b'.bids = b.bids → b'.asks = b.asks →
    Rep capacity n ρ d b'
  add : ∀ {capacity n ρ d b} (side : Side) {type : OrderType} {price : PriceTicks} {qty : Qty},
    Rep capacity n ρ d b → b.Uncrossed → n + 1 < 2 ^ 64 → b.resting.length < capacity →
    QueueBook.refusal type price qty = none →
    ∃ id d' ρ', D.add d side type price qty =
        .ok (id, (b.execute (serial (n + 1)) side type price qty).2.map (Event.rename ρ'), d') ∧
      Named n ρ id ρ' ∧
      Rep capacity (n + 1) ρ' d' (b.execute (serial (n + 1)) side type price qty).1
  addLimit : ∀ {capacity n ρ d b} (side : Side) {price : PriceTicks} {qty : Qty},
    Rep capacity n ρ d b → n + 1 < 2 ^ 64 → b.resting.length < capacity →
    ¬ (qty = 0 ∨ price ≤ 0) →
    ∃ id d' ρ', D.addLimit d side price qty = .ok (id, d') ∧ Named n ρ id ρ' ∧
      Rep capacity (n + 1) ρ' d'
        (b.rest { id := serial (n + 1), price, qty, remaining := qty, side })
  cancel : ∀ {capacity n ρ d b r}, Rep capacity n ρ d b → r ∈ b.resting →
    ∃ d', D.cancel d (ρ r.id) = .ok (true, d') ∧ Rep capacity n ρ d' (b.remove r)
  openOrders : ∀ {capacity n ρ d b}, Rep capacity n ρ d b → D.openOrders d = b.resting.length

structure NaiveDriver.Rep (capacity n : Nat) (ρ : OrderId → OrderId) (d : NaiveDriver)
    (b : QueueBook) : Prop where
  numbered : Numbered n b
  nextId : d.nextId = serial (n + 1)
  names : ∀ x : OrderId, x.toNat ≤ n → ρ x = x
  book : NaiveRep d.book b

theorem QueueBook.cancel_resting {b : QueueBook} (hw : b.WF) {r : Resting} (hr : r ∈ b.resting) :
    b.cancel r.id =
      (true, b.remove r, [makeEvent .kCanceled r.side .kNone r.remaining 0 r.price r.id]) := by
  rw [QueueBook.cancel, (find_iff hw).mpr ⟨hr, rfl⟩]

/-- The reference book keeps the serial ids. -/
theorem naiveDriver_plays : naiveDriver.Plays NaiveDriver.Rep where
  make _ := ⟨{}, rfl, .empty 0, rfl, fun _ _ => rfl, NaiveRep.empty 0⟩
  numbered h := h.numbered
  congr h hb ha := ⟨h.numbered.congr hb ha, h.nextId, h.names, h.book.congr hb ha⟩
  add := by
    intro capacity n ρ d b side type price qty h _ hn _ hr
    have hnew := h.numbered.execute hn side type price qty
    obtain ⟨book, hrun, hrep⟩ := h.book.add_admitted (serial_ne_zero hn) (h.numbered.fresh hn) side
      h.numbered.wf hr
    refine ⟨serial (n + 1), {
        book := book
        events := (b.execute (serial (n + 1)) side type price qty).2
        nextId := serial (n + 1) + 1 },
      id, ?_, ⟨rfl, fun x hx => (h.names x hx).symm⟩, hnew, serial_succ _, fun _ _ => rfl, hrep⟩
    have hid : Event.rename id = id := rfl
    simp only [naiveDriver, NaiveDriver.add, h.nextId, hrun, ok_bind, hid, List.map_id]
    rfl
  addLimit := by
    intro capacity n ρ d b side price qty h hn _ hr
    obtain ⟨book, hrun, hrep⟩ := h.book.addLimit_admitted (serial_ne_zero hn)
      (h.numbered.fresh hn) side h.numbered.wf hr
    refine ⟨serial (n + 1), {
        book := book
        events := [makeEvent .kAccepted side .kNone qty qty price (serial (n + 1))]
        nextId := serial (n + 1) + 1 },
      id, ?_, ⟨rfl, fun x hx => (h.names x hx).symm⟩, h.numbered.rest hn rfl, serial_succ _,
      fun _ _ => rfl, hrep⟩
    simp only [naiveDriver, NaiveDriver.addLimit, h.nextId, hrun, ok_bind]
    rfl
  cancel := by
    intro capacity n ρ d b r h hr
    obtain ⟨book, hrun, hrep⟩ := h.book.cancel_rep h.numbered.wf r.id
    rw [QueueBook.cancel_resting h.numbered.wf hr] at hrun hrep
    refine ⟨{ d with
        book := book
        events := [makeEvent .kCanceled r.side .kNone r.remaining 0 r.price r.id] },
      ?_, h.numbered.remove hr, h.nextId, h.names, hrep⟩
    rw [h.names r.id (h.numbered.issued r hr)]
    simp only [naiveDriver, NaiveDriver.cancel, hrun, ok_bind]
    rfl
  openOrders h := h.book.openOrders_rep

def benchConfig (capacity : Nat) : EngineConfig where
  anchorPrice := kMid
  bandRadius := kDefaultBandRadius
  poolCapacity := UInt32.ofNat capacity

structure BookDriver.Rep (capacity n : Nat) (ρ : OrderId → OrderId) (d : BookDriver)
    (b : QueueBook) : Prop where
  numbered : Numbered n b
  small : capacity < 2 ^ 31
  book : ∃ b₀, BookRep (benchConfig capacity) d.book b₀ [] ∧ b.Renamed ρ b₀

namespace BookDriver

variable {capacity n : Nat} {ρ : OrderId → OrderId} {d : BookDriver} {b b₀ : QueueBook}

theorem benchConfig_capacity (h : capacity < 2 ^ 31) :
    (benchConfig capacity).poolCapacity.toNat = capacity :=
  UInt32.toNat_ofNat_of_lt' (lt_trans h (by decide))

theorem benchConfig_valid (h : capacity < 2 ^ 31) : (benchConfig capacity).Valid where
  anchor := show 0 < kMid.toInt by decide
  radius := show 0 < kDefaultBandRadius.toNat ∧ kDefaultBandRadius.toNat ≤ 2 ^ 24 by decide
  high := show kMid.toInt + kDefaultBandRadius.toNat + 1 ≤ 2 ^ 63 - 1 by decide
  capacity := by
    rw [benchConfig_capacity h]
    exact Nat.le_sub_one_of_lt h

theorem mint_named (hrep : BookRep (benchConfig capacity) d.book b₀ []) (hren : b.Renamed ρ b₀)
    (hsmall : capacity < 2 ^ 31) (hnum : Numbered n b) (hn : n + 1 < 2 ^ 64)
    (hroom : b.resting.length < capacity) :
    ∃ id b₁ ρ', b₀.mint = some (id, b₁) ∧ Named n ρ id ρ' ∧ b.Renamed ρ' b₁ := by
  cases hm : b₀.mint with
  | none =>
    have hfull := congrArg UInt32.toNat ((mint_none_iff hrep).mp hm)
    rw [hrep.openOrders_rep, benchConfig_capacity hsmall, hren.resting, List.length_map] at hfull
    omega
  | some x =>
    obtain ⟨id, b₁⟩ := x
    obtain ⟨ρ', hnamed⟩ := exists_named hn ρ id
    obtain ⟨_, _, hbids, hasks, _⟩ := mint_some hrep hm
    have hren' := hren.congr fun r hr => hnamed.old r.id (hnum.issued r hr)
    exact ⟨id, b₁, ρ', rfl, hnamed, hbids.trans hren'.bids, hasks.trans hren'.asks⟩

end BookDriver

/-- The optimized book plays the same book under the ids it mints. -/
theorem bookDriver_plays (ndebug : Bool) : (bookDriver ndebug).Plays BookDriver.Rep where
  make := by
    intro capacity hsmall
    obtain ⟨book, hnew, hrep⟩ := BookRep.new_rep (BookDriver.benchConfig_valid hsmall)
    refine ⟨{ book }, ?_, .empty 0, hsmall, _, hrep, rfl, rfl⟩
    exact bind_eq_ok.mpr ⟨book, hnew, rfl⟩
  numbered h := h.numbered
  congr h hb ha := by
    obtain ⟨b₀, hrep, hren⟩ := h.book
    exact ⟨h.numbered.congr hb ha, h.small, b₀, hrep, by rw [hb]; exact hren.bids,
      by rw [ha]; exact hren.asks⟩
  add := by
    intro capacity n ρ d b side type price qty h hu hn hroom hr
    obtain ⟨b₀, hrep, hren⟩ := h.book
    obtain ⟨id, b₁, ρ', hm, hnamed, hren'⟩ :=
      BookDriver.mint_named hrep hren h.small h.numbered hn hroom
    obtain ⟨book, hstep, hrep', _⟩ :=
      hrep.step_debug (hren.uncrossed hu)
        (show (BookOp.add side type price qty).Matched from trivial) ndebug
    obtain ⟨⟨id', book', events⟩, hadd, he⟩ := bind_eq_ok.mp hstep
    obtain ⟨hevents, hexec⟩ := hren'.execute (serial (n + 1)) side type price qty
    rw [hnamed.new] at hevents hexec
    simp only [QueueBook.step, QueueBook.add, hr, hm] at he hrep'
    cases he
    refine ⟨id, { book }, ρ', ?_, hnamed, h.numbered.execute hn side type price qty, h.small, _,
      hrep', hexec⟩
    rw [← hevents]
    exact bind_eq_ok.mpr ⟨_, hadd, rfl⟩
  addLimit := by
    intro capacity n ρ d b side price qty h hn hroom hr
    obtain ⟨b₀, hrep, hren⟩ := h.book
    obtain ⟨id, b₁, ρ', hm, hnamed, hren'⟩ :=
      BookDriver.mint_named hrep hren h.small h.numbered hn hroom
    obtain ⟨book, hadd, hrep'⟩ := hrep.addLimit_rep side price qty
    have hrest := hren'.rest { id := serial (n + 1), price, qty, remaining := qty, side }
    simp only [QueueBook.addLimit, if_neg hr, hm] at hadd hrep'
    rw [Resting.rename, hnamed.new] at hrest
    exact ⟨id, { book }, ρ', bind_eq_ok.mpr ⟨_, hadd, rfl⟩, hnamed, h.numbered.rest hn rfl, h.small,
      _, hrep', hrest⟩
  cancel := by
    intro capacity n ρ d b r h hr
    obtain ⟨b₀, hrep, hren⟩ := h.book
    obtain ⟨book, hcancel, hrep'⟩ := hrep.cancel_rep (ρ r.id)
    have hfound := QueueBook.cancel_resting hrep.wf (hren.mem hr)
    rw [show (r.rename ρ).id = ρ r.id from rfl] at hfound
    rw [hfound] at hcancel hrep'
    exact ⟨{ book }, bind_eq_ok.mpr ⟨_, hcancel, rfl⟩, h.numbered.remove hr, h.small, _, hrep',
      hren.remove hrep.wf.ids hr⟩
  openOrders h := by
    obtain ⟨b₀, hrep, hren⟩ := h.book
    have hopen := hrep.openOrders_rep
    rwa [hren.resting, List.length_map] at hopen

end LimitOrderBook
