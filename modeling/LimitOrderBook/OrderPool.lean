import LimitOrderBook.Types
import LimitOrderBook.Lib.IntrusiveList

/-!
`order_pool.h`: a slab of orders with a free list threaded through `next_idx`.
An order id is a slot index below the generation of that slot.
-/

set_option autoImplicit false

namespace LimitOrderBook
open Checked IntrusiveList

def kNullIdx : Int32 := -1

def makeOrderId (generation index : UInt32) : OrderId :=
  (generation.toUInt64 <<< 32) ||| index.toUInt64

def indexOf (id : OrderId) : UInt32 := id.toUInt32

def generationOf (id : OrderId) : UInt32 := (id >>> 32).toUInt32

theorem makeOrderId_toNat (g i : UInt32) :
    (makeOrderId g i).toNat = g.toNat * 2 ^ 32 + i.toNat := by
  have hg := g.toNat_lt
  have hi := i.toNat_lt
  have h : (g.toUInt64 <<< 32).toNat = g.toNat <<< 32 := by
    simp [UInt64.toNat_shiftLeft, Nat.shiftLeft_eq]; omega
  rw [makeOrderId, UInt64.toNat_or, h, UInt32.toNat_toUInt64, ← Nat.shiftLeft_add_eq_or_of_lt hi,
    Nat.shiftLeft_eq]

theorem indexOf_toNat (id : OrderId) : (indexOf id).toNat = id.toNat % 2 ^ 32 := by
  simp [indexOf]

theorem generationOf_toNat (id : OrderId) : (generationOf id).toNat = id.toNat / 2 ^ 32 := by
  have := id.toNat_lt
  simp [generationOf, Nat.shiftRight_eq_div_pow]
  omega

@[simp] theorem indexOf_makeOrderId (g i : UInt32) : indexOf (makeOrderId g i) = i := by
  have hi := i.toNat_lt
  apply UInt32.toNat_inj.mp
  rw [indexOf_toNat, makeOrderId_toNat]
  omega

@[simp] theorem generationOf_makeOrderId (g i : UInt32) : generationOf (makeOrderId g i) = g := by
  have hi := i.toNat_lt
  apply UInt32.toNat_inj.mp
  rw [generationOf_toNat, makeOrderId_toNat]
  omega

theorem makeOrderId_ne_invalid {g : UInt32} (hg : g ≠ 0) (i : UInt32) :
    makeOrderId g i ≠ kInvalidOrderId := by
  intro h
  have := congrArg generationOf h
  rw [generationOf_makeOrderId] at this
  exact hg (this.trans (by decide))

/-- One slot of the slab. `vector<Order>(n)` zeroes every field. The tail padding
of the cache line is left out: nothing reads it. -/
structure Order where
  orderId : OrderId := 0
  priceTicks : PriceTicks := 0
  qty : Qty := 0
  remaining : Qty := 0
  side : Side := ⟨0⟩
  type : OrderType := ⟨0⟩
  flags : UInt16 := 0
  prevIdx : Int32 := 0
  nextIdx : Int32 := 0
  levelIdx : Int32 := 0
  generation : UInt32 := 0
  deriving DecidableEq, Repr

def Order.relinked (prevIdx nextIdx levelIdx : Int32) (o : Order) : Order :=
  { o with prevIdx, nextIdx, levelIdx }

namespace Order

def setPrevIdx (x : Int32) (o : Order) : Order := o.relinked x o.nextIdx o.levelIdx
def setNextIdx (x : Int32) (o : Order) : Order := o.relinked o.prevIdx x o.levelIdx
def setLevelIdx (x : Int32) (o : Order) : Order := o.relinked o.prevIdx o.nextIdx x

variable (a b c x : Int32) (o : Order)

@[simp] theorem relinked_prevIdx : (o.relinked a b c).prevIdx = a := rfl
@[simp] theorem relinked_nextIdx : (o.relinked a b c).nextIdx = b := rfl
@[simp] theorem relinked_levelIdx : (o.relinked a b c).levelIdx = c := rfl
@[simp] theorem relinked_orderId : (o.relinked a b c).orderId = o.orderId := rfl
@[simp] theorem relinked_priceTicks : (o.relinked a b c).priceTicks = o.priceTicks := rfl
@[simp] theorem relinked_qty : (o.relinked a b c).qty = o.qty := rfl
@[simp] theorem relinked_remaining : (o.relinked a b c).remaining = o.remaining := rfl
@[simp] theorem relinked_side : (o.relinked a b c).side = o.side := rfl
@[simp] theorem relinked_generation : (o.relinked a b c).generation = o.generation := rfl
@[simp] theorem relinked_flags : (o.relinked a b c).flags = o.flags := rfl
@[simp] theorem relinked_self : o.relinked o.prevIdx o.nextIdx o.levelIdx = o := rfl
@[simp] theorem relinked_relinked (a' b' c' : Int32) :
    (o.relinked a b c).relinked a' b' c' = o.relinked a' b' c' := rfl

end Order

structure OrderPool where
  slots : Array Order
  freeHead : Int32
  liveCount : UInt32
  deriving DecidableEq, Repr

namespace OrderPool

/-- The constructor: the free list visits the slots in index order. -/
def new (capacity : UInt32) : Exec OrderPool := do
  assert (capacity.toNat ≤ 2 ^ 31 - 1) "capacity <= numeric_limits<int32_t>::max()"
  let thread (i : Nat) : Order :=
    { nextIdx := if i + 1 < capacity.toNat then (UInt32.ofNat (i + 1)).toInt32 else kNullIdx }
  pure {
    slots := ((List.range capacity.toNat).map thread).toArray
    freeHead := if 0 < capacity then 0 else kNullIdx
    liveCount := 0 }

/-- The content of a slot, for indices known to be in range. -/
def slot (p : OrderPool) (i : UInt32) : Order := p.slots.getD i.toNat {}

/-- `operator[]`. -/
def get (p : OrderPool) (i : UInt32) : Exec Order :=
  if i.toNat < p.slots.size then .ok (p.slot i) else .error .outOfBounds

/-- Assignment through the reference `operator[]` returned. -/
def set (p : OrderPool) (i : UInt32) (o : Order) : OrderPool :=
  { p with slots := p.slots.setIfInBounds i.toNat o }

def modify (p : OrderPool) (i : UInt32) (f : Order → Order) : Exec OrderPool := do
  let o ← p.get i
  pure (p.set i (f o))

/-- `if (x != kNullIdx) pool[x] = ...`. -/
def modifyLink (p : OrderPool) (x : Int32) (f : Order → Order) : Exec OrderPool :=
  if x = kNullIdx then pure p else p.modify x.toUInt32 f

/-- The next generation of a slot, skipping 0 on wrap. -/
def bump (generation : UInt32) : UInt32 :=
  if generation = 0xFFFFFFFF then 1 else generation + 1

def alloc (p : OrderPool) : Exec (OrderId × OrderPool) := do
  if p.freeHead = kNullIdx then
    pure (kInvalidOrderId, p)
  else
    let index := p.freeHead.toUInt32
    let slot ← p.get index
    let generation := bump slot.generation
    let id := makeOrderId generation index
    let p := p.set index { slot with
      generation, orderId := id, prevIdx := kNullIdx, nextIdx := kNullIdx, levelIdx := kNullIdx }
    pure (id, { p with freeHead := slot.nextIdx, liveCount := p.liveCount + 1 })

def free (p : OrderPool) (index : UInt32) : Exec OrderPool := do
  assert (index.toNat < p.slots.size) "index < slots_.size()"
  let slot ← p.get index
  assert (slot.orderId ≠ kInvalidOrderId) "freeing a slot that is not live"
  let p := p.set index { slot with orderId := kInvalidOrderId, nextIdx := p.freeHead }
  pure { p with freeHead := index.toInt32, liveCount := p.liveCount - 1 }

/-- `find`; the null pointer is `none`. -/
def find (p : OrderPool) (id : OrderId) : Option Order :=
  let index := indexOf id
  if id = kInvalidOrderId ∨ p.slots.size ≤ index.toNat then none
  else if (p.slot index).orderId = id then some (p.slot index) else none

def capacity (p : OrderPool) : UInt32 := UInt32.ofNat p.slots.size

theorem get_ok {p : OrderPool} {i : UInt32} (h : i.toNat < p.slots.size) :
    p.get i = .ok (p.slot i) := if_pos h

theorem modify_ok {p : OrderPool} {i : UInt32} (h : i.toNat < p.slots.size)
    (f : Order → Order) : p.modify i f = .ok (p.set i (f (p.slot i))) := by
  simp [modify, get_ok h]

@[simp] theorem set_size (p : OrderPool) (i : UInt32) (o : Order) :
    (p.set i o).slots.size = p.slots.size := by simp [set]

@[simp] theorem set_freeHead (p : OrderPool) (i : UInt32) (o : Order) :
    (p.set i o).freeHead = p.freeHead := rfl

@[simp] theorem set_liveCount (p : OrderPool) (i : UInt32) (o : Order) :
    (p.set i o).liveCount = p.liveCount := rfl

theorem slot_set {p : OrderPool} {i : UInt32} (h : i.toNat < p.slots.size) (o : Order)
    (j : UInt32) : (p.set i o).slot j = if j = i then o else p.slot j := by
  unfold slot set
  by_cases hj : j = i
  · subst hj
    simp [h]
  · have hne : i.toNat ≠ j.toNat := fun e => hj (UInt32.toNat_inj.mp e.symm)
    simp [Array.getElem?_setIfInBounds_ne hne, hj]

/-- The slot a link names. -/
def deref (x : Int32) : Option UInt32 := if x = kNullIdx then none else some x.toUInt32

theorem deref_null : deref kNullIdx = none := rfl

theorem deref_toInt32 {i : UInt32} (h : i.toNat < 2 ^ 31) : deref i.toInt32 = some i := by
  have hne : i.toInt32 ≠ kNullIdx := toUInt32_ne_neg_one h
  simp [deref, hne]

theorem deref_eq_none {x : Int32} : deref x = none ↔ x = kNullIdx := by
  unfold deref; split <;> simp_all

theorem deref_eq_some {x : Int32} {i : UInt32} (h : deref x = some i) :
    x ≠ kNullIdx ∧ x.toUInt32 = i := by
  unfold deref at h; split at h
  · cases h
  · exact ⟨‹_›, Option.some.inj h⟩

theorem deref_inj {x y : Int32} (h : deref x = deref y) : x = y := by
  cases hx : deref x with
  | none =>
    have hy : deref y = none := h.symm.trans hx
    rw [deref_eq_none.mp hx, deref_eq_none.mp hy]
  | some i =>
    have hy : deref y = some i := h.symm.trans hx
    have he := (deref_eq_some hx).2.trans (deref_eq_some hy).2.symm
    exact congrArg UInt32.toInt32 he

def next (p : OrderPool) (i : UInt32) : Option UInt32 := deref (p.slot i).nextIdx
def prev (p : OrderPool) (i : UInt32) : Option UInt32 := deref (p.slot i).prevIdx

def Live (p : OrderPool) (i : UInt32) : Prop :=
  i.toNat < p.slots.size ∧ (p.slot i).orderId ≠ kInvalidOrderId

/-- `F` is the free list: it holds every slot that is not live. -/
structure Inv (p : OrderPool) (F : List UInt32) : Prop where
  size : p.slots.size < 2 ^ 31
  chain : Chain p.next (deref p.freeHead) F
  nodup : F.Nodup
  mem : ∀ i, i ∈ F ↔ i.toNat < p.slots.size ∧ (p.slot i).orderId = kInvalidOrderId
  ids : ∀ i, p.Live i → (p.slot i).orderId = makeOrderId (p.slot i).generation i
  live : p.liveCount.toNat + F.length = p.slots.size

variable {p : OrderPool} {F : List UInt32}

theorem Inv.not_live (h : p.Inv F) {i : UInt32} (hi : i ∈ F) : ¬ p.Live i :=
  fun hl => hl.2 ((h.mem i).mp hi).2

theorem Inv.mem_or_live (h : p.Inv F) {i : UInt32} (hi : i.toNat < p.slots.size) :
    i ∈ F ∨ p.Live i := by
  by_cases hz : (p.slot i).orderId = kInvalidOrderId
  · exact .inl ((h.mem i).mpr ⟨hi, hz⟩)
  · exact .inr ⟨hi, hz⟩

theorem Inv.idx_lt (h : p.Inv F) {i : UInt32} (hi : i.toNat < p.slots.size) :
    i.toNat < 2 ^ 31 := lt_trans hi h.size

theorem Inv.congr {q : OrderPool} (h : p.Inv F) (hsize : q.slots.size = p.slots.size)
    (hhead : q.freeHead = p.freeHead) (hlive : q.liveCount = p.liveCount)
    (hid : ∀ i, (q.slot i).orderId = (p.slot i).orderId)
    (hgen : ∀ i, (q.slot i).generation = (p.slot i).generation)
    (hnext : ∀ i ∈ F, (q.slot i).nextIdx = (p.slot i).nextIdx) : q.Inv F where
  size := hsize ▸ h.size
  chain := by
    rw [hhead]
    exact h.chain.congr (fun i hi => by rw [next, next, hnext i hi])
  nodup := h.nodup
  mem i := by rw [hsize, hid, h.mem]
  ids i hi := by
    rw [hid, hgen]
    exact h.ids i ⟨hsize ▸ hi.1, hid i ▸ hi.2⟩
  live := by rw [hlive, hsize, h.live]

theorem bump_ne_zero (g : UInt32) : bump g ≠ 0 := by
  unfold bump
  split
  · decide
  · rename_i h
    intro e
    apply h
    have : g = 0 - 1 := by rw [← e]; simp
    rw [this]
    decide

theorem alloc_empty (h : p.Inv []) : p.alloc = .ok (kInvalidOrderId, p) := by
  have hh : p.freeHead = kNullIdx := deref_eq_none.mp h.chain
  simp [alloc, hh]

/-- What a successful `alloc` leaves in the slot it took. -/
def taken (p : OrderPool) (i : UInt32) : Order :=
  { p.slot i with
    generation := bump (p.slot i).generation
    orderId := makeOrderId (bump (p.slot i).generation) i
    prevIdx := kNullIdx, nextIdx := kNullIdx, levelIdx := kNullIdx }

/-- The pool after `alloc` took slot `i`. -/
def take (p : OrderPool) (i : UInt32) : OrderPool :=
  { p.set i (p.taken i) with freeHead := (p.slot i).nextIdx, liveCount := p.liveCount + 1 }

/-- The pool after `free` released slot `i`. -/
def release (p : OrderPool) (i : UInt32) : OrderPool :=
  { p.set i { p.slot i with orderId := kInvalidOrderId, nextIdx := p.freeHead } with
    freeHead := i.toInt32, liveCount := p.liveCount - 1 }

@[simp] theorem take_size (p : OrderPool) (i : UInt32) : (p.take i).slots.size = p.slots.size :=
  set_size p i _

@[simp] theorem release_size (p : OrderPool) (i : UInt32) :
    (p.release i).slots.size = p.slots.size := set_size p i _

theorem slot_take {i : UInt32} (h : i.toNat < p.slots.size) (j : UInt32) :
    (p.take i).slot j = if j = i then p.taken i else p.slot j := slot_set h _ j

theorem slot_release {i : UInt32} (h : i.toNat < p.slots.size) (j : UInt32) :
    (p.release i).slot j =
      if j = i then { p.slot i with orderId := kInvalidOrderId, nextIdx := p.freeHead }
      else p.slot j := slot_set h _ j

theorem alloc_cons {i : UInt32} (h : p.Inv (i :: F)) :
    p.alloc = .ok (makeOrderId (bump (p.slot i).generation) i, p.take i) := by
  have hi := ((h.mem i).mp (by simp)).1
  obtain ⟨hne, hidx⟩ := deref_eq_some h.chain.1
  simp [alloc, hne, hidx, get_ok hi, take, taken]

theorem Inv.live_lt {i : UInt32} (h : p.Inv (i :: F)) :
    p.liveCount.toNat + 1 < 2 ^ 32 := by
  have h₁ := h.live
  have h₂ := h.size
  simp only [List.length_cons] at h₁
  omega

theorem Inv.take {i : UInt32} (h : p.Inv (i :: F)) : (p.take i).Inv F := by
  obtain ⟨hi, hz⟩ := (h.mem i).mp (by simp)
  have hF := List.nodup_cons.mp h.nodup
  have hne : ∀ j ∈ F, j ≠ i := fun j hj e => hF.1 (e ▸ hj)
  refine ⟨by simpa using h.size, ?_, hF.2, fun j => ?_, fun j hj => ?_, ?_⟩
  · have hc := h.chain.2
    refine hc.congr (fun j hj => ?_)
    rw [next, next, slot_take hi, if_neg (hne j hj)]
  · rw [take_size, slot_take hi]
    by_cases hj : j = i
    · subst hj
      simp only [if_true]
      exact ⟨fun hm => absurd hm hF.1,
        fun hm => absurd hm.2 (makeOrderId_ne_invalid (bump_ne_zero _) j)⟩
    · rw [if_neg hj, ← h.mem j]
      simp [hj]
  · rw [slot_take hi]
    by_cases hji : j = i
    · rw [if_pos hji, hji]
      rfl
    · rw [if_neg hji]
      rw [Live, take_size, slot_take hi, if_neg hji] at hj
      exact h.ids j hj
  · have h₁ := h.live
    have h₂ := h.live_lt
    rw [take_size, OrderPool.take]
    simp only [UInt32.toNat_add, UInt32.toNat_one, List.length_cons] at *
    omega

theorem free_ok {i : UInt32} (hl : p.Live i) : p.free i = .ok (p.release i) := by
  simp [free, hl.1, get_ok hl.1, hl.2, release]

theorem Inv.live_pos {i : UInt32} (h : p.Inv F) (hl : p.Live i) : 0 < p.liveCount.toNat := by
  by_contra hz
  have h₁ := h.live
  have hsub : F ⊆ (List.range p.slots.size).map UInt32.ofNat := by
    intro j hj
    have hjs := ((h.mem j).mp hj).1
    exact List.mem_map.mpr ⟨j.toNat, List.mem_range.mpr hjs, UInt32.ofNat_toNat⟩
  have hperm : F.Perm ((List.range p.slots.size).map UInt32.ofNat) :=
    (h.nodup.subperm hsub).perm_of_length_le (by simp; omega)
  have hmem : i ∈ F := hperm.mem_iff.mpr
    (List.mem_map.mpr ⟨i.toNat, List.mem_range.mpr hl.1, UInt32.ofNat_toNat⟩)
  exact h.not_live hmem hl

theorem Inv.release {i : UInt32} (h : p.Inv F) (hl : p.Live i) : (p.release i).Inv (i :: F) := by
  have hiF : i ∉ F := fun hm => h.not_live hm hl
  refine ⟨by simpa using h.size, ⟨deref_toInt32 (h.idx_lt hl.1), ?_⟩,
    List.nodup_cons.mpr ⟨hiF, h.nodup⟩, fun j => ?_, fun j hj => ?_, ?_⟩
  · rw [next, slot_release hl.1, if_pos rfl]
    refine h.chain.congr (fun j hj => ?_)
    have hne : j ≠ i := fun e => hiF (e ▸ hj)
    rw [next, next, slot_release hl.1, if_neg hne]
  · rw [release_size, slot_release hl.1, List.mem_cons]
    by_cases hji : j = i
    · subst hji
      simp [hl.1]
    · rw [if_neg hji, ← h.mem j]
      simp [hji]
  · rw [Live, release_size, slot_release hl.1] at hj
    rw [slot_release hl.1]
    by_cases hji : j = i
    · rw [if_pos hji] at hj
      exact absurd rfl hj.2
    · rw [if_neg hji] at hj ⊢
      exact h.ids j hj
  · have h₁ := h.live
    have h₂ := h.live_pos hl
    rw [release_size, OrderPool.release]
    have hle : (1 : UInt32) ≤ p.liveCount :=
      UInt32.le_iff_toNat_le.mpr (by rw [UInt32.toNat_one]; omega)
    simp only [List.length_cons, UInt32.toNat_sub_of_le _ _ hle, UInt32.toNat_one]
    omega

/-- From `p` to `q` only links were written, and only those of the touched slots. -/
structure Relinks (p q : OrderPool) (touched : UInt32 → Prop) : Prop where
  size : q.slots.size = p.slots.size
  freeHead : q.freeHead = p.freeHead
  liveCount : q.liveCount = p.liveCount
  slot : ∀ j, ∃ a b c, q.slot j = (p.slot j).relinked a b c
  other : ∀ j, ¬ touched j → q.slot j = p.slot j

namespace Relinks

variable {q r : OrderPool} {touched : UInt32 → Prop}

theorem refl (p : OrderPool) (touched : UInt32 → Prop) : Relinks p p touched :=
  ⟨rfl, rfl, rfl, fun _ => ⟨_, _, _, rfl⟩, fun _ _ => rfl⟩

theorem trans (h₁ : Relinks p q touched) (h₂ : Relinks q r touched) : Relinks p r touched := by
  refine ⟨h₂.size.trans h₁.size, h₂.freeHead.trans h₁.freeHead,
    h₂.liveCount.trans h₁.liveCount, fun j => ?_,
    fun j hj => (h₂.other j hj).trans (h₁.other j hj)⟩
  obtain ⟨a, b, c, h⟩ := h₁.slot j
  obtain ⟨a', b', c', h'⟩ := h₂.slot j
  exact ⟨a', b', c', by rw [h', h, Order.relinked_relinked]⟩

theorem mono {touched' : UInt32 → Prop} (h : Relinks p q touched)
    (ht : ∀ j, touched j → touched' j) : Relinks p q touched' :=
  ⟨h.size, h.freeHead, h.liveCount, h.slot, fun j hj => h.other j (fun e => hj (ht j e))⟩

theorem modify {i : UInt32} (hi : i.toNat < p.slots.size) (ht : touched i) (f : Order → Order)
    (hf : ∀ o, ∃ a b c, f o = o.relinked a b c) :
    ∃ q, p.modify i f = .ok q ∧ Relinks p q touched ∧
      ∀ j, q.slot j = if j = i then f (p.slot i) else p.slot j := by
  refine ⟨_, modify_ok hi f, ⟨set_size p i _, rfl, rfl, fun j => ?_, fun j hj => ?_⟩,
    fun j => slot_set hi _ j⟩
  · rw [slot_set hi]
    by_cases hji : j = i
    · rw [if_pos hji, hji]
      exact hf _
    · exact ⟨_, _, _, by rw [if_neg hji, Order.relinked_self]⟩
  · have hne : j ≠ i := fun e => hj (e ▸ ht)
    rw [slot_set hi, if_neg hne]

theorem modifyLink {x : Int32} (hx : ∀ i, deref x = some i → i.toNat < p.slots.size)
    (ht : ∀ i, deref x = some i → touched i) {f : Order → Order}
    (hf : ∀ o, ∃ a b c, f o = o.relinked a b c) :
    ∃ q, p.modifyLink x f = .ok q ∧ Relinks p q touched ∧
      ∀ j, q.slot j = if deref x = some j then f (p.slot j) else p.slot j := by
  cases hd : deref x with
  | none =>
    have hn := deref_eq_none.mp hd
    exact ⟨p, by simp [OrderPool.modifyLink, hn], refl p touched, fun j => by simp⟩
  | some i =>
    obtain ⟨hn, hi⟩ := deref_eq_some hd
    obtain ⟨q, hrun, hre, hs⟩ := modify (hx i hd) (ht i hd) f hf
    refine ⟨q, by simp [OrderPool.modifyLink, hn, hi, hrun], hre, fun j => ?_⟩
    rw [hs]
    by_cases hj : j = i
    · simp [hj]
    · simp [hj, Ne.symm hj]

theorem orderId (h : Relinks p q touched) (j : UInt32) :
    (q.slot j).orderId = (p.slot j).orderId := by
  obtain ⟨a, b, c, e⟩ := h.slot j; simp [e]

theorem priceTicks (h : Relinks p q touched) (j : UInt32) :
    (q.slot j).priceTicks = (p.slot j).priceTicks := by
  obtain ⟨a, b, c, e⟩ := h.slot j; simp [e]

theorem qty (h : Relinks p q touched) (j : UInt32) : (q.slot j).qty = (p.slot j).qty := by
  obtain ⟨a, b, c, e⟩ := h.slot j; simp [e]

theorem remaining (h : Relinks p q touched) (j : UInt32) :
    (q.slot j).remaining = (p.slot j).remaining := by
  obtain ⟨a, b, c, e⟩ := h.slot j; simp [e]

theorem side (h : Relinks p q touched) (j : UInt32) : (q.slot j).side = (p.slot j).side := by
  obtain ⟨a, b, c, e⟩ := h.slot j; simp [e]

theorem generation (h : Relinks p q touched) (j : UInt32) :
    (q.slot j).generation = (p.slot j).generation := by
  obtain ⟨a, b, c, e⟩ := h.slot j; simp [e]

theorem flags (h : Relinks p q touched) (j : UInt32) : (q.slot j).flags = (p.slot j).flags := by
  obtain ⟨a, b, c, e⟩ := h.slot j; simp [e]

theorem live (h : Relinks p q touched) {j : UInt32} : q.Live j ↔ p.Live j := by
  rw [Live, Live, h.size, h.orderId]

end Relinks

theorem find_eq_some {id : OrderId} {o : Order} :
    p.find id = some o ↔
      p.Live (indexOf id) ∧ (p.slot (indexOf id)).orderId = id ∧ p.slot (indexOf id) = o := by
  unfold find Live
  by_cases hid : id = kInvalidOrderId
  · rw [if_pos (.inl hid)]
    constructor
    · intro e; cases e
    · rintro ⟨⟨_, hne⟩, he, _⟩
      exact absurd (he.trans hid) hne
  · by_cases hs : p.slots.size ≤ (indexOf id).toNat
    · rw [if_pos (.inr hs)]
      constructor
      · intro e; cases e
      · rintro ⟨⟨hlt, _⟩, _⟩
        omega
    · rw [if_neg (not_or.mpr ⟨hid, hs⟩)]
      by_cases he : (p.slot (indexOf id)).orderId = id
      · rw [if_pos he, Option.some.injEq]
        exact ⟨fun ho => ⟨⟨by omega, fun hz => hid (he.symm.trans hz)⟩, he, ho⟩, fun ho => ho.2.2⟩
      · rw [if_neg he]
        constructor
        · intro e; cases e
        · rintro ⟨_, he', _⟩
          exact absurd he' he

/-- The indices `0, 1, ..., n - 1`. -/
def indices (n : Nat) : List UInt32 := (List.range n).map UInt32.ofNat

theorem mem_indices {n : Nat} (hn : n < 2 ^ 32) {i : UInt32} : i ∈ indices n ↔ i.toNat < n := by
  simp only [indices, List.mem_map, List.mem_range]
  constructor
  · rintro ⟨k, hk, rfl⟩
    rw [toNat_ofNat32 (by omega)]
    exact hk
  · exact fun h => ⟨i.toNat, h, UInt32.ofNat_toNat⟩

theorem indices_nodup {n : Nat} (hn : n < 2 ^ 32) : (indices n).Nodup := by
  refine (List.nodup_map_iff_inj_on List.nodup_range).mpr (fun a ha b hb hab => ?_)
  have h := congrArg UInt32.toNat hab
  rw [List.mem_range] at ha hb
  rwa [toNat_ofNat32 (by omega), toNat_ofNat32 (by omega)] at h

theorem chain_indices {n : Nat} {step : UInt32 → Option UInt32}
    (hs : ∀ k, k < n → step (UInt32.ofNat k) =
      if k + 1 < n then some (UInt32.ofNat (k + 1)) else none) (m k : Nat) (hk : k + m = n) :
    Chain step (if k < n then some (UInt32.ofNat k) else none)
      ((List.range' k m).map UInt32.ofNat) := by
  induction m generalizing k with
  | zero =>
    have hge : ¬ k < n := by omega
    simp [hge, Chain]
  | succ m ih =>
    have hlt : k < n := by omega
    rw [List.range'_succ, List.map_cons, if_pos hlt]
    refine ⟨rfl, ?_⟩
    rw [hs k hlt]
    exact ih (k + 1) (by omega)

theorem new_inv {capacity : UInt32} (hc : capacity.toNat ≤ 2 ^ 31 - 1) :
    ∃ p, new capacity = .ok p ∧ p.Inv (indices capacity.toNat) ∧
      p.slots.size = capacity.toNat ∧
      ∀ i, (p.slot i).generation = 0 ∧ (p.slot i).orderId = kInvalidOrderId ∧
        (p.slot i).flags = 0 := by
  have hn : capacity.toNat < 2 ^ 31 := by omega
  refine ⟨_, by rw [new, assert_pos hc]; rfl, ?_, by simp, fun i => ?_⟩
  · have hslot : ∀ k, k < capacity.toNat →
        (if k + 1 < capacity.toNat then some (UInt32.ofNat (k + 1)) else none) =
          deref (if k + 1 < capacity.toNat then (UInt32.ofNat (k + 1)).toInt32 else kNullIdx) := by
      intro k hk
      split
      · rw [deref_toInt32]
        rw [toNat_ofNat32 (by omega)]
        omega
      · rfl
    refine ⟨by simpa using hn, ?_, indices_nodup (by omega), fun i => ?_, fun i hi => ?_, by
      simp [indices]⟩
    · have hfirst : deref (if 0 < capacity then 0 else kNullIdx) =
          if 0 < capacity.toNat then some (UInt32.ofNat 0) else none := by
        simp only [UInt32.lt_iff_toNat_lt, UInt32.toNat_zero]
        split <;> rfl
      simp only [hfirst, indices, List.range_eq_range']
      refine chain_indices (fun k hk => ?_) capacity.toNat 0 (by omega)
      rw [hslot k hk]
      have hk' : (UInt32.ofNat k).toNat = k := toNat_ofNat32 (by omega)
      simp [next, slot, hk', hk]
    · rw [mem_indices (by omega)]
      by_cases hi : i.toNat < capacity.toNat <;> simp [slot, hi, kInvalidOrderId]
    · by_cases hlt : i.toNat < capacity.toNat <;> simp [Live, slot, hlt, kInvalidOrderId] at hi
  · by_cases hi : i.toNat < capacity.toNat <;> simp [slot, hi, kInvalidOrderId]

end OrderPool

end LimitOrderBook
