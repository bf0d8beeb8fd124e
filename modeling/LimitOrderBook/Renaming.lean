import LimitOrderBook.Differential

set_option autoImplicit false

namespace LimitOrderBook
open Checked PriorityQueue

variable {ρ : OrderId → OrderId}

def Resting.rename (ρ : OrderId → OrderId) (r : Resting) : Resting := { r with id := ρ r.id }

def Event.rename (ρ : OrderId → OrderId) (e : Event) : Event := { e with orderId := ρ e.orderId }

def Sweep.rename (ρ : OrderId → OrderId) (s : Sweep) : Sweep where
  remaining := s.remaining
  filled := s.filled.map (Resting.rename ρ)
  rest := s.rest.map (Resting.rename ρ)
  events := s.events.map (Event.rename ρ)

theorem sweep_rename (ρ : OrderId → OrderId) (side : Side) (limit : PriceTicks) (id : OrderId)
    (remaining : Qty) (M : List Resting) :
    sweep side limit (ρ id) remaining (M.map (Resting.rename ρ)) =
      (sweep side limit id remaining M).rename ρ := by
  induction remaining, M using sweep_induction side limit with
  | nil remaining => rfl
  | stop remaining m M hstop =>
    rw [List.map_cons, sweep_stop hstop, sweep_stop (m := m.rename ρ) hstop]
    rfl
  | filled remaining m M hstop hleft ih =>
    have hm : (m.rename ρ).remaining = m.remaining := rfl
    rw [List.map_cons, sweep_filled hstop hleft, sweep_filled (m := m.rename ρ) hstop hleft, hm, ih]
    simp only [Sweep.rename, List.map_append, List.map_cons]
    rfl
  | left remaining m M hstop hleft =>
    rw [List.map_cons, sweep_left hstop hleft, sweep_left (m := m.rename ρ) hstop hleft]
    rfl

namespace QueueBook

/-- `b₀` holds the orders of `b`, each under the id that `ρ` gives it. -/
structure Renamed (ρ : OrderId → OrderId) (b b₀ : QueueBook) : Prop where
  bids : b₀.bids = b.bids.map (Resting.rename ρ)
  asks : b₀.asks = b.asks.map (Resting.rename ρ)

namespace Renamed

variable {b b₀ c c₀ : QueueBook} {σ : OrderId → OrderId} {r : Resting}

theorem queue (h : Renamed ρ b b₀) (s : Side) :
    b₀.queue s = (b.queue s).map (Resting.rename ρ) := by
  unfold QueueBook.queue
  split
  · exact h.bids
  · exact h.asks

theorem of_queue (h : ∀ s, b₀.queue s = (b.queue s).map (Resting.rename ρ)) : Renamed ρ b b₀ :=
  ⟨h .kBuy, h .kSell⟩

theorem resting (h : Renamed ρ b b₀) : b₀.resting = b.resting.map (Resting.rename ρ) := by
  rw [QueueBook.resting, h.bids, h.asks, ← List.map_append]
  rfl

theorem mem (h : Renamed ρ b b₀) (hr : r ∈ b.resting) : r.rename ρ ∈ b₀.resting := by
  rw [h.resting]
  exact List.mem_map_of_mem hr

theorem congr (h : Renamed ρ b b₀) (hσ : ∀ r ∈ b.resting, σ r.id = ρ r.id) :
    Renamed σ b b₀ := by
  refine of_queue fun s => (h.queue s).trans (List.map_congr_left fun r hr => ?_)
  rw [Resting.rename, Resting.rename, hσ r (mem_resting.mpr ⟨s, hr⟩)]

theorem injective (h : Renamed ρ b b₀) (hu : UniqueIds b₀.resting) {x y : Resting}
    (hx : x ∈ b.resting) (hy : y ∈ b.resting) (he : ρ x.id = ρ y.id) : x = y := by
  rw [UniqueIds, h.resting, List.map_map] at hu
  exact List.inj_on_of_nodup_map hu hx hy he

theorem uncrossed (h : Renamed ρ b b₀) (hu : b.Uncrossed) : b₀.Uncrossed := by
  intro x hx y hy
  rw [h.bids, List.mem_map] at hx
  rw [h.asks, List.mem_map] at hy
  obtain ⟨x', hx', rfl⟩ := hx
  obtain ⟨y', hy', rfl⟩ := hy
  exact hu x' hx' y' hy'

theorem rest (h : Renamed ρ b b₀) (r : Resting) :
    Renamed ρ (b.rest r) (b₀.rest (r.rename ρ)) := by
  refine of_queue fun s => ?_
  have hside : (r.rename ρ).side = r.side := rfl
  rw [rest_queue, rest_queue, hside, h.queue, h.queue]
  split
  · exact (enqueue_map (Resting.rename ρ) rfl fun _ _ => rfl).symm
  · rfl

theorem settle (h : Renamed ρ b b₀) (side : Side) (s : Sweep) :
    Renamed ρ (b.settle side s) (b₀.settle side (s.rename ρ)) := by
  refine of_queue fun t => ?_
  simp only [QueueBook.settle, queue_release, queue_setQueue, h.queue]
  split <;> rfl

theorem execute (h : Renamed ρ b b₀) (id : OrderId) (side : Side) (type : OrderType)
    (price : PriceTicks) (qty : Qty) :
    (b₀.execute (ρ id) side type price qty).2 =
        (b.execute id side type price qty).2.map (Event.rename ρ) ∧
      Renamed ρ (b.execute id side type price qty).1 (b₀.execute (ρ id) side type price qty).1 := by
  have hs := sweep_rename ρ side (takerLimit side type price) id qty (b.queue side.opposite)
  rw [← h.queue] at hs
  unfold QueueBook.execute
  simp only [hs]
  generalize sweep side (takerLimit side type price) id qty (b.queue side.opposite) = s
  have hsettle := h.settle side s
  have hleft : (s.rename ρ).remaining = s.remaining := rfl
  rw [hleft]
  split
  · refine ⟨?_, hsettle.bids, hsettle.asks⟩
    generalize (if type = .kMarket then (0 : PriceTicks) else price) = orderPx
    simp only [List.map_append, List.map_cons]
    split <;> rfl
  · exact ⟨rfl, hsettle.rest { id, price, qty, remaining := s.remaining, side }⟩

theorem remove (h : Renamed ρ b b₀) (hu : UniqueIds b₀.resting) (hr : r ∈ b.resting) :
    Renamed ρ (b.remove r) (b₀.remove (r.rename ρ)) := by
  refine of_queue fun s => ?_
  have hside : (r.rename ρ).side = r.side := rfl
  simp only [QueueBook.remove, queue_release, queue_setQueue, hside, h.queue]
  split
  · rw [List.filter_map]
    refine congrArg _ (List.filter_congr fun x hx => ?_)
    have hne : ρ x.id = ρ r.id ↔ x.id = r.id :=
      ⟨fun he => congrArg _ (h.injective hu (mem_resting.mpr ⟨_, hx⟩) hr he),
        fun he => congrArg ρ he⟩
    simp only [Function.comp_apply, Resting.rename, ne_eq, hne]
  · rfl

theorem atPrice (h : Renamed ρ b b₀) (s : Side) (p : PriceTicks) :
    b₀.atPrice s p = (b.atPrice s p).map (Resting.rename ρ) := by
  rw [QueueBook.atPrice, QueueBook.atPrice, h.queue, priced, List.filter_map]
  rfl

theorem qtyAt (h : Renamed ρ b b₀) (s : Side) (p : PriceTicks) : b₀.qtyAt s p = b.qtyAt s p := by
  rw [QueueBook.qtyAt, h.atPrice, List.map_map]
  rfl

end Renamed

end QueueBook

theorem Shrinks.ids {M N : List Resting} (h : Shrinks M N) :
    (M.map Resting.id).Sublist (N.map Resting.id) := by
  induction h with
  | nil => exact List.nil_sublist _
  | cons hred _ ih =>
    rw [List.map_cons, List.map_cons, hred.id]
    exact ih.cons_cons _
  | cons_right _ ih => exact ih.cons _

theorem Shrinks.append {M M' N N' : List Resting} (h : Shrinks M N) (h' : Shrinks M' N') :
    Shrinks (M ++ M') (N ++ N') := by
  induction h with
  | nil =>
    rename_i l
    induction l with
    | nil => exact h'
    | cons x l ih => exact .cons_right ih
  | cons hred _ ih => exact .cons hred ih
  | cons_right _ ih => exact .cons_right ih

namespace QueueBook

/-! Under any unused ids a book stays well formed. -/

variable {b b' : QueueBook} {id : OrderId} {side : Side} {type : OrderType} {price : PriceTicks}
  {qty : Qty} {r : Resting}

theorem new_wf (capacity : UInt32) : (new capacity).WF where
  sorted s := by
    unfold queue
    split <;> exact sorted_nil
  side s r hr := by
    unfold queue at hr
    split at hr <;> cases hr
  ids := List.nodup_nil

theorem WF.shrinks (hw : b.WF) (h : ∀ s, Shrinks (b'.queue s) (b.queue s)) : b'.WF where
  sorted s := by
    refine (h s).pairwise (fun hx hy hn => ?_) (hw.sorted s)
    rwa [hx.price, hy.price]
  side s r hr := by
    obtain ⟨r₀, hr₀, hred⟩ := (h s).mem hr
    rw [hred.side]
    exact hw.side s r₀ hr₀
  ids := hw.ids.sublist ((h .kBuy).append (h .kSell)).ids

theorem WF.release (hw : b.WF) (slots : List UInt32) : (b.release slots).WF := by
  refine hw.shrinks fun s => ?_
  rw [queue_release]
  exact .refl (b.queue s)

theorem remove_sublist (b : QueueBook) (r : Resting) (s : Side) :
    ((b.remove r).queue s).Sublist (b.queue s) := by
  rw [QueueBook.remove, queue_release, queue_setQueue]
  split
  · rename_i hs
    rw [queue_congr hs]
    exact List.filter_sublist
  · exact .refl _

theorem WF.remove (hw : b.WF) (r : Resting) : (b.remove r).WF :=
  hw.shrinks fun s => .of_sublist (remove_sublist b r s)

theorem rest_perm (b : QueueBook) (r : Resting) : (b.rest r).resting.Perm (r :: b.resting) := by
  unfold QueueBook.rest setQueue queue resting
  split
  · exact (enqueue_perm r b.bids).append_right b.asks
  · exact ((enqueue_perm r b.asks).append_left b.bids).trans List.perm_middle

theorem WF.rest (hw : b.WF) (hid : ∀ x ∈ b.resting, x.id ≠ r.id) : (b.rest r).WF where
  sorted s := by
    rw [rest_queue]
    split
    · rename_i hs
      rw [Side.resolve_congr hs]
      exact (hw.sorted r.side).enqueue r
    · exact hw.sorted s
  side s x hx := by
    rcases rest_mem hx with ⟨hs, rfl⟩ | hx
    · exact hs.symm
    · exact hw.side s x hx
  ids := by
    rw [UniqueIds, ((rest_perm b r).map _).nodup_iff, List.map_cons, List.nodup_cons]
    refine ⟨fun hm => ?_, hw.ids⟩
    obtain ⟨x, hx, he⟩ := List.mem_map.mp hm
    exact hid x hx he

theorem WF.execute (hw : b.WF) (hid : ∀ x ∈ b.resting, x.id ≠ id) :
    (b.execute id side type price qty).1.WF := by
  have hsettle : ∀ limit,
      (b.settle side (sweep side limit id qty (b.queue side.opposite))).WF :=
    fun limit => hw.shrinks fun s => settle_shrinks s limit
  by_cases hgone : (sweep side (takerLimit side type price) id qty
      (b.queue side.opposite)).remaining = 0 ∨ type ≠ .kLimit
  · rw [execute_gone hgone]
    exact (hsettle (takerLimit side type price)).release [indexOf id]
  · rw [execute_rests hgone]
    refine (hsettle (takerLimit side type price)).rest fun x hx he => ?_
    obtain ⟨y, hy, hyx⟩ := NaiveRep.settle_mem hx
    exact hid y hy (hyx.trans he)

end QueueBook

end LimitOrderBook
