import LimitOrderBook.PriceLadder

set_option autoImplicit false

namespace LimitOrderBook
open Checked IntrusiveList PriorityQueue

def OrderPool.price (pool : OrderPool) (i : UInt32) : PriceTicks := (pool.slot i).priceTicks

theorem OrderPool.Relinks.price {p q : OrderPool} {touched : UInt32 → Prop}
    (h : p.Relinks q touched) (i : UInt32) : q.price i = p.price i := h.priceTicks i

/-- What every order of a ladder satisfies on its own. -/
structure RestsIn (pool : OrderPool) (l : PriceLadder) (i : UInt32) : Prop where
  live : pool.Live i
  levelIdx : (pool.slot i).levelIdx = l.levelIdxOf (pool.price i)
  remaining_pos : 1 ≤ (pool.slot i).remaining.toNat
  side : (pool.slot i).side.isBuy = l.side.isBuy

/-- The slots of `S` resting at one price, and those resting inside the band. -/
def atPrice (pool : OrderPool) (S : List UInt32) (p : PriceTicks) : List UInt32 :=
  S.filter fun i => pool.price i = p

def inBandSlots (pool : OrderPool) (l : PriceLadder) (S : List UInt32) : List UInt32 :=
  S.filter fun i => l.InBand (pool.price i)

def PriceLadder.cursor (l : PriceLadder) (pool : OrderPool) : Option UInt32 → Int32
  | none => kNullIdx
  | some i => l.offsetOf (pool.price i)

/-- The ladder holds exactly the slots of `S`, in priority order. -/
structure LadderRep (pool : OrderPool) (l : PriceLadder) (S : List UInt32) : Prop where
  geometry : l.Geometry
  sorted : Sorted l.side.Better pool.price S
  level : ∀ p, LevelRep pool (l.level p) (atPrice pool S p)
  overflow : ∀ p, p ∈ l.overflow ↔ ¬ l.InBand p ∧ ∃ i ∈ S, pool.price i = p
  bandOrders : l.bandOrders.toNat = (inBandSlots pool l S).length
  best : l.bestOffset = l.cursor pool (inBandSlots pool l S).head?
  order : ∀ i ∈ S, RestsIn pool l i

theorem mem_atPrice {pool : OrderPool} {S : List UInt32} {p : PriceTicks} {i : UInt32} :
    i ∈ atPrice pool S p ↔ i ∈ S ∧ pool.price i = p := by
  simp [atPrice]

theorem mem_inBandSlots {pool : OrderPool} {l : PriceLadder} {S : List UInt32} {i : UInt32} :
    i ∈ inBandSlots pool l S ↔ i ∈ S ∧ l.InBand (pool.price i) := by
  simp [inBandSlots]

theorem atPrice_congr {pool pool' : OrderPool} {S : List UInt32}
    (h : ∀ i ∈ S, pool'.price i = pool.price i) (p : PriceTicks) :
    atPrice pool' S p = atPrice pool S p :=
  List.filter_congr (fun i hi => by rw [h i hi])

theorem inBandSlots_congr {pool pool' : OrderPool} {l l' : PriceLadder} {S : List UInt32}
    (h : ∀ i ∈ S, pool'.price i = pool.price i) (hl : ∀ p, l'.InBand p ↔ l.InBand p) :
    inBandSlots pool' l' S = inBandSlots pool l S :=
  List.filter_congr (fun i hi => by simp only [h i hi, hl])

theorem band_best {pool : OrderPool} {l : PriceLadder} {S B : List UInt32} {b : UInt32}
    (hs : Sorted l.side.Better pool.price S) (hB : inBandSlots pool l S = b :: B) {j : UInt32}
    (hj : j ∈ S) (hb : l.InBand (pool.price j)) :
    ¬ l.side.Better (pool.price j) (pool.price b) := by
  have hsort := hs.filter (fun j => l.InBand (pool.price j))
  rw [show S.filter _ = b :: B from hB] at hsort
  have hmem : j ∈ b :: B := hB ▸ mem_inBandSlots.mpr ⟨hj, hb⟩
  rcases List.mem_cons.mp hmem with rfl | hmem
  · exact irrefl_of _ _
  · exact hsort.head_best j hmem

namespace LadderRep

variable {pool pool' : OrderPool} {l l' : PriceLadder} {S : List UInt32}

theorem nodup (h : LadderRep pool l S) : S.Nodup := by
  refine List.nodup_iff_count_le_one.mpr (fun i => ?_)
  have hp := List.nodup_iff_count_le_one.mp (h.level (pool.price i)).nodup i
  rwa [atPrice, List.count_filter (by simp)] at hp

theorem inRange (h : LadderRep pool l S) {i : UInt32} (hi : i ∈ S) :
    i.toNat < pool.slots.size := (h.order i hi).live.1

theorem length_le (h : LadderRep pool l S) : S.length ≤ pool.slots.size :=
  length_le_slots h.nodup (fun _ hi => h.inRange hi)

theorem nil (pool : OrderPool) (hg : l.Geometry) (hl : ∀ p, l.level p = {})
    (ho : l.overflow = ∅) (hb : l.bandOrders = 0) (hc : l.bestOffset = kNullIdx) :
    LadderRep pool l [] where
  geometry := hg
  sorted := sorted_nil
  level p := by rw [hl]; exact LevelRep.nil pool
  overflow p := by simp [ho]
  bandOrders := by rw [hb]; rfl
  best := hc
  order := by simp

theorem congr (h : LadderRep pool l S) (hsize : pool'.slots.size = pool.slots.size)
    (hs : ∀ i ∈ S, pool'.slot i = pool.slot i) : LadderRep pool' l S := by
  have hprice : ∀ i ∈ S, pool'.price i = pool.price i := fun i hi => by
    rw [OrderPool.price, OrderPool.price, hs i hi]
  refine ⟨h.geometry, h.sorted.congr hprice, fun p => ?_, fun p => ?_, ?_, ?_, fun i hi => ?_⟩
  · rw [atPrice_congr hprice]
    exact (h.level p).congr_slots hsize (fun i hi => hs i (mem_atPrice.mp hi).1)
  · rw [h.overflow]
    refine and_congr_right fun _ => exists_congr fun i => and_congr_right fun hi => ?_
    rw [hprice i hi]
  · rw [inBandSlots_congr hprice (fun _ => Iff.rfl), h.bandOrders]
  · rw [inBandSlots_congr hprice (fun _ => Iff.rfl), h.best]
    cases hh : (inBandSlots pool l S).head? with
    | none => rfl
    | some i =>
      have hi := (mem_inBandSlots.mp (List.mem_of_head? hh)).1
      simp only [PriceLadder.cursor, hprice i hi]
  · obtain ⟨h₁, h₂, h₃, h₄⟩ := h.order i hi
    refine ⟨⟨hsize ▸ h₁.1, by rw [hs i hi]; exact h₁.2⟩, ?_, ?_, ?_⟩ <;>
      simpa only [OrderPool.price, hs i hi] using ‹_›

theorem mem_band_or (h : LadderRep pool l S) {i : UInt32} (hi : i ∈ S) :
    i ∈ inBandSlots pool l S ∨ pool.price i ∈ l.overflow := by
  by_cases hb : l.InBand (pool.price i)
  · exact .inl (mem_inBandSlots.mpr ⟨hi, hb⟩)
  · exact .inr ((h.overflow _).mpr ⟨hb, i, hi, rfl⟩)

theorem best_eq_null (h : LadderRep pool l S) :
    l.bestOffset = kNullIdx ↔ inBandSlots pool l S = [] := by
  rw [h.best]
  cases hB : inBandSlots pool l S with
  | nil => simp [PriceLadder.cursor]
  | cons b B =>
    have hb : b ∈ inBandSlots pool l S := by simp [hB]
    have hne := (PriceLadder.offsetOf_ne h.geometry (mem_inBandSlots.mp hb).2).1
    simpa [PriceLadder.cursor] using hne

theorem best_ne_null (h : LadderRep pool l S) {b : UInt32} {B : List UInt32}
    (hB : inBandSlots pool l S = b :: B) : l.bestOffset ≠ kNullIdx := fun e => by
  rw [h.best_eq_null.mp e] at hB
  cases hB

theorem empty_iff (h : LadderRep pool l S) : l.empty = true ↔ S = [] := by
  rw [PriceLadder.empty, decide_eq_true_eq, h.best_eq_null, Std.ExtTreeMap.isEmpty_iff,
    Std.ExtTreeMap.eq_empty_iff_forall_not_mem]
  constructor
  · rintro ⟨hB, hO⟩
    refine List.eq_nil_iff_forall_not_mem.mpr (fun i hi => ?_)
    rcases h.mem_band_or hi with hb | ho
    · rw [hB] at hb
      cases hb
    · exact hO _ ho
  · rintro rfl
    refine ⟨rfl, fun p hp => ?_⟩
    obtain ⟨_, i, hi, _⟩ := (h.overflow p).mp hp
    cases hi

theorem overflowBest_some {p : PriceTicks} :
    l.overflowBest = some p ↔ p ∈ l.overflow ∧ ∀ q ∈ l.overflow, ¬ l.side.Better q p := by
  have hle : ∀ a b : PriceTicks, (compare a b).isLE = true ↔ a.toInt ≤ b.toInt := by
    intro a b
    rw [Std.isLE_compare, Int64.le_iff_toInt_le]
  unfold PriceLadder.overflowBest
  by_cases hs : l.side = .kBuy
  · rw [if_pos hs, ← Std.ExtTreeMap.maxKey?_eq_getLast?_keys,
      Std.ExtTreeMap.maxKey?_eq_some_iff_mem_and_forall]
    simp only [hle, hs, Side.better_buy, not_lt]
  · rw [if_neg hs, ← Std.ExtTreeMap.minKey?_eq_head?_keys,
      Std.ExtTreeMap.minKey?_eq_some_iff_mem_and_forall]
    simp only [hle, Side.better_of_ne hs, not_lt]

theorem overflowBest_none : l.overflowBest = none ↔ l.overflow = ∅ := by
  unfold PriceLadder.overflowBest
  split <;> simp

theorem front_price {i : UInt32} {T : List UInt32} (h : LadderRep pool l (i :: T)) {p : PriceTicks}
    (hp : ∃ j ∈ i :: T, pool.price j = p) (hbest : ∀ j ∈ i :: T, ¬ l.side.Better (pool.price j) p) :
    pool.price i = p := by
  obtain ⟨j, hj, rfl⟩ := hp
  have hij : ¬ l.side.Better (pool.price j) (pool.price i) := by
    rcases List.mem_cons.mp hj with rfl | hj
    · exact irrefl_of _ _
    · exact h.sorted.head_best j hj
  rcases trichotomous_of l.side.Better (pool.price i) (pool.price j) with hlt | heq | hgt
  · exact absurd hlt (hbest i (by simp))
  · exact heq
  · exact absurd hgt hij

theorem bandBest_ok (h : LadderRep pool l S) {b : UInt32} {B : List UInt32}
    (hB : inBandSlots pool l S = b :: B) :
    addI64 l.lowPrice l.bestOffset.toInt64 = .ok (pool.price b) := by
  have hb : b ∈ inBandSlots pool l S := by simp [hB]
  have hoff := PriceLadder.offsetOf_toInt h.geometry (mem_inBandSlots.mp hb).2
  rw [h.best, hB, addI64, Int32.toInt_toInt64, List.head?_cons, PriceLadder.cursor,
    int64_eq_ok, hoff]
  omega

theorem bestPrice_ok {i : UInt32} {T : List UInt32} (h : LadderRep pool l (i :: T)) :
    l.bestPrice = .ok (pool.price i) := by
  have hne : ¬ l.empty := by simp [h.empty_iff]
  have hband : ∀ {b B}, inBandSlots pool l (i :: T) = b :: B →
      (∃ j ∈ i :: T, pool.price j = pool.price b) ∧
        ∀ j ∈ inBandSlots pool l (i :: T), ¬ l.side.Better (pool.price j) (pool.price b) := by
    intro b B hB
    have hb : b ∈ inBandSlots pool l (i :: T) := by simp [hB]
    refine ⟨⟨b, (mem_inBandSlots.mp hb).1, rfl⟩, fun j hj => ?_⟩
    obtain ⟨hjS, hjb⟩ := mem_inBandSlots.mp hj
    exact band_best h.sorted hB hjS hjb
  rw [PriceLadder.bestPrice, assert_pos hne, ok_bind]
  cases ho : l.overflowBest with
  | none =>
    have hempty := overflowBest_none.mp ho
    have hall : ∀ j ∈ i :: T, j ∈ inBandSlots pool l (i :: T) := by
      intro j hj
      rcases h.mem_band_or hj with hb | hb
      · exact hb
      · rw [hempty] at hb
        exact absurd hb (by simp)
    cases hB : inBandSlots pool l (i :: T) with
    | nil =>
      have := hall i (by simp)
      rw [hB] at this
      cases this
    | cons b B =>
      rw [h.front_price (hband hB).1 (fun j hj => (hband hB).2 j (hall j hj))]
      exact h.bandBest_ok hB
  | some o =>
    obtain ⟨hmem, hbest⟩ := overflowBest_some.mp ho
    obtain ⟨_, k, hk, hko⟩ := (h.overflow o).mp hmem
    simp only
    cases hB : inBandSlots pool l (i :: T) with
    | nil =>
      rw [if_pos (h.best_eq_null.mpr hB), h.front_price ⟨k, hk, hko⟩ (fun j hj => ?_)]
      · rfl
      · rcases h.mem_band_or hj with hb | hb
        · rw [hB] at hb
          cases hb
        · exact hbest _ hb
    | cons b B =>
      rw [if_neg (h.best_ne_null hB), h.bandBest_ok hB, ok_bind, pure_eq_ok]
      obtain ⟨hbmem, hbbest⟩ := hband hB
      obtain ⟨hor, hb₁, hb₂⟩ := Side.best_of_two l.side (pool.price b) o
      refine congrArg _ (h.front_price ?_ (fun j hj => ?_)).symm
      · rcases hor with e | e
        · rw [e]
          exact hbmem
        · rw [e]
          exact ⟨k, hk, hko⟩
      · rcases h.mem_band_or hj with hj | hj
        · exact fun hlt => Side.not_better_trans (hbbest j hj) hb₁ hlt
        · exact fun hlt => Side.not_better_trans (hbest _ hj) hb₂ hlt

end LadderRep

end LimitOrderBook
