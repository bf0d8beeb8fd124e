import LimitOrderBook.PriceLevel

set_option autoImplicit false

namespace LimitOrderBook
open Checked IntrusiveList

def Adjacent (L : List UInt32) (i j : UInt32) : Prop := [i, j] <:+: L ∨ [j, i] <:+: L

theorem Adjacent.mem {L : List UInt32} {i j : UInt32} (h : Adjacent L i j) : j ∈ L := by
  rcases h with h | h
  · exact h.subset (by simp)
  · exact h.subset (by simp)

theorem adjacent_of_prev {A B : List UInt32} {i j : UInt32} (h : A.getLast? = some j) :
    Adjacent (A ++ i :: B) i j := by
  obtain ⟨ys, rfl⟩ := List.getLast?_eq_some_iff.mp h
  exact .inr ⟨ys, B, by simp⟩

theorem adjacent_of_next {A B : List UInt32} {i j : UInt32} (h : B.head? = some j) :
    Adjacent (A ++ i :: B) i j := by
  obtain ⟨ys, rfl⟩ := List.head?_eq_some_iff.mp h
  exact .inl ⟨A, ys, by simp⟩

/-- Nothing but the two list links was written, and those only in slot `i` and in the
neighbours of `i` in the queue `L`. -/
structure LinkFrame (pool pool' : OrderPool) (L : List UInt32) (i : UInt32) : Prop where
  size : pool'.slots.size = pool.slots.size
  freeHead : pool'.freeHead = pool.freeHead
  liveCount : pool'.liveCount = pool.liveCount
  fields : ∀ j, ∃ prevIdx nextIdx,
    pool'.slot j = (pool.slot j).relinked prevIdx nextIdx (pool.slot j).levelIdx
  far : ∀ j, j ≠ i → ¬ Adjacent L i j → pool'.slot j = pool.slot j

namespace LinkFrame

variable {pool pool' : OrderPool} {L : List UInt32} {i : UInt32}

theorem remaining (h : LinkFrame pool pool' L i) (j : UInt32) :
    (pool'.slot j).remaining = (pool.slot j).remaining := by
  obtain ⟨prevIdx, nextIdx, hj⟩ := h.fields j
  rw [hj, Order.relinked_remaining]

theorem keeps (h : LinkFrame pool pool' L i) {other : PriceLevel} {M : List UInt32}
    (hother : LevelRep pool other M) (hdisjoint : M.Disjoint L) (hi : i ∉ M) :
    LevelRep pool' other M := by
  refine hother.congr_slots h.size fun j hj => h.far j ?_ ?_
  · rintro rfl
    exact hi hj
  · exact fun hadj => hdisjoint hj hadj.mem

end LinkFrame

namespace PriceLevel

variable {pool : OrderPool} {level : PriceLevel} {L : List UInt32} {i : UInt32}

theorem pushBack_frame (hsize : pool.slots.size < 2 ^ 31) (h : LevelRep pool level L)
    (hi : i.toNat < pool.slots.size) (hiL : i ∉ L) (hprev : (pool.slot i).prevIdx = kNullIdx)
    (hnext : (pool.slot i).nextIdx = kNullIdx) :
    ∃ level' pool', level.pushBack pool i = .ok (level', pool') ∧
      LevelRep pool' level' (L ++ [i]) ∧ LinkFrame pool pool' (L ++ [i]) i := by
  obtain ⟨level', pool', hrun, hrep, hre, -⟩ := pushBack_rep h hsize hi hiL hprev hnext
  obtain ⟨pool₁, hrun₁, -, hslot⟩ := pushBack_ok h hi hiL hprev hnext
  cases hrun.symm.trans hrun₁
  refine ⟨_, pool', hrun, hrep, hre.size, hre.freeHead, hre.liveCount,
    fun j => ⟨_, _, hslot j⟩, fun j hj hadj => ?_⟩
  have hlast : OrderPool.deref level.tailIdx ≠ some j := fun e =>
    hadj (adjacent_of_prev (h.list.tail ▸ e))
  rw [hslot, if_neg hj, if_neg hlast, Order.relinked_self]

theorem unlink_frame {A B : List UInt32} (h : LevelRep pool level (A ++ i :: B)) :
    ∃ level' pool', level.unlink pool i = .ok (level', pool') ∧
      LevelRep pool' level' (A ++ B) ∧ (pool'.slot i).prevIdx = kNullIdx ∧
      (pool'.slot i).nextIdx = kNullIdx ∧ LinkFrame pool pool' (A ++ i :: B) i := by
  obtain ⟨level', pool', hrun, hrep, hre, hprev, hnext, -⟩ := unlink_rep h
  obtain ⟨pool₁, hrun₁, -, hslot⟩ := unlink_ok h
  cases hrun.symm.trans hrun₁
  obtain ⟨hp, hn⟩ := h.list.at
  refine ⟨_, pool', hrun, hrep, hprev, hnext, hre.size, hre.freeHead, hre.liveCount,
    fun j => ⟨_, _, hslot j⟩, fun j hj hadj => ?_⟩
  have hp' : pool.prev i ≠ some j := fun e => hadj (adjacent_of_prev (hp ▸ e))
  have hn' : pool.next i ≠ some j := fun e => hadj (adjacent_of_next (hn ▸ e))
  rw [hslot, if_neg hj, if_neg hj, if_neg hp', if_neg hn', Order.relinked_self]

theorem unlink_aggregates {pool' : OrderPool} {level' : PriceLevel} {A B : List UInt32}
    (h : LevelRep pool level (A ++ i :: B)) (h' : LevelRep pool' level' (A ++ B))
    (hrem : ∀ j, (pool'.slot j).remaining = (pool.slot j).remaining) :
    level'.orderCount.toNat + 1 = level.orderCount.toNat ∧
      level'.totalQty.toNat + (pool.slot i).remaining.toNat = level.totalQty.toNat := by
  rw [h.count, h'.count, h.qty, h'.qty, openQty_congr fun j _ => hrem j]
  simp only [List.length_append, List.length_cons, openQty_append, openQty_cons]
  omega

end PriceLevel

/-- Linking appends, unlinking removes from anywhere and keeps the order of the rest, and
both write only links of the order and of its neighbours, so no other level changes. -/
theorem price_level_list {pool : OrderPool} (hsize : pool.slots.size < 2 ^ 31) {level : PriceLevel}
    {L : List UInt32} (h : LevelRep pool level L) :
    (∀ i, i.toNat < pool.slots.size → i ∉ L → (pool.slot i).prevIdx = kNullIdx →
      (pool.slot i).nextIdx = kNullIdx → ∃ level' pool',
        level.pushBack pool i = .ok (level', pool') ∧ LevelRep pool' level' (L ++ [i]) ∧
        LinkFrame pool pool' (L ++ [i]) i ∧
        ∀ other M, LevelRep pool other M → M.Disjoint L → i ∉ M → LevelRep pool' other M) ∧
    ∀ i ∈ L, ∃ level' pool', level.unlink pool i = .ok (level', pool') ∧
      LevelRep pool' level' (L.erase i) ∧ (pool'.slot i).prevIdx = kNullIdx ∧
      (pool'.slot i).nextIdx = kNullIdx ∧ level'.orderCount.toNat + 1 = level.orderCount.toNat ∧
      level'.totalQty.toNat + (pool.slot i).remaining.toNat = level.totalQty.toNat ∧
      LinkFrame pool pool' L i ∧
      ∀ other M, LevelRep pool other M → M.Disjoint L → LevelRep pool' other M := by
  refine ⟨fun i hi hiL hprev hnext => ?_, fun i hiL => ?_⟩
  · obtain ⟨level', pool', hrun, hrep, hframe⟩ :=
      PriceLevel.pushBack_frame hsize h hi hiL hprev hnext
    refine ⟨level', pool', hrun, hrep, hframe, fun other M hother hdisjoint hiM => ?_⟩
    refine hframe.keeps hother (fun j hjM hj => ?_) hiM
    rcases List.mem_append.mp hj with hjL | hji
    · exact hdisjoint hjM hjL
    · exact hiM (List.mem_singleton.mp hji ▸ hjM)
  · obtain ⟨A, B, rfl⟩ := List.append_of_mem hiL
    have hiA : i ∉ A := fun hiA => (List.nodup_append.mp h.nodup).2.2 i hiA i (by simp) rfl
    have herase : (A ++ i :: B).erase i = A ++ B := by
      rw [List.erase_append_right _ hiA, List.erase_cons_head]
    obtain ⟨level', pool', hrun, hrep, hprev, hnext, hframe⟩ := PriceLevel.unlink_frame h
    obtain ⟨hcount, hqty⟩ := PriceLevel.unlink_aggregates h hrep hframe.remaining
    refine ⟨level', pool', hrun, herase ▸ hrep, hprev, hnext, hcount, hqty, hframe,
      fun other M hother hdisjoint => hframe.keeps hother hdisjoint fun hiM => ?_⟩
    exact hdisjoint hiM hiL

def linked (remaining : Qty) (prevIdx nextIdx : Int32) : Order := { remaining, prevIdx, nextIdx }

/-- Slots 0 to 2 in a queue, 3 in a queue of its own, 4 in none. -/
def twoQueues : OrderPool where
  slots := #[linked 5 (-1) 1, linked 7 0 2, linked 9 1 (-1), linked 2 (-1) (-1), linked 4 (-1) (-1)]
  freeHead := -1
  liveCount := 5

theorem twoQueues_rep : LevelRep twoQueues ⟨0, 2, 3, 21⟩ [0, 1, 2] ∧
    LevelRep twoQueues ⟨3, 3, 1, 2⟩ [3] :=
  ⟨⟨⟨rfl, rfl, ⟨rfl, rfl, rfl, rfl, rfl, rfl, trivial⟩, by decide⟩, by simp [twoQueues], rfl, rfl⟩,
    ⟨⟨rfl, rfl, ⟨rfl, rfl, trivial⟩, by decide⟩, by simp [twoQueues], rfl, rfl⟩⟩

/-- Another order at the end, and the middle one out; the second queue stays. -/
theorem price_level_list_small :
    (∃ level pool, PriceLevel.pushBack ⟨0, 2, 3, 21⟩ twoQueues 4 = .ok (level, pool) ∧
      LevelRep pool level [0, 1, 2, 4] ∧ LevelRep pool ⟨3, 3, 1, 2⟩ [3]) ∧
    ∃ level pool, PriceLevel.unlink ⟨0, 2, 3, 21⟩ twoQueues 1 = .ok (level, pool) ∧
      LevelRep pool level [0, 2] ∧ (pool.slot 1).prevIdx = kNullIdx ∧
      (pool.slot 1).nextIdx = kNullIdx ∧ level.orderCount.toNat + 1 = 3 ∧
      level.totalQty.toNat + 7 = 21 ∧ LinkFrame twoQueues pool [0, 1, 2] 1 ∧
      LevelRep pool ⟨3, 3, 1, 2⟩ [3] := by
  obtain ⟨hqueue, hother⟩ := twoQueues_rep
  obtain ⟨hpush, hunlink⟩ := price_level_list (by decide) hqueue
  obtain ⟨level, pool, hrun, hrep, _, hkeeps⟩ :=
    hpush 4 (by decide) (by decide) (by decide) (by decide)
  obtain ⟨level', pool', hrun', hrep', hprev, hnext, hcount, hqty, hframe, hkeeps'⟩ :=
    hunlink 1 (by decide)
  exact ⟨⟨level, pool, hrun, hrep, hkeeps _ _ hother (by simp) (by decide)⟩,
    level', pool', hrun', hrep', hprev, hnext, hcount, hqty, hframe,
    hkeeps' _ _ hother (by simp)⟩

end LimitOrderBook
