import LimitOrderBook.OrderPool

set_option autoImplicit false

namespace LimitOrderBook
open Checked IntrusiveList

/-- `relink` stands for the book overwriting the links of a slot it holds. -/
inductive PoolCall where
  | alloc (result : OrderId)
  | free (index : UInt32)
  | relink (index : UInt32) (prevIdx nextIdx levelIdx : Int32)
  deriving DecidableEq, Repr

/-- How often `alloc` handed out slot `i`. -/
def allocCount (i : UInt32) : List PoolCall → Nat
  | [] => 0
  | .alloc id :: h => allocCount i h + if id ≠ kInvalidOrderId ∧ indexOf id = i then 1 else 0
  | .free _ :: h => allocCount i h
  | .relink _ _ _ _ :: h => allocCount i h

/-- The id of the latest `alloc` of slot `i`, unless the slot was freed since. -/
def heldId (i : UInt32) : List PoolCall → Option OrderId
  | [] => none
  | .alloc id :: h => if id ≠ kInvalidOrderId ∧ indexOf id = i then some id else heldId i h
  | .free j :: h => if j = i then none else heldId i h
  | .relink _ _ _ _ :: h => heldId i h

/-- Only slots that are held are freed or relinked. -/
inductive PoolRun (capacity : UInt32) : List PoolCall → OrderPool → Prop where
  | new {p : OrderPool} : OrderPool.new capacity = .ok p → PoolRun capacity [] p
  | alloc {h : List PoolCall} {p p' : OrderPool} {id : OrderId} : PoolRun capacity h p →
      p.alloc = .ok (id, p') → PoolRun capacity (.alloc id :: h) p'
  | free {h : List PoolCall} {p p' : OrderPool} {i : UInt32} : PoolRun capacity h p →
      heldId i h ≠ none → p.free i = .ok p' → PoolRun capacity (.free i :: h) p'
  | relink {h : List PoolCall} {p p' : OrderPool} {i : UInt32} {prevIdx nextIdx levelIdx : Int32} :
      PoolRun capacity h p → heldId i h ≠ none →
      p.modify i (Order.relinked prevIdx nextIdx levelIdx) = .ok p' →
      PoolRun capacity (.relink i prevIdx nextIdx levelIdx :: h) p'

/-- The generation a slot carries after `k` allocations. -/
def generationAt : Nat → UInt32
  | 0 => 0
  | k + 1 => UInt32.ofNat (k % (2 ^ 32 - 1) + 1)

theorem generationAt_toNat (k : Nat) :
    (generationAt (k + 1)).toNat = k % (2 ^ 32 - 1) + 1 := by
  have h : k % (2 ^ 32 - 1) < 2 ^ 32 - 1 := Nat.mod_lt _ (by decide)
  exact toNat_ofNat32 (by omega)

theorem bump_generationAt (k : Nat) :
    OrderPool.bump (generationAt k) = generationAt (k + 1) := by
  apply UInt32.toNat_inj.mp
  rw [generationAt_toNat]
  cases k with
  | zero => rfl
  | succ k =>
    have hk := generationAt_toNat k
    have hlt : k % (2 ^ 32 - 1) < 2 ^ 32 - 1 := Nat.mod_lt _ (by decide)
    have hs : (k + 1) % (2 ^ 32 - 1) =
        if k % (2 ^ 32 - 1) + 1 = 2 ^ 32 - 1 then 0 else k % (2 ^ 32 - 1) + 1 := by
      split <;> omega
    unfold OrderPool.bump
    by_cases hm : generationAt (k + 1) = 0xFFFFFFFF
    · have hm' : k % (2 ^ 32 - 1) + 1 = 2 ^ 32 - 1 := by
        rw [← hk, hm]; rfl
      rw [if_pos hm, hs, if_pos hm']
      rfl
    · have hm' : k % (2 ^ 32 - 1) + 1 ≠ 2 ^ 32 - 1 := by
        intro e
        exact hm (UInt32.toNat_inj.mp (by rw [hk, e]; rfl))
      rw [if_neg hm, hs, if_neg hm', UInt32.toNat_add, hk, UInt32.toNat_one]
      omega

theorem generationAt_eq (k n : Nat) :
    generationAt (k + 1 + n) = generationAt (k + 1) ↔ n % (2 ^ 32 - 1) = 0 := by
  rw [← UInt32.toNat_inj, show k + 1 + n = (k + n) + 1 by omega, generationAt_toNat,
    generationAt_toNat]
  omega

theorem allocCount_append (i : UInt32) (l h : List PoolCall) :
    allocCount i (l ++ h) = allocCount i l + allocCount i h := by
  induction l with
  | nil => simp [allocCount]
  | cons c l ih =>
    cases c with
    | alloc id => simp only [List.cons_append, allocCount, ih]; omega
    | free j => exact ih
    | relink j a b c => exact ih

theorem held_append {i : UInt32} {l h : List PoolCall} {x : OrderId}
    (hx : heldId i (l ++ h) = some x) : 0 < allocCount i l ∨ heldId i h = some x := by
  induction l with
  | nil => exact .inr hx
  | cons c l ih =>
    cases c with
    | alloc id =>
      simp only [List.cons_append, heldId] at hx
      simp only [allocCount]
      split at hx
      · exact .inl (by simp [*])
      · exact (ih hx).imp_left (fun hl => by omega)
    | free j =>
      simp only [List.cons_append, heldId] at hx
      split at hx
      · cases hx
      · exact ih hx
    | relink j a b c => exact ih hx

/-- The pool and the calls made on it agree slot by slot. -/
structure PoolTracks (capacity : UInt32) (h : List PoolCall) (p : OrderPool) (F : List UInt32) :
    Prop where
  inv : p.Inv F
  size : p.slots.size = capacity.toNat
  generation : ∀ i, (p.slot i).generation = generationAt (allocCount i h)
  held : ∀ i id, heldId i h = some id ↔ p.Live i ∧ (p.slot i).orderId = id
  minted : ∀ i id, heldId i h = some id → id = makeOrderId (generationAt (allocCount i h)) i

section Steps

variable {capacity : UInt32} {h : List PoolCall} {p p' : OrderPool} {F : List UInt32}

theorem PoolTracks.not_live (t : PoolTracks capacity h p F) {i : UInt32} :
    heldId i h = none ↔ ¬ p.Live i := by
  constructor
  · intro hn hl
    rw [(t.held i _).mpr ⟨hl, rfl⟩] at hn
    cases hn
  · intro hl
    cases hh : heldId i h with
    | none => rfl
    | some id => exact absurd ((t.held i id).mp hh).1 hl

theorem PoolTracks.new (hp : OrderPool.new capacity = .ok p) : ∃ F, PoolTracks capacity [] p F := by
  have hc : capacity.toNat ≤ 2 ^ 31 - 1 := by
    by_contra hc
    rw [OrderPool.new, assert_neg hc] at hp
    cases hp
  obtain ⟨q, hq, hinv, hsize, hslot⟩ := OrderPool.new_inv hc
  rw [hp] at hq
  cases hq
  refine ⟨_, hinv, hsize, fun i => (hslot i).1, fun i id => ?_, fun i id hh => ?_⟩
  · simp [heldId, OrderPool.Live, (hslot i).2.1]
  · cases hh

theorem PoolTracks.alloc (t : PoolTracks capacity h p F) {id : OrderId}
    (ha : p.alloc = .ok (id, p')) : ∃ F', PoolTracks capacity (.alloc id :: h) p' F' := by
  cases F with
  | nil =>
    rw [OrderPool.alloc_empty t.inv] at ha
    cases ha
    exact ⟨[], t.inv, t.size, fun i => by simpa [allocCount] using t.generation i,
      fun i id => by simpa [heldId] using t.held i id,
      fun i id => by simpa [heldId, allocCount] using t.minted i id⟩
  | cons i F =>
    rw [OrderPool.alloc_cons t.inv] at ha
    cases ha
    have hi := ((t.inv.mem i).mp (by simp)).1
    have hne := makeOrderId_ne_invalid (OrderPool.bump_ne_zero (p.slot i).generation) i
    have hgen : generationAt (allocCount i h + 1) = OrderPool.bump (p.slot i).generation := by
      rw [t.generation, bump_generationAt]
    refine ⟨F, t.inv.take, by simpa using t.size, fun j => ?_, fun j id => ?_, fun j id hh => ?_⟩
    · rw [OrderPool.slot_take hi]
      by_cases hj : j = i
      · subst hj
        simp [allocCount, hne, hgen, OrderPool.taken]
      · simp [allocCount, hj, Ne.symm hj, t.generation j]
    · simp only [heldId, indexOf_makeOrderId, OrderPool.Live, OrderPool.take_size,
        OrderPool.slot_take hi]
      by_cases hj : j = i
      · subst hj
        simp [hne, hi, OrderPool.taken]
      · simpa [hj, Ne.symm hj, OrderPool.Live] using t.held j id
    · simp only [heldId, indexOf_makeOrderId, allocCount] at hh ⊢
      by_cases hj : i = j
      · subst hj
        simp only [hne, ne_eq, not_false_eq_true, and_self, if_true] at hh ⊢
        cases hh
        rw [hgen]
      · simp only [hj, and_false, if_false] at hh ⊢
        exact t.minted j id hh

theorem PoolTracks.free (t : PoolTracks capacity h p F) {i : UInt32} (hheld : heldId i h ≠ none)
    (hf : p.free i = .ok p') : ∃ F', PoolTracks capacity (.free i :: h) p' F' := by
  have hl : p.Live i := by
    by_contra hn
    exact hheld (t.not_live.mpr hn)
  rw [OrderPool.free_ok hl] at hf
  cases hf
  refine ⟨_, t.inv.release hl, by simpa using t.size, fun j => ?_, fun j id => ?_,
    fun j id hh => ?_⟩
  · rw [OrderPool.slot_release hl.1]
    by_cases hj : j = i
    · subst hj
      simpa [allocCount] using t.generation j
    · simp [allocCount, hj, t.generation j]
  · simp only [heldId, OrderPool.Live, OrderPool.release_size, OrderPool.slot_release hl.1]
    by_cases hj : j = i
    · subst hj
      simp
    · simpa [hj, Ne.symm hj, OrderPool.Live] using t.held j id
  · by_cases hj : i = j
    · simp [heldId, hj] at hh
    · rw [heldId, if_neg hj] at hh
      exact t.minted j id hh

theorem PoolTracks.relink (t : PoolTracks capacity h p F) {i : UInt32}
    {prevIdx nextIdx levelIdx : Int32} (hheld : heldId i h ≠ none)
    (hm : p.modify i (Order.relinked prevIdx nextIdx levelIdx) = .ok p') :
    ∃ F', PoolTracks capacity (.relink i prevIdx nextIdx levelIdx :: h) p' F' := by
  have hl : p.Live i := by
    by_contra hn
    exact hheld (t.not_live.mpr hn)
  rw [OrderPool.modify_ok hl.1] at hm
  cases hm
  have hslot : ∀ j,
      ((p.set i (Order.relinked prevIdx nextIdx levelIdx (p.slot i))).slot j).orderId =
        (p.slot j).orderId ∧
      ((p.set i (Order.relinked prevIdx nextIdx levelIdx (p.slot i))).slot j).generation =
        (p.slot j).generation := by
    intro j
    rw [OrderPool.slot_set hl.1]
    split
    · rename_i hj
      subst hj
      exact ⟨rfl, rfl⟩
    · exact ⟨rfl, rfl⟩
  refine ⟨F, ?_, by simpa using t.size, fun j => ?_, fun j id => ?_, fun j id => t.minted j id⟩
  · refine t.inv.congr (by simp) rfl rfl (fun j => (hslot j).1) (fun j => (hslot j).2) ?_
    intro j hj
    have hne : j ≠ i := fun e => t.inv.not_live hj (e ▸ hl)
    rw [OrderPool.slot_set hl.1, if_neg hne]
  · rw [(hslot j).2, t.generation]
    rfl
  · rw [OrderPool.Live, OrderPool.set_size, (hslot j).1]
    exact t.held j id

end Steps

theorem PoolRun.tracks {capacity : UInt32} {h : List PoolCall} {p : OrderPool}
    (r : PoolRun capacity h p) : ∃ F, PoolTracks capacity h p F := by
  induction r with
  | new hp => exact PoolTracks.new hp
  | alloc _ ha ih =>
    obtain ⟨F, t⟩ := ih
    exact t.alloc ha
  | free _ hh hf ih =>
    obtain ⟨F, t⟩ := ih
    exact t.free hh hf
  | relink _ hh hm ih =>
    obtain ⟨F, t⟩ := ih
    exact t.relink hh hm

theorem PoolRun.init {capacity : UInt32} {l h : List PoolCall} {p : OrderPool}
    (r : PoolRun capacity (l ++ h) p) : ∃ q, PoolRun capacity h q := by
  induction l generalizing p with
  | nil => exact ⟨p, r⟩
  | cons c l ih =>
    cases r with
    | alloc r _ => exact ih r
    | free r _ _ => exact ih r
    | relink r _ _ => exact ih r

theorem PoolRun.minted {capacity : UInt32} {l e : List PoolCall} {p : OrderPool} {id : OrderId}
    (r : PoolRun capacity (l ++ .alloc id :: e) p) (hid : id ≠ kInvalidOrderId) :
    id = makeOrderId (generationAt (allocCount (indexOf id) e + 1)) (indexOf id) := by
  obtain ⟨q, rq⟩ := r.init
  obtain ⟨F, t⟩ := rq.tracks
  have h := t.minted (indexOf id) id (by simp [heldId, hid])
  simpa [allocCount, hid] using h

/-- Handing out and recognising ids, after the calls `h` on a pool of this capacity. -/
structure PoolLaw (capacity : UInt32) (h : List PoolCall) (p : OrderPool) : Prop where
  freeList : ∃ F, Chain p.next (OrderPool.deref p.freeHead) F ∧ F.Nodup ∧
    (∀ i, i ∈ F ↔ i.toNat < capacity.toNat ∧ heldId i h = none) ∧
    p.liveCount.toNat + F.length = capacity.toNat
  allocFull : p.liveCount = capacity → p.alloc = .ok (kInvalidOrderId, p)
  allocNext : p.liveCount ≠ capacity → ∃ i id p', i.toNat < capacity.toNat ∧ heldId i h = none ∧
    id = makeOrderId (generationAt (allocCount i h + 1)) i ∧ id ≠ kInvalidOrderId ∧
    p.alloc = .ok (id, p')
  freeHeld : ∀ i, heldId i h ≠ none → ∃ p', p.free i = .ok p'
  minted : ∀ l id e, h = l ++ .alloc id :: e → id ≠ kInvalidOrderId →
    (generationOf id).toNat = allocCount (indexOf id) e % (2 ^ 32 - 1) + 1
  find : ∀ x o, p.find x = some o ↔
    heldId (indexOf x) h = some x ∧ p.slot (indexOf x) = o
  stale : ∀ l i e x, h = l ++ .free i :: e → heldId i e = some x →
    allocCount i l < 2 ^ 32 - 1 → p.find x = none
  recycled : ∀ l i e x, h = l ++ .free i :: e → heldId i e = some x →
    allocCount i l = 2 ^ 32 - 1 → heldId i h ≠ none → p.find x = some (p.slot i)

section Law

variable {capacity : UInt32} {h : List PoolCall} {p : OrderPool} {F : List UInt32}

theorem PoolTracks.find (t : PoolTracks capacity h p F) (x : OrderId) (o : Order) :
    p.find x = some o ↔ heldId (indexOf x) h = some x ∧ p.slot (indexOf x) = o := by
  rw [OrderPool.find_eq_some, t.held, and_assoc]

theorem PoolTracks.full_iff (t : PoolTracks capacity h p F) : p.liveCount = capacity ↔ F = [] := by
  have h₁ := t.inv.live
  have h₂ := t.size
  rw [← UInt32.toNat_inj, ← List.length_eq_zero_iff]
  omega

theorem PoolTracks.index_of_held (t : PoolTracks capacity h p F) {i : UInt32} {x : OrderId}
    (hx : heldId i h = some x) : indexOf x = i := by
  rw [t.minted i x hx, indexOf_makeOrderId]

/-- A freed id only comes back after whole cycles of generations. -/
theorem PoolRun.held_again {l e : List PoolCall} {i : UInt32} {x y : OrderId}
    (r : PoolRun capacity (l ++ .free i :: e) p) (hx : heldId i e = some x)
    (hy : heldId i (l ++ .free i :: e) = some y) :
    0 < allocCount i l ∧ (y = x ↔ allocCount i l % (2 ^ 32 - 1) = 0) := by
  obtain ⟨q, rq⟩ := r.init
  cases rq with
  | free re _ _ =>
    obtain ⟨F, t⟩ := r.tracks
    obtain ⟨F', t'⟩ := re.tracks
    have hl : 0 < allocCount i l := by
      rcases held_append hy with h | h
      · exact h
      · simp [heldId] at h
    have he : 0 < allocCount i e := by
      have h := held_append (l := e) (h := []) (by simpa using hx)
      simpa [heldId] using h
    refine ⟨hl, ?_⟩
    have hcount : allocCount i (l ++ .free i :: e) = allocCount i e - 1 + 1 + allocCount i l := by
      rw [allocCount_append, allocCount]
      omega
    have hx' := t'.minted i x hx
    have hy' := t.minted i y hy
    rw [show allocCount i e = allocCount i e - 1 + 1 by omega] at hx'
    rw [hcount] at hy'
    rw [← generationAt_eq (allocCount i e - 1)]
    constructor
    · intro h
      have hg := congrArg generationOf h
      rwa [hx', hy', generationOf_makeOrderId, generationOf_makeOrderId] at hg
    · intro h
      rw [hx', hy', h]

end Law

theorem PoolRun.law {capacity : UInt32} {h : List PoolCall} {p : OrderPool}
    (r : PoolRun capacity h p) : PoolLaw capacity h p := by
  obtain ⟨F, t⟩ := r.tracks
  have hfree : ∀ i, i ∈ F ↔ i.toNat < capacity.toNat ∧ heldId i h = none := by
    intro i
    rw [t.inv.mem, t.not_live, OrderPool.Live, t.size]
    tauto
  refine ⟨⟨F, t.inv.chain, t.inv.nodup, hfree, by rw [t.inv.live, t.size]⟩, ?_, ?_, ?_, ?_, t.find,
    ?_, ?_⟩
  · intro hfull
    have hnil := t.full_iff.mp hfull
    subst hnil
    exact OrderPool.alloc_empty t.inv
  · intro hfull
    cases F with
    | nil => exact absurd (t.full_iff.mpr rfl) hfull
    | cons i F =>
      obtain ⟨hi, hh⟩ := (hfree i).mp (by simp)
      have hne := makeOrderId_ne_invalid (OrderPool.bump_ne_zero (p.slot i).generation) i
      refine ⟨i, _, p.take i, hi, hh, ?_, hne, OrderPool.alloc_cons t.inv⟩
      rw [t.generation, bump_generationAt]
  · intro i hi
    exact ⟨_, OrderPool.free_ok (by_contra fun hn => hi (t.not_live.mpr hn))⟩
  · rintro l id e rfl hid
    have hm := congrArg generationOf (r.minted hid)
    rw [generationOf_makeOrderId] at hm
    rw [hm, generationAt_toNat]
  · rintro l i e x rfl hx hlt
    cases hf : p.find x with
    | none => rfl
    | some o =>
      have hh := ((t.find x o).mp hf).1
      obtain ⟨q, rq⟩ := r.init
      cases rq with
      | free re _ _ =>
        obtain ⟨F', t'⟩ := re.tracks
        rw [t'.index_of_held hx] at hh
        obtain ⟨hpos, hiff⟩ := r.held_again hx hh
        have := hiff.mp rfl
        omega
  · rintro l i e x rfl hx hcycle hheld
    cases hy : heldId i (l ++ .free i :: e) with
    | none => exact absurd hy hheld
    | some y =>
      obtain ⟨_, hiff⟩ := r.held_again hx hy
      have hyx : y = x := hiff.mpr (by rw [hcycle, Nat.mod_self])
      subst hyx
      have hi := t.index_of_held hy
      exact (t.find y _).mpr ⟨by rw [hi]; exact hy, by rw [hi]⟩

/-- `alloc`, `free` and `find` over every run of every pool the constructor admits. -/
theorem pool_ids_exact (capacity : UInt32) (hc : capacity.toNat ≤ 2 ^ 31 - 1) :
    (∃ p, PoolRun capacity [] p) ∧ ∀ h p, PoolRun capacity h p → PoolLaw capacity h p := by
  refine ⟨?_, fun h p r => r.law⟩
  obtain ⟨p, hp, _⟩ := OrderPool.new_inv hc
  exact ⟨p, .new hp⟩

/-- Two slots handed out, and the first of them again after the book has freed it: its
old id is stale. -/
theorem pool_ids_exact_small :
    let h := [PoolCall.alloc (makeOrderId 2 0), .free 0, .relink 0 (-1) 1 7,
      .alloc (makeOrderId 1 1), .alloc (makeOrderId 1 0)]
    ∃ p, PoolRun 2 h p ∧ PoolLaw 2 h p ∧ p.find (makeOrderId 1 0) = none ∧
      p.find (makeOrderId 2 0) = some (p.slot 0) ∧ p.find (makeOrderId 1 1) = some (p.slot 1) ∧
      p.alloc = .ok (kInvalidOrderId, p) := by
  intro h
  obtain ⟨p, r⟩ : ∃ p, PoolRun 2 h p :=
    ⟨_, .alloc (.free (.relink (.alloc (.alloc (.new rfl) rfl) rfl) (by decide) rfl) (by decide)
      rfl) rfl⟩
  have law := (pool_ids_exact 2 (by decide)).2 _ _ r
  refine ⟨p, r, law, ?_, (law.find _ _).mpr ⟨by decide, by rw [indexOf_makeOrderId]⟩,
    (law.find _ _).mpr ⟨by decide, by rw [indexOf_makeOrderId]⟩, law.allocFull ?_⟩
  · exact law.stale [.alloc (makeOrderId 2 0)] 0 _ _ rfl (by decide) (by decide)
  · obtain ⟨F, -, -, hF, hlen⟩ := law.freeList
    have hnone : F = [] := List.eq_nil_iff_forall_not_mem.mpr fun i hi => by
      obtain ⟨hi, hh⟩ := (hF i).mp hi
      have hi' : i = 0 ∨ i = 1 := by
        rw [← UInt32.toNat_inj, ← UInt32.toNat_inj (b := 1)]
        exact Nat.le_one_iff_eq_zero_or_eq_one.mp (Nat.lt_succ_iff.mp hi)
      rcases hi' with rfl | rfl <;> exact absurd hh (by decide)
    rw [hnone] at hlen
    exact UInt32.toNat_inj.mp hlen

end LimitOrderBook
