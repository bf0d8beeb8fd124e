import LimitOrderBook.SpscQueue

set_option autoImplicit false

namespace LimitOrderBook
open Checked Wrapping

variable {T : Type} {k hc tc : Nat} {q : SPSCQueue T} {pushed popped : List T}

/-- The ring between the published items and the items handed out. -/
structure RingRep (k : Nat) (q : SPSCQueue T) (pushed popped : List T) (hc tc : Nat) : Prop where
  exp_lt : k < 64
  size_eq : q.slots.size = 2 ^ k
  mask_eq : q.mask = UInt64.ofNat (2 ^ k) - 1
  tail_eq : q.tail = UInt64.ofNat pushed.length
  head_eq : q.head = UInt64.ofNat popped.length
  headCache_eq : q.headCache = UInt64.ofNat hc
  tailCache_eq : q.tailCache = UInt64.ofNat tc
  served : popped <+: pushed
  hc_le : hc ≤ popped.length
  le_tc : popped.length ≤ tc
  tc_le : tc ≤ pushed.length
  room : pushed.length ≤ hc + 2 ^ k
  held : ∀ i, popped.length ≤ i → i < pushed.length → q.slots[i % 2 ^ k]? = pushed[i]?

namespace RingRep

theorem pow_lt (h : RingRep k q pushed popped hc tc) : 2 ^ k < 2 ^ 64 :=
  Nat.pow_lt_pow_right (by decide) h.exp_lt

theorem capacity_eq (h : RingRep k q pushed popped hc tc) :
    q.capacity = UInt64.ofNat (2 ^ k) := by
  rw [SPSCQueue.capacity, h.size_eq]

theorem capacity_toNat (h : RingRep k q pushed popped hc tc) : q.capacity.toNat = 2 ^ k := by
  rw [h.capacity_eq, toNat_ofNat, Nat.mod_eq_of_lt h.pow_lt]

theorem slot?_eq (h : RingRep k q pushed popped hc tc) (i : Nat) :
    q.slot? (UInt64.ofNat i) = q.slots[i % 2 ^ k]? := by
  rw [SPSCQueue.slot?, h.mask_eq, toNat_and_mask h.exp_lt]

theorem sub_headCache (h : RingRep k q pushed popped hc tc) :
    (UInt64.ofNat pushed.length - q.headCache).toNat = pushed.length - hc := by
  have := h.hc_le
  have := h.le_tc
  have := h.tc_le
  have := h.room
  have := h.pow_lt
  rw [h.headCache_eq]
  exact toNat_sub (by omega) (by omega)

theorem full_iff (h : RingRep k q pushed popped hc tc) :
    UInt64.ofNat pushed.length - q.headCache = q.capacity ↔ pushed.length = hc + 2 ^ k := by
  have := h.hc_le
  have := h.le_tc
  have := h.tc_le
  rw [← UInt64.toNat_inj, h.sub_headCache, h.capacity_toNat]
  omega

theorem size_toNat (h : RingRep k q pushed popped hc tc) :
    q.size.toNat = pushed.length - popped.length := by
  have := h.hc_le
  have := h.le_tc
  have := h.tc_le
  have := h.room
  have := h.pow_lt
  rw [SPSCQueue.size, h.tail_eq, h.head_eq]
  exact toNat_sub (by omega) (by omega)

theorem sub_head (h : RingRep k q pushed popped hc tc) :
    (q.tailCache - UInt64.ofNat popped.length).toNat = tc - popped.length := by
  have := h.hc_le
  have := h.le_tc
  have := h.tc_le
  have := h.room
  have := h.pow_lt
  rw [h.tailCache_eq]
  exact toNat_sub h.le_tc (by omega)

theorem eq_tailCache (h : RingRep k q pushed popped hc tc) :
    UInt64.ofNat popped.length = q.tailCache ↔ popped.length = tc := by
  have := h.hc_le
  have := h.tc_le
  have := h.room
  have := h.pow_lt
  rw [h.tailCache_eq, eq_comm, ofNat_inj h.le_tc (by omega), eq_comm]

theorem refreshHead (h : RingRep k q pushed popped hc tc) :
    RingRep k { q with headCache := q.head } pushed popped popped.length tc := by
  have := h.hc_le
  have := h.room
  exact { h with headCache_eq := h.head_eq, hc_le := le_rfl, room := by omega }

theorem refreshTail (h : RingRep k q pushed popped hc tc) :
    RingRep k { q with tailCache := q.tail } pushed popped hc pushed.length :=
  { h with tailCache_eq := h.tail_eq, le_tc := h.served.length_le, tc_le := le_rfl }

theorem write (h : RingRep k q pushed popped hc tc) (hroom : pushed.length < hc + 2 ^ k)
    (value : T) : ∃ q', q.writeSlot (UInt64.ofNat pushed.length) value = .ok q' ∧
      RingRep k q' pushed popped hc tc ∧ q'.slots[pushed.length % 2 ^ k]? = some value := by
  have hlt : pushed.length % 2 ^ k < q.slots.size := by
    rw [h.size_eq]
    exact Nat.mod_lt _ (Nat.two_pow_pos k)
  have hidx : (UInt64.ofNat pushed.length &&& q.mask).toNat = pushed.length % 2 ^ k := by
    rw [h.mask_eq, toNat_and_mask h.exp_lt]
  refine ⟨{ q with slots := q.slots.setIfInBounds (pushed.length % 2 ^ k) value }, ?_, ?_, ?_⟩
  · simp only [SPSCQueue.writeSlot, hidx, hlt, if_true, pure_eq_ok]
  · refine { h with size_eq := ?_, held := fun i h₁ h₂ => ?_ }
    · exact (Array.size_setIfInBounds ..).trans h.size_eq
    · have hne : pushed.length % 2 ^ k ≠ i % 2 ^ k :=
        (mod_ne h₂ (by have := h.hc_le; omega)).symm
      exact (Array.getElem?_setIfInBounds_ne hne).trans (h.held i h₁ h₂)
  · exact Array.getElem?_setIfInBounds_self_of_lt hlt

theorem publish (h : RingRep k q pushed popped hc tc) (hroom : pushed.length < hc + 2 ^ k)
    {value : T} (hslot : q.slots[pushed.length % 2 ^ k]? = some value) :
    RingRep k { q with tail := UInt64.ofNat pushed.length + 1 } (pushed ++ [value]) popped
      hc tc := by
  have hlen : (pushed ++ [value]).length = pushed.length + 1 := by simp
  have := h.tc_le
  refine { h with
    tail_eq := by rw [hlen]; exact ofNat_succ _
    served := h.served.trans (List.prefix_append ..)
    tc_le := by omega
    room := by omega
    held := fun i h₁ h₂ => ?_ }
  by_cases hi : i < pushed.length
  · rw [List.getElem?_append_left hi]
    exact h.held i h₁ hi
  · obtain rfl : i = pushed.length := by omega
    rw [List.getElem?_concat_length]
    exact hslot

theorem read (h : RingRep k q pushed popped hc tc) {i : Nat} (h₁ : popped.length ≤ i)
    (h₂ : i < pushed.length) : q.readSlot (UInt64.ofNat i) = .ok pushed[i] := by
  rw [SPSCQueue.readSlot, h.slot?_eq, h.held i h₁ h₂, List.getElem?_eq_getElem h₂]
  rfl

theorem release (h : RingRep k q pushed popped hc tc) {out : List T}
    (hout : out <+: pushed.drop popped.length) (htc : popped.length + out.length ≤ tc) :
    RingRep k { q with head := UInt64.ofNat popped.length + UInt64.ofNat out.length } pushed
      (popped ++ out) hc tc := by
  have hlen : (popped ++ out).length = popped.length + out.length := List.length_append
  have := h.hc_le
  refine { h with
    head_eq := by rw [hlen]; exact ofNat_add _ _
    served := ?_
    hc_le := by omega
    le_tc := by omega
    held := fun i h₁ h₂ => h.held i (by omega) h₂ }
  have hitems := (List.prefix_append_right_inj popped).mpr hout
  rwa [← List.prefix_append_drop h.served] at hitems

end RingRep

def TryPush.At (k : Nat) (q : SPSCQueue T) (pushed : List T) (hc : Nat) : TryPush T → Prop
  | loadTail _ | loadHighWater _ _ _ true | storeHighWater _ _ _ true => True
  | loadHead _ tail => tail = UInt64.ofNat pushed.length
  | writeSlot _ tail => tail = UInt64.ofNat pushed.length ∧ pushed.length < hc + 2 ^ k
  | loadHighWater value tail _ false | storeHighWater value tail _ false
  | storeTail value tail => tail = UInt64.ofNat pushed.length ∧ pushed.length < hc + 2 ^ k ∧
      q.slots[pushed.length % 2 ^ k]? = some value

def TryPop.At (pushed popped : List T) (tc : Nat) : TryPop T → Prop
  | loadHead request => request.Allowed
  | loadTail request head => head = UInt64.ofNat popped.length ∧ request.Allowed
  | copy head n out => head = UInt64.ofNat popped.length ∧ 0 < n ∧
      popped.length + n.toNat ≤ tc ∧ out.length ≤ n.toNat ∧ out <+: pushed.drop popped.length

/-- The invariant of the ring with both sides inside or outside a call. -/
structure RingInv (k : Nat) (q : SPSCQueue T) (push : Option (TryPush T))
    (pop : Option (TryPop T)) (pushed popped : List T) (hc tc : Nat) : Prop where
  rep : RingRep k q pushed popped hc tc
  pushAt : ∀ pc ∈ push, pc.At k q pushed hc
  popAt : ∀ pc ∈ pop, pc.At pushed popped tc

def RingOk (k : Nat) (q : SPSCQueue T) (push : Option (TryPush T)) (pop : Option (TryPop T))
    (pushed popped : List T) : Prop :=
  ∃ hc tc, RingInv k q push pop pushed popped hc tc

theorem TryPop.At.grow {pc : TryPop T} (h : pc.At pushed popped tc) (hp : popped <+: pushed)
    (value : T) : pc.At (pushed ++ [value]) popped tc := by
  cases pc with
  | loadHead => exact h
  | loadTail => exact h
  | copy head n out =>
    obtain ⟨h₁, h₂, h₃, h₄, h₅⟩ := h
    refine ⟨h₁, h₂, h₃, h₄, ?_⟩
    rw [List.drop_append_of_le_length hp.length_le]
    exact h₅.trans (List.prefix_append ..)

theorem PopRequest.take_eq_none {r : PopRequest} {head tailCache : UInt64} :
    r.take head tailCache = none ↔ head = tailCache := by
  have hsub : tailCache - head = 0 ↔ head = tailCache := by
    rw [UInt64.sub_eq_iff_eq_add, UInt64.zero_add, eq_comm]
  cases r with
  | pop => simp [take]
  | popBatch maxItems => simp [take, hsub]

theorem PopRequest.take_bounds {r : PopRequest} (hr : r.Allowed) {head tailCache n : UInt64}
    (h : r.take head tailCache = some n) : 0 < n ∧ n.toNat ≤ (tailCache - head).toNat := by
  have hne : r.take head tailCache ≠ none := by simp [h]
  have hav : 0 < tailCache - head := by
    rw [ne_eq, take_eq_none, eq_comm] at hne
    rwa [UInt64.pos_iff_ne_zero, ne_eq, UInt64.sub_eq_iff_eq_add, UInt64.zero_add]
  cases r with
  | pop =>
    obtain rfl : n = 1 := by
      simp only [take] at h
      split at h <;> simp_all
    exact ⟨by decide, UInt64.lt_iff_toNat_lt.mp hav⟩
  | popBatch maxItems =>
    have hn : n = if tailCache - head < maxItems then tailCache - head else maxItems := by
      simp only [take, UInt64.pos_iff_ne_zero.mp hav, if_false, Option.some.injEq] at h
      exact h.symm
    rw [hn]
    split
    · exact ⟨hav, le_rfl⟩
    · rename_i hle
      exact ⟨hr, UInt64.le_iff_toNat_le.mp (UInt64.not_lt.mp hle)⟩

namespace RingOk

variable {push : Option (TryPush T)} {pop : Option (TryPop T)}

theorem new_pow [Inhabited T] (hk : k < 64) : ∃ q : SPSCQueue T,
    SPSCQueue.new (UInt64.ofNat (2 ^ k)) = .ok q ∧ RingOk k q none none [] [] := by
  have hlt : 2 ^ k < 2 ^ 64 := Nat.pow_lt_pow_right (by decide) hk
  refine ⟨{
    slots := Array.replicate (UInt64.ofNat (2 ^ k)).toNat default
    mask := UInt64.ofNat (2 ^ k) - 1 }, ?_, 0, 0, ?_, by simp, by simp⟩
  · rw [SPSCQueue.new, assert_pos (and_sub_one_of_pow hk)]
    rfl
  · exact {
      exp_lt := hk
      size_eq := by rw [Array.size_replicate, toNat_ofNat, Nat.mod_eq_of_lt hlt]
      mask_eq := rfl
      tail_eq := rfl
      head_eq := rfl
      headCache_eq := rfl
      tailCache_eq := rfl
      served := List.prefix_rfl
      hc_le := le_rfl
      le_tc := le_rfl
      tc_le := le_rfl
      room := Nat.zero_le _
      held := fun i _ hi => absurd hi (Nat.not_lt_zero i) }

theorem new [Inhabited T] {capacity : UInt64} {q : SPSCQueue T}
    (h : SPSCQueue.new capacity = .ok q) :
    ∃ k < 64, capacity = UInt64.ofNat (2 ^ k) ∧ RingOk k q none none [] [] := by
  obtain ⟨_, hassert, -⟩ := bind_eq_ok.mp h
  obtain ⟨k, hk, rfl⟩ := pow_of_and_sub_one (assert_eq_ok.mp hassert).1 (assert_eq_ok.mp hassert).2
  obtain ⟨q', hnew, hok⟩ := new_pow (T := T) hk
  obtain rfl := Except.ok.inj (hnew.symm.trans h)
  exact ⟨k, hk, rfl, hok⟩

theorem served (h : RingOk k q push pop pushed popped) : popped <+: pushed := by
  obtain ⟨hc, tc, hinv⟩ := h
  exact hinv.rep.served

theorem empty (h : RingOk k q push pop popped popped) : q.empty = true := by
  obtain ⟨hc, tc, hinv⟩ := h
  have hsize := hinv.rep.size_toNat
  rw [Nat.sub_self] at hsize
  have : q.size = 0 := UInt64.toNat_inj.mp hsize
  simp [SPSCQueue.empty, this]

theorem callPush (h : RingOk k q push pop pushed popped) (value : T) :
    RingOk k q (some (.loadTail value)) pop pushed popped := by
  obtain ⟨hc, tc, hinv⟩ := h
  exact ⟨hc, tc, { hinv with pushAt := by simp [TryPush.At] }⟩

theorem callPop (h : RingOk k q push pop pushed popped) {request : PopRequest}
    (hr : request.Allowed) : RingOk k q push (some (.loadHead request)) pushed popped := by
  obtain ⟨hc, tc, hinv⟩ := h
  exact ⟨hc, tc, { hinv with popAt := by simpa [TryPop.At] using hr }⟩

def AfterPush (k : Nat) (pc : TryPush T) (pop : Option (TryPop T)) (pushed popped : List T)
    (q : SPSCQueue T) : Progress (TryPush T) Bool → Prop
  | .next pc' => pc'.value = pc.value ∧ RingOk k q (some pc') pop pushed popped
  | .done ok => RingOk k q none pop (if ok then pushed ++ [pc.value] else pushed) popped

theorem goPush {pc pc' : TryPush T} (h : RingInv k q push pop pushed popped hc tc)
    (hv : pc'.value = pc.value) (hat : pc'.At k q pushed hc) :
    AfterPush k pc pop pushed popped q (.next pc') :=
  ⟨hv, hc, tc, h.rep, by simpa using hat, h.popAt⟩

theorem afterHighWater {pc : TryPush T} (h : RingInv k q push pop pushed popped hc tc)
    {value : T} {tail : UInt64} {full : Bool} (hv : value = pc.value)
    (hat : full = false → (TryPush.storeTail value tail).At k q pushed hc) :
    AfterPush k pc pop pushed popped q (TryPush.afterHighWater value tail full) := by
  cases full with
  | true => exact ⟨hc, tc, h.rep, by simp, h.popAt⟩
  | false => exact goPush h hv (hat rfl)

theorem push_step {pc : TryPush T} (h : RingOk k q (some pc) pop pushed popped) :
    ∃ q' r, pc.step q = .ok (q', r) ∧ AfterPush k pc pop pushed popped q' r := by
  obtain ⟨hc, tc, hinv⟩ := h
  have hrep := hinv.rep
  have hat := hinv.pushAt pc rfl
  cases pc with
  | loadTail value =>
    by_cases hfull : q.tail - q.headCache = q.capacity
    · exact ⟨q, _, if_pos hfull, goPush hinv rfl hrep.tail_eq⟩
    · refine ⟨q, _, if_neg hfull, goPush hinv rfl ⟨hrep.tail_eq, ?_⟩⟩
      rw [hrep.tail_eq, hrep.full_iff] at hfull
      have := hrep.room
      omega
  | loadHead value tail =>
    obtain rfl : tail = UInt64.ofNat pushed.length := hat
    have hrep' := hrep.refreshHead
    have hinv' : RingInv k { q with headCache := q.head } none pop pushed popped
      popped.length tc := ⟨hrep', by simp, hinv.popAt⟩
    by_cases hfull : UInt64.ofNat pushed.length - q.head = q.capacity
    · exact ⟨_, _, if_pos hfull, goPush hinv' rfl trivial⟩
    · refine ⟨_, _, if_neg hfull, goPush hinv' rfl ⟨rfl, ?_⟩⟩
      have := hrep'.room
      have := mt hrep'.full_iff.mpr hfull
      omega
  | writeSlot value tail =>
    obtain ⟨rfl, hroom⟩ := hat
    obtain ⟨q', hwrite, hrep', hslot⟩ := hrep.write hroom value
    have hinv' : RingInv k q' none pop pushed popped hc tc := ⟨hrep', by simp, hinv.popAt⟩
    refine ⟨q',
      .next (.loadHighWater value _ (UInt64.ofNat pushed.length + 1 - q'.headCache) false),
      ?_, goPush hinv' rfl ⟨rfl, hroom, hslot⟩⟩
    rw [TryPush.step, hwrite]
    rfl
  | loadHighWater value tail occupancy full =>
    by_cases hmore : occupancy > q.highWater
    · refine ⟨q, _, if_pos hmore, goPush hinv rfl ?_⟩
      cases full <;> exact hat
    · refine ⟨q, _, if_neg hmore, afterHighWater hinv rfl ?_⟩
      rintro rfl
      exact hat
  | storeHighWater value tail occupancy full =>
    have hinv' : RingInv k { q with highWater := occupancy } none pop pushed popped hc tc :=
      ⟨{ hrep with }, by simp, hinv.popAt⟩
    refine ⟨_, _, rfl, afterHighWater hinv' rfl ?_⟩
    rintro rfl
    exact hat
  | storeTail value tail =>
    obtain ⟨rfl, hroom, hslot⟩ := hat
    refine ⟨_, _, rfl, hc, tc, hrep.publish hroom hslot, by simp, fun pc hpc => ?_⟩
    exact (hinv.popAt pc hpc).grow hrep.served value

/-- A push takes the branch that fails only where it loads `head_` from a full ring. -/
theorem full_of_step {pc : TryPush T} (h : RingOk k q (some pc) pop pushed popped)
    (hpc : ¬ pc.Full) {q' : SPSCQueue T} {r : Progress (TryPush T) Bool}
    (hstep : pc.step q = .ok (q', r))
    (hr : r = .done false ∨ ∃ pc', r = .next pc' ∧ pc'.Full) :
    ∃ tail, pc = .loadHead pc.value tail ∧ q.size = q.capacity := by
  obtain ⟨hc, tc, hinv⟩ := h
  have hat := hinv.pushAt pc rfl
  cases pc with
  | loadHead value tail =>
    refine ⟨tail, rfl, ?_⟩
    have htail : tail = q.tail := hat.trans hinv.rep.tail_eq.symm
    by_cases hfull : tail - q.head = q.capacity
    · rw [SPSCQueue.size, ← htail, hfull]
    · cases hstep.symm.trans (if_neg hfull)
      simp [TryPush.Full] at hr
  | loadTail value =>
    simp only [TryPush.step] at hstep
    split at hstep <;> cases hstep <;> simp [TryPush.Full] at hr
  | writeSlot value tail =>
    obtain ⟨q₁, hwrite, hstep⟩ := bind_eq_ok.mp hstep
    cases hstep
    simp [TryPush.Full] at hr
  | loadHighWater value tail occupancy full =>
    cases full with
    | true => exact absurd trivial hpc
    | false =>
      simp only [TryPush.step] at hstep
      split at hstep <;> cases hstep <;> simp [TryPush.Full, TryPush.afterHighWater] at hr
  | storeHighWater value tail occupancy full =>
    cases full with
    | true => exact absurd trivial hpc
    | false =>
      cases hstep
      simp [TryPush.Full, TryPush.afterHighWater] at hr
  | storeTail value tail =>
    cases hstep
    simp at hr

/-- Where one step of a pop leaves the ring. A pop that comes back empty has seen
the ring empty. -/
def AfterPop (k : Nat) (push : Option (TryPush T)) (pushed popped : List T) (q : SPSCQueue T) :
    Progress (TryPop T) (List T) → Prop
  | .next pc' => RingOk k q push (some pc') pushed popped
  | .done out => RingOk k q push none pushed (popped ++ out) ∧ (out = [] → popped = pushed)

theorem isPrefix_snoc_getElem {out items : List T} (h : out <+: items)
    (hlt : out.length < items.length) :
    out ++ [items[out.length]] <+: items := by
  have hout := List.prefix_iff_eq_take.mp h
  have htake : items.take (out.length + 1) = out ++ [items[out.length]] := by
    rw [List.take_succ_eq_append_getElem hlt, ← hout]
  exact htake ▸ List.take_prefix ..

theorem startCopy (h : RingInv k q push pop pushed popped hc tc) {request : PopRequest}
    (hr : request.Allowed) {n : UInt64} (hn : request.take q.head q.tailCache = some n) :
    AfterPop k push pushed popped q (.next (.copy q.head n [])) := by
  obtain ⟨hpos, hle⟩ := PopRequest.take_bounds hr hn
  have := h.rep.le_tc
  rw [h.rep.head_eq, h.rep.sub_head] at hle
  refine ⟨hc, tc, h.rep, h.pushAt, ?_⟩
  simp only [Option.mem_def, Option.some.injEq, forall_eq']
  exact ⟨h.rep.head_eq, hpos, by omega, Nat.zero_le _, List.nil_prefix⟩

theorem pop_step {pc : TryPop T} (h : RingOk k q push (some pc) pushed popped) :
    ∃ q' r, pc.step q = .ok (q', r) ∧ AfterPop k push pushed popped q' r := by
  obtain ⟨hc, tc, hinv⟩ := h
  have hrep := hinv.rep
  have hat := hinv.popAt pc rfl
  cases pc with
  | loadHead request =>
    have hr : request.Allowed := hat
    cases htake : request.take q.head q.tailCache with
    | none =>
      refine ⟨q, .next (.loadTail request q.head), ?_, hc, tc, hrep, hinv.pushAt, ?_⟩
      · simp [TryPop.step, hr, htake]
      · simpa [TryPop.At, hr] using hrep.head_eq
    | some n =>
      exact ⟨q, _, by simp [TryPop.step, hr, htake], startCopy hinv hr htake⟩
  | loadTail request head =>
    obtain ⟨rfl, hr⟩ : head = q.head ∧ request.Allowed := ⟨hat.1.trans hrep.head_eq.symm, hat.2⟩
    have hinv' : RingInv k { q with tailCache := q.tail } push none pushed popped hc
      pushed.length := ⟨hrep.refreshTail, hinv.pushAt, by simp⟩
    cases htake : request.take q.head q.tail with
    | none =>
      refine ⟨{ q with tailCache := q.tail }, .done [], by simp [TryPop.step, htake], ?_⟩
      refine ⟨⟨hc, pushed.length, by simpa using hinv'⟩, fun _ => ?_⟩
      have heq := PopRequest.take_eq_none.mp htake
      rw [hrep.head_eq, hrep.refreshTail.eq_tailCache] at heq
      exact hrep.served.eq_of_length heq
    | some n =>
      exact ⟨_, _, by simp [TryPop.step, htake], startCopy hinv' hr htake⟩
  | copy head n out =>
    obtain ⟨rfl, hpos, htc, hlen, hout⟩ := hat
    have := hrep.tc_le
    have hnat : (UInt64.ofNat out.length).toNat = out.length := by
      have := n.toNat_lt
      rw [toNat_ofNat, Nat.mod_eq_of_lt (by omega)]
    by_cases hmore : UInt64.ofNat out.length < n
    · have hlt : out.length < n.toNat := by rwa [UInt64.lt_iff_toNat_lt, hnat] at hmore
      have hread := hrep.read (i := popped.length + out.length) (by omega) (by omega)
      refine ⟨q, .next (.copy (UInt64.ofNat popped.length) n
        (out ++ [pushed[popped.length + out.length]])), ?_, hc, tc, hrep, hinv.pushAt, ?_⟩
      · rw [TryPop.step, if_pos hmore, ofNat_add, hread]
        rfl
      · simp only [Option.mem_def, Option.some.injEq, forall_eq']
        refine ⟨rfl, hpos, htc, by simpa using hlt, ?_⟩
        have hnext := isPrefix_snoc_getElem hout (by simp; omega)
        rwa [List.getElem_drop] at hnext
    · have hlen' : out.length = n.toNat := by
        rw [UInt64.not_lt, UInt64.le_iff_toNat_le, hnat] at hmore
        omega
      obtain rfl : n = UInt64.ofNat out.length := UInt64.toNat_inj.mp (hlen'.symm.trans hnat.symm)
      refine ⟨{ q with head := UInt64.ofNat popped.length + UInt64.ofNat out.length },
        .done out, if_neg hmore, ⟨hc, tc, ?_⟩, ?_⟩
      · exact ⟨hrep.release hout (by omega), hinv.pushAt, by simp⟩
      · rintro rfl
        exact absurd hpos (by simp)

end RingOk

end LimitOrderBook
