import LimitOrderBook.SpscRing

set_option autoImplicit false

namespace LimitOrderBook
open Checked Wrapping

structure Spsc (T : Type) where
  queue : SPSCQueue T
  push : Option (TryPush T) := none
  pop : Option (TryPop T) := none

/-- What a scheduler can pick: a side starts a call, or makes its next load or store. -/
inductive Choice (T : Type) where
  | callPush (value : T)
  | producer
  | callPop (request : PopRequest)
  | consumer

def Choice.Allowed {T : Type} : Choice T → Prop
  | callPush _ | producer | consumer => True
  | callPop request => request.Allowed

instance {T : Type} : DecidablePred (@Choice.Allowed T)
  | .callPush _ | .producer | .consumer => inferInstanceAs (Decidable True)
  | .callPop request => inferInstanceAs (Decidable request.Allowed)

inductive Return (T : Type) where
  | pushed (value : T)
  | refused (value : T)
  | popped (items : List T)
  deriving DecidableEq

namespace Return

variable {T : Type}

def pushedItem : Return T → List T
  | pushed value => [value]
  | _ => []

def poppedItems : Return T → List T
  | popped items => items
  | _ => []

end Return

/-- The items whose push has published them. -/
def pushedOf {T : Type} (log : List (Return T)) : List T := log.flatMap Return.pushedItem

def poppedOf {T : Type} (log : List (Return T)) : List T := log.flatMap Return.poppedItems

namespace Spsc

variable {T : Type}

/-- A side that is in a call starts no other, and one outside a call has nothing to do. -/
def step (s : Spsc T) : Choice T → Exec (Spsc T × List (Return T))
  | .callPush value =>
    match s.push with
    | some _ => pure (s, [])
    | none => pure ({ s with push := some (.loadTail value) }, [])
  | .producer =>
    match s.push with
    | none => pure (s, [])
    | some pc => do
      match ← pc.step s.queue with
      | (queue, .next pc) => pure ({ s with queue, push := some pc }, [])
      | (queue, .done ok) =>
        let out := if ok then .pushed pc.value else .refused pc.value
        pure ({ s with queue, push := none }, [out])
  | .callPop request =>
    match s.pop with
    | some _ => pure (s, [])
    | none => pure ({ s with pop := some (.loadHead request) }, [])
  | .consumer =>
    match s.pop with
    | none => pure (s, [])
    | some pc => do
      match ← pc.step s.queue with
      | (queue, .next pc) => pure ({ s with queue, pop := some pc }, [])
      | (queue, .done items) => pure ({ s with queue, pop := none }, [.popped items])

/-- The slots from `head_` up to `tail_`. -/
def unread (s : Spsc T) : List (Option T) :=
  (List.range s.queue.size.toNat).map fun i => s.queue.slot? (s.queue.head + UInt64.ofNat i)

/-- The ring keeps its promises in this state, after these calls have returned. -/
structure Delivers (s : Spsc T) (log : List (Return T)) : Prop where
  /-- Nothing is lost, duplicated or reordered. -/
  fifo : (poppedOf log).map some ++ s.unread = (pushedOf log).map some
  /-- At most `capacity` slots are in use. -/
  bounded : s.queue.tail - s.queue.head ≤ s.queue.capacity
  /-- `head_cache_` never claims more free space than there is. -/
  headCache : s.queue.tail - s.queue.head ≤ s.queue.tail - s.queue.headCache ∧
    s.queue.tail - s.queue.headCache ≤ s.queue.capacity
  /-- `tail_cache_` never claims more items than there are. -/
  tailCache : s.queue.tailCache - s.queue.head ≤ s.queue.tail - s.queue.head
  /-- The slot about to be written is none of those not handed back. -/
  writes : ∀ value tail, s.push = some (.writeSlot value tail) →
    ∀ i < s.queue.tail - s.queue.head,
      (s.queue.head + i) &&& s.queue.mask ≠ tail &&& s.queue.mask
  /-- The slot about to be read is published. -/
  reads : ∀ head n items, s.pop = some (.copy head n items) → UInt64.ofNat items.length < n →
    head = s.queue.head ∧ UInt64.ofNat items.length < s.queue.tail - s.queue.head
  /-- What has been read is what was pushed. -/
  copied : ∀ head n items, s.pop = some (.copy head n items) →
    items.map some = s.unread.take items.length

theorem poppedOf_append {log log' : List (Return T)} :
    poppedOf (log ++ log') = poppedOf log ++ poppedOf log' := List.flatMap_append

def Inv (k : Nat) (s : Spsc T) (log : List (Return T)) : Prop :=
  RingOk k s.queue s.push s.pop (pushedOf log) (poppedOf log)

variable {k : Nat} {s : Spsc T} {log : List (Return T)}

/-- One choice of the scheduler, case by case. -/
theorem step_inv {c : Choice T} (hc : c.Allowed) (h : Inv k s log) :
    ∃ s' out, s.step c = .ok (s', out) ∧ Inv k s' (log ++ out) := by
  obtain ⟨queue, push, pop⟩ := s
  have hskip : Inv k ⟨queue, push, pop⟩ (log ++ []) := by rwa [List.append_nil]
  cases c with
  | callPush value =>
    cases push with
    | some pc => exact ⟨_, _, rfl, hskip⟩
    | none => exact ⟨_, _, rfl, hskip.callPush value⟩
  | callPop request =>
    cases pop with
    | some pc => exact ⟨_, _, rfl, hskip⟩
    | none => exact ⟨_, _, rfl, hskip.callPop hc⟩
  | producer =>
    cases push with
    | none => exact ⟨_, _, rfl, hskip⟩
    | some pc =>
      obtain ⟨q', r, hrun, hafter⟩ := RingOk.push_step h
      cases r with
      | next pc' =>
        exact ⟨⟨q', some pc', pop⟩, [], by simp [step, hrun], by simpa [Inv] using hafter.2⟩
      | done ok =>
        refine ⟨⟨q', none, pop⟩, [if ok then .pushed pc.value else .refused pc.value],
          by simp [step, hrun], ?_⟩
        cases ok <;>
          simpa [Inv, RingOk.AfterPush, pushedOf, poppedOf, Return.pushedItem,
            Return.poppedItems] using hafter
  | consumer =>
    cases pop with
    | none => exact ⟨_, _, rfl, hskip⟩
    | some pc =>
      obtain ⟨q', r, hrun, hafter⟩ := RingOk.pop_step h
      cases r with
      | next pc' =>
        refine ⟨⟨q', push, some pc'⟩, [], by simp [step, hrun], ?_⟩
        simpa [Inv] using (show RingOk _ _ _ _ _ _ from hafter)
      | done items =>
        refine ⟨⟨q', push, none⟩, [.popped items], by simp [step, hrun], ?_⟩
        simpa [Inv, pushedOf, poppedOf, Return.pushedItem, Return.poppedItems] using hafter.1

end Spsc

namespace RingRep

variable {T : Type} {k hc tc : Nat} {q : SPSCQueue T} {pushed popped : List T}

theorem unread_eq (h : RingRep k q pushed popped hc tc) (push : Option (TryPush T))
    (pop : Option (TryPop T)) :
    (Spsc.mk q push pop).unread = (pushed.drop popped.length).map some := by
  have hlen := h.size_toNat
  apply List.ext_getElem
  · simp [Spsc.unread, hlen]
  · intro i h₁ h₂
    have hi : i < pushed.length - popped.length := by simpa using h₂
    simp only [Spsc.unread, List.getElem_map, List.getElem_range, List.getElem_drop]
    rw [h.head_eq, ofNat_add, h.slot?_eq, h.held _ (by omega) (by omega),
      List.getElem?_eq_getElem (by omega)]

end RingRep

namespace Spsc

variable {T : Type} {k : Nat} {s : Spsc T} {log : List (Return T)}

theorem Inv.delivers (h : Inv k s log) : s.Delivers log := by
  obtain ⟨q, push, pop⟩ := s
  obtain ⟨hc, tc, hinv⟩ := h
  have hrep : RingRep k q (pushedOf log) (poppedOf log) hc tc := hinv.rep
  have hunread := hrep.unread_eq push pop
  have := hrep.hc_le
  have := hrep.le_tc
  have := hrep.tc_le
  have := hrep.room
  have hsize : (q.tail - q.head).toNat = (pushedOf log).length - (poppedOf log).length :=
    hrep.size_toNat
  have hcached : (q.tail - q.headCache).toNat = (pushedOf log).length - hc := by
    rw [hrep.tail_eq]
    exact hrep.sub_headCache
  have hitems : (q.tailCache - q.head).toNat = tc - (poppedOf log).length := by
    rw [hrep.head_eq]
    exact hrep.sub_head
  constructor
  · rw [hunread, ← List.map_append, ← List.prefix_append_drop hrep.served]
  · rw [UInt64.le_iff_toNat_le, hsize, hrep.capacity_toNat]
    omega
  · constructor
    · rw [UInt64.le_iff_toNat_le, hsize, hcached]
      omega
    · rw [UInt64.le_iff_toNat_le, hcached, hrep.capacity_toNat]
      omega
  · rw [UInt64.le_iff_toNat_le, hsize, hitems]
    omega
  · intro value tail hpc i hi
    obtain ⟨rfl, hroom⟩ := hinv.pushAt _ hpc
    rw [UInt64.lt_iff_toNat_lt, hsize] at hi
    have hidx : q.head + i = UInt64.ofNat ((poppedOf log).length + i.toNat) := by
      rw [hrep.head_eq, ← ofNat_add, UInt64.ofNat_toNat]
    rw [hidx, hrep.mask_eq, ne_eq, ← UInt64.toNat_inj, toNat_and_mask hrep.exp_lt,
      toNat_and_mask hrep.exp_lt]
    exact mod_ne (by omega) (by omega)
  · intro head n items hpc hmore
    obtain ⟨rfl, -, htc, hlen, -⟩ := hinv.popAt _ hpc
    refine ⟨hrep.head_eq.symm, ?_⟩
    rw [UInt64.lt_iff_toNat_lt] at hmore ⊢
    rw [hsize]
    omega
  · intro head n items hpc
    obtain ⟨-, -, -, -, hout⟩ := hinv.popAt _ hpc
    rw [hunread, ← List.map_take, ← List.prefix_iff_eq_take.mp hout]

end Spsc

/-- Under every interleaving of the loads and stores of a producer and a consumer,
for every power of two and across every wrap of the counters. -/
theorem spsc_delivers {T : Type} [Inhabited T] {k : Nat} (hk : k < 64) (sched : List (Choice T))
    (h : ∀ c ∈ sched, c.Allowed) : ∃ q s log,
      SPSCQueue.new (UInt64.ofNat (2 ^ k)) = .ok q ∧
      Schedule.run Spsc.step { queue := q } sched = .ok (s, log) ∧
      s.queue.capacity = UInt64.ofNat (2 ^ k) ∧ s.Delivers log := by
  obtain ⟨q, hnew, hq⟩ := RingOk.new_pow (T := T) hk
  have h₀ : Spsc.Inv k { queue := q } [] := hq
  obtain ⟨s, log, hrun, hinv⟩ := Schedule.run_ok (Spsc.Inv k) Choice.Allowed
    (fun s log c hc hs => Spsc.step_inv hc hs) h₀ h
  have hd := hinv.delivers
  obtain ⟨hc, tc, hring⟩ := hinv
  exact ⟨q, s, log, hnew, hrun, hring.rep.capacity_eq, hd⟩

/-- Three items through two slots, the second push while the consumer reads. -/
theorem spsc_delivers_small : ∃ q s log,
    SPSCQueue.new (UInt64.ofNat (2 ^ 1)) = .ok q ∧
    Schedule.run Spsc.step { queue := q } (List.flatten [[.callPush 7], List.replicate 5 .producer,
      [.callPush 8, .callPop (.popBatch 2), .consumer], List.replicate 5 .producer,
      List.replicate 4 .consumer, [.callPush 9], List.replicate 5 .producer, [.callPop .pop],
      List.replicate 4 .consumer]) = .ok (s, log) ∧
    s.queue.capacity = UInt64.ofNat (2 ^ 1) ∧ s.Delivers log ∧ pushedOf log = [7, 8, 9] ∧
    poppedOf log = [7, 8, 9] := by
  let sched : List (Choice Nat) := List.flatten [[.callPush 7], List.replicate 5 .producer,
    [.callPush 8, .callPop (.popBatch 2), .consumer], List.replicate 5 .producer,
    List.replicate 4 .consumer, [.callPush 9], List.replicate 5 .producer, [.callPop .pop],
    List.replicate 4 .consumer]
  obtain ⟨q, s, log, hnew, hrun, hcap, hd⟩ := spsc_delivers (k := 1) (by decide) sched (by decide)
  have hitems : ∃ r, (do
      let q ← SPSCQueue.new (T := Nat) (UInt64.ofNat (2 ^ 1))
      Schedule.run Spsc.step { queue := q } sched) = .ok r ∧ pushedOf r.2 = [7, 8, 9] ∧
        poppedOf r.2 = [7, 8, 9] := Holds.exists_ok (by decide +kernel)
  rw [hnew, ok_bind] at hitems
  obtain ⟨r, hr, hpushed, hpopped⟩ := hitems
  obtain rfl := Except.ok.inj (hr.symm.trans hrun)
  exact ⟨q, s, log, hnew, hrun, hcap, hd, hpushed, hpopped⟩

end LimitOrderBook
