import LimitOrderBook.SpscThreads

set_option autoImplicit false

namespace LimitOrderBook
open Checked Wrapping

variable {T : Type} {k : Nat} {q q' : SPSCQueue T} {push : Option (TryPush T)}
  {pop : Option (TryPop T)} {pushed popped : List T}

def SPSCQueue.seen (q : SPSCQueue T) : UInt64 := q.tail - q.headCache

/-- What a push in progress knows of the mark. While the consumer has taken nothing, the
mark is the occupancy, or the one after this push once `update_high_water` is done. -/
def TryPush.Mark (q : SPSCQueue T) (popped : List T) : TryPush T → Prop
  | loadTail _ | loadHead _ _ | writeSlot _ _ => popped = [] → q.highWater = q.size
  | loadHighWater _ _ occupancy false =>
    occupancy.toNat = q.seen.toNat + 1 ∧ (popped = [] → q.highWater = q.size)
  | storeHighWater _ _ occupancy false =>
    occupancy.toNat = q.seen.toNat + 1 ∧ q.highWater < occupancy
  | storeTail _ _ => q.seen.toNat + 1 ≤ q.highWater.toNat ∧
    (popped = [] → q.highWater.toNat = q.size.toNat + 1)
  | loadHighWater _ _ occupancy true => occupancy = q.capacity ∧
    (popped = [] → q.highWater = q.size ∧ q.size = q.capacity)
  | storeHighWater _ _ occupancy true => occupancy = q.capacity ∧ popped ≠ []

/-- The mark between the true occupancy and the capacity. -/
structure MarkOk (q : SPSCQueue T) (push : Option (TryPush T)) (popped : List T) : Prop where
  size_le : q.size.toNat ≤ q.highWater.toNat
  le_capacity : q.highWater.toNat ≤ q.capacity.toNat
  pushing : ∀ pc ∈ push, pc.Mark q popped
  idle : push = none → popped = [] → q.highWater = q.size

theorem TryPush.Mark.congr {pc : TryPush T} {popped' : List T} (h : pc.Mark q popped)
    (hmark : q'.highWater = q.highWater) (hseen : q'.seen = q.seen)
    (hcap : q'.capacity = q.capacity) (hsize : popped' = [] → popped = [] ∧ q'.size = q.size) :
    pc.Mark q' popped' := by
  have hidle : (popped = [] → q.highWater = q.size) → popped' = [] → q'.highWater = q'.size := by
    intro hold hp
    rw [hmark, (hsize hp).2]
    exact hold (hsize hp).1
  cases pc with
  | loadTail => exact hidle h
  | loadHead => exact hidle h
  | writeSlot => exact hidle h
  | loadHighWater value tail occupancy full =>
    cases full with
    | false => exact ⟨hseen ▸ h.1, hidle h.2⟩
    | true =>
      refine ⟨hcap ▸ h.1, fun hp => ⟨hidle (fun hp => (h.2 hp).1) hp, ?_⟩⟩
      rw [(hsize hp).2, hcap]
      exact (h.2 (hsize hp).1).2
  | storeHighWater value tail occupancy full =>
    cases full with
    | false => exact ⟨hseen ▸ h.1, hmark ▸ h.2⟩
    | true => exact ⟨hcap ▸ h.1, fun hp => h.2 (hsize hp).1⟩
  | storeTail =>
    refine ⟨by rw [hseen, hmark]; exact h.1, fun hp => ?_⟩
    rw [hmark, (hsize hp).2]
    exact h.2 (hsize hp).1

namespace RingOk

theorem size_toNat (h : RingOk k q push pop pushed popped) :
    q.size.toNat = pushed.length - popped.length := by
  obtain ⟨hc, tc, hinv⟩ := h
  exact hinv.rep.size_toNat

theorem seen_eq_size (h : RingOk k q push pop pushed []) : q.seen = q.size := by
  obtain ⟨hc, tc, hinv⟩ := h
  obtain rfl : hc = 0 := Nat.le_zero.mp hinv.rep.hc_le
  rw [SPSCQueue.seen, SPSCQueue.size, hinv.rep.headCache_eq, hinv.rep.head_eq, List.length_nil]

end RingOk

def Progress.call {pc r : Type} : Progress pc r → Option pc
  | .next pc => some pc
  | .done _ => none

@[simp] theorem Progress.call_next {pc r : Type} (a : pc) :
    (.next a : Progress pc r).call = some a := rfl

@[simp] theorem Progress.call_done {pc r : Type} (b : r) :
    (.done b : Progress pc r).call = none := rfl

structure MarkStep (q q' : SPSCQueue T) (r : Progress (TryPush T) Bool) (popped : List T) :
    Prop where
  grows : q.highWater.toNat ≤ q'.highWater.toNat
  capacity : q'.capacity = q.capacity
  ok : MarkOk q' r.call popped
  refused : r = .done false → q'.highWater = q'.capacity

theorem SPSCQueue.writeSlot_frame {index : UInt64} {value : T}
    (h : q.writeSlot index value = .ok q') : q'.highWater = q.highWater ∧ q'.seen = q.seen ∧
      q'.size = q.size ∧ q'.capacity = q.capacity ∧ q'.headCache = q.headCache := by
  unfold writeSlot at h
  split at h
  · cases h
    exact ⟨rfl, rfl, rfl, by simp [SPSCQueue.capacity], rfl⟩
  · cases h

theorem MarkOk.goPush {pc pc' : TryPush T} (h : MarkOk q (some pc) popped)
    (hpc : pc'.Mark q popped) : MarkStep q q (.next pc') popped where
  grows := le_rfl
  capacity := rfl
  ok := ⟨h.size_le, h.le_capacity, by simpa using hpc, by simp⟩
  refused := nofun

theorem seen_lt {hc tc : Nat} (h : RingRep k q pushed popped hc tc)
    (hroom : pushed.length < hc + 2 ^ k) : q.seen.toNat = pushed.length - hc ∧
      q.seen.toNat + 1 ≤ q.capacity.toNat := by
  have hseen : q.seen.toNat = pushed.length - hc := by
    rw [SPSCQueue.seen, h.tail_eq]
    exact h.sub_headCache
  have hpos := Nat.two_pow_pos k
  rw [hseen, h.capacity_toNat]
  exact ⟨rfl, by omega⟩

theorem push_mark {pc : TryPush T} {r : Progress (TryPush T) Bool}
    (h : RingOk k q (some pc) pop pushed popped) (hm : MarkOk q (some pc) popped)
    (hrun : pc.step q = .ok (q', r)) (hafter : RingOk.AfterPush k pc pop pushed popped q' r) :
    MarkStep q q' r popped := by
  have hpc := hm.pushing pc rfl
  have hle := hm.size_le
  have hcap := hm.le_capacity
  have hseen_size : popped = [] → q.seen = q.size := by
    rintro rfl
    exact h.seen_eq_size
  obtain ⟨hc, tc, hinv⟩ := h
  have hrep := hinv.rep
  have hat := hinv.pushAt pc rfl
  cases pc with
  | loadTail value =>
    simp only [TryPush.step] at hrun
    split at hrun
    · cases hrun
      exact hm.goPush hpc
    · cases hrun
      exact hm.goPush hpc
  | loadHead value tail =>
    obtain rfl : tail = q.tail := hat.trans hrep.tail_eq.symm
    simp only [TryPush.step] at hrun
    split at hrun
    · rename_i hfull
      cases hrun
      have hsize : q.size = q.capacity := hfull
      have hmark : q.highWater = q.capacity := by
        apply UInt64.toNat_inj.mp
        rw [hsize] at hle
        omega
      refine ⟨le_rfl, rfl, ⟨hle, hcap, ?_, by simp⟩, by simp⟩
      simp only [Progress.call_next, Option.mem_def, Option.some.injEq, forall_eq']
      exact ⟨rfl, fun _ => ⟨hmark.trans hsize.symm, hsize⟩⟩
    · cases hrun
      refine ⟨le_rfl, rfl, ⟨hle, hcap, ?_, by simp⟩, by simp⟩
      simp only [Progress.call_next, Option.mem_def, Option.some.injEq, forall_eq']
      exact fun hp => hpc hp
  | writeSlot value tail =>
    obtain ⟨rfl, hroom⟩ := hat
    obtain ⟨q₁, hwrite, hrun⟩ := bind_eq_ok.mp hrun
    cases hrun
    obtain ⟨hw, hs, hsz, hcp, hhc⟩ := SPSCQueue.writeSlot_frame hwrite
    obtain ⟨hseen, -⟩ := seen_lt hrep hroom
    have hocc : (UInt64.ofNat pushed.length + 1 - q'.headCache).toNat = q'.seen.toNat + 1 := by
      have := hrep.hc_le
      have := hrep.le_tc
      have := hrep.tc_le
      have := hrep.pow_lt
      rw [hs, hseen, hhc, hrep.headCache_eq, ofNat_succ, toNat_sub (by omega) (by omega)]
      omega
    refine ⟨by rw [hw], hcp, ⟨by rw [hsz, hw]; exact hle, by rw [hcp, hw]; exact hcap, ?_, by simp⟩,
      by simp⟩
    simp only [Progress.call_next, Option.mem_def, Option.some.injEq, forall_eq']
    exact ⟨hocc, fun hp => by rw [hw, hsz]; exact hpc hp⟩
  | loadHighWater value tail occupancy full =>
    simp only [TryPush.step] at hrun
    split at hrun
    · rename_i hmore
      cases hrun
      apply hm.goPush
      cases full with
      | false => exact ⟨hpc.1, hmore⟩
      | true =>
        refine ⟨hpc.1, fun hp => ?_⟩
        obtain ⟨h₁, h₂⟩ := hpc.2 hp
        rw [hpc.1, ← h₂, ← h₁] at hmore
        exact UInt64.lt_irrefl _ hmore
    · rename_i hless
      have hless := UInt64.le_iff_toNat_le.mp (UInt64.not_lt.mp hless)
      cases hrun
      cases full with
      | false =>
        apply hm.goPush
        refine ⟨hpc.1 ▸ hless, fun hp => ?_⟩
        have hsize := congrArg UInt64.toNat (hpc.2 hp)
        have hocc := hpc.1
        rw [hseen_size hp] at hocc
        omega
      | true =>
        have hmark : q.highWater = q.capacity := by
          apply UInt64.toNat_inj.mp
          rw [hpc.1] at hless
          omega
        exact ⟨le_rfl, rfl, ⟨hle, hcap, by simp [TryPush.afterHighWater],
          fun _ hp => (hpc.2 hp).1⟩, fun _ => hmark⟩
  | storeHighWater value tail occupancy full =>
    cases hrun
    cases full with
    | false =>
      obtain ⟨hocc, hmore⟩ := hpc
      obtain ⟨hseen, hfits⟩ := seen_lt hrep hat.2.1
      have hmore := UInt64.lt_iff_toNat_lt.mp hmore
      rw [TryPush.afterHighWater, if_neg Bool.false_ne_true]
      refine ⟨hmore.le, rfl, ⟨le_trans hle hmore.le, hocc.le.trans hfits, ?_, by simp⟩, by simp⟩
      simp only [Progress.call_next, Option.mem_def, Option.some.injEq, forall_eq']
      refine ⟨hocc.ge, fun hp => ?_⟩
      rw [hseen_size hp] at hocc
      exact hocc
    | true =>
      obtain ⟨hocc, hne⟩ := hpc
      subst hocc
      rw [TryPush.afterHighWater, if_pos rfl]
      exact ⟨hcap, rfl, ⟨le_trans hle hcap, le_rfl, by simp, fun _ hp => absurd hp hne⟩,
        fun _ => rfl⟩
  | storeTail value tail =>
    cases hrun
    obtain ⟨rfl, hroom, -⟩ := hat
    obtain ⟨hseen, hfits⟩ := seen_lt hrep hroom
    have hsize := hrep.size_toNat
    have hpublished : RingOk k { q with tail := UInt64.ofNat pushed.length + 1 } none pop
      (pushed ++ [value]) popped := hafter
    have hsize' := hpublished.size_toNat
    rw [List.length_append, List.length_singleton] at hsize'
    have hserved := hrep.served.length_le
    have hhc := hrep.hc_le
    refine ⟨le_rfl, rfl, ⟨?_, hcap, by simp, fun _ hp => ?_⟩, by simp⟩
    · rw [hsize']
      exact le_trans (by omega) hpc.1
    · apply UInt64.toNat_inj.mp
      rw [hsize', hpc.2 hp, hsize, hp]
      rfl

theorem TryPop.step_frame {pc : TryPop T} {r : Progress (TryPop T) (List T)}
    (h : pc.step q = .ok (q', r)) : q'.highWater = q.highWater ∧ q'.seen = q.seen ∧
      q'.capacity = q.capacity := by
  cases pc with
  | loadHead request =>
    obtain ⟨_, -, h⟩ := bind_eq_ok.mp h
    dsimp only at h
    split at h <;> cases h <;> exact ⟨rfl, rfl, rfl⟩
  | loadTail request head =>
    simp only [TryPop.step] at h
    split at h <;> cases h <;> exact ⟨rfl, rfl, rfl⟩
  | copy head n out =>
    simp only [TryPop.step] at h
    split at h
    · obtain ⟨value, -, h⟩ := bind_eq_ok.mp h
      cases h
      exact ⟨rfl, rfl, rfl⟩
    · cases h
      exact ⟨rfl, rfl, rfl⟩

theorem MarkOk.afterPop {pop' : Option (TryPop T)} {out : List T} (hm : MarkOk q push popped)
    (h : RingOk k q push pop pushed popped) (h' : RingOk k q' push pop' pushed (popped ++ out))
    (hmark : q'.highWater = q.highWater) (hseen : q'.seen = q.seen)
    (hcap : q'.capacity = q.capacity) : MarkOk q' push (popped ++ out) := by
  have hsize := h.size_toNat
  have hsize' := h'.size_toNat
  rw [List.length_append] at hsize'
  have hle := hm.size_le
  have hnone : popped ++ out = [] → popped = [] ∧ q'.size = q.size := by
    intro hp
    obtain ⟨hp, ho⟩ := List.append_eq_nil_iff.mp hp
    refine ⟨hp, UInt64.toNat_inj.mp ?_⟩
    rw [hsize, hsize', ho]
    rfl
  refine ⟨?_, ?_, fun pc hpc => (hm.pushing pc hpc).congr hmark hseen hcap hnone, fun hi hp => ?_⟩
  · rw [hmark]
    omega
  · rw [hmark, hcap]
    exact hm.le_capacity
  · rw [hmark, (hnone hp).2]
    exact hm.idle hi (hnone hp).1

namespace Spsc

/-- The ring with its mark, after these calls have returned. -/
structure Marked (k : Nat) (s : Spsc T) (log : List (Return T)) : Prop where
  ring : Inv k s log
  mark : MarkOk s.queue s.push (poppedOf log)
  refused : ∀ value, .refused value ∈ log → s.queue.highWater = s.queue.capacity

variable {s s' : Spsc T} {log : List (Return T)}

/-- The state a step leaves, with a mark that has not fallen. -/
structure Grows (k : Nat) (s s' : Spsc T) (log : List (Return T)) : Prop where
  marked : Marked k s' log
  mark_le : s.queue.highWater.toNat ≤ s'.queue.highWater.toNat
  capacity : s'.queue.capacity = s.queue.capacity

theorem Grows.refl (h : Marked k s log) : Grows k s s log := ⟨h, le_rfl, rfl⟩

theorem Marked.stays_full (h : Marked k s log) {s₀ : Spsc T}
    (hle : s₀.queue.highWater.toNat ≤ s.queue.highWater.toNat)
    (hcap : s.queue.capacity = s₀.queue.capacity)
    (hfull : s₀.queue.capacity.toNat ≤ s₀.queue.highWater.toNat) :
    s.queue.highWater = s.queue.capacity := by
  have hbound := h.mark.le_capacity
  apply UInt64.toNat_inj.mp
  rw [hcap] at hbound ⊢
  omega

theorem marked_step {c : Choice T} (hc : c.Allowed) (h : Marked k s log) :
    ∃ s' out, s.step c = .ok (s', out) ∧ Grows k s s' (log ++ out) := by
  obtain ⟨s', out, hrun, hring⟩ := step_inv hc h.ring
  refine ⟨s', out, hrun, ?_⟩
  obtain ⟨queue, push, pop⟩ := s
  cases c with
  | callPush value =>
    cases push with
    | some pc =>
      cases hrun
      rw [List.append_nil]
      exact .refl h
    | none =>
      cases hrun
      rw [List.append_nil] at hring ⊢
      refine ⟨⟨hring, ⟨h.mark.size_le, h.mark.le_capacity, ?_, nofun⟩, h.refused⟩, le_rfl, rfl⟩
      simp only [Option.mem_def, Option.some.injEq, forall_eq']
      exact fun hp => h.mark.idle rfl hp
  | callPop request =>
    cases pop with
    | some pc =>
      cases hrun
      rw [List.append_nil]
      exact .refl h
    | none =>
      cases hrun
      rw [List.append_nil] at hring ⊢
      exact ⟨⟨hring, h.mark, h.refused⟩, le_rfl, rfl⟩
  | producer =>
    cases push with
    | none =>
      cases hrun
      rw [List.append_nil]
      exact .refl h
    | some pc =>
      obtain ⟨q', r, hstep, hafter⟩ := RingOk.push_step h.ring
      have hmark := push_mark h.ring h.mark hstep hafter
      have hrefused : ∀ value, .refused value ∈ log → q'.highWater = q'.capacity := by
        intro value hv
        have hfull := h.refused value hv
        have hbound := hmark.ok.le_capacity
        have hgrows := hmark.grows
        apply UInt64.toNat_inj.mp
        rw [hmark.capacity] at hbound ⊢
        rw [hfull] at hgrows
        exact le_antisymm hbound hgrows
      cases r with
      | next pc' =>
        have hnext : step ⟨queue, some pc, pop⟩ .producer = .ok (⟨q', some pc', pop⟩, []) := by
          simp [step, hstep]
        cases hrun.symm.trans hnext
        rw [List.append_nil] at hring ⊢
        exact ⟨⟨hring, hmark.ok, hrefused⟩, hmark.grows, hmark.capacity⟩
      | done ok =>
        have hdone : step ⟨queue, some pc, pop⟩ .producer = .ok (⟨q', none, pop⟩,
            [if ok then .pushed pc.value else .refused pc.value]) := by simp [step, hstep]
        cases hrun.symm.trans hdone
        have hpopped : poppedOf (log ++ [if ok then .pushed pc.value else .refused pc.value]) =
            poppedOf log := by
          rw [poppedOf_append]
          cases ok <;> simp [poppedOf, Return.poppedItems]
        refine ⟨⟨hring, hpopped ▸ hmark.ok, fun value hv => ?_⟩, hmark.grows, hmark.capacity⟩
        rcases List.mem_append.mp hv with hv | hv
        · exact hrefused value hv
        · cases ok with
          | true => simp at hv
          | false => exact hmark.refused rfl
  | consumer =>
    cases pop with
    | none =>
      cases hrun
      rw [List.append_nil]
      exact .refl h
    | some pc =>
      obtain ⟨q', r, hstep, hafter⟩ := RingOk.pop_step h.ring
      obtain ⟨hw, hs, hcap⟩ := TryPop.step_frame hstep
      have hrefused : ∀ value, .refused value ∈ log → q'.highWater = q'.capacity := by
        intro value hv
        rw [hw, hcap]
        exact h.refused value hv
      cases r with
      | next pc' =>
        have hnext : step ⟨queue, push, some pc⟩ .consumer = .ok (⟨q', push, some pc'⟩, []) := by
          simp [step, hstep]
        cases hrun.symm.trans hnext
        have hring' : RingOk k q' push (some pc') (pushedOf log) (poppedOf log ++ []) := by
          rw [List.append_nil]
          exact hafter
        have hmark := h.mark.afterPop h.ring hring' hw hs hcap
        rw [List.append_nil] at hring hmark ⊢
        exact ⟨⟨hring, hmark, hrefused⟩, hw.symm ▸ le_rfl, hcap⟩
      | done items =>
        have hdone : step ⟨queue, push, some pc⟩ .consumer =
            .ok (⟨q', push, none⟩, [.popped items]) := by simp [step, hstep]
        cases hrun.symm.trans hdone
        have hpopped : poppedOf (log ++ [.popped items]) = poppedOf log ++ items := by
          rw [poppedOf_append]
          simp [poppedOf, Return.poppedItems]
        refine ⟨⟨hring, ?_, fun value hv => ?_⟩, hw.symm ▸ le_rfl, hcap⟩
        · rw [hpopped]
          exact h.mark.afterPop h.ring hafter.1 hw hs hcap
        · rcases List.mem_append.mp hv with hv | hv
          · exact hrefused value hv
          · simp at hv

theorem marked_run {sched : List (Choice T)} (hs : ∀ c ∈ sched, c.Allowed) (h : Marked k s log) :
    ∃ s' outs, Schedule.run step s sched = .ok (s', outs) ∧ Grows k s s' (log ++ outs) := by
  have h₀ : Grows k s s (log ++ []) := by
    rw [List.append_nil]
    exact .refl h
  refine Schedule.run_ok (fun s' outs => Grows k s s' (log ++ outs)) Choice.Allowed
    (fun s₁ outs c hc h₁ => ?_) h₀ hs
  obtain ⟨s₂, out, hstep, h₂⟩ := marked_step hc h₁.marked
  rw [List.append_assoc] at h₂
  exact ⟨s₂, out, hstep, h₂.marked, h₁.mark_le.trans h₂.mark_le, h₂.capacity.trans h₁.capacity⟩

end Spsc

/-- At any later instant the mark bounds the occupancy of any earlier one, and is the
capacity once the ring was full or refused a push; without pops it is the occupancy. -/
theorem high_water_bounds {T : Type} [Inhabited T] {k : Nat} (hk : k < 64)
    (earlier later : List (Choice T)) (h : ∀ c ∈ earlier ++ later, c.Allowed) :
    ∃ q s₁ log₁ s log, SPSCQueue.new (UInt64.ofNat (2 ^ k)) = .ok q ∧
      Schedule.run Spsc.step { queue := q } earlier = .ok (s₁, log₁) ∧
      Schedule.run Spsc.step s₁ later = .ok (s, log) ∧
      s₁.queue.tail - s₁.queue.head ≤ s.queue.highWater ∧
      s.queue.highWater ≤ UInt64.ofNat (2 ^ k) ∧ s₁.queue.highWater ≤ s.queue.highWater ∧
      (∀ value, .refused value ∈ log₁ ++ log → s.queue.highWater = UInt64.ofNat (2 ^ k)) ∧
      (s₁.queue.tail - s₁.queue.head = UInt64.ofNat (2 ^ k) →
        s.queue.highWater = UInt64.ofNat (2 ^ k)) ∧
      (poppedOf (log₁ ++ log) = [] → s.push = none →
        s.queue.highWater = s.queue.tail - s.queue.head) := by
  obtain ⟨q, hnew, hq⟩ := RingOk.new_pow (T := T) hk
  have hring : Spsc.Inv k { queue := q } [] := hq
  have hsize : q.size.toNat = 0 := hq.size_toNat
  have hzero : q.highWater = 0 := by
    obtain ⟨_, -, hnew⟩ := bind_eq_ok.mp hnew
    cases hnew
    rfl
  have h₀ : Spsc.Marked k { queue := q } ([] : List (Return T)) := by
    refine ⟨hring, ⟨?_, ?_, nofun, fun _ _ => ?_⟩, nofun⟩
    · exact hsize.le.trans (Nat.zero_le _)
    · rw [hzero]
      exact Nat.zero_le _
    · rw [hzero]
      exact (UInt64.toNat_inj.mp hsize).symm
  obtain ⟨s₁, log₁, hrun₁, h₁⟩ :=
    Spsc.marked_run (fun c hc => h c (List.mem_append.mpr (.inl hc))) h₀
  obtain ⟨s, log, hrun, h₂⟩ :=
    Spsc.marked_run (fun c hc => h c (List.mem_append.mpr (.inr hc))) h₁.marked
  have hcap₁ : s₁.queue.capacity = UInt64.ofNat (2 ^ k) := by
    obtain ⟨hc, tc, hinv⟩ := h₁.marked.ring
    exact hinv.rep.capacity_eq
  have hcap : s.queue.capacity = UInt64.ofNat (2 ^ k) := h₂.capacity.trans hcap₁
  refine ⟨q, s₁, log₁, s, log, hnew, hrun₁, hrun, ?_, ?_, ?_, fun value hv => ?_, fun hfull => ?_,
    fun hp hi => ?_⟩
  · exact UInt64.le_iff_toNat_le.mpr (h₁.marked.mark.size_le.trans h₂.mark_le)
  · rw [← hcap]
    exact UInt64.le_iff_toNat_le.mpr h₂.marked.mark.le_capacity
  · exact UInt64.le_iff_toNat_le.mpr h₂.mark_le
  · rw [← hcap]
    exact h₂.marked.refused value hv
  · rw [← hcap]
    refine h₂.marked.stays_full h₂.mark_le h₂.capacity ?_
    rw [hcap₁, ← hfull]
    exact h₁.marked.mark.size_le
  · exact h₂.marked.mark.idle hi hp

/-- One slot, a push that fills it, and one that is refused. -/
theorem high_water_bounds_small : ∃ q s₁ log₁ s log,
    SPSCQueue.new (UInt64.ofNat (2 ^ 0)) = .ok q ∧
    Schedule.run Spsc.step { queue := q } [.callPush 7, .producer, .producer, .producer, .producer,
      .producer] = .ok (s₁, log₁) ∧
    Schedule.run Spsc.step s₁ [.callPush 8, .callPop .pop, .producer, .producer, .producer,
      .consumer, .consumer, .consumer, .consumer] = .ok (s, log) ∧
    s₁.queue.tail - s₁.queue.head ≤ s.queue.highWater ∧
    s.queue.highWater ≤ UInt64.ofNat (2 ^ 0) := by
  obtain ⟨q, s₁, log₁, s, log, hnew, hrun₁, hrun, hsize, hcap, -⟩ := high_water_bounds (T := Nat)
    (k := 0) (by decide) [.callPush 7, .producer, .producer, .producer, .producer, .producer]
    [.callPush 8, .callPop .pop, .producer, .producer, .producer, .consumer, .consumer, .consumer,
      .consumer] (by decide)
  exact ⟨q, s₁, log₁, s, log, hnew, hrun₁, hrun, hsize, hcap⟩

end LimitOrderBook
