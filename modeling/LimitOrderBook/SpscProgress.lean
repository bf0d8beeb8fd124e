import LimitOrderBook.SpscThreads

set_option autoImplicit false

namespace LimitOrderBook
open Checked Wrapping

variable {T : Type}

def TryPush.left : TryPush T → Nat
  | loadTail _ => 6
  | loadHead _ _ => 5
  | writeSlot _ _ => 4
  | loadHighWater _ _ _ _ => 3
  | storeHighWater _ _ _ _ => 2
  | storeTail _ _ => 1

theorem TryPush.left_bounds (pc : TryPush T) : 0 < pc.left ∧ pc.left ≤ 6 := by
  cases pc <;> simp [left]

theorem TryPush.step_left {pc pc' : TryPush T} {q q' : SPSCQueue T}
    (h : pc.step q = .ok (q', .next pc')) : pc'.left < pc.left := by
  cases pc with
  | loadTail value =>
    simp only [step] at h
    split at h <;> cases h <;> simp [left]
  | loadHead value tail =>
    simp only [step] at h
    split at h <;> cases h <;> simp [left]
  | writeSlot value tail =>
    obtain ⟨q₁, -, h⟩ := bind_eq_ok.mp h
    cases h
    simp [left]
  | loadHighWater value tail occupancy full =>
    simp only [step] at h
    split at h
    · cases h
      simp [left]
    · cases full <;> cases h
      simp [left]
  | storeHighWater value tail occupancy full =>
    cases full <;> cases h
    simp [left]
  | storeTail value tail => cases h

def PopRequest.most : PopRequest → Nat
  | pop => 1
  | popBatch maxItems => maxItems.toNat

theorem PopRequest.take_le_most {r : PopRequest} {head tailCache n : UInt64}
    (h : r.take head tailCache = some n) : n.toNat ≤ r.most := by
  cases r with
  | pop =>
    simp only [take] at h
    split at h
    · cases h
    · cases h
      exact le_rfl
  | popBatch maxItems =>
    simp only [take] at h
    split at h
    · cases h
    · obtain rfl := Option.some.inj h
      split
      · rename_i hlt
        exact (UInt64.lt_iff_toNat_lt.mp hlt).le
      · exact le_rfl

def TryPop.left : TryPop T → Nat
  | loadHead request => request.most + 3
  | loadTail request _ => request.most + 2
  | copy _ n out => n.toNat - out.length + 1

theorem RingOk.pop_left {k : Nat} {q q' : SPSCQueue T} {push : Option (TryPush T)}
    {pc pc' : TryPop T} {pushed popped : List T} (h : RingOk k q push (some pc) pushed popped)
    (hstep : pc.step q = .ok (q', .next pc')) : pc'.left < pc.left := by
  obtain ⟨hc, tc, hinv⟩ := h
  have hat := hinv.popAt pc rfl
  cases pc with
  | loadHead request =>
    obtain ⟨_, -, hstep⟩ := bind_eq_ok.mp hstep
    cases htake : request.take q.head q.tailCache with
    | none =>
      simp only [htake] at hstep
      cases hstep
      simp [TryPop.left]
    | some n =>
      simp only [htake] at hstep
      cases hstep
      have hle := PopRequest.take_le_most htake
      simp only [TryPop.left, List.length_nil]
      omega
  | loadTail request head =>
    cases htake : request.take head q.tail with
    | none => simp [TryPop.step, htake] at hstep
    | some n =>
      simp only [TryPop.step, htake] at hstep
      cases hstep
      have hle := PopRequest.take_le_most htake
      simp only [TryPop.left, List.length_nil]
      omega
  | copy head n out =>
    obtain ⟨-, -, -, hlen, -⟩ := hat
    have hnat : (UInt64.ofNat out.length).toNat = out.length := by
      have := n.toNat_lt
      rw [toNat_ofNat, Nat.mod_eq_of_lt (by omega)]
    simp only [TryPop.step] at hstep
    split at hstep
    · rename_i hmore
      rw [UInt64.lt_iff_toNat_lt, hnat] at hmore
      obtain ⟨value, -, hstep⟩ := bind_eq_ok.mp hstep
      cases hstep
      simp only [TryPop.left, List.length_append, List.length_singleton]
      omega
    · cases hstep

theorem RingOk.size_add {k : Nat} {q : SPSCQueue T} {push : Option (TryPush T)}
    {pop : Option (TryPop T)} {pushed popped : List T} (h : RingOk k q push pop pushed popped) :
    q.size.toNat + popped.length = pushed.length := by
  obtain ⟨hc, tc, hinv⟩ := h
  have := hinv.rep.size_toNat
  have := hinv.rep.served.length_le
  omega

/-- How far a push into an empty ring is from its publishing store: one that has found
the ring full has to start again. -/
def TryPush.toPublish : TryPush T → Nat
  | loadHighWater _ _ _ true => 10
  | storeHighWater _ _ _ true => 9
  | pc => pc.left

theorem TryPush.toPublish_of_not_full {pc : TryPush T} (h : ¬ pc.Full) :
    pc.toPublish = pc.left := by
  cases pc with
  | loadHighWater value tail occupancy full => cases full <;> simp_all [toPublish, Full]
  | storeHighWater value tail occupancy full => cases full <;> simp_all [toPublish, Full]
  | _ => rfl

theorem TryPush.toPublish_of_full {pc : TryPush T} (h : pc.Full) : pc.toPublish = pc.left + 7 := by
  cases pc with
  | loadHighWater value tail occupancy full => cases full <;> simp_all [toPublish, left, Full]
  | storeHighWater value tail occupancy full => cases full <;> simp_all [toPublish, left, Full]
  | _ => exact h.elim

theorem TryPush.left_le_toPublish (pc : TryPush T) : pc.left ≤ pc.toPublish := by
  by_cases h : pc.Full
  · rw [toPublish_of_full h]
    omega
  · rw [toPublish_of_not_full h]

theorem TryPush.full_of_refused {pc : TryPush T} {q q' : SPSCQueue T}
    (h : pc.step q = .ok (q', .done false)) : pc.Full := by
  cases pc with
  | loadTail value =>
    simp only [step] at h
    split at h <;> cases h
  | loadHead value tail =>
    simp only [step] at h
    split at h <;> cases h
  | writeSlot value tail =>
    obtain ⟨q₁, -, h⟩ := bind_eq_ok.mp h
    cases h
  | loadHighWater value tail occupancy full =>
    simp only [step] at h
    split at h
    · cases h
    · cases full <;> cases h
      trivial
  | storeHighWater value tail occupancy full =>
    cases full <;> cases h
    trivial
  | storeTail value tail => cases h

theorem RingOk.push_toPublish {k : Nat} {q q' : SPSCQueue T} {pop : Option (TryPop T)}
    {pc pc' : TryPush T} {pushed popped : List T} (h : RingOk k q (some pc) pop pushed popped)
    (hsize : q.size.toNat = 0) (hstep : pc.step q = .ok (q', .next pc')) :
    pc'.toPublish < pc.toPublish := by
  have hleft := TryPush.step_left hstep
  by_cases hfull : pc'.Full
  · by_cases hpc : pc.Full
    · rw [TryPush.toPublish_of_full hfull, TryPush.toPublish_of_full hpc]
      omega
    · obtain ⟨tail, -, hcap⟩ := full_of_step h hpc hstep (.inr ⟨pc', rfl, hfull⟩)
      obtain ⟨hc, tc, hinv⟩ := h
      have := Nat.two_pow_pos k
      rw [hcap, hinv.rep.capacity_toNat] at hsize
      omega
  · rw [TryPush.toPublish_of_not_full hfull]
    have := pc.left_le_toPublish
    omega

def Choice.isProducer : Choice T → Bool
  | producer => true
  | _ => false

def Choice.isConsumer : Choice T → Bool
  | consumer => true
  | _ => false

namespace Spsc

variable {k : Nat} {s s' : Spsc T} {log log' : List (Return T)} {c : Choice T}

/-- What a step makes of a push under way. -/
theorem push_step (h : Inv k s log) {pc : TryPush T} (hpc : s.push = some pc)
    (hstep : s.step c = .ok (s', log')) :
    (c.isProducer = true ∧ s'.push = none ∧
      (.pushed pc.value ∈ log' ∨ .refused pc.value ∈ log')) ∨
    ∃ pc', s'.push = some pc' ∧ pc'.value = pc.value ∧
      pc'.left + (if c.isProducer then 1 else 0) ≤ pc.left := by
  obtain ⟨queue, push, pop⟩ := s
  obtain rfl : push = some pc := hpc
  have hsame : c.isProducer = false → s'.push = some pc →
      ∃ pc', s'.push = some pc' ∧ pc'.value = pc.value ∧
        pc'.left + (if c.isProducer then 1 else 0) ≤ pc.left := by
    intro hc hp
    exact ⟨pc, hp, rfl, by simp [hc]⟩
  cases c with
  | callPush value =>
    cases hstep
    exact .inr (hsame rfl rfl)
  | callPop request =>
    cases pop <;> cases hstep <;> exact .inr (hsame rfl rfl)
  | producer =>
    obtain ⟨q', r, hrun, hafter⟩ := RingOk.push_step h
    cases r with
    | next pc' =>
      simp only [step, hrun, ok_bind] at hstep
      cases hstep
      refine .inr ⟨pc', rfl, hafter.1, ?_⟩
      have := TryPush.step_left hrun
      simp only [Choice.isProducer, if_true]
      omega
    | done ok =>
      simp only [step, hrun, ok_bind] at hstep
      cases hstep
      refine .inl ⟨rfl, rfl, ?_⟩
      cases ok <;> simp
  | consumer =>
    cases pop with
    | none =>
      cases hstep
      exact .inr (hsame rfl rfl)
    | some pp =>
      obtain ⟨⟨q', r⟩, -, hstep⟩ := bind_eq_ok.mp hstep
      cases r <;> cases hstep <;> exact .inr (hsame rfl rfl)

/-- What a step makes of a pop under way. -/
theorem pop_step (h : Inv k s log) {pc : TryPop T} (hpc : s.pop = some pc)
    (hstep : s.step c = .ok (s', log')) :
    (c.isConsumer = true ∧ s'.pop = none ∧ ∃ items, .popped items ∈ log') ∨
    ∃ pc', s'.pop = some pc' ∧ pc'.left + (if c.isConsumer then 1 else 0) ≤ pc.left := by
  obtain ⟨queue, push, pop⟩ := s
  obtain rfl : pop = some pc := hpc
  have hsame : c.isConsumer = false → s'.pop = some pc →
      ∃ pc', s'.pop = some pc' ∧ pc'.left + (if c.isConsumer then 1 else 0) ≤ pc.left := by
    intro hc hp
    exact ⟨pc, hp, by simp [hc]⟩
  cases c with
  | callPush value =>
    cases push <;> cases hstep <;> exact .inr (hsame rfl rfl)
  | callPop request =>
    cases hstep
    exact .inr (hsame rfl rfl)
  | producer =>
    cases push with
    | none =>
      cases hstep
      exact .inr (hsame rfl rfl)
    | some pp =>
      obtain ⟨⟨q', r⟩, -, hstep⟩ := bind_eq_ok.mp hstep
      cases r <;> cases hstep <;> exact .inr (hsame rfl rfl)
  | consumer =>
    obtain ⟨q', r, hrun, -⟩ := RingOk.pop_step h
    cases r with
    | next pc' =>
      have hleft := RingOk.pop_left h hrun
      simp only [step, hrun, ok_bind] at hstep
      cases hstep
      refine .inr ⟨pc', rfl, ?_⟩
      simp only [Choice.isConsumer, if_true]
      omega
    | done items =>
      simp only [step, hrun, ok_bind] at hstep
      cases hstep
      exact .inl ⟨rfl, rfl, items, by simp⟩

theorem push_returns (more : List (Choice T)) : ∀ {s : Spsc T} {log : List (Return T)},
    Inv k s log → (∀ c ∈ more, c.Allowed) → ∀ {pc : TryPush T}, s.push = some pc →
    pc.left ≤ more.countP Choice.isProducer → ∀ {s' : Spsc T} {log' : List (Return T)},
    Schedule.run Spsc.step s more = .ok (s', log') →
    .pushed pc.value ∈ log' ∨ .refused pc.value ∈ log' := by
  induction more with
  | nil =>
    intro s log h _ pc hpc hle
    have := pc.left_bounds
    simp only [List.countP_nil] at hle
    omega
  | cons c more ih =>
    intro s log h hall pc hpc hle s' log' hrun
    obtain ⟨s₁, out₁, out₂, hstep, hrest, rfl⟩ := Schedule.run_cons_eq_ok.mp hrun
    rcases push_step h hpc hstep with ⟨-, -, hmem⟩ | ⟨pc', hpc', hvalue, hleft⟩
    · exact hmem.imp (List.mem_append_left _) (List.mem_append_left _)
    · obtain ⟨s₂, out, hok, hinv⟩ := step_inv (hall c (by simp)) h
      cases hok.symm.trans hstep
      rw [List.countP_cons] at hle
      have := ih hinv (fun x hx => hall x (by simp [hx])) hpc' (by omega) hrest
      rw [hvalue] at this
      exact this.imp (List.mem_append_right _) (List.mem_append_right _)

theorem pop_returns (more : List (Choice T)) : ∀ {s : Spsc T} {log : List (Return T)},
    Inv k s log → (∀ c ∈ more, c.Allowed) → ∀ {pc : TryPop T}, s.pop = some pc →
    pc.left ≤ more.countP Choice.isConsumer → ∀ {s' : Spsc T} {log' : List (Return T)},
    Schedule.run Spsc.step s more = .ok (s', log') → ∃ items, .popped items ∈ log' := by
  induction more with
  | nil =>
    intro s log h _ pc hpc hle
    have : 0 < pc.left := by cases pc <;> simp [TryPop.left]
    simp only [List.countP_nil] at hle
    omega
  | cons c more ih =>
    intro s log h hall pc hpc hle s' log' hrun
    obtain ⟨s₁, out₁, out₂, hstep, hrest, rfl⟩ := Schedule.run_cons_eq_ok.mp hrun
    rcases pop_step h hpc hstep with ⟨-, -, items, hmem⟩ | ⟨pc', hpc', hleft⟩
    · exact ⟨items, List.mem_append_left _ hmem⟩
    · obtain ⟨s₂, out, hok, hinv⟩ := step_inv (hall c (by simp)) h
      cases hok.symm.trans hstep
      rw [List.countP_cons] at hle
      obtain ⟨items, hmem⟩ := ih hinv (fun x hx => hall x (by simp [hx])) hpc' (by omega) hrest
      exact ⟨items, List.mem_append_right _ hmem⟩

end Spsc

/-- In every reachable state a push returns within six steps of the producer, and a pop
of up to `n` items within `n + 3` steps of the consumer, whatever the other side does. -/
theorem ring_wait_free {T : Type} [Inhabited T] {k : Nat} (hk : k < 64)
    (sched more : List (Choice T)) (h : ∀ c ∈ sched ++ more, c.Allowed) : ∃ q s log,
      SPSCQueue.new (UInt64.ofNat (2 ^ k)) = .ok q ∧
      Schedule.run Spsc.step { queue := q } sched = .ok (s, log) ∧
      (∀ value, s.push = none → 6 ≤ more.countP Choice.isProducer → ∃ s' log',
        Schedule.run Spsc.step s (.callPush value :: more) = .ok (s', log') ∧
        (.pushed value ∈ log' ∨ .refused value ∈ log')) ∧
      ∀ request : PopRequest, request.Allowed → s.pop = none →
        request.most + 3 ≤ more.countP Choice.isConsumer → ∃ s' log' items,
        Schedule.run Spsc.step s (.callPop request :: more) = .ok (s', log') ∧
        .popped items ∈ log' := by
  obtain ⟨q, hnew, hq⟩ := RingOk.new_pow (T := T) hk
  have h₀ : Spsc.Inv k { queue := q } [] := hq
  obtain ⟨s, log, hrun, hinv⟩ := Schedule.run_ok (Spsc.Inv k) Choice.Allowed
    (fun s log c hc hs => Spsc.step_inv hc hs) h₀ fun c hc => h c (List.mem_append_left _ hc)
  have hmore : ∀ c ∈ more, c.Allowed := fun c hc => h c (List.mem_append_right _ hc)
  -- a call and what follows it, from the state the first schedule led to
  have hcall : ∀ (c : Choice T) (s₁ : Spsc T), c.Allowed → s.step c = .ok (s₁, []) →
      ∃ s' log', Schedule.run Spsc.step s (c :: more) = .ok (s', log') ∧
        Schedule.run Spsc.step s₁ more = .ok (s', log') ∧ Spsc.Inv k s₁ log := by
    intro c s₁ hc hstep
    obtain ⟨s₂, out, hok, hinv₁⟩ := Spsc.step_inv hc hinv
    cases hok.symm.trans hstep
    have hstart : Spsc.Inv k s₁ (log ++ []) := hinv₁
    obtain ⟨s', log', hrun', -⟩ := Schedule.run_ok (fun s l => Spsc.Inv k s (log ++ l))
      Choice.Allowed (fun s l c hc hs => by
        obtain ⟨s', out, hstep, hs'⟩ := Spsc.step_inv hc hs
        exact ⟨s', out, hstep, List.append_assoc log l out ▸ hs'⟩) hstart hmore
    rw [List.append_nil] at hinv₁
    exact ⟨s', log', Schedule.run_cons_eq_ok.mpr ⟨s₁, [], log', hstep, hrun', rfl⟩, hrun', hinv₁⟩
  refine ⟨q, s, log, hnew, hrun, fun value hpush hcount => ?_, fun request hr hpop hcount => ?_⟩
  · have hstep : s.step (.callPush value) =
        .ok ({ s with push := some (.loadTail value) }, []) := by
      simp [Spsc.step, hpush]
    obtain ⟨s', log', hall, hrest, hinv₁⟩ := hcall (.callPush value) _ trivial hstep
    exact ⟨s', log', hall, Spsc.push_returns more hinv₁ hmore rfl hcount hrest⟩
  · have hstep : s.step (.callPop request) =
        .ok ({ s with pop := some (.loadHead request) }, []) := by
      simp [Spsc.step, hpop]
    obtain ⟨s', log', hall, hrest, hinv₁⟩ := hcall (.callPop request) _ hr hstep
    obtain ⟨items, hmem⟩ := Spsc.pop_returns more hinv₁ hmore rfl hcount hrest
    exact ⟨s', log', items, hall, hmem⟩

theorem ring_wait_free_small : ∃ q s' log', SPSCQueue.new (UInt64.ofNat (2 ^ 0)) = .ok q ∧
    Schedule.run Spsc.step { queue := q } (.callPush 7 :: List.replicate 6 .producer) =
      .ok (s', log') ∧ (.pushed 7 ∈ log' ∨ .refused 7 ∈ log') := by
  obtain ⟨q, s, log, hnew, hrun, hpush, -⟩ := ring_wait_free (T := Nat) (k := 0) (by decide) []
    (List.replicate 6 .producer) (by decide)
  cases hrun
  obtain ⟨s', log', hcall, hmem⟩ := hpush 7 rfl (by decide)
  exact ⟨q, s', log', hnew, hcall, hmem⟩

end LimitOrderBook
