import LimitOrderBook.SpscProgress
import LimitOrderBook.Lib.Linearizable

set_option autoImplicit false

namespace LimitOrderBook
open Checked SharedObject

variable {T : Type}

inductive RingSide where
  | producer
  | consumer
  deriving DecidableEq

inductive RingCall (T : Type) where
  | push (value : T)
  | pop (request : PopRequest)

/-- The queue a caller may take the ring for. A pop that takes anything may take less than
there is. -/
def boundedQueue (capacity : Nat) : Object (List T) (RingCall T) (Return T)
  | items, .push value, .pushed value', items' =>
    value' = value ∧ items.length < capacity ∧ items' = items ++ [value]
  | items, .push value, .refused value', items' =>
    value' = value ∧ items.length = capacity ∧ items' = items
  | items, .pop request, .popped out, items' =>
    items = out ++ items' ∧ out.length ≤ request.most ∧ (out = [] → items = [])
  | _, _, _, _ => False

def Return.side : Return T → RingSide
  | pushed _ | refused _ => .producer
  | popped _ => .consumer

/-- A push that will be refused has taken effect when it found the ring full. -/
def TryPush.phase : TryPush T → Phase (RingCall T) (Return T)
  | loadHighWater value _ _ true | storeHighWater value _ _ true => .effected (.refused value)
  | pc => .called (.push pc.value)

theorem TryPush.phase_of_full {pc : TryPush T} (h : pc.Full) :
    pc.phase = .effected (.refused pc.value) := by
  cases pc with
  | loadHighWater value tail occupancy full =>
    cases full
    · exact h.elim
    · rfl
  | storeHighWater value tail occupancy full =>
    cases full
    · exact h.elim
    · rfl
  | _ => exact h.elim

theorem TryPush.phase_of_not_full {pc : TryPush T} (h : ¬ pc.Full) :
    pc.phase = .called (.push pc.value) := by
  cases pc with
  | loadHighWater value tail occupancy full =>
    cases full
    · rfl
    · exact absurd trivial h
  | storeHighWater value tail occupancy full =>
    cases full
    · rfl
    · exact absurd trivial h
  | _ => rfl

theorem TryPush.not_full_of_pushed {pc : TryPush T} {q q' : SPSCQueue T}
    (h : pc.step q = .ok (q', .done true)) : ¬ pc.Full := by
  intro hfull
  cases pc with
  | loadHighWater value tail occupancy full =>
    cases full
    · exact hfull
    · simp only [step] at h
      split at h <;> cases h
  | storeHighWater value tail occupancy full =>
    cases full
    · exact hfull
    · cases h
  | _ => exact hfull

theorem TryPush.full_stays {pc pc' : TryPush T} {q q' : SPSCQueue T} (hfull : pc.Full)
    (h : pc.step q = .ok (q', .next pc')) : pc'.Full := by
  cases pc with
  | loadHighWater value tail occupancy full =>
    cases full
    · exact hfull.elim
    · simp only [step] at h
      split at h <;> cases h
      trivial
  | storeHighWater value tail occupancy full =>
    cases full
    · exact hfull.elim
    · cases h
  | _ => exact hfull.elim

/-- A pop takes effect with its last store, or when it finds the ring empty. -/
def TryPop.Phase (phase : SharedObject.Phase (RingCall T) (Return T)) : TryPop T → Prop
  | loadHead request | loadTail request _ => phase = .called (.pop request)
  | copy _ n _ => ∃ request, phase = .called (.pop request) ∧ n.toNat ≤ request.most

theorem TryPop.phase_next {phase : SharedObject.Phase (RingCall T) (Return T)}
    {pc pc' : TryPop T} {q q' : SPSCQueue T} (h : pc.Phase phase)
    (hstep : pc.step q = .ok (q', .next pc')) : pc'.Phase phase := by
  cases pc with
  | loadHead request =>
    obtain ⟨_, -, hstep⟩ := bind_eq_ok.mp hstep
    cases htake : request.take q.head q.tailCache with
    | none =>
      simp only [htake] at hstep
      cases hstep
      exact h
    | some n =>
      simp only [htake] at hstep
      cases hstep
      exact ⟨request, h, PopRequest.take_le_most htake⟩
  | loadTail request head =>
    cases htake : request.take head q.tail with
    | none => simp [step, htake] at hstep
    | some n =>
      simp only [step, htake] at hstep
      cases hstep
      exact ⟨request, h, PopRequest.take_le_most htake⟩
  | copy head n out =>
    simp only [step] at hstep
    split at hstep
    · obtain ⟨value, -, hstep⟩ := bind_eq_ok.mp hstep
      cases hstep
      exact h
    · cases hstep

theorem RingOk.popped_le_most {k : Nat} {q q' : SPSCQueue T} {push : Option (TryPush T)}
    {pc : TryPop T} {pushed popped out : List T}
    {phase : SharedObject.Phase (RingCall T) (Return T)}
    (h : RingOk k q push (some pc) pushed popped) (hp : pc.Phase phase)
    (hstep : pc.step q = .ok (q', .done out)) :
    ∃ request, phase = .called (.pop request) ∧ out.length ≤ request.most := by
  obtain ⟨hc, tc, hinv⟩ := h
  have hat := hinv.popAt pc rfl
  cases pc with
  | loadHead request =>
    obtain ⟨_, -, hstep⟩ := bind_eq_ok.mp hstep
    cases htake : request.take q.head q.tailCache <;> simp only [htake] at hstep <;> cases hstep
  | loadTail request head =>
    cases htake : request.take head q.tail with
    | none =>
      simp only [TryPop.step, htake] at hstep
      cases hstep
      exact ⟨request, hp, Nat.zero_le _⟩
    | some n => simp [TryPop.step, htake] at hstep
  | copy head n items =>
    obtain ⟨-, -, -, hlen, -⟩ := hat
    obtain ⟨request, hp, hle⟩ := hp
    simp only [TryPop.step] at hstep
    split at hstep
    · obtain ⟨value, -, hstep⟩ := bind_eq_ok.mp hstep
      cases hstep
    · cases hstep
      exact ⟨request, hp, hlen.trans hle⟩

namespace Spsc

variable {k : Nat} {s s' : Spsc T} {c : Choice T}

def callEvents (s : Spsc T) : Choice T → List (Event RingSide (RingCall T) (Return T))
  | .callPush value => if s.push.isNone then [.call .producer (.push value)] else []
  | .callPop request => if s.pop.isNone then [.call .consumer (.pop request)] else []
  | .producer | .consumer => []

def observe (s : Spsc T) (c : Choice T) :
    Exec (Spsc T × List (Event RingSide (RingCall T) (Return T))) := do
  let (s', out) ← s.step c
  pure (s', s.callEvents c ++ out.map fun r => .ret r.side r)

/-- The state against the effects so far and the queue they have built. -/
structure Points (k : Nat) (s : Spsc T) (hist : List (Event RingSide (RingCall T) (Return T)))
    (effects : List (Effect RingSide (RingCall T) (Return T))) (items pushed popped : List T)
    (phase : RingSide → SharedObject.Phase (RingCall T) (Return T)) : Prop where
  ring : RingOk k s.queue s.push s.pop pushed popped
  items : items = pushed.drop popped.length
  tracks : Tracks phase effects hist
  push : phase .producer = (s.push.map TryPush.phase).getD .idle
  pop : match s.pop with
    | none => phase .consumer = .idle
    | some pc => pc.Phase (phase .consumer)

variable {hist : List (Event RingSide (RingCall T) (Return T))}
  {effects : List (Effect RingSide (RingCall T) (Return T))} {items pushed popped : List T}
  {phase : RingSide → SharedObject.Phase (RingCall T) (Return T)}

def Pointed (k : Nat) (s : Spsc T) (hist : List (Event RingSide (RingCall T) (Return T)))
    (effects : List (Effect RingSide (RingCall T) (Return T))) (items : List T) : Prop :=
  ∃ pushed popped phase, s.Points k hist effects items pushed popped phase

def Pointing (k : Nat) (hist : List (Event RingSide (RingCall T) (Return T)))
    (effects : List (Effect RingSide (RingCall T) (Return T))) (s' : Spsc T)
    (out : List (Event RingSide (RingCall T) (Return T))) : Prop :=
  out.length ≤ 1 ∧ ∃ more items', Legal (boundedQueue (2 ^ k)) [] (effects ++ more) items' ∧
    s'.Pointed k (hist ++ out) (effects ++ more) items'

theorem points_length (h : s.Points k hist effects items pushed popped phase) :
    items.length = s.queue.size.toNat := by
  have hsize := h.ring.size_add
  rw [h.items, List.length_drop]
  omega

theorem capacity_of_ok {q : SPSCQueue T} {push : Option (TryPush T)} {pop : Option (TryPop T)}
    (h : RingOk k q push pop pushed popped) :
    q.capacity.toNat = 2 ^ k ∧ q.size.toNat ≤ 2 ^ k := by
  obtain ⟨hc, tc, hinv⟩ := h
  have hsize := hinv.rep.size_toNat
  have hroom := hinv.rep.room
  have hle := hinv.rep.hc_le
  have hpos := Nat.two_pow_pos k
  exact ⟨hinv.rep.capacity_toNat, by omega⟩

/-- The producer's step. -/
theorem producer_points {pc : TryPush T} (h : s.Points k hist effects items pushed popped phase)
    (hlegal : Legal (boundedQueue (2 ^ k)) [] effects items) (hpc : s.push = some pc)
    {out : List (Return T)} (hstep : s.step .producer = .ok (s', out)) :
    Pointing k hist effects s' (out.map fun r => .ret r.side r) := by
  have hpop := h.pop
  have hitems := h.items
  have hlen := points_length h
  have htracks := h.tracks
  have hring := h.ring
  have hphase := h.push
  obtain ⟨queue, push, pop⟩ := s
  obtain rfl : push = some pc := hpc
  have hring : RingOk k queue (some pc) pop pushed popped := hring
  have hphase : phase .producer = pc.phase := hphase
  obtain ⟨q', r, hrun, hafter⟩ := RingOk.push_step hring
  simp only [step, hrun, ok_bind] at hstep
  cases r with
  | next pc' =>
    cases hstep
    obtain ⟨hvalue, hring'⟩ := hafter
    have hstay : pc'.phase = pc.phase →
        Pointing k hist effects ⟨q', some pc', pop⟩ [] := fun hsame => by
      refine ⟨Nat.zero_le _, [], items, by simpa using hlegal, pushed, popped, phase, ?_⟩
      simp only [List.append_nil]
      exact ⟨hring', hitems, htracks, hphase.trans hsame.symm, hpop⟩
    by_cases hfull : pc'.Full
    · by_cases hwas : pc.Full
      · refine hstay ?_
        rw [TryPush.phase_of_full hwas, TryPush.phase_of_full hfull, hvalue]
      · -- the load of `head_` from a full ring is where the call takes effect
        obtain ⟨tail, -, hsize⟩ := RingOk.full_of_step hring hwas hrun (.inr ⟨pc', rfl, hfull⟩)
        have hat : items.length = 2 ^ k := by
          rw [hlen, ← (capacity_of_ok hring).1]
          exact congrArg UInt64.toNat hsize
        have heffect : boundedQueue (2 ^ k) items (.push pc.value) (.refused pc.value) items :=
          ⟨rfl, hat, rfl⟩
        rw [TryPush.phase_of_not_full hwas] at hphase
        refine ⟨Nat.zero_le _, [⟨.producer, .push pc.value, .refused pc.value⟩], items,
          hlegal.snoc .producer heffect, pushed, popped,
          Function.update phase .producer (.effected (.refused pc.value)), ?_⟩
        rw [List.map_nil, List.append_nil]
        refine ⟨hring', hitems, htracks.effect hphase _, ?_, ?_⟩
        · simp [TryPush.phase_of_full hfull, hvalue]
        · simpa using hpop
    · have hwas : ¬ pc.Full := fun hf => hfull (TryPush.full_stays hf hrun)
      refine hstay ?_
      rw [TryPush.phase_of_not_full hwas, TryPush.phase_of_not_full hfull, hvalue]
  | done ok =>
    cases hstep
    cases ok with
    | false =>
      rw [TryPush.phase_of_full (TryPush.full_of_refused hrun)] at hphase
      refine ⟨le_rfl, [], items, by simpa using hlegal, pushed, popped,
        Function.update phase .producer .idle, ?_⟩
      rw [List.append_nil]
      exact ⟨hafter, hitems, htracks.ret hphase, by simp, by simpa using hpop⟩
    | true =>
      rw [TryPush.phase_of_not_full (TryPush.not_full_of_pushed hrun)] at hphase
      have hring' : RingOk k q' none pop (pushed ++ [pc.value]) popped := hafter
      have hroom : items.length < 2 ^ k := by
        have hbound := (capacity_of_ok hring').2
        have hsize := hring'.size_add
        have hserved := hring.served.length_le
        rw [List.length_append, List.length_singleton] at hsize
        rw [hitems, List.length_drop]
        omega
      have heffect : boundedQueue (2 ^ k) items (.push pc.value) (.pushed pc.value)
          (items ++ [pc.value]) := ⟨rfl, hroom, rfl⟩
      have htracks' := (htracks.effect hphase (.pushed pc.value)).ret (Function.update_self ..)
      have hitems' : items ++ [pc.value] = (pushed ++ [pc.value]).drop popped.length := by
        rw [hitems, List.drop_append_of_le_length hring.served.length_le]
      exact ⟨le_rfl, [⟨.producer, .push pc.value, .pushed pc.value⟩], items ++ [pc.value],
        hlegal.snoc .producer heffect, pushed ++ [pc.value], popped, _,
        ⟨hring', hitems', htracks', by simp, by simpa using hpop⟩⟩

/-- The consumer's step. -/
theorem consumer_points {pc : TryPop T} (h : s.Points k hist effects items pushed popped phase)
    (hlegal : Legal (boundedQueue (2 ^ k)) [] effects items) (hpc : s.pop = some pc)
    {out : List (Return T)} (hstep : s.step .consumer = .ok (s', out)) :
    Pointing k hist effects s' (out.map fun r => .ret r.side r) := by
  have hphase := h.pop
  have hpush := h.push
  have hitems := h.items
  have htracks := h.tracks
  have hring := h.ring
  obtain ⟨queue, push, pop⟩ := s
  obtain rfl : pop = some pc := hpc
  have hring : RingOk k queue push (some pc) pushed popped := hring
  have hphase : pc.Phase (phase .consumer) := hphase
  obtain ⟨q', r, hrun, hafter⟩ := RingOk.pop_step hring
  simp only [step, hrun, ok_bind] at hstep
  cases r with
  | next pc' =>
    cases hstep
    refine ⟨Nat.zero_le _, [], items, by simpa using hlegal, pushed, popped, phase, ?_⟩
    rw [List.map_nil, List.append_nil, List.append_nil]
    exact ⟨hafter, hitems, htracks, hpush, TryPop.phase_next hphase hrun⟩
  | done out =>
    cases hstep
    obtain ⟨request, hcalled, hmost⟩ := RingOk.popped_le_most hring hphase hrun
    obtain ⟨hring', hempty⟩ := hafter
    obtain ⟨rest, hrest⟩ := hring'.served
    have hsplit : items = out ++ rest := by
      rw [hitems, ← hrest, List.append_assoc, List.drop_left]
    have hrest' : rest = pushed.drop (popped ++ out).length := by rw [← hrest, List.drop_left]
    have hnone : out = [] → items = [] := by
      intro ho
      rw [hitems, ← hempty ho, List.drop_length]
    have heffect : boundedQueue (2 ^ k) items (.pop request) (.popped out) rest :=
      ⟨hsplit, hmost, hnone⟩
    have htracks' := (htracks.effect hcalled (.popped out)).ret (Function.update_self ..)
    exact ⟨le_rfl, [⟨.consumer, .pop request, .popped out⟩], rest,
      hlegal.snoc .consumer heffect, pushed, popped ++ out, _,
      ⟨hring', hrest', htracks', by simpa using hpush, by simp⟩⟩

/-- One choice of the scheduler: a call, an effect, a return, or none of these. -/
theorem observe_points (hc : c.Allowed) (h : s.Pointed k hist effects items)
    (hlegal : Legal (boundedQueue (2 ^ k)) [] effects items)
    {out : List (Event RingSide (RingCall T) (Return T))}
    (hstep : s.observe c = .ok (s', out)) : Pointing k hist effects s' out := by
  obtain ⟨pushed, popped, phase, h⟩ := h
  obtain ⟨⟨s₁, rets⟩, hrun, he⟩ := bind_eq_ok.mp hstep
  cases he
  have hskip : Pointing k hist effects s [] := by
    refine ⟨Nat.zero_le _, [], items, by simpa using hlegal, pushed, popped, phase, ?_⟩
    rwa [List.append_nil, List.append_nil]
  have hpush := h.push
  have hpop := h.pop
  have hring := h.ring
  obtain ⟨queue, push, pop⟩ := s
  cases c with
  | producer =>
    cases push with
    | none =>
      cases hrun
      exact hskip
    | some pc => exact producer_points h hlegal rfl hrun
  | consumer =>
    cases pop with
    | none =>
      cases hrun
      exact hskip
    | some pc => exact consumer_points h hlegal rfl hrun
  | callPush value =>
    cases push with
    | some pc =>
      cases hrun
      exact hskip
    | none =>
      cases hrun
      refine ⟨le_rfl, [], items, by simpa using hlegal, pushed, popped,
        Function.update phase .producer (.called (.push value)), ?_⟩
      rw [List.append_nil]
      exact ⟨hring.callPush value, h.items, h.tracks.call hpush (.push value), by
        simp [TryPush.phase, TryPush.value], by simpa using hpop⟩
  | callPop request =>
    cases pop with
    | some pc =>
      cases hrun
      exact hskip
    | none =>
      cases hrun
      refine ⟨le_rfl, [], items, by simpa using hlegal, pushed, popped,
        Function.update phase .consumer (.called (.pop request)), ?_⟩
      rw [List.append_nil]
      exact ⟨hring.callPop hc, h.items, h.tracks.call hpop (.pop request), by
        simpa using hpush, by simp [TryPop.Phase]⟩

end Spsc

/-- Under every interleaving of its loads and stores, and across every wrap of the counters,
the ring answers as a queue of bounded length on which the calls take effect one at a time. -/
theorem ring_linearizable {T : Type} [Inhabited T] {k : Nat} (hk : k < 64)
    (sched : List (Choice T)) (h : ∀ c ∈ sched, c.Allowed) : ∃ q s hist,
      SPSCQueue.new (UInt64.ofNat (2 ^ k)) = .ok q ∧
      Schedule.run Spsc.observe { queue := q } sched = .ok (s, hist) ∧
      Linearizable (boundedQueue (2 ^ k)) [] hist := by
  obtain ⟨q, hnew, hring⟩ := RingOk.new_pow (T := T) hk
  have h₀ : Spsc.Pointed k { queue := q } [] [] [] :=
    ⟨[], [], fun _ => .idle, hring, rfl, Tracks.start, rfl, rfl⟩
  have hgo : ∃ s hist, Schedule.run Spsc.observe { queue := q } sched = .ok (s, hist) ∧
      ∃ log, Spsc.Inv k s log := by
    refine Schedule.run_ok (fun s _ => ∃ log, Spsc.Inv k s log) Choice.Allowed
      (fun s hist c hc hs => ?_) ⟨[], hring⟩ h
    obtain ⟨log, hs⟩ := hs
    obtain ⟨s', out, hstep, hs'⟩ := Spsc.step_inv hc hs
    refine ⟨s', s.callEvents c ++ out.map fun r => .ret r.side r, ?_, log ++ out, hs'⟩
    simp only [Spsc.observe, hstep, ok_bind, pure_eq_ok]
  obtain ⟨s, hist, hrun, -⟩ := hgo
  refine ⟨q, s, hist, hnew, hrun, ?_⟩
  exact of_points (Spsc.Pointed k) (fun s hist effects items ⟨_, _, _, hs⟩ => hs.tracks.fits)
    (fun s hist effects items c s' out hc hs hlegal hstep =>
      Spsc.observe_points hc hs hlegal hstep) h₀ h hrun

/-- One slot: the second push may only be refused once the first has taken effect. -/
theorem ring_linearizable_small : ∃ q s hist,
    SPSCQueue.new (UInt64.ofNat (2 ^ 0)) = .ok q ∧
    Schedule.run Spsc.observe { queue := q } (List.flatten [[.callPush 7, .callPop .pop, .consumer],
      List.replicate 6 .producer, [.callPush 8, .producer, .consumer, .producer, .consumer],
      List.replicate 4 .producer]) = .ok (s, hist) ∧
    Linearizable (boundedQueue (2 ^ 0)) [] hist :=
  ring_linearizable (T := Nat) (k := 0) (by decide) _ (by decide)

end LimitOrderBook
