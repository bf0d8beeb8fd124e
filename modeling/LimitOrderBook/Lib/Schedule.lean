import LimitOrderBook.Lib.Checked

/-!
Threads under a scheduler. A step function takes one choice of the scheduler, and
a run takes a list of them; whatever is proved of every list of choices holds of
every interleaving.
-/

set_option autoImplicit false

namespace Schedule
open Checked

variable {σ γ ε : Type}

def run (step : σ → γ → Exec (σ × List ε)) : σ → List γ → Exec (σ × List ε)
  | s, [] => pure (s, [])
  | s, c :: cs => do
    let (s, out) ← step s c
    let (s, outs) ← run step s cs
    pure (s, out ++ outs)

variable {step : σ → γ → Exec (σ × List ε)} {s s' : σ} {cs ds : List γ} {outs : List ε}

theorem run_cons_eq_ok {c : γ} : run step s (c :: cs) = .ok (s', outs) ↔ ∃ s₁ out₁ out₂,
    step s c = .ok (s₁, out₁) ∧ run step s₁ cs = .ok (s', out₂) ∧ outs = out₁ ++ out₂ := by
  constructor
  · intro h
    obtain ⟨⟨s₁, out₁⟩, hstep, h⟩ := bind_eq_ok.mp h
    obtain ⟨⟨s₂, out₂⟩, hrun, h⟩ := bind_eq_ok.mp h
    cases h
    exact ⟨s₁, out₁, out₂, hstep, hrun, rfl⟩
  · rintro ⟨s₁, out₁, out₂, hstep, hrun, rfl⟩
    rw [run, hstep, ok_bind]
    simp only [hrun, ok_bind, pure_eq_ok]

theorem run_append_eq_ok : run step s (cs ++ ds) = .ok (s', outs) ↔ ∃ s₁ out₁ out₂,
    run step s cs = .ok (s₁, out₁) ∧ run step s₁ ds = .ok (s', out₂) ∧ outs = out₁ ++ out₂ := by
  induction cs generalizing s outs with
  | nil => simp [run]
  | cons c cs ih =>
    rw [List.cons_append, run_cons_eq_ok]
    constructor
    · rintro ⟨s₁, out₁, out, hstep, hrun, rfl⟩
      obtain ⟨s₂, out₂, out₃, hcs, hds, rfl⟩ := ih.mp hrun
      exact ⟨s₂, out₁ ++ out₂, out₃, run_cons_eq_ok.mpr ⟨s₁, out₁, out₂, hstep, hcs, rfl⟩, hds,
        (List.append_assoc ..).symm⟩
    · rintro ⟨s₂, out, out₃, hrun, hds, rfl⟩
      obtain ⟨s₁, out₁, out₂, hstep, hcs, rfl⟩ := run_cons_eq_ok.mp hrun
      exact ⟨s₁, out₁, out₂ ++ out₃, hstep, ih.mpr ⟨s₂, out₂, out₃, hcs, hds, rfl⟩,
        List.append_assoc ..⟩

theorem run_one {c : γ} {out : List ε} (h : step s c = .ok (s', out)) :
    run step s [c] = .ok (s', out) :=
  run_cons_eq_ok.mpr ⟨s', out, [], h, rfl, (List.append_nil out).symm⟩

/-- What every step keeps, with the reports so far, holds after every run. -/
theorem run_inv (Inv : σ → List ε → Prop)
    (hstep : ∀ s hist c s' out, Inv s hist → step s c = .ok (s', out) → Inv s' (hist ++ out))
    (h₀ : Inv s []) (h : run step s cs = .ok (s', outs)) : Inv s' outs := by
  induction cs using List.reverseRecOn generalizing s' outs with
  | nil =>
    cases h
    exact h₀
  | append_singleton cs c ih =>
    obtain ⟨s₁, out₁, out₂, hcs, hone, rfl⟩ := run_append_eq_ok.mp h
    obtain ⟨_, out₃, out₄, hc, hnil, rfl⟩ := run_cons_eq_ok.mp hone
    cases hnil
    simpa using hstep s₁ out₁ c s' out₃ (ih hcs) hc

/-- Where the invariant also lets every permitted choice through, no run faults. -/
theorem run_ok (Inv : σ → List ε → Prop) (P : γ → Prop)
    (hstep : ∀ s hist c, P c → Inv s hist →
      ∃ s' out, step s c = .ok (s', out) ∧ Inv s' (hist ++ out))
    (h₀ : Inv s []) (hP : ∀ c ∈ cs, P c) :
    ∃ s' outs, run step s cs = .ok (s', outs) ∧ Inv s' outs := by
  induction cs using List.reverseRecOn with
  | nil => exact ⟨s, [], rfl, h₀⟩
  | append_singleton cs c ih =>
    obtain ⟨s₁, out₁, hcs, hinv⟩ := ih fun d hd => hP d (by simp [hd])
    obtain ⟨s₂, out₂, hc, hinv'⟩ := hstep s₁ out₁ c (hP c (by simp)) hinv
    exact ⟨s₂, out₁ ++ out₂,
      run_append_eq_ok.mpr ⟨s₁, out₁, out₂, hcs, run_one hc, rfl⟩, hinv'⟩

theorem run_enter (B : σ → Prop) (h : run step s cs = .ok (s', outs)) (h₀ : ¬ B s) (hB : B s') :
    ∃ pre c post s₁ o₁ s₂ o₂, cs = pre ++ c :: post ∧ run step s pre = .ok (s₁, o₁) ∧ ¬ B s₁ ∧
      step s₁ c = .ok (s₂, o₂) ∧ B s₂ ∧
      ∀ mid, mid <+: post → ∃ s₃ o₃, run step s (pre ++ c :: mid) = .ok (s₃, o₃) ∧ B s₃ := by
  induction cs using List.reverseRecOn generalizing s' outs with
  | nil =>
    cases h
    exact absurd hB h₀
  | append_singleton cs c ih =>
    obtain ⟨s₁, o₁, o₂, hcs, hone, -⟩ := run_append_eq_ok.mp h
    obtain ⟨_, o₃, o₄, hc, hnil, -⟩ := run_cons_eq_ok.mp hone
    cases hnil
    by_cases h₁ : B s₁
    · obtain ⟨pre, c', post, s₂, o, s₃, o', rfl, hpre, hs₂, hc', hs₃, hmid⟩ := ih hcs h₁
      refine ⟨pre, c', post ++ [c], s₂, o, s₃, o', by simp, hpre, hs₂, hc', hs₃, fun mid hp => ?_⟩
      rcases List.prefix_concat_iff.mp hp with rfl | hp
      · exact ⟨s', outs, by simpa using h, hB⟩
      · exact hmid mid hp
    · refine ⟨cs, c, [], s₁, o₁, s', o₃, rfl, hcs, h₁, hc, hB, fun mid hp => ?_⟩
      obtain rfl := List.prefix_nil.mp hp
      exact ⟨s', outs, h, hB⟩

end Schedule
