import LimitOrderBook.Lib.Schedule
import Mathlib.Data.Prod.Lex
import Mathlib.Order.WellFounded

set_option autoImplicit false

namespace Schedule
open Checked

variable {σ γ ε : Type}

/-- The choice keeps coming. -/
def FairTo (f : Nat → γ) (c : γ) : Prop := ∀ n, ∃ m, n ≤ m ∧ f m = c

def roundRobin (cs : List γ) (h : cs ≠ []) (n : Nat) : γ :=
  cs.get ⟨n % cs.length, Nat.mod_lt n (List.length_pos_of_ne_nil h)⟩

theorem roundRobin_fair {cs : List γ} (h : cs ≠ []) {c : γ} (hc : c ∈ cs) :
    FairTo (roundRobin cs h) c := by
  intro n
  obtain ⟨i, hi, rfl⟩ := List.getElem_of_mem hc
  have hpos := List.length_pos_of_ne_nil h
  refine ⟨n * cs.length + i, ?_, ?_⟩
  · exact (Nat.le_mul_of_pos_right n hpos).trans (Nat.le_add_right _ i)
  · simp [roundRobin, Nat.mul_add_mod_self_right, Nat.mod_eq_of_lt hi]

def upTo (f : Nat → γ) (n : Nat) : List γ := (List.range n).map f

theorem upTo_succ (f : Nat → γ) (n : Nat) : upTo f (n + 1) = upTo f n ++ [f n] := by
  simp [upTo, List.range_succ]

section

variable (step : σ → γ → Exec (σ × List ε)) (s₀ : σ) (f : Nat → γ)

def At (n : Nat) (s : σ) (outs : List ε) : Prop := run step s₀ (upTo f n) = .ok (s, outs)

/-- Whenever `P` holds, `Q` holds then or later. -/
def LeadsTo (P Q : σ → List ε → Prop) : Prop :=
  ∀ n s outs, At step s₀ f n s outs → P s outs →
    ∃ m s' outs', n ≤ m ∧ At step s₀ f m s' outs' ∧ Q s' outs'

end

variable {step : σ → γ → Exec (σ × List ε)} {s₀ : σ} {f : Nat → γ}
  {Inv P Q R : σ → List ε → Prop} {C : γ → Prop}

theorem At.zero : At step s₀ f 0 s₀ [] := rfl

theorem At.succ {n : Nat} {s s' : σ} {outs out : List ε} (h : At step s₀ f n s outs)
    (hstep : step s (f n) = .ok (s', out)) : At step s₀ f (n + 1) s' (outs ++ out) := by
  unfold At at h ⊢
  rw [upTo_succ]
  exact run_append_eq_ok.mpr ⟨s, outs, out, h, run_one hstep, rfl⟩

namespace LeadsTo

theorem trans (hPQ : LeadsTo step s₀ f P Q) (hQR : LeadsTo step s₀ f Q R) :
    LeadsTo step s₀ f P R := by
  intro n s outs hat hP
  obtain ⟨m, s₁, outs₁, hnm, hat₁, hQ⟩ := hPQ n s outs hat hP
  obtain ⟨l, s₂, outs₂, hml, hat₂, hR⟩ := hQR m s₁ outs₁ hat₁ hQ
  exact ⟨l, s₂, outs₂, hnm.trans hml, hat₂, hR⟩

end LeadsTo

/-- Every choice goes through and keeps `Inv`. It ends the wait for `Done`, lowers the
rank, or leaves the rank and the choice that helps as they are; the helping choice does
not do the last. -/
structure Descends {α : Type} [LT α] (step : σ → γ → Exec (σ × List ε)) (C : γ → Prop)
    (Inv : σ → List ε → Prop) (Done : σ → Prop) (helper : σ → γ) (rank : σ → α) : Prop where
  next : ∀ s hist c, C c → Inv s hist → ¬ Done s →
    ∃ s' out, step s c = .ok (s', out) ∧ Inv s' (hist ++ out) ∧
      (Done s' ∨ rank s' < rank s ∨ (c ≠ helper s ∧ rank s' = rank s ∧ helper s' = helper s))

namespace Descends

variable {α : Type} [LT α] {Done : σ → Prop} {helper : σ → γ} {rank : σ → α}

/-- Up to the next time the helping choice comes. -/
theorem reaches_lower (h : Descends step C Inv Done helper rank) (hC : ∀ n, C (f n)) (k : Nat) :
    ∀ {n : Nat} {s : σ} {outs : List ε}, At step s₀ f n s outs → Inv s outs → ¬ Done s →
    f (n + k) = helper s → ∃ m s' outs', n ≤ m ∧ At step s₀ f m s' outs' ∧ Inv s' outs' ∧
      (Done s' ∨ rank s' < rank s) := by
  induction k with
  | zero =>
    intro n s outs hat hinv hdone hf
    obtain ⟨s', out, hstep, hinv', hlower⟩ := h.next s outs (f n) (hC n) hinv hdone
    refine ⟨n + 1, s', outs ++ out, Nat.le_succ n, hat.succ hstep, hinv', ?_⟩
    rcases hlower with hdone' | hlt | ⟨hne, -⟩
    · exact .inl hdone'
    · exact .inr hlt
    · exact absurd hf hne
  | succ k ih =>
    intro n s outs hat hinv hdone hf
    obtain ⟨s', out, hstep, hinv', hlower⟩ := h.next s outs (f n) (hC n) hinv hdone
    have hat' := hat.succ hstep
    rcases hlower with hdone' | hlt | ⟨-, hrank, hhelper⟩
    · exact ⟨n + 1, s', _, Nat.le_succ n, hat', hinv', .inl hdone'⟩
    · exact ⟨n + 1, s', _, Nat.le_succ n, hat', hinv', .inr hlt⟩
    · by_cases hdone' : Done s'
      · exact ⟨n + 1, s', _, Nat.le_succ n, hat', hinv', .inl hdone'⟩
      · have hnext : f (n + 1 + k) = helper s' := by rw [hhelper, ← hf, Nat.succ_add_eq_add_succ]
        obtain ⟨m, s₁, outs₁, hle, hat₁, hinv₁, hlower⟩ := ih hat' hinv' hdone' hnext
        exact ⟨m, s₁, outs₁, (Nat.le_succ n).trans hle, hat₁, hinv₁, hrank ▸ hlower⟩

variable [WellFoundedLT α]

/-- The ranks cannot fall for ever. -/
theorem leadsTo (h : Descends step C Inv Done helper rank) (hC : ∀ n, C (f n))
    (hfair : ∀ s, FairTo f (helper s)) :
    LeadsTo step s₀ f Inv fun s outs => Inv s outs ∧ Done s := by
  intro n s outs hat hinv
  induction hr : rank s using WellFoundedLT.induction generalizing n s outs with
  | ind a ih =>
    subst hr
    by_cases hdone : Done s
    · exact ⟨n, s, outs, le_rfl, hat, hinv, hdone⟩
    · obtain ⟨m, hle, hm⟩ := hfair s n
      obtain ⟨k, rfl⟩ := Nat.exists_eq_add_of_le hle
      obtain ⟨m, s', outs', hnm, hat', hinv', hlower⟩ := h.reaches_lower hC k hat hinv hdone hm
      rcases hlower with hdone' | hlt
      · exact ⟨m, s', outs', hnm, hat', hinv', hdone'⟩
      · obtain ⟨l, s₁, outs₁, hml, hat₁, hend⟩ := ih _ hlt m s' outs' hat' hinv' rfl
        exact ⟨l, s₁, outs₁, hnm.trans hml, hat₁, hend⟩

end Descends

/-- What no choice ends holds from some time on. -/
theorem LeadsTo.settles (h : LeadsTo step s₀ f P Q) (h₀ : P s₀ []) (hC : ∀ n, C (f n))
    (hstay : ∀ s hist c, C c → Q s hist →
      ∃ s' out, step s c = .ok (s', out) ∧ Q s' (hist ++ out)) :
    ∃ N, ∀ n, N ≤ n → ∃ s outs, run step s₀ (upTo f n) = .ok (s, outs) ∧ Q s outs := by
  obtain ⟨N, s, outs, -, hat, hQ⟩ := h 0 s₀ [] .zero h₀
  refine ⟨N, fun n hn => ?_⟩
  induction n, hn using Nat.le_induction with
  | base => exact ⟨s, outs, hat, hQ⟩
  | succ n _ ih =>
    obtain ⟨s₁, outs₁, hat₁, hQ₁⟩ := ih
    obtain ⟨s', out, hstep, hQ'⟩ := hstay s₁ outs₁ (f n) (hC n) hQ₁
    exact ⟨s', _, At.succ hat₁ hstep, hQ'⟩

end Schedule
