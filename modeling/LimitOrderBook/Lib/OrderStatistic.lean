import Mathlib

set_option autoImplicit false

namespace OrderStatistic

variable {α : Type} [LinearOrder α] {xs : List α}

/-- A property that passes to smaller values holds on an initial part of a sorted list. -/
theorem lt_countP_iff {p : α → Bool} (hp : ∀ x y, x ≤ y → p y → p x)
    (hs : xs.Pairwise (· ≤ ·)) {i : Nat} (hi : i < xs.length) :
    i < xs.countP p ↔ p xs[i] := by
  induction xs generalizing i with
  | nil => exact absurd hi (by simp)
  | cons x xs ih =>
    obtain ⟨hx, hs⟩ := List.pairwise_cons.mp hs
    by_cases hpx : p x
    · rw [List.countP_cons_of_pos hpx]
      cases i with
      | zero => simp [hpx]
      | succ i =>
        rw [Nat.succ_lt_succ_iff, List.getElem_cons_succ]
        exact ih hs (Nat.succ_lt_succ_iff.mp hi)
    · have hnone : ∀ y ∈ x :: xs, ¬ p y := by
        intro y hy
        rcases List.mem_cons.mp hy with rfl | hy
        · exact hpx
        · exact fun h => hpx (hp x y (hx y hy) h)
      have hzero : (x :: xs).countP p = 0 := List.countP_eq_zero.mpr hnone
      rw [hzero]
      exact ⟨fun h => absurd h (by omega), fun h => absurd h (hnone _ (List.getElem_mem hi))⟩

variable {β : Type} [LinearOrder β] {f : α → β}

theorem rank_iff (hf : Monotone f) (hs : xs.Pairwise (· ≤ ·)) {i : Nat} (hi : i < xs.length)
    (b : β) :
    xs.countP (fun x => f x < b) ≤ i ∧ i < xs.countP (fun x => f x ≤ b) ↔ f xs[i] = b := by
  have hlt := lt_countP_iff (p := fun x => decide (f x < b))
    (fun x y hxy hy => by simpa using lt_of_le_of_lt (hf hxy) (by simpa using hy)) hs hi
  have hle := lt_countP_iff (p := fun x => decide (f x ≤ b))
    (fun x y hxy hy => by simpa using le_trans (hf hxy) (by simpa using hy)) hs hi
  rw [hle, ← not_lt, hlt]
  simp only [decide_eq_true_eq, not_lt]
  exact ⟨fun h => le_antisymm h.2 h.1, fun h => ⟨h.ge, h.le⟩⟩

end OrderStatistic
