import Mathlib

set_option autoImplicit false

namespace CumulativeTable

variable {w : Nat → Nat} {n r j k : Nat}

/-- The sum of the first `n` weights. -/
def cumulative (w : Nat → Nat) (n : Nat) : Nat := ∑ k ∈ Finset.range n, w k

theorem cumulative_succ (w : Nat → Nat) (n : Nat) :
    cumulative w (n + 1) = cumulative w n + w n := Finset.sum_range_succ w n

theorem cumulative_mono (w : Nat → Nat) : Monotone (cumulative w) :=
  monotone_nat_of_le_succ fun n => by
    rw [cumulative_succ]
    exact Nat.le_add_right _ _

theorem cumulative_le {m : Nat} (hw : ∀ k, w k ≤ m) (n : Nat) : cumulative w n ≤ n * m := by
  have h := Finset.sum_le_card_nsmul (Finset.range n) w m fun k _ => hw k
  rwa [Finset.card_range, smul_eq_mul] at h

/-- The number `r` lies in the interval of index `k`. -/
def Owns (w : Nat → Nat) (k r : Nat) : Prop := cumulative w k ≤ r ∧ r < cumulative w (k + 1)

instance : Decidable (Owns w k r) := inferInstanceAs (Decidable (_ ∧ _))

theorem Owns.unique (hj : Owns w j r) (hk : Owns w k r) : j = k := by
  rcases Nat.lt_trichotomy j k with hlt | rfl | hlt
  · have := cumulative_mono w (show j + 1 ≤ k from hlt)
    exact absurd (lt_of_lt_of_le hj.2 this) (not_lt.mpr hk.1)
  · rfl
  · have := cumulative_mono w (show k + 1 ≤ j from hlt)
    exact absurd (lt_of_lt_of_le hk.2 this) (not_lt.mpr hj.1)

theorem Owns.lt_total (hk : Owns w k r) (hn : k < n) : r < cumulative w n :=
  lt_of_lt_of_le hk.2 (cumulative_mono w hn)

theorem card_owned (w : Nat → Nat) (hk : k < n) :
    ((Finset.range (cumulative w n)).filter (Owns w k)).card = w k := by
  have hico : (Finset.range (cumulative w n)).filter (Owns w k) =
      Finset.Ico (cumulative w k) (cumulative w (k + 1)) := by
    ext r
    rw [Finset.mem_filter, Finset.mem_range, Finset.mem_Ico]
    exact ⟨fun h => h.2, fun h => ⟨Owns.lt_total h hk, h⟩⟩
  rw [hico, Nat.card_Ico, cumulative_succ, Nat.add_sub_cancel_left]

/-- The table of the running sums, one entry for each of the first indices. -/
structure Table (w : Nat → Nat) (t : Array Nat) (n : Nat) : Prop where
  size : t.size = n
  entry : ∀ k, k < n → t[k]? = some (cumulative w (k + 1))

theorem Table.empty (w : Nat → Nat) : Table w #[] 0 :=
  ⟨rfl, fun _ h => absurd h (Nat.not_lt_zero _)⟩

theorem Table.push {t : Array Nat} (h : Table w t n) :
    Table w (t.push (cumulative w (n + 1))) (n + 1) := by
  refine ⟨by rw [Array.size_push, h.size], fun k hk => ?_⟩
  rw [Array.getElem?_push]
  by_cases he : k = t.size
  · rw [if_pos he, he, h.size]
  · rw [if_neg he]
    rw [h.size] at he
    exact h.entry k (by omega)

theorem Table.back {t : Array Nat} (h : Table w t (n + 1)) :
    t.back? = some (cumulative w (n + 1)) := by
  rw [Array.back?_eq_getElem?, h.size]
  exact h.entry n (Nat.lt_succ_self n)

/-- The first entry above a number below the total is that of its owner. -/
theorem Table.owns_findIdx {t : Array Nat} (h : Table w t n) (hr : r < cumulative w n) :
    t.findIdx (fun acc => decide (r < acc)) < n ∧
      Owns w (t.findIdx fun acc => decide (r < acc)) r := by
  obtain ⟨n, rfl⟩ : ∃ m, n = m + 1 := Nat.exists_eq_succ_of_ne_zero fun h₀ => by
    rw [h₀] at hr
    exact absurd hr (Nat.not_lt_zero r)
  have hlt : t.findIdx (fun acc => decide (r < acc)) < t.size :=
    Array.findIdx_lt_size_of_exists
      ⟨_, Array.mem_of_back? h.back, decide_eq_true hr⟩
  have habove : ∀ k (hk : k < t.size), t[k] = cumulative w (k + 1) := fun k hk => by
    have := h.entry k (h.size ▸ hk)
    rwa [Array.getElem?_eq_getElem hk, Option.some.injEq] at this
  refine ⟨h.size ▸ hlt, ?_, ?_⟩
  · cases hi : t.findIdx fun acc => decide (r < acc) with
    | zero => exact Nat.zero_le r
    | succ i =>
      have hbelow := @Array.not_of_lt_findIdx Nat (fun acc => decide (r < acc)) t i (by omega)
      rw [habove] at hbelow
      simpa using hbelow
  · have hsat := @Array.findIdx_getElem Nat (fun acc => decide (r < acc)) t hlt
    rw [habove] at hsat
    exact of_decide_eq_true hsat

end CumulativeTable
