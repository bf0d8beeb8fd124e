import Mathlib

set_option autoImplicit false

namespace Wrapping

theorem toNat_ofNat (n : Nat) : (UInt64.ofNat n).toNat = n % 2 ^ 64 := UInt64.toNat_ofNat'

theorem toNat_sub {m n : Nat} (h : m ≤ n) (hlt : n - m < 2 ^ 64) :
    (UInt64.ofNat n - UInt64.ofNat m).toNat = n - m := by
  rw [UInt64.toNat_sub, toNat_ofNat, toNat_ofNat]
  omega

theorem ofNat_inj {m n : Nat} (h : m ≤ n) (hlt : n - m < 2 ^ 64) :
    UInt64.ofNat n = UInt64.ofNat m ↔ n = m := by
  constructor
  · intro e
    have hsub := toNat_sub h hlt
    rw [e, UInt64.sub_self] at hsub
    have : (0 : UInt64).toNat = 0 := rfl
    omega
  · exact fun e => e ▸ rfl

theorem ofNat_add (m n : Nat) : UInt64.ofNat m + UInt64.ofNat n = UInt64.ofNat (m + n) :=
  (UInt64.ofNat_add m n).symm

theorem ofNat_succ (n : Nat) : UInt64.ofNat n + 1 = UInt64.ofNat (n + 1) := ofNat_add n 1

/-- A mask of `k` ones keeps the counter modulo 2^k, across a wrap as well. -/
theorem toNat_and_mask {k : Nat} (hk : k < 64) (n : Nat) :
    (UInt64.ofNat n &&& (UInt64.ofNat (2 ^ k) - 1)).toNat = n % 2 ^ k := by
  have hlt : 2 ^ k < 2 ^ 64 := Nat.pow_lt_pow_right (by decide) hk
  have hpos := Nat.two_pow_pos k
  have hmask : (UInt64.ofNat (2 ^ k) - 1).toNat = 2 ^ k - 1 := toNat_sub (m := 1) hpos (by omega)
  rw [UInt64.toNat_and, hmask, toNat_ofNat, Nat.and_two_pow_sub_one_eq_mod]
  exact Nat.mod_mod_of_dvd n (Nat.pow_dvd_pow 2 hk.le)

theorem mod_ne {c m n : Nat} (h : m < n) (hc : n < m + c) : m % c ≠ n % c := by
  intro e
  have hdvd : c ∣ n - m := (Nat.modEq_iff_dvd' h.le).mp e
  exact absurd (Nat.le_of_dvd (by omega) hdvd) (by omega)

/-- The bit test for a power of two. -/
theorem pow_of_and_sub_one {c : UInt64} (h₀ : c ≠ 0) (h : c &&& (c - 1) = 0) :
    ∃ k < 64, c = UInt64.ofNat (2 ^ k) := by
  have hpos : c.toNat ≠ 0 := fun e => h₀ (UInt64.toNat_inj.mp e)
  have hsub : (c - 1).toNat = c.toNat - 1 := by
    have hone : (1 : UInt64).toNat = 1 := rfl
    have := c.toNat_lt
    rw [UInt64.toNat_sub, hone]
    omega
  have hand : c.toNat &&& (c.toNat - 1) = 0 := by
    rw [← hsub, ← UInt64.toNat_and, h]
    rfl
  obtain ⟨k, hk⟩ := Nat.ne_zero_and_sub_one_eq_zero_iff_isPowerOfTwo.mp ⟨hpos, hand⟩
  refine ⟨k, ?_, ?_⟩
  · have := c.toNat_lt
    exact (Nat.pow_lt_pow_iff_right (by decide)).mp (hk ▸ this)
  · rw [← hk, UInt64.ofNat_toNat]

theorem and_sub_one_of_pow {k : Nat} (hk : k < 64) : UInt64.ofNat (2 ^ k) ≠ 0 ∧
    UInt64.ofNat (2 ^ k) &&& (UInt64.ofNat (2 ^ k) - 1) = 0 := by
  have hlt : 2 ^ k < 2 ^ 64 := Nat.pow_lt_pow_right (by decide) hk
  constructor
  · intro e
    have hz := congrArg UInt64.toNat e
    rw [toNat_ofNat, Nat.mod_eq_of_lt hlt] at hz
    exact absurd hz (by simp)
  · apply UInt64.toNat_inj.mp
    rw [toNat_and_mask hk, Nat.mod_self]
    rfl

end Wrapping
