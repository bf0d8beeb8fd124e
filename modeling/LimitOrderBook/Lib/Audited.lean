import Mathlib

/-!
Unsigned arithmetic of 64 bits under audit. A result carries the value the machine
computes, wrapped where it wraps, and a flag that stays set while every operation
so far was exact and no divisor was zero.
-/

set_option autoImplicit false

structure Audited (α : Type) where
  value : α
  exact : Bool
  deriving DecidableEq, Repr

namespace Audited

variable {α β : Type}

instance : Monad Audited where
  pure a := ⟨a, true⟩
  bind x f := ⟨(f x.value).value, x.exact && (f x.value).exact⟩

def add (a b : UInt64) : Audited UInt64 := ⟨a + b, a.toNat + b.toNat < 2 ^ 64⟩

def sub (a b : UInt64) : Audited UInt64 := ⟨a - b, b ≤ a⟩

def mul (a b : UInt64) : Audited UInt64 := ⟨a * b, a.toNat * b.toNat < 2 ^ 64⟩

def div (a b : UInt64) : Audited UInt64 := ⟨a / b, b ≠ 0⟩

def mod (a b : UInt64) : Audited UInt64 := ⟨a % b, b ≠ 0⟩

/-- A shift by the width or more is undefined in the source. -/
def shl (a : UInt64) (k : Nat) : Audited UInt64 :=
  ⟨a <<< UInt64.ofNat k, k < 64 ∧ a.toNat * 2 ^ k < 2 ^ 64⟩

def Gives (x : Audited α) (P : α → Prop) : Prop := x.exact = true ∧ P x.value

instance (x : Audited α) (P : α → Prop) [DecidablePred P] : Decidable (x.Gives P) :=
  inferInstanceAs (Decidable (_ ∧ _))

theorem Gives.pure {a : α} {P : α → Prop} (h : P a) : Gives (Pure.pure a : Audited α) P :=
  ⟨rfl, h⟩

theorem Gives.bind {x : Audited α} {f : α → Audited β} {P : α → Prop} {Q : β → Prop}
    (hx : x.Gives P) (hf : ∀ a, P a → (f a).Gives Q) : (x >>= f).Gives Q := by
  obtain ⟨he, hq⟩ := hf x.value hx.2
  exact ⟨Bool.and_eq_true_iff.mpr ⟨hx.1, he⟩, hq⟩

theorem Gives.mono {x : Audited α} {P Q : α → Prop} (h : x.Gives P) (hPQ : ∀ a, P a → Q a) :
    x.Gives Q := ⟨h.1, hPQ _ h.2⟩

/-! What each operation gives when it is exact. -/

variable {a b : UInt64}

theorem gives_add (h : a.toNat + b.toNat < 2 ^ 64) :
    (add a b).Gives fun c => c.toNat = a.toNat + b.toNat := by
  have hvalue := UInt64.toNat_add a b
  rw [Nat.mod_eq_of_lt h] at hvalue
  exact ⟨decide_eq_true h, hvalue⟩

theorem gives_sub (h : b.toNat ≤ a.toNat) :
    (sub a b).Gives fun c => c.toNat = a.toNat - b.toNat :=
  ⟨decide_eq_true (UInt64.le_iff_toNat_le.mpr h),
    UInt64.toNat_sub_of_le _ _ (UInt64.le_iff_toNat_le.mpr h)⟩

theorem gives_mul (h : a.toNat * b.toNat < 2 ^ 64) :
    (mul a b).Gives fun c => c.toNat = a.toNat * b.toNat := by
  have hvalue := UInt64.toNat_mul a b
  rw [Nat.mod_eq_of_lt h] at hvalue
  exact ⟨decide_eq_true h, hvalue⟩

theorem ne_zero (h : 0 < b.toNat) : b ≠ 0 := by
  rintro rfl
  exact absurd h (by decide)

theorem gives_div (h : 0 < b.toNat) :
    (div a b).Gives fun c => c.toNat = a.toNat / b.toNat :=
  ⟨decide_eq_true (ne_zero h), UInt64.toNat_div a b⟩

theorem gives_mod (h : 0 < b.toNat) :
    (mod a b).Gives fun c => c.toNat = a.toNat % b.toNat :=
  ⟨decide_eq_true (ne_zero h), UInt64.toNat_mod a b⟩

theorem gives_shl {k : Nat} (hk : k < 64) (h : a.toNat * 2 ^ k < 2 ^ 64) :
    (shl a k).Gives fun c => c.toNat = a.toNat * 2 ^ k := by
  have hvalue := UInt64.toNat_shiftLeft a (UInt64.ofNat k)
  have hlt : k < 2 ^ 64 := lt_trans hk (by decide)
  rw [UInt64.toNat_ofNat_of_lt' hlt, Nat.mod_eq_of_lt hk, Nat.shiftLeft_eq,
    Nat.mod_eq_of_lt h] at hvalue
  exact ⟨decide_eq_true ⟨hk, h⟩, hvalue⟩

theorem div_mul_add_mod_mul_div (a b : Nat) {c : Nat} (hc : 0 < c) :
    a / c * b + a % c * b / c = a * b / c := by
  have hsplit : a * b = c * (a / c * b) + a % c * b := by
    calc a * b = (c * (a / c) + a % c) * b := by rw [Nat.div_add_mod]
      _ = c * (a / c * b) + a % c * b := by ring
  rw [hsplit, Nat.mul_add_div hc]

end Audited
