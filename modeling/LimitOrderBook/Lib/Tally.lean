import Mathlib

set_option autoImplicit false

namespace Tally

variable {ε : Type}

def tally (w : ε → Nat) (es : List ε) : Nat := (es.map w).sum

variable {w w' : ε → Nat}

@[simp] theorem tally_nil : tally w [] = 0 := rfl

@[simp] theorem tally_cons (e : ε) (es : List ε) : tally w (e :: es) = w e + tally w es := by
  simp [tally]

@[simp] theorem tally_append (es fs : List ε) : tally w (es ++ fs) = tally w es + tally w fs := by
  simp [tally]

theorem tally_add (es : List ε) : tally (fun e => w e + w' e) es = tally w es + tally w' es := by
  induction es with
  | nil => rfl
  | cons e es ih =>
    rw [tally_cons, tally_cons, tally_cons, ih]
    omega

theorem tally_congr {es : List ε} (h : ∀ e ∈ es, w e = w' e) : tally w es = tally w' es := by
  unfold tally
  rw [List.map_congr_left h]

theorem tally_eq_zero {es : List ε} (h : ∀ e ∈ es, w e = 0) : tally w es = 0 := by
  rw [tally_congr h]
  induction es with
  | nil => rfl
  | cons e es ih => rw [tally_cons, ih fun x hx => h x (by simp [hx])]

theorem tally_le {es : List ε} (h : ∀ e, w e ≤ w' e) : tally w es ≤ tally w' es := by
  induction es with
  | nil => exact le_refl _
  | cons e es ih =>
    rw [tally_cons, tally_cons]
    exact Nat.add_le_add (h e) ih

theorem tally_length (es : List ε) : tally (fun _ => 1) es = es.length := by
  induction es with
  | nil => rfl
  | cons e es ih => rw [tally_cons, ih, List.length_cons, Nat.add_comm]

theorem counter_exact {counter : UInt64} {n : Nat} (h : counter = 0 + UInt64.ofNat n)
    (hn : n < 2 ^ 64) : counter.toNat = n := by
  rw [h, UInt64.zero_add, UInt64.toNat_ofNat']
  exact Nat.mod_eq_of_lt hn

end Tally
