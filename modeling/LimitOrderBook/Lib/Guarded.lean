import LimitOrderBook.Lib.Checked

/-!
Checked execution under a stricter watch. A guarded run stops also where an unsigned
subtraction would wrap around, and where it enters a branch held to be unreachable.
-/

set_option autoImplicit false

namespace Checked

inductive Trap where
  | fault (fault : Fault)
  | underflow
  | unreachable
  deriving DecidableEq, Repr

abbrev Guarded (α : Type) := Except Trap α

instance : MonadLift (Except Fault) (Except Trap) where
  monadLift x := x.mapError .fault

def subU32 (a b : UInt32) : Guarded UInt32 := if b ≤ a then .ok (a - b) else .error .underflow

def subU64 (a b : UInt64) : Guarded UInt64 := if b ≤ a then .ok (a - b) else .error .underflow

/-- If the plain run returns `a`, the guarded run returns too, with a result as described. -/
def Keeps {α β : Type} (x : Exec α) (a : α) (y : Guarded β) (P : β → Prop) : Prop :=
  x = .ok a → ∃ b, y = .ok b ∧ P b

namespace Keeps

variable {α β γ δ : Type} {x : Exec α} {f : α → Exec γ} {c : γ} {P : δ → Prop}

theorem pure {a : γ} {b : δ} (h : a = c → P b) : Keeps (Pure.pure a) c (Pure.pure b) P :=
  fun ha => ⟨b, rfl, h (Except.ok.inj ha)⟩

theorem fault (e : Fault) (y : Guarded δ) : Keeps (.error e) c y P := fun h => by cases h

/-- One step of both runs. That the plain run goes on to its result is known by then. -/
theorem bind {y : Guarded β} {g : β → Guarded δ}
    (h : ∀ a, x = .ok a → f a = .ok c → ∃ b, y = .ok b ∧ Keeps (f a) c (g b) P) :
    Keeps (x >>= f) c (y >>= g) P := by
  intro hc
  obtain ⟨a, ha, hfa⟩ := bind_eq_ok.mp hc
  obtain ⟨b, hb, hg⟩ := h a ha hfa
  rw [hb]
  exact hg hfa

theorem same {y : Guarded α} {g : α → Guarded δ}
    (hy : ∀ a, x = .ok a → f a = .ok c → y = .ok a)
    (h : ∀ a, x = .ok a → Keeps (f a) c (g a) P) : Keeps (x >>= f) c (y >>= g) P :=
  bind fun a ha hfa => ⟨a, hy a ha hfa, h a ha⟩

theorem step {g : α → Guarded δ} (h : ∀ a, x = .ok a → Keeps (f a) c (g a) P) :
    Keeps (x >>= f) c ((liftM x : Guarded α) >>= g) P :=
  same (fun _ ha _ => by rw [ha]; rfl) h

/-- The guarded run does what the plain run does, and checks it afterwards. -/
theorem after {a : α} {g : α → Guarded δ} (h : x = .ok a → Keeps (Pure.pure a) a (g a) P) :
    Keeps x a ((liftM x : Guarded α) >>= g) P := by
  intro hx
  rw [hx]
  exact h hx rfl

theorem check {y : Guarded β} {g : β → Guarded δ} {z : Exec γ} {b : β} (hy : y = .ok b)
    (h : Keeps z c (g b) P) : Keeps z c (y >>= g) P := by
  rw [hy]
  exact h

theorem ite {p : Prop} [Decidable p] {z z' : Exec γ} {w w' : Guarded δ} (h : p → Keeps z c w P)
    (h' : ¬ p → Keeps z' c w' P) : Keeps (if p then z else z') c (if p then w else w') P := by
  by_cases hp : p
  · rw [if_pos hp, if_pos hp]
    exact h hp
  · rw [if_neg hp, if_neg hp]
    exact h' hp

theorem eq_ok {y : Guarded α} {a : α} (h : Keeps x a y (· = a)) (hx : x = .ok a) : y = .ok a := by
  obtain ⟨b, hb, rfl⟩ := h hx
  exact hb

end Keeps

theorem subU32_ok {a b : UInt32} (h : b ≤ a) : subU32 a b = .ok (a - b) := if_pos h

theorem subU64_ok {a b : UInt64} (h : b ≤ a) : subU64 a b = .ok (a - b) := if_pos h

end Checked
