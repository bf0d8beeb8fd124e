import Mathlib

/-!
Checked execution of C++ code. A run either returns a value or reaches a fault:
a failing debug assertion, a signed overflow, an index outside its container,
or a dereferenced end iterator. Nothing here mentions a particular program.
-/

set_option autoImplicit false

namespace Checked

inductive Fault where
  | assertion (text : String)
  | signedOverflow
  | outOfBounds
  | danglingNode
  | outOfFuel
  deriving DecidableEq, Repr

abbrev Exec (α : Type) := Except Fault α

/-- `assert(p)` of a debug build. -/
def assert (p : Prop) [Decidable p] (text : String) : Exec Unit :=
  if p then .ok () else .error (.assertion text)

@[simp] theorem ok_bind {α β : Type} (a : α) (f : α → Exec β) :
    ((.ok a : Exec α) >>= f) = f a := rfl

@[simp] theorem error_bind {α β : Type} (e : Fault) (f : α → Exec β) :
    ((.error e : Exec α) >>= f) = .error e := rfl

@[simp] theorem pure_eq_ok {α : Type} (a : α) : (pure a : Exec α) = .ok a := rfl

@[simp] theorem assert_pos {p : Prop} [Decidable p] {text : String} (h : p) :
    assert p text = .ok () := if_pos h

@[simp] theorem assert_neg {p : Prop} [Decidable p] {text : String} (h : ¬ p) :
    assert p text = .error (.assertion text) := if_neg h

theorem bind_eq_ok {α β : Type} {x : Exec α} {f : α → Exec β} {b : β} :
    (x >>= f) = .ok b ↔ ∃ a, x = .ok a ∧ f a = .ok b := by
  cases x <;> simp

/-- A property of the result of a run, if it has one. -/
def Holds {α : Type} (x : Exec α) (P : α → Prop) : Prop :=
  match x with
  | .ok a => P a
  | .error _ => False

instance {α : Type} (x : Exec α) (P : α → Prop) [DecidablePred P] : Decidable (Holds x P) :=
  match x with
  | .ok a => inferInstanceAs (Decidable (P a))
  | .error _ => inferInstanceAs (Decidable False)

theorem Holds.exists_ok {α : Type} {x : Exec α} {P : α → Prop} (h : Holds x P) :
    ∃ a, x = .ok a ∧ P a := by
  cases x with
  | ok a => exact ⟨a, rfl, h⟩
  | error e => exact h.elim

theorem assert_eq_ok {p : Prop} [Decidable p] {text : String} :
    assert p text = .ok () ↔ p := by
  by_cases h : p <;> simp [h]

theorem foldlM_ok {α β : Type} {f : β → α → Exec β} (P : List α → β → Prop) {b : β} (h₀ : P [] b)
    (xs : List α) (h : ∀ done a rest c, xs = done ++ a :: rest → P done c →
      ∃ c', f c a = .ok c' ∧ P (done ++ [a]) c') :
    ∃ c, xs.foldlM f b = .ok c ∧ P xs c := by
  induction xs using List.reverseRecOn with
  | nil => exact ⟨b, rfl, h₀⟩
  | append_singleton xs a ih =>
    obtain ⟨c, hrun, hc⟩ := ih fun done x rest c he hp =>
      h done x (rest ++ [a]) c (by simp [he]) hp
    obtain ⟨c', hstep, hc'⟩ := h xs a [] c rfl hc
    exact ⟨c', by simp [List.foldlM_append, hrun, hstep], hc'⟩

/-- What the body of a loop keeps holds at the end of the loop. -/
theorem foldlM_inv {α β : Type} {f : β → α → Exec β} (P : List α → β → Prop) {b c : β}
    (h₀ : P [] b) (xs : List α) (h : ∀ done a rest c c', xs = done ++ a :: rest → P done c →
      f c a = .ok c' → P (done ++ [a]) c') (hrun : xs.foldlM f b = .ok c) : P xs c := by
  induction xs using List.reverseRecOn generalizing c with
  | nil =>
    cases hrun
    exact h₀
  | append_singleton xs a ih =>
    rw [List.foldlM_append] at hrun
    obtain ⟨c₁, hrun₁, hstep⟩ := bind_eq_ok.mp hrun
    simp only [List.foldlM_cons, List.foldlM_nil] at hstep
    obtain ⟨c₂, hstep, he⟩ := bind_eq_ok.mp hstep
    cases he
    exact h xs a [] c₁ c rfl (ih (fun done x rest c c' he => h done x (rest ++ [a]) c c'
      (by simp [he])) hrun₁) hstep

theorem foldlM_ok_mem {α β : Type} {f : β → α → Exec β} (xs : List α) : ∀ {b c : β},
    xs.foldlM f b = .ok c → ∀ a ∈ xs, ∃ b₁ b₂, f b₁ a = .ok b₂ := by
  induction xs with
  | nil => exact fun _ a ha => absurd ha (by simp)
  | cons x xs ih =>
    intro b c h a ha
    rw [List.foldlM_cons] at h
    obtain ⟨b₁, hx, h⟩ := bind_eq_ok.mp h
    rcases List.mem_cons.mp ha with rfl | ha
    · exact ⟨b, b₁, hx⟩
    · exact ih h a ha

/-- The exact result of a signed 64-bit operation, or the overflow the standard
leaves undefined. -/
def int64 (n : Int) : Exec Int64 :=
  if -2 ^ 63 ≤ n ∧ n < 2 ^ 63 then .ok (Int64.ofInt n) else .error .signedOverflow

def addI64 (a b : Int64) : Exec Int64 := int64 (a.toInt + b.toInt)

def subI64 (a b : Int64) : Exec Int64 := int64 (a.toInt - b.toInt)

def negI64 (a : Int64) : Exec Int64 := int64 (-a.toInt)

theorem int64_toInt {n : Int} (h₁ : -2 ^ 63 ≤ n) (h₂ : n < 2 ^ 63) :
    (Int64.ofInt n).toInt = n := Int64.toInt_ofInt_of_le h₁ h₂

theorem int64_eq_ok {n : Int} {a : Int64} : int64 n = .ok a ↔ a.toInt = n := by
  have h₁ := a.le_toInt
  have h₂ := a.toInt_lt
  unfold int64
  constructor
  · intro h
    split at h
    · rename_i hn
      cases h
      exact int64_toInt hn.1 hn.2
    · cases h
  · intro h
    rw [if_pos ⟨by omega, by omega⟩, ← h, Int64.ofInt_toInt]

theorem int64_ok {n : Int} (h₁ : -2 ^ 63 ≤ n) (h₂ : n < 2 ^ 63) :
    int64 n = .ok (Int64.ofInt n) := if_pos ⟨h₁, h₂⟩

theorem int64_overflow {n : Int} (h : n < -2 ^ 63 ∨ 2 ^ 63 ≤ n) :
    int64 n = .error .signedOverflow := if_neg (by omega)

def int32 (n : Int) : Exec Int32 :=
  if -2 ^ 31 ≤ n ∧ n < 2 ^ 31 then .ok (Int32.ofInt n) else .error .signedOverflow

def addI32 (a b : Int32) : Exec Int32 := int32 (a.toInt + b.toInt)

theorem int32_toInt {n : Int} (h₁ : -2 ^ 31 ≤ n) (h₂ : n < 2 ^ 31) :
    (Int32.ofInt n).toInt = n := Int32.toInt_ofInt_of_le h₁ h₂

theorem int32_ok {n : Int} (h₁ : -2 ^ 31 ≤ n) (h₂ : n < 2 ^ 31) :
    int32 n = .ok (Int32.ofInt n) := if_pos ⟨h₁, h₂⟩

theorem addI32_ok {a b : Int32} (h₁ : -2 ^ 31 ≤ a.toInt + b.toInt)
    (h₂ : a.toInt + b.toInt < 2 ^ 31) :
    ∃ c, addI32 a b = .ok c ∧ c.toInt = a.toInt + b.toInt :=
  ⟨_, int32_ok h₁ h₂, int32_toInt h₁ h₂⟩

/-! Three-way facts that turn comparisons of machine integers into arithmetic. -/

theorem not_lt_toInt {a b : Int64} : ¬ a < b ↔ b.toInt ≤ a.toInt := by
  rw [Int64.lt_iff_toInt_lt, not_lt]

theorem not_le_toInt {a b : Int64} : ¬ a ≤ b ↔ b.toInt < a.toInt := by
  rw [Int64.le_iff_toInt_le, not_le]

theorem toNat_pos {a : UInt32} : 0 < a.toNat ↔ a ≠ 0 := by
  rw [Nat.pos_iff_ne_zero, ne_eq, ne_eq, ← UInt32.toNat_inj, UInt32.toNat_zero]

theorem one_le_iff {a : UInt32} : 1 ≤ a ↔ a ≠ 0 := by
  rw [← toNat_pos, UInt32.le_iff_toNat_le, UInt32.toNat_one, Nat.succ_le_iff]

theorem toNat_min (a b : UInt32) : (min a b).toNat = min a.toNat b.toNat := by
  rw [show min a b = if a ≤ b then a else b from rfl]
  simp only [UInt32.le_iff_toNat_le]
  split <;> omega

theorem toNat_sub_min (a b : UInt32) :
    (a - min a b).toNat = a.toNat - b.toNat ∧ (b - min a b).toNat = b.toNat - a.toNat := by
  have h := toNat_min a b
  constructor
  · rw [UInt32.toNat_sub_of_le _ _ (by rw [UInt32.le_iff_toNat_le]; omega)]
    omega
  · rw [UInt32.toNat_sub_of_le _ _ (by rw [UInt32.le_iff_toNat_le]; omega)]
    omega

theorem toNat_ofNat32 {n : Nat} (h : n < 2 ^ 32) : (UInt32.ofNat n).toNat = n :=
  UInt32.toNat_ofNat_of_lt' h

theorem toUInt32_ne_neg_one {i : UInt32} (h : i.toNat < 2 ^ 31) : i.toInt32 ≠ -1 := by
  intro e
  have : i = (-1 : Int32).toUInt32 := by rw [← e]; rfl
  rw [this] at h
  exact absurd h (by decide)

end Checked
