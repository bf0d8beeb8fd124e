import LimitOrderBook.Lib.Checked

set_option autoImplicit false

namespace Checked

variable {α β : Type}

/-- The run does not end in this fault. -/
def Avoids (fault : Fault) (x : Exec α) : Prop := x ≠ .error fault

namespace Avoids

variable {fault : Fault}

theorem ok (a : α) : Avoids fault (.ok a) := fun h => by cases h

theorem error {other : Fault} (h : other ≠ fault) : Avoids fault (.error other : Exec α) :=
  fun he => h (Except.error.inj he)

theorem bind {x : Exec α} {f : α → Exec β} (hx : Avoids fault x)
    (hf : ∀ a, x = .ok a → Avoids fault (f a)) : Avoids fault (x >>= f) := by
  cases x with
  | ok a => exact hf a rfl
  | error e => exact fun h => hx (congrArg Except.error (Except.error.inj h))

theorem step {x : Exec α} {f : α → Exec β} (hx : Avoids fault x) (hf : ∀ a, Avoids fault (f a)) :
    Avoids fault (x >>= f) := hx.bind fun a _ => hf a

theorem ite {p : Prop} [Decidable p] {x y : Exec α} (hx : p → Avoids fault x)
    (hy : ¬ p → Avoids fault y) : Avoids fault (if p then x else y) := by
  split
  · exact hx ‹_›
  · exact hy ‹_›

theorem assert {p : Prop} [Decidable p] {text : String} (h : .assertion text ≠ fault) :
    Avoids fault (Checked.assert p text) := ite (fun _ => ok ()) fun _ => error h

theorem guarded {p : Prop} [Decidable p] {text : String} {f : Unit → Exec β}
    (h : .assertion text ≠ fault) (hf : p → Avoids fault (f ())) :
    Avoids fault (Checked.assert p text >>= f) :=
  (assert h).bind fun _ hp => hf (assert_eq_ok.mp hp)

theorem foldlM {f : β → α → Exec β} (xs : List α) (hf : ∀ a ∈ xs, ∀ b, Avoids fault (f b a)) :
    ∀ b, Avoids fault (xs.foldlM f b) := by
  induction xs with
  | nil => exact fun b => ok b
  | cons a xs ih =>
    intro b
    rw [List.foldlM_cons]
    exact (hf a (by simp) b).step fun c => ih (fun x hx => hf x (by simp [hx])) c

theorem int64 {n : Int} (h : .signedOverflow ≠ fault) : Avoids fault (Checked.int64 n) :=
  ite (fun _ => ok _) fun _ => error h

theorem int32 {n : Int} (h : .signedOverflow ≠ fault) : Avoids fault (Checked.int32 n) :=
  ite (fun _ => ok _) fun _ => error h

end Avoids

end Checked
