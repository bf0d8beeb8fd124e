import Mathlib

set_option autoImplicit false

namespace LastWrite

variable {κ ν α β : Type} [DecidableEq κ] {key : κ} {ps : List (κ × ν)}

def lastValue (key : κ) (ps : List (κ × ν)) : Option ν :=
  ((ps.filter fun p => p.1 = key).getLast?).map Prod.snd

theorem lastValue_concat (ps : List (κ × ν)) (p : κ × ν) :
    lastValue key (ps ++ [p]) = if p.1 = key then some p.2 else lastValue key ps := by
  unfold lastValue
  by_cases h : p.1 = key <;> simp [h]

theorem lastValue_mem {v : ν} (h : lastValue key ps = some v) : (key, v) ∈ ps := by
  obtain ⟨p, hp, rfl⟩ := Option.map_eq_some_iff.mp h
  obtain ⟨hmem, hkey⟩ := List.mem_filter.mp (List.mem_of_getLast? hp)
  rwa [← of_decide_eq_true hkey]

/-- Whatever else the steps write, the field is as the last step with its key left it. -/
theorem foldl_field {step : α → κ × ν → α} {field : α → β} (value : ν → β)
    (h : ∀ a p, field (step a p) = if p.1 = key then value p.2 else field a)
    (ps : List (κ × ν)) (a : α) :
    field (ps.foldl step a) = (lastValue key ps).elim (field a) value := by
  induction ps using List.reverseRecOn with
  | nil => rfl
  | append_singleton ps p ih =>
    rw [List.foldl_append, List.foldl_cons, List.foldl_nil, h, lastValue_concat]
    by_cases hkey : p.1 = key
    · rw [if_pos hkey, if_pos hkey]
      rfl
    · rw [if_neg hkey, if_neg hkey, ih]

end LastWrite
