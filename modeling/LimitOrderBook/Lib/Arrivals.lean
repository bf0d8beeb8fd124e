import LimitOrderBook.Lib.PriorityQueue

set_option autoImplicit false

namespace PriorityQueue

variable {α β κ : Type} {lt : κ → κ → Prop} [DecidableRel lt] {key : α → κ} {key' : β → κ}

/-- The queue that arose from one arrival after another. -/
def arrange (lt : κ → κ → Prop) [DecidableRel lt] (key : α → κ) (L : List α) : List α :=
  L.foldl (fun S x => enqueue lt key x S) []

@[simp] theorem arrange_nil : arrange lt key [] = [] := rfl

theorem arrange_snoc (L : List α) (x : α) :
    arrange lt key (L ++ [x]) = enqueue lt key x (arrange lt key L) := by
  simp [arrange]

theorem arrange_perm (L : List α) : (arrange lt key L).Perm L := by
  induction L using List.reverseRecOn with
  | nil => exact .refl []
  | append_singleton L x ih =>
    rw [arrange_snoc]
    exact (enqueue_perm x _).trans ((ih.cons x).trans (List.perm_append_singleton x L).symm)

variable [IsStrictTotalOrder κ lt]

theorem sorted_arrange (L : List α) : Sorted lt key (arrange lt key L) := by
  induction L using List.reverseRecOn with
  | nil => exact sorted_nil
  | append_singleton L x ih =>
    rw [arrange_snoc]
    exact ih.enqueue x

/-- A change of single entries that keeps their keys commutes with an arrival. -/
theorem Sorted.filterMap_enqueue {S : List α} (h : Sorted lt key S) {f : α → Option β}
    (hf : ∀ x y, f x = some y → key' y = key x) (x : α) :
    (PriorityQueue.enqueue lt key x S).filterMap f =
      (f x).elim (S.filterMap f) fun y => PriorityQueue.enqueue lt key' y (S.filterMap f) := by
  induction S with
  | nil => cases hx : f x <;> simp [PriorityQueue.enqueue, hx]
  | cons z S ih =>
    have htail := ih h.tail
    simp only [PriorityQueue.enqueue] at htail ⊢
    rw [List.orderedInsert_cons]
    by_cases hz : lt (key x) (key z)
    · have hall := h.all_worse hz
      rw [if_pos hz]
      cases hx : f x with
      | none => rw [List.filterMap_cons_none hx]; rfl
      | some y =>
        rw [List.filterMap_cons_some hx, Option.elim_some]
        cases hrest : (z :: S).filterMap f with
        | nil => rfl
        | cons w W =>
          -- whatever is left of the queue is behind the new entry
          have hw : w ∈ (z :: S).filterMap f := by simp [hrest]
          obtain ⟨v, hv, hvw⟩ := List.mem_filterMap.mp hw
          have hlt : lt (key x) (key v) := by
            rcases List.mem_cons.mp hv with rfl | hv
            · exact hz
            · exact hall v hv
          rw [List.orderedInsert_cons, if_pos (by rwa [hf x y hx, hf v w hvw])]
    · rw [if_neg hz]
      cases hfz : f z with
      | none =>
        rw [List.filterMap_cons_none hfz, List.filterMap_cons_none hfz]
        exact htail
      | some w =>
        rw [List.filterMap_cons_some hfz, List.filterMap_cons_some hfz, htail]
        cases hx : f x with
        | none => rfl
        | some y =>
          rw [Option.elim_some, Option.elim_some, List.orderedInsert_cons,
            if_neg (by rwa [hf x y hx, hf z w hfz])]

theorem arrange_filterMap {f : α → Option β} (hf : ∀ x y, f x = some y → key' y = key x)
    (L : List α) : (arrange lt key L).filterMap f = arrange lt key' (L.filterMap f) := by
  induction L using List.reverseRecOn with
  | nil => rfl
  | append_singleton L x ih =>
    rw [arrange_snoc, (sorted_arrange L).filterMap_enqueue hf, ih, List.filterMap_append]
    cases hx : f x with
    | none => simp [hx]
    | some y => simp [hx, arrange_snoc]

theorem arrange_filter (p : α → Bool) (L : List α) :
    (arrange lt key L).filter p = arrange lt key (L.filter p) := by
  simp only [← List.filterMap_eq_filter]
  refine arrange_filterMap (fun x y h => ?_) L
  rw [(Option.guard_eq_some_iff.mp h).1]

theorem arrange_filter_key [DecidableEq κ] (L : List α) (k : κ) :
    (arrange lt key L).filter (fun x => key x = k) = L.filter fun x => key x = k := by
  induction L using List.reverseRecOn with
  | nil => rfl
  | append_singleton L x ih =>
    rw [arrange_snoc, (sorted_arrange L).filter_key_enqueue, ih, List.filter_append]
    by_cases hk : key x = k <;> simp [hk]

end PriorityQueue
