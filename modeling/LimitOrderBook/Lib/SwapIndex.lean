import Mathlib

set_option autoImplicit false

namespace SwapIndex

variable {K : Type} [Ord K] [Std.TransOrd K]

/-- The positions of the map are exactly those of the array. -/
def Inverse (items : Array K) (pos : Std.ExtTreeMap K Nat) : Prop :=
  ∀ (i : Nat) (k : K), items[i]? = some k ↔ pos[k]? = some i

variable {items : Array K} {pos : Std.ExtTreeMap K Nat} {k last : K} {p : Nat}

theorem inverse_empty : Inverse (#[] : Array K) ∅ := fun i k => by simp

theorem Inverse.mem_iff (h : Inverse items pos) : k ∈ items ↔ k ∈ pos := by
  rw [Array.mem_iff_getElem?, Std.ExtTreeMap.mem_iff_isSome_getElem?, Option.isSome_iff_exists]
  exact exists_congr fun i => h i k

theorem Inverse.nodup (h : Inverse items pos) : items.toList.Nodup := by
  refine List.nodup_iff_getElem?_ne_getElem?.mpr fun i j hij hj he => ?_
  have hget : ∀ n, items.toList[n]? = items[n]? := fun n => Array.getElem?_toList
  obtain ⟨k, hk⟩ : ∃ k, items[j]? = some k := ⟨_, Array.getElem?_eq_getElem (by simpa using hj)⟩
  rw [hget, hget, hk] at he
  have hpos := ((h i k).mp he).symm.trans ((h j k).mp hk)
  have := Option.some.inj hpos
  omega

variable [Std.LawfulEqOrd K]

theorem Inverse.push (h : Inverse items pos) (hk : k ∉ pos) :
    Inverse (items.push k) (pos.insertIfNew k items.size) := by
  intro i x
  have hnew : ∀ j, items[j]? ≠ some k := fun j hj =>
    hk (h.mem_iff.mp (Array.mem_of_getElem? hj))
  simp only [Array.getElem?_push, Std.ExtTreeMap.getElem?_insertIfNew, hk, not_false_eq_true,
    and_true]
  by_cases hx : k = x
  · subst hx
    by_cases hi : i = items.size
    · simp [hi]
    · simpa [hi, Ne.symm hi] using hnew i
  · by_cases hi : i = items.size
    · have hno : pos[x]? ≠ some i := fun hp => by
        have := (h i x).mpr hp
        simp [hi] at this
      simpa [hi, hx] using hi ▸ hno
    · simpa [hi, hx] using h i x

/-- The last key takes the place of the key that leaves. -/
theorem Inverse.swapRemove (h : Inverse items pos) (hp : pos[k]? = some p)
    (hl : items.back? = some last) :
    Inverse (items.setIfInBounds p last).pop ((pos.insert last p).erase k) := by
  have hk : items[p]? = some k := (h p k).mpr hp
  have hlast : items[items.size - 1]? = some last := by rwa [← Array.back?_eq_getElem?]
  have hpos : pos[last]? = some (items.size - 1) := (h _ last).mp hlast
  have hsize : p < items.size := (Array.getElem?_eq_some_iff.mp hk).1
  intro i x
  rw [Array.getElem?_pop, Array.size_setIfInBounds, Array.getElem?_setIfInBounds,
    Std.ExtTreeMap.getElem?_erase, Std.ExtTreeMap.getElem?_insert]
  by_cases hx : k = x
  · -- the removed key: its position held the last key, or is gone
    subst hx
    by_cases hi : i < items.size - 1
    · by_cases hip : p = i
      · have hne : last ≠ k := fun e => by
          rw [e, hp] at hpos
          have := Option.some.inj hpos
          omega
        simp [hi, hip, hne]
      · have hne : items[i]? ≠ some k := fun e => hip (by simpa [hp] using (h i k).mp e)
        simpa [hi, hip] using hne
    · simp [hi]
  · by_cases hxl : last = x
    · subst hxl
      by_cases hi : i < items.size - 1
      · by_cases hip : p = i
        · subst hip
          simp [hi, hsize, hx]
        · have hne : items[i]? ≠ some last := fun e => by
            have hat := (h i last).mp e
            rw [hpos] at hat
            have := Option.some.inj hat
            omega
          simpa [hi, hip, hx] using hne
      · have hip : p ≠ i := fun e => by
          have he : p = items.size - 1 := by omega
          rw [he, hlast] at hk
          exact hx (Option.some.inj hk).symm
        simp [hi, hip, hx]
    · by_cases hi : i < items.size - 1
      · by_cases hip : p = i
        · subst hip
          have hne : pos[x]? ≠ some p := fun e => by
            have hat := (h p x).mpr e
            rw [hk] at hat
            exact hx (Option.some.inj hat)
          simpa [hi, hsize, hx, hxl] using hne
        · simpa [hi, hip, hx, hxl] using h i x
      · have hne : pos[x]? ≠ some i := fun e => by
          have hat := (h i x).mpr e
          have hlt := (Array.getElem?_eq_some_iff.mp hat).1
          have hie : i = items.size - 1 := by omega
          rw [hie, hlast] at hat
          exact hxl (Option.some.inj hat)
        simpa [hi, hx, hxl] using hne

theorem mem_swapRemove (hl : last ∈ pos) (x : K) :
    x ∈ (pos.insert last p).erase k ↔ x ∈ pos ∧ x ≠ k := by
  rw [Std.ExtTreeMap.mem_erase, Std.ExtTreeMap.mem_insert]
  constructor
  · rintro ⟨hne, he | hx⟩
    · exact ⟨Std.LawfulEqOrd.eq_of_compare he ▸ hl, fun e => hne (by simp [e])⟩
    · exact ⟨hx, fun e => hne (by simp [e])⟩
  · rintro ⟨hx, hne⟩
    exact ⟨fun e => hne (Std.LawfulEqOrd.eq_of_compare e).symm, .inr hx⟩

theorem perm_swapRemove {α : Type} {L : List α} {x last : α} {p : Nat} (hx : L[p]? = some x)
    (hl : L.getLast? = some last) : L.Perm (x :: (L.set p last).dropLast) := by
  obtain ⟨hp, rfl⟩ := List.getElem?_eq_some_iff.mp hx
  obtain ⟨A, B, hL, hA⟩ : ∃ A B, L = A ++ L[p] :: B ∧ A.length = p :=
    ⟨L.take p, L.drop (p + 1), by rw [List.getElem_cons_drop, List.take_append_drop],
      List.length_take_of_le hp.le⟩
  generalize L[p] = y at *
  subst hL
  have hset : (A ++ y :: B).set p last = A ++ last :: B := by
    rw [← hA, List.set_append_right _ _ (le_refl _), Nat.sub_self]
    rfl
  rw [hset]
  rcases List.eq_nil_or_concat B with rfl | ⟨B', z, rfl⟩
  · rw [List.dropLast_concat]
    exact List.perm_append_singleton y A
  · rw [List.concat_eq_append, ← List.cons_append, ← List.append_assoc] at hl ⊢
    rw [List.getLast?_concat, Option.some.injEq] at hl
    subst hl
    rw [← List.cons_append, ← List.append_assoc, List.dropLast_concat, List.append_assoc]
    refine List.perm_middle.trans (.cons y ?_)
    exact (List.perm_append_singleton z B').append_left A

end SwapIndex
