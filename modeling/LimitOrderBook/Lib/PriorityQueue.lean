import Mathlib

set_option autoImplicit false

namespace PriorityQueue

variable {α κ : Type}

/-- No entry stands behind one with a strictly worse key. -/
def Sorted (lt : κ → κ → Prop) (key : α → κ) (S : List α) : Prop :=
  S.Pairwise (fun a b => ¬ lt (key b) (key a))

/-- Behind every entry that is as good, in front of the first worse one. -/
def enqueue (lt : κ → κ → Prop) [DecidableRel lt] (key : α → κ) (x : α) (S : List α) : List α :=
  S.orderedInsert (fun a b => lt (key a) (key b)) x

section

variable {lt : κ → κ → Prop} {key : α → κ}

theorem sorted_nil : Sorted lt key ([] : List α) := List.Pairwise.nil

theorem Sorted.sublist {S T : List α} (h : Sorted lt key S) (hs : T.Sublist S) :
    Sorted lt key T := List.Pairwise.sublist hs h

theorem Sorted.filter {S : List α} (h : Sorted lt key S) (p : α → Bool) :
    Sorted lt key (S.filter p) := h.sublist List.filter_sublist

theorem Sorted.tail {x : α} {S : List α} (h : Sorted lt key (x :: S)) : Sorted lt key S :=
  List.Pairwise.of_cons h

theorem Sorted.head_best {x : α} {S : List α} (h : Sorted lt key (x :: S)) :
    ∀ y ∈ S, ¬ lt (key y) (key x) := fun _ hy => List.rel_of_pairwise_cons h hy

theorem Sorted.congr {key' : α → κ} {S : List α} (h : Sorted lt key S)
    (hk : ∀ x ∈ S, key' x = key x) : Sorted lt key' S := by
  refine List.Pairwise.imp_of_mem ?_ h
  intro a b ha hb hab
  rwa [hk a ha, hk b hb]

theorem Sorted.all_worse [IsStrictTotalOrder κ lt] {y : α} {S : List α} (h : Sorted lt key (y :: S))
    {k : κ} (hy : lt k (key y)) : ∀ z ∈ S, lt k (key z) := by
  intro z hz
  rcases trichotomous_of lt (key y) (key z) with hlt | heq | hgt
  · exact trans_of lt hy hlt
  · rwa [← heq]
  · exact absurd hgt (h.head_best z hz)

end

variable {lt : κ → κ → Prop} [DecidableRel lt] {key : α → κ}

theorem mem_enqueue {x y : α} {S : List α} : y ∈ enqueue lt key x S ↔ y = x ∨ y ∈ S :=
  List.mem_orderedInsert _

theorem enqueue_perm (x : α) (S : List α) : (enqueue lt key x S).Perm (x :: S) :=
  List.perm_orderedInsert _ x S

theorem enqueue_split (x : α) (S : List α) :
    ∃ A B, S = A ++ B ∧ enqueue lt key x S = A ++ x :: B :=
  ⟨_, _, (List.takeWhile_append_dropWhile).symm, List.orderedInsert_eq_take_drop _ x S⟩

theorem enqueue_map_of {β : Type} {lt' : κ → κ → Prop} [DecidableRel lt'] {key' : β → κ}
    (f : α → β) {x : α} {S : List α}
    (h : ∀ y ∈ S, (lt' (key' (f x)) (key' (f y)) ↔ lt (key x) (key y))) :
    (enqueue lt key x S).map f = enqueue lt' key' (f x) (S.map f) := by
  induction S with
  | nil => rfl
  | cons y S ih =>
    have hr := ih (fun z hz => h z (by simp [hz]))
    simp only [enqueue] at hr ⊢
    rw [List.map_cons, List.orderedInsert_cons, List.orderedInsert_cons]
    simp only [h y (by simp)]
    split <;> simp [hr]

theorem enqueue_map {β : Type} {key' : β → κ} (f : α → β) {x : α} {S : List α}
    (hx : key' (f x) = key x) (hS : ∀ y ∈ S, key' (f y) = key y) :
    (enqueue lt key x S).map f = enqueue lt key' (f x) (S.map f) :=
  enqueue_map_of f fun y hy => by rw [hx, hS y hy]

theorem enqueue_head? (x : α) (S : List α) :
    (enqueue lt key x S).head? =
      some (S.head?.elim x fun y => if lt (key x) (key y) then x else y) := by
  cases S with
  | nil => rfl
  | cons y S =>
    rw [enqueue, List.orderedInsert_cons]
    split <;> simp [*]

section StrictOrder

variable [IsStrictTotalOrder κ lt]

theorem Sorted.append_filter {S : List α} (h : Sorted lt key S) (k : κ) :
    S.filter (fun y => ¬ lt k (key y)) ++ S.filter (fun y => lt k (key y)) = S := by
  induction S with
  | nil => rfl
  | cons y S ih =>
    by_cases hy : lt k (key y)
    · have hall := h.all_worse hy
      have h₁ : S.filter (fun z => ¬ lt k (key z)) = [] := by
        simpa using hall
      have h₂ : S.filter (fun z => lt k (key z)) = S := by
        simpa using hall
      rw [List.filter_cons_of_neg (by simp [hy]), List.filter_cons_of_pos (by simp [hy]), h₁, h₂]
      rfl
    · rw [List.filter_cons_of_pos (by simp [hy]), List.filter_cons_of_neg (by simp [hy]),
        List.cons_append, ih h.tail]

/-- In a sorted queue, enqueueing splits it at the first worse entry. -/
theorem Sorted.enqueue_eq {S : List α} (h : Sorted lt key S) (x : α) :
    enqueue lt key x S =
      S.filter (fun y => ¬ lt (key x) (key y)) ++ x :: S.filter (fun y => lt (key x) (key y)) := by
  induction S with
  | nil => rfl
  | cons y S ih =>
    unfold enqueue at ih ⊢
    rw [List.orderedInsert_cons]
    by_cases hy : lt (key x) (key y)
    · have hall := h.all_worse hy
      have h₁ : S.filter (fun z => ¬ lt (key x) (key z)) = [] := by
        simpa using hall
      have h₂ : S.filter (fun z => lt (key x) (key z)) = S := by
        simpa using hall
      rw [if_pos hy, List.filter_cons_of_neg (by simp [hy]), List.filter_cons_of_pos (by simp [hy]),
        h₁, h₂]
      rfl
    · rw [if_neg hy, List.filter_cons_of_pos (by simp [hy]), List.filter_cons_of_neg (by simp [hy]),
        List.cons_append, ih h.tail]

theorem Sorted.enqueue_pairwise {R : α → α → Prop} {S : List α} (h : Sorted lt key S)
    (hR : S.Pairwise R) {x : α} (hfront : ∀ y ∈ S, ¬ lt (key x) (key y) → R y x)
    (hback : ∀ y ∈ S, lt (key x) (key y) → R x y) : (enqueue lt key x S).Pairwise R := by
  rw [h.enqueue_eq x]
  rw [← h.append_filter (key x)] at hR
  obtain ⟨hA, hB, hAB⟩ := List.pairwise_append.mp hR
  refine List.pairwise_append.mpr ⟨hA, List.pairwise_cons.mpr ⟨fun y hy => ?_, hB⟩, ?_⟩
  · obtain ⟨hyS, hlt⟩ := List.mem_filter.mp hy
    exact hback y hyS (of_decide_eq_true hlt)
  · intro a ha y hy
    rcases List.mem_cons.mp hy with rfl | hy
    · obtain ⟨haS, hnot⟩ := List.mem_filter.mp ha
      exact hfront a haS (of_decide_eq_true hnot)
    · exact hAB a ha y hy

theorem Sorted.enqueue {S : List α} (h : Sorted lt key S) (x : α) :
    Sorted lt key (enqueue lt key x S) :=
  h.enqueue_pairwise h (fun _ _ hnot => hnot) (fun _ _ hlt => asymm_of lt hlt)

theorem Sorted.filter_enqueue {S : List α} (h : Sorted lt key S) (x : α) (p : α → Bool) :
    (PriorityQueue.enqueue lt key x S).filter p =
      if p x then PriorityQueue.enqueue lt key x (S.filter p) else S.filter p := by
  have hs := congrArg (List.filter p) (h.append_filter (key x))
  rw [h.enqueue_eq x, (h.filter p).enqueue_eq x]
  simp only [List.filter_append, List.filter_cons, List.filter_filter] at hs ⊢
  by_cases hp : p x
  · simp [hp, Bool.and_comm]
  · simpa only [hp, Bool.false_eq_true, if_false] using hs

theorem enqueue_of_all_eq {S : List α} {x : α} (h : ∀ y ∈ S, key y = key x) :
    PriorityQueue.enqueue lt key x S = S ++ [x] := by
  induction S with
  | nil => rfl
  | cons y S ih =>
    have hy : ¬ lt (key x) (key y) := by
      rw [h y (by simp)]
      exact irrefl_of lt (key x)
    have hr := ih (fun z hz => h z (by simp [hz]))
    simp only [PriorityQueue.enqueue] at hr ⊢
    rw [List.orderedInsert_cons, if_neg hy, hr, List.cons_append]

/-- The entries with one key form a FIFO queue of their own. -/
theorem Sorted.filter_key_enqueue [DecidableEq κ] {S : List α} (h : Sorted lt key S) (x : α)
    (k : κ) :
    (PriorityQueue.enqueue lt key x S).filter (fun y => key y = k) =
      S.filter (fun y => key y = k) ++ if key x = k then [x] else [] := by
  rw [h.filter_enqueue]
  by_cases hk : key x = k
  · rw [if_pos (by simpa using hk), if_pos hk, enqueue_of_all_eq]
    intro y hy
    have := (List.mem_filter.mp hy).2
    rw [hk]
    simpa using this
  · rw [if_neg (by simpa using hk), if_neg hk, List.append_nil]

end StrictOrder

/-! Grouping a list by key. -/

theorem group_perm [DecidableEq κ] (S : List α) (ks : List κ) (hk : ks.Nodup) :
    (ks.flatMap fun k => S.filter fun x => key x = k).Perm
      (S.filter fun x => decide (key x ∈ ks)) := by
  induction ks with
  | nil => simp
  | cons k ks ih =>
    obtain ⟨hnot, hks⟩ := List.nodup_cons.mp hk
    have hparts := List.filter_append_perm (fun x => decide (key x = k))
      (S.filter fun x => decide (key x ∈ k :: ks))
    have hfst : (S.filter fun x => decide (key x ∈ k :: ks)).filter (fun x => decide (key x = k)) =
        S.filter fun x => decide (key x = k) := by
      rw [List.filter_filter]
      exact List.filter_congr fun x _ => by by_cases hx : key x = k <;> simp [hx]
    have hsnd : (S.filter fun x => decide (key x ∈ k :: ks)).filter
        (fun x => !decide (key x = k)) = S.filter fun x => decide (key x ∈ ks) := by
      rw [List.filter_filter]
      refine List.filter_congr fun x _ => ?_
      by_cases hx : key x = k
      · simp [hx, hnot]
      · simp [hx]
    rw [hfst, hsnd] at hparts
    exact ((ih hks).append_left _).trans hparts

end PriorityQueue
