import LimitOrderBook.Lib.PriorityQueue

set_option autoImplicit false

open PriorityQueue

structure QueueMap (κ α : Type) [Ord κ] [Std.TransOrd κ] where
  entries : Std.ExtTreeMap κ (List α)
  nonempty : ∀ k ∈ entries, entries.getD k [] ≠ []

namespace QueueMap

variable {κ α : Type} [Ord κ] [Std.TransOrd κ]

def empty : QueueMap κ α where
  entries := ∅
  nonempty k hk := by simp at hk

def queue (m : QueueMap κ α) (k : κ) : List α := m.entries.getD k []

/-- `x` goes behind everything else stored under `k`. -/
def push (m : QueueMap κ α) (k : κ) (x : α) : QueueMap κ α where
  entries := m.entries.insert k (m.queue k ++ [x])
  nonempty j hj := by
    rw [Std.ExtTreeMap.getD_insert]
    split
    · simp
    · rename_i hne
      exact m.nonempty j ((Std.ExtTreeMap.mem_insert.mp hj).resolve_left hne)

def remove [DecidableEq α] (m : QueueMap κ α) (k : κ) (x : α) : QueueMap κ α :=
  if h : (m.queue k).erase x = [] then
    { entries := m.entries.erase k
      nonempty := fun j hj => by
        obtain ⟨hne, hj⟩ := Std.ExtTreeMap.mem_erase.mp hj
        rw [Std.ExtTreeMap.getD_erase, if_neg hne]
        exact m.nonempty j hj }
  else
    { entries := m.entries.insert k ((m.queue k).erase x)
      nonempty := fun j hj => by
        rw [Std.ExtTreeMap.getD_insert]
        split
        · exact h
        · rename_i hne
          exact m.nonempty j ((Std.ExtTreeMap.mem_insert.mp hj).resolve_left hne) }

theorem mem_entries {m : QueueMap κ α} {k : κ} : k ∈ m.entries ↔ m.queue k ≠ [] := by
  refine ⟨m.nonempty k, fun hne => ?_⟩
  by_contra hk
  exact hne (Std.ExtTreeMap.getD_eq_fallback hk)

@[simp] theorem queue_empty (k : κ) : (empty : QueueMap κ α).queue k = [] :=
  Std.ExtTreeMap.getD_empty

/-! Against a queue in priority order. -/

variable [DecidableEq κ]

/-- Under each key the map stores what the list has there, in the order of the list. -/
def Holds (m : QueueMap κ α) (key : α → κ) (S : List α) : Prop :=
  ∀ k, m.queue k = S.filter fun x => key x = k

variable {m : QueueMap κ α} {key : α → κ} {S : List α}

theorem holds_empty (key : α → κ) : (empty : QueueMap κ α).Holds key [] := queue_empty

theorem Holds.congr {key' : α → κ} (h : m.Holds key S) (hk : ∀ x ∈ S, key' x = key x) :
    m.Holds key' S := fun k => by
  rw [h k]
  exact List.filter_congr fun x hx => by rw [hk x hx]

theorem Holds.mem_queue (h : m.Holds key S) {k : κ} {x : α} :
    x ∈ m.queue k ↔ x ∈ S ∧ key x = k := by
  rw [h k, List.mem_filter, decide_eq_true_eq]

theorem Holds.mem_entries (h : m.Holds key S) {k : κ} :
    k ∈ m.entries ↔ ∃ x ∈ S, key x = k := by
  rw [QueueMap.mem_entries]
  constructor
  · intro hne
    obtain ⟨x, hx⟩ := List.exists_mem_of_ne_nil _ hne
    exact ⟨x, h.mem_queue.mp hx⟩
  · rintro ⟨x, hx⟩
    exact List.ne_nil_of_mem (h.mem_queue.mpr hx)

variable [Std.LawfulEqOrd κ]

theorem queue_push (m : QueueMap κ α) (k : κ) (x : α) (j : κ) :
    (m.push k x).queue j = m.queue j ++ if k = j then [x] else [] := by
  rw [queue, push, Std.ExtTreeMap.getD_insert]
  simp only [Std.compare_eq_iff_eq]
  split
  · rename_i hkj
    rw [hkj]
  · rw [List.append_nil, queue]

theorem queue_remove [DecidableEq α] (m : QueueMap κ α) (k : κ) (x : α) (j : κ) :
    (m.remove k x).queue j = if k = j then (m.queue j).erase x else m.queue j := by
  unfold remove
  split
  · rename_i h
    rw [queue, Std.ExtTreeMap.getD_erase]
    simp only [Std.compare_eq_iff_eq]
    split
    · rename_i hkj
      rw [← hkj, h]
    · rfl
  · rw [queue, Std.ExtTreeMap.getD_insert]
    simp only [Std.compare_eq_iff_eq]
    split
    · rename_i hkj
      rw [← hkj]
    · rfl

theorem Holds.push {lt : κ → κ → Prop} [DecidableRel lt] [IsStrictTotalOrder κ lt]
    (h : m.Holds key S) (hs : Sorted lt key S) (x : α) :
    (m.push (key x) x).Holds key (enqueue lt key x S) := fun k => by
  rw [queue_push, h k, hs.filter_key_enqueue]

theorem Holds.remove [DecidableEq α] {A B : List α} {x : α} (h : m.Holds key (A ++ x :: B))
    (hn : (A ++ x :: B).Nodup) : (m.remove (key x) x).Holds key (A ++ B) := fun k => by
  have hA : x ∉ A := fun hx => (List.nodup_append.mp hn).2.2 x hx x (by simp) rfl
  have hcut : (A ++ x :: B).erase x = A ++ B := by
    rw [List.erase_append_right _ hA, List.erase_cons_head]
  rw [queue_remove, h k]
  split
  · rw [List.Nodup.erase_eq_filter (hn.filter _), List.filter_filter, ← hcut,
      List.Nodup.erase_eq_filter hn, List.filter_filter]
    exact List.filter_congr fun y _ => by rw [Bool.and_comm]
  · rename_i hk
    rw [List.filter_append, List.filter_cons_of_neg (by simpa using hk), ← List.filter_append]

end QueueMap
