import LimitOrderBook.Latency

set_option autoImplicit false

namespace LimitOrderBook

namespace LatencyRecorder

variable (r s t : LatencyRecorder)

theorem toNat_smaller (a b : UInt64) : (if b < a then b else a).toNat = a.toNat ⊓ b.toNat := by
  simp only [UInt64.lt_iff_toNat_lt, min_def]
  split <;> split <;> omega

theorem toNat_larger (a b : UInt64) : (if a < b then b else a).toNat = a.toNat ⊔ b.toNat := by
  simp only [UInt64.lt_iff_toNat_lt, max_def]
  split <;> split <;> omega

@[simp] theorem merge_counts (b : Nat) (hb : b < kLatencyBuckets) :
    (r.merge s).counts[b] = r.counts[b] + s.counts[b] := by simp [merge]

@[simp] theorem merge_count : (r.merge s).count = r.count + s.count := rfl

@[simp] theorem merge_min : (r.merge s).min.toNat = r.min.toNat ⊓ s.min.toNat :=
  toNat_smaller _ _

@[simp] theorem merge_max : (r.merge s).max.toNat = r.max.toNat ⊔ s.max.toNat :=
  toNat_larger _ _

@[simp] theorem new_counts (b : Nat) (hb : b < kLatencyBuckets) :
    ({} : LatencyRecorder).counts[b] = 0 := by simp

theorem eq_of_numbers {r s : LatencyRecorder}
    (hcounts : ∀ (b : Nat) (hb : b < kLatencyBuckets), r.counts[b] = s.counts[b])
    (hcount : r.count = s.count) (hmin : r.min.toNat = s.min.toNat)
    (hmax : r.max.toNat = s.max.toNat) : r = s :=
  LatencyRecorder.ext (Vector.ext hcounts) hcount (UInt64.toNat_inj.mp hmin)
    (UInt64.toNat_inj.mp hmax)

theorem merge_comm : r.merge s = s.merge r :=
  eq_of_numbers (fun b hb => by simp [UInt64.add_comm]) (UInt64.add_comm _ _)
    (by simp [inf_comm]) (by simp [sup_comm])

theorem merge_assoc : (r.merge s).merge t = r.merge (s.merge t) :=
  eq_of_numbers (fun b hb => by simp [UInt64.add_assoc]) (UInt64.add_assoc _ _ _)
    (by simp [inf_assoc]) (by simp [sup_assoc])

theorem merge_new : r.merge {} = r := by
  have hmin := r.min.toNat_lt
  refine eq_of_numbers (fun b hb => by simp) (by simp) ?_ (by simp)
  rw [merge_min]
  exact Nat.min_eq_left (Nat.le_of_lt_succ hmin)

instance : Add LatencyRecorder := ⟨merge⟩

instance : Zero LatencyRecorder := ⟨{}⟩

instance : AddCommMonoid LatencyRecorder where
  add_assoc := merge_assoc
  zero_add r := (merge_comm {} r).trans r.merge_new
  add_zero := merge_new
  add_comm := merge_comm
  nsmul := nsmulRec

def single (ticks : UInt64) : LatencyRecorder := record {} ticks

theorem single_min (ticks : UInt64) : (single ticks).min = ticks := by
  have hlt := ticks.toNat_lt
  apply UInt64.toNat_inj.mp
  rw [single, record, toNat_smaller]
  exact Nat.min_eq_right (Nat.le_of_lt_succ hlt)

theorem single_max (ticks : UInt64) : (single ticks).max = ticks := by
  apply UInt64.toNat_inj.mp
  rw [single, record, toNat_larger]
  exact Nat.max_eq_right (Nat.zero_le _)

theorem record_counts (ticks : UInt64) (b : Nat) (hb : b < kLatencyBuckets) :
    (r.record ticks).counts[b] = r.counts[b] + if bitWidth ticks.toNat = b then 1 else 0 := by
  have hset : (r.record ticks).counts[b] =
      if bitWidth ticks.toNat = b then r.counts[bucketOf ticks] + 1 else r.counts[b] :=
    Vector.getElem_set (bucketOf ticks).isLt hb
  rw [hset]
  split
  · rename_i h
    subst h
    rfl
  · rw [UInt64.add_zero]

theorem record_eq_add (ticks : UInt64) : r.record ticks = r + single ticks := by
  refine eq_of_numbers (fun b hb => ?_) rfl ?_ ?_
  · refine Eq.trans (record_counts r ticks b hb) (Eq.trans ?_ (merge_counts r _ b hb).symm)
    rw [single, record_counts, new_counts, UInt64.zero_add]
  · refine Eq.trans (toNat_smaller _ _) ((merge_min r (single ticks)).trans ?_).symm
    rw [single_min]
  · refine Eq.trans (toNat_larger _ _) ((merge_max r (single ticks)).trans ?_).symm
    rw [single_max]

def ofValues (values : Multiset UInt64) : LatencyRecorder := (values.map single).sum

@[simp] theorem ofValues_zero : ofValues 0 = {} := rfl

theorem ofValues_add (v w : Multiset UInt64) :
    ofValues (v + w) = (ofValues v).merge (ofValues w) := by
  rw [ofValues, Multiset.map_add, Multiset.sum_add]
  rfl

theorem ofValues_cons (ticks : UInt64) (v : Multiset UInt64) :
    ofValues (ticks ::ₘ v) = (ofValues v).record ticks := by
  rw [record_eq_add, ofValues, Multiset.map_cons, Multiset.sum_cons, add_comm]
  rfl

theorem foldl_record (ticks : List UInt64) : ticks.foldl record {} = ofValues ticks := by
  induction ticks using List.reverseRecOn with
  | nil => rfl
  | append_singleton ticks t ih =>
    rw [List.foldl_concat, ih, ← ofValues_cons, ← Multiset.coe_add, add_comm,
      Multiset.coe_singleton, Multiset.singleton_add]

/-- How a recorder came about: fresh, by recording, by a reset, or by merging in another
one with a history of its own. -/
inductive History where
  | new
  | record (h : History) (ticks : UInt64)
  | reset (h : History)
  | merge (h other : History)

def History.run : History → LatencyRecorder
  | .new => {}
  | .record h ticks => h.run.record ticks
  | .reset h => h.run.reset
  | .merge h other => h.run.merge other.run

def History.values : History → Multiset UInt64
  | .new => 0
  | .record h ticks => ticks ::ₘ h.values
  | .reset _ => 0
  | .merge h other => h.values + other.values

theorem History.run_eq (h : History) : h.run = ofValues h.values := by
  induction h with
  | new => rfl
  | record h ticks ih => rw [run, values, ofValues_cons, ih]
  | reset h ih => rfl
  | merge h other ih₁ ih₂ => rw [run, values, ofValues_add, ih₁, ih₂]

end LatencyRecorder

open LatencyRecorder

/-- However values are spread over recorders, merged and reset, the result is the one
recorder that saw all of them, in any order; an empty recorder changes nothing. -/
theorem merge_loses_nothing :
    (∀ (h : History) (ticks : List UInt64), h.values = ticks →
      h.run = ticks.foldl record {}) ∧
    (∀ h h' : History, h.values = h'.values → h.run = h'.run ∧
      (∀ num den, h.run.percentileTicks num den = h'.run.percentileTicks num den) ∧
      h.run.summary = h'.run.summary) ∧
    ∀ r : LatencyRecorder, r.merge {} = r ∧ merge {} r = r := by
  have hsame : ∀ h h' : History, h.values = h'.values → h.run = h'.run := by
    intro h h' e
    rw [h.run_eq, h'.run_eq, e]
  refine ⟨fun h ticks e => ?_, fun h h' e => ?_, fun r => ⟨r.merge_new, ?_⟩⟩
  · rw [h.run_eq, foldl_record, e]
  · rw [hsame h h' e]
    exact ⟨rfl, fun _ _ => rfl, rfl⟩
  · rw [merge_comm, merge_new]

/-- A value recorded before a reset is gone, one merged in afterwards counts. -/
theorem merge_loses_nothing_small :
    let h : History := .merge (.record (.reset (.record .new 5)) 9) (.record (.record .new 700) 7)
    h.run = [7, 9, 700].foldl record {} ∧ h.run.count = 3 ∧ h.run.min = 7 ∧ h.run.max = 700 := by
  intro h
  have hrun : h.run = [7, 9, 700].foldl record {} :=
    merge_loses_nothing.1 _ _ (by decide)
  rw [hrun]
  exact ⟨rfl, rfl, rfl, rfl⟩

end LimitOrderBook
