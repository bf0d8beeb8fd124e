import LimitOrderBook.LatencyMerge
import LimitOrderBook.Lib.OrderStatistic

set_option autoImplicit false

namespace LimitOrderBook
open Checked Audited LatencyRecorder

/-! The bounds of a bucket. -/

def lowest (b : Nat) : Nat := if b = 0 then 0 else 2 ^ (b - 1)

def highest (b : Nat) : Nat := 2 ^ b - 1

theorem bitWidth_eq_iff {n b : Nat} : bitWidth n = b ↔ lowest b ≤ n ∧ n ≤ highest b := by
  have hpow := Nat.two_pow_pos b
  unfold lowest highest
  cases b with
  | zero =>
    have h := bitWidth_le_iff (n := n) (k := 0)
    simp only [if_true, pow_zero] at h ⊢
    omega
  | succ b =>
    have h₁ := bitWidth_le_iff (n := n) (k := b)
    have h₂ := bitWidth_le_iff (n := n) (k := b + 1)
    simp only [Nat.add_one_ne_zero, if_false, Nat.add_sub_cancel]
    omega

theorem bitWidth_mono : Monotone bitWidth := by
  intro m n h
  exact bitWidth_le_iff.mpr (lt_of_le_of_lt h (bitWidth_le_iff.mp (le_refl _)))

theorem lowest_le_highest (b : Nat) : lowest b ≤ highest b := by
  unfold lowest highest
  cases b with
  | zero => simp
  | succ b =>
    have hpow := Nat.two_pow_pos b
    simp only [Nat.add_one_ne_zero, if_false, Nat.add_sub_cancel, pow_succ]
    omega

theorem highest_lt_lowest {b c : Nat} (h : b < c) : highest b < lowest c := by
  have hpow := Nat.two_pow_pos b
  have hle : 2 ^ b ≤ 2 ^ (c - 1) := Nat.pow_le_pow_right (by decide) (by omega)
  unfold lowest highest
  rw [if_neg (by omega)]
  omega

theorem highest_lt (b : Fin kLatencyBuckets) : highest b < 2 ^ 64 := by
  have hle : 2 ^ b.val ≤ 2 ^ 64 := Nat.pow_le_pow_right (by decide) (Nat.lt_succ_iff.mp b.isLt)
  have hpow := Nat.two_pow_pos b.val
  unfold highest
  omega

/-! What the recorder shows of the values it has seen. -/

structure Sees (r : LatencyRecorder) (N : Multiset Nat) : Prop where
  counts : ∀ (b : Nat) (hb : b < kLatencyBuckets),
    r.counts[b].toNat = N.countP (fun n => bitWidth n = b)
  count : r.count.toNat = N.card
  min_le : ∀ n ∈ N, r.min.toNat ≤ n
  le_max : ∀ n ∈ N, n ≤ r.max.toNat
  min : r.min.toNat ∈ N ∨ N = 0 ∧ r.min.toNat = 2 ^ 64 - 1
  max : r.max.toNat ∈ N ∨ N = 0 ∧ r.max.toNat = 0

theorem Sees.new : Sees {} 0 :=
  ⟨fun b hb => by rw [new_counts]; rfl, rfl, by simp, by simp, .inr ⟨rfl, rfl⟩, .inr ⟨rfl, rfl⟩⟩

theorem Sees.record {r : LatencyRecorder} {N : Multiset Nat} (h : Sees r N) (ticks : UInt64)
    (hcard : N.card + 1 < 2 ^ 64) : Sees (r.record ticks) (ticks.toNat ::ₘ N) := by
  have hlt := ticks.toNat_lt
  have hmin : (r.record ticks).min.toNat = r.min.toNat ⊓ ticks.toNat := toNat_smaller _ _
  have hmax : (r.record ticks).max.toNat = r.max.toNat ⊔ ticks.toNat := toNat_larger _ _
  refine ⟨fun b hb => ?_, ?_, fun n hn => ?_, fun n hn => ?_, .inl ?_, .inl ?_⟩
  · have hle := Multiset.countP_le_card (fun n => bitWidth n = b) N
    have hold := h.counts b hb
    rw [record_counts, Multiset.countP_cons, UInt64.toNat_add, hold]
    split
    · exact Nat.mod_eq_of_lt (by simp only [UInt64.toNat_one]; omega)
    · exact Nat.mod_eq_of_lt (by simp only [UInt64.toNat_zero]; omega)
  · have hold := h.count
    rw [LatencyRecorder.record, Multiset.card_cons]
    simp only [UInt64.toNat_add, UInt64.toNat_one, hold]
    exact Nat.mod_eq_of_lt hcard
  · rw [hmin]
    rcases Multiset.mem_cons.mp hn with rfl | hn
    · exact inf_le_right
    · exact le_trans (inf_le_left) (h.min_le n hn)
  · rw [hmax]
    rcases Multiset.mem_cons.mp hn with rfl | hn
    · exact le_sup_right
    · exact le_trans (h.le_max n hn) (le_sup_left)
  · rw [hmin, Multiset.mem_cons]
    rcases h.min with hold | ⟨-, hold⟩
    · rcases Nat.le_total r.min.toNat ticks.toNat with hle | hle
      · exact .inr ((inf_eq_left.mpr hle).symm ▸ hold)
      · exact .inl (inf_eq_right.mpr hle)
    · exact .inl (inf_eq_right.mpr (by omega))
  · rw [hmax, Multiset.mem_cons]
    rcases h.max with hold | ⟨-, hold⟩
    · rcases Nat.le_total r.max.toNat ticks.toNat with hle | hle
      · exact .inl (sup_eq_right.mpr hle)
      · exact .inr ((sup_eq_left.mpr hle).symm ▸ hold)
    · exact .inl (sup_eq_right.mpr (by omega))

theorem ofValues_sees (V : Multiset UInt64) (hcard : V.card < 2 ^ 64) :
    Sees (ofValues V) (V.map UInt64.toNat) := by
  induction V using Multiset.induction with
  | empty => exact Sees.new
  | cons ticks V ih =>
    rw [Multiset.card_cons] at hcard
    rw [ofValues_cons, Multiset.map_cons]
    exact (ih (by omega)).record ticks (by rwa [Multiset.card_map])

namespace Sees

variable {r : LatencyRecorder} {N : Multiset Nat}

theorem min_mem (h : Sees r N) (hN : N ≠ 0) : r.min.toNat ∈ N :=
  h.min.resolve_right fun e => hN e.1

theorem max_mem (h : Sees r N) (hN : N ≠ 0) : r.max.toNat ∈ N :=
  h.max.resolve_right fun e => hN e.1

theorem lt (h : Sees r N) {n : Nat} (hn : n ∈ N) : n < 2 ^ 64 :=
  lt_of_le_of_lt (h.le_max n hn) r.max.toNat_lt

end Sees

/-! Interpolation inside one bucket. -/

/-- The value given to the `k`-th of `c` values of a bucket. -/
def interpolated (b k c : Nat) : Nat := lowest b + (highest b - lowest b) * k / c

theorem interpolated_mono {b c k k' : Nat} (h : k ≤ k') :
    interpolated b k c ≤ interpolated b k' c :=
  Nat.add_le_add_left (Nat.div_le_div_right (Nat.mul_le_mul_left _ h)) _

theorem interpolated_bounds {b k c : Nat} (h : k < c) :
    lowest b ≤ interpolated b k c ∧ interpolated b k c ≤ highest b := by
  have hle := lowest_le_highest b
  have hspan : (highest b - lowest b) * k / c ≤ highest b - lowest b :=
    Nat.div_le_of_le_mul (Nat.mul_comm c _ ▸ Nat.mul_le_mul_left _ h.le)
  refine ⟨Nat.le_add_right _ _, ?_⟩
  calc interpolated b k c ≤ lowest b + (highest b - lowest b) := Nat.add_le_add_left hspan _
    _ = highest b := Nat.add_sub_of_le hle

theorem bucketLo_gives (b : Fin kLatencyBuckets) :
    (bucketLo b).Gives fun v => v.toNat = lowest b := by
  have hb : b.val ≤ 64 := Nat.lt_succ_iff.mp b.isLt
  unfold bucketLo lowest
  split
  · exact Gives.pure rfl
  · have hpow : 2 ^ (b.val - 1) < 2 ^ 64 := Nat.pow_lt_pow_right (by decide) (by omega)
    refine (gives_shl (by omega) ?_).mono fun v hv => ?_
    · rwa [UInt64.toNat_one, Nat.one_mul]
    · rwa [UInt64.toNat_one, Nat.one_mul] at hv

theorem bucketHi_gives (b : Fin kLatencyBuckets) :
    (bucketHi b).Gives fun v => v.toNat = highest b := by
  have hb : b.val ≤ 64 := Nat.lt_succ_iff.mp b.isLt
  have hpos := Nat.two_pow_pos b.val
  unfold bucketHi highest
  split
  · rename_i h
    exact Gives.pure (by rw [h]; rfl)
  · split
    · rename_i h
      exact Gives.pure (by rw [h]; rfl)
    · rename_i h
      have hne : b.val ≠ 64 := h
      have hpow : 2 ^ b.val < 2 ^ 64 := Nat.pow_lt_pow_right (by decide) (by omega)
      refine (gives_shl (by omega) ?_).bind fun top htop => ?_
      · rwa [UInt64.toNat_one, Nat.one_mul]
      · rw [UInt64.toNat_one, Nat.one_mul] at htop
        refine (gives_sub ?_).mono fun v hv => ?_
        · rw [UInt64.toNat_one]
          omega
        · rw [hv, htop, UInt64.toNat_one]

/-- The split product never wraps for fewer than 2^32 values, and is the whole product. -/
theorem interpolate_gives (b : Fin kLatencyBuckets) {k c : UInt64} (hk : k.toNat < c.toNat)
    (hc : c.toNat < 2 ^ 32) :
    (interpolate b k c).Gives fun v => v.toNat = interpolated b k.toNat c.toNat := by
  have hpos : 0 < c.toNat := by omega
  have hle := lowest_le_highest b
  have hhigh := highest_lt b
  have hsplit := div_mul_add_mod_mul_div (highest b - lowest b) k.toNat hpos
  have hbounds := (interpolated_bounds (b := b) hk).2
  have hpart : (highest b - lowest b) / c.toNat * k.toNat ≤
      (highest b - lowest b) * k.toNat / c.toNat := hsplit ▸ Nat.le_add_right _ _
  have hrem : (highest b - lowest b) % c.toNat * k.toNat < 2 ^ 64 := by
    have h₁ := Nat.mod_lt (highest b - lowest b) hpos
    calc _ ≤ c.toNat * c.toNat := Nat.mul_le_mul h₁.le hk.le
      _ < 2 ^ 32 * 2 ^ 32 := Nat.mul_lt_mul'' hc hc
      _ = 2 ^ 64 := by norm_num
  unfold interpolated at hbounds ⊢
  refine (bucketLo_gives b).bind fun lo hlo => (bucketHi_gives b).bind fun hi hhi => ?_
  refine (gives_sub (by rw [hlo, hhi]; exact hle)).bind fun span hspan => ?_
  rw [hlo, hhi] at hspan
  refine (gives_div hpos).bind fun q hq => (gives_mod hpos).bind fun rem hr => ?_
  rw [hspan] at hq hr
  refine (gives_mul (by rw [hq]; omega)).bind fun whole hwhole => ?_
  refine (gives_mul (by rw [hr]; exact hrem)).bind fun scaled hscaled => ?_
  refine (gives_div hpos).bind fun part hpart => ?_
  rw [hq] at hwhole
  rw [hscaled, hr] at hpart
  refine (gives_add (by rw [hlo, hwhole]; omega)).bind fun v hv => ?_
  refine (gives_add (by rw [hv, hlo, hwhole, hpart]; omega)).mono fun w hw => ?_
  rw [hw, hv, hlo, hwhole, hpart]
  omega

/-! The cumulative search. -/

/-- How many values lie in the buckets before `b`. -/
def below (N : Multiset Nat) (b : Nat) : Nat := N.countP (fun n => bitWidth n < b)

theorem below_succ (N : Multiset Nat) (b : Nat) :
    below N (b + 1) = below N b + N.countP (fun n => bitWidth n = b) := by
  induction N using Multiset.induction with
  | empty => rfl
  | cons n N ih =>
    unfold below at ih ⊢
    rw [Multiset.countP_cons, Multiset.countP_cons, Multiset.countP_cons, ih]
    by_cases h₁ : bitWidth n < b
    · simp [h₁, Nat.lt_succ_of_lt h₁, h₁.ne]
      omega
    · by_cases h₂ : bitWidth n = b
      · simp [h₂]
        omega
      · have h₃ : ¬ bitWidth n < b + 1 := by omega
        simp [h₁, h₂, h₃]

theorem below_mono (N : Multiset Nat) {b c : Nat} (h : b ≤ c) : below N b ≤ below N c := by
  induction c, h using Nat.le_induction with
  | base => exact le_refl _
  | succ c _ ih =>
    rw [below_succ]
    omega

theorem Sees.below_all {r : LatencyRecorder} {N : Multiset Nat} (h : Sees r N) :
    below N kLatencyBuckets = N.card :=
  Multiset.countP_eq_card.mpr fun _ hn => Nat.lt_succ_of_le (bitWidth_le_iff.mpr (h.lt hn))

theorem findBucket_gives {r : LatencyRecorder} {N : Multiset Nat} (h : Sees r N)
    (hcard : N.card < 2 ^ 32) {rank : UInt64} (hrank : rank.toNat ≤ N.card) (n : Nat) :
    ∀ (b : Nat) (hb : b + n = kLatencyBuckets) (cum : UInt64), cum.toNat = below N b →
      cum.toNat < rank.toNat →
      (findBucket r.counts rank n b hb cum).Gives fun found =>
        ∃ (c : Fin kLatencyBuckets) (before : UInt64), found = some (c, before) ∧
          before.toNat = below N c ∧ below N c < rank.toNat ∧ rank.toNat ≤ below N (c + 1) := by
  induction n with
  | zero =>
    intro b hb cum hcum hlt
    have hall := h.below_all
    rw [Nat.add_zero] at hb
    rw [← hb] at hall
    omega
  | succ n ih =>
    intro b hb cum hcum hlt
    have hcount := h.counts b (by omega)
    have hsum : cum.toNat + r.counts[b].toNat = below N (b + 1) := by
      rw [below_succ, hcum, hcount]
    have hle : below N (b + 1) ≤ N.card := Multiset.countP_le_card _ _
    refine (gives_add (by omega)).bind fun reached hreached => ?_
    rw [hsum] at hreached
    split
    · rename_i hstop
      have hstop := UInt64.le_iff_toNat_le.mp hstop
      exact Gives.pure ⟨_, cum, rfl, hcum, by simp only; omega, by simp only; omega⟩
    · rename_i hgo
      have hgo := Nat.lt_of_not_le fun e => hgo (UInt64.le_iff_toNat_le.mpr e)
      exact ih (b + 1) (by omega) reached hreached hgo

/-! What a percentile returns. -/

structure RankBucket (N : Multiset Nat) (rank b : Nat) : Prop where
  before : below N b < rank
  upTo : rank ≤ below N (b + 1)

/-- The clamped interpolation at a rank of bucket `b`. -/
def estimate (r : LatencyRecorder) (N : Multiset Nat) (rank b : Nat) : Nat :=
  (interpolated b (rank - below N b - 1) (N.countP (fun n => bitWidth n = b)) ⊔ r.min.toNat) ⊓
    r.max.toNat

section Estimate

variable {r : LatencyRecorder} {N : Multiset Nat} {rank rank' b b' : Nat}

theorem clampToObserved_toNat (r : LatencyRecorder) (v : UInt64) :
    (r.clampToObserved v).toNat = (v.toNat ⊔ r.min.toNat) ⊓ r.max.toNat := by
  rw [← toNat_larger, ← toNat_smaller]
  rfl

theorem RankBucket.inRank_lt (h : RankBucket N rank b) :
    rank - below N b - 1 < N.countP (fun n => bitWidth n = b) := by
  have h₁ := h.before
  have h₂ := h.upTo
  rw [below_succ] at h₂
  omega

theorem RankBucket.exists_mem (h : RankBucket N rank b) : ∃ n ∈ N, bitWidth n = b :=
  Multiset.countP_pos.mp (Nat.zero_lt_of_lt h.inRank_lt)

theorem bitWidth_estimate (hr : Sees r N) (h : RankBucket N rank b) :
    bitWidth (estimate r N rank b) = b := by
  obtain ⟨n, hn, hb⟩ := h.exists_mem
  obtain ⟨hlow, hhigh⟩ := bitWidth_eq_iff.mp hb
  obtain ⟨h₁, h₂⟩ := interpolated_bounds (b := b) h.inRank_lt
  have hmin := hr.min_le n hn
  have hmax := hr.le_max n hn
  apply bitWidth_eq_iff.mpr
  constructor
  · exact le_inf (h₁.trans le_sup_left) (hlow.trans hmax)
  · exact inf_le_left.trans (sup_le h₂ (hmin.trans hhigh))

theorem estimate_bounds (hr : Sees r N) (h : RankBucket N rank b) :
    r.min.toNat ≤ estimate r N rank b ∧ estimate r N rank b ≤ r.max.toNat := by
  obtain ⟨n, hn, -⟩ := h.exists_mem
  exact ⟨le_inf le_sup_right ((hr.min_le n hn).trans (hr.le_max n hn)), inf_le_right⟩

theorem RankBucket.le (h : RankBucket N rank b) (h' : RankBucket N rank' b') (hle : rank ≤ rank') :
    b ≤ b' := by
  by_contra hlt
  have hmono := below_mono N (b := b' + 1) (c := b) (by omega)
  have h₁ := h.before
  have h₂ := h'.upTo
  omega

theorem estimate_mono (hr : Sees r N) (h : RankBucket N rank b) (h' : RankBucket N rank' b')
    (hle : rank ≤ rank') : estimate r N rank b ≤ estimate r N rank' b' := by
  rcases (h.le h' hle).lt_or_eq with hlt | rfl
  · have h₁ := (bitWidth_eq_iff.mp (bitWidth_estimate hr h)).2
    have h₂ := (bitWidth_eq_iff.mp (bitWidth_estimate hr h')).1
    exact h₁.trans ((highest_lt_lowest hlt).le.trans h₂)
  · have hk : rank - below N b - 1 ≤ rank' - below N b - 1 := by omega
    exact inf_le_inf_right _ (sup_le_sup_right (interpolated_mono hk) _)

end Estimate

structure Quotient (num den : UInt64) : Prop where
  le : num ≤ den
  pos : 1 ≤ den.toNat
  lt : den.toNat < 2 ^ 31

/-- The rank of the `num/den`-th percentile among `n` values. -/
def rankOf (n : Nat) (num den : UInt64) : Nat := max 1 ((n * num.toNat) ⌈/⌉ den.toNat)

section Rank

variable {r : LatencyRecorder} {N : Multiset Nat} {num den num' den' : UInt64}

theorem ceil_le (h : Quotient num den) (n : Nat) : (n * num.toNat) ⌈/⌉ den.toNat ≤ n := by
  have hle := UInt64.le_iff_toNat_le.mp h.le
  rw [ceilDiv_le_iff_le_smul h.pos, smul_eq_mul, Nat.mul_comm den.toNat]
  exact Nat.mul_le_mul_left n hle

theorem rankOf_le (h : Quotient num den) {n : Nat} (hn : 0 < n) : rankOf n num den ≤ n :=
  max_le hn (ceil_le h n)

theorem rankOf_top (h : Quotient num num) {n : Nat} (hn : 0 < n) : rankOf n num num = n := by
  have hpos : 0 < num.toNat := h.pos
  have hceil : n ≤ (n * num.toNat) ⌈/⌉ num.toNat := by
    have hle : n * num.toNat ≤ num.toNat * ((n * num.toNat) ⌈/⌉ num.toNat) :=
      (ceilDiv_le_iff_le_smul hpos).mp (le_refl _)
    exact Nat.le_of_mul_le_mul_left ((Nat.mul_comm _ _).trans_le hle) hpos
  exact le_antisymm (rankOf_le h hn) (hceil.trans (le_max_right _ _))

theorem rankOf_mono (h : Quotient num den) (h' : Quotient num' den')
    (hle : num.toNat * den'.toNat ≤ num'.toNat * den.toNat) (n : Nat) :
    rankOf n num den ≤ rankOf n num' den' := by
  have hpos : 0 < den'.toNat := h'.pos
  have hceil : n * num'.toNat ≤ den'.toNat * ((n * num'.toNat) ⌈/⌉ den'.toNat) :=
    (ceilDiv_le_iff_le_smul hpos).mp (le_refl _)
  refine max_le_max_left 1 ((ceilDiv_le_iff_le_smul h.pos).mpr ?_)
  refine Nat.le_of_mul_le_mul_left ?_ hpos
  calc den'.toNat * (n * num.toNat) = n * (num.toNat * den'.toNat) := by ring
    _ ≤ n * (num'.toNat * den.toNat) := Nat.mul_le_mul_left n hle
    _ = den.toNat * (n * num'.toNat) := by ring
    _ ≤ den.toNat * (den'.toNat * ((n * num'.toNat) ⌈/⌉ den'.toNat)) := Nat.mul_le_mul_left _ hceil
    _ = den'.toNat * (den.toNat • ((n * num'.toNat) ⌈/⌉ den'.toNat)) := by
      rw [smul_eq_mul]
      ring

theorem ceilRank_gives (hr : Sees r N) (hcard : N.card < 2 ^ 32) (h : Quotient num den) :
    (r.ceilRank num den).Gives fun rank => rank.toNat = rankOf N.card num den := by
  have hle := UInt64.le_iff_toNat_le.mp h.le
  have hpos := h.pos
  have hlt := h.lt
  have hprod : N.card * num.toNat ≤ 2 ^ 32 * 2 ^ 31 := Nat.mul_le_mul hcard.le (by omega)
  refine (gives_mul (by rw [hr.count]; omega)).bind fun product hproduct => ?_
  rw [hr.count] at hproduct
  refine (gives_add (by omega)).bind fun sum hsum => ?_
  refine (gives_sub (by rw [UInt64.toNat_one]; omega)).bind fun sum' hsum' => ?_
  refine (gives_div hpos).bind fun rank hrank => Gives.pure ?_
  rw [hsum', hsum, hproduct, UInt64.toNat_one, ← Nat.ceilDiv_eq_add_pred_div] at hrank
  unfold rankOf
  rw [← hrank]
  split
  · rename_i hz
    rw [hz]
    rfl
  · rename_i hz
    have hne : rank.toNat ≠ 0 := fun e => hz (UInt64.toNat_inj.mp e)
    omega

end Rank

/-- The `rank`-th smallest value. -/
def orderStatistic (N : Multiset Nat) (rank : Nat) : Option Nat := (N.sort (· ≤ ·))[rank - 1]?

/-- Both 0, or both in `[2^(b-1), 2^b - 1]` for one `b`. -/
def SameBucket (m n : Nat) : Prop :=
  m = 0 ∧ n = 0 ∨ ∃ b, 1 ≤ b ∧ (2 ^ (b - 1) ≤ m ∧ m ≤ 2 ^ b - 1) ∧ 2 ^ (b - 1) ≤ n ∧ n ≤ 2 ^ b - 1

theorem sameBucket_of_bitWidth {m n : Nat} (h : bitWidth m = bitWidth n) : SameBucket m n := by
  obtain ⟨hm₁, hm₂⟩ := bitWidth_eq_iff.mp (rfl : bitWidth m = bitWidth m)
  obtain ⟨hn₁, hn₂⟩ := bitWidth_eq_iff.mp h.symm
  unfold lowest highest at *
  by_cases hz : bitWidth m = 0
  · simp only [hz, pow_zero] at hm₂ hn₂
    exact .inl ⟨by omega, by omega⟩
  · rw [if_neg hz] at hm₁ hn₁
    exact .inr ⟨bitWidth m, by omega, ⟨hm₁, hm₂⟩, hn₁, hn₂⟩

section Percentile

variable {r : LatencyRecorder} {N : Multiset Nat} {num den num' den' : UInt64} {rank : Nat}

theorem RankBucket.statistic (hrank : 1 ≤ rank) (hle : rank ≤ N.card) {b : Nat}
    (h : RankBucket N rank b) : ∃ n, orderStatistic N rank = some n ∧ bitWidth n = b := by
  have hlt : rank - 1 < (N.sort (· ≤ ·)).length := by
    rw [Multiset.length_sort]
    omega
  have hcount : ∀ (p : Nat → Prop) [DecidablePred p],
      (N.sort (· ≤ ·)).countP (fun n => p n) = N.countP p := by
    intro p _
    rw [← Multiset.coe_countP, Multiset.sort_eq]
  refine ⟨(N.sort (· ≤ ·))[rank - 1], List.getElem?_eq_getElem hlt, ?_⟩
  have hbefore := h.before
  have hupTo := h.upTo
  apply (OrderStatistic.rank_iff bitWidth_mono (N.pairwise_sort _) hlt b).mp
  constructor
  · rw [hcount fun n => bitWidth n < b]
    exact Nat.le_sub_one_of_lt hbefore
  · rw [hcount fun n => bitWidth n ≤ b]
    simp only [below, Nat.lt_succ_iff] at hupTo
    omega

theorem rankBucket_max (hr : Sees r N) (hN : N ≠ 0) :
    RankBucket N N.card (bitWidth r.max.toNat) where
  before := by
    have hle := Multiset.countP_le_card (fun n => bitWidth n < bitWidth r.max.toNat) N
    refine lt_of_le_of_ne hle fun e => ?_
    exact absurd (Multiset.countP_eq_card.mp e _ (hr.max_mem hN)) (lt_irrefl _)
  upTo := by
    refine (Multiset.countP_eq_card.mpr fun n hn => ?_).ge
    exact Nat.lt_succ_of_le (bitWidth_mono (hr.le_max n hn))

/-- One percentile of a recorder that has seen `N`: no operation wraps, the search stops,
and the result belongs to the bucket of the rank. -/
theorem percentileTicks_gives (hr : Sees r N) (hN : N ≠ 0) (hcard : N.card < 2 ^ 32)
    (h : Quotient num den) :
    ∃ p, r.percentileTicks num den = .ok p ∧ p.Gives fun v =>
      if num = den then v = r.max
      else ∃ b, RankBucket N (rankOf N.card num den) b ∧
        v.toNat = estimate r N (rankOf N.card num den) b := by
  have hpos : 0 < N.card := Multiset.card_pos.mpr hN
  have hden : 0 < den := UInt64.lt_iff_toNat_lt.mpr h.pos
  have hcount : r.count ≠ 0 := ne_zero (by rw [hr.count]; exact hpos)
  refine ⟨_, by rw [percentileTicks, assert_pos ⟨hden, h.le⟩]; rfl, ?_⟩
  rw [if_neg hcount]
  by_cases htop : num = den
  · rw [if_pos htop]
    exact Gives.pure ((if_pos htop).mpr rfl)
  · rw [if_neg htop]
    simp only [if_neg htop]
    refine (ceilRank_gives hr hcard h).bind fun rank hrank => ?_
    have hle := rankOf_le h hpos
    have hone : 1 ≤ rankOf N.card num den := le_max_left _ _
    rw [← hrank] at hle hone ⊢
    refine (findBucket_gives hr hcard hle _ 0 rfl 0 ?_ ?_).bind fun found hfound => ?_
    · exact (Multiset.countP_eq_zero.mpr fun n _ => Nat.not_lt_zero _).symm
    · exact hone
    · obtain ⟨b, before, rfl, hbefore, h₁, h₂⟩ := hfound
      have hbucket : RankBucket N rank.toNat b := ⟨h₁, h₂⟩
      have hin := hbucket.inRank_lt
      have hcounts := hr.counts b b.isLt
      have hall := Multiset.countP_le_card (fun n => bitWidth n = b) N
      refine (gives_sub (by omega)).bind fun k hk => ?_
      refine (gives_sub (by rw [UInt64.toNat_one]; omega)).bind fun k' hk' => ?_
      rw [hk, hbefore, UInt64.toNat_one] at hk'
      have hk'' : k'.toNat < r.counts[b].toNat := by
        rw [hk']
        exact lt_of_lt_of_eq hin hcounts.symm
      have hfew : r.counts[b].toNat < 2 ^ 32 :=
        lt_of_eq_of_lt hcounts (lt_of_le_of_lt hall hcard)
      refine (interpolate_gives b hk'' hfew).bind fun v hv => Gives.pure ⟨b, hbucket, ?_⟩
      rw [clampToObserved_toNat, hv, hk', estimate]
      rw [show r.counts[b].toNat = _ from hcounts]

structure PercentileOf (N : Multiset Nat) (num den : UInt64) (p : Nat) : Prop where
  bucket : ∃ n, orderStatistic N (rankOf N.card num den) = some n ∧ SameBucket p n
  least : ∃ n ∈ N, n ≤ p
  greatest : ∃ n ∈ N, p ≤ n
  top : num = den → p ∈ N ∧ ∀ n ∈ N, n ≤ p

theorem percentileTicks_spec (hr : Sees r N) (hN : N ≠ 0) (hcard : N.card < 2 ^ 32)
    (h : Quotient num den) :
    ∃ p, r.percentileTicks num den = .ok p ∧ p.Gives fun v =>
      PercentileOf N num den v.toNat ∧ r.min.toNat ≤ v.toNat ∧ v.toNat ≤ r.max.toNat := by
  have hpos : 0 < N.card := Multiset.card_pos.mpr hN
  have hmin := hr.min_mem hN
  have hmax := hr.max_mem hN
  have hone : 1 ≤ rankOf N.card num den := le_max_left _ _
  obtain ⟨p, hrun, hp⟩ := percentileTicks_gives hr hN hcard h
  refine ⟨p, hrun, hp.mono fun v hv => ?_⟩
  by_cases htop : num = den
  · rw [if_pos htop] at hv
    subst hv htop
    have hrank := rankOf_top h hpos
    have hbucket := rankBucket_max hr hN
    rw [← hrank] at hbucket
    obtain ⟨n, hn, hwidth⟩ := hbucket.statistic hone (rankOf_le h hpos)
    exact ⟨⟨⟨n, hn, sameBucket_of_bitWidth hwidth.symm⟩, ⟨_, hmax, le_refl _⟩,
      ⟨_, hmax, le_refl _⟩, fun _ => ⟨hmax, hr.le_max⟩⟩, hr.min_le _ hmax, le_refl _⟩
  · rw [if_neg htop] at hv
    obtain ⟨b, hbucket, hv⟩ := hv
    obtain ⟨n, hn, hwidth⟩ := hbucket.statistic hone (rankOf_le h hpos)
    have hbits := bitWidth_estimate hr hbucket
    obtain ⟨h₁, h₂⟩ := estimate_bounds hr hbucket
    rw [← hv] at hbits h₁ h₂
    exact ⟨⟨⟨n, hn, sameBucket_of_bitWidth (hbits.trans hwidth.symm)⟩, ⟨_, hmin, h₁⟩,
      ⟨_, hmax, h₂⟩, fun e => absurd e htop⟩, h₁, h₂⟩

theorem percentileTicks_mono (hr : Sees r N) (hN : N ≠ 0) (hcard : N.card < 2 ^ 32)
    (h : Quotient num den) (h' : Quotient num' den')
    (hle : num.toNat * den'.toNat ≤ num'.toNat * den.toNat) {p p' : Audited UInt64}
    (hp : r.percentileTicks num den = .ok p) (hp' : r.percentileTicks num' den' = .ok p') :
    p.value.toNat ≤ p'.value.toNat := by
  obtain ⟨q, hq, -, -, -, hqmax⟩ := percentileTicks_spec hr hN hcard h
  obtain ⟨p₁, hp₁, -, hv⟩ := percentileTicks_gives hr hN hcard h
  obtain ⟨p₁', hp₁', -, hv'⟩ := percentileTicks_gives hr hN hcard h'
  cases hp.symm.trans hq
  cases hp.symm.trans hp₁
  cases hp'.symm.trans hp₁'
  by_cases htop' : num' = den'
  · rw [if_pos htop'] at hv'
    rwa [hv']
  · rw [if_neg htop'] at hv'
    have hlt' : num'.toNat < den'.toNat := lt_of_le_of_ne (UInt64.le_iff_toNat_le.mp h'.le)
      fun e => htop' (UInt64.toNat_inj.mp e)
    have htop : num ≠ den := by
      rintro rfl
      have hpos : 0 < num.toNat := h.pos
      rw [Nat.mul_comm] at hle
      exact absurd (Nat.le_of_mul_le_mul_right hle hpos) (by omega)
    rw [if_neg htop] at hv
    obtain ⟨b, hbucket, hv⟩ := hv
    obtain ⟨b', hbucket', hv'⟩ := hv'
    rw [hv, hv']
    exact estimate_mono hr hbucket hbucket' (rankOf_mono h h' hle _)

theorem percentileTicks_new (h : Quotient num den) :
    percentileTicks {} num den = .ok (pure 0) := by
  have hden : 0 < den := UInt64.lt_iff_toNat_lt.mpr h.pos
  rw [percentileTicks, assert_pos ⟨hden, h.le⟩]
  rfl

theorem summary_ordered (hr : Sees r N) (hcard : N.card < 2 ^ 32) (hnew : N = 0 → r = {}) :
    ∃ s, r.summary = .ok s ∧ s.Gives LatencySummary.Ordered := by
  have q₁ : Quotient 50 100 := ⟨by decide, by decide, by decide⟩
  have q₂ : Quotient 90 100 := ⟨by decide, by decide, by decide⟩
  have q₃ : Quotient 99 100 := ⟨by decide, by decide, by decide⟩
  have q₄ : Quotient 999 1000 := ⟨by decide, by decide, by decide⟩
  by_cases hN : N = 0
  · rw [hnew hN]
    refine ⟨_, by simp only [summary, percentileTicks_new, q₁, q₂, q₃, q₄, ok_bind]; rfl, ?_⟩
    exact ⟨rfl, ⟨by decide, by decide, by decide, by decide, by decide⟩⟩
  · have hcount : r.count ≠ 0 := ne_zero (by rw [hr.count]; exact Multiset.card_pos.mpr hN)
    obtain ⟨p₁, hp₁, he₁, -, hmin, -⟩ := percentileTicks_spec hr hN hcard q₁
    obtain ⟨p₂, hp₂, he₂, -⟩ := percentileTicks_spec hr hN hcard q₂
    obtain ⟨p₃, hp₃, he₃, -⟩ := percentileTicks_spec hr hN hcard q₃
    obtain ⟨p₄, hp₄, he₄, -, -, hmax⟩ := percentileTicks_spec hr hN hcard q₄
    refine ⟨_, by simp only [summary, hp₁, hp₂, hp₃, hp₄, ok_bind]; rfl, ?_⟩
    have h₁₂ := percentileTicks_mono hr hN hcard q₁ q₂ (by decide) hp₁ hp₂
    have h₂₃ := percentileTicks_mono hr hN hcard q₂ q₃ (by decide) hp₂ hp₃
    have h₃₄ := percentileTicks_mono hr hN hcard q₃ q₄ (by decide) hp₃ hp₄
    have g₁ : p₁.Gives (· = p₁.value) := ⟨he₁, rfl⟩
    have g₂ : p₂.Gives (· = p₂.value) := ⟨he₂, rfl⟩
    have g₃ : p₃.Gives (· = p₃.value) := ⟨he₃, rfl⟩
    have g₄ : p₄.Gives (· = p₄.value) := ⟨he₄, rfl⟩
    have hminTicks : r.minTicks = r.min := if_neg hcount
    refine g₁.bind fun v₁ hv₁ => g₂.bind fun v₂ hv₂ => ?_
    refine g₃.bind fun v₃ hv₃ => g₄.bind fun v₄ hv₄ => Gives.pure ?_
    subst hv₁ hv₂ hv₃ hv₄
    exact ⟨by rw [hminTicks]; exact hmin, h₁₂, h₂₃, h₃₄, hmax⟩

end Percentile

def LatencyRecorder.History.ticks (h : History) : Multiset Nat := h.values.map UInt64.toNat

/-- For fewer than 2^32 values no operation wraps, the loop stops inside itself, and every
percentile shares the bucket of its order statistic, stays in the observed range and
grows with the quotient; so the summary is ordered. -/
theorem percentile_ticks_bounds (h : History) (hcard : h.values.card < 2 ^ 32) :
    (h.values ≠ 0 →
      (∀ num den, Quotient num den → ∃ p, h.run.percentileTicks num den = .ok p ∧
        p.Gives fun v => PercentileOf h.ticks num den v.toNat) ∧
      (∀ num den num' den' p p', Quotient num den → Quotient num' den' →
        num.toNat * den'.toNat ≤ num'.toNat * den.toNat →
        h.run.percentileTicks num den = .ok p → h.run.percentileTicks num' den' = .ok p' →
        p.value ≤ p'.value) ∧
      ∀ num den, Quotient num den → (h.run.ceilRank num den >>= fun rank =>
        findBucket h.run.counts rank kLatencyBuckets 0 rfl 0).Gives fun found => found ≠ none) ∧
    ∃ s, h.run.summary = .ok s ∧ s.Gives LatencySummary.Ordered := by
  have hr : Sees h.run h.ticks := h.run_eq ▸ ofValues_sees h.values (lt_trans hcard (by decide))
  have hcard' : h.ticks.card < 2 ^ 32 := by rwa [History.ticks, Multiset.card_map]
  refine ⟨fun hne => ?_, summary_ordered hr hcard' fun hz => ?_⟩
  · have hN : h.ticks ≠ 0 := fun e => hne (Multiset.map_eq_zero.mp e)
    have hpos : 0 < h.ticks.card := Multiset.card_pos.mpr hN
    refine ⟨fun num den hq => ?_, fun num den num' den' p p' hq hq' hle hp hp' => ?_,
      fun num den hq => ?_⟩
    · obtain ⟨p, hp, hspec⟩ := percentileTicks_spec hr hN hcard' hq
      exact ⟨p, hp, hspec.mono fun v hv => hv.1⟩
    · exact UInt64.le_iff_toNat_le.mpr (percentileTicks_mono hr hN hcard' hq hq' hle hp hp')
    · refine (ceilRank_gives hr hcard' hq).bind fun rank hrank => ?_
      have hone : 1 ≤ rankOf h.ticks.card num den := le_max_left _ _
      rw [← hrank] at hone
      refine (findBucket_gives hr hcard' (hrank ▸ rankOf_le hq hpos) _ 0 rfl 0
        (Multiset.countP_eq_zero.mpr fun n _ => Nat.not_lt_zero _).symm hone).mono ?_
      rintro found ⟨b, before, rfl, -⟩
      simp
  · rw [h.run_eq, Multiset.map_eq_zero.mp hz]
    rfl

/-- The median of 1, 2 and 1000 is in the bucket of 2. -/
theorem percentile_ticks_bounds_small :
    ∃ p, (((({} : LatencyRecorder).record 1).record 1000).record 2).percentileTicks 50 100 = .ok p ∧
      p.Gives fun v => PercentileOf {2, 1000, 1} 50 100 v.toNat :=
  ((percentile_ticks_bounds (.record (.record (.record .new 1) 1000) 2) (by decide)).1
    (by simp [History.values])).1 50 100 ⟨by decide, by decide, by decide⟩

end LimitOrderBook
