import LimitOrderBook.WorkloadGen
import LimitOrderBook.Lib.CumulativeTable

set_option autoImplicit false

namespace LimitOrderBook
open Checked SwapIndex CumulativeTable

structure WorkloadConfig.Asserted (cfg : WorkloadConfig) : Prop where
  engine : cfg.engine.Asserted
  qty : 1 ≤ cfg.minQty.toNat ∧ cfg.minQty.toNat ≤ cfg.maxQty.toNat
  crossOneIn : 0 < cfg.crossOneIn.toNat
  walkOneIn : 0 < cfg.walkOneIn.toNat
  maxWalkStep : 0 < cfg.maxWalkStep.toNat
  weight : 0 < cfg.totalWeight

/-- The band ends at a price, so that the engine can be used as well. -/
structure WorkloadConfig.Accepted (cfg : WorkloadConfig) : Prop extends cfg.Asserted where
  high : cfg.engine.anchorPrice.toInt + cfg.engine.bandRadius.toNat + 1 ≤ 2 ^ 63 - 1

theorem WorkloadConfig.Accepted.valid {cfg : WorkloadConfig} (h : cfg.Accepted) :
    cfg.engine.Valid :=
  ⟨h.engine.anchor, h.engine.radius, h.high, h.engine.capacity⟩

def WorkloadConfig.Fits (cfg : WorkloadConfig) : Prop :=
  cfg.engine.anchorPrice.toInt + cfg.walkRadius.toNat +
    max cfg.maxPriceOffset.toNat cfg.maxWalkStep.toNat ≤ 2 ^ 63 - 1

namespace WorkloadConfig

def zipfWeight (k : Nat) : Nat := kZipfScale / (k + 1) + 1

theorem zipf_loop (n : Nat) :
    ((List.range n).foldl zipfStep (0, #[])).1 = cumulative zipfWeight n ∧
      Table zipfWeight ((List.range n).foldl zipfStep (0, #[])).2 n := by
  induction n with
  | zero => exact ⟨rfl, Table.empty zipfWeight⟩
  | succ n ih =>
    rw [List.range_succ, List.foldl_append]
    generalize (List.range n).foldl zipfStep (0, #[]) = s at ih
    obtain ⟨hsum, htable⟩ := ih
    have hacc : s.1 + (kZipfScale / (n + 1) + 1) = cumulative zipfWeight (n + 1) := by
      rw [hsum, cumulative_succ, zipfWeight]
    simp only [List.foldl_cons, List.foldl_nil, zipfStep, hacc]
    exact ⟨trivial, htable.push⟩

theorem zipf_findIdx {n r : Nat} (hlow : ((List.range (n + 1)).foldl zipfStep (0, #[])).1 ≤ r)
    (hhigh : r < ((List.range (n + 2)).foldl zipfStep (0, #[])).1) :
    ((List.range (n + 2)).foldl zipfStep (0, #[])).2.findIdx (fun acc => decide (r < acc)) =
      n + 1 := by
  rw [(zipf_loop _).1] at hlow hhigh
  exact ((zipf_loop (n + 2)).2.owns_findIdx hhigh).2.unique ⟨hlow, hhigh⟩

theorem zipfCdf_table (cfg : WorkloadConfig) :
    Table zipfWeight cfg.zipfCdf (cfg.maxPriceOffset.toNat + 1) := (zipf_loop _).2

def zipfTotal (cfg : WorkloadConfig) : Nat := cumulative zipfWeight (cfg.maxPriceOffset.toNat + 1)

theorem zipfCdf_back (cfg : WorkloadConfig) : cfg.zipfCdf.back? = some cfg.zipfTotal :=
  cfg.zipfCdf_table.back

theorem zipfTotal_pos (cfg : WorkloadConfig) : 0 < cfg.zipfTotal := by
  rw [zipfTotal, cumulative_succ, zipfWeight]
  exact Nat.succ_pos _

theorem zipfTotal_lt (cfg : WorkloadConfig) : cfg.zipfTotal < 2 ^ 64 := by
  have hweight : ∀ k, zipfWeight k ≤ 2 ^ 20 + 1 := fun k =>
    Nat.add_le_add_right (Nat.div_le_self kZipfScale (k + 1)) 1
  have hsum := cumulative_le hweight (cfg.maxPriceOffset.toNat + 1)
  have hlt := cfg.maxPriceOffset.toNat_lt
  unfold zipfTotal
  omega

end WorkloadConfig

namespace OpenOrders

variable {m : OpenOrders} {b : QueueBook} {id : OrderId}

theorem holds_exists (hw : b.WF) : ∃ m, Holds m b.resting := by
  refine ⟨fun id => (b.find id).map fun r => (r.side, r.remaining), fun r hr => ?_,
    fun id hid => ?_⟩
  · simp only [(QueueBook.find_iff hw).mpr ⟨hr, rfl⟩, Option.map_some]
  · cases hf : b.find id with
    | none => rfl
    | some r =>
      obtain ⟨hr, he⟩ := (QueueBook.find_iff hw).mp hf
      exact absurd he (hid r hr)

theorem Holds.ne_none_iff {R : List Resting} (h : Holds m R) :
    m id ≠ none ↔ ∃ r ∈ R, r.id = id := by
  constructor
  · intro hne
    by_contra hno
    exact hne (h.only id fun r hr he => hno ⟨r, hr, he⟩)
  · rintro ⟨r, hr, rfl⟩
    rw [h.mem r hr]
    exact Option.some_ne_none _

end OpenOrders

def Event.Benign (e : Event) : Prop := e.kind = .kRejected → e.reason = .kPoolExhausted

theorem QueueBook.execute_benign (b : QueueBook) (id : OrderId) (side : Side) (type : OrderType)
    (price : PriceTicks) (qty : Qty) : ∀ e ∈ (b.execute id side type price qty).2, e.Benign := by
  intro e he hk
  have htraded := sweep_traded side (takerLimit side type price) id (b.queue side.opposite) qty e
  unfold execute at he
  simp only at he
  split at he
  · rcases List.mem_append.mp he with he | he
    · rcases List.mem_cons.mp he with rfl | he
      · cases hk
      · cases hk.symm.trans (htraded he)
    · split at he
      · obtain rfl := List.mem_singleton.mp he
        cases hk
      · cases he
  · rcases List.mem_cons.mp he with rfl | he
    · cases hk
    · cases hk.symm.trans (htraded he)

/-- What the generator emits: a new order that no check turns away, or a cancel of one
of the live ids. -/
structure Command.Emitted (live : Array OrderId) (cmd : Command) : Prop where
  declared : cmd.Declared
  admitted : cmd.kind = .kNew → QueueBook.refusal cmd.type cmd.priceTicks cmd.qty = none
  cancels : cmd.kind = .kCancel → cmd.orderId ∈ live

/-- A new order of one type within the configured bounds. -/
structure Command.Adds (cfg : WorkloadConfig) (type : OrderType) (cmd : Command) : Prop where
  kind : cmd.kind = .kNew
  side : cmd.side.Declared
  type : cmd.type = type
  pad0 : cmd.pad0 = 0
  orderId : cmd.orderId = 0
  qty : cfg.minQty.toNat ≤ cmd.qty.toNat ∧ cmd.qty.toNat ≤ cfg.maxQty.toNat
  market : cmd.type = .kMarket → cmd.priceTicks = 0
  price : cmd.type ≠ .kMarket → 1 ≤ cmd.priceTicks.toInt ∧
    cfg.engine.anchorPrice.toInt - cfg.walkRadius.toNat - cfg.maxPriceOffset.toNat ≤
      cmd.priceTicks.toInt ∧
    cmd.priceTicks.toInt ≤
      cfg.engine.anchorPrice.toInt + cfg.walkRadius.toNat + cfg.maxPriceOffset.toNat

theorem Command.Adds.emitted {cfg : WorkloadConfig} {type : OrderType} {cmd : Command}
    (h : cmd.Adds cfg type) (ht : type.Declared) (hq : 1 ≤ cfg.minQty.toNat)
    (live : Array OrderId) : cmd.Emitted live := by
  have hqty : cmd.qty ≠ 0 := by
    have := h.qty.1
    rw [ne_eq, ← UInt32.toNat_inj, UInt32.toNat_zero]
    omega
  have hnew : CommandType.kNew ≠ .kCancel := by decide
  refine ⟨⟨.inl h.kind, fun _ => ⟨h.side, h.type ▸ ht⟩⟩,
    fun _ => QueueBook.refusal_none_iff.mpr ⟨hqty, ?_⟩,
    fun hk => absurd (h.kind.symm.trans hk) hnew⟩
  by_cases hm : cmd.type = .kMarket
  · exact .inl hm
  · have := (h.price hm).1
    refine .inr ?_
    rw [Int64.lt_iff_toInt_lt, Int64.toInt_zero]
    omega

/-- What the weighted choice of `next` can pick when these ids are live, and what it
counts: a type only if it has a weight, and a limit order also in place of a cancel
that has no candidate. -/
inductive Picked (cfg : WorkloadConfig) (live : Array OrderId) (c : WorkloadCounts) :
    Command → WorkloadCounts → Prop where
  | cancel {id : OrderId} (weight : 0 < cfg.cancelWeight.toNat) (mem : id ∈ live) :
    Picked cfg live c ⟨.kCancel, .kBuy, .kLimit, 0, 0, 0, id⟩ { c with cancels := c.cancels + 1 }
  | degraded {cmd : Command} (weight : 0 < cfg.cancelWeight.toNat) (none : live = #[])
    (adds : cmd.Adds cfg .kLimit) :
    Picked cfg live c cmd { c with
      limits := c.limits + 1
      degradedCancels := c.degradedCancels + 1 }
  | limit {cmd : Command} (weight : 0 < cfg.limitWeight.toNat) (adds : cmd.Adds cfg .kLimit) :
    Picked cfg live c cmd { c with limits := c.limits + 1 }
  | market {cmd : Command} (weight : 0 < cfg.marketWeight.toNat)
    (adds : cmd.Adds cfg .kMarket) :
    Picked cfg live c cmd { c with markets := c.markets + 1 }
  | ioc {cmd : Command} (weight : 0 < cfg.iocWeight.toNat) (adds : cmd.Adds cfg .kIoc) :
    Picked cfg live c cmd { c with iocs := c.iocs + 1 }

theorem Picked.emitted {cfg : WorkloadConfig} {live : Array OrderId} {c c' : WorkloadCounts}
    {cmd : Command} (h : Picked cfg live c cmd c') (hq : 1 ≤ cfg.minQty.toNat) :
    cmd.Emitted live := by
  cases h with
  | cancel _ hmem =>
    have hnew : CommandType.kCancel ≠ .kNew := by decide
    exact ⟨⟨.inr rfl, fun hk => absurd hk hnew⟩, fun hk => absurd hk hnew, fun _ => hmem⟩
  | degraded _ _ hadds => exact hadds.emitted (.inl rfl) hq live
  | limit _ hadds => exact hadds.emitted (.inl rfl) hq live
  | market _ hadds => exact hadds.emitted (.inr (.inl rfl)) hq live
  | ioc _ hadds => exact hadds.emitted (.inr (.inr rfl)) hq live

namespace WorkloadGenerator

variable {σ : Type} {cfg : WorkloadConfig} {g : WorkloadGenerator σ}
  {b : QueueBook}

/-- The members that no call of `next` writes, and the mid within its walk. -/
structure Walks (cfg : WorkloadConfig) (g : WorkloadGenerator σ) : Prop where
  config : g.cfg = cfg
  totalWeight : g.totalWeight = cfg.totalWeight
  zipfCdf : g.zipfCdf = cfg.zipfCdf
  walkLo : g.walkLo.toInt = max 1 (cfg.engine.anchorPrice.toInt - cfg.walkRadius.toNat)
  walkHi : g.walkHi.toInt = cfg.engine.anchorPrice.toInt + cfg.walkRadius.toNat
  mid : g.walkLo.toInt ≤ g.mid.toInt ∧ g.mid.toInt ≤ g.walkHi.toInt

/-- The cancel candidates are the open orders of the shadow book. -/
structure Tracks (cfg : WorkloadConfig) (g : WorkloadGenerator σ) (b : QueueBook) : Prop where
  walks : Walks cfg g
  book : BookRep cfg.engine g.engine.book b []
  uncrossed : b.Uncrossed
  inverse : Inverse g.liveIds g.livePos
  live : ∀ id, id ∈ g.livePos ↔ ∃ r ∈ b.resting, r.id = id

theorem Walks.redraw (h : Walks cfg g) (rngState : σ) {mid : PriceTicks}
    (hmid : g.walkLo.toInt ≤ mid.toInt ∧ mid.toInt ≤ g.walkHi.toInt) (counts : WorkloadCounts) :
    Walks cfg { g with rngState, mid, counts } :=
  ⟨h.config, h.totalWeight, h.zipfCdf, h.walkLo, h.walkHi, hmid⟩

theorem Tracks.redraw (h : Tracks cfg g b) (rngState : σ) {mid : PriceTicks}
    (hmid : g.walkLo.toInt ≤ mid.toInt ∧ mid.toInt ≤ g.walkHi.toInt) (counts : WorkloadCounts) :
    Tracks cfg { g with rngState, mid, counts } b :=
  ⟨h.walks.redraw rngState hmid counts, h.book, h.uncrossed, h.inverse, h.live⟩

theorem Walks.mid_pos (h : Walks cfg g) : 1 ≤ g.mid.toInt := by
  have := h.mid.1
  have := h.walkLo
  omega

theorem new_engine {rngState : σ} {e : MatchingEngine} (he : MatchingEngine.new cfg.engine = .ok e)
    (h : WorkloadGenerator.new cfg rngState = .ok g) : g.engine = e := by
  rw [WorkloadGenerator.new, he, ok_bind] at h
  obtain ⟨_, _, h⟩ := bind_eq_ok.mp h
  obtain ⟨_, _, h⟩ := bind_eq_ok.mp h
  obtain ⟨_, _, h⟩ := bind_eq_ok.mp h
  obtain ⟨_, _, h⟩ := bind_eq_ok.mp h
  obtain ⟨_, _, h⟩ := bind_eq_ok.mp h
  obtain ⟨_, _, h⟩ := bind_eq_ok.mp h
  cases h
  rfl

def reseed (g : WorkloadGenerator σ) (rngState : σ) : WorkloadGenerator σ := { g with rngState }

section
variable (g : WorkloadGenerator σ) (rngState rngState' : σ)

@[simp] theorem reseed_rngState : (g.reseed rngState).rngState = rngState := rfl
@[simp] theorem reseed_cfg : (g.reseed rngState).cfg = g.cfg := rfl
@[simp] theorem reseed_mid : (g.reseed rngState).mid = g.mid := rfl
@[simp] theorem reseed_walkLo : (g.reseed rngState).walkLo = g.walkLo := rfl
@[simp] theorem reseed_walkHi : (g.reseed rngState).walkHi = g.walkHi := rfl
@[simp] theorem reseed_zipfCdf : (g.reseed rngState).zipfCdf = g.zipfCdf := rfl
@[simp] theorem reseed_totalWeight : (g.reseed rngState).totalWeight = g.totalWeight := rfl
@[simp] theorem reseed_liveIds : (g.reseed rngState).liveIds = g.liveIds := rfl
@[simp] theorem reseed_reseed : (g.reseed rngState).reseed rngState' = g.reseed rngState' := rfl

end

theorem boundedRand_eq (draw : σ → UInt64 × σ) (g : WorkloadGenerator σ) {n : Nat} (hn : 0 < n) :
    g.boundedRand draw n =
      .ok ((draw g.rngState).1.toNat % n, g.reseed (draw g.rngState).2) := by
  rw [boundedRand, assert_pos hn]
  rfl

theorem boundedRand_ok (draw : σ → UInt64 × σ) (g : WorkloadGenerator σ) {n : Nat} (hn : 0 < n) :
    ∃ r rngState, g.boundedRand draw n = .ok (r, g.reseed rngState) ∧ r < n :=
  ⟨_, _, boundedRand_eq draw g hn, Nat.mod_lt _ hn⟩

theorem oneIn_ok (draw : σ → UInt64 × σ) (g : WorkloadGenerator σ) {n : UInt32} (hn : 0 < n.toNat) :
    ∃ hit rngState, g.oneIn draw n = .ok (hit, g.reseed rngState) := by
  obtain ⟨r, rngState, hrun, _⟩ := boundedRand_ok draw g hn
  exact ⟨_, _, by rw [oneIn, hrun]; rfl⟩

theorem clamp_bounds {v lo hi : PriceTicks} (h : lo.toInt ≤ hi.toInt) :
    lo.toInt ≤ (clamp v lo hi).toInt ∧ (clamp v lo hi).toInt ≤ hi.toInt := by
  unfold clamp
  simp only [Int64.lt_iff_toInt_lt]
  split
  · exact ⟨le_refl _, h⟩
  · split <;> omega

theorem ofNat_toInt {n : Nat} (h : n < 2 ^ 63) : (Int64.ofNat n).toInt = n :=
  Int64.toInt_ofNat_of_lt h

/-- The step is at most `max_walk_step` either way, then the mid is put back. -/
theorem maybeStepMid_ok (draw : σ → UInt64 × σ) (hc : cfg.Asserted) (hfit : cfg.Fits)
    (h : Walks cfg g) :
    ∃ rngState mid, g.maybeStepMid draw = .ok { g with rngState, mid } ∧
      g.walkLo.toInt ≤ mid.toInt ∧ mid.toInt ≤ g.walkHi.toInt := by
  unfold WorkloadConfig.Fits at hfit
  have hmid := h.mid
  have hpos := h.mid_pos
  have hhi := h.walkHi
  obtain ⟨walks, ρ₁, hrun₁⟩ := oneIn_ok draw g
    (show 0 < g.cfg.walkOneIn.toNat by rw [h.config]; exact hc.walkOneIn)
  rw [maybeStepMid, hrun₁, ok_bind]
  cases walks with
  | false => exact ⟨_, g.mid, rfl, hmid⟩
  | true =>
    obtain ⟨r, ρ₂, hrun₂, hr⟩ := boundedRand_ok draw (g.reseed ρ₁)
      (show 0 < g.cfg.maxWalkStep.toNat by rw [h.config]; exact hc.maxWalkStep)
    obtain ⟨up, ρ₃, hrun₃⟩ := oneIn_ok draw (g.reseed ρ₂) (show 0 < (2 : UInt32).toNat by decide)
    rw [h.config] at hr
    have hstep : (Int64.ofNat (1 + r)).toInt = 1 + r := by
      rw [ofNat_toInt (by omega)]
      rfl
    have hadd : ∀ d : Int64, -(cfg.maxWalkStep.toNat : Int) ≤ d.toInt →
        d.toInt ≤ cfg.maxWalkStep.toNat →
        addI64 g.mid d = .ok (Int64.ofInt (g.mid.toInt + d.toInt)) := fun d h₁ h₂ =>
      int64_ok (by omega) (by omega)
    have hclamp : ∀ v, g.walkLo.toInt ≤ (clamp v g.walkLo g.walkHi).toInt ∧
        (clamp v g.walkLo g.walkHi).toInt ≤ g.walkHi.toInt :=
      fun v => clamp_bounds (le_trans hmid.1 hmid.2)
    simp only [Bool.not_true, Bool.false_eq_true, if_false, reseed_cfg, hrun₂, ok_bind,
      reseed_reseed, hrun₃]
    cases up with
    | true =>
      refine ⟨ρ₃, clamp (Int64.ofInt (g.mid.toInt + (Int64.ofNat (1 + r)).toInt)) g.walkLo g.walkHi,
        ?_, hclamp _⟩
      simp only [if_true, pure_eq_ok, ok_bind, reseed_mid,
        hadd (Int64.ofNat (1 + r)) (by omega) (by omega)]
      rfl
    | false =>
      have hneg : negI64 (Int64.ofNat (1 + r)) = .ok (Int64.ofInt (-(1 + r))) := by
        rw [negI64, hstep]
        exact int64_ok (by omega) (by omega)
      have hdelta : (Int64.ofInt (-(1 + r))).toInt = -(1 + r) := int64_toInt (by omega) (by omega)
      refine ⟨ρ₃, clamp (Int64.ofInt (g.mid.toInt + (Int64.ofInt (-(1 + r))).toInt)) g.walkLo
        g.walkHi, ?_, hclamp _⟩
      simp only [Bool.false_eq_true, if_false, hneg, ok_bind, reseed_mid,
        hadd (Int64.ofInt (-(1 + r))) (by omega) (by omega)]
      rfl

theorem sampleZipfOffset_eq (draw : σ → UInt64 × σ) (ht : g.zipfCdf = cfg.zipfCdf) :
    g.sampleZipfOffset draw = .ok
      (cfg.zipfCdf.findIdx fun acc => decide ((draw g.rngState).1.toNat % cfg.zipfTotal < acc),
        g.reseed (draw g.rngState).2) := by
  rw [sampleZipfOffset, ht, cfg.zipfCdf_back]
  simp only [boundedRand_eq draw g cfg.zipfTotal_pos, ok_bind, reseed_zipfCdf, ht]
  rfl

theorem sampleZipfOffset_ok (draw : σ → UInt64 × σ) (ht : g.zipfCdf = cfg.zipfCdf) : ∃ k,
    g.sampleZipfOffset draw = .ok (k, g.reseed (draw g.rngState).2) ∧
      k ≤ cfg.maxPriceOffset.toNat :=
  ⟨_, sampleZipfOffset_eq draw ht, Nat.le_of_lt_succ (cfg.zipfCdf_table.owns_findIdx
    (Nat.mod_lt (draw g.rngState).1.toNat cfg.zipfTotal_pos)).1⟩

theorem toInt_max_one (p : PriceTicks) : (max 1 p).toInt = max 1 p.toInt := by
  rw [show ∀ a b : Int64, max a b = if a ≤ b then b else a from fun _ _ => rfl]
  simp only [Int64.le_iff_toInt_le, Int64.toInt_one]
  split
  · omega
  · rw [Int64.toInt_one]
    omega

theorem samplePrice_ok (draw : σ → UInt64 × σ) (hc : cfg.Asserted) (hfit : cfg.Fits)
    (h : Walks cfg g) (side : Side) : ∃ price rngState,
      g.samplePrice draw side = .ok (price, g.reseed rngState) ∧ 1 ≤ price.toInt ∧
      g.mid.toInt - cfg.maxPriceOffset.toNat ≤ price.toInt ∧
      price.toInt ≤ g.mid.toInt + cfg.maxPriceOffset.toNat := by
  unfold WorkloadConfig.Fits at hfit
  have hmid := h.mid
  have hpos := h.mid_pos
  have hhi := h.walkHi
  obtain ⟨k, hrun₁, hk⟩ := sampleZipfOffset_ok draw h.zipfCdf
  obtain ⟨aggressive, ρ₂, hrun₂⟩ := oneIn_ok draw (g.reseed (draw g.rngState).2)
    (show 0 < g.cfg.crossOneIn.toNat by rw [h.config]; exact hc.crossOneIn)
  have hoffset : (Int64.ofNat k).toInt = k := ofNat_toInt (by omega)
  have hadd : addI64 g.mid (Int64.ofNat k) = .ok (Int64.ofInt (g.mid.toInt + k)) := by
    rw [addI64, hoffset]
    exact int64_ok (by omega) (by omega)
  have hsub : subI64 g.mid (Int64.ofNat k) = .ok (Int64.ofInt (g.mid.toInt - k)) := by
    rw [subI64, hoffset]
    exact int64_ok (by omega) (by omega)
  have hplus : (max 1 (Int64.ofInt (g.mid.toInt + k))).toInt = max 1 (g.mid.toInt + k) := by
    rw [toInt_max_one, int64_toInt (by omega) (by omega)]
  have hminus : (max 1 (Int64.ofInt (g.mid.toInt - k))).toInt = max 1 (g.mid.toInt - k) := by
    rw [toInt_max_one, int64_toInt (by omega) (by omega)]
  simp only [samplePrice, hrun₁, ok_bind, reseed_cfg, hrun₂, reseed_reseed, reseed_mid, hadd, hsub]
  cases decide (side = .kBuy) == aggressive with
  | true => exact ⟨_, ρ₂, rfl, by omega, by omega, by omega⟩
  | false => exact ⟨_, ρ₂, rfl, by omega, by omega, by omega⟩

theorem makeAdd_ok (draw : σ → UInt64 × σ) (hc : cfg.Asserted) (hfit : cfg.Fits)
    (h : Walks cfg g) (type : OrderType) :
    ∃ cmd rngState, g.makeAdd draw type = .ok (cmd, g.reseed rngState) ∧ cmd.Adds cfg type := by
  obtain ⟨r, ρ₁, hrun₁, _⟩ := boundedRand_ok draw g (show 0 < 2 by decide)
  obtain ⟨q, ρ₂, hrun₂, hq⟩ := boundedRand_ok draw (g.reseed ρ₁)
    (show 0 < g.cfg.maxQty.toNat - g.cfg.minQty.toNat + 1 by omega)
  obtain ⟨price, ρ₃, hrun₃, hpos, hlow, hhigh⟩ := samplePrice_ok draw hc hfit
    (show Walks cfg (g.reseed ρ₂) from h.redraw ρ₂ h.mid g.counts)
    (if r = 0 then .kBuy else .kSell)
  have hside : (if r = 0 then Side.kBuy else Side.kSell).Declared := by
    split
    · exact .inl rfl
    · exact .inr rfl
  have hqty : cfg.minQty.toNat ≤ (UInt32.ofNat (g.cfg.minQty.toNat + q)).toNat ∧
      (UInt32.ofNat (g.cfg.minQty.toNat + q)).toNat ≤ cfg.maxQty.toNat := by
    have hbounds := hc.qty
    have hlt := cfg.maxQty.toNat_lt
    rw [h.config] at hq ⊢
    rw [toNat_ofNat32 (by omega)]
    omega
  have hprice : 1 ≤ price.toInt ∧
      cfg.engine.anchorPrice.toInt - cfg.walkRadius.toNat - cfg.maxPriceOffset.toNat ≤
        price.toInt ∧
      price.toInt ≤
        cfg.engine.anchorPrice.toInt + cfg.walkRadius.toNat + cfg.maxPriceOffset.toNat := by
    have hmid := h.mid
    have hlo := h.walkLo
    have hhi := h.walkHi
    simp only [reseed_mid] at hlow hhigh
    omega
  simp only [makeAdd, hrun₁, ok_bind, reseed_cfg, hrun₂, reseed_reseed, hrun₃]
  by_cases hm : type ≠ .kMarket
  · rw [if_pos hm]
    exact ⟨_, ρ₃, rfl, rfl, hside, rfl, rfl, rfl, hqty, fun h => absurd h hm, fun _ => hprice⟩
  · rw [if_neg hm]
    exact ⟨_, ρ₂, rfl, rfl, hside, rfl, rfl, rfl, hqty, fun _ => rfl, fun h => absurd h hm⟩

theorem makeCancel_ok (draw : σ → UInt64 × σ) (hlive : g.liveIds.isEmpty = false) :
    ∃ id rngState, g.makeCancel draw =
      .ok (⟨.kCancel, .kBuy, .kLimit, 0, 0, 0, id⟩, g.reseed rngState) ∧ id ∈ g.liveIds := by
  obtain ⟨r, ρ, hrun, hr⟩ := boundedRand_ok draw g
    (show 0 < g.liveIds.size from Nat.pos_of_ne_zero (of_decide_eq_false hlive))
  simp only [makeCancel, hrun, ok_bind, reseed_liveIds, Array.getElem?_eq_getElem hr]
  exact ⟨_, ρ, rfl, Array.getElem_mem hr⟩

theorem choose_ok (draw : σ → UInt64 × σ) (hc : cfg.Asserted) (hfit : cfg.Fits)
    (h : Walks cfg g) : ∃ cmd rngState counts,
      g.choose draw = .ok (cmd, { g with rngState, counts }) ∧
        Picked cfg g.liveIds g.counts cmd counts := by
  obtain ⟨r, ρ, hrun, hr⟩ := boundedRand_ok draw g
    (show 0 < g.totalWeight by rw [h.totalWeight]; exact hc.weight)
  have hw : Walks cfg (g.reseed ρ) := h.redraw ρ h.mid g.counts
  have hadd := makeAdd_ok draw hc hfit hw
  rw [h.totalWeight, WorkloadConfig.totalWeight, ← h.config] at hr
  have hiff : ∀ w : WorkloadConfig → UInt32, 0 < (w g.cfg).toNat → 0 < (w cfg).toNat :=
    fun w => by rw [h.config]; exact id
  simp only [choose, hrun, ok_bind, reseed_cfg, reseed_liveIds]
  by_cases hcancel : r < g.cfg.cancelWeight.toNat
  · have hweight := hiff (·.cancelWeight) (Nat.zero_lt_of_lt hcancel)
    by_cases hlive : g.liveIds.isEmpty = true
    · obtain ⟨cmd, ρ', hmake, hd⟩ := hadd .kLimit
      simp only [hcancel, if_true, hlive, Bool.not_true, Bool.false_eq_true, if_false, hmake,
        ok_bind]
      exact ⟨cmd, ρ', _, rfl, .degraded hweight (Array.isEmpty_iff.mp hlive) hd⟩
    · rw [Bool.not_eq_true] at hlive
      obtain ⟨id, ρ', hmake, hmem⟩ := makeCancel_ok draw
        (show (g.reseed ρ).liveIds.isEmpty = false from hlive)
      simp only [hcancel, if_true, hlive, Bool.not_false, hmake, ok_bind]
      exact ⟨_, ρ', _, rfl, .cancel hweight hmem⟩
  · by_cases hlimit : r - g.cfg.cancelWeight.toNat < g.cfg.limitWeight.toNat
    · obtain ⟨cmd, ρ', hmake, hd⟩ := hadd .kLimit
      simp only [hcancel, if_false, hlimit, if_true, hmake, ok_bind]
      exact ⟨cmd, ρ', _, rfl, .limit (hiff (·.limitWeight) (Nat.zero_lt_of_lt hlimit)) hd⟩
    · by_cases hmarket : r - g.cfg.cancelWeight.toNat <
          g.cfg.limitWeight.toNat + g.cfg.marketWeight.toNat
      · obtain ⟨cmd, ρ', hmake, hd⟩ := hadd .kMarket
        simp only [hcancel, if_false, hlimit, hmarket, if_true, hmake, ok_bind]
        exact ⟨cmd, ρ', _, rfl, .market (hiff (·.marketWeight) (by omega)) hd⟩
      · obtain ⟨cmd, ρ', hmake, hd⟩ := hadd .kIoc
        simp only [hcancel, if_false, hlimit, hmarket, hmake, ok_bind]
        exact ⟨cmd, ρ', _, rfl, .ioc (hiff (·.iocWeight) (by omega)) hd⟩

theorem addLive_ok (ndebug : Bool) {id : OrderId} (hinv : Inverse g.liveIds g.livePos)
    (hid : id ∉ g.livePos) : ∃ liveIds livePos,
    g.addLive ndebug id = .ok { g with liveIds, livePos } ∧ Inverse liveIds livePos ∧
      ∀ x, x ∈ livePos ↔ x = id ∨ x ∈ g.livePos := by
  refine ⟨_, _, if_neg fun h => hid h.1, hinv.push hid, fun x => ?_⟩
  rw [Std.ExtTreeMap.mem_insertIfNew, Std.compare_eq_iff_eq, eq_comm]

theorem removeLive_ok (ndebug : Bool) {id : OrderId} (hinv : Inverse g.liveIds g.livePos)
    (hid : id ∈ g.livePos) : ∃ liveIds livePos,
    g.removeLive ndebug id = .ok { g with liveIds, livePos } ∧ Inverse liveIds livePos ∧
      ∀ x, x ∈ livePos ↔ x ∈ g.livePos ∧ x ≠ id := by
  obtain ⟨pos, hpos⟩ := Option.isSome_iff_exists.mp
    (Std.ExtTreeMap.mem_iff_isSome_getElem?.mp hid)
  have hlt : pos < g.liveIds.size := (Array.getElem?_eq_some_iff.mp ((hinv pos id).mpr hpos)).1
  obtain ⟨last, hlast⟩ : ∃ last, g.liveIds.back? = some last :=
    ⟨_, by rw [Array.back?_eq_getElem?]; exact Array.getElem?_eq_getElem (by omega)⟩
  have hmem : last ∈ g.livePos := hinv.mem_iff.mp (Array.mem_of_back? hlast)
  refine ⟨_, _, ?_, hinv.swapRemove hpos hlast, mem_swapRemove hmem⟩
  simp only [removeLive, hpos, hlast, hlt, if_true]
  rfl

/-- One event moves the candidates the way it moves the map of open orders. -/
theorem observe_ok (ndebug : Bool) {m m' : OpenOrders} {e : Event}
    (hinv : Inverse g.liveIds g.livePos) (hm : ∀ id, id ∈ g.livePos ↔ m id ≠ none)
    (h : m.apply e = some m') : ∃ liveIds livePos,
    g.observe ndebug e = .ok { g with liveIds, livePos } ∧ Inverse liveIds livePos ∧
      ∀ id, id ∈ livePos ↔ m' id ≠ none := by
  have hupdate : ∀ {v : Option (Side × Qty)} (id : OrderId),
      Function.update m e.orderId v id ≠ none ↔
        if id = e.orderId then v ≠ none else id ∈ g.livePos := fun id => by
    rw [hm, Function.update_apply]
    split <;> rfl
  cases hk : e.kind with
  | kAccepted =>
    simp only [OpenOrders.apply, hk] at h
    split at h
    · rename_i hnone
      cases h
      obtain ⟨ids, pos, hrun, hinv', hmem⟩ := addLive_ok ndebug hinv
        (fun hid => (hm e.orderId).mp hid hnone)
      refine ⟨ids, pos, by simp only [observe, hk, hrun], hinv', fun id => ?_⟩
      rw [hmem, hupdate]
      by_cases hid : id = e.orderId <;> simp [hid]
    · cases h
  | kRejected =>
    simp only [OpenOrders.apply, hk] at h
    cases h
    exact ⟨g.liveIds, g.livePos, by simp only [observe, hk]; rfl, hinv, hm⟩
  | kTraded =>
    simp only [OpenOrders.apply, hk] at h
    split at h
    · cases h
    · rename_i side remaining hsome
      have hin : e.orderId ∈ g.livePos := (hm _).mpr (by rw [hsome]; simp)
      split at h
      · cases h
        by_cases hz : e.remaining = 0
        · obtain ⟨ids, pos, hrun, hinv', hmem⟩ := removeLive_ok ndebug hinv hin
          refine ⟨ids, pos, by simp only [observe, hk, if_pos hz, hrun], hinv', fun id => ?_⟩
          rw [hmem, hupdate, if_pos hz]
          by_cases hid : id = e.orderId <;> simp [hid]
        · refine ⟨g.liveIds, g.livePos, by simp only [observe, hk, if_neg hz]; rfl, hinv,
            fun id => ?_⟩
          rw [hupdate, if_neg hz]
          by_cases hid : id = e.orderId <;> simp [hid, hin]
      · cases h
  | kCanceled =>
    simp only [OpenOrders.apply, hk] at h
    split at h
    · rename_i hsome
      cases h
      have hin : e.orderId ∈ g.livePos := (hm _).mpr (by rw [hsome]; simp)
      obtain ⟨ids, pos, hrun, hinv', hmem⟩ := removeLive_ok ndebug hinv hin
      refine ⟨ids, pos, by simp only [observe, hk, hrun], hinv', fun id => ?_⟩
      rw [hmem, hupdate]
      by_cases hid : id = e.orderId <;> simp [hid]
    · cases h

theorem observeAll_ok (ndebug : Bool) (events : List Event) : ∀ {g : WorkloadGenerator σ}
    {m m' : OpenOrders}, Inverse g.liveIds g.livePos → (∀ id, id ∈ g.livePos ↔ m id ≠ none) →
    m.fold events = some m' → ∃ liveIds livePos,
      events.foldlM (observe ndebug) g = .ok { g with liveIds, livePos } ∧
        Inverse liveIds livePos ∧ ∀ id, id ∈ livePos ↔ m' id ≠ none := by
  induction events with
  | nil =>
    intro g m m' hinv hm h
    cases h
    exact ⟨g.liveIds, g.livePos, rfl, hinv, hm⟩
  | cons e events ih =>
    intro g m m' hinv hm h
    rw [OpenOrders.fold_cons] at h
    obtain ⟨m₁, h₁, h⟩ := Option.bind_eq_some_iff.mp h
    obtain ⟨ids, pos, hrun, hinv₁, hm₁⟩ := observe_ok ndebug hinv hm h₁
    obtain ⟨ids', pos', hrun', hinv', hm'⟩ := ih (g := { g with liveIds := ids, livePos := pos })
      hinv₁ hm₁ h
    exact ⟨ids', pos', by rw [List.foldlM_cons, hrun, ok_bind, hrun'], hinv', hm'⟩

theorem apply_ok (h : Tracks cfg g b) (ndebug : Bool) {cmd : Command} (hk : cmd.Known) :
    ∃ engine liveIds livePos,
      g.engine.process ndebug cmd = .ok (engine, (b.step cmd.op).2.events) ∧
      g.apply ndebug cmd = .ok { g with engine, liveIds, livePos } ∧
      Tracks cfg { g with engine, liveIds, livePos } (b.step cmd.op).1 := by
  obtain ⟨engine, hrun, hrep, hu⟩ := MatchingEngine.process_rep h.book h.uncrossed hk ndebug
  obtain ⟨m, hm⟩ := OpenOrders.holds_exists h.book.wf
  obtain ⟨m', hfold, hm'⟩ := OpenOrders.fold_step h.book hm cmd.op_matched
  obtain ⟨ids, pos, hobs, hinv, hlive⟩ := observeAll_ok ndebug (b.step cmd.op).2.events
    (g := { g with engine }) h.inverse (fun id => (h.live id).trans hm.ne_none_iff.symm) hfold
  refine ⟨engine, ids, pos, hrun, by rw [apply, hrun]; exact hobs, ?_, hrep, hu, hinv,
    fun id => (hlive id).trans hm'.ne_none_iff⟩
  exact ⟨h.walks.config, h.walks.totalWeight, h.walks.zipfCdf, h.walks.walkLo, h.walks.walkHi,
    h.walks.mid⟩

theorem Tracks.benign (h : Tracks cfg g b) {cmd : Command} (hc : cmd.Emitted g.liveIds) :
    ∀ e ∈ (b.step cmd.op).2.events, e.Benign := by
  intro e he
  rcases hc.declared.1 with hk | hk
  · rw [Command.op, if_pos hk] at he
    simp only [QueueBook.step, QueueBook.add, hc.admitted hk, Reply.events] at he
    cases hm : b.mint with
    | none =>
      rw [hm] at he
      obtain rfl := List.mem_singleton.mp he
      exact fun _ => rfl
    | some r =>
      rw [hm] at he
      exact QueueBook.execute_benign r.2 r.1 _ _ _ _ e he
  · have hne : ¬ cmd.kind = .kNew := by
      rw [hk]
      decide
    obtain ⟨r, hr, hid⟩ := (h.live cmd.orderId).mp (h.inverse.mem_iff.mp (hc.cancels hk))
    have hfind : b.find cmd.orderId = some r := (QueueBook.find_iff h.book.wf).mpr ⟨hr, hid⟩
    rw [Command.op, if_neg hne] at he
    simp only [QueueBook.step, QueueBook.cancel, hfind, Reply.events] at he
    obtain rfl := List.mem_singleton.mp he
    exact fun hr => absurd hr (show EventType.kCanceled ≠ .kRejected by decide)

theorem next_ok (draw : σ → UInt64 × σ) (hc : cfg.Accepted) (hfit : cfg.Fits)
    (h : Tracks cfg g b) (ndebug : Bool) :
    ∃ cmd g', g.next draw ndebug = .ok (cmd, g') ∧ Tracks cfg g' (b.step cmd.op).1 ∧
      g.engine.process ndebug cmd = .ok (g'.engine, (b.step cmd.op).2.events) ∧
      cmd.Emitted g.liveIds := by
  obtain ⟨ρ₁, mid, hmid, hbounds⟩ := maybeStepMid_ok draw hc.toAsserted hfit h.walks
  have h₁ : Tracks cfg { g with rngState := ρ₁, mid } b := h.redraw ρ₁ hbounds g.counts
  obtain ⟨cmd, ρ₂, counts, hchoose, hd⟩ := choose_ok draw hc.toAsserted hfit h₁.walks
  have hd : cmd.Emitted g.liveIds := hd.emitted hc.qty.1
  have h₂ : Tracks cfg { g with rngState := ρ₂, mid, counts } b :=
    h₁.redraw ρ₂ h₁.walks.mid counts
  obtain ⟨engine, ids, pos, hprocess, happly, h₃⟩ := apply_ok h₂ ndebug hd.declared.1
  refine ⟨cmd, _, ?_, h₃, hprocess, hd⟩
  rw [next, hmid, ok_bind, hchoose, ok_bind]
  simp only [happly, ok_bind, pure_eq_ok]

theorem take_length {draw : σ → UInt64 × σ} {ndebug : Bool} (n : Nat) :
    ∀ {g g' : WorkloadGenerator σ} {cmds : List Command},
      g.take draw ndebug n = .ok (cmds, g') → cmds.length = n := by
  induction n with
  | zero =>
    intro g g' cmds h
    cases h
    rfl
  | succ n ih =>
    intro g g' cmds h
    obtain ⟨⟨cmd, g₁⟩, _, h⟩ := bind_eq_ok.mp h
    obtain ⟨⟨rest, g₂⟩, hrest, h⟩ := bind_eq_ok.mp h
    cases h
    rw [List.length_cons, ih hrest]

theorem take_ok (draw : σ → UInt64 × σ) (hc : cfg.Accepted) (hfit : cfg.Fits) (ndebug : Bool)
    (n : Nat) : ∀ {g : WorkloadGenerator σ} {b : QueueBook}, Tracks cfg g b →
    ∃ cmds g' batches, g.take draw ndebug n = .ok (cmds, g') ∧
      Tracks cfg g' (b.run (cmds.map Command.op)).1 ∧ cmds.length = n ∧
      (∀ cmd ∈ cmds, cmd.Declared) ∧
      g.engine.processAll ndebug cmds = .ok (g'.engine, batches) ∧
      ∀ e ∈ batches.flatten, e.Benign := by
  induction n with
  | zero => exact fun h => ⟨[], _, [], rfl, h, rfl, by simp, rfl, by simp⟩
  | succ n ih =>
    intro g b h
    obtain ⟨cmd, g₁, hrun₁, h₁, hprocess, hd⟩ := next_ok draw hc hfit h ndebug
    obtain ⟨cmds, g', batches, hrun, h', hlen, hall, hreplay, hbenign⟩ := ih h₁
    refine ⟨cmd :: cmds, g', (b.step cmd.op).2.events :: batches,
      by simp only [take, hrun₁, ok_bind, hrun, pure_eq_ok],
      h', by simp [hlen], fun c hm => ?_,
      by simp only [MatchingEngine.processAll, hprocess, ok_bind, hreplay, pure_eq_ok], ?_⟩
    · rcases List.mem_cons.mp hm with rfl | hm
      · exact hd.declared
      · exact hall c hm
    · intro e he
      rw [List.flatten_cons] at he
      rcases List.mem_append.mp he with he | he
      · exact h.benign hd e he
      · exact hbenign e he

/-- The constructor starts the walk at the anchor, over a fresh shadow engine. -/
theorem new_walks (hc : cfg.Asserted)
    (hwalk : cfg.engine.anchorPrice.toInt + cfg.walkRadius.toNat ≤ 2 ^ 63 - 1)
    {engine : MatchingEngine} (hnew : MatchingEngine.new cfg.engine = .ok engine) (rngState : σ) :
    ∃ g, WorkloadGenerator.new cfg rngState = .ok g ∧ Walks cfg g ∧ g.engine = engine ∧
      g.liveIds = #[] ∧ g.livePos = ∅ ∧ g.counts = {} ∧ g.rngState = rngState ∧
      g.mid = cfg.engine.anchorPrice := by
  have hanchor := hc.engine.anchor
  have hpos : 0 < cfg.engine.anchorPrice := by
    rw [Int64.lt_iff_toInt_lt]
    exact hanchor
  have hradius : (Int64.ofNat cfg.walkRadius.toNat).toInt = cfg.walkRadius.toNat :=
    ofNat_toInt (by omega)
  have hlo : subI64 cfg.engine.anchorPrice (Int64.ofNat cfg.walkRadius.toNat) =
      .ok (Int64.ofInt (cfg.engine.anchorPrice.toInt - cfg.walkRadius.toNat)) := by
    rw [subI64, hradius]
    exact int64_ok (by omega) (by omega)
  have hhi : addI64 cfg.engine.anchorPrice (Int64.ofNat cfg.walkRadius.toNat) =
      .ok (Int64.ofInt (cfg.engine.anchorPrice.toInt + cfg.walkRadius.toNat)) := by
    rw [addI64, hradius]
    exact int64_ok (by omega) (by omega)
  have hlo' : (max 1 (Int64.ofInt (cfg.engine.anchorPrice.toInt - cfg.walkRadius.toNat))).toInt =
      max 1 (cfg.engine.anchorPrice.toInt - cfg.walkRadius.toNat) := by
    rw [toInt_max_one, int64_toInt (by omega) (by omega)]
  have hhi' : (Int64.ofInt (cfg.engine.anchorPrice.toInt + cfg.walkRadius.toNat)).toInt =
      cfg.engine.anchorPrice.toInt + cfg.walkRadius.toNat := int64_toInt (by omega) (by omega)
  refine ⟨{ cfg, totalWeight := cfg.totalWeight, rngState, mid := cfg.engine.anchorPrice,
            walkLo := max 1 (Int64.ofInt (cfg.engine.anchorPrice.toInt - cfg.walkRadius.toNat)),
            walkHi := Int64.ofInt (cfg.engine.anchorPrice.toInt + cfg.walkRadius.toNat),
            zipfCdf := cfg.zipfCdf, engine }, ?_,
    ⟨rfl, rfl, rfl, hlo', hhi', ?_, ?_⟩, rfl, rfl, rfl, rfl, rfl, rfl⟩
  · rw [WorkloadGenerator.new, hnew, ok_bind, assert_pos hpos, ok_bind,
      assert_pos ⟨UInt32.le_iff_toNat_le.mpr hc.qty.1, UInt32.le_iff_toNat_le.mpr hc.qty.2⟩,
      ok_bind,
      assert_pos ⟨UInt32.le_iff_toNat_le.mpr hc.crossOneIn,
        UInt32.le_iff_toNat_le.mpr hc.walkOneIn, UInt32.le_iff_toNat_le.mpr hc.maxWalkStep⟩,
      ok_bind,
      assert_pos hc.weight, ok_bind, hlo, ok_bind, hhi, ok_bind]
    rfl
  · simp only [hlo']
    omega
  · simp only [hhi']
    omega

theorem new_ok (hc : cfg.Accepted)
    (hwalk : cfg.engine.anchorPrice.toInt + cfg.walkRadius.toNat ≤ 2 ^ 63 - 1) (rngState : σ) :
    ∃ g, WorkloadGenerator.new cfg rngState = .ok g ∧
      Tracks cfg g (QueueBook.new cfg.engine.poolCapacity) ∧ g.rngState = rngState ∧
      g.mid = cfg.engine.anchorPrice := by
  obtain ⟨engine, hengine, hrep⟩ := MatchingEngine.new_rep hc.valid
  obtain ⟨g, hnew, hwalks, rfl, hids, hpos, -, hrng, hmid⟩ :=
    new_walks hc.toAsserted hwalk hengine rngState
  refine ⟨g, hnew, ⟨hwalks, hrep, QueueBook.new_uncrossed, ?_, fun id => ?_⟩, hrng, hmid⟩
  · rw [hids, hpos]
    exact inverse_empty
  · rw [hpos]
    simp [QueueBook.new, QueueBook.resting]

end WorkloadGenerator

/-- Whatever is drawn, the candidates are the open orders of the shadow book, and the
emitted commands take a fresh engine to that book without a reject other than for a
full pool. -/
theorem generated_replays {cfg : WorkloadConfig} (hc : cfg.Accepted) (hfit : cfg.Fits) {σ : Type}
    (draw : σ → UInt64 × σ) (rngState : σ) (ndebug : Bool) (n : Nat) :
    ∃ (cmds : List Command) (g : WorkloadGenerator σ) (e₀ e : MatchingEngine)
      (batches : List (List Event)),
      generateWorkload draw ndebug cfg rngState n = .ok (cmds, g) ∧ cmds.length = n ∧
      g.liveIds.toList.Nodup ∧
      (∀ (id : OrderId) (pos : Nat), g.livePos[id]? = some pos ↔ g.liveIds[pos]? = some id) ∧
      (∀ id, id ∈ g.liveIds ↔ g.engine.book.contains id = true) ∧
      MatchingEngine.new cfg.engine = .ok e₀ ∧
      e₀.processAll ndebug cmds = .ok (e, batches) ∧ e.book = g.engine.book ∧
      ∀ ev ∈ batches.flatten, ev.kind = .kRejected →
        ev.reason ≠ .kUnknownOrder ∧ ev.reason ≠ .kInvalidQty ∧ ev.reason ≠ .kInvalidPrice := by
  have hwalk : cfg.engine.anchorPrice.toInt + cfg.walkRadius.toNat ≤ 2 ^ 63 - 1 := by
    unfold WorkloadConfig.Fits at hfit
    omega
  obtain ⟨g₀, hnew, htracks, -, -⟩ := WorkloadGenerator.new_ok hc hwalk rngState
  obtain ⟨cmds, g, batches, htake, h, hlen, -, hreplay, hbenign⟩ :=
    WorkloadGenerator.take_ok draw hc hfit ndebug n htracks
  obtain ⟨e₀, hengine, hrest⟩ := bind_eq_ok.mp hnew
  have he₀ : g₀.engine = e₀ := WorkloadGenerator.new_engine hengine hnew
  refine ⟨cmds, g, e₀, g.engine, batches, by rw [generateWorkload, hnew, ok_bind, htake], hlen,
    h.inverse.nodup, fun id pos => (h.inverse pos id).symm, fun id => ?_, hengine,
    he₀ ▸ hreplay, rfl, fun ev hev hk => ?_⟩
  · rw [h.inverse.mem_iff, h.live, h.book.contains_rep, Option.isSome_iff_exists]
    exact exists_congr fun r => (QueueBook.find_iff h.book.wf).symm
  · rw [hbenign ev hev hk]
    decide

theorem generated_replays_small : ∃ (cmds : List Command) (g : WorkloadGenerator UInt64)
    (e₀ e : MatchingEngine) (batches : List (List Event)),
    generateWorkload nextU64 false { engine := ⟨100, 1, 2⟩, walkRadius := 1, maxPriceOffset := 1 }
      1 20 = .ok (cmds, g) ∧ cmds.length = 20 ∧ MatchingEngine.new ⟨100, 1, 2⟩ = .ok e₀ ∧
    e₀.processAll false cmds = .ok (e, batches) ∧ e.book = g.engine.book := by
  have hc : WorkloadConfig.Accepted
      { engine := ⟨100, 1, 2⟩, walkRadius := 1, maxPriceOffset := 1 } :=
    { engine := ⟨by decide, by decide, by decide⟩
      high := by decide
      qty := by decide
      crossOneIn := by decide
      walkOneIn := by decide
      maxWalkStep := by decide
      weight := by decide }
  obtain ⟨cmds, g, e₀, e, batches, hgen, hlen, -, -, -, hnew, hrun, hbook, -⟩ :=
    generated_replays hc (by unfold WorkloadConfig.Fits; decide) nextU64 1 false 20
  exact ⟨cmds, g, e₀, e, batches, hgen, hlen, hnew, hrun, hbook⟩

end LimitOrderBook
