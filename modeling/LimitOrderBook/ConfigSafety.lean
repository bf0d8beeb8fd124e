import LimitOrderBook.BandOverhang
import LimitOrderBook.WorkloadRun
import LimitOrderBook.ReplayTool

set_option autoImplicit false

namespace LimitOrderBook
open Checked

/-- The constructors accept the configuration, and no run of the engine and no
stream of the generator of `lob_replay generate` overflows, whatever the commands
and the random draws are. -/
structure SafeToRun (cfg : EngineConfig) : Prop where
  constructs : ∃ engine, MatchingEngine.new cfg = .ok engine
  processes : ∀ {engine}, MatchingEngine.new cfg = .ok engine → ∀ ndebug cmds,
    engine.processAll ndebug cmds ≠ .error .signedOverflow
  inBand : ∀ {engine}, MatchingEngine.new cfg = .ok engine → ∀ {ndebug cmds engine' batches},
    engine.processAll ndebug cmds = .ok (engine', batches) → ∀ side (p : PriceTicks),
      (engine'.book.ladder side).inBand p =
        .ok (decide (|p.toInt - cfg.anchorPrice.toInt| ≤ cfg.bandRadius.toNat))
  generates : ∀ {σ : Type} (draw : σ → UInt64 × σ) (rngState : σ) ndebug seed n,
    generateWorkload draw ndebug (runGenerateConfig cfg seed) rngState n ≠ .error .signedOverflow

namespace MatchingEngine

variable {cfg : EngineConfig}

theorem processAll_total (ndebug : Bool) (cmds : List Command) : ∀ {e : MatchingEngine}
    {b : QueueBook}, BookRep cfg e.book b [] → b.Uncrossed →
    e.processAll ndebug cmds = .error (.assertion "unknown CommandType") ∨
      ∃ e' batches b', e.processAll ndebug cmds = .ok (e', batches) ∧
        BookRep cfg e'.book b' [] := by
  induction cmds with
  | nil => exact fun h _ => .inr ⟨_, _, _, rfl, h⟩
  | cons cmd cmds ih =>
    intro e b h hu
    by_cases hk : cmd.Known
    · obtain ⟨e₁, hrun₁, hrep₁, hu₁⟩ := process_rep h hu hk ndebug
      rcases ih hrep₁ hu₁ with herr | ⟨e', batches, b', hrun, hrep⟩
      · exact .inl (by simp only [processAll, hrun₁, ok_bind, herr, error_bind])
      · exact .inr ⟨e', _, b', by simp only [processAll, hrun₁, ok_bind, hrun]; rfl, hrep⟩
    · obtain ⟨hnew, hcancel⟩ := not_or.mp hk
      have hrun₁ : e.process ndebug cmd =
          if ndebug then .ok (e, []) else .error (.assertion "unknown CommandType") := by
        rw [process, if_neg hnew, if_neg hcancel]
        rfl
      cases ndebug with
      | false => exact .inl (by simp [processAll, hrun₁])
      | true =>
        rcases ih h hu with herr | ⟨e', batches, b', hrun, hrep⟩
        · exact .inl (by simp [processAll, hrun₁, herr])
        · have hall : processAll true e (cmd :: cmds) = .ok (e', [] :: batches) := by
            simp only [processAll, hrun₁, if_true, ok_bind, hrun]
            rfl
          exact .inr ⟨e', _, b', hall, hrep⟩

end MatchingEngine

theorem BookRep.inBand_iff {cfg : EngineConfig} {book : OrderBook} {b : QueueBook}
    (h : BookRep cfg book b []) (side : Side) (p : PriceTicks) :
    (book.ladder side).inBand p =
      .ok (decide (|p.toInt - cfg.anchorPrice.toInt| ≤ cfg.bandRadius.toNat)) := by
  have hlow := h.lowPrice side
  have hwidth := h.width side
  rw [PriceLadder.inBand_ok (h.ladder side).geometry]
  congr 1
  rw [decide_eq_decide, abs_le, PriceLadder.InBand, hlow, hwidth]
  omega

theorem runGenerateConfig_accepted {cfg : EngineConfig} (hc : cfg.Valid) (seed : UInt64) :
    (runGenerateConfig cfg seed).Accepted :=
  { engine := hc.asserted
    high := hc.high
    qty := show 1 ≤ (1 : UInt32).toNat ∧ (1 : UInt32).toNat ≤ (100 : UInt32).toNat by decide
    crossOneIn := show 0 < (4 : UInt32).toNat by decide
    walkOneIn := show 0 < (4 : UInt32).toNat by decide
    maxWalkStep := show 0 < (2 : UInt32).toNat by decide
    weight := show 0 < (60 : UInt32).toNat + (5 : UInt32).toNat + (15 : UInt32).toNat +
      (20 : UInt32).toNat by decide }

/-- The prices of the generator leave room for the band too. -/
theorem safeToRun_of_fits {cfg : EngineConfig} (h : validateEngineConfig cfg = .ok ())
    (hfit : cfg.anchorPrice.toInt + cfg.bandRadius.toNat + 256 ≤ 2 ^ 63 - 1) : SafeToRun cfg := by
  have hc : cfg.Valid := .of_accepted h (by omega)
  obtain ⟨engine, hnew, hrep⟩ := MatchingEngine.new_rep hc
  have hsame : ∀ {e}, MatchingEngine.new cfg = .ok e → e = engine := fun he => by
    rw [hnew] at he
    exact (Except.ok.inj he).symm
  refine ⟨⟨engine, hnew⟩, ?_, ?_, ?_⟩
  · intro e he ndebug cmds herr
    rw [hsame he] at herr
    rcases MatchingEngine.processAll_total ndebug cmds hrep QueueBook.new_uncrossed with
      hrun | ⟨e', batches, b', hrun, _⟩
    · rw [hrun] at herr
      exact absurd herr (by simp)
    · rw [hrun] at herr
      cases herr
  · intro e he ndebug cmds engine' batches hrun side p
    rw [hsame he] at hrun
    rcases MatchingEngine.processAll_total ndebug cmds hrep QueueBook.new_uncrossed with
      herr | ⟨e', batches', b', hrun', hrep'⟩
    · rw [herr] at hrun
      cases hrun
    · rw [hrun'] at hrun
      cases hrun
      exact hrep'.inBand_iff side p
  · intro σ draw rngState ndebug seed n herr
    obtain ⟨g, hgnew, htracks, _, _⟩ := WorkloadGenerator.new_ok
      (runGenerateConfig_accepted hc seed) (show cfg.anchorPrice.toInt + cfg.bandRadius.toNat ≤
        2 ^ 63 - 1 by omega) rngState
    obtain ⟨cmds, g', _, htake, _⟩ := WorkloadGenerator.take_ok draw
      (runGenerateConfig_accepted hc seed) hfit ndebug n htracks
    rw [generateWorkload, hgnew, ok_bind, htake] at herr
    cases herr

theorem inBand_overflow {cfg : EngineConfig} (hc : cfg.Asserted) (hover : cfg.Overhangs)
    {engine : MatchingEngine} (hnew : MatchingEngine.new cfg = .ok engine) :
    (engine.book.ladder .kBuy).inBand cfg.anchorPrice = .error .signedOverflow := by
  obtain ⟨engine', hnew', hladder⟩ := MatchingEngine.new_asserted hc
  cases hnew.symm.trans hnew'
  obtain ⟨hlow, hsize⟩ := hladder .kBuy
  refine PriceLadder.inBand_overhangs (hlow ▸ hover.overhang hc hsize) ?_
  rw [Int64.le_iff_toInt_le, hlow, EngineConfig.low]
  omega

def playback : List UInt64 → UInt64 × List UInt64
  | [] => (0, [])
  | z :: zs => (z, zs)

/-- The draws of a call that steps the mid up by one and submits a market order. -/
def stepUp : List UInt64 := [0, 0, 0, 80, 0, 0]

def reachOut : List UInt64 := [1, 20, 0, 0, 6426067, 0]

namespace WorkloadGenerator

variable {cfg : EngineConfig} {seed : UInt64} {g : WorkloadGenerator (List UInt64)}
  {b : QueueBook} {z : UInt64} {rest : List UInt64}

theorem boundedRand_playback (hr : g.rngState = z :: rest) {n r : Nat} (hn : 0 < n)
    (hz : z.toNat % n = r) : g.boundedRand playback n = .ok (r, g.reseed rest) := by
  rw [boundedRand, assert_pos hn, hr, ← hz]
  rfl

theorem oneIn_playback (hr : g.rngState = z :: rest) {n : UInt32} {hit : Bool} (hn : 0 < n.toNat)
    (hz : (z.toNat % n.toNat == 0) = hit) : g.oneIn playback n = .ok (hit, g.reseed rest) := by
  rw [oneIn, boundedRand_playback hr hn rfl, ← hz]
  rfl

theorem clamp_toInt {v lo hi : PriceTicks} (h : lo.toInt ≤ v.toInt) :
    (clamp v lo hi).toInt = min v.toInt hi.toInt := by
  unfold clamp
  simp only [Int64.lt_iff_toInt_lt]
  rw [if_neg (by omega)]
  split <;> omega

theorem maybeStepMid_stepUp (hc : cfg.Valid) (h : Walks (runGenerateConfig cfg seed) g)
    (hr : g.rngState = stepUp ++ rest) : ∃ g', g.maybeStepMid playback = .ok g' ∧
      (∀ b, Tracks (runGenerateConfig cfg seed) g b → Tracks (runGenerateConfig cfg seed) g' b) ∧
      g'.rngState = [80, 0, 0] ++ rest ∧
      g'.mid.toInt = min (g.mid.toInt + 1) (cfg.anchorPrice.toInt + cfg.bandRadius.toNat) := by
  have hhi : g.walkHi.toInt = cfg.anchorPrice.toInt + cfg.bandRadius.toNat := h.walkHi
  have hmid := h.mid
  have hpos := h.mid_pos
  have hhigh := hc.high
  have hwalk : g.cfg.walkOneIn = 4 := by rw [h.config]; rfl
  have hmax : g.cfg.maxWalkStep = 2 := by rw [h.config]; rfl
  have hadd : addI64 g.mid (Int64.ofNat (1 + 0)) = .ok (Int64.ofInt (g.mid.toInt + 1)) :=
    int64_ok (by rw [ofNat_toInt (by omega)]; omega) (by rw [ofNat_toInt (by omega)]; omega)
  have hnew : (Int64.ofInt (g.mid.toInt + 1)).toInt = g.mid.toInt + 1 :=
    int64_toInt (by omega) (by omega)
  have hclamp : (clamp (Int64.ofInt (g.mid.toInt + 1)) g.walkLo g.walkHi).toInt =
      min (g.mid.toInt + 1) (cfg.anchorPrice.toInt + cfg.bandRadius.toNat) := by
    rw [clamp_toInt (by omega), hnew, hhi]
  have h₁ : g.oneIn playback 4 = .ok (true, g.reseed (0 :: 0 :: 80 :: 0 :: 0 :: rest)) :=
    oneIn_playback hr (by decide) (by decide)
  have h₂ : (g.reseed (0 :: 0 :: 80 :: 0 :: 0 :: rest)).boundedRand playback (2 : UInt32).toNat =
      .ok (0, g.reseed (0 :: 80 :: 0 :: 0 :: rest)) :=
    boundedRand_playback rfl (by decide) (by decide)
  have h₃ : (g.reseed (0 :: 80 :: 0 :: 0 :: rest)).oneIn playback 2 =
      .ok (true, g.reseed (80 :: 0 :: 0 :: rest)) := oneIn_playback rfl (by decide) (by decide)
  have hbounds : g.walkLo.toInt ≤
      (clamp (Int64.ofInt (g.mid.toInt + 1)) g.walkLo g.walkHi).toInt ∧
      (clamp (Int64.ofInt (g.mid.toInt + 1)) g.walkLo g.walkHi).toInt ≤ g.walkHi.toInt :=
    clamp_bounds (le_trans hmid.1 hmid.2)
  refine ⟨_, ?_, fun b hb => hb.redraw ([80, 0, 0] ++ rest) hbounds g.counts, rfl, hclamp⟩
  simp only [maybeStepMid, hwalk, h₁, ok_bind, Bool.not_true, Bool.false_eq_true, if_false,
    reseed_cfg, hmax, h₂, h₃, if_true, pure_eq_ok, reseed_mid, hadd]
  rfl

theorem choose_stepUp (h : Walks (runGenerateConfig cfg seed) g)
    (hr : g.rngState = [80, 0, 0] ++ rest) : ∃ cmd g', g.choose playback = .ok (cmd, g') ∧
      cmd.Known ∧
      (∀ b, Tracks (runGenerateConfig cfg seed) g b → Tracks (runGenerateConfig cfg seed) g' b) ∧
      g'.rngState = rest ∧ g'.mid = g.mid := by
  have hcancel : g.cfg.cancelWeight.toNat = 20 := by rw [h.config]; rfl
  have hlimit : g.cfg.limitWeight.toNat = 60 := by rw [h.config]; rfl
  have hmarket : g.cfg.marketWeight.toNat = 5 := by rw [h.config]; rfl
  have h₁ : g.boundedRand playback g.totalWeight = .ok (80, g.reseed (0 :: 0 :: rest)) := by
    rw [show g.totalWeight = 100 from h.totalWeight]
    exact boundedRand_playback hr (by decide) (by decide)
  have h₂ : (g.reseed (0 :: 0 :: rest)).boundedRand playback 2 = .ok (0, g.reseed (0 :: rest)) :=
    boundedRand_playback rfl (by decide) (by decide)
  have h₃ : (g.reseed (0 :: rest)).boundedRand playback
      (g.cfg.maxQty.toNat - g.cfg.minQty.toNat + 1) = .ok (0, g.reseed rest) :=
    boundedRand_playback rfl (by omega) (Nat.zero_mod _)
  refine ⟨⟨.kNew, .kBuy, .kMarket, 0, UInt32.ofNat (g.cfg.minQty.toNat + 0), 0, kInvalidOrderId⟩, _,
    ?_, .inl rfl,
    fun b hb => hb.redraw rest h.mid { g.counts with markets := g.counts.markets + 1 },
    rfl, rfl⟩
  simp only [choose, h₁, ok_bind, reseed_cfg, hcancel, hlimit, hmarket,
    show ¬ 80 < 20 by decide, show ¬ 80 - 20 < 60 by decide, show 80 - 20 < 60 + 5 by decide,
    if_false, if_true, makeAdd, h₂, h₃, ne_eq, not_true_eq_false, pure_eq_ok]
  rfl

theorem next_stepUp (hc : cfg.Valid) (h : Tracks (runGenerateConfig cfg seed) g b)
    (hr : g.rngState = stepUp ++ rest) (ndebug : Bool) : ∃ cmd g' b',
      g.next playback ndebug = .ok (cmd, g') ∧ Tracks (runGenerateConfig cfg seed) g' b' ∧
      g'.rngState = rest ∧
      g'.mid.toInt = min (g.mid.toInt + 1) (cfg.anchorPrice.toInt + cfg.bandRadius.toNat) := by
  obtain ⟨g₁, hmid, h₁, hr₁, hm₁⟩ := maybeStepMid_stepUp hc h.walks hr
  obtain ⟨cmd, g₂, hchoose, hk, h₂, hr₂, hm₂⟩ := choose_stepUp (h₁ b h).walks hr₁
  obtain ⟨engine, ids, pos, _, happly, h₃⟩ := apply_ok (h₂ b (h₁ b h)) ndebug hk
  refine ⟨cmd, { g₂ with engine, liveIds := ids, livePos := pos }, _, ?_, h₃, hr₂, ?_⟩
  · rw [next, hmid, ok_bind, hchoose, ok_bind]
    simp only [happly, ok_bind, pure_eq_ok]
  · rw [show ({ g₂ with engine, liveIds := ids, livePos := pos } : WorkloadGenerator _).mid = g₂.mid
      from rfl, hm₂, hm₁]

/-- At the top of the walk, an aggressive buy at the largest offset has no price. -/
theorem next_reachOut (hhigh : 2 ^ 63 - 1 < cfg.anchorPrice.toInt + cfg.bandRadius.toNat + 256)
    (h : Walks (runGenerateConfig cfg seed) g) (hr : g.rngState = reachOut)
    (hm : g.mid.toInt = cfg.anchorPrice.toInt + cfg.bandRadius.toNat) (ndebug : Bool) :
    g.next playback ndebug = .error .signedOverflow := by
  have hwalk : g.cfg.walkOneIn = 4 := by rw [h.config]; rfl
  have hweight : g.totalWeight = 100 := h.totalWeight
  have hcancel : g.cfg.cancelWeight.toNat = 20 := by rw [h.config]; rfl
  have hlimit : g.cfg.limitWeight.toNat = 60 := by rw [h.config]; rfl
  have hcross : g.cfg.crossOneIn = 4 := by rw [h.config]; rfl
  have hzipf : g.zipfCdf = ((List.range 257).foldl WorkloadConfig.zipfStep (0, #[])).2 := h.zipfCdf
  have htotal : ((List.range 257).foldl WorkloadConfig.zipfStep (0, #[])).1 = 6426068 := by
    decide +kernel
  have hback : g.zipfCdf.back? = some 6426068 := by
    rw [hzipf, (WorkloadConfig.zipf_loop 257).2.back, ← (WorkloadConfig.zipf_loop 257).1, htotal]
  have hidx : g.zipfCdf.findIdx (fun acc => decide (6426067 < acc)) = 256 := by
    rw [hzipf]
    exact WorkloadConfig.zipf_findIdx (by decide +kernel) (by rw [htotal]; decide)
  have h₁ : g.oneIn playback 4 = .ok (false, g.reseed [20, 0, 0, 6426067, 0]) :=
    oneIn_playback hr (by decide) (by decide)
  have h₂ : (g.reseed [20, 0, 0, 6426067, 0]).boundedRand playback 100 =
      .ok (20, g.reseed [0, 0, 6426067, 0]) := boundedRand_playback rfl (by decide) (by decide)
  have h₃ : (g.reseed [0, 0, 6426067, 0]).boundedRand playback 2 =
      .ok (0, g.reseed [0, 6426067, 0]) := boundedRand_playback rfl (by decide) (by decide)
  have h₄ : (g.reseed [0, 6426067, 0]).boundedRand playback
      (g.cfg.maxQty.toNat - g.cfg.minQty.toNat + 1) = .ok (0, g.reseed [6426067, 0]) :=
    boundedRand_playback rfl (by omega) (Nat.zero_mod _)
  have h₅ : (g.reseed [6426067, 0]).boundedRand playback 6426068 =
      .ok (6426067, g.reseed [0]) := boundedRand_playback rfl (by decide) (by decide)
  have h₆ : (g.reseed [0]).oneIn playback 4 = .ok (true, g.reseed []) :=
    oneIn_playback rfl (by decide) (by decide)
  have hover : addI64 g.mid (Int64.ofNat 256) = .error .signedOverflow := by
    rw [addI64, ofNat_toInt (by decide), hm]
    exact int64_overflow (by omega)
  simp only [next, maybeStepMid, hwalk, h₁, ok_bind, Bool.not_false, if_true, pure_eq_ok, choose,
    reseed_totalWeight, hweight, h₂, reseed_cfg, hcancel, hlimit, show ¬ 20 < 20 by decide,
    show 20 - 20 < 60 by decide, if_false, makeAdd, h₃, h₄,
    samplePrice, sampleZipfOffset, reseed_zipfCdf, hback, h₅, hidx, hcross, h₆, reseed_mid, hover]
  rfl

theorem take_reachOut (hc : cfg.Valid)
    (hhigh : 2 ^ 63 - 1 < cfg.anchorPrice.toInt + cfg.bandRadius.toNat + 256) (ndebug : Bool)
    (n : Nat) : ∀ {g : WorkloadGenerator (List UInt64)} {b : QueueBook},
    Tracks (runGenerateConfig cfg seed) g b →
    g.rngState = (List.replicate n stepUp).flatten ++ reachOut →
    cfg.anchorPrice.toInt + cfg.bandRadius.toNat ≤ g.mid.toInt + n →
    g.take playback ndebug (n + 1) = .error .signedOverflow := by
  induction n with
  | zero =>
    intro g b h hr hm
    have hhi : g.walkHi.toInt = cfg.anchorPrice.toInt + cfg.bandRadius.toNat := h.walks.walkHi
    have hmid := h.walks.mid
    rw [take, next_reachOut hhigh h.walks hr (by omega)]
    rfl
  | succ n ih =>
    intro g b h hr hm
    have hhi : g.walkHi.toInt = cfg.anchorPrice.toInt + cfg.bandRadius.toNat := h.walks.walkHi
    have hmid := h.walks.mid
    rw [List.replicate_succ, List.flatten_cons, List.append_assoc] at hr
    obtain ⟨cmd, g', b', hrun, h', hr', hm'⟩ := next_stepUp hc h hr ndebug
    rw [take, hrun, ok_bind]
    simp only [ih h' hr' (by omega), error_bind]

end WorkloadGenerator

/-- An accepted configuration is safe to run exactly when the largest price the
generator can compute is a price. -/
theorem accepted_safe_iff (cfg : EngineConfig) (h : validateEngineConfig cfg = .ok ()) :
    SafeToRun cfg ↔ cfg.anchorPrice.toInt + cfg.bandRadius.toNat + 256 ≤ 2 ^ 63 - 1 := by
  refine ⟨fun hs => ?_, safeToRun_of_fits h⟩
  obtain ⟨_, hband, _⟩ := validateEngineConfig_iff.mp h
  by_contra hno
  by_cases hhigh : cfg.anchorPrice.toInt + cfg.bandRadius.toNat + 1 ≤ 2 ^ 63 - 1
  · have hc : cfg.Valid := .of_accepted h hhigh
    obtain ⟨g, hnew, htracks, hr, hmid⟩ := WorkloadGenerator.new_ok
      (runGenerateConfig_accepted hc 1) (show cfg.anchorPrice.toInt + cfg.bandRadius.toNat ≤
        2 ^ 63 - 1 by omega) ((List.replicate cfg.bandRadius.toNat stepUp).flatten ++ reachOut)
    refine hs.generates playback ((List.replicate cfg.bandRadius.toNat stepUp).flatten ++ reachOut)
      false 1 (cfg.bandRadius.toNat + 1) ?_
    rw [generateWorkload, hnew, ok_bind]
    refine WorkloadGenerator.take_reachOut hc (by omega) false cfg.bandRadius.toNat htracks hr ?_
    rw [hmid]
    exact le_refl _
  · obtain ⟨engine, hnew⟩ := hs.constructs
    have hover := inBand_overflow (.of_accepted h) (show _ < _ by omega) hnew
    have hin := hs.inBand hnew (show engine.processAll false [] = .ok (engine, []) from rfl) .kBuy
      cfg.anchorPrice
    rw [hover] at hin
    cases hin

theorem accepted_safe_iff_default : validateEngineConfig { anchorPrice := 10000 } = .ok () ∧
    SafeToRun { anchorPrice := 10000 } :=
  ⟨by decide, (accepted_safe_iff { anchorPrice := 10000 } (by decide)).mpr (by decide)⟩

/-- The largest anchor is accepted, but the first order of the engine overflows, and
so does the construction of the generator for every seed. -/
theorem accepted_overflows :
    validateEngineConfig ⟨Int64.maxValue, 1, 1⟩ = .ok () ∧
    (∃ engine, MatchingEngine.new ⟨Int64.maxValue, 1, 1⟩ = .ok engine ∧
      engine.processAll true [⟨.kNew, .kBuy, .kLimit, 0, 1, Int64.maxValue, 0⟩] =
        .error .signedOverflow) ∧
    (∀ seed n,
      generateWorkload nextU64 true (runGenerateConfig ⟨Int64.maxValue, 1, 1⟩ seed) seed n =
        .error .signedOverflow) ∧
    ¬ SafeToRun ⟨Int64.maxValue, 1, 1⟩ := by
  have hrun : ∃ engine, MatchingEngine.new ⟨Int64.maxValue, 1, 1⟩ = .ok engine ∧
      engine.processAll true [⟨.kNew, .kBuy, .kLimit, 0, 1, Int64.maxValue, 0⟩] =
        .error .signedOverflow := ⟨_, rfl, rfl⟩
  refine ⟨by decide, hrun, fun seed n => ?_, fun hs => ?_⟩
  · obtain ⟨engine, hnew, _⟩ := hrun
    have hlow : subI64 Int64.maxValue (Int64.ofNat (1 : UInt32).toNat) =
        .ok (Int64.maxValue - 1) := by decide
    have hhigh : addI64 Int64.maxValue (Int64.ofNat (1 : UInt32).toNat) =
        .error .signedOverflow := by decide
    rw [generateWorkload, WorkloadGenerator.new]
    simp only [runGenerateConfig, hnew, ok_bind, hlow, hhigh]
    rfl
  · obtain ⟨engine, hnew, herr⟩ := hrun
    exact hs.processes hnew true _ herr

end LimitOrderBook
