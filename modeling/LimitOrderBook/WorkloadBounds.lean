import LimitOrderBook.BandOverhang
import LimitOrderBook.WorkloadRun
import LimitOrderBook.Lib.Tally

set_option autoImplicit false

namespace LimitOrderBook
open Checked SwapIndex CumulativeTable

theorem OpenOrders.fold_leaves (side : Side) (qty : Qty) (price : PriceTicks) (id : OrderId) :
    OpenOrders.fold (fun _ => none)
      [makeEvent .kAccepted side .kNone qty qty price id,
        makeEvent .kCanceled side .kNone qty 0 price id] = some fun _ => none := by
  simp [fold, apply, makeEvent, Function.update_idem]

namespace OrderBook

/-- A book without an order. -/
structure Bare (cfg : EngineConfig) (book : OrderBook) : Prop where
  empty : ∀ side, (book.ladder side).empty = true
  low : ∀ side, (book.ladder side).lowPrice.toInt =
    cfg.anchorPrice.toInt - cfg.bandRadius.toNat
  size : ∀ side, (book.ladder side).levels.size = 2 * cfg.bandRadius.toNat + 1
  pool : ∃ F, book.pool.Inv F
  dead : ∀ i, ¬ book.pool.Live i

variable {cfg : EngineConfig} {book book' : OrderBook} {ndebug : Bool} {side : Side}
  {type : OrderType} {price : PriceTicks} {qty : Qty} {id : OrderId} {events : List Event}

theorem new_bare (hc : cfg.Asserted) :
    ∃ book, OrderBook.new cfg.anchorPrice cfg.bandRadius cfg.poolCapacity = .ok book ∧
      book.Bare cfg := by
  obtain ⟨pool, hpool, hinv, -, hzero⟩ := OrderPool.new_inv hc.capacity
  obtain ⟨bids, hbids, -, hbl, hbw, -, hbb, -, hbo⟩ := PriceLadder.new_ok hc .kBuy
  obtain ⟨asks, hasks, -, hal, haw, -, hab, -, hao⟩ := PriceLadder.new_ok hc .kSell
  have hempty : ∀ {l : PriceLadder}, l.bestOffset = kNullIdx → l.overflow = ∅ →
      l.empty = true := fun hb ho => by
    rw [PriceLadder.empty, hb, ho]
    exact decide_eq_true ⟨rfl, Std.ExtTreeMap.isEmpty_empty⟩
  refine ⟨{ pool, bids, asks }, by rw [OrderBook.new, hpool, ok_bind, hbids, ok_bind, hasks]; rfl,
    fun s => ?_, fun s => ?_, fun s => ?_, ⟨_, hinv⟩, fun i hl => hl.2 (hzero i).2.1⟩
  · unfold ladder
    split
    · exact hempty hbb hbo
    · exact hempty hab hao
  · unfold ladder
    split <;> assumption
  · unfold ladder
    split <;> assumption

theorem Bare.not_contains (h : book.Bare cfg) (id : OrderId) : book.contains id = false := by
  rw [contains, Option.isSome_eq_false_iff, Option.isNone_iff_eq_none]
  cases hf : book.pool.find id with
  | none => rfl
  | some o => exact absurd (OrderPool.find_eq_some.mp hf).1 (h.dead _)

theorem sweepOpposite_empty (h : (book.ladder side.opposite).empty = true) :
    book.sweepOpposite side price qty id = .ok (book, qty, []) := by
  rw [sweepOpposite, matchLoop, matchStep, if_pos (.inr h)]
  rfl

theorem Bare.pushOrder_error (h : book.Bare cfg) (hc : cfg.Asserted) (hover : cfg.Overhangs)
    {pool : OrderPool} {i : UInt32}
    (hlow : cfg.anchorPrice.toInt - cfg.bandRadius.toNat ≤ (pool.slot i).priceTicks.toInt)
    (hi : i.toNat < pool.slots.size) (s : Side) :
    (book.ladder s).pushOrder pool i = .error .signedOverflow := by
  refine PriceLadder.pushOrder_overhangs ?_ hi ?_
  · rw [h.low]
    exact hover.overhang hc (h.size s)
  · rw [Int64.le_iff_toInt_le, h.low]
    exact hlow

/-- An order that the book takes leaves at once. -/
theorem Bare.add (h : book.Bare cfg) (hc : cfg.Asserted) (hover : cfg.Overhangs)
    (hrefusal : QueueBook.refusal type price qty = none)
    (hlow : type ≠ .kMarket → cfg.anchorPrice.toInt - cfg.bandRadius.toNat ≤ price.toInt)
    (hadd : book.add ndebug side type price qty = .ok (id, book', events)) :
    book'.Bare cfg ∧ OpenOrders.fold (fun _ => none) events = some fun _ => none := by
  obtain ⟨hq, hp⟩ := QueueBook.refusal_none_iff.mp hrefusal
  obtain ⟨F, hinv⟩ := h.pool
  have hp : ¬ (type ≠ .kMarket ∧ price ≤ 0) := fun ⟨hm, hle⟩ =>
    hp.elim hm fun hlt => absurd hle (Int64.not_le.mpr hlt)
  rw [OrderBook.add, if_neg hq, if_neg hp] at hadd
  cases F with
  | nil =>
    rw [OrderPool.alloc_empty hinv, ok_bind] at hadd
    cases hadd
    exact ⟨h, rfl⟩
  | cons i F =>
    have hi : i.toNat < book.pool.slots.size := ((hinv.mem i).mp (by simp)).1
    have htake : (book.pool.take i).slots.size = book.pool.slots.size :=
      OrderPool.take_size _ _
    have hne := makeOrderId_ne_invalid (OrderPool.bump_ne_zero (book.pool.slot i).generation) i
    simp only [OrderPool.alloc_cons hinv, ok_bind, if_neg hne] at hadd
    obtain ⟨⟨b₂, events₂⟩, hexec, hadd⟩ := bind_eq_ok.mp hadd
    obtain ⟨_, _, hadd⟩ := bind_eq_ok.mp hadd
    cases hadd
    have hempty : (({ book with pool := book.pool.take i } : OrderBook).ladder
        side.opposite).empty = true := h.empty side.opposite
    simp only [execute, sweepOpposite_empty hempty, ok_bind, assert_pos (UInt32.le_refl qty),
      indexOf_makeOrderId] at hexec
    by_cases ht : type = .kLimit
    · obtain ⟨q, hmodify, hprice, hsize⟩ : ∃ q, (book.pool.take i).modify i
          (Order.submitted price qty qty side type) = .ok q ∧ (q.slot i).priceTicks = price ∧
            i.toNat < q.slots.size := by
        refine ⟨_, OrderPool.modify_ok (htake ▸ hi) _, ?_, ?_⟩
        · rw [OrderPool.slot_set (htake ▸ hi), if_pos rfl]
          rfl
        · rw [OrderPool.set_size]
          exact htake ▸ hi
      have hpush := h.pushOrder_error hc hover
        (hprice ▸ hlow (by rw [ht]; decide)) hsize side
      rw [if_neg (not_or.mpr ⟨hq, not_not.mpr ht⟩), hmodify, ok_bind,
        show (({ book with pool := book.pool.take i } : OrderBook).ladder side) =
          book.ladder side from rfl, hpush] at hexec
      cases hexec
    · have hlive : (book.pool.take i).Live i := by
        refine ⟨htake ▸ hi, ?_⟩
        rw [OrderPool.slot_take hi, if_pos rfl]
        exact hne
      rw [if_pos (.inr ht), OrderPool.free_ok hlive, ok_bind] at hexec
      cases hexec
      refine ⟨⟨h.empty, h.low, h.size, ⟨_, hinv.take.release hlive⟩, fun j hj => ?_⟩, ?_⟩
      · have hj' := hj.2
        rw [OrderPool.slot_release hlive.1] at hj'
        by_cases he : j = i
        · rw [if_pos he] at hj'
          exact hj' rfl
        · rw [if_neg he, OrderPool.slot_take hi, if_neg he] at hj'
          refine h.dead j ⟨?_, hj'⟩
          have := hj.1
          rwa [OrderPool.release_size, htake] at this
      · have hpos : 0 < qty := by
          rw [UInt32.lt_iff_toNat_lt]
          exact Nat.pos_of_ne_zero fun hz => hq (UInt32.toNat_inj.mp hz)
        rw [if_pos hpos]
        exact OpenOrders.fold_leaves side qty _ _

end OrderBook

def Command.isNew (type : OrderType) (cmd : Command) : Bool := cmd.kind = .kNew ∧ cmd.type = type

def Command.isCancel (cmd : Command) : Bool := cmd.kind = .kCancel

/-- The counters have counted these commands, which are all of a kind they count. -/
structure WorkloadCounts.Counted (c : WorkloadCounts) (cmds : List Command)
    (c' : WorkloadCounts) : Prop where
  limits : c'.limits = c.limits + UInt64.ofNat (cmds.countP (Command.isNew .kLimit))
  markets : c'.markets = c.markets + UInt64.ofNat (cmds.countP (Command.isNew .kMarket))
  iocs : c'.iocs = c.iocs + UInt64.ofNat (cmds.countP (Command.isNew .kIoc))
  cancels : c'.cancels = c.cancels + UInt64.ofNat (cmds.countP Command.isCancel)
  degraded : ∃ d, d ≤ cmds.countP (Command.isNew .kLimit) ∧
    c'.degradedCancels = c.degradedCancels + UInt64.ofNat d
  all : cmds.countP (Command.isNew .kLimit) + cmds.countP (Command.isNew .kMarket) +
    cmds.countP (Command.isNew .kIoc) + cmds.countP Command.isCancel = cmds.length

namespace WorkloadCounts.Counted

variable {c c₁ c' : WorkloadCounts} {cmds : List Command} {cmd : Command}

theorem nil (c : WorkloadCounts) : c.Counted [] c :=
  ⟨by simp, by simp, by simp, by simp, ⟨0, by simp⟩, rfl⟩

theorem cons (h : c.Counted [cmd] c₁) (hs : c₁.Counted cmds c') : c.Counted (cmd :: cmds) c' := by
  have hsplit : ∀ p : Command → Bool,
      (cmd :: cmds).countP p = [cmd].countP p + cmds.countP p := fun p => by
    rw [← List.countP_append, List.singleton_append]
  obtain ⟨d, hd, hdegraded⟩ := h.degraded
  obtain ⟨d', hd', hdegraded'⟩ := hs.degraded
  refine ⟨?_, ?_, ?_, ?_, ⟨d + d', ?_, ?_⟩, ?_⟩
  · rw [hsplit, UInt64.ofNat_add, ← UInt64.add_assoc, ← h.limits, hs.limits]
  · rw [hsplit, UInt64.ofNat_add, ← UInt64.add_assoc, ← h.markets, hs.markets]
  · rw [hsplit, UInt64.ofNat_add, ← UInt64.add_assoc, ← h.iocs, hs.iocs]
  · rw [hsplit, UInt64.ofNat_add, ← UInt64.add_assoc, ← h.cancels, hs.cancels]
  · rw [hsplit]
    exact Nat.add_le_add hd hd'
  · rw [UInt64.ofNat_add, ← UInt64.add_assoc, ← hdegraded, hdegraded']
  · have h₁ := h.all
    have h₂ := hs.all
    simp only [hsplit (Command.isNew _), hsplit Command.isCancel, List.length_cons,
      List.length_nil] at h₁ ⊢
    omega

theorem from_zero (h : Counted {} cmds c) :
    c.limits + c.markets + c.iocs + c.cancels = UInt64.ofNat cmds.length ∧
      (cmds.length < 2 ^ 64 →
        c.limits.toNat + c.markets.toNat + c.iocs.toNat + c.cancels.toNat = cmds.length ∧
          c.degradedCancels.toNat ≤ c.limits.toNat) := by
  obtain ⟨d, hd, hdegraded⟩ := h.degraded
  refine ⟨?_, fun hlt => ?_⟩
  · rw [h.limits, h.markets, h.iocs, h.cancels, ← h.all]
    simp only [UInt64.zero_add, UInt64.ofNat_add]
  · have hall := h.all
    rw [Tally.counter_exact h.limits (by omega), Tally.counter_exact h.markets (by omega),
      Tally.counter_exact h.iocs (by omega), Tally.counter_exact h.cancels (by omega),
      Tally.counter_exact hdegraded (by omega)]
    exact ⟨hall, hd⟩

end WorkloadCounts.Counted

theorem Command.Adds.isNew {cfg : WorkloadConfig} {type t : OrderType} {cmd : Command}
    (h : cmd.Adds cfg type) : cmd.isNew t = decide (type = t) := by
  rw [Command.isNew, h.kind, h.type]
  simp

theorem Command.Adds.isCancel {cfg : WorkloadConfig} {type : OrderType} {cmd : Command}
    (h : cmd.Adds cfg type) : cmd.isCancel = false := by
  rw [Command.isCancel, h.kind]
  rfl

theorem Picked.counted {cfg : WorkloadConfig} {live : Array OrderId} {c c' : WorkloadCounts}
    {cmd : Command} (h : Picked cfg live c cmd c') : c.Counted [cmd] c' := by
  cases h with
  | cancel _ _ =>
    refine ⟨?_, ?_, ?_, ?_, ⟨0, ?_, ?_⟩, ?_⟩ <;>
      simp +decide [Command.isNew, Command.isCancel]
  | degraded _ _ hadds =>
    refine ⟨?_, ?_, ?_, ?_, ⟨1, ?_, ?_⟩, ?_⟩ <;>
      simp +decide [hadds.isNew, hadds.isCancel]
  | limit _ hadds | market _ hadds | ioc _ hadds =>
    refine ⟨?_, ?_, ?_, ?_, ⟨0, ?_, ?_⟩, ?_⟩ <;>
      simp +decide [hadds.isNew, hadds.isCancel]

namespace WorkloadGenerator

variable {σ : Type} {draw : σ → UInt64 × σ} {ndebug : Bool} {cfg : WorkloadConfig}
  {g g' : WorkloadGenerator σ} {cmd : Command}

structure Idle (cfg : WorkloadConfig) (g : WorkloadGenerator σ) : Prop where
  walks : Walks cfg g
  book : g.engine.book.Bare cfg.engine
  inverse : Inverse g.liveIds g.livePos
  none : ∀ id, id ∉ g.livePos

/-- A generator after some calls: over an overhanging band it never has a candidate. -/
inductive Sound (cfg : WorkloadConfig) (g : WorkloadGenerator σ) : Prop where
  | tracks (accepted : cfg.Accepted) (b : QueueBook) (tracks : Tracks cfg g b)
  | idle (overhangs : cfg.engine.Overhangs) (idle : Idle cfg g)

theorem Sound.walks (h : Sound cfg g) : Walks cfg g := by
  cases h with
  | tracks _ b h => exact h.walks
  | idle _ h => exact h.walks

theorem Sound.live_iff (h : Sound cfg g) (id : OrderId) :
    id ∈ g.liveIds ↔ g.engine.book.contains id = true := by
  cases h with
  | tracks _ b h =>
    rw [h.inverse.mem_iff, h.live, h.book.contains_rep, Option.isSome_iff_exists]
    exact exists_congr fun r => (QueueBook.find_iff h.book.wf).symm
  | idle _ h =>
    rw [h.inverse.mem_iff, h.book.not_contains]
    exact iff_of_false (h.none id) Bool.false_ne_true

theorem Idle.redraw (h : Idle cfg g) (rngState : σ) {mid : PriceTicks}
    (hmid : g.walkLo.toInt ≤ mid.toInt ∧ mid.toInt ≤ g.walkHi.toInt) (counts : WorkloadCounts) :
    Idle cfg { g with rngState, mid, counts } :=
  ⟨h.walks.redraw rngState hmid counts, h.book, h.inverse, h.none⟩

theorem Idle.apply (h : Idle cfg g) (hc : cfg.Asserted) (hfit : cfg.Fits)
    (hover : cfg.engine.Overhangs) {type : OrderType} (hadds : cmd.Adds cfg type)
    (ht : type.Declared) (happly : g.apply ndebug cmd = .ok g') :
    ∃ engine liveIds livePos, g' = { g with engine, liveIds, livePos } ∧ Idle cfg g' := by
  have hrefusal := (hadds.emitted ht hc.qty.1 g.liveIds).admitted hadds.kind
  have hlow : cmd.type ≠ .kMarket →
      cfg.engine.anchorPrice.toInt - cfg.engine.bandRadius.toNat ≤ cmd.priceTicks.toInt := by
    intro hm
    have hprice := (hadds.price hm).2.1
    unfold WorkloadConfig.Fits at hfit
    unfold EngineConfig.Overhangs at hover
    omega
  obtain ⟨⟨engine, events⟩, hprocess, hobserve⟩ := bind_eq_ok.mp happly
  rw [MatchingEngine.process, if_pos hadds.kind] at hprocess
  obtain ⟨⟨id, e', events'⟩, hsubmit, hprocess⟩ := bind_eq_ok.mp hprocess
  cases hprocess
  obtain ⟨⟨id', book', events'⟩, hadd, hsubmit⟩ := bind_eq_ok.mp hsubmit
  cases hsubmit
  obtain ⟨hbare, hfold⟩ := h.book.add hc.engine hover hrefusal hlow hadd
  obtain ⟨ids, pos, hrun, hinv, hnone⟩ := observeAll_ok ndebug events
    (g := { g with engine := { book := book', stats := _ } }) h.inverse
    (fun id => iff_of_false (h.none id) (not_not.mpr rfl)) hfold
  obtain rfl := Except.ok.inj (hrun.symm.trans hobserve)
  exact ⟨_, ids, pos, rfl, ⟨h.walks.config, h.walks.totalWeight, h.walks.zipfCdf,
    h.walks.walkLo, h.walks.walkHi, h.walks.mid⟩, hbare, hinv,
    fun id hid => (hnone id).mp hid rfl⟩

theorem next_eq (draw : σ → UInt64 × σ) (hc : cfg.Asserted) (hfit : cfg.Fits)
    (h : Walks cfg g) (ndebug : Bool) :
    ∃ g₁ g₂ cmd rngState mid counts, g.maybeStepMid draw = .ok g₁ ∧
      g₁.choose draw = .ok (cmd, g₂) ∧ g₂ = { g with rngState, mid, counts } ∧
      (g.walkLo.toInt ≤ mid.toInt ∧ mid.toInt ≤ g.walkHi.toInt) ∧
      Picked cfg g.liveIds g.counts cmd counts ∧
      g.next draw ndebug = g₂.apply ndebug cmd >>= fun g' => pure (cmd, g') := by
  obtain ⟨ρ₁, mid, hmid, hbounds⟩ := maybeStepMid_ok draw hc hfit h
  have h₁ : Walks cfg { g with rngState := ρ₁, mid } := h.redraw ρ₁ hbounds g.counts
  obtain ⟨cmd, ρ₂, counts, hchoose, hpicked⟩ := choose_ok draw hc hfit h₁
  refine ⟨_, _, cmd, ρ₂, mid, counts, hmid, hchoose, rfl, hbounds, hpicked, ?_⟩
  rw [next, hmid, ok_bind, hchoose, ok_bind]

theorem Picked.adds {c c' : WorkloadCounts} (h : Picked cfg #[] c cmd c') :
    ∃ type : OrderType, type.Declared ∧ cmd.Adds cfg type := by
  cases h with
  | cancel _ hmem => exact absurd hmem (by simp)
  | degraded _ _ hadds => exact ⟨.kLimit, .inl rfl, hadds⟩
  | limit _ hadds => exact ⟨.kLimit, .inl rfl, hadds⟩
  | market _ hadds => exact ⟨.kMarket, .inr (.inl rfl), hadds⟩
  | ioc _ hadds => exact ⟨.kIoc, .inr (.inr rfl), hadds⟩

theorem Idle.liveIds_eq (h : Idle cfg g) : g.liveIds = #[] :=
  Array.eq_empty_iff_forall_not_mem.mpr fun id hid => h.none id (h.inverse.mem_iff.mp hid)

theorem Sound.next (h : Sound cfg g) (hc : cfg.Asserted) (hfit : cfg.Fits)
    (hnext : g.next draw ndebug = .ok (cmd, g')) :
    Sound cfg g' ∧ Picked cfg g.liveIds g.counts cmd g'.counts := by
  obtain ⟨-, g₂, cmd, ρ, mid, counts, -, -, rfl, hbounds, hpicked, heq⟩ :=
    next_eq draw hc hfit h.walks ndebug
  rw [heq] at hnext
  obtain ⟨g₃, happly, hnext⟩ := bind_eq_ok.mp hnext
  cases hnext
  cases h with
  | tracks hacc b h =>
    obtain ⟨engine, ids, pos, -, happly', h₃⟩ :=
      apply_ok (h.redraw ρ hbounds counts) ndebug (hpicked.emitted hc.qty.1).declared.1
    obtain rfl := Except.ok.inj (happly'.symm.trans happly)
    exact ⟨.tracks hacc _ h₃, hpicked⟩
  | idle hover h =>
    obtain ⟨type, ht, hadds⟩ := Picked.adds (h.liveIds_eq ▸ hpicked)
    obtain ⟨engine, ids, pos, rfl, h₃⟩ :=
      (h.redraw ρ hbounds counts).apply hc hfit hover hadds ht happly
    exact ⟨.idle hover h₃, hpicked⟩

theorem take_sound (hc : cfg.Asserted) (hfit : cfg.Fits) (n : Nat) :
    ∀ {g g' : WorkloadGenerator σ} {cmds : List Command}, Sound cfg g →
      g.take draw ndebug n = .ok (cmds, g') →
      Sound cfg g' ∧ cmds.length = n ∧ g.counts.Counted cmds g'.counts := by
  induction n with
  | zero =>
    intro g g' cmds h hrun
    cases hrun
    exact ⟨h, rfl, .nil g.counts⟩
  | succ n ih =>
    intro g g' cmds h hrun
    obtain ⟨⟨cmd, g₁⟩, hnext, hrun⟩ := bind_eq_ok.mp hrun
    obtain ⟨⟨cmds', g₂⟩, htake, hrun⟩ := bind_eq_ok.mp hrun
    cases hrun
    obtain ⟨h₁, hpicked⟩ := h.next hc hfit hnext
    obtain ⟨h', hlen, hcounted⟩ := ih h₁ htake
    exact ⟨h', by rw [List.length_cons, hlen], hpicked.counted.cons hcounted⟩

theorem new_sound (hc : cfg.Asserted) (hfit : cfg.Fits) (rngState : σ) :
    ∃ g, WorkloadGenerator.new cfg rngState = .ok g ∧ Sound cfg g ∧ g.counts = {} := by
  have hwalk : cfg.engine.anchorPrice.toInt + cfg.walkRadius.toNat ≤ 2 ^ 63 - 1 := by
    unfold WorkloadConfig.Fits at hfit
    omega
  obtain ⟨book, hbook, hbare⟩ := OrderBook.new_bare hc.engine
  have hengine : MatchingEngine.new cfg.engine = .ok { book } := by
    rw [MatchingEngine.new, hbook]
    rfl
  obtain ⟨g, hnew, hwalks, hg, hids, hpos, hcounts, -, -⟩ :=
    new_walks hc hwalk hengine rngState
  refine ⟨g, hnew, ?_, hcounts⟩
  by_cases hover : cfg.engine.Overhangs
  · refine .idle hover ⟨hwalks, hg ▸ hbare, ?_, fun id => ?_⟩
    · rw [hids, hpos]
      exact inverse_empty
    · rw [hpos]
      exact Std.ExtTreeMap.not_mem_empty
  · have hacc : cfg.Accepted := ⟨hc, not_lt.mp hover⟩
    obtain ⟨g', hnew', htracks, -⟩ := new_ok hacc hwalk rngState
    obtain rfl := Except.ok.inj (hnew'.symm.trans hnew)
    exact .tracks hacc _ htracks

end WorkloadGenerator

namespace WorkloadConfig

/-- `std::upper_bound` over the table. -/
def offsetAt (cfg : WorkloadConfig) (r : Nat) : Nat :=
  cfg.zipfCdf.findIdx fun acc => decide (r < acc)

/-- The table gives every offset the residues between its own entry and the one before,
`2 ^ 20 / (k + 1) + 1` of them for offset `k`. -/
structure Partition (cfg : WorkloadConfig) (total : Nat) : Prop where
  back : cfg.zipfCdf.back? = some total
  width : total < 2 ^ 64
  iff : ∀ r k, r < total → (cfg.offsetAt r = k ↔
    (∀ j, k = j + 1 → ∃ acc, cfg.zipfCdf[j]? = some acc ∧ acc ≤ r) ∧
      ∃ acc, cfg.zipfCdf[k]? = some acc ∧ r < acc)
  le : ∀ r, r < total → cfg.offsetAt r ≤ cfg.maxPriceOffset.toNat
  card : ∀ k, k ≤ cfg.maxPriceOffset.toNat →
    ((Finset.range total).filter fun r => cfg.offsetAt r = k).card = 2 ^ 20 / (k + 1) + 1

theorem partition (cfg : WorkloadConfig) : cfg.Partition cfg.zipfTotal := by
  have hentry : ∀ {k acc}, cfg.zipfCdf[k]? = some acc ↔
      k ≤ cfg.maxPriceOffset.toNat ∧ cumulative zipfWeight (k + 1) = acc := fun {k acc} => by
    constructor
    · intro h
      have hlt := (Array.getElem?_eq_some_iff.mp h).1
      rw [cfg.zipfCdf_table.size] at hlt
      rw [cfg.zipfCdf_table.entry k hlt, Option.some.injEq] at h
      exact ⟨Nat.le_of_lt_succ hlt, h⟩
    · rintro ⟨hk, rfl⟩
      exact cfg.zipfCdf_table.entry k (Nat.lt_succ_of_le hk)
  have howns : ∀ r, r < cfg.zipfTotal →
      cfg.offsetAt r ≤ cfg.maxPriceOffset.toNat ∧ Owns zipfWeight (cfg.offsetAt r) r :=
    fun r hr => (cfg.zipfCdf_table.owns_findIdx hr).imp_left Nat.le_of_lt_succ
  refine ⟨cfg.zipfCdf_back, cfg.zipfTotal_lt, fun r k hr => ⟨?_, ?_⟩, fun r hr => (howns r hr).1,
    fun k hk => ?_⟩
  · rintro rfl
    obtain ⟨hle, hlow, hhigh⟩ := howns r hr
    refine ⟨fun j hj => ⟨_, hentry.mpr ⟨by omega, rfl⟩, ?_⟩, _, hentry.mpr ⟨hle, rfl⟩, hhigh⟩
    rwa [hj] at hlow
  · rintro ⟨hlow, acc, hacc, hhigh⟩
    obtain ⟨hk, rfl⟩ := hentry.mp hacc
    refine (howns r hr).2.unique ⟨?_, hhigh⟩
    cases k with
    | zero => exact Nat.zero_le r
    | succ j =>
      obtain ⟨acc, hacc, hle⟩ := hlow j rfl
      exact (hentry.mp hacc).2 ▸ hle
  · have hfilter : ((Finset.range cfg.zipfTotal).filter fun r => cfg.offsetAt r = k) =
        (Finset.range cfg.zipfTotal).filter (Owns zipfWeight k) := by
      refine Finset.filter_congr fun r hr => ?_
      have hown := (howns r (Finset.mem_range.mp hr)).2
      exact ⟨fun he => he ▸ hown, hown.unique⟩
    rw [hfilter]
    exact card_owned zipfWeight (Nat.lt_succ_of_le hk)

end WorkloadConfig

/-- What is promised of a command that is emitted while the shadow book is `book`. -/
structure Command.WithinBounds (cfg : WorkloadConfig) (book : OrderBook) (cmd : Command) :
    Prop where
  declared : cmd.Declared
  pad0 : cmd.pad0 = 0
  qty : cmd.kind = .kNew →
    cfg.minQty.toNat ≤ cmd.qty.toNat ∧ cmd.qty.toNat ≤ cfg.maxQty.toNat
  orderId : cmd.kind = .kNew → cmd.orderId = 0
  market : cmd.kind = .kNew → cmd.type = .kMarket → cmd.priceTicks = 0
  price : cmd.kind = .kNew → cmd.type ≠ .kMarket → 1 ≤ cmd.priceTicks.toInt ∧
    cmd.priceTicks.toInt ≤
      cfg.engine.anchorPrice.toInt + cfg.walkRadius.toNat + cfg.maxPriceOffset.toNat
  limitWeight : cmd.kind = .kNew → cmd.type = .kLimit → 0 < cfg.limitWeight.toNat ∨
    0 < cfg.cancelWeight.toNat ∧ ∀ id, book.contains id = false
  marketWeight : cmd.kind = .kNew → cmd.type = .kMarket → 0 < cfg.marketWeight.toNat
  iocWeight : cmd.kind = .kNew → cmd.type = .kIoc → 0 < cfg.iocWeight.toNat
  cancelWeight : cmd.kind = .kCancel → 0 < cfg.cancelWeight.toNat
  cancel : cmd.kind = .kCancel → book.contains cmd.orderId = true ∧
    cmd = ⟨.kCancel, ⟨0⟩, ⟨0⟩, 0, 0, 0, cmd.orderId⟩

theorem Command.Adds.withinBounds {cfg : WorkloadConfig} {book : OrderBook} {type : OrderType}
    {cmd : Command} (h : cmd.Adds cfg type) (ht : type.Declared)
    (hlimit : type = .kLimit → 0 < cfg.limitWeight.toNat ∨
      0 < cfg.cancelWeight.toNat ∧ ∀ id, book.contains id = false)
    (hmarket : type = .kMarket → 0 < cfg.marketWeight.toNat)
    (hioc : type = .kIoc → 0 < cfg.iocWeight.toNat) : cmd.WithinBounds cfg book := by
  have hcancel : cmd.kind ≠ .kCancel := by
    rw [h.kind]
    decide
  exact ⟨⟨.inl h.kind, fun _ => ⟨h.side, h.type ▸ ht⟩⟩, h.pad0, fun _ => h.qty,
    fun _ => h.orderId, fun _ => h.market, fun _ hm => ⟨(h.price hm).1, (h.price hm).2.2⟩,
    fun _ he => hlimit (h.type ▸ he), fun _ he => hmarket (h.type ▸ he),
    fun _ he => hioc (h.type ▸ he), fun hk => absurd hk hcancel, fun hk => absurd hk hcancel⟩

theorem Picked.withinBounds {cfg : WorkloadConfig} {book : OrderBook} {live : Array OrderId}
    {c c' : WorkloadCounts} {cmd : Command} (h : Picked cfg live c cmd c')
    (hlive : ∀ id, id ∈ live ↔ book.contains id = true) : cmd.WithinBounds cfg book := by
  have hnew : CommandType.kCancel ≠ .kNew := by decide
  cases h with
  | cancel hweight hmem =>
    exact ⟨⟨.inr rfl, fun hk => absurd hk hnew⟩, rfl, fun hk => absurd hk hnew,
      fun hk => absurd hk hnew, fun hk => absurd hk hnew, fun hk => absurd hk hnew,
      fun hk => absurd hk hnew, fun hk => absurd hk hnew, fun hk => absurd hk hnew,
      fun _ => hweight, fun _ => ⟨(hlive _).mp hmem, rfl⟩⟩
  | degraded hweight hnone hadds =>
    refine hadds.withinBounds (.inl rfl) (fun _ => .inr ⟨hweight, fun id => ?_⟩)
      (fun he => absurd he (by decide)) (fun he => absurd he (by decide))
    rw [← Bool.not_eq_true, ← hlive, hnone]
    simp
  | limit hweight hadds =>
    exact hadds.withinBounds (.inl rfl) (fun _ => .inl hweight)
      (fun he => absurd he (by decide)) (fun he => absurd he (by decide))
  | market hweight hadds =>
    exact hadds.withinBounds (.inr (.inl rfl)) (fun he => absurd he (by decide))
      (fun _ => hweight) (fun he => absurd he (by decide))
  | ioc hweight hadds =>
    exact hadds.withinBounds (.inr (.inr rfl)) (fun he => absurd he (by decide))
      (fun he => absurd he (by decide)) (fun _ => hweight)

/-- Whatever is drawn, after any number of calls the mid is within its walk, the counters
add up, and the next command is within the configured bounds. The call that emits it
returns unless the band ends beyond the largest price. -/
theorem generated_within_bounds {cfg : WorkloadConfig} (hc : cfg.Asserted) (hfit : cfg.Fits)
    {σ : Type} (draw : σ → UInt64 × σ) (rngState : σ) (ndebug : Bool) :
    (∃ g, WorkloadGenerator.new cfg rngState = .ok g) ∧
    (∃ total, cfg.Partition total ∧ ∀ g : WorkloadGenerator σ, g.zipfCdf = cfg.zipfCdf →
      g.sampleZipfOffset draw = .ok (cfg.offsetAt ((draw g.rngState).1.toNat % total),
        { g with rngState := (draw g.rngState).2 })) ∧
    ∀ (n : Nat) (cmds : List Command) (g : WorkloadGenerator σ),
      generateWorkload draw ndebug cfg rngState n = .ok (cmds, g) →
      cmds.length = n ∧ g.zipfCdf = cfg.zipfCdf ∧
      (max 1 (cfg.engine.anchorPrice.toInt - cfg.walkRadius.toNat) ≤ g.mid.toInt ∧
        g.mid.toInt ≤ cfg.engine.anchorPrice.toInt + cfg.walkRadius.toNat) ∧
      g.counts.limits + g.counts.markets + g.counts.iocs + g.counts.cancels = UInt64.ofNat n ∧
      (n < 2 ^ 64 →
        g.counts.limits.toNat + g.counts.markets.toNat + g.counts.iocs.toNat +
            g.counts.cancels.toNat = n ∧
          g.counts.degradedCancels.toNat ≤ g.counts.limits.toNat) ∧
      ∃ g₁ cmd g₂, g.maybeStepMid draw = .ok g₁ ∧ g₁.choose draw = .ok (cmd, g₂) ∧
        cmd.WithinBounds cfg g.engine.book ∧
        (∀ cmd' g', g.next draw ndebug = .ok (cmd', g') → cmd' = cmd) ∧
        (cfg.engine.anchorPrice.toInt + cfg.engine.bandRadius.toNat + 1 ≤ 2 ^ 63 - 1 →
          ∃ g', g.next draw ndebug = .ok (cmd, g')) := by
  obtain ⟨g₀, hnew, hsound₀, hzero⟩ := WorkloadGenerator.new_sound hc hfit rngState
  refine ⟨⟨g₀, hnew⟩, ⟨_, cfg.partition,
    fun g hg => WorkloadGenerator.sampleZipfOffset_eq draw hg⟩, fun n cmds g hrun => ?_⟩
  · rw [generateWorkload, hnew, ok_bind] at hrun
    obtain ⟨hsound, rfl, hcounted⟩ := WorkloadGenerator.take_sound hc hfit n hsound₀ hrun
    rw [hzero] at hcounted
    have hwalks := hsound.walks
    obtain ⟨g₁, g₂, cmd, ρ, mid, counts, hmid, hchoose, hg₂, -, hpicked, heq⟩ :=
      WorkloadGenerator.next_eq draw hc hfit hwalks ndebug
    refine ⟨rfl, hwalks.zipfCdf, ?_, hcounted.from_zero.1, hcounted.from_zero.2, g₁, cmd, g₂,
      hmid, hchoose, hpicked.withinBounds hsound.live_iff, fun cmd' g' hnext => ?_,
      fun hhigh => ?_⟩
    · have hmid := hwalks.mid
      have hlo := hwalks.walkLo
      have hhi := hwalks.walkHi
      omega
    · rw [heq] at hnext
      obtain ⟨_, _, hnext⟩ := bind_eq_ok.mp hnext
      cases hnext
      rfl
    · cases hsound with
      | idle hover _ => exact absurd hhigh (not_le.mpr hover)
      | tracks hacc b h =>
        obtain ⟨cmd', g', hnext, -⟩ := WorkloadGenerator.next_ok draw hacc hfit h ndebug
        rw [heq] at hnext ⊢
        obtain ⟨g₃, happly, hnext⟩ := bind_eq_ok.mp hnext
        exact ⟨g₃, by rw [happly]; rfl⟩

theorem generated_within_bounds_small : ∃ (cmds : List Command)
    (g g' : WorkloadGenerator UInt64) (cmd : Command),
    generateWorkload nextU64 false { engine := ⟨100, 1, 2⟩, walkRadius := 1, maxPriceOffset := 1 }
      1 20 = .ok (cmds, g) ∧ g.next nextU64 false = .ok (cmd, g') ∧
    cmd.WithinBounds { engine := ⟨100, 1, 2⟩, walkRadius := 1, maxPriceOffset := 1 }
      g.engine.book ∧
    g.counts.limits + g.counts.markets + g.counts.iocs + g.counts.cancels = 20 := by
  have hc : WorkloadConfig.Accepted
      { engine := ⟨100, 1, 2⟩, walkRadius := 1, maxPriceOffset := 1 } :=
    { engine := ⟨by decide, by decide, by decide⟩
      high := by decide
      qty := by decide
      crossOneIn := by decide
      walkOneIn := by decide
      maxWalkStep := by decide
      weight := by decide }
  have hfit : WorkloadConfig.Fits
      { engine := ⟨100, 1, 2⟩, walkRadius := 1, maxPriceOffset := 1 } := by
    unfold WorkloadConfig.Fits
    decide
  obtain ⟨g₀, hnew, htracks, -⟩ := WorkloadGenerator.new_ok hc (by decide) (1 : UInt64)
  obtain ⟨cmds, g, _, htake, -⟩ := WorkloadGenerator.take_ok nextU64 hc hfit false 20 htracks
  have hrun : generateWorkload nextU64 false
      { engine := ⟨100, 1, 2⟩, walkRadius := 1, maxPriceOffset := 1 } 1 20 = .ok (cmds, g) := by
    rw [generateWorkload, hnew, ok_bind, htake]
  obtain ⟨-, -, -, hsum, -, -, cmd, -, -, -, hcmd, -, hret⟩ :=
    (generated_within_bounds hc.toAsserted hfit nextU64 1 false).2.2 20 cmds g hrun
  obtain ⟨g', hnext⟩ := hret (by decide)
  exact ⟨cmds, g, g', cmd, hrun, hnext, hcmd, hsum⟩

end LimitOrderBook
