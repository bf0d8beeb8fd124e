import LimitOrderBook.MatchingBench

set_option autoImplicit false

namespace LimitOrderBook
open Checked PriorityQueue

namespace MatchingBench

variable {σ : Type} {D : Driver σ}
  {Rep : Nat → Nat → (OrderId → OrderId) → σ → QueueBook → Prop} {capacity n k : Nat}
  {ρ : OrderId → OrderId} {d d₁ d₂ : σ} {b b' : QueueBook} {side : Side} {op : Op}
  {P Q : List Resting} {script : List Op}

theorem replay_append {xs ys : List Op} {es fs : List Event} (hxs : replay D d xs = .ok (es, d₁))
    (hys : replay D d₁ ys = .ok (fs, d₂)) : replay D d (xs ++ ys) = .ok (es ++ fs, d₂) := by
  induction xs generalizing d es with
  | nil =>
    cases hxs
    exact hys
  | cons op xs ih =>
    obtain ⟨⟨id, events, d'⟩, hadd, hrest⟩ := bind_eq_ok.mp hxs
    obtain ⟨⟨rest, d''⟩, hrun, he⟩ := bind_eq_ok.mp hrest
    cases he
    simp only [List.cons_append, replay, hadd, ok_bind, ih hrun, List.append_assoc]
    rfl

/-- A limit order that nothing in `P` can fill. -/
structure Maker (s : Side) (P : List Resting) (op : Op) : Prop where
  side : op.side = s
  type : op.type = .kLimit
  qty : op.qty ≠ 0
  price : 0 < op.price
  passive : ∀ r ∈ P, ¬ crosses s op.price r.price

theorem price_pos {price : PriceTicks} : 0 < price ↔ 0 < price.toInt := by
  rw [Int64.lt_iff_toInt_lt, Int64.toInt_zero]

/-- The order that submission `n` rests as. -/
def Op.order (op : Op) (n : Nat) : Resting :=
  { id := serial n, price := op.price, qty := op.qty, remaining := op.qty, side := op.side }

def offer (r : Resting) : PriceTicks × Qty := (r.price, r.remaining)

/-- The price is less than `k` ticks from the mid. -/
def Within (k : Nat) (price : PriceTicks) : Prop :=
  kMid.toInt < price.toInt + k ∧ price.toInt < kMid.toInt + k

/-- No order of the book is less than `k` ticks from the mid, or larger than a script makes it. -/
structure Clear (k : Nat) (b : QueueBook) : Prop where
  bids : ∀ r ∈ b.bids, r.price.toInt + k ≤ kMid.toInt
  asks : ∀ r ∈ b.asks, kMid.toInt + k ≤ r.price.toInt
  small : ∀ r ∈ b.resting, r.remaining.toNat ≤ kMaxQty.toNat

theorem Clear.uncrossed (h : Clear k b) (hk : 1 ≤ k) : b.Uncrossed := by
  intro x hx y hy
  have h₁ := h.bids x hx
  have h₂ := h.asks y hy
  rw [Int64.lt_iff_toInt_lt]
  omega

theorem Clear.apart (h : Clear k b) (hside : side.Declared) {price : PriceTicks}
    (hp : Within k price) :
    (∀ r ∈ b.queue side, side.resolve.Better price r.price) ∧
      ∀ r ∈ b.queue side.opposite, ¬ crosses side price r.price := by
  obtain ⟨hlow, hhigh⟩ := hp
  rcases hside with rfl | rfl
  · refine ⟨fun r hr => Side.better_buy.mpr ?_, fun r hr hc => ?_⟩
    · have := h.bids r hr
      omega
    · have := h.asks r hr
      have hle := Int64.le_iff_toInt_le.mp (of_decide_eq_true hc)
      omega
  · refine ⟨fun r hr => (Side.better_of_ne (by decide)).mpr ?_, fun r hr hc => ?_⟩
    · have := h.asks r hr
      omega
    · have := h.bids r hr
      have hle := Int64.le_iff_toInt_le.mp (of_decide_eq_true hc)
      omega

/-- Makers of one side near the mid, and an IOC order that reaches all of them and is
sized to their total. -/
structure Round (k m : Nat) (makers : List Op) (taker : Op) : Prop where
  side : taker.side.Declared
  maker : ∀ op ∈ makers, op.side = taker.side.opposite ∧ op.type = .kLimit ∧ op.qty ≠ 0 ∧
    Within k op.price ∧ crosses taker.side taker.price op.price = true
  sorted : makers.Pairwise
    fun x y => ¬ taker.side.opposite.resolve.Better y.price x.price
  type : taker.type = .kIoc
  price : 0 < taker.price
  qty : taker.qty ≠ 0
  total : taker.qty.toNat = (makers.map fun op => op.qty.toNat).sum
  count : makers.length = m

theorem Round.reached {m : Nat} {makers : List Op} {taker : Op} (hr : Round k m makers taker)
    {M : List Resting} (hM : M.map offer = makers.map fun op => (op.price, op.qty)) :
    ∀ r ∈ M, r.remaining ≠ 0 ∧ crosses taker.side taker.price r.price = true := by
  intro r hmem
  have hoffer : offer r ∈ makers.map fun op => (op.price, op.qty) := hM ▸ List.mem_map_of_mem hmem
  obtain ⟨op, hop, he⟩ := List.mem_map.mp hoffer
  obtain ⟨_, _, hq, _, hc⟩ := hr.maker op hop
  obtain ⟨hpx, hqx⟩ := Prod.mk.inj he
  exact ⟨hqx ▸ hq, hpx ▸ hc⟩

theorem Round.taken {m : Nat} {makers : List Op} {taker : Op} (hr : Round k m makers taker)
    {M : List Resting} (hM : M.map offer = makers.map fun op => (op.price, op.qty)) :
    taker.qty.toNat = (M.map fun r => r.remaining.toNat).sum := by
  have hsum := congrArg (fun L => (L.map fun x : PriceTicks × Qty => x.2.toNat).sum) hM
  simp only [List.map_map] at hsum
  exact hr.total.trans hsum.symm

/-- A script of rounds with `m` makers each. -/
inductive Rounds (k m : Nat) : List Op → Nat → Prop where
  | nil : Rounds k m [] 0
  | round {makers : List Op} {taker : Op} {script : List Op} {r : Nat} :
      Round k m makers taker → Rounds k m script r →
      Rounds k m (makers ++ taker :: script) (r + 1)

theorem Rounds.length {m r : Nat} (h : Rounds k m script r) : script.length = r * (m + 1) := by
  induction h with
  | nil => exact (Nat.zero_mul _).symm
  | round hr _ ih =>
    rw [List.length_append, List.length_cons, ih, hr.count, Nat.succ_mul]
    omega

/-- Events round by round: in each of `r` rounds `m` makers and a taker are accepted, and
the taker fills all of the makers. -/
def Windows (es : List Event) (r m : Nat) : Prop :=
  ∃ windows : List (List Event), windows.flatten = es ∧ windows.length = r ∧
    ∀ w ∈ windows, Flow w (m + 1) (2 * m)

theorem Windows.nil (m : Nat) : Windows [] 0 m :=
  ⟨[], rfl, rfl, fun _ hw => absurd hw List.not_mem_nil⟩

theorem Windows.single {es : List Event} {m : Nat} (h : Flow es (m + 1) (2 * m)) :
    Windows es 1 m :=
  ⟨[es], List.flatten_singleton, rfl, fun _ hw => List.mem_singleton.mp hw ▸ h⟩

theorem Windows.append {es fs : List Event} {r r' m : Nat} (h : Windows es r m)
    (h' : Windows fs r' m) : Windows (es ++ fs) (r + r') m := by
  obtain ⟨ws, rfl, rfl, hws⟩ := h
  obtain ⟨vs, rfl, rfl, hvs⟩ := h'
  refine ⟨ws ++ vs, List.flatten_append, List.length_append, fun w hw => ?_⟩
  rcases List.mem_append.mp hw with hw | hw
  · exact hws w hw
  · exact hvs w hw

structure Background (k : Nat) (op : Op) : Prop where
  type : op.type = .kLimit
  qty : op.qty ≠ 0
  small : op.qty.toNat ≤ kMaxQty.toNat
  positive : 0 < op.price
  outside : op.side = .kBuy ∧ op.price.toInt + k ≤ kMid.toInt ∨
    op.side = .kSell ∧ kMid.toInt + k ≤ op.price.toInt

theorem Background.maker (h : Background k op) (hk : 1 ≤ k) (hclear : Clear k b) :
    Maker op.side (b.queue op.side.opposite) op := by
  refine ⟨rfl, h.type, h.qty, h.positive, ?_⟩
  rcases h.outside with ⟨hs, hp⟩ | ⟨hs, hp⟩
  · rw [hs]
    intro r hr hc
    have := hclear.asks r hr
    have hle := Int64.le_iff_toInt_le.mp (of_decide_eq_true hc)
    omega
  · rw [hs]
    intro r hr hc
    have := hclear.bids r hr
    have hle := Int64.le_iff_toInt_le.mp (of_decide_eq_true hc)
    omega

theorem Background.clear (h : Background k op) (hclear : Clear k b) (n : Nat) :
    Clear k (b.rest (op.order n)) := by
  refine ⟨fun r hr => ?_, fun r hr => ?_, fun r hr => ?_⟩
  · rcases QueueBook.rest_mem (s := .kBuy) hr with ⟨hs, rfl⟩ | hr
    · rcases h.outside with ⟨_, hp⟩ | ⟨hs', _⟩
      · exact hp
      · rw [show (op.order n).side = op.side from rfl, hs'] at hs
        cases hs
    · exact hclear.bids r hr
  · rcases QueueBook.rest_mem (s := .kSell) hr with ⟨hs, rfl⟩ | hr
    · rcases h.outside with ⟨hs', _⟩ | ⟨_, hp⟩
      · rw [show (op.order n).side = op.side from rfl, hs'] at hs
        cases hs
      · exact hp
    · exact hclear.asks r hr
  · rcases List.mem_cons.mp ((QueueBook.rest_perm b _).mem_iff.mp hr) with rfl | hr
    · exact h.small
    · exact hclear.small r hr

theorem Background.valid (h : Background k op) : ¬ (op.qty = 0 ∨ op.price ≤ 0) := by
  have hpos := price_pos.mp h.positive
  rintro (hq | hp)
  · exact h.qty hq
  · have hle := Int64.le_iff_toInt_le.mp hp
    rw [Int64.toInt_zero] at hle
    omega

theorem quote_ok (buy : Bool) {offset : Nat} {qty : Qty} (hoffset : offset ≤ kMaxOffset.toNat)
    (hqty : 1 ≤ qty.toNat) (hsmall : qty.toNat ≤ kMaxQty.toNat) :
    ∃ price, (if buy then subI64 (kMid - 1) (Int64.ofNat offset)
        else addI64 (kMid + 1) (Int64.ofNat offset)) = .ok price ∧
      Background 1 ⟨price, qty, if buy then .kBuy else .kSell, .kLimit⟩ := by
  have hmax : kMaxOffset.toNat = 256 := rfl
  have hmid : kMid.toInt = 100000 := rfl
  have hof : (Int64.ofNat offset).toInt = offset := Int64.toInt_ofNat_of_lt (by omega)
  have hbelow : (kMid - 1).toInt = 99999 := rfl
  have habove : (kMid + 1).toInt = 100001 := rfl
  cases buy with
  | true =>
    have hfit : -2 ^ 63 ≤ (99999 - offset : Int) ∧ (99999 - offset : Int) < 2 ^ 63 := by omega
    have hval := int64_toInt hfit.1 hfit.2
    rw [if_pos rfl, if_pos rfl, subI64, hbelow, hof]
    refine ⟨_, int64_ok hfit.1 hfit.2, rfl, toNat_pos.mp hqty, hsmall, ?_, .inl ⟨rfl, ?_⟩⟩
    · rw [price_pos, hval]
      omega
    · rw [hval]
      omega
  | false =>
    have hfit : -2 ^ 63 ≤ (100001 + offset : Int) ∧ (100001 + offset : Int) < 2 ^ 63 := by omega
    have hval := int64_toInt hfit.1 hfit.2
    rw [if_neg (by decide), if_neg (by decide), addI64, habove, hof]
    refine ⟨_, int64_ok hfit.1 hfit.2, rfl, toNat_pos.mp hqty, hsmall, ?_, .inr ⟨rfl, ?_⟩⟩
    · rw [price_pos, hval]
      omega
    · rw [hval]
      omega

/-- Two books with the same market, whatever ids their orders have. The quantities at a
price are those of the same orders, in 64 bits and in 32. -/
structure SameMarket (fast : OrderBook) (naive : NaiveBook) : Prop where
  bestBid : fast.bestBid = .ok naive.bestBid
  bestAsk : fast.bestAsk = .ok naive.bestAsk
  openOrders : fast.openOrders.toNat = naive.openOrders
  ordersAt : ∀ side p, ∃ n, fast.ordersAt side p = .ok n ∧ n.toNat = naive.ordersAt side p
  qtyAt : ∀ side p, ∃ q, fast.qtyAt side p = .ok q ∧
    (naive.qtyAt side p).toNat = q.toNat % 2 ^ 32
  qtyExact : kMaxQty.toNat * naive.openOrders < 2 ^ 32 → ∀ side p, ∃ q,
    fast.qtyAt side p = .ok q ∧ (naive.qtyAt side p).toNat = q.toNat

theorem Clear.qtyAt_le (h : Clear k b) (s : Side) (p : PriceTicks) :
    b.qtyAt s p ≤ kMaxQty.toNat * b.resting.length := by
  have hsum := List.sum_le_card_nsmul ((b.atPrice s p).map fun r => r.remaining.toNat)
    kMaxQty.toNat fun x hx => by
      obtain ⟨r, hr, rfl⟩ := List.mem_map.mp hx
      exact h.small r (QueueBook.mem_resting.mpr ⟨s, List.mem_of_mem_filter hr⟩)
  rw [List.length_map, smul_eq_mul, Nat.mul_comm] at hsum
  have hlen : (b.atPrice s p).length ≤ b.resting.length := by
    refine le_trans (List.length_filter_le _ _) ?_
    rw [(b.resting_sides s).length_eq, List.length_append]
    exact Nat.le_add_left _ _
  exact le_trans hsum (Nat.mul_le_mul_left _ hlen)

theorem sameMarket_of_rep {capacity m n : Nat} {ρ ρ' : OrderId → OrderId} {fast : BookDriver}
    {naive : NaiveDriver} (hf : fast.Rep capacity m ρ b) (hn : naive.Rep capacity n ρ' b)
    (hclear : Clear k b) : SameMarket fast.book naive.book := by
  obtain ⟨b₀, hrep, hren⟩ := hf.book
  have hqty : ∀ s p, ∃ q, fast.book.qtyAt s p = .ok q ∧ q.toNat = b.qtyAt s p := fun s p => by
    obtain ⟨q, hrun, hsum⟩ := hrep.qtyAt_rep s p
    exact ⟨q, hrun, by rw [hsum, hren.qtyAt]⟩
  refine ⟨?_, ?_, ?_, fun s p => ?_, fun s p => ?_, fun hfew s p => ?_⟩
  · rw [hrep.bestBid_rep, hn.book.bestBid_rep hn.numbered.wf, hren.bids, List.head?_map,
      Option.map_map]
    rfl
  · rw [hrep.bestAsk_rep, hn.book.bestAsk_rep hn.numbered.wf, hren.asks, List.head?_map,
      Option.map_map]
    rfl
  · rw [hrep.openOrders_rep, hn.book.openOrders_rep, hren.resting, List.length_map]
  · obtain ⟨j, hrun, hlen⟩ := hrep.ordersAt_rep s p
    exact ⟨j, hrun, by rw [hlen, hn.book.ordersAt_rep, hren.atPrice, List.length_map]⟩
  · obtain ⟨q, hrun, hsum⟩ := hqty s p
    exact ⟨q, hrun, by rw [hsum, hn.book.qtyAt_rep]⟩
  · obtain ⟨q, hrun, hsum⟩ := hqty s p
    have hle := hclear.qtyAt_le s p
    rw [hn.book.openOrders_rep] at hfew
    exact ⟨q, hrun, by rw [hsum, hn.book.qtyAt_rep, Nat.mod_eq_of_lt (lt_of_le_of_lt hle hfew)]⟩

theorem new_clear (k : Nat) (capacity : UInt32) : Clear k (QueueBook.new capacity) :=
  ⟨fun r hr => (by cases hr), fun r hr => (by cases hr), fun r hr => (by cases hr)⟩

end MatchingBench

end LimitOrderBook
