import LimitOrderBook.MatchingRun

set_option autoImplicit false

namespace LimitOrderBook
open Checked PriorityQueue SwapIndex

namespace BookMicroBench

open MatchingBench (Clear Background SameMarket sameMarket_of_rep)

def kMixedOps : Nat := 2 ^ 16

structure Op where
  price : PriceTicks := 0
  qty : Qty := 0
  victim : UInt32 := 0
  side : Side := .kBuy
  isAdd : Bool := false
  deriving DecidableEq, Repr

def makeAdd (rng : ScriptRng) (cdf : Array Nat) : Exec (Op × ScriptRng) := do
  let (r, rng) ← rng.bounded 2
  let buy : Bool := r = 0
  let (qty, rng) ← randQty rng
  let (offset, rng) ← sampleOffset rng cdf
  let price ← if buy then subI64 (kMid - 1) offset else addI64 (kMid + 1) offset
  pure ({ price, qty, side := if buy then .kBuy else .kSell, isAdd := true }, rng)

def makeAddScript (cdf : Array Nat) : Nat → ScriptRng → Exec (List Op × ScriptRng)
  | 0, rng => pure ([], rng)
  | n + 1, rng => do
    let (op, rng) ← makeAdd rng cdf
    let (script, rng) ← makeAddScript cdf n rng
    pure (op :: script, rng)

/-- The coin is not tossed while nothing is live. -/
def tossCancel (liveCount : Nat) (rng : ScriptRng) : Exec (Bool × ScriptRng) :=
  if 0 < liveCount then do
    let (r, rng) ← rng.bounded 2
    pure (r = 0, rng)
  else pure (false, rng)

def makeMixedScript (cdf : Array Nat) : Nat → Nat → ScriptRng → Exec (List Op × ScriptRng)
  | 0, _, rng => pure ([], rng)
  | ops + 1, liveCount, rng => do
    let (cancels, rng) ← tossCancel liveCount rng
    if cancels then
      let (v, rng) ← rng.bounded liveCount
      let (script, rng) ← makeMixedScript cdf ops (liveCount - 1) rng
      pure ({ victim := UInt32.ofNat v } :: script, rng)
    else
      let (op, rng) ← makeAdd rng cdf
      let (script, rng) ← makeMixedScript cdf ops (liveCount + 1) rng
      pure (op :: script, rng)

section Benches

variable {σ : Type} (D : Driver σ)

def replay : σ → List OrderId → List Op → Exec (σ × List OrderId)
  | d, live, [] => pure (d, live)
  | d, live, op :: script =>
    if op.isAdd then do
      let (id, d) ← D.addLimit d op.side op.price op.qty
      replay d (live ++ [id]) script
    else
      match live[op.victim.toNat]?, live.getLast? with
      | some id, some last => do
        let (ok, d) ← D.cancel d id
        assert ok "scripted cancels always target a live order"
        replay d (live.set op.victim.toNat last).dropLast script
      | _, _ => .error .outOfBounds

/-- A fresh book for each iteration; what the last one ended with stays. -/
def iterate (once : Exec (σ × List OrderId)) :
    Nat → Option (σ × List OrderId) → Exec (Option (σ × List OrderId))
  | 0, last => pure last
  | n + 1, _ => do
    let r ← once
    iterate once n (some r)

def bookAddRest (rng : ScriptRng) (depth iterations : Nat) :
    Exec (Option (σ × List OrderId)) := do
  let (script, _) ← makeAddScript (makeZipfCdf kMaxOffset) depth rng
  iterate (do
    let d ← D.make depth
    replay D d [] script) iterations none

def bmBookAddRest (depth iterations : Nat) : Exec (Option (σ × List OrderId)) :=
  bookAddRest D { state := kSeed } depth iterations

def bookSteadyAddCancel (rng : ScriptRng) (mixedOps depth iterations : Nat) :
    Exec (Option (σ × List OrderId)) := do
  let (prefill, rng) ← makeAddScript (makeZipfCdf kMaxOffset) depth rng
  let (mixed, _) ← makeMixedScript (makeZipfCdf kMaxOffset) mixedOps depth rng
  iterate (do
    let d ← D.make (depth + mixedOps)
    let (d, live) ← replay D d [] prefill
    replay D d live mixed) iterations none

def bmBookSteadyAddCancel (depth iterations : Nat) : Exec (Option (σ × List OrderId)) :=
  bookSteadyAddCancel D { state := kSeed } kMixedOps depth iterations

end Benches

/-! What the scripts are made of. -/

/-- Every add is passive and every victim in range, from `c` live ids to `c'`. -/
inductive Fits : Nat → List Op → Nat → Prop where
  | nil {c : Nat} : Fits c [] c
  | add {c c' : Nat} {op : Op} {script : List Op} : op.isAdd = true →
      Background 1 ⟨op.price, op.qty, op.side, .kLimit⟩ → Fits (c + 1) script c' →
      Fits c (op :: script) c'
  | cancel {c c' : Nat} {op : Op} {script : List Op} : op.isAdd = false → op.victim.toNat < c →
      Fits (c - 1) script c' → Fits c (op :: script) c'

theorem makeAdd_ok (rng : ScriptRng) : ∃ op rng',
    makeAdd rng (makeZipfCdf kMaxOffset) = .ok (op, rng') ∧ op.isAdd = true ∧
      Background 1 ⟨op.price, op.qty, op.side, .kLimit⟩ := by
  obtain ⟨r, rng₁, hr, _⟩ := rng.bounded_ok (show 0 < 2 by decide)
  obtain ⟨qty, rng₂, hq, hpos, hsmall⟩ := randQty_ok rng₁
  obtain ⟨offset, rng₃, ho, hoffset⟩ := sampleOffset_ok rng₂ kMaxOffset
  obtain ⟨price, hp, hback⟩ := MatchingBench.quote_ok (decide (r = 0)) hoffset hpos hsmall
  refine ⟨{ price, qty, side := if decide (r = 0) = true then .kBuy else .kSell, isAdd := true },
    rng₃, ?_, rfl, hback⟩
  simp only [makeAdd, hr, ok_bind, hq, ho]
  by_cases hbuy : decide (r = 0) = true
  · simp only [if_pos hbuy] at hp ⊢
    simp only [hp, ok_bind]
    rfl
  · simp only [if_neg hbuy] at hp ⊢
    simp only [hp, ok_bind]
    rfl

theorem makeAddScript_ok (n : Nat) : ∀ (c : Nat) (rng : ScriptRng), ∃ script rng',
    makeAddScript (makeZipfCdf kMaxOffset) n rng = .ok (script, rng') ∧ script.length = n ∧
      Fits c script (c + n) := by
  induction n with
  | zero => exact fun c rng => ⟨[], rng, rfl, rfl, .nil⟩
  | succ n ih =>
    intro c rng
    obtain ⟨op, rng₁, hop, hadd, hback⟩ := makeAdd_ok rng
    obtain ⟨script, rng', hs, hlen, hfits⟩ := ih (c + 1) rng₁
    refine ⟨op :: script, rng', ?_, by rw [List.length_cons, hlen], .add hadd hback ?_⟩
    · simp only [makeAddScript, hop, ok_bind, hs, pure_eq_ok]
    · rwa [show c + (n + 1) = c + 1 + n by omega]

theorem tossCancel_ok (liveCount : Nat) (rng : ScriptRng) : ∃ cancels rng',
    tossCancel liveCount rng = .ok (cancels, rng') ∧ (cancels = true → 0 < liveCount) := by
  unfold tossCancel
  by_cases hc : 0 < liveCount
  · obtain ⟨r, rng', hr, _⟩ := rng.bounded_ok (show 0 < 2 by decide)
    rw [if_pos hc, hr]
    exact ⟨_, rng', rfl, fun _ => hc⟩
  · rw [if_neg hc]
    exact ⟨false, rng, rfl, fun h => (by cases h)⟩

theorem makeMixedScript_ok (ops : Nat) : ∀ (c : Nat) (rng : ScriptRng), c + ops < 2 ^ 32 →
    ∃ script rng' c', makeMixedScript (makeZipfCdf kMaxOffset) ops c rng = .ok (script, rng') ∧
      script.length = ops ∧ Fits c script c' := by
  induction ops with
  | zero => exact fun c rng _ => ⟨[], rng, c, rfl, rfl, .nil⟩
  | succ ops ih =>
    intro c rng hc
    obtain ⟨cancels, rng₁, htoss, hlive⟩ := tossCancel_ok c rng
    cases cancels with
    | true =>
      obtain ⟨v, rng₂, hv, hlt⟩ := rng₁.bounded_ok (hlive rfl)
      obtain ⟨script, rng', c', hs, hlen, hfits⟩ := ih (c - 1) rng₂ (by omega)
      have hfit : v < 2 ^ 32 := by omega
      have hvictim : (UInt32.ofNat v).toNat < c := by
        rwa [UInt32.toNat_ofNat_of_lt' hfit]
      refine ⟨{ victim := UInt32.ofNat v } :: script, rng', c', ?_,
        by rw [List.length_cons, hlen], .cancel rfl hvictim hfits⟩
      rw [makeMixedScript, htoss, ok_bind]
      simp only [if_true, hv, ok_bind, hs, pure_eq_ok]
    | false =>
      obtain ⟨op, rng₂, hop, hadd, hback⟩ := makeAdd_ok rng₁
      obtain ⟨script, rng', c', hs, hlen, hfits⟩ := ih (c + 1) rng₂ (by omega)
      refine ⟨op :: script, rng', c', ?_, by rw [List.length_cons, hlen], .add hadd hback hfits⟩
      rw [makeMixedScript, htoss, ok_bind]
      simp only [Bool.false_eq_true, if_false, hop, ok_bind, hs, pure_eq_ok]

/-- The live ids are those of the orders in the book, all of them away from the mid. -/
structure Live (n : Nat) (b : QueueBook) (L : List OrderId) : Prop where
  numbered : Numbered n b
  clear : Clear 1 b
  ids : L.Perm (b.resting.map Resting.id)

namespace Live

variable {n : Nat} {b : QueueBook} {L : List OrderId}

theorem empty : Live 0 (QueueBook.new 0) [] :=
  ⟨.empty 0, MatchingBench.new_clear 1 0, .refl _⟩

theorem length (h : Live n b L) : L.length = b.resting.length := by
  rw [h.ids.length_eq, List.length_map]

theorem map_named (h : Live n b L) {ρ ρ' : OrderId → OrderId} {id : OrderId}
    (hnamed : Named n ρ id ρ') : (L ++ [serial (n + 1)]).map ρ' = L.map ρ ++ [id] := by
  rw [List.map_append, List.map_singleton, hnamed.new]
  refine congrArg (· ++ [id]) (List.map_congr_left fun x hx => hnamed.old x ?_)
  obtain ⟨r, hr, rfl⟩ := List.mem_map.mp (h.ids.mem_iff.mp hx)
  exact h.numbered.issued r hr

theorem add (h : Live n b L) (hn : n + 1 < 2 ^ 64) {op : MatchingBench.Op}
    (hop : Background 1 op) :
    Live (n + 1) (b.rest (op.order (n + 1))) (L ++ [serial (n + 1)]) := by
  refine ⟨h.numbered.rest hn rfl, hop.clear h.clear (n + 1), ?_⟩
  have hrest := (QueueBook.rest_perm b (op.order (n + 1))).map Resting.id
  rw [List.map_cons] at hrest
  exact (List.perm_append_singleton _ L).trans ((h.ids.cons _).trans hrest.symm)

theorem victim (h : Live n b L) {v : Nat} (hv : v < L.length) :
    ∃ r ∈ b.resting, L[v]? = some r.id := by
  have hget : L[v]? = some L[v] := List.getElem?_eq_getElem hv
  obtain ⟨r, hr, hid⟩ := List.mem_map.mp (h.ids.mem_iff.mp (List.mem_of_getElem? hget))
  exact ⟨r, hr, hid ▸ hget⟩

theorem remove (h : Live n b L) {r : Resting} (hr : r ∈ b.resting) {v : Nat} {last : OrderId}
    (hv : L[v]? = some r.id) (hlast : L.getLast? = some last) :
    Live n (b.remove r) (L.set v last).dropLast := by
  have hout := QueueBook.resting_remove h.numbered.wf hr
  refine ⟨h.numbered.remove hr, ⟨fun x hx => ?_, fun x hx => ?_, fun x hx => ?_⟩, ?_⟩
  · exact h.clear.bids x ((QueueBook.remove_sublist b r .kBuy).mem hx)
  · exact h.clear.asks x ((QueueBook.remove_sublist b r .kSell).mem hx)
  · exact h.clear.small x (hout.mem_iff.mpr (List.mem_cons_of_mem r hx))
  · have hids := (perm_swapRemove hv hlast).symm.trans (h.ids.trans (hout.map Resting.id))
    exact hids.cons_inv

end Live

theorem getLast_of_lt {L : List OrderId} {v : Nat} (hv : v < L.length) :
    ∃ last, L.getLast? = some last := by
  refine ⟨_, List.getLast?_eq_some_getLast fun he => ?_⟩
  rw [he, List.length_nil] at hv
  exact absurd hv (Nat.not_lt_zero v)

/-- A script on any driver: the vector keeps naming exactly the open orders. -/
theorem replay_ok {c c' : Nat} {script : List Op} (hs : Fits c script c') :
    ∀ {n : Nat} {b : QueueBook} {L : List OrderId}, Live n b L → L.length = c →
    n + script.length < 2 ^ 64 → ∃ n' b' L', n' ≤ n + script.length ∧ Live n' b' L' ∧
      L'.length = c' ∧ ∀ {σ : Type} {D : Driver σ}
        {Rep : Nat → Nat → (OrderId → OrderId) → σ → QueueBook → Prop} {capacity : Nat}
        {ρ : OrderId → OrderId} {d : σ}, D.Plays Rep → Rep capacity n ρ d b →
        c + script.length ≤ capacity →
        ∃ d' ρ', replay D d (L.map ρ) script = .ok (d', L'.map ρ') ∧
          Rep capacity n' ρ' d' b' := by
  induction hs with
  | nil =>
    intro n b L h hc _
    exact ⟨n, b, L, le_refl _, h, hc, fun _ hrep _ => ⟨_, _, rfl, hrep⟩⟩
  | @add c c' op script hadd hback _ ih =>
    intro n b L h hc hn
    rw [List.length_cons] at hn
    have hlive := h.add (by omega) hback
    obtain ⟨n', b', L', hle, hlive', hc', hall⟩ := ih hlive (by
      rw [List.length_append, hc]
      rfl) (by omega)
    refine ⟨n', b', L', by rw [List.length_cons]; omega, hlive', hc', ?_⟩
    intro σ D Rep capacity ρ d hD hrep hroom
    rw [List.length_cons] at hroom
    have hlen := h.length
    obtain ⟨id, d₁, ρ₁, hrun, hnamed, hrep₁⟩ :=
      hD.addLimit op.side hrep (by omega) (by omega) hback.valid
    obtain ⟨d', ρ', hrun', hrep'⟩ := hall hD hrep₁ (by omega)
    rw [h.map_named hnamed] at hrun'
    refine ⟨d', ρ', ?_, hrep'⟩
    simp only [replay, hadd, if_true, hrun, ok_bind, hrun']
  | @cancel c c' op script hadd hvictim _ ih =>
    intro n b L h hc hn
    rw [List.length_cons] at hn
    obtain ⟨r, hr, hv⟩ := h.victim (hc ▸ hvictim)
    obtain ⟨last, hlast⟩ := getLast_of_lt (hc ▸ hvictim)
    have hlive := h.remove hr hv hlast
    obtain ⟨n', b', L', hle, hlive', hc', hall⟩ := ih hlive (by
      rw [List.length_dropLast, List.length_set, hc]) (by omega)
    refine ⟨n', b', L', by rw [List.length_cons]; omega, hlive', hc', ?_⟩
    intro σ D Rep capacity ρ d hD hrep hroom
    rw [List.length_cons] at hroom
    obtain ⟨d₁, hrun, hrep₁⟩ := hD.cancel hrep hr
    obtain ⟨d', ρ', hrun', hrep'⟩ := hall hD hrep₁ (by omega)
    rw [List.map_dropLast, List.map_set] at hrun'
    refine ⟨d', ρ', ?_, hrep'⟩
    simp only [replay, hadd, Bool.false_eq_true, if_false, List.getElem?_map, hv, Option.map_some,
      List.getLast?_map, hlast, hrun, ok_bind, assert_pos, hrun']

theorem iterate_ok {σ : Type} {once : Exec (σ × List OrderId)} {r : σ × List OrderId}
    (h : once = .ok r) (n : Nat) : ∀ last, 0 < n → iterate once n last = .ok (some r) := by
  induction n with
  | zero => exact fun last hn => absurd hn (lt_irrefl 0)
  | succ n ih =>
    intro last _
    rw [iterate, h, ok_bind]
    cases n with
    | zero => rfl
    | succ n =>
      rw [← h]
      exact ih (some r) (Nat.succ_pos n)

/-- The vector holds the ids of exactly the orders the book contains, each once. -/
structure Tracks (contains : OrderId → Bool) (live : List OrderId) : Prop where
  nodup : live.Nodup
  mem : ∀ id, contains id = true ↔ id ∈ live

def SameOrder (fast : OrderBook) (naive : NaiveBook) (fastId naiveId : OrderId) : Prop :=
  ∃ o loc r, fast.pool.find fastId = some o ∧ naive.index[naiveId]? = some loc ∧
    naive.node loc = .ok r ∧ o.priceTicks = r.price ∧ o.qty = r.qty ∧ o.remaining = r.remaining ∧
    o.side = r.side

/-- Both books hold the same market, which nothing has crossed, and both vectors name
exactly their open orders, the same order in the same place. -/
structure Settled (fast : BookDriver × List OrderId) (naive : NaiveDriver × List OrderId) :
    Prop where
  same : SameMarket fast.1.book naive.1.book
  uncrossed : fast.1.book.uncrossed = .ok true
  fastLive : Tracks fast.1.book.contains fast.2
  naiveLive : Tracks naive.1.book.contains naive.2
  aligned : List.Forall₂ (SameOrder fast.1.book naive.1.book) fast.2 naive.2

variable {capacity m n k : Nat} {ρ ρ' : OrderId → OrderId} {b : QueueBook} {L : List OrderId}

theorem tracks_of_perm {ids : List OrderId} {contains : OrderId → Bool} {R : List Resting}
    (hu : UniqueIds R) (hp : ids.Perm (R.map Resting.id))
    (hc : ∀ id, contains id = true ↔ ∃ r ∈ R, r.id = id) : Tracks contains ids where
  nodup := hp.nodup_iff.mpr hu
  mem id := by rw [hc, hp.mem_iff, List.mem_map]

theorem sameOrder_of_rep {fast : BookDriver} {naive : NaiveDriver} (hf : fast.Rep capacity n ρ b)
    (hn : naive.Rep capacity n ρ' b) {r : Resting} (hr : r ∈ b.resting) :
    SameOrder fast.book naive.book (ρ r.id) (ρ' r.id) := by
  obtain ⟨b₀, hrep, hren⟩ := hf.book
  have hsome : b₀.find (ρ r.id) = some (r.rename ρ) :=
    (QueueBook.find_iff hrep.wf).mpr ⟨hren.mem hr, rfl⟩
  have hfind := hrep.find_rep (ρ r.id)
  rw [hsome, Option.map_some] at hfind
  have hstored := hrep.stored _ (hren.mem hr)
  refine ⟨_, r.locator, r, hfind, ?_, hn.book.node_rep hn.numbered.wf hr,
    congrArg Resting.price hstored, congrArg Resting.qty hstored,
    congrArg Resting.remaining hstored, congrArg Resting.side hstored⟩
  rw [hn.names r.id (hn.numbered.issued r hr)]
  exact (hn.book.index.entry _ _).mpr ⟨r, hr, rfl, rfl⟩

theorem settled_of_rep {fast : BookDriver} {naive : NaiveDriver} (hf : fast.Rep capacity n ρ b)
    (hn : naive.Rep capacity n ρ' b) (h : Live n b L) :
    Settled (fast, L.map ρ) (naive, L.map ρ') := by
  obtain ⟨b₀, hrep, hren⟩ := hf.book
  obtain ⟨ok, hok, hiff⟩ := hrep.uncrossed_rep
  have hids : L.map ρ' = L := by
    refine (List.map_congr_left fun x hx => ?_).trans (List.map_id L)
    obtain ⟨r, hr, rfl⟩ := List.mem_map.mp (h.ids.mem_iff.mp hx)
    exact hn.names r.id (hn.numbered.issued r hr)
  have hrenamed : (L.map ρ).Perm (b₀.resting.map Resting.id) := by
    have := h.ids.map ρ
    rwa [List.map_map, show ρ ∘ Resting.id = Resting.id ∘ Resting.rename ρ from rfl,
      ← List.map_map, ← hren.resting] at this
  have haligned : ∀ x ∈ L, SameOrder fast.book naive.book (ρ x) (ρ' x) := by
    intro x hx
    obtain ⟨r, hr, rfl⟩ := List.mem_map.mp (h.ids.mem_iff.mp hx)
    exact sameOrder_of_rep hf hn hr
  refine ⟨sameMarket_of_rep hf hn h.clear, ?_, tracks_of_perm hrep.wf.ids hrenamed fun id => ?_,
    ?_, ?_⟩
  · rw [hok, hiff.mpr (hren.uncrossed (h.clear.uncrossed (le_refl 1)))]
  · rw [hrep.contains_rep, Option.isSome_iff_exists]
    simp only [QueueBook.find_iff hrep.wf]
  · rw [hids]
    exact tracks_of_perm hn.numbered.wf.ids h.ids fun id => hn.book.contains_iff
  · rw [List.forall₂_map_left_iff, List.forall₂_map_right_iff]
    exact List.forall₂_same.mpr haligned

theorem addRest_ends (rng : ScriptRng) {depth iterations : Nat} (hsize : depth < 2 ^ 31)
    (hiter : 0 < iterations) : ∃ n b L, Live n b L ∧ L.length = depth ∧
      ∀ {σ : Type} {D : Driver σ}
        {Rep : Nat → Nat → (OrderId → OrderId) → σ → QueueBook → Prop}, D.Plays Rep →
        ∃ d ρ, bookAddRest D rng depth iterations = .ok (some (d, L.map ρ)) ∧
          Rep depth n ρ d b := by
  obtain ⟨script, rng₁, hscript, hlen, hfits⟩ := makeAddScript_ok depth 0 rng
  rw [Nat.zero_add] at hfits
  obtain ⟨n, b, L, _, hlive, hL, hall⟩ := replay_ok hfits .empty rfl (by omega)
  refine ⟨n, b, L, hlive, hL, ?_⟩
  intro σ D Rep hD
  obtain ⟨d, hmake, hrep⟩ := hD.make hsize
  obtain ⟨d', ρ, hrun, hrep'⟩ := hall hD hrep (by omega)
  rw [List.map_nil] at hrun
  refine ⟨d', ρ, ?_, hrep'⟩
  rw [bookAddRest, hscript, ok_bind]
  exact iterate_ok (by rw [hmake, ok_bind, hrun]) iterations none hiter

theorem steadyAddCancel_ends (rng : ScriptRng) {mixedOps depth iterations : Nat}
    (hsize : depth + mixedOps < 2 ^ 31) (hiter : 0 < iterations) : ∃ n b L, Live n b L ∧
      ∀ {σ : Type} {D : Driver σ}
        {Rep : Nat → Nat → (OrderId → OrderId) → σ → QueueBook → Prop}, D.Plays Rep →
        ∃ d ρ, bookSteadyAddCancel D rng mixedOps depth iterations = .ok (some (d, L.map ρ)) ∧
          Rep (depth + mixedOps) n ρ d b := by
  obtain ⟨prefill, rng₁, hprefill, hlen, hfits⟩ := makeAddScript_ok depth 0 rng
  obtain ⟨mixed, rng₂, c', hmixed, hlen', hfits'⟩ :=
    makeMixedScript_ok mixedOps depth rng₁ (by omega)
  rw [Nat.zero_add] at hfits
  obtain ⟨n₁, b₁, L₁, hn₁, hlive₁, hL₁, hall₁⟩ := replay_ok hfits .empty rfl (by omega)
  obtain ⟨n₂, b₂, L₂, _, hlive₂, _, hall₂⟩ := replay_ok hfits' hlive₁ hL₁ (by omega)
  refine ⟨n₂, b₂, L₂, hlive₂, ?_⟩
  intro σ D Rep hD
  obtain ⟨d, hmake, hrep⟩ := hD.make hsize
  obtain ⟨d₁, ρ₁, hrun₁, hrep₁⟩ := hall₁ hD hrep (by omega)
  obtain ⟨d₂, ρ₂, hrun₂, hrep₂⟩ := hall₂ hD hrep₁ (by omega)
  rw [List.map_nil] at hrun₁
  refine ⟨d₂, ρ₂, ?_, hrep₂⟩
  simp only [bookSteadyAddCancel, hprefill, ok_bind, hmixed]
  exact iterate_ok (by simp only [hmake, ok_bind, hrun₁, hrun₂]) iterations none hiter

/-- Both scenarios run to their end on both books: no add is refused, every victim is in
range and every scripted cancel hits a live order. -/
theorem book_add_cancel_exact (ndebug : Bool) (rng : ScriptRng) (mixedOps depth iterations : Nat)
    (hsize : depth + mixedOps < 2 ^ 31) (hiter : 0 < iterations) :
    (∃ fast naive, bookAddRest (bookDriver ndebug) rng depth iterations = .ok (some fast) ∧
      bookAddRest naiveDriver rng depth iterations = .ok (some naive) ∧
      Settled fast naive ∧ naive.2.length = depth) ∧
    ∃ fast naive,
      bookSteadyAddCancel (bookDriver ndebug) rng mixedOps depth iterations = .ok (some fast) ∧
      bookSteadyAddCancel naiveDriver rng mixedOps depth iterations = .ok (some naive) ∧
      Settled fast naive := by
  have hfast := bookDriver_plays ndebug
  constructor
  · obtain ⟨n, b, L, hlive, hlen, hall⟩ :=
      addRest_ends rng (show depth < 2 ^ 31 by omega) hiter
    obtain ⟨d, ρ, hrun, hrep⟩ := hall hfast
    obtain ⟨e, ρ', hrun', hrep'⟩ := hall naiveDriver_plays
    refine ⟨_, _, hrun, hrun', settled_of_rep hrep hrep' hlive, ?_⟩
    rw [List.length_map, hlen]
  · obtain ⟨n, b, L, hlive, hall⟩ := steadyAddCancel_ends rng hsize hiter
    obtain ⟨d, ρ, hrun, hrep⟩ := hall hfast
    obtain ⟨e, ρ', hrun', hrep'⟩ := hall naiveDriver_plays
    exact ⟨_, _, hrun, hrun', settled_of_rep hrep hrep' hlive⟩

theorem book_add_cancel_exact_small :
    (∃ fast naive, bmBookAddRest (bookDriver false) 65536 10 = .ok (some fast) ∧
      bmBookAddRest naiveDriver 65536 10 = .ok (some naive) ∧
      Settled fast naive ∧ naive.2.length = 65536) ∧
    ∃ fast naive, bmBookSteadyAddCancel (bookDriver false) 65536 10 = .ok (some fast) ∧
      bmBookSteadyAddCancel naiveDriver 65536 10 = .ok (some naive) ∧ Settled fast naive :=
  book_add_cancel_exact false { state := kSeed } kMixedOps 65536 10 (by decide) (by decide)

end BookMicroBench

end LimitOrderBook
