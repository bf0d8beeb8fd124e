import LimitOrderBook.BookRun

set_option autoImplicit false

namespace LimitOrderBook
open Checked PriorityQueue

def BookOp.SideDeclared : BookOp → Prop
  | .add side _ _ _ => side.Declared
  | .addLimit side _ _ => side.Declared
  | .cancel _ => True

def BookOp.Matched : BookOp → Prop
  | .addLimit _ _ _ => False
  | _ => True

/-- The operation submits the order `r`, a limit order that is not refused. -/
def BookOp.Submits (op : BookOp) (r : Resting) : Prop :=
  (op = .add r.side .kLimit r.price r.qty ∨ op = .addLimit r.side r.price r.qty) ∧
    r.qty ≠ 0 ∧ 0 < r.price

theorem BookOp.SideDeclared.submits {op : BookOp} (h : op.SideDeclared) {r : Resting}
    (hr : op.Submits r) : r.side.Declared := by
  rcases hr.1 with rfl | rfl <;> exact h

/-- `r` is the order `r₀`, perhaps with a part of it filled. -/
def Resting.Reduces (r r₀ : Resting) : Prop :=
  r = { r₀ with remaining := r.remaining } ∧ r.remaining.toNat ≤ r₀.remaining.toNat

namespace Resting

variable {r r₀ : Resting}

theorem Reduces.refl (r : Resting) : r.Reduces r := ⟨rfl, le_refl _⟩

theorem Reduces.id (h : r.Reduces r₀) : r.id = r₀.id := by rw [h.1]
theorem Reduces.price (h : r.Reduces r₀) : r.price = r₀.price := by rw [h.1]
theorem Reduces.side (h : r.Reduces r₀) : r.side = r₀.side := by rw [h.1]

end Resting

/-- `M` is what is left of `N` after orders were taken away or reduced. -/
def Shrinks (M N : List Resting) : Prop := List.SublistForall₂ Resting.Reduces M N

namespace Shrinks

variable {M N : List Resting}

theorem of_sublist (h : M.Sublist N) : Shrinks M N :=
  List.sublistForall₂_iff.mpr ⟨M, List.forall₂_same.mpr fun r _ => .refl r, h⟩

theorem refl (M : List Resting) : Shrinks M M := of_sublist (.refl M)

theorem mem (h : Shrinks M N) {r : Resting} (hr : r ∈ M) : ∃ r₀ ∈ N, r.Reduces r₀ := by
  induction h with
  | nil => cases hr
  | cons hred _ ih =>
    rcases List.mem_cons.mp hr with rfl | hr
    · exact ⟨_, by simp, hred⟩
    · obtain ⟨r₀, hmem, hred⟩ := ih hr
      exact ⟨r₀, by simp [hmem], hred⟩
  | cons_right _ ih =>
    obtain ⟨r₀, hmem, hred⟩ := ih hr
    exact ⟨r₀, by simp [hmem], hred⟩

theorem pairwise {R : Resting → Resting → Prop} (h : Shrinks M N)
    (hR : ∀ {a a₀ b b₀ : Resting}, a.Reduces a₀ → b.Reduces b₀ → R a₀ b₀ → R a b)
    (hN : N.Pairwise R) : M.Pairwise R := by
  induction h with
  | nil => exact .nil
  | cons hred hs ih =>
    obtain ⟨hhead, htail⟩ := List.pairwise_cons.mp hN
    refine .cons (fun r hr => ?_) (ih htail)
    obtain ⟨r₀, hmem, hr₀⟩ := mem hs hr
    exact hR hred hr₀ (hhead r₀ hmem)
  | cons_right _ ih => exact ih (List.pairwise_cons.mp hN).2

end Shrinks

section Sweep

variable {side : Side} {limit : PriceTicks} {id : OrderId} {remaining : Qty} {M : List Resting}

theorem sweep_rest_shrinks (M : List Resting) : ∀ {remaining : Qty},
    Shrinks (sweep side limit id remaining M).rest M := by
  intro remaining
  induction remaining, M using sweep_induction side limit with
  | nil => exact .refl []
  | stop remaining m M hstop =>
    rw [sweep_stop hstop]
    exact .refl _
  | filled remaining m M hstop hleft ih =>
    rw [sweep_filled hstop hleft]
    exact .cons_right ih
  | left remaining m M hstop hleft =>
    rw [sweep_left hstop hleft]
    have hle := (toNat_sub_min remaining m.remaining).2
    exact .cons ⟨rfl, by simp only [hle]; omega⟩ (Shrinks.refl M)

theorem not_crosses_behind {m : Resting}
    (hs : Sorted side.opposite.resolve.Better Resting.price (m :: M))
    (hm : ¬ crosses side limit m.price) : ∀ r ∈ m :: M, ¬ crosses side limit r.price := by
  intro r hr
  cases hr with
  | head => exact hm
  | tail _ hr =>
    have hb := hs.head_best r hr
    unfold crosses at hm ⊢
    by_cases hside : side = .kBuy
    · rw [Side.opposite, if_pos hside, Side.better_of_ne (by decide)] at hb
      rw [if_pos hside, decide_eq_true_eq, Int64.le_iff_toInt_le] at hm ⊢
      omega
    · rw [Side.opposite, if_neg hside, show Side.kBuy.resolve = .kBuy from rfl,
        Side.better_buy] at hb
      rw [if_neg hside, decide_eq_true_eq, Int64.le_iff_toInt_le] at hm ⊢
      omega

theorem sweep_rest_far (limit : PriceTicks) (id : OrderId) (M : List Resting) :
    ∀ {remaining : Qty}, Sorted side.opposite.resolve.Better Resting.price M →
    (sweep side limit id remaining M).remaining ≠ 0 →
    ∀ r ∈ (sweep side limit id remaining M).rest, ¬ crosses side limit r.price := by
  intro remaining hs hne
  induction remaining, M using sweep_induction side limit with
  | nil =>
    intro r hr
    cases hr
  | stop remaining m M hstop =>
    rw [sweep_stop hstop] at hne ⊢
    exact not_crosses_behind hs (hstop.resolve_left hne)
  | filled remaining m M hstop hleft ih =>
    rw [sweep_filled hstop hleft] at hne ⊢
    exact ih hs.tail hne
  | left remaining m M hstop hleft =>
    rw [sweep_left hstop hleft] at hne
    exact absurd (left_zero hleft) hne

end Sweep

namespace QueueBook

variable {b b' : QueueBook} {r : Resting} {id : OrderId} {side : Side} {type : OrderType}
  {price : PriceTicks} {qty : Qty} {op : BookOp}

theorem mint_queue (h : b.mint = some (id, b')) (s : Side) : b'.queue s = b.queue s := by
  unfold mint at h
  split at h
  · cases h
  · cases h
    rfl

theorem rest_queue (s : Side) : (b.rest r).queue s =
    if s.isBuy = r.side.isBuy then enqueue r.side.resolve.Better Resting.price r (b.queue r.side)
    else b.queue s := queue_setQueue s

theorem rest_mem {x : Resting} {s : Side} (hx : x ∈ (b.rest r).queue s) :
    (s.isBuy = r.side.isBuy ∧ x = r) ∨ x ∈ b.queue s := by
  rw [rest_queue] at hx
  split at hx
  · rename_i hs
    rw [queue_congr hs]
    exact (mem_enqueue.mp hx).imp (⟨hs, ·⟩) id
  · exact .inr hx

theorem settle_queue_opposite {s t : Side} {x : Sweep} (h : t.isBuy = s.opposite.isBuy) :
    (b.settle s x).queue t = x.rest := by
  rw [settle, queue_release, queue_setQueue, if_pos h]

theorem settle_queue_own {s t : Side} {x : Sweep} (h : t.isBuy ≠ s.opposite.isBuy) :
    (b.settle s x).queue t = b.queue t := by
  rw [settle, queue_release, queue_setQueue, if_neg h]

theorem settle_shrinks (s : Side) (limit : PriceTicks) :
    Shrinks ((b.settle side (sweep side limit id qty (b.queue side.opposite))).queue s)
      (b.queue s) := by
  by_cases hs : s.isBuy = side.opposite.isBuy
  · rw [settle_queue_opposite hs, queue_congr hs]
    exact sweep_rest_shrinks _
  · rw [settle_queue_own hs]
    exact .refl _

theorem isBuy_ne_opposite {s t : Side} (h : s.isBuy = t.isBuy) : s.isBuy ≠ t.opposite.isBuy := by
  rw [h, Side.opposite_isBuy]
  exact (Bool.not_ne_self _).symm

theorem execute_gone (h : (sweep side (takerLimit side type price) id qty
    (b.queue side.opposite)).remaining = 0 ∨ type ≠ .kLimit) :
    (b.execute id side type price qty).1 = (b.settle side (sweep side (takerLimit side type price)
      id qty (b.queue side.opposite))).release [indexOf id] := by
  rw [execute, if_pos h]

theorem execute_rests (h : ¬ ((sweep side (takerLimit side type price) id qty
    (b.queue side.opposite)).remaining = 0 ∨ type ≠ .kLimit)) :
    (b.execute id side type price qty).1 = (b.settle side (sweep side (takerLimit side type price)
      id qty (b.queue side.opposite))).rest
        { id, price, qty, side, remaining := (sweep side (takerLimit side type price) id qty
          (b.queue side.opposite)).remaining } := by
  rw [execute, if_neg h]

theorem execute_queue (s : Side) :
    Shrinks ((b.execute id side type price qty).1.queue s) (b.queue s) ∨
      ∃ r : Resting, r.id = id ∧ r.side = side ∧ type = .kLimit ∧ r.price = price ∧ r.qty = qty ∧
        s.isBuy = side.isBuy ∧ (b.execute id side type price qty).1.queue s =
          enqueue side.resolve.Better Resting.price r (b.queue s) := by
  by_cases hgone : (sweep side (takerLimit side type price) id qty
      (b.queue side.opposite)).remaining = 0 ∨ type ≠ .kLimit
  · rw [execute_gone hgone, queue_release]
    exact .inl (settle_shrinks s _)
  · have htype : type = .kLimit := not_not.mp (not_or.mp hgone).2
    rw [execute_rests hgone, rest_queue]
    split
    · rename_i hs
      refine .inr ⟨{ id, price, qty, side, remaining := (sweep side (takerLimit side type price) id
        qty (b.queue side.opposite)).remaining }, rfl, rfl, htype, rfl, rfl, hs, ?_⟩
      rw [settle_queue_own (isBuy_ne_opposite rfl), queue_congr hs]
    · exact .inl (settle_shrinks s _)

/-- What a step does to a queue: it takes orders away from it, or an order with a
freshly minted id joins it behind all orders that are as good. -/
theorem step_queue (b : QueueBook) (op : BookOp) (s : Side) :
    Shrinks ((b.step op).1.queue s) (b.queue s) ∨
      ∃ r b', b.mint = some (r.id, b') ∧ (b.step op).2.mintedId = r.id ∧ op.Submits r ∧
        s.isBuy = r.side.isBuy ∧ (b.step op).1.queue s =
          enqueue r.side.resolve.Better Resting.price r (b.queue s) := by
  cases op with
  | add side type price qty =>
    simp only [step, add]
    cases hf : refusal type price qty with
    | some reason => exact .inl (.refl _)
    | none =>
      obtain ⟨hqty, hprice⟩ := refusal_none_iff.mp hf
      cases hm : b.mint with
      | none => exact .inl (.refl _)
      | some x =>
        obtain ⟨id, b₁⟩ := x
        simp only [← mint_queue hm s]
        refine (execute_queue s).imp_right ?_
        rintro ⟨r, rfl, rfl, rfl, rfl, rfl, hs, hq⟩
        exact ⟨r, b₁, rfl, rfl, ⟨.inl rfl, hqty, hprice.resolve_left (by decide)⟩, hs, hq⟩
  | addLimit side price qty =>
    simp only [step, addLimit]
    split
    · exact .inl (.refl _)
    · rename_i hok
      obtain ⟨hqty, hprice⟩ := not_or.mp hok
      rw [not_le_toInt, Int64.toInt_zero] at hprice
      cases hm : b.mint with
      | none => exact .inl (.refl _)
      | some x =>
        obtain ⟨id, b₁⟩ := x
        simp only [← mint_queue hm s, rest_queue]
        split
        · rename_i hs
          refine .inr ⟨{ id, price, qty, remaining := qty, side }, b₁, rfl, rfl,
            ⟨.inr rfl, hqty, Int64.lt_iff_toInt_lt.mpr hprice⟩, hs, ?_⟩
          rw [queue_congr hs]
        · exact .inl (.refl _)
  | cancel id =>
    simp only [step, cancel]
    cases b.find id with
    | none => exact .inl (.refl _)
    | some x =>
      simp only [remove, queue_release, queue_setQueue]
      split
      · rename_i hs
        rw [queue_congr hs]
        exact .inl (.of_sublist List.filter_sublist)
      · exact .inl (.refl _)

def SidesDeclared (b : QueueBook) : Prop := ∀ r ∈ b.resting, r.side.Declared

theorem new_sidesDeclared (capacity : UInt32) : (new capacity).SidesDeclared := by
  intro r hr
  cases hr

theorem resting_step {P : Resting → Prop} (hP : ∀ {r r₀ : Resting}, r.Reduces r₀ → P r₀ → P r)
    (h : ∀ r ∈ b.resting, P r) (hop : ∀ r, op.Submits r → P r) :
    ∀ r ∈ (b.step op).1.resting, P r := by
  intro r hr
  obtain ⟨s, hs⟩ := mem_resting.mp hr
  have hold : ∀ {x}, x ∈ b.queue s → P x := fun hx => h _ (mem_resting.mpr ⟨s, hx⟩)
  rcases step_queue b op s with hq | ⟨x, _, _, _, hsub, _, hq⟩
  · obtain ⟨r₀, hmem, hred⟩ := hq.mem hs
    exact hP hred (hold hmem)
  · rw [hq] at hs
    rcases mem_enqueue.mp hs with rfl | hs
    · exact hop r hsub
    · exact hold hs

theorem resting_run {P : Resting → Prop} (hP : ∀ {r r₀ : Resting}, r.Reduces r₀ → P r₀ → P r)
    (ops : List BookOp) : ∀ {b : QueueBook}, (∀ r ∈ b.resting, P r) →
    (∀ op ∈ ops, ∀ r, op.Submits r → P r) → ∀ r ∈ (b.run ops).1.resting, P r := by
  induction ops with
  | nil => exact fun h _ => h
  | cons op ops ih =>
    intro b h hops
    exact ih (resting_step hP h (hops op (by simp))) fun o ho => hops o (by simp [ho])

theorem sidesDeclared_run (ops : List BookOp) {b : QueueBook} (h : b.SidesDeclared)
    (hops : ∀ op ∈ ops, ∀ r, op.Submits r → r.side.Declared) : (b.run ops).1.SidesDeclared :=
  resting_run (fun hred hd => by rwa [hred.side]) ops h hops

theorem uncrossed_iff : b.Uncrossed ↔
    ∀ s, ∀ x ∈ b.queue s, ∀ y ∈ b.queue s.opposite, ¬ crosses s x.price y.price := by
  have hbuy : ∀ {p q : PriceTicks}, ¬ crosses .kBuy p q ↔ p < q := by
    intro p q
    simp only [crosses, if_true, decide_eq_true_eq, not_le_toInt, Int64.lt_iff_toInt_lt]
  have hsell : ∀ {s : Side} {p q : PriceTicks}, s ≠ .kBuy → (¬ crosses s p q ↔ q < p) := by
    intro s p q hs
    simp only [crosses, if_neg hs, decide_eq_true_eq, not_le_toInt, Int64.lt_iff_toInt_lt]
  constructor
  · intro h s x hx y hy
    by_cases hs : s = .kBuy
    · subst hs
      exact hbuy.mpr (h x hx y hy)
    · rw [queue, if_neg hs] at hx
      rw [Side.opposite, if_neg hs] at hy
      exact (hsell hs).mpr (h y hy x hx)
  · exact fun h x hx y hy => hbuy.mp (h .kBuy x hx y hy)

theorem new_uncrossed {capacity : UInt32} : (new capacity).Uncrossed := by
  intro x hx
  cases hx

theorem crosses_congr {s t : Side} (h : s.isBuy = t.isBuy) (p q : PriceTicks) :
    crosses s p q = crosses t p q := by
  have hst : s = .kBuy ↔ t = .kBuy := by simpa [Side.isBuy] using h
  simp only [crosses, hst]

theorem crosses_opposite (s : Side) (p q : PriceTicks) :
    crosses s.opposite p q = crosses s q p := by
  unfold crosses Side.opposite
  by_cases hs : s = .kBuy
  · rw [if_pos hs, if_pos hs, if_neg (by decide)]
  · rw [if_neg hs, if_neg hs, if_pos rfl]

/-- Matching leaves a book uncrossed: what rests is out of reach of what is left. -/
theorem execute_uncrossed (hw : b.WF) (h : b.Uncrossed) :
    (b.execute id side type price qty).1.Uncrossed := by
  have hfar : ∀ {limit}, _ → ∀ r ∈ (sweep side limit id qty (b.queue side.opposite)).rest,
      ¬ crosses side limit r.price :=
    fun {limit} => sweep_rest_far limit id (b.queue side.opposite) (hw.sorted side.opposite)
  rw [uncrossed_iff] at h ⊢
  -- the sweep only takes orders away
  have hsettle : ∀ {limit} (s : Side),
      ∀ x ∈ (b.settle side (sweep side limit id qty (b.queue side.opposite))).queue s,
      ∀ y ∈ (b.settle side (sweep side limit id qty (b.queue side.opposite))).queue s.opposite,
      ¬ crosses s x.price y.price := by
    intro limit s x hx y hy
    obtain ⟨x₀, hx₀, hxr⟩ := (settle_shrinks s limit).mem hx
    obtain ⟨y₀, hy₀, hyr⟩ := (settle_shrinks s.opposite limit).mem hy
    rw [hxr.price, hyr.price]
    exact h s x₀ hx₀ y₀ hy₀
  have hopp : ∀ {s t : Side}, s.isBuy = t.isBuy → s.opposite.isBuy = t.opposite.isBuy := by
    intro s t hst
    rw [Side.opposite_isBuy, Side.opposite_isBuy, hst]
  intro s x hx y hy
  by_cases hrest : (sweep side (takerLimit side type price) id qty
      (b.queue side.opposite)).remaining = 0 ∨ type ≠ .kLimit
  · rw [execute_gone hrest, queue_release] at hx hy
    exact hsettle s x hx y hy
  · rw [execute_rests hrest] at hx hy
    obtain ⟨hne, htype⟩ := not_or.mp hrest
    have hlimit : takerLimit side type price = price := if_pos (by simp [not_not.mp htype]; decide)
    rw [hlimit] at hx hy hne
    rcases rest_mem hx with ⟨hs, rfl⟩ | hx
    · rcases rest_mem hy with ⟨ht, _⟩ | hy
      · exact absurd (hs.trans ht.symm) (isBuy_ne_opposite rfl)
      · rw [crosses_congr hs]
        refine hfar hne y ?_
        rwa [settle_queue_opposite (hopp hs)] at hy
    · rcases rest_mem hy with ⟨ht, rfl⟩ | hy
      · rw [← crosses_opposite, crosses_congr ht]
        refine hfar hne x ?_
        rwa [settle_queue_opposite] at hx
        rw [← hopp ht, Side.opposite_isBuy, Side.opposite_isBuy, Bool.not_not]
      · exact hsettle s x hx y hy

end QueueBook

namespace BookRep

variable {cfg : EngineConfig} {book : OrderBook} {b : QueueBook} {op : BookOp}

theorem step_uncrossed (hf : BookRep cfg book b []) (h : b.Uncrossed) (hop : op.Matched) :
    (b.step op).1.Uncrossed := by
  cases op with
  | add side type price qty =>
    simp only [QueueBook.step, QueueBook.add]
    cases QueueBook.refusal type price qty with
    | some reason => exact h
    | none =>
      cases hm : b.mint with
      | none => exact h
      | some x =>
        obtain ⟨_, hwf, hbids, hasks, _⟩ := mint_some hf hm
        refine QueueBook.execute_uncrossed hwf ?_
        rw [QueueBook.Uncrossed, hbids, hasks]
        exact h
  | addLimit side price qty => exact hop.elim
  | cancel id =>
    rw [QueueBook.uncrossed_iff] at h ⊢
    intro s x hx y hy
    have hold : ∀ {t : Side} {r : Resting}, r ∈ (b.step (.cancel id)).1.queue t →
        ∃ r₀ ∈ b.queue t, r.Reduces r₀ := fun {t r} hr => by
      rcases QueueBook.step_queue b (.cancel id) t with hq | ⟨_, _, _, _, hsub, _⟩
      · exact hq.mem hr
      · rcases hsub.1 with he | he <;> cases he
    obtain ⟨x₀, hx₀, hxr⟩ := hold hx
    obtain ⟨y₀, hy₀, hyr⟩ := hold hy
    rw [hxr.price, hyr.price]
    exact h s x₀ hx₀ y₀ hy₀

theorem step_debug (h : BookRep cfg book b []) (hu : b.Uncrossed) (hop : op.Matched)
    (ndebug : Bool) : ∃ book', book.step ndebug op = .ok (book', (b.step op).2) ∧
      BookRep cfg book' (b.step op).1 [] ∧ (b.step op).1.Uncrossed := by
  have hu' := h.step_uncrossed hu hop
  obtain ⟨book', hstep, hrep⟩ := h.step_rep op
  refine ⟨book', ?_, hrep, hu'⟩
  cases op with
  | add side type price qty =>
    obtain ⟨⟨id, book₁, events⟩, hadd, he⟩ := bind_eq_ok.mp hstep
    cases he
    obtain ⟨ok, hok, hiff⟩ := hrep.uncrossed_rep
    rw [hiff.mpr hu'] at hok
    rw [OrderBook.step, add_debug ndebug hadd hok]
    rfl
  | addLimit side price qty => exact hop.elim
  | cancel id => exact hstep

theorem run_debug (ndebug : Bool) (ops : List BookOp) : ∀ {book : OrderBook} {b : QueueBook},
    BookRep cfg book b [] → b.Uncrossed → (∀ op ∈ ops, op.Matched) →
    ∃ book', book.run ndebug ops = .ok (book', (b.run ops).2) ∧
      BookRep cfg book' (b.run ops).1 [] ∧ (b.run ops).1.Uncrossed := by
  induction ops with
  | nil => exact fun h hu _ => ⟨_, rfl, h, hu⟩
  | cons op ops ih =>
    intro book b h hu hops
    obtain ⟨book₁, hstep, hrep, hu₁⟩ := h.step_debug hu (hops op (by simp)) ndebug
    obtain ⟨book', hrun, hrep', hu'⟩ := ih hrep hu₁ fun o ho => hops o (by simp [ho])
    exact ⟨book', by simp [OrderBook.run, hstep, hrun, QueueBook.run], hrep', hu'⟩

theorem drive_debug (hc : cfg.Valid) (ndebug : Bool) (ops : List BookOp)
    (hops : ∀ op ∈ ops, op.Matched) :
    ∃ book, OrderBook.drive ndebug cfg ops =
        .ok (book, ((QueueBook.new cfg.poolCapacity).run ops).2) ∧
      BookRep cfg book ((QueueBook.new cfg.poolCapacity).run ops).1 [] ∧
      ((QueueBook.new cfg.poolCapacity).run ops).1.Uncrossed := by
  obtain ⟨book₀, hnew, hrep₀⟩ := new_rep hc
  obtain ⟨book, hrun, hrep, hu⟩ := run_debug ndebug ops hrep₀
    QueueBook.new_uncrossed hops
  exact ⟨book, by rw [OrderBook.drive, hnew, ok_bind, hrun], hrep, hu⟩

end BookRep

end LimitOrderBook
