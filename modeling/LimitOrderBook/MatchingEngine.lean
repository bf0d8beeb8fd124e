import LimitOrderBook.QueueRun

set_option autoImplicit false

namespace LimitOrderBook
open Checked

structure EngineStats where
  news : UInt64 := 0
  cancelRequests : UInt64 := 0
  events : UInt64 := 0
  accepted : UInt64 := 0
  rejected : UInt64 := 0
  rejectedUnknownOrder : UInt64 := 0
  rejectedInvalid : UInt64 := 0
  rejectedPoolExhausted : UInt64 := 0
  tradedEvents : UInt64 := 0
  tradedQtyBothSides : UInt64 := 0
  canceled : UInt64 := 0
  deriving DecidableEq, Repr

namespace EngineStats

def onNew (s : EngineStats) : EngineStats := { s with news := s.news + 1 }

def onCancelRequest (s : EngineStats) : EngineStats :=
  { s with cancelRequests := s.cancelRequests + 1 }

def onReject (s : EngineStats) : RejectReason → EngineStats
  | .kUnknownOrder => { s with rejectedUnknownOrder := s.rejectedUnknownOrder + 1 }
  | .kInvalidQty | .kInvalidPrice => { s with rejectedInvalid := s.rejectedInvalid + 1 }
  | .kPoolExhausted => { s with rejectedPoolExhausted := s.rejectedPoolExhausted + 1 }
  | .kNone => s

def onEvent (s : EngineStats) (e : Event) : EngineStats :=
  let s := { s with events := s.events + 1 }
  match e.kind with
  | .kAccepted => { s with accepted := s.accepted + 1 }
  | .kRejected => { s with rejected := s.rejected + 1 }.onReject e.reason
  | .kTraded => { s with
      tradedEvents := s.tradedEvents + 1
      tradedQtyBothSides := s.tradedQtyBothSides + e.qty.toUInt64 }
  | .kCanceled => { s with canceled := s.canceled + 1 }

end EngineStats

structure MatchingEngine where
  book : OrderBook
  stats : EngineStats := {}

namespace MatchingEngine

def new (cfg : EngineConfig) : Exec MatchingEngine := do
  let book ← OrderBook.new cfg.anchorPrice cfg.bandRadius cfg.poolCapacity
  pure { book }

/-- The sink of the book counts every event before it passes it on. -/
def submit (ndebug : Bool) (e : MatchingEngine) (side : Side) (type : OrderType)
    (price : PriceTicks) (qty : Qty) : Exec (OrderId × MatchingEngine × List Event) := do
  let (id, book, events) ← e.book.add ndebug side type price qty
  pure (id, { book, stats := events.foldl EngineStats.onEvent e.stats.onNew }, events)

def cancel (e : MatchingEngine) (id : OrderId) : Exec (Bool × MatchingEngine × List Event) := do
  let (found, book, events) ← e.book.cancel id
  pure (found, { book, stats := events.foldl EngineStats.onEvent e.stats.onCancelRequest }, events)

/-- Any other kind is a corrupted command: an assertion in a debug build, a no-op
in a release build. -/
def process (ndebug : Bool) (e : MatchingEngine) (cmd : Command) :
    Exec (MatchingEngine × List Event) := do
  if cmd.kind = .kNew then
    let (_, e, events) ← e.submit ndebug cmd.side cmd.type cmd.priceTicks cmd.qty
    pure (e, events)
  else if cmd.kind = .kCancel then
    let (_, e, events) ← e.cancel cmd.orderId
    pure (e, events)
  else if ndebug then pure (e, [])
  else .error (.assertion "unknown CommandType")

def processAll (ndebug : Bool) (e : MatchingEngine) :
    List Command → Exec (MatchingEngine × List (List Event))
  | [] => pure (e, [])
  | cmd :: cmds => do
    let (e, events) ← e.process ndebug cmd
    let (e, batches) ← e.processAll ndebug cmds
    pure (e, events :: batches)

end MatchingEngine

def Command.Known (cmd : Command) : Prop := cmd.kind = .kNew ∨ cmd.kind = .kCancel

instance (cmd : Command) : Decidable cmd.Known := inferInstanceAs (Decidable (_ ∨ _))

/-- A known kind, and for a new order declared enumeration values. -/
def Command.Declared (cmd : Command) : Prop :=
  cmd.Known ∧ (cmd.kind = .kNew → cmd.side.Declared ∧ cmd.type.Declared)

instance (cmd : Command) : Decidable cmd.Declared := inferInstanceAs (Decidable (_ ∧ (_ → _)))

def Command.op (cmd : Command) : BookOp :=
  if cmd.kind = .kNew then .add cmd.side cmd.type cmd.priceTicks cmd.qty else .cancel cmd.orderId

def Reply.events : Reply → List Event
  | .minted _ events => events
  | .canceled _ events => events

theorem Command.op_matched (cmd : Command) : cmd.op.Matched := by
  unfold Command.op
  split <;> trivial

theorem Command.Declared.op {cmd : Command} (h : cmd.Declared) : cmd.op.SideDeclared := by
  unfold Command.op
  split
  · exact (h.2 ‹_›).1
  · trivial

namespace MatchingEngine

variable {cfg : EngineConfig} {e : MatchingEngine} {b : QueueBook} {cmd : Command}

theorem process_ok {ndebug : Bool} {book' : OrderBook} {reply : Reply} (hk : cmd.Known)
    (h : e.book.step ndebug cmd.op = .ok (book', reply)) :
    ∃ stats, e.process ndebug cmd = .ok ({ book := book', stats }, reply.events) := by
  unfold Command.op at h
  rcases hk with hk | hk
  · rw [if_pos hk] at h
    obtain ⟨⟨id, book₁, events⟩, hadd, he⟩ := bind_eq_ok.mp h
    cases he
    exact ⟨_, by rw [process, if_pos hk, submit, hadd]; rfl⟩
  · have hne : ¬ cmd.kind = .kNew := by
      rw [hk]
      decide
    rw [if_neg hne] at h
    obtain ⟨⟨found, book₁, events⟩, hcancel, he⟩ := bind_eq_ok.mp h
    cases he
    exact ⟨_, by rw [process, if_neg hne, if_pos hk, cancel, hcancel]; rfl⟩

theorem process_rep (h : BookRep cfg e.book b []) (hu : b.Uncrossed) (hk : cmd.Known)
    (ndebug : Bool) : ∃ e', e.process ndebug cmd = .ok (e', (b.step cmd.op).2.events) ∧
      BookRep cfg e'.book (b.step cmd.op).1 [] ∧ (b.step cmd.op).1.Uncrossed := by
  obtain ⟨book', hstep, hrep, hu'⟩ := h.step_debug hu cmd.op_matched ndebug
  obtain ⟨stats, hrun⟩ := process_ok hk hstep
  exact ⟨_, hrun, hrep, hu'⟩

theorem processAll_rep (ndebug : Bool) (cmds : List Command) : ∀ {e : MatchingEngine}
    {b : QueueBook}, BookRep cfg e.book b [] → b.Uncrossed → (∀ cmd ∈ cmds, cmd.Known) →
    ∃ e', e.processAll ndebug cmds =
        .ok (e', (b.run (cmds.map Command.op)).2.map Reply.events) ∧
      BookRep cfg e'.book (b.run (cmds.map Command.op)).1 [] ∧
      (b.run (cmds.map Command.op)).1.Uncrossed := by
  induction cmds with
  | nil => exact fun h hu _ => ⟨_, rfl, h, hu⟩
  | cons cmd cmds ih =>
    intro e b h hu hk
    obtain ⟨e₁, hrun₁, hrep₁, hu₁⟩ := process_rep h hu (hk cmd (by simp)) ndebug
    obtain ⟨e', hrun, hrep, hu'⟩ := ih hrep₁ hu₁ fun c hc => hk c (by simp [hc])
    exact ⟨e', by simp [processAll, hrun₁, hrun, QueueBook.run], hrep, hu'⟩

theorem new_rep (hc : cfg.Valid) : ∃ e, MatchingEngine.new cfg = .ok e ∧
    BookRep cfg e.book (QueueBook.new cfg.poolCapacity) [] := by
  obtain ⟨book, hnew, hrep⟩ := BookRep.new_rep hc
  exact ⟨{ book }, by rw [MatchingEngine.new, hnew]; rfl, hrep⟩

end MatchingEngine

end LimitOrderBook
