import LimitOrderBook.MatchingEngine
import LimitOrderBook.BookInvariants
import LimitOrderBook.ReplayTool

set_option autoImplicit false

namespace LimitOrderBook
open Checked

structure OpClass where
  byte : UInt8
  deriving DecidableEq, Repr

def OpClass.kLimit : OpClass := ⟨0⟩
def OpClass.kMarket : OpClass := ⟨1⟩
def OpClass.kIoc : OpClass := ⟨2⟩
def OpClass.kCancel : OpClass := ⟨3⟩

def kOpClasses : Nat := 4

def classify (ndebug : Bool) (cmd : Command) : Exec OpClass :=
  if cmd.kind = .kCancel then pure .kCancel
  else if cmd.type = .kLimit then pure .kLimit
  else if cmd.type = .kMarket then pure .kMarket
  else if cmd.type = .kIoc then pure .kIoc
  else if ndebug then pure .kLimit
  else .error (.assertion "validate_commands admitted an unknown OrderType")

/-- The test of the loop of `validate_commands`; the side is not looked at. -/
def Command.bad (cmd : Command) : Bool :=
  (cmd.kind ≠ .kNew ∧ cmd.kind ≠ .kCancel) ∨
    (cmd.kind = .kNew ∧ cmd.type ≠ .kLimit ∧ cmd.type ≠ .kMarket ∧ cmd.type ≠ .kIoc)

/-- The index of the first bad command; `none` is `kAllCommandsValid`. -/
def validateCommands (cmds : List Command) : Option Nat := cmds.findIdx? Command.bad

/-- A limit order that no check of `add` refuses. -/
def Command.CanRest (cmd : Command) : Prop :=
  cmd.kind = .kNew ∧ cmd.type = .kLimit ∧ cmd.qty ≠ 0 ∧ 0 < cmd.priceTicks

instance (cmd : Command) : Decidable cmd.CanRest := inferInstanceAs (Decidable (_ ∧ _))

theorem validateCommands_none {cmds : List Command} : validateCommands cmds = none ↔
    ∀ cmd ∈ cmds, cmd.Known ∧ (cmd.kind = .kNew → cmd.type.Declared) := by
  rw [validateCommands, List.findIdx?_eq_none_iff]
  refine forall₂_congr fun cmd _ => ?_
  simp only [Command.bad, decide_eq_false_iff_not, Command.Known, OrderType.Declared]
  tauto

theorem Command.submits_canRest {cmd : Command} {r : Resting} (h : cmd.op.Submits r) :
    cmd.CanRest ∧ cmd.side = r.side := by
  obtain ⟨hop, hqty, hprice⟩ := h
  unfold Command.op at hop
  split at hop
  · rename_i hk
    rcases hop with he | he
    · obtain ⟨hside, htype, hp, hq⟩ := BookOp.add.inj he
      exact ⟨⟨hk, htype, hq ▸ hqty, hp ▸ hprice⟩, hside⟩
    · cases he
  · rcases hop with he | he <;> cases he

theorem classify_ok {cmd : Command} (hk : cmd.Known) (ht : cmd.kind = .kNew → cmd.type.Declared)
    (ndebug : Bool) : ∃ c, classify ndebug cmd = .ok c ∧ c.byte.toNat < kOpClasses := by
  unfold classify
  rcases hk with hk | hk
  · have hne : ¬ cmd.kind = .kCancel := by
      rw [hk]
      decide
    rw [if_neg hne]
    rcases ht hk with ht | ht | ht
    · exact ⟨.kLimit, by rw [if_pos ht]; rfl, by decide⟩
    · exact ⟨.kMarket, by rw [ht]; rfl, by decide⟩
    · exact ⟨.kIoc, by rw [ht]; rfl, by decide⟩
  · exact ⟨.kCancel, if_pos hk, by decide⟩

/-- The commands the harness admits run through any engine it admits, in debug builds
too. The walk at the end finds nothing when no order that can rest has an undeclared
side; in general it finds nothing exactly when no open order has one. -/
theorem validated_commands_safe {cfg : EngineConfig} (hcfg : validateEngineConfig cfg = .ok ())
    (hhigh : cfg.anchorPrice.toInt + cfg.bandRadius.toNat + 1 ≤ 2 ^ 63 - 1) {cmds : List Command}
    (hcmds : validateCommands cmds = none) (ndebug : Bool) :
    (∀ cmd ∈ cmds, ∃ c, classify ndebug cmd = .ok c ∧ c.byte.toNat < kOpClasses) ∧
    ∃ engine engine' batches, MatchingEngine.new cfg = .ok engine ∧
      engine.processAll ndebug cmds = .ok (engine', batches) ∧
      ((∀ cmd ∈ cmds, cmd.CanRest → cmd.side.Declared) →
        engine'.book.checkInvariants = .ok ()) ∧
      (engine'.book.checkInvariants = .ok () ↔
        ∀ id o, engine'.book.pool.find id = some o → o.side.Declared) := by
  have hall := validateCommands_none.mp hcmds
  obtain ⟨engine, hnew, hrep⟩ := MatchingEngine.new_rep (.of_accepted hcfg hhigh)
  obtain ⟨engine', hrun, hrep', hu⟩ := MatchingEngine.processAll_rep ndebug cmds hrep
    QueueBook.new_uncrossed fun cmd hcmd => (hall cmd hcmd).1
  refine ⟨fun cmd hcmd => classify_ok (hall cmd hcmd).1 (hall cmd hcmd).2 ndebug, engine, engine',
    _,
    hnew, hrun, fun hsides => ?_, hrep'.checkInvariants_iff hu⟩
  refine hrep'.checkInvariants_ok (QueueBook.sidesDeclared_run _
    (QueueBook.new_sidesDeclared cfg.poolCapacity) fun op hop r hr => ?_) hu
  obtain ⟨cmd, hcmd, rfl⟩ := List.mem_map.mp hop
  obtain ⟨hrest, hside⟩ := Command.submits_canRest hr
  exact hside ▸ hsides cmd hcmd hrest

/-- A market order with an undeclared side does no harm. -/
theorem validated_commands_safe_small : ∃ engine engine' batches,
    MatchingEngine.new { anchorPrice := 100, bandRadius := 1, poolCapacity := 2 } = .ok engine ∧
    engine.processAll false
      [⟨.kNew, .kBuy, .kLimit, 0, 3, 100, 0⟩, ⟨.kNew, ⟨7⟩, .kMarket, 0, 2, 0, 0⟩] =
        .ok (engine', batches) ∧ engine'.book.checkInvariants = .ok () := by
  obtain ⟨_, engine, engine', batches, hnew, hrun, hok, _⟩ := @validated_commands_safe
    { anchorPrice := 100, bandRadius := 1, poolCapacity := 2 } (by decide) (by decide)
    [⟨.kNew, .kBuy, .kLimit, 0, 3, 100, 0⟩, ⟨.kNew, ⟨7⟩, .kMarket, 0, 2, 0, 0⟩] (by decide) false
  exact ⟨engine, engine', batches, hnew, hrun, hok (by decide)⟩

/-- A limit order whose side byte is 2 is admitted, rests among the asks, and fails
the walk. -/
theorem validated_commands_unsafe :
    validateEngineConfig { anchorPrice := 100, bandRadius := 1, poolCapacity := 1 } = .ok () ∧
    validateCommands [⟨.kNew, ⟨2⟩, .kLimit, 0, 1, 100, 0⟩] = none ∧
    ∃ engine engine' batches,
      MatchingEngine.new { anchorPrice := 100, bandRadius := 1, poolCapacity := 1 } = .ok engine ∧
      engine.processAll false [⟨.kNew, ⟨2⟩, .kLimit, 0, 1, 100, 0⟩] = .ok (engine', batches) ∧
      engine'.book.checkInvariants = .error (.assertion "order resting on the wrong side") :=
  ⟨by decide, by decide, _, _, _, rfl, rfl, rfl⟩

end LimitOrderBook
