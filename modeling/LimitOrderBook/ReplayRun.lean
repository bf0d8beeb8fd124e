import LimitOrderBook.ReplayFormat
import LimitOrderBook.ReplayTool
import LimitOrderBook.BandOverhang
import LimitOrderBook.BookInvariants
import LimitOrderBook.KindAssertion

set_option autoImplicit false

namespace LimitOrderBook
open Checked MemoryImage

def ReplayReadError.toCstr : ReplayReadError → String
  | .kNone => "None"
  | .kTruncatedHeader => "TruncatedHeader"
  | .kBadMagic => "BadMagic"
  | .kUnsupportedVersion => "UnsupportedVersion"
  | .kTruncatedBody => "TruncatedBody"
  | .kTrailingBytes => "TrailingBytes"

/-- The checks of `run_replay`: an error, or what it constructs the engine with and
the commands it processes. -/
def admitReplay (path : String) (bytes : Bytes) : Except String (EngineConfig × List Command) :=
  let res := readReplay bytes
  if res.error ≠ .kNone then
    .error ("error: invalid replay file '" ++ path ++ "': " ++ res.error.toCstr ++ "\n")
  else
    match validateEngineConfig res.config.engine with
    | .error why => .error ("error: invalid config in '" ++ path ++ "': " ++ why ++ "\n")
    | .ok () => .ok (res.config.engine, res.commands)

/-- The loop of `run_replay`: the commands it passes to `process`, as far as this returns,
and the engine behind the loop. -/
def MatchingEngine.feed (ndebug : Bool) :
    MatchingEngine → List Command → List Command × Exec MatchingEngine
  | e, [] => ([], .ok e)
  | e, cmd :: cmds =>
    match e.process ndebug cmd with
    | .ok (e, _) => (cmd :: (feed ndebug e cmds).1, (feed ndebug e cmds).2)
    | .error fault => ([cmd], .error fault)

/-- `run_replay` on a file with these bytes, up to its printing: an error before the engine
is constructed, or what is passed to `process` and how the run ends. -/
def runReplay (ndebug : Bool) (path : String) (bytes : Bytes) :
    Except String (List Command × Exec MatchingEngine) := do
  let (cfg, cmds) ← admitReplay path bytes
  match MatchingEngine.new cfg with
  | .error fault => pure ([], .error fault)
  | .ok engine =>
    let (passed, run) := engine.feed ndebug cmds
    pure (passed, do
      let engine ← run
      if !ndebug then engine.book.checkInvariants
      pure engine)

namespace MatchingEngine

variable {ndebug : Bool} {e e' : MatchingEngine} {cmds more : List Command}

theorem feed_cons {events : List Event} {cmd : Command}
    (h : e.process ndebug cmd = .ok (e', events)) (cmds : List Command) :
    e.feed ndebug (cmd :: cmds) = (cmd :: (e'.feed ndebug cmds).1, (e'.feed ndebug cmds).2) := by
  rw [feed, h]

theorem feed_append (more : List Command) : ∀ {e : MatchingEngine} {batches : List (List Event)},
    e.processAll ndebug cmds = .ok (e', batches) →
    e.feed ndebug (cmds ++ more) = (cmds ++ (e'.feed ndebug more).1, (e'.feed ndebug more).2) := by
  induction cmds with
  | nil =>
    intro e batches h
    cases h
    rfl
  | cons cmd cmds ih =>
    intro e batches h
    obtain ⟨⟨e₁, events⟩, hcmd, h⟩ := bind_eq_ok.mp h
    obtain ⟨⟨e₂, rest⟩, hrest, h⟩ := bind_eq_ok.mp h
    cases h
    rw [List.cons_append, feed_cons hcmd, ih hrest]
    rfl

theorem feed_ok {batches : List (List Event)} (h : e.processAll ndebug cmds = .ok (e', batches)) :
    e.feed ndebug cmds = (cmds, .ok e') := by
  have := feed_append [] h
  rwa [List.append_nil, feed, List.append_nil] at this

end MatchingEngine

theorem runReplay_eq {path : String} {bytes : Bytes} {cfg : EngineConfig} {cmds : List Command}
    {engine : MatchingEngine} (h : admitReplay path bytes = .ok (cfg, cmds))
    (hnew : MatchingEngine.new cfg = .ok engine) (ndebug : Bool) :
    runReplay ndebug path bytes = .ok ((engine.feed ndebug cmds).1, do
      let engine ← (engine.feed ndebug cmds).2
      if !ndebug then engine.book.checkInvariants
      pure engine) := by
  rw [runReplay, h]
  change (match MatchingEngine.new cfg with | .error fault => _ | .ok engine => _) = _
  rw [hnew]
  rfl

theorem runReplay_ok {path : String} {bytes : Bytes} {cfg : EngineConfig} {cmds : List Command}
    {engine engine' : MatchingEngine} {batches : List (List Event)} {ndebug : Bool}
    (h : admitReplay path bytes = .ok (cfg, cmds)) (hnew : MatchingEngine.new cfg = .ok engine)
    (hrun : engine.processAll ndebug cmds = .ok (engine', batches))
    (hcheck : engine'.book.checkInvariants = .ok ()) :
    runReplay ndebug path bytes = .ok (cmds, .ok engine') := by
  rw [runReplay_eq h hnew, MatchingEngine.feed_ok hrun]
  simp only [ok_bind, hcheck]
  cases ndebug <;> rfl

section Admitted

variable {path : String} {bytes : Bytes} {ndebug : Bool}

variable (hread : (readReplay bytes).error = .kNone)
  (hvalid : validateEngineConfig (readReplay bytes).config.engine = .ok ())

include hread hvalid

end Admitted

end LimitOrderBook
