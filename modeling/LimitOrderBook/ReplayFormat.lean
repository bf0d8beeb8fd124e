import LimitOrderBook.WorkloadGen
import LimitOrderBook.Lib.MemoryImage

/-!
`replay_format.h`: a header and the commands, each as its memory image.
-/

set_option autoImplicit false

namespace LimitOrderBook
open MemoryImage

def CommandType.layout : Layout CommandType :=
  Layout.u8.map CommandType.byte CommandType.mk (fun _ => rfl) (fun _ => rfl)

def Side.layout : Layout Side := Layout.u8.map Side.byte Side.mk (fun _ => rfl) (fun _ => rfl)

def OrderType.layout : Layout OrderType :=
  Layout.u8.map OrderType.byte OrderType.mk (fun _ => rfl) (fun _ => rfl)

def Command.layout : Layout Command :=
  (CommandType.layout.prod (Side.layout.prod (OrderType.layout.prod (Layout.u8.prod
    (Layout.u32.prod (Layout.i64.prod Layout.u64)))))).map
      (fun c => (c.kind, c.side, c.type, c.pad0, c.qty, c.priceTicks, c.orderId))
      (fun (kind, side, type, pad0, qty, priceTicks, orderId) =>
        { kind, side, type, pad0, qty, priceTicks, orderId })
      (fun _ => rfl) (fun _ => rfl)

def EngineConfig.layout : Layout EngineConfig :=
  (Layout.i64.prod (Layout.u32.prod Layout.u32)).map
    (fun c => (c.anchorPrice, c.bandRadius, c.poolCapacity))
    (fun (anchorPrice, bandRadius, poolCapacity) => { anchorPrice, bandRadius, poolCapacity })
    (fun _ => rfl) (fun _ => rfl)

def WorkloadConfig.layout : Layout WorkloadConfig :=
  (EngineConfig.layout.prod (Layout.u64.prod (Layout.u32.prod (Layout.u32.prod (Layout.u32.prod
    (Layout.u32.prod (Layout.u32.prod (Layout.u32.prod (Layout.u32.prod (Layout.u32.prod
      (Layout.u32.prod (Layout.u32.prod (Layout.u32.prod Layout.u32))))))))))))).map
        (fun c => (c.engine, c.seed, c.limitWeight, c.marketWeight, c.iocWeight, c.cancelWeight,
          c.minQty, c.maxQty, c.maxPriceOffset, c.crossOneIn, c.walkOneIn, c.maxWalkStep,
          c.walkRadius, c.pad0))
        (fun (engine, seed, limitWeight, marketWeight, iocWeight, cancelWeight, minQty, maxQty,
            maxPriceOffset, crossOneIn, walkOneIn, maxWalkStep, walkRadius, pad0) =>
          { engine, seed, limitWeight, marketWeight, iocWeight, cancelWeight, minQty, maxQty,
            maxPriceOffset, crossOneIn, walkOneIn, maxWalkStep, walkRadius, pad0 })
        (fun _ => rfl) (fun _ => rfl)

/-- The letters of `LOBRPLY` and a zero byte. -/
def kReplayMagic : Vector UInt8 8 := #v[76, 79, 66, 82, 80, 76, 89, 0]

def kReplayFormatVersion : UInt32 := 1

structure ReplayHeader where
  magic : Vector UInt8 8
  version : UInt32
  pad0 : UInt32
  commandCount : UInt64
  config : WorkloadConfig
  deriving DecidableEq, Repr

def ReplayHeader.layout : Layout ReplayHeader :=
  ((Layout.array 8).prod (Layout.u32.prod (Layout.u32.prod (Layout.u64.prod
    WorkloadConfig.layout)))).map
      (fun h => (h.magic, h.version, h.pad0, h.commandCount, h.config))
      (fun (magic, version, pad0, commandCount, config) =>
        { magic, version, pad0, commandCount, config })
      (fun _ => rfl) (fun _ => rfl)

theorem Command.layout_size : Command.layout.size = 24 := rfl

theorem ReplayHeader.layout_size : ReplayHeader.layout.size = 96 := rfl

inductive ReplayReadError where
  | kNone | kTruncatedHeader | kBadMagic | kUnsupportedVersion | kTruncatedBody | kTrailingBytes
  deriving DecidableEq, Repr

structure ReplayReadResult where
  error : ReplayReadError := .kNone
  config : WorkloadConfig := {}
  commands : List Command := []
  deriving DecidableEq, Repr

def replayImage (pad0 : UInt32) (config : WorkloadConfig) (commands : List Command) : Bytes :=
  ReplayHeader.layout.encode {
    magic := kReplayMagic
    version := kReplayFormatVersion
    pad0
    commandCount := UInt64.ofNat commands.length
    config } ++ Command.layout.encodeAll commands

/-- The bytes a stream that does not fail receives. -/
def writeReplay (config : WorkloadConfig) (commands : List Command) : Bytes :=
  replayImage 0 config commands

def kChunkCommands : Nat := 4096

/-- The loop of `read_replay`: the commands and what is left of the stream, `none`
when a chunk is short. -/
def readBody (remaining : Nat) (rest : Bytes) (commands : List Command) :
    Option (List Command × Bytes) :=
  if remaining = 0 then some (commands, rest)
  else
    let take := min remaining kChunkCommands
    let wantBytes := take * Command.layout.size
    let chunk := rest.take wantBytes
    if chunk.length ≠ wantBytes then none
    else
      readBody (remaining - take) (rest.drop wantBytes)
        (commands ++ Command.layout.decodeAll take chunk)
termination_by remaining
decreasing_by
  simp only [kChunkCommands]
  omega

def readReplay (bytes : Bytes) : ReplayReadResult :=
  let image := bytes.take ReplayHeader.layout.size
  if image.length ≠ ReplayHeader.layout.size then { error := .kTruncatedHeader }
  else
    let hdr := ReplayHeader.layout.decode image
    if hdr.magic ≠ kReplayMagic then { error := .kBadMagic }
    else if hdr.version ≠ kReplayFormatVersion then { error := .kUnsupportedVersion }
    else
      match readBody hdr.commandCount.toNat (bytes.drop ReplayHeader.layout.size) [] with
      | none => { error := .kTruncatedBody, config := hdr.config }
      | some (commands, rest) =>
        if rest ≠ [] then { error := .kTrailingBytes, config := hdr.config }
        else { config := hdr.config, commands }

/-- The chunks add up to one read of the whole body. -/
theorem readBody_eq (remaining : Nat) (rest : Bytes) (commands : List Command) :
    readBody remaining rest commands =
      if remaining * Command.layout.size ≤ rest.length then
        some (commands ++ Command.layout.decodeAll remaining
          (rest.take (remaining * Command.layout.size)),
          rest.drop (remaining * Command.layout.size))
      else none := by
  induction remaining using Nat.strongRecOn generalizing rest commands with
  | ind remaining ih =>
    have hsize := Command.layout_size
    rw [readBody]
    by_cases hz : remaining = 0
    · subst hz
      simp [Layout.decodeAll]
    · rw [if_neg hz]
      have htake : 0 < min remaining kChunkCommands := by
        simp only [kChunkCommands]
        omega
      have hle : min remaining kChunkCommands ≤ remaining := min_le_left _ _
      generalize min remaining kChunkCommands = take at htake hle ⊢
      simp only [List.length_take]
      by_cases hshort : take * Command.layout.size ≤ rest.length
      · rw [if_neg (by omega), ih (remaining - take) (by omega), List.length_drop]
        have hsum : remaining * Command.layout.size =
            take * Command.layout.size + (remaining - take) * Command.layout.size := by
          rw [← Nat.add_mul, Nat.add_sub_cancel' hle]
        by_cases hfit : remaining * Command.layout.size ≤ rest.length
        · have hall := Command.layout.decodeAll_append take (remaining - take)
            (rest.take (remaining * Command.layout.size)) (by rw [List.length_take]; omega)
          rw [Nat.add_sub_cancel' hle, List.take_take, min_eq_left (by omega), List.drop_take,
            show remaining * Command.layout.size - take * Command.layout.size =
              (remaining - take) * Command.layout.size by omega] at hall
          rw [if_pos (by omega), if_pos hfit, hall, List.append_assoc, List.drop_drop, ← hsum]
        · rw [if_neg (by omega), if_neg hfit]
      · have hmono : take * Command.layout.size ≤ remaining * Command.layout.size :=
          Nat.mul_le_mul_right _ hle
        rw [if_pos (by omega), if_neg (by omega)]

/-- What reading does to a file, by the header and the length of the rest. -/
theorem readReplay_eq (bytes : Bytes) :
    readReplay bytes =
      if bytes.length < 96 then { error := .kTruncatedHeader }
      else if (ReplayHeader.layout.decode (bytes.take 96)).magic ≠ kReplayMagic then
        { error := .kBadMagic }
      else if (ReplayHeader.layout.decode (bytes.take 96)).version ≠ kReplayFormatVersion then
        { error := .kUnsupportedVersion }
      else if bytes.length <
          96 + (ReplayHeader.layout.decode (bytes.take 96)).commandCount.toNat * 24 then
        { error := .kTruncatedBody
          config := (ReplayHeader.layout.decode (bytes.take 96)).config }
      else if 96 + (ReplayHeader.layout.decode (bytes.take 96)).commandCount.toNat * 24 <
          bytes.length then
        { error := .kTrailingBytes
          config := (ReplayHeader.layout.decode (bytes.take 96)).config }
      else
        { config := (ReplayHeader.layout.decode (bytes.take 96)).config
          commands := Command.layout.decodeAll
            (ReplayHeader.layout.decode (bytes.take 96)).commandCount.toNat (bytes.drop 96) } := by
  simp only [readReplay, ReplayHeader.layout_size, List.length_take, readBody_eq,
    Command.layout_size, List.length_drop, List.nil_append]
  by_cases hheader : bytes.length < 96
  · rw [if_pos hheader, if_pos (by omega)]
  · rw [if_neg hheader, if_neg (by omega)]
    generalize ReplayHeader.layout.decode (bytes.take 96) = hdr
    split
    · rfl
    · split
      · rfl
      · by_cases hbody : bytes.length < 96 + hdr.commandCount.toNat * 24
        · rw [if_pos hbody, if_neg (by omega)]
        · rw [if_neg hbody, if_pos (by omega)]
          simp only [ne_eq, List.drop_eq_nil_iff, List.length_drop]
          by_cases hmore : 96 + hdr.commandCount.toNat * 24 < bytes.length
          · rw [if_pos hmore, if_pos (by omega)]
          · rw [if_neg hmore, if_neg (by omega), List.take_of_length_le]
            rw [List.length_drop]
            omega

theorem length_image (pad0 : UInt32) (config : WorkloadConfig) (commands : List Command) :
    (ReplayHeader.layout.encode {
      magic := kReplayMagic, version := kReplayFormatVersion, pad0, config
      commandCount := UInt64.ofNat commands.length }).length = 96 ∧
    (Command.layout.encodeAll commands).length = commands.length * 24 :=
  ⟨ReplayHeader.layout.length_encode _, Command.layout.length_encodeAll commands⟩

theorem readReplay_image (pad0 : UInt32) (config : WorkloadConfig) {commands : List Command}
    (h : commands.length < 2 ^ 64) :
    readReplay (replayImage pad0 config commands) = { config, commands } := by
  obtain ⟨hlen, hbody⟩ := length_image pad0 config commands
  have hcount : (UInt64.ofNat commands.length).toNat = commands.length :=
    UInt64.toNat_ofNat_of_lt' h
  rw [readReplay_eq, replayImage, List.length_append, List.take_left' hlen, List.drop_left' hlen,
    ReplayHeader.layout.decode_encode, hlen, hbody]
  simp only [ne_eq, not_true_eq_false, if_false, hcount]
  rw [if_neg (by omega), if_neg (by omega), if_neg (by omega), Command.layout.decodeAll_encodeAll]

/-- An accepted file is such an image. -/
theorem image_of_readReplay {bytes : Bytes} (h : (readReplay bytes).error = .kNone) :
    (readReplay bytes).commands.length < 2 ^ 64 ∧
      ∃ pad0, bytes = replayImage pad0 (readReplay bytes).config (readReplay bytes).commands := by
  rw [readReplay_eq] at h ⊢
  by_cases hheader : bytes.length < 96
  · rw [if_pos hheader] at h
    cases h
  rw [if_neg hheader] at h ⊢
  have hhdr := ReplayHeader.layout.encode_decode (bytes.take 96)
    (by rw [List.length_take, ReplayHeader.layout_size]; omega)
  generalize ReplayHeader.layout.decode (bytes.take 96) = hdr at h hhdr ⊢
  by_cases hmagic : hdr.magic = kReplayMagic
  swap
  · rw [if_pos hmagic] at h
    cases h
  rw [if_neg (not_not.mpr hmagic)] at h ⊢
  by_cases hversion : hdr.version = kReplayFormatVersion
  swap
  · rw [if_pos hversion] at h
    cases h
  rw [if_neg (not_not.mpr hversion)] at h ⊢
  by_cases hshort : bytes.length < 96 + hdr.commandCount.toNat * 24
  · rw [if_pos hshort] at h
    cases h
  rw [if_neg hshort] at h ⊢
  by_cases hlong : 96 + hdr.commandCount.toNat * 24 < bytes.length
  · rw [if_pos hlong] at h
    cases h
  rw [if_neg hlong]
  simp only [Command.layout.length_decodeAll]
  refine ⟨hdr.commandCount.toNat_lt, hdr.pad0, ?_⟩
  rw [replayImage, Command.layout.length_decodeAll, UInt64.ofNat_toNat, ← hmagic, ← hversion,
    Command.layout.encodeAll_decodeAll _ _
      (by rw [List.length_drop, Command.layout_size]; omega), hhdr, List.take_append_drop]

theorem replayImage_pad0 (pad0 : UInt32) (config : WorkloadConfig) (commands : List Command) :
    ((replayImage pad0 config commands).drop 12).take 4 = Layout.u32.encode pad0 := rfl

/-- The reader does not look at the padding of the header: an accepted file is the one
the writer writes exactly when those four bytes are zero. -/
theorem accepted_is_written_iff (bytes : Bytes) (h : (readReplay bytes).error = .kNone) :
    bytes = writeReplay (readReplay bytes).config (readReplay bytes).commands ↔
      (bytes.drop 12).take 4 = [0, 0, 0, 0] := by
  obtain ⟨_, pad0, himage⟩ := image_of_readReplay h
  generalize (readReplay bytes).config = config at himage ⊢
  generalize (readReplay bytes).commands = commands at himage ⊢
  have hzero : Layout.u32.encode 0 = [0, 0, 0, 0] := rfl
  rw [himage, replayImage_pad0, ← hzero]
  constructor
  · intro he
    rw [← replayImage_pad0 pad0 config commands, he]
    rfl
  · intro he
    rw [← Layout.u32.decode_encode pad0, he]
    rfl

theorem accepted_is_written_iff_small :
    let config : WorkloadConfig :=
      { engine := { anchorPrice := 500, bandRadius := 16, poolCapacity := 64 }, seed := 9 }
    let bytes := writeReplay config [⟨.kNew, .kSell, .kIoc, 0, 3, 501, 0⟩,
      ⟨.kCancel, .kBuy, .kLimit, 0, 0, 0, 4294967296⟩]
    (readReplay bytes).error = .kNone ∧
      bytes = writeReplay (readReplay bytes).config (readReplay bytes).commands := by
  intro config bytes
  have hread : readReplay bytes = _ := readReplay_image 0 config (show [
    (⟨.kNew, .kSell, .kIoc, 0, 3, 501, 0⟩ : Command),
    ⟨.kCancel, .kBuy, .kLimit, 0, 0, 0, 4294967296⟩].length < 2 ^ 64 by decide)
  have hok : (readReplay bytes).error = .kNone := by rw [hread]
  exact ⟨hok, (accepted_is_written_iff bytes hok).mpr (replayImage_pad0 0 config _)⟩

/-- A file whose padding holds a one is accepted, and is not the one written. -/
theorem accepted_not_written : (readReplay (replayImage 1 {} [])).error = .kNone ∧
    replayImage 1 {} [] ≠ writeReplay (readReplay (replayImage 1 {} [])).config
      (readReplay (replayImage 1 {} [])).commands := by
  have hread := readReplay_image 1 {} (show ([] : List Command).length < 2 ^ 64 by decide)
  rw [hread]
  exact ⟨rfl, fun he => absurd (congrArg (fun bs => (bs.drop 12).take 4) he) (by decide)⟩

/-- What is written is read back, and what any bytes are read as is determined by their
length, the magic, the version and the count. -/
theorem replay_exact (config : WorkloadConfig) (commands : List Command)
    (hcount : commands.length < 2 ^ 64) (bytes : Bytes) :
    readReplay (writeReplay config commands) = { error := .kNone, config, commands } ∧
    ((readReplay bytes).error ≠ .kNone → (readReplay bytes).commands = []) ∧
    ∃ hdr, hdr = ReplayHeader.layout.decode (bytes.take 96) ∧
      (bytes.length < 96 → (readReplay bytes).error = .kTruncatedHeader) ∧
      (96 ≤ bytes.length → hdr.magic ≠ kReplayMagic → (readReplay bytes).error = .kBadMagic) ∧
      (96 ≤ bytes.length → hdr.magic = kReplayMagic → hdr.version ≠ kReplayFormatVersion →
        (readReplay bytes).error = .kUnsupportedVersion) ∧
      (96 ≤ bytes.length → hdr.magic = kReplayMagic → hdr.version = kReplayFormatVersion →
        (bytes.length < 96 + 24 * hdr.commandCount.toNat →
          (readReplay bytes).error = .kTruncatedBody) ∧
        (96 + 24 * hdr.commandCount.toNat < bytes.length →
          (readReplay bytes).error = .kTrailingBytes) ∧
        (bytes.length = 96 + 24 * hdr.commandCount.toNat → readReplay bytes =
          { error := .kNone, config := hdr.config
            commands := Command.layout.decodeAll hdr.commandCount.toNat (bytes.drop 96) })) := by
  refine ⟨readReplay_image 0 config hcount, ?_, _, rfl, ?_⟩
  · rw [readReplay_eq]
    repeat' split
    all_goals first | exact fun _ => rfl | exact fun h => absurd rfl h
  · rw [readReplay_eq]
    generalize ReplayHeader.layout.decode (bytes.take 96) = hdr
    refine ⟨fun h => by rw [if_pos h], fun h hm => by rw [if_neg (by omega), if_pos hm],
      fun h hm hv => by rw [if_neg (by omega), if_neg (not_not.mpr hm), if_pos hv],
      fun h hm hv => ?_⟩
    rw [if_neg (by omega), if_neg (not_not.mpr hm), if_neg (not_not.mpr hv)]
    exact ⟨fun hs => by rw [if_pos (by omega)],
      fun hl => by rw [if_neg (by omega), if_pos (by omega)],
      fun he => by rw [if_neg (by omega), if_neg (by omega)]⟩

/-- Two commands, and the same file one byte short. -/
theorem replay_exact_small :
    let config : WorkloadConfig :=
      { engine := { anchorPrice := 500, bandRadius := 16, poolCapacity := 64 }, seed := 9 }
    let commands : List Command := [⟨.kNew, .kSell, .kIoc, 0, 3, 501, 0⟩,
      ⟨.kCancel, .kBuy, .kLimit, 0, 0, 0, 4294967296⟩]
    let bytes := (writeReplay config commands).take 143
    readReplay (writeReplay config commands) = { error := .kNone, config, commands } ∧
      (readReplay bytes).error = .kTruncatedBody ∧ (readReplay bytes).commands = [] := by
  intro config commands bytes
  obtain ⟨hround, hempty, hdr, rfl, -, -, -, hbody⟩ :=
    replay_exact config commands (by decide) bytes
  have hshort : (readReplay bytes).error = .kTruncatedBody :=
    (hbody (by decide +kernel) (by decide +kernel) (by decide +kernel)).1 (by decide +kernel)
  exact ⟨hround, hshort, hempty (by rw [hshort]; decide)⟩

end LimitOrderBook
