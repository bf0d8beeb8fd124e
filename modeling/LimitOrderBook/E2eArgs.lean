import LimitOrderBook.GenerateRun

set_option autoImplicit false

namespace LimitOrderBook

structure E2eOptions where
  file : String := ""
  logPath : String := ""
  warmup : UInt64 := 0
  warmupGiven : Bool := false
  pinCpu : Int32
  csv : Bool := false
  deriving DecidableEq

/-- The defaults, on a machine that reports so many CPUs. -/
def E2eOptions.new (cpus : UInt32) : E2eOptions := { pinCpu := cpus.toInt32 - 1 }

/-- The loop of `parse_args`, with the options and `have_file` so far. -/
def parseArgs : E2eOptions → Bool → List String → Except String E2eOptions
  | opt, haveFile, [] =>
    if haveFile then .ok opt else .error "error: a replay FILE argument is required\n"
  | opt, haveFile, arg :: rest =>
    if arg = "--csv" then parseArgs { opt with csv := true } haveFile rest
    else if arg = "--warmup" ∨ arg = "--pin" ∨ arg = "--log" then
      match rest with
      | [] => .error ("error: " ++ arg ++ " needs a value\n")
      | value :: rest =>
        if arg = "--log" then parseArgs { opt with logPath := value } haveFile rest
        else
          match parseU64 value with
          | none =>
            .error ("error: " ++ arg ++ " expects an unsigned integer, got '" ++ value ++ "'\n")
          | some parsed =>
            if arg = "--warmup" then
              parseArgs { opt with warmup := parsed, warmupGiven := true } haveFile rest
            else if 2 ^ 31 - 1 < parsed.toNat then .error "error: --pin cpu out of range\n"
            else parseArgs { opt with pinCpu := Int32.ofNat parsed.toNat } haveFile rest
    else if arg.toList.head? = some '-' then .error ("error: unknown flag '" ++ arg ++ "'\n")
    else if haveFile then .error "error: exactly one FILE argument\n"
    else parseArgs { opt with file := arg } true rest

/-! Command lines as they are meant. -/

inductive E2eArg where
  | csv
  | log (path : String)
  | warmup (count : String)
  | pin (cpu : String)
  | file (path : String)
  deriving DecidableEq, Repr

namespace E2eArg

def words : E2eArg → List String
  | csv => ["--csv"]
  | log path => ["--log", path]
  | warmup count => ["--warmup", count]
  | pin cpu => ["--pin", cpu]
  | file path => [path]

def Valid : E2eArg → Prop
  | csv | log _ => True
  | warmup count => IsNumeral count ∧ decimalValue count < 2 ^ 64
  | pin cpu => IsNumeral cpu ∧ decimalValue cpu < 2 ^ 31
  | file path => path.toList.head? ≠ some '-'

def isFile : E2eArg → Bool
  | file _ => true
  | _ => false

def set (opt : E2eOptions) : E2eArg → E2eOptions
  | csv => { opt with csv := true }
  | log path => { opt with logPath := path }
  | warmup count => { opt with warmup := UInt64.ofNat (decimalValue count), warmupGiven := true }
  | pin cpu => { opt with pinCpu := Int32.ofNat (decimalValue cpu) }
  | file path => { opt with file := path }

end E2eArg

/-- Arguments that give these words, with one FILE among them or before them, and turn the
one options into the other. -/
structure Spells (ts : List E2eArg) (opt : E2eOptions) (haveFile : Bool) (args : List String)
    (opt' : E2eOptions) : Prop where
  valid : ∀ t ∈ ts, t.Valid
  oneFile : ts.countP E2eArg.isFile + haveFile.toNat = 1
  words : args = ts.flatMap E2eArg.words
  result : opt' = ts.foldl E2eArg.set opt

namespace Spells

variable {ts : List E2eArg} {t : E2eArg} {opt opt' : E2eOptions} {haveFile : Bool}
  {args : List String}

theorem cons (ht : t.Valid) (hno : t.isFile = false)
    (h : Spells ts (t.set opt) haveFile args opt') :
    Spells (t :: ts) opt haveFile (t.words ++ args) opt' where
  valid := List.forall_mem_cons.mpr ⟨ht, h.valid⟩
  oneFile := by rw [List.countP_cons_of_neg (by simp [hno]), h.oneFile]
  words := by rw [List.flatMap_cons, ← h.words]
  result := h.result

theorem consFile {path : String} (hpath : path.toList.head? ≠ some '-')
    (h : Spells ts { opt with file := path } true args opt') :
    Spells (.file path :: ts) opt false (path :: args) opt' where
  valid := List.forall_mem_cons.mpr ⟨hpath, h.valid⟩
  oneFile := by rw [List.countP_cons_of_pos rfl]; exact h.oneFile
  words := by rw [List.flatMap_cons, ← h.words]; rfl
  result := h.result

end Spells

theorem parseArgs_sound {opt opt' : E2eOptions} {haveFile : Bool} {args : List String}
    (h : parseArgs opt haveFile args = .ok opt') : ∃ ts, Spells ts opt haveFile args opt' := by
  fun_induction parseArgs opt haveFile args with
  | case1 opt =>
    cases h
    exact ⟨[], by simp, rfl, rfl, rfl⟩
  | case2 | case4 | case6 | case8 | case10 | case11 => cases h
  | case3 opt haveFile rest ih =>
    obtain ⟨ts, hts⟩ := ih h
    exact ⟨_, hts.cons (t := .csv) trivial rfl⟩
  | case5 opt haveFile path rest _ _ ih =>
    obtain ⟨ts, hts⟩ := ih h
    exact ⟨_, hts.cons (t := .log path) trivial rfl⟩
  | case7 opt haveFile count rest parsed hparse _ _ _ ih =>
    obtain ⟨ts, hts⟩ := ih h
    obtain ⟨hvalue, rfl⟩ := parseU64_eq_some.mp hparse
    exact ⟨_, hts.cons (t := .warmup count) hvalue rfl⟩
  | case9 opt haveFile arg hcsv hflag cpu rest hlog parsed hparse hwarmup hfits ih =>
    obtain ⟨ts, hts⟩ := ih h
    obtain ⟨hvalue, rfl⟩ := parseU64_eq_some.mp hparse
    obtain rfl : arg = "--pin" := by tauto
    rw [UInt64.toNat_ofNat_of_lt' hvalue.2] at hts hfits
    exact ⟨_, hts.cons (t := .pin cpu) ⟨hvalue.1, by omega⟩ rfl⟩
  | case12 opt haveFile path rest _ _ hdash hno ih =>
    obtain ⟨ts, hts⟩ := ih h
    obtain rfl : haveFile = false := Bool.eq_false_iff.mpr hno
    exact ⟨_, hts.consFile hdash⟩

theorem E2eArg.Valid.file_ne {path : String} (h : (E2eArg.file path).Valid) :
    path ≠ "--csv" ∧ ¬ (path = "--warmup" ∨ path = "--pin" ∨ path = "--log") := by
  refine ⟨?_, ?_⟩
  · rintro rfl
    exact h (by decide)
  · rintro (rfl | rfl | rfl) <;> exact h (by decide)

theorem parseArgs_complete (ts : List E2eArg) : ∀ {opt opt' : E2eOptions} {haveFile : Bool}
    {args : List String}, Spells ts opt haveFile args opt' →
    parseArgs opt haveFile args = .ok opt' := by
  induction ts with
  | nil =>
    intro opt opt' haveFile args h
    obtain ⟨-, hfile, rfl, rfl⟩ := h
    cases haveFile with
    | true => rfl
    | false => cases hfile
  | cons t ts ih =>
    intro opt opt' haveFile args h
    obtain ⟨hvalid, hfile, rfl, rfl⟩ := h
    obtain ⟨ht, hts⟩ := List.forall_mem_cons.mp hvalid
    have hrest : t.isFile = false → Spells ts (t.set opt) haveFile (ts.flatMap E2eArg.words)
        ((t :: ts).foldl E2eArg.set opt) := fun hno => by
      rw [List.countP_cons_of_neg (by simp [hno])] at hfile
      exact ⟨hts, hfile, rfl, rfl⟩
    rw [List.flatMap_cons]
    cases t with
    | csv =>
      rw [parseArgs.eq_def]
      exact ih (hrest rfl)
    | log path =>
      rw [parseArgs.eq_def]
      exact ih (hrest rfl)
    | warmup count =>
      simp only [E2eArg.words, List.cons_append, List.nil_append, parseArgs,
        parseU64_eq_some.mpr ⟨ht, rfl⟩]
      exact ih (hrest rfl)
    | pin cpu =>
      have hvalue : IsNumeral cpu ∧ decimalValue cpu < 2 ^ 64 :=
        ⟨ht.1, lt_trans ht.2 (by decide)⟩
      have hexact := UInt64.toNat_ofNat_of_lt' hvalue.2
      have hfits : ¬ 2 ^ 31 - 1 < decimalValue cpu := by
        have := ht.2
        omega
      simp only [E2eArg.words, List.cons_append, List.nil_append, parseArgs,
        parseU64_eq_some.mpr ⟨hvalue, rfl⟩, hexact, if_neg hfits]
      exact ih (hrest rfl)
    | file path =>
      obtain ⟨hcsv, hflag⟩ := E2eArg.Valid.file_ne ht
      rw [List.countP_cons_of_pos rfl] at hfile
      obtain rfl : haveFile = false := by
        cases haveFile with
        | false => rfl
        | true => exact absurd hfile (by simp)
      have hdash : path.toList.head? ≠ some '-' := ht
      rw [parseArgs.eq_def]
      simp only [E2eArg.words, List.cons_append, List.nil_append, if_neg hcsv, if_neg hflag,
        if_neg hdash]
      exact ih ⟨hts, hfile, rfl, rfl⟩

theorem words_injective (ts : List E2eArg) : ∀ {ts' : List E2eArg}, (∀ t ∈ ts, t.Valid) →
    (∀ t ∈ ts', t.Valid) → ts.flatMap E2eArg.words = ts'.flatMap E2eArg.words → ts = ts' := by
  have hsome : ∀ t : E2eArg, t.words ≠ [] := fun t => by cases t <;> simp [E2eArg.words]
  induction ts with
  | nil =>
    intro ts' _ _ h
    cases ts' with
    | nil => rfl
    | cons t ts' => exact absurd (List.append_eq_nil_iff.mp h.symm).1 (hsome t)
  | cons t ts ih =>
    intro ts' hts hts' h
    cases ts' with
    | nil => exact absurd (List.append_eq_nil_iff.mp h).1 (hsome t)
    | cons t' ts' =>
      obtain ⟨ht, hts⟩ := List.forall_mem_cons.mp hts
      obtain ⟨ht', hts'⟩ := List.forall_mem_cons.mp hts'
      rw [List.flatMap_cons, List.flatMap_cons] at h
      have hhead : t = t' ∧ ts.flatMap E2eArg.words = ts'.flatMap E2eArg.words := by
        cases t <;> cases t' <;> simp only [E2eArg.words, List.cons_append, List.nil_append,
          List.cons.injEq, reduceCtorEq, String.reduceEq, false_and, true_and,
          E2eArg.log.injEq, E2eArg.warmup.injEq, E2eArg.pin.injEq, E2eArg.file.injEq] at h ⊢
        all_goals first
          | exact h
          | exact absurd h.1 (E2eArg.Valid.file_ne ht).1
          | exact absurd h.1.symm (E2eArg.Valid.file_ne ht').1
          | exact absurd (by tauto) (E2eArg.Valid.file_ne ht).2
          | exact absurd (by tauto) (E2eArg.Valid.file_ne ht').2
      rw [hhead.1, ih hts hts' hhead.2]

/-- The command lines that `parse_args` accepts are those with one FILE and valid values,
in any order; each can be read in one way only, and the last occurrence of an option
decides. -/
theorem parse_args_exact (opt : E2eOptions) (args : List String) :
    (∀ opt', parseArgs opt false args = .ok opt' ↔ ∃ ts, Spells ts opt false args opt') ∧
      ∀ ts ts' opt' opt'', Spells ts opt false args opt' → Spells ts' opt false args opt'' →
        ts = ts' := by
  refine ⟨fun opt' => ⟨parseArgs_sound, ?_⟩, fun ts ts' opt' opt'' h h' =>
    words_injective ts h.valid h'.valid (h.words.symm.trans h'.words)⟩
  rintro ⟨ts, hts⟩
  exact parseArgs_complete ts hts

/-- The second of two numbers counts. -/
theorem parse_args_exact_small :
    parseArgs (.new 4) false ["--warmup", "9", "f", "--csv", "--warmup", "007"] = .ok
      { file := "f", warmup := 7, warmupGiven := true, pinCpu := 3, csv := true } ∧
    ∀ ts opt', Spells ts (.new 4) false ["--warmup", "9", "f", "--csv", "--warmup", "007"] opt' →
      ts = [.warmup "9", .file "f", .csv, .warmup "007"] := by
  have hline : Spells [.warmup "9", .file "f", .csv, .warmup "007"] (.new 4) false
      ["--warmup", "9", "f", "--csv", "--warmup", "007"]
      { file := "f", warmup := 7, warmupGiven := true, pinCpu := 3, csv := true } := by
    refine ⟨?_, rfl, rfl, rfl⟩
    simp only [List.forall_mem_cons, E2eArg.Valid]
    exact ⟨by decide, by decide, trivial, by decide, by simp⟩
  have hexact := parse_args_exact (.new 4) ["--warmup", "9", "f", "--csv", "--warmup", "007"]
  exact ⟨(hexact.1 _).mpr ⟨_, hline⟩, fun ts opt' h => hexact.2 _ _ _ _ h hline⟩

end LimitOrderBook
