import AccelSimLite.Lib.LastWrite
import AccelSimLite.Simulator.ExactTermination
import AccelSimLite.WorkloadFile.Simulation

/-!
# The commands `run` and `compare`

A model of the two commands of `accelsim_cli` that simulate: the flags, the file and the
run. The flags may set any of four numbers to zero, and the command is then caught in the
loop of `run_workload` for some files.

## Main definitions

- `Flag` — the flags
- `applyFlag`, `parseOptionalFlags` — the two functions
- `simulateFile`, `runCommand`, `compareCommand` — what `main` does for the two commands
- `FlagsRead` — what accepted flags say
- `finalSetting` — the number that they leave for a flag
- `Suffices` — what they leave is enough for a workload

## Main results

- `parseOptionalFlags_eq_ok` — which flags are accepted
- `setting_foldl` — what is set last counts
- `commands_return_iff` — when the commands return
-/

namespace AccelSim

inductive CliError
  /-- What `load_workload_csv` and the conversions of the standard library throw. -/
  | thrown (e : LoadError)
  | unknownFlag (key : List Char)
  | missingValue (flag : List Char)
  /-- What `run_workload` throws. -/
  | simulator (what : String)

/-- The text of the exception, where the program chooses it. -/
def CliError.what : CliError → Option String
  | .thrown e => e.what
  | .unknownFlag key => some ("unknown flag: " ++ String.ofList key)
  | .missingValue flag => some ("missing value for flag: " ++ String.ofList flag)
  | .simulator what => some what

inductive Flag
  | computeUnits
  | memoryPorts
  | dispatchQueue
  | readyQueue
  deriving DecidableEq

def Flag.key : Flag → List Char
  | .computeUnits => "--compute-units".toList
  | .memoryPorts => "--memory-ports".toList
  | .dispatchQueue => "--dispatch-queue".toList
  | .readyQueue => "--ready-queue".toList

/-- The number that a flag sets. -/
def SimulatorConfig.setting (config : SimulatorConfig) : Flag → ℕ
  | .computeUnits => config.computeUnits
  | .memoryPorts => config.memoryPorts
  | .dispatchQueue => config.dispatchQueueCapacity
  | .readyQueue => config.readyQueueCapacity

def SimulatorConfig.set (config : SimulatorConfig) (option : Flag × ℕ) : SimulatorConfig :=
  match option with
  | (.computeUnits, n) => { config with computeUnits := n }
  | (.memoryPorts, n) => { config with memoryPorts := n }
  | (.dispatchQueue, n) => { config with dispatchQueueCapacity := n }
  | (.readyQueue, n) => { config with readyQueueCapacity := n }

/-- The value is converted before the key is looked at. -/
def applyFlag (config : SimulatorConfig) (key value : List Char) :
    Except CliError SimulatorConfig :=
  match stoull value with
  | .error e => .error (.thrown e)
  | .ok parsed =>
    if key = Flag.computeUnits.key then .ok (config.set (.computeUnits, toUint32 parsed))
    else if key = Flag.memoryPorts.key then .ok (config.set (.memoryPorts, toUint32 parsed))
    else if key = Flag.dispatchQueue.key then .ok (config.set (.dispatchQueue, toUint32 parsed))
    else if key = Flag.readyQueue.key then .ok (config.set (.readyQueue, toUint32 parsed))
    else .error (.unknownFlag key)

/-- The arguments from `start_index` on. -/
def parseOptionalFlags (config : SimulatorConfig) : List (List Char) →
    Except CliError SimulatorConfig
  | [] => .ok config
  | [flag] => .error (.missingValue flag)
  | key :: value :: rest =>
    match applyFlag config key value with
    | .error e => .error e
    | .ok config => parseOptionalFlags config rest

/-! ### Accepted flags -/

/-- The arguments are pairs of a flag and a number. -/
inductive FlagsRead : List (List Char) → List (Flag × ℕ) → Prop
  | nil : FlagsRead [] []
  | cons {flag : Flag} {value : List Char} {n : ℕ} {flags : List (List Char)}
      {options : List (Flag × ℕ)} : stoull value = .ok n → FlagsRead flags options →
      FlagsRead (flag.key :: value :: flags) ((flag, toUint32 n) :: options)

theorem applyFlag_eq_ok {config config' : SimulatorConfig} {key value : List Char} :
    applyFlag config key value = .ok config' ↔
      ∃ flag n, key = Flag.key flag ∧ stoull value = .ok n ∧
        config.set (flag, toUint32 n) = config' := by
  constructor
  · intro h
    rw [applyFlag] at h
    split at h
    · cases h
    · rename_i n hvalue
      split_ifs at h with hc hm hd hr <;> cases h
      · exact ⟨.computeUnits, n, hc, hvalue, rfl⟩
      · exact ⟨.memoryPorts, n, hm, hvalue, rfl⟩
      · exact ⟨.dispatchQueue, n, hd, hvalue, rfl⟩
      · exact ⟨.readyQueue, n, hr, hvalue, rfl⟩
  · rintro ⟨flag, n, rfl, hvalue, rfl⟩
    rw [applyFlag, hvalue]
    cases flag <;> rfl

/-- Flags are accepted when they are pairs of a flag and a number, and all of them are set
    one after the other. -/
theorem parseOptionalFlags_eq_ok {config config' : SimulatorConfig} {flags : List (List Char)} :
    parseOptionalFlags config flags = .ok config' ↔
      ∃ options, FlagsRead flags options ∧ options.foldl SimulatorConfig.set config = config' := by
  constructor
  · intro h
    induction config, flags using parseOptionalFlags.induct generalizing config' with
    | case1 config =>
      cases h
      exact ⟨[], .nil, rfl⟩
    | case2 config flag => cases h
    | case3 config key value rest e happly =>
      rw [parseOptionalFlags, happly] at h
      cases h
    | case4 config key value rest next happly ih =>
      rw [parseOptionalFlags, happly] at h
      obtain ⟨options, hread, hfold⟩ := ih h
      obtain ⟨flag, n, rfl, hvalue, rfl⟩ := applyFlag_eq_ok.mp happly
      exact ⟨(flag, toUint32 n) :: options, .cons hvalue hread, hfold⟩
  · rintro ⟨options, hread, rfl⟩
    induction hread generalizing config with
    | nil => rfl
    | @cons flag value n flags options hvalue _ ih =>
      rw [parseOptionalFlags, applyFlag_eq_ok.mpr ⟨flag, n, rfl, hvalue, rfl⟩]
      exact ih

theorem setting_set (config : SimulatorConfig) (option : Flag × ℕ) (flag : Flag) :
    (config.set option).setting flag =
      if flag = option.1 then option.2 else config.setting flag := by
  obtain ⟨other, n⟩ := option
  cases other <;> cases flag <;> rfl

/-- The number that the options leave for a flag. -/
def finalSetting (options : List (Flag × ℕ)) (flag : Flag) : ℕ :=
  (LastWrite.last? options flag).getD (({} : SimulatorConfig).setting flag)

theorem setting_foldl (options : List (Flag × ℕ)) (flag : Flag) :
    (options.foldl SimulatorConfig.set {}).setting flag = finalSetting options flag :=
  LastWrite.get_foldl (fun config => config.setting flag)
    (fun config option => setting_set config option flag) options {}

/-- The widths have no flags. -/
theorem widths_foldl (options : List (Flag × ℕ)) (config : SimulatorConfig) :
    let config' := options.foldl SimulatorConfig.set config
    config'.fetchWidth = config.fetchWidth ∧ config'.decodeWidth = config.decodeWidth ∧
      config'.dispatchWidth = config.dispatchWidth ∧ config'.issueWidth = config.issueWidth := by
  induction options generalizing config with
  | nil => exact ⟨rfl, rfl, rfl, rfl⟩
  | cons option options ih =>
    have hset : ∀ option, (config.set option).fetchWidth = config.fetchWidth ∧
        (config.set option).decodeWidth = config.decodeWidth ∧
        (config.set option).dispatchWidth = config.dispatchWidth ∧
        (config.set option).issueWidth = config.issueWidth := by
      rintro ⟨flag, n⟩
      cases flag <;> exact ⟨rfl, rfl, rfl, rfl⟩
    obtain ⟨hfetch, hdecode, hdispatch, hissue⟩ := hset option
    obtain ⟨hfetch', hdecode', hdispatch', hissue'⟩ := ih (config.set option)
    exact ⟨hfetch'.trans hfetch, hdecode'.trans hdecode, hdispatch'.trans hdispatch,
      hissue'.trans hissue⟩

/-! ### The commands -/

/-- How a command ends when nothing throws. -/
inductive Outcome
  | usage
  | reported (results : List RunResult)

/-- `run_workload` for at most `fuel` cycles, with the name that loading the file has set:
    `none` when work is left then. -/
def simulateFile (stem : List Char → String) (fuel : ℕ) (config : SimulatorConfig)
    (path : List Char) (workload : List Instruction) : Except CliError (Option RunResult) :=
  (runWorkload fuel workload { config with workloadName := stem path }).mapError .simulator

section

variable (readFile : List Char → Option (List Char)) (stem : List Char → String)

def loadFile (path : List Char) : Except CliError (List Instruction) :=
  (loadWorkloadCsv (String.ofList path) (readFile path)).mapError .thrown

/-- The command `run`, with the arguments that follow it: `none` while it is still running. -/
def runCommand (fuel : ℕ) : List (List Char) → Except CliError (Option Outcome)
  | path :: flags => do
    let config ← parseOptionalFlags {} flags
    let workload ← loadFile readFile path
    let result ← simulateFile stem fuel config path workload
    .ok (result.map fun result => .reported [result])
  | [] => .ok (some .usage)

/-- The command `compare`. Both files are loaded before the first of them is run. -/
def compareCommand (fuel : ℕ) : List (List Char) → Except CliError (Option Outcome)
  | left :: right :: flags => do
    let config ← parseOptionalFlags {} flags
    let leftWorkload ← loadFile readFile left
    let rightWorkload ← loadFile readFile right
    match ← simulateFile stem fuel config left leftWorkload with
    | none => .ok none
    | some leftResult => do
      let rightResult ← simulateFile stem fuel config right rightWorkload
      .ok (rightResult.map fun rightResult => .reported [leftResult, rightResult])
  | _ => .ok (some .usage)

end

/-! ### Commands that return -/

/-- The flag that sets the number of the units on which an instruction executes. -/
def unitsFlag (instruction : Instruction) : Flag :=
  if isMemoryOp instruction.type then .memoryPorts else .computeUnits

/-- What the options leave is enough to run the workload. -/
structure Suffices (options : List (Flag × ℕ)) (workload : List Instruction) : Prop where
  units : ∀ i ∈ workload, 1 ≤ finalSetting options (unitsFlag i)
  readyQueue : 1 ≤ finalSetting options .readyQueue
  dispatchQueue : ∀ p, p < workload.length →
    (waiters workload p).card < finalSetting options .dispatchQueue
  acyclic : Acyclic (DependsOn workload)

theorem suffices_iff (options : List (Flag × ℕ)) (workload : List Instruction) (name : String) :
    let config := { options.foldl SimulatorConfig.set {} with workloadName := name }
    Suffices options workload ↔
      config.Serves workload ∧ Acyclic (DependsOn workload) ∧
        ∀ p, p < workload.length →
          (waiters workload p).card < config.dispatchQueueCapacity := by
  intro config
  obtain ⟨hfetch, hdecode, hdispatch, hissue⟩ := widths_foldl options {}
  have hready : config.readyQueueCapacity = finalSetting options .readyQueue :=
    setting_foldl options .readyQueue
  have hqueue : config.dispatchQueueCapacity = finalSetting options .dispatchQueue :=
    setting_foldl options .dispatchQueue
  have hunits : ∀ i : Instruction,
      config.units (isMemoryOp i.type) = finalSetting options (unitsFlag i) := by
    intro i
    rw [unitsFlag, ← setting_foldl]
    cases isMemoryOp i.type <;> rfl
  constructor
  · intro h
    refine ⟨?_, h.acyclic, fun p hp => hqueue ▸ h.dispatchQueue p hp⟩
    constructor
    case fetchWidth => exact hfetch ▸ by decide
    case decodeWidth => exact hdecode ▸ by decide
    case dispatchWidth => exact hdispatch ▸ by decide
    case issueWidth => exact hissue ▸ by decide
    case readyQueueCapacity => exact hready ▸ h.readyQueue
    case units => exact fun i hi => hunits i ▸ h.units i hi
  · rintro ⟨hserves, hac, hroom⟩
    constructor
    case units => exact fun i hi => hunits i ▸ hserves.units i hi
    case readyQueue => exact hready ▸ hserves.readyQueueCapacity
    case dispatchQueue => exact fun p hp => hqueue ▸ hroom p hp
    case acyclic => exact hac

theorem simulateFile_eq_some_iff {stem : List Char → String} {fuel : ℕ}
    {config : SimulatorConfig} {path : List Char} {workload : List Instruction}
    {result : RunResult} :
    simulateFile stem fuel config path workload = .ok (some result) ↔
      runWorkload fuel workload { config with workloadName := stem path } = .ok (some result) := by
  rw [simulateFile]
  cases runWorkload fuel workload { config with workloadName := stem path } <;>
    simp [Except.mapError]

theorem simulateFile_ne_error (stem : List Char → String) (fuel : ℕ) (config : SimulatorConfig)
    (path : List Char) (workload : List Instruction) (e : CliError) :
    simulateFile stem fuel config path workload ≠ .error e := by
  rw [simulateFile]
  cases hrun : runWorkload fuel workload { config with workloadName := stem path } with
  | error what => exact absurd hrun (runWorkload_ne_error fuel workload _ what)
  | ok result => simp [Except.mapError]

section

variable {readFile : List Char → Option (List Char)} {stem : List Char → String}
  {path : List Char} {workload : List Instruction} {options : List (Flag × ℕ)}

theorem loadFile_eq_ok :
    loadFile readFile path = .ok workload ↔
      loadWorkloadCsv (String.ofList path) (readFile path) = .ok workload := by
  rw [loadFile]
  cases loadWorkloadCsv (String.ofList path) (readFile path) <;> simp [Except.mapError]

theorem loadFile_loadedFrom (h : loadFile readFile path = .ok workload) :
    ∃ rows, LoadedFrom rows workload := by
  rw [loadFile_eq_ok] at h
  cases hfile : readFile path with
  | none =>
    rw [hfile] at h
    cases h
  | some content =>
    rw [hfile] at h
    exact ⟨_, loadWorkloadCsv_eq_ok.mp h⟩

/-- From some number of cycles on, a loaded file is simulated to its end, or it never is. -/
theorem simulateFile_returns_iff (stem : List Char → String)
    (hload : loadFile readFile path = .ok workload) :
    (∃ fuel result, simulateFile stem fuel (options.foldl SimulatorConfig.set {}) path workload =
        .ok (some result)) ↔
      workload = [] ∨ Suffices options workload := by
  obtain ⟨rows, hloaded⟩ := loadFile_loadedFrom hload
  simp only [simulateFile_eq_some_iff]
  refine terminates_iff.trans ?_
  rw [exists_exit_iff workload _ hloaded.nodup hloaded.depsNamed]
  exact or_congr_right (suffices_iff options workload (stem path)).symm

theorem simulateFile_mono {config : SimulatorConfig} {fuel fuel' : ℕ} {result : RunResult}
    (h : simulateFile stem fuel config path workload = .ok (some result)) (hle : fuel ≤ fuel') :
    simulateFile stem fuel' config path workload = .ok (some result) := by
  rw [simulateFile_eq_some_iff] at h ⊢
  obtain ⟨k, s, hk, hrun, hexit, hresult⟩ := runWorkload_eq_some_iff.mp h
  exact runWorkload_eq_some_iff.mpr ⟨k, s, hk.trans hle, hrun, hexit, hresult⟩

theorem runCommand_returns_iff (stem : List Char → String) (flags : List (List Char)) :
    (∃ fuel, runCommand readFile stem fuel (path :: flags) ≠ .ok none) ↔
      ∀ options workload, FlagsRead flags options → loadFile readFile path = .ok workload →
        workload = [] ∨ Suffices options workload := by
  simp only [runCommand]
  cases hflags : parseOptionalFlags {} flags with
  | error e =>
    refine iff_of_true ⟨0, fun h => by cases h⟩ fun options workload hread => ?_
    rw [parseOptionalFlags_eq_ok.mpr ⟨options, hread, rfl⟩] at hflags
    cases hflags
  | ok config =>
    cases hload : loadFile readFile path with
    | error e =>
      exact iff_of_true ⟨0, fun h => by cases h⟩ fun options workload _ h => by cases h
    | ok workload =>
      have hreturns : (∃ fuel, (do
            let result ← simulateFile stem fuel config path workload
            .ok (result.map fun result => Outcome.reported [result])) ≠ Except.ok none) ↔
          ∃ fuel result, simulateFile stem fuel config path workload = .ok (some result) := by
        refine exists_congr fun fuel => ?_
        cases hrun : simulateFile stem fuel config path workload with
        | error e => exact absurd hrun (simulateFile_ne_error stem fuel config path workload e)
        | ok result => cases result <;> simp [bind, Except.bind]
      obtain ⟨options, hread, rfl⟩ := parseOptionalFlags_eq_ok.mp hflags
      refine hreturns.trans ?_
      constructor
      · intro h options' workload' hread' hload'
        rw [parseOptionalFlags_eq_ok.mpr ⟨options', hread', rfl⟩, Except.ok.injEq] at hflags
        cases hload'
        rw [← hflags] at h
        exact (simulateFile_returns_iff stem hload).mp h
      · intro h
        exact (simulateFile_returns_iff stem hload).mpr (h options workload hread rfl)

/-- Both files are simulated to their ends exactly when each is. -/
theorem simulateFiles_returns_iff (stem : List Char → String) {left right : List Char}
    {leftWorkload rightWorkload : List Instruction}
    (hleft : loadFile readFile left = .ok leftWorkload)
    (hright : loadFile readFile right = .ok rightWorkload) :
    (∃ fuel,
        (∃ result, simulateFile stem fuel (options.foldl SimulatorConfig.set {}) left
          leftWorkload = .ok (some result)) ∧
        ∃ result, simulateFile stem fuel (options.foldl SimulatorConfig.set {}) right
          rightWorkload = .ok (some result)) ↔
      (leftWorkload = [] ∨ Suffices options leftWorkload) ∧
        (rightWorkload = [] ∨ Suffices options rightWorkload) := by
  rw [← simulateFile_returns_iff stem hleft, ← simulateFile_returns_iff stem hright]
  constructor
  · rintro ⟨fuel, hl, hr⟩
    exact ⟨⟨fuel, hl⟩, ⟨fuel, hr⟩⟩
  · rintro ⟨⟨fuel, l, hl⟩, ⟨fuel', r, hr⟩⟩
    exact ⟨max fuel fuel', ⟨l, simulateFile_mono hl (le_max_left _ _)⟩,
      ⟨r, simulateFile_mono hr (le_max_right _ _)⟩⟩

theorem compareCommand_returns_iff (stem : List Char → String) (left right : List Char)
    (flags : List (List Char)) :
    (∃ fuel, compareCommand readFile stem fuel (left :: right :: flags) ≠ .ok none) ↔
      ∀ options leftWorkload rightWorkload, FlagsRead flags options →
        loadFile readFile left = .ok leftWorkload →
        loadFile readFile right = .ok rightWorkload →
        (leftWorkload = [] ∨ Suffices options leftWorkload) ∧
          (rightWorkload = [] ∨ Suffices options rightWorkload) := by
  simp only [compareCommand]
  cases hflags : parseOptionalFlags {} flags with
  | error e =>
    refine iff_of_true ⟨0, fun h => by cases h⟩ fun options _ _ hread => ?_
    rw [parseOptionalFlags_eq_ok.mpr ⟨options, hread, rfl⟩] at hflags
    cases hflags
  | ok config =>
    cases hleft : loadFile readFile left with
    | error e => exact iff_of_true ⟨0, fun h => by cases h⟩ fun _ _ _ _ h => by cases h
    | ok leftWorkload =>
      cases hright : loadFile readFile right with
      | error e => exact iff_of_true ⟨0, fun h => by cases h⟩ fun _ _ _ _ _ h => by cases h
      | ok rightWorkload =>
        have hreturns : (∃ fuel, (do
              match ← simulateFile stem fuel config left leftWorkload with
              | none => .ok none
              | some leftResult => do
                let rightResult ← simulateFile stem fuel config right rightWorkload
                .ok (rightResult.map fun rightResult =>
                  Outcome.reported [leftResult, rightResult])) ≠ Except.ok none) ↔
            ∃ fuel, (∃ result, simulateFile stem fuel config left leftWorkload =
                .ok (some result)) ∧
              ∃ result, simulateFile stem fuel config right rightWorkload = .ok (some result) := by
          refine exists_congr fun fuel => ?_
          cases hl : simulateFile stem fuel config left leftWorkload with
          | error e => exact absurd hl (simulateFile_ne_error stem fuel config left _ e)
          | ok l =>
            cases hr : simulateFile stem fuel config right rightWorkload with
            | error e => exact absurd hr (simulateFile_ne_error stem fuel config right _ e)
            | ok r => cases l <;> cases r <;> simp [bind, Except.bind]
        obtain ⟨options, hread, rfl⟩ := parseOptionalFlags_eq_ok.mp hflags
        refine hreturns.trans ?_
        constructor
        · intro h options' leftWorkload' rightWorkload' hread' hleft' hright'
          rw [parseOptionalFlags_eq_ok.mpr ⟨options', hread', rfl⟩, Except.ok.injEq] at hflags
          cases hleft'
          cases hright'
          rw [← hflags] at h
          exact (simulateFiles_returns_iff stem hleft hright).mp h
        · intro h
          exact (simulateFiles_returns_iff stem hleft hright).mpr
            (h options leftWorkload rightWorkload hread rfl rfl)

end

/-- **When the commands return.** `run` and `compare` end, with a report or an error, exactly
    when the flags that are accepted, with the files that load, leave units, places in the
    ready queue and room in the dispatch queue for what the files use, and no instruction of
    a file depends on itself. -/
theorem commands_return_iff (readFile : List Char → Option (List Char))
    (stem : List Char → String) (flags : List (List Char)) :
    (∀ path, (∃ fuel, runCommand readFile stem fuel (path :: flags) ≠ .ok none) ↔
      ∀ options workload, FlagsRead flags options → loadFile readFile path = .ok workload →
        workload = [] ∨ Suffices options workload) ∧
    ∀ left right,
      (∃ fuel, compareCommand readFile stem fuel (left :: right :: flags) ≠ .ok none) ↔
        ∀ options leftWorkload rightWorkload, FlagsRead flags options →
          loadFile readFile left = .ok leftWorkload →
          loadFile readFile right = .ok rightWorkload →
          (leftWorkload = [] ∨ Suffices options leftWorkload) ∧
            (rightWorkload = [] ∨ Suffices options rightWorkload) :=
  ⟨fun _ => runCommand_returns_iff stem flags,
    fun left right => compareCommand_returns_iff stem left right flags⟩

end AccelSim
