import ChainForge.Lib.Machine
import ChainForge.Lib.Store
import ChainForge.Lib.Text

/-!
# The logger table and the spdlog registry

`modules/logging/src/log_manager.cpp` and the constructor of `logger.cpp`, over a registry that
refuses a name twice.  A registered logger is shared: the registry and the table hold its position in
`objects`.  An exception leaves the state as it is at the throw.  JSON values are arbitrary.

`get_logger` registers the logger it has made, and then makes a `Logger`, whose constructor registers
a logger of its own under the same name.

* `getLogger_throws`        with an empty table, asking for a logger throws, and the table stays empty;
* `loggersAfter_empty`, `request_throws`   **the table is empty in every reachable state**, so that
                            every request for a logger throws;
* `inStep_iff`              asking never throws, and the names of the table are those this module has
                            registered, exactly in the runs in which no logger is asked for.
-/

set_option linter.unusedSectionVars false

namespace ChainForge
namespace Logging
open Text Machine

inductive LogLevel where
  | trace | debug | info | warn | error | critical | off
  deriving DecidableEq, Repr

/-- `spdlog::level::level_enum` -/
inductive SpdlogLevel where
  | trace | debug | info | warn | err | critical | off
  deriving DecidableEq, Repr, Ord

def toSpdlogLevel : LogLevel → SpdlogLevel
  | .trace => .trace
  | .debug => .debug
  | .info => .info
  | .warn => .warn
  | .error => .err
  | .critical => .critical
  | .off => .off

/-- `std::min` -/
def SpdlogLevel.min (a b : SpdlogLevel) : SpdlogLevel := if (compare b a).isLT then b else a

/-- the exceptions of the file system, of a file sink and of the registry -/
inductive LogExn where
  | createDirectories
  | openFile
  | loggerExists (name : Str)
  deriving DecidableEq, Repr

structure LogConfig (J : Type) where
  consoleLevel : LogLevel := .info
  fileLevel : LogLevel := .debug
  logDirectory : Str := str "logs"
  logFilePattern : Str := str "chainforge.log"
  maxFileSize : Nat := 10 * 1024 * 1024
  maxFiles : Nat := 5
  enableJsonFormat : Bool := true
  enableConsoleOutput : Bool := true
  enableFileOutput : Bool := true
  prettyPrintConsole : Bool := false
  prettyPrintFile : Bool := false
  globalFields : List (Str × J) := []

inductive Formatter (J : Type) where
  | pattern (text : String)
  | json (prettyPrint : Bool) (globalFields : List (Str × J))

inductive Target where
  | console
  | rotatingFile (directory file : Str) (maxSize maxFiles : Nat)

structure Sink (J : Type) where
  target : Target
  level : SpdlogLevel := .trace
  formatter : Formatter J := .pattern "%+"

/-! ## spdlog -/

/-- `spdlog::logger` -/
structure SpdlogLogger (J : Type) where
  name : Str
  sinks : List (Sink J)
  level : SpdlogLevel := .info
  flushLevel : SpdlogLevel := .off

/-- an entry of the registry; `own` if it comes from this module -/
structure Registration where
  name : Str
  object : Nat
  own : Bool

structure Spdlog (J : Type) where
  objects : List (SpdlogLogger J)
  registered : List Registration
  globalLevel : SpdlogLevel := .info

namespace Spdlog

variable {J : Type}

def has (r : Spdlog J) (name : Str) : Bool := r.registered.any (·.name == name)

/-- the names registered by this module -/
def ownNames (r : Spdlog J) : List Str := (r.registered.filter (·.own)).map (·.name)

/-- the position of the logger, and the registry with it -/
def registerLogger (r : Spdlog J) (logger : SpdlogLogger J) : Except LogExn (Nat × Spdlog J) :=
  if r.has logger.name then .error (.loggerExists logger.name)
  else .ok (r.objects.length,
    { r with
      objects := r.objects ++ [logger]
      registered := r.registered ++ [⟨logger.name, r.objects.length, true⟩] })

def stdoutColorMt (r : Spdlog J) (name : Str) : Except LogExn (Nat × Spdlog J) :=
  r.registerLogger { name, sinks := [{ target := .console }], level := r.globalLevel }

def modify (r : Spdlog J) (f : SpdlogLogger J → SpdlogLogger J) (object : Nat) : Spdlog J :=
  { r with objects := r.objects.modify object f }

/-- `spdlog::set_level`: all registered loggers, and those to come -/
def setLevel (r : Spdlog J) (level : SpdlogLevel) : Spdlog J :=
  { (r.registered.map (·.object)).foldl (modify · ({ · with level })) r with globalLevel := level }

def shutdown (r : Spdlog J) : Spdlog J := { r with registered := [] }

end Spdlog

/-! ## the manager -/

structure Logger where
  name : Str
  logger : Nat

/-- the constructor -/
def Logger.make {J : Type} (name : Str) (r : Spdlog J) : Except LogExn (Logger × Spdlog J) := do
  let (logger, r) ← r.stdoutColorMt name
  let r := r.modify ({ · with level := .info }) logger
  let pattern := Formatter.pattern "[%Y-%m-%d %H:%M:%S.%e] [%n] [%^%l%$] %v"
  let r := r.modify
    (fun l => { l with sinks := l.sinks.map ({ · with formatter := pattern }) }) logger
  return (⟨name, logger⟩, r)

structure LogManager (J : Type) where
  config : LogConfig J := {}
  initialized : Bool := false
  loggers : UMap Str Logger := ∅
  sinks : List (Sink J) := []
  consoleSink : Option (Sink J) := none
  fileSink : Option (Sink J) := none

/-- what the file system does: whether the directories and the log file can be made -/
structure FileSystem where
  createsDirectories : Bool
  opensFile : Bool

/-- the minimum of console and file level -/
def LogConfig.level {J : Type} (config : LogConfig J) : SpdlogLevel :=
  .min (toSpdlogLevel config.consoleLevel) (toSpdlogLevel config.fileLevel)

def LogConfig.formatter {J : Type} (config : LogConfig J) (prettyPrint : Bool) (pattern : String) :
    Formatter J :=
  if config.enableJsonFormat then .json prettyPrint config.globalFields else .pattern pattern

def LogManager.createSinks {J : Type} (m : LogManager J) (opensFile : Bool) :
    Option LogExn × LogManager J :=
  let m := { m with sinks := [] }
  let m :=
    if m.config.enableConsoleOutput then
      let sink : Sink J :=
        { target := .console
          level := toSpdlogLevel m.config.consoleLevel
          formatter := m.config.formatter m.config.prettyPrintConsole
            "[%Y-%m-%d %H:%M:%S.%e] [%n] [%^%l%$] %v" }
      { m with consoleSink := some sink, sinks := m.sinks ++ [sink] }
    else m
  if m.config.enableFileOutput then
    if opensFile then
      let sink : Sink J :=
        { target := .rotatingFile m.config.logDirectory m.config.logFilePattern
            m.config.maxFileSize m.config.maxFiles
          level := toSpdlogLevel m.config.fileLevel
          formatter := m.config.formatter m.config.prettyPrintFile
            "[%Y-%m-%d %H:%M:%S.%e] [%n] [%l] %v" }
      (none, { m with fileSink := some sink, sinks := m.sinks ++ [sink] })
    else (some .openFile, m)
  else (none, m)

/-- the manager, with the registry it works on -/
structure Process (J : Type) where
  manager : LogManager J
  spdlog : Spdlog J

namespace Process

variable {J : Type}

/-- `LogManager::initialize` -/
def initializeConfig (p : Process J) (config : LogConfig J) (fs : FileSystem) :
    Option LogExn × Process J :=
  let m := { p.manager with config }
  if config.enableFileOutput && !fs.createsDirectories then
    (some .createDirectories, { p with manager := m })
  else
    match m.createSinks fs.opensFile with
    | (some e, m) => (some e, { p with manager := m })
    | (none, m) =>
      (none, { manager := { m with loggers := ∅, initialized := true }
               spdlog := p.spdlog.setLevel config.level })

def updateConfig (p : Process J) (config : LogConfig J) (fs : FileSystem) :
    Option LogExn × Process J :=
  p.initializeConfig config fs

/-- flushing the loggers first does not change them -/
def shutdown (p : Process J) : Process J where
  manager :=
    { p.manager with
      loggers := ∅, sinks := [], consoleSink := none, fileSink := none, initialized := false }
  spdlog := p.spdlog.shutdown

/-- the registry after `setup_logger` -/
def setupLogger (p : Process J) (logger : SpdlogLogger J) : Except LogExn (Nat × Spdlog J) :=
  p.spdlog.registerLogger { logger with level := p.manager.config.level, flushLevel := .err }

def getLogger (p : Process J) (name : Str) : Except LogExn Logger × Process J :=
  match p.manager.loggers.lookup name with
  | some logger => (.ok logger, p)
  | none =>
    match p.setupLogger { name, sinks := p.manager.sinks } with
    | .error e => (.error e, p)
    | .ok (_, spdlog) =>
      match Logger.make name spdlog with
      | .error e => (.error e, { p with spdlog })
      | .ok (logger, spdlog) =>
        -- `spdlog_logger()` returns a copy of the pointer, so the assignment to it has no effect
        (.ok logger,
          { manager := { p.manager with loggers := p.manager.loggers.insert name logger }, spdlog })

def setGlobalLevel (p : Process J) (level : LogLevel) : Process J :=
  let spdlog := p.spdlog.setLevel (toSpdlogLevel level)
  { p with
    spdlog := (p.manager.loggers.entries.map (·.2.logger)).foldl
      (Spdlog.modify · ({ · with level := toSpdlogLevel level })) spdlog }

/-- before the first call: the registry holds the loggers of others only -/
def start (others : List (SpdlogLogger J)) : Process J where
  manager := {}
  spdlog :=
    { objects := others
      registered := others.zipIdx.map fun l => ⟨l.1.name, l.2, false⟩ }

end Process

inductive LogCall (J : Type) where
  | initializeConfig (config : LogConfig J) (fs : FileSystem)
  | updateConfig (config : LogConfig J) (fs : FileSystem)
  | getLogger (name : Str)
  | setGlobalLevel (level : LogLevel)
  | shutdown

def Process.step {J : Type} (p : Process J) : LogCall J → Process J
  | .initializeConfig config fs => (p.initializeConfig config fs).2
  | .updateConfig config fs => (p.updateConfig config fs).2
  | .getLogger name => (p.getLogger name).2
  | .setGlobalLevel level => p.setGlobalLevel level
  | .shutdown => p.shutdown

/-- the logger that the call asks for -/
def LogCall.asked {J : Type} : LogCall J → Option Str
  | .getLogger name => some name
  | _ => none

/-- the state after the calls -/
def loggingAfter {J : Type} (others : List (SpdlogLogger J)) (calls : List (LogCall J)) :
    Process J :=
  run Process.step (Process.start others) calls

section
variable {J : Type} {p : Process J}

/-! ## one call -/

theorem registerLogger_of_has {r : Spdlog J} {logger : SpdlogLogger J} (h : r.has logger.name) :
    r.registerLogger logger = .error (.loggerExists logger.name) := by
  unfold Spdlog.registerLogger
  rw [if_pos h]

theorem has_of_registerLogger {r r' : Spdlog J} {logger : SpdlogLogger J} {object : Nat}
    (h : r.registerLogger logger = .ok (object, r')) : r'.has logger.name := by
  unfold Spdlog.registerLogger at h
  split at h
  · cases h
  · cases h
    unfold Spdlog.has
    rw [List.any_append, Bool.or_eq_true]
    right
    rw [List.any_cons, beq_self_eq_true, Bool.true_or]

theorem registerLogger_error {r : Spdlog J} {logger : SpdlogLogger J} {e : LogExn}
    (h : r.registerLogger logger = .error e) : e = .loggerExists logger.name := by
  unfold Spdlog.registerLogger at h
  split at h
  · cases h
    rfl
  · cases h

/-- the name of a registered logger cannot be used for a `Logger` -/
theorem make_of_has {r : Spdlog J} {name : Str} (h : r.has name) :
    Logger.make name r = .error (.loggerExists name) := by
  have hreg : r.stdoutColorMt name = .error (.loggerExists name) := registerLogger_of_has h
  unfold Logger.make
  rw [hreg]
  rfl

theorem getLogger_throws (h : p.manager.loggers = ∅) (name : Str) :
    (p.getLogger name).1 = .error (.loggerExists name) ∧
      (p.getLogger name).2.manager = p.manager := by
  unfold Process.getLogger
  rw [h, AList.lookup_empty]
  dsimp only
  cases hsetup : p.setupLogger { name, sinks := p.manager.sinks } with
  | error e =>
    -- the name was registered before
    exact ⟨congrArg Except.error (registerLogger_error hsetup), rfl⟩
  | ok r =>
    dsimp only
    rw [make_of_has (has_of_registerLogger hsetup)]
    exact ⟨rfl, rfl⟩

theorem createSinks_loggers (m : LogManager J) (opensFile : Bool) :
    (m.createSinks opensFile).2.loggers = m.loggers := by
  unfold LogManager.createSinks
  dsimp only
  split <;> split <;> try split
  all_goals rfl

theorem initializeConfig_loggers (h : p.manager.loggers = ∅) (config : LogConfig J)
    (fs : FileSystem) : (p.initializeConfig config fs).2.manager.loggers = ∅ := by
  have hsinks := createSinks_loggers { p.manager with config } fs.opensFile
  unfold Process.initializeConfig
  dsimp only
  split
  · exact h
  · split
    · rename_i heq
      rw [heq] at hsinks
      exact hsinks.trans h
    · rfl

theorem step_loggers (h : p.manager.loggers = ∅) (c : LogCall J) :
    (p.step c).manager.loggers = ∅ := by
  cases c with
  | initializeConfig config fs => exact initializeConfig_loggers h config fs
  | updateConfig config fs => exact initializeConfig_loggers h config fs
  | getLogger name => exact (congrArg LogManager.loggers (getLogger_throws h name).2).trans h
  | setGlobalLevel _ => exact h
  | shutdown => rfl

/-- no logger ever gets into the table -/
theorem loggersAfter_empty (others : List (SpdlogLogger J)) (calls : List (LogCall J)) :
    (loggingAfter others calls).manager.loggers = ∅ :=
  run_inv (fun p : Process J => p.manager.loggers = ∅) (fun _ c h => step_loggers h c) calls rfl

/-- **Every request for a logger throws.** -/
theorem request_throws (others : List (SpdlogLogger J)) (calls : List (LogCall J)) (name : Str) :
    ((loggingAfter others calls).getLogger name).1 = .error (.loggerExists name) :=
  (getLogger_throws (loggersAfter_empty others calls) name).1

/-! ## names registered by this module -/

theorem foldl_modify_registered (f : SpdlogLogger J → SpdlogLogger J) (l : List Nat)
    (r : Spdlog J) : (l.foldl (Spdlog.modify · f) r).registered = r.registered := by
  induction l generalizing r with
  | nil => rfl
  | cons i l ih => exact ih (r.modify f i)

theorem setLevel_ownNames (r : Spdlog J) (level : SpdlogLevel) :
    (r.setLevel level).ownNames = r.ownNames := by
  unfold Spdlog.setLevel Spdlog.ownNames
  dsimp only
  rw [foldl_modify_registered]

theorem initializeConfig_ownNames (p : Process J) (config : LogConfig J) (fs : FileSystem) :
    (p.initializeConfig config fs).2.spdlog.ownNames = p.spdlog.ownNames := by
  unfold Process.initializeConfig
  dsimp only
  split
  · rfl
  · split
    · rfl
    · exact setLevel_ownNames _ _

theorem setGlobalLevel_ownNames (p : Process J) (level : LogLevel) :
    (p.setGlobalLevel level).spdlog.ownNames = p.spdlog.ownNames := by
  rw [← setLevel_ownNames p.spdlog (toSpdlogLevel level)]
  unfold Process.setGlobalLevel Spdlog.ownNames
  dsimp only
  rw [foldl_modify_registered]

/-- a call that asks for no logger registers no name -/
theorem step_ownNames {c : LogCall J} (hc : c.asked = none) (h : p.spdlog.ownNames = []) :
    (p.step c).spdlog.ownNames = [] := by
  cases c with
  | initializeConfig config fs => exact (initializeConfig_ownNames p config fs).trans h
  | updateConfig config fs => exact (initializeConfig_ownNames p config fs).trans h
  | getLogger name => cases hc
  | setGlobalLevel level => exact (setGlobalLevel_ownNames p level).trans h
  | shutdown => rfl

theorem start_ownNames (others : List (SpdlogLogger J)) :
    (Process.start others).spdlog.ownNames = [] := by
  have hown : ∀ x ∈ (Process.start others).spdlog.registered, ¬ x.own = true := by
    intro x hx
    obtain ⟨l, -, rfl⟩ := List.mem_map.mp hx
    exact Bool.false_ne_true
  unfold Spdlog.ownNames
  rw [List.filter_eq_nil_iff.mpr hown]
  rfl

/-! ## runs -/

/-- the table and this module's part of the registry hold the same names -/
def InStep (p : Process J) : Prop :=
  ∀ name, name ∈ p.manager.loggers.keys ↔ name ∈ p.spdlog.ownNames

/-- the call does not throw as a request for a logger -/
def Answered (p : Process J) (c : LogCall J) : Prop :=
  ∀ name, c.asked = some name → ∃ logger, (p.getLogger name).1 = .ok logger

theorem answered_iff (h : p.manager.loggers = ∅) (c : LogCall J) :
    Answered p c ↔ c.asked = none := by
  constructor
  · intro hc
    cases hasked : c.asked with
    | none => rfl
    | some name =>
      obtain ⟨logger, hok⟩ := hc name hasked
      rw [(getLogger_throws h name).1] at hok
      cases hok
  · intro hc name hasked
    rw [hc] at hasked
    cases hasked

theorem inStep_of_empty (h : p.manager.loggers = ∅) (hown : p.spdlog.ownNames = []) :
    InStep p := by
  intro name
  rw [h, hown]
  exact Iff.rfl

theorem everyStep_inStep_iff (h : p.manager.loggers = ∅) (hown : p.spdlog.ownNames = [])
    (calls : List (LogCall J)) :
    (EveryStep Process.step Answered p calls ∧ EveryState Process.step InStep p calls) ↔
      ∀ c ∈ calls, c.asked = none := by
  induction calls generalizing p with
  | nil =>
    refine iff_of_true ⟨trivial, inStep_of_empty h hown⟩ ?_
    intro c hc
    cases hc
  | cons c calls ih =>
    rw [List.forall_mem_cons]
    constructor
    · rintro ⟨⟨hc, hsteps⟩, -, hstates⟩
      have hc := (answered_iff h c).mp hc
      exact ⟨hc, (ih (step_loggers h c) (step_ownNames hc hown)).mp ⟨hsteps, hstates⟩⟩
    · rintro ⟨hc, hcalls⟩
      obtain ⟨hsteps, hstates⟩ := (ih (step_loggers h c) (step_ownNames hc hown)).mpr hcalls
      exact ⟨⟨(answered_iff h c).mpr hc, hsteps⟩, inStep_of_empty h hown, hstates⟩

/-- **When table and registry stay in step**: every request for a logger is answered, and the names
are the same in every state, exactly in the runs without a request. -/
theorem inStep_iff (others : List (SpdlogLogger J)) (calls : List (LogCall J)) :
    (EveryStep Process.step Answered (Process.start others) calls ∧
        EveryState Process.step InStep (Process.start others) calls) ↔
      ∀ c ∈ calls, c.asked = none :=
  everyStep_inStep_iff rfl (start_ownNames others) calls

end

/-- one request after the start: it throws, and the name is registered but not in the table -/
theorem test_logger_throws :
    let p := loggingAfter ([] : List (SpdlogLogger Unit)) [.initializeConfig {} ⟨true, true⟩]
    let r := p.getLogger (str "test")
    (r.1.isOk = false) ∧ r.2.spdlog.ownNames = [str "test"] ∧ r.2.manager.loggers.keys = [] := by
  decide +kernel

end Logging
end ChainForge
