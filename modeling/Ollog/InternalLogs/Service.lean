import Ollog.Lib.Outbox
import Ollog.Lib.Pool
import Ollog.Python.Exceptions

/-!
# The internal application log

What is logged is stored if its level is at least the minimum level of the settings, and it expires
after the days the settings say.  The settings are one document of the database, which every process
keeps a copy of from the first time it needs them.  Only the process that changes the settings
replaces its copy; nothing tells the others.

A call waits for the database several times, and other calls take their steps meanwhile, in the same
process and in others.  So a call is a thread here, and its `LogPhase` says what it does next: a step
reaches from one `await` to the next, and where the answer of the database is put to use in the
process, the database answers in a step of its own.
-/

set_option autoImplicit false

namespace Ollog

open Effects

/-! ## Levels -/

/-- `LOG_LEVELS`. -/
inductive LogLevel where
  | trace | debug | info | warn | error | fatal
  deriving DecidableEq, Repr

namespace LogLevel

def all : List LogLevel := [trace, debug, info, warn, error, fatal]

/-- The name of a level. -/
def name : LogLevel → String
  | trace => "Trace"
  | debug => "Debug"
  | info => "Info"
  | warn => "Warn"
  | error => "Error"
  | fatal => "Fatal"

/-- `LOG_SEVERITY`. -/
def severity : LogLevel → Nat
  | trace => 0
  | debug => 1
  | info => 2
  | warn => 3
  | error => 4
  | fatal => 5

end LogLevel

/-- `DEFAULT_LOG_LEVEL`. -/
def defaultLogLevel : LogLevel := .info

/-- `DEFAULT_RETENTION_DAYS`. -/
def defaultRetentionDays : Int := 30

/-- The characters of `s.lower()`, as far as they decide whether it is the name of a level in lower
case: no character outside ASCII is mapped to a letter of these names. -/
def lowerChars (s : String) : List Char := s.toList.map Char.toLower

/-- `normalize_log_level`. -/
def normalizeLogLevel [UnicodeData] (value : String) : Except PyErr LogLevel :=
  let candidate := lowerChars (strip (if value = "" then defaultLogLevel.name else value))
  match LogLevel.all.find? fun level ↦ candidate = lowerChars level.name with
  | some level => .ok level
  | none => .error (.valueError ("Invalid log level: " ++ reprText value))

/-- `should_log`, of levels that are normalised. -/
def shouldLog (level minimumLevel : LogLevel) : Bool :=
  decide (minimumLevel.severity ≤ level.severity)

theorem shouldLog_iff {level minimumLevel : LogLevel} :
    shouldLog level minimumLevel = true ↔ minimumLevel.severity ≤ level.severity :=
  decide_eq_true_iff

/-! ## Settings -/

/-- `LogSettingsSnapshot`: what the validators of `ApplicationLogSettings` let through. -/
structure LogSettingsSnapshot where
  minimumLevel : LogLevel := defaultLogLevel
  retentionDays : Int := defaultRetentionDays
  one_le : 1 ≤ retentionDays := by decide
  le_3650 : retentionDays ≤ 3650 := by decide
  deriving DecidableEq

/-- A microsecond count of so many days. -/
def daysMicros (days : Int) : Int := days * dayMicros

/-- `expires_at_for_retention`, of the moment it is called. -/
def expiresAtForRetention (utcnow retentionDays : Int) : Int :=
  utcnow + daysMicros (max 1 retentionDays)

/-- What a call of `log` is given. -/
structure LogCall where
  level : String
  message : String
  source : String
  eventType : Option String := none
  correlationId : Option String := none
  qsoId : Option String := none
  bridgeName : Option String := none
  remoteSoftware : Option String := none
  transport : String := "system"
  force : Bool := false
  deriving DecidableEq

/-- `ApplicationLog`, its `metadata` and `error` apart. -/
structure ApplicationLog where
  timestamp : Int
  level : LogLevel
  severity : Nat
  message : String
  source : String
  eventType : Option String
  correlationId : Option String
  qsoId : Option String
  bridgeName : Option String
  remoteSoftware : Option String
  transport : String
  expiresAt : Int
  deriving DecidableEq

/-- The entry `log` makes. -/
def applicationLog (utcnow : Int) (level : LogLevel) (call : LogCall) (retentionDays : Int) :
    ApplicationLog where
  timestamp := utcnow
  level := level
  severity := level.severity
  message := call.message
  source := call.source
  eventType := call.eventType
  correlationId := call.correlationId
  qsoId := call.qsoId
  bridgeName := call.bridgeName
  remoteSoftware := call.remoteSoftware
  transport := call.transport
  expiresAt := expiresAtForRetention utcnow retentionDays

/-! ## Processes on one database -/

/-- The log and its settings in the database, and what every process knows of the settings. -/
structure LogDeployment (ρ : Type) where
  /-- The document of the settings, once there is one. -/
  settings : Option LogSettingsSnapshot
  /-- `_settings_cache` of each process. -/
  cache : ρ → Option LogSettingsSnapshot
  logs : List ApplicationLog

variable {ρ : Type}

namespace LogDeployment

/-- The settings as they are stored. -/
def stored (s : LogDeployment ρ) : LogSettingsSnapshot := s.settings.getD {}

/-- A process replaces its copy of the settings. -/
def remember [DecidableEq ρ] (p : ρ) (settings : LogSettingsSnapshot) (s : LogDeployment ρ) :
    LogDeployment ρ :=
  { s with cache := Function.update s.cache p (some settings) }

end LogDeployment

/-- A call, in a process. -/
inductive LogRequest (ρ : Type) where
  /-- `set_log_settings`. -/
  | set (p : ρ) (minimumLevel : String) (retentionDays : Int)
  /-- `InternalLogger.log`. -/
  | log (p : ρ) (utcnow : Int) (call : LogCall)
  /-- `get_log_settings(refresh=True)`. -/
  | refresh (p : ρ)

/-- The process a call is made in. -/
def LogRequest.process : LogRequest ρ → ρ
  | .set p _ _ | .log p _ _ | .refresh p => p

/-- What a call returns or raises. -/
inductive LogAnswer where
  | entry (log : Option ApplicationLog)
  | shown (settings : LogSettingsSnapshot)
  | saved (settings : LogSettingsSnapshot)
  | raised (exc : PyErr)
  deriving DecidableEq

/-- How far a call has come. -/
inductive LogPhase where
  | begin
  /-- `get_log_settings` waits for `find_one`, which has yet to read. -/
  | lookUp
  /-- `find_one` has read. -/
  | found (settings : Option LogSettingsSnapshot)
  /-- `log` waits for the insert of its entry. -/
  | insert (entry : ApplicationLog)
  /-- The entry is stored. -/
  | broadcast (entry : ApplicationLog)
  /-- `set_log_settings` waits for `find_one`. -/
  | find (settings : LogSettingsSnapshot)
  /-- It waits for `insert` or, if there was a document, for `save`. -/
  | write (settings : LogSettingsSnapshot) (found : Bool)
  /-- The settings are stored. -/
  | keep (settings : LogSettingsSnapshot)
  | finished (answer : LogAnswer)
  deriving DecidableEq

section

variable [UnicodeData]

/-- What `set_log_settings` is going to store. -/
def newLogSettings (minimumLevel : String) (retentionDays : Int) :
    Except PyErr LogSettingsSnapshot := do
  let level ← normalizeLogLevel minimumLevel
  if h : 1 ≤ retentionDays ∧ retentionDays ≤ 3650 then return ⟨level, retentionDays, h.1, h.2⟩
  else throw (.valueError "retention_days must be between 1 and 3650")

namespace LogRequest

/-- A call goes on with what `get_log_settings` has returned. -/
def withSettings (settings : LogSettingsSnapshot) : LogRequest ρ → LogPhase
  | log _ utcnow call => match normalizeLogLevel call.level with
    | .error _ => .finished (.entry none)
    | .ok level =>
      if !call.force && !shouldLog level settings.minimumLevel then .finished (.entry none)
      else .insert (applicationLog utcnow level call settings.retentionDays)
  | set .. | refresh _ => .finished (.shown settings)

/-- A call begins.  A log call needs to look the settings up if its process has no copy of them. -/
def begins (s : LogDeployment ρ) : LogRequest ρ → LogPhase
  | set _ minimumLevel retentionDays => match newLogSettings minimumLevel retentionDays with
    | .ok settings => .find settings
    | .error exc => .finished (.raised exc)
  | request@(log p _ call) => match normalizeLogLevel call.level with
    | .error _ => .finished (.entry none)
    | .ok _ => match s.cache p with
      | some settings => request.withSettings settings
      | none => .lookUp
  | refresh _ => .lookUp

/-- What a call does with the settings that it has. -/
theorem withSettings_cases (request : LogRequest ρ) (settings : LogSettingsSnapshot) :
    (∃ answer, request.withSettings settings = .finished answer) ∨
      ∃ entry, request.withSettings settings = .insert entry := by
  cases request with
  | log q utcnow call =>
    rw [withSettings]
    split
    · exact .inl ⟨_, rfl⟩
    · split
      · exact .inl ⟨_, rfl⟩
      · exact .inr ⟨_, rfl⟩
  | set | refresh =>
    rw [withSettings]
    exact .inl ⟨_, rfl⟩

/-- What a call begins with. -/
theorem begins_cases (request : LogRequest ρ) (s : LogDeployment ρ) :
    (∃ answer, request.begins s = .finished answer) ∨ (∃ entry, request.begins s = .insert entry) ∨
      (∃ settings, request.begins s = .find settings) ∨ request.begins s = .lookUp := by
  cases request with
  | log q utcnow call =>
    rw [begins]
    split
    · exact .inl ⟨_, rfl⟩
    · split
      · obtain hfinished | hinsert := withSettings_cases (.log q utcnow call) _
        · exact .inl hfinished
        · exact .inr (.inl hinsert)
      · exact .inr (.inr (.inr rfl))
  | set q minimumLevel retentionDays =>
    rw [begins]
    split
    · exact .inr (.inr (.inl ⟨_, rfl⟩))
    · exact .inl ⟨_, rfl⟩
  | refresh q =>
    rw [begins]
    exact .inr (.inr (.inr rfl))

/-- One step of a call. -/
def advance [DecidableEq ρ] (request : LogRequest ρ) :
    LogPhase → LogDeployment ρ → LogPhase × LogDeployment ρ
  | .begin, s => (request.begins s, s)
  | .lookUp, s => (.found s.settings, s)
  | .found settings, s =>
    (request.withSettings (settings.getD {}), s.remember request.process (settings.getD {}))
  | .insert entry, s => (.broadcast entry, { s with logs := s.logs ++ [entry] })
  | .broadcast entry, s => (.finished (.entry (some entry)), s)
  | .find settings, s => (.write settings s.settings.isSome, s)
  | .write settings found, s =>
    if !found && s.settings.isSome then
      (.finished (.raised (.duplicateKey
        "E11000 duplicate key error: app_log_settings_key_unique")), s)
    else (.keep settings, { s with settings := some settings })
  | .keep settings, s => (.finished (.saved settings), s.remember request.process settings)
  | .finished answer, s => (.finished answer, s)

end LogRequest

variable {ι : Type} [DecidableEq ι] [DecidableEq ρ]

/-- The deployment, and how far each call has come. -/
abbrev LogState (ι ρ : Type) := Pool.State ι LogPhase (LogDeployment ρ)

omit [DecidableEq ι] [DecidableEq ρ] [UnicodeData] in
/-- No process has looked at the settings yet, and no call has begun. -/
def logStart (ι ρ : Type) (settings : Option LogSettingsSnapshot) (logs : List ApplicationLog) :
    LogState ι ρ := ⟨⟨settings, fun _ ↦ none, logs⟩, fun _ ↦ .begin⟩

/-- One step of one call. -/
def logStep (requests : ι → LogRequest ρ) : LogState ι ρ → ι → LogState ι ρ :=
  Pool.step fun i ↦ (requests i).advance

/-! ## What is stored -/

omit [UnicodeData] in
/-- The entry that a call is about to store. -/
def LogPhase.storing : LogPhase → Option ApplicationLog
  | insert entry => some entry
  | begin | lookUp | found _ | broadcast _ | find _ | write .. | keep _ | finished _ => none

omit [UnicodeData] in
/-- The entry that a call has stored and is about to broadcast. -/
def LogPhase.announcing : LogPhase → Option ApplicationLog
  | broadcast entry => some entry
  | begin | lookUp | found _ | insert _ | find _ | write .. | keep _ | finished _ => none

omit [DecidableEq ι] [DecidableEq ρ] [UnicodeData] in
/-- The entry that a step stores, and the call that does. -/
def storedAt (s : LogState ι ρ) (i : ι) : Option (ι × ApplicationLog) :=
  (s.threads i).storing.map (i, ·)

/-- The entries that a schedule stores. -/
def entriesStored (requests : ι → LogRequest ρ) :
    LogState ι ρ → List ι → List (ι × ApplicationLog) :=
  Outbox.along (logStep requests) storedAt

variable {requests : ι → LogRequest ρ} {s : LogState ι ρ} {i : ι}

/-- **A step appends to the log what it stores.** -/
theorem logs_logStep (s : LogState ι ρ) (i : ι) : (logStep requests s i).store.logs =
    s.store.logs ++ (storedAt s i).toList.map Prod.snd := by
  rw [logStep, Pool.store_step, storedAt]
  cases s.threads i with
  | write settings found =>
    rw [LogRequest.advance]
    split <;> exact (List.append_nil _).symm
  | insert entry => rfl
  | begin | lookUp | found _ | broadcast _ | find _ | keep _ | finished _ =>
    exact (List.append_nil _).symm

theorem logs_run (s : LogState ι ρ) (schedule : List ι) :
    (run (logStep requests) s schedule).store.logs =
      s.store.logs ++ (entriesStored requests s schedule).map Prod.snd := by
  induction schedule generalizing s with
  | nil => exact (List.append_nil _).symm
  | cons i schedule ih =>
    rw [run_cons, ih, logs_logStep, entriesStored, Outbox.along, List.map_append, List.append_assoc]

end

/-- A routine entry. -/
def Sample.logCall : LogCall where
  level := "Info"
  message := "Application startup started"
  source := "app.main"

end Ollog
