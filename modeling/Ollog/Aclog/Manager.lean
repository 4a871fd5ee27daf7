import Ollog.Lib.Coroutine
import Ollog.Lib.OrderedDict
import Ollog.Python.Exceptions

/-!
# The bridge manager

`ACLogBridgeManager` runs a task for each enabled bridge of an enabled user.  Every so often it reads
the users and reconciles the tasks it manages with what they have configured: `reconcile` stops the
bridges that are gone, keeps those that run as they should, and starts the others.

The tasks of the bridges are known here by what asyncio knows of them: whether they have been asked
to cancel, and how they ended.  A task belongs to the one key it is managed under, which
`ManagerState` carries as an invariant.
-/

set_option autoImplicit false

namespace Ollog

open Coroutine Coro OrderedDict

/-! ## What is configured -/

/-- `ACLogBridge`. -/
structure ACLogBridge where
  id : String
  name : String := ""
  host : String := "127.0.0.1"
  port : Int := 1100
  enabled : Bool := true
  deriving DecidableEq, Repr

/-- What the manager reads of a user. -/
structure BridgeOwner where
  id : ObjectId
  enabled : Bool := true
  aclogBridges : List ACLogBridge := []
  deriving DecidableEq, Repr

/-- `ACLogBridgeRuntimeConfig`. -/
structure ACLogBridgeRuntimeConfig where
  userId : ObjectId
  bridgeId : String
  name : String
  host : String
  port : Int
  reconnectSeconds : Nat
  deriving DecidableEq, Repr

/-- The tuple that tells whether a configuration has changed. -/
structure BridgeSignature where
  host : String
  port : Int
  name : String
  enabled : Bool
  deriving DecidableEq, Repr

/-- The signature of a bridge. -/
def ACLogBridge.signature (bridge : ACLogBridge) : BridgeSignature :=
  ⟨bridge.host, bridge.port, bridge.name, bridge.enabled⟩

/-- `f"{user.id}:{bridge.id}"`. -/
def bridgeKey (user : BridgeOwner) (bridge : ACLogBridge) : String :=
  user.id.str ++ ":" ++ bridge.id

/-- What the task of a bridge is started with. -/
def runtimeConfig (reconnectSeconds : Nat) (user : BridgeOwner) (bridge : ACLogBridge) :
    ACLogBridgeRuntimeConfig :=
  ⟨user.id, bridge.id, bridge.name, bridge.host, bridge.port, reconnectSeconds⟩

/-- The enabled bridges of the enabled users, with their keys. -/
def desiredItems (reconnectSeconds : Nat) (users : List BridgeOwner) :
    List (String × ACLogBridgeRuntimeConfig × BridgeSignature) :=
  (users.filter (·.enabled)).flatMap fun user ↦
    (user.aclogBridges.filter (·.enabled)).map fun bridge ↦
      (bridgeKey user bridge, runtimeConfig reconnectSeconds user bridge, bridge.signature)

/-- The dictionary `desired` of `reconcile`. -/
def desiredBridges (reconnectSeconds : Nat) (users : List BridgeOwner) :
    OrderedDict String (ACLogBridgeRuntimeConfig × BridgeSignature) :=
  ofItems (desiredItems reconnectSeconds users)

/-! ## Tasks -/

/-- What an `await` may raise. -/
inductive AsyncErr where
  | cancelled
  | exception (exc : PyErr)

/-- How a task ended. -/
inductive TaskEnd where
  | finished
  | cancelled
  | failed (exc : PyErr)

/-- What `await task` makes of how the task ended. -/
def TaskEnd.result : TaskEnd → Except AsyncErr Unit
  | .finished => .ok ()
  | .cancelled => .error .cancelled
  | .failed exc => .error (.exception exc)

/-- A task that runs `run_aclog_bridge`. -/
structure BridgeTask where
  config : ACLogBridgeRuntimeConfig
  /-- `task.cancelling()`. -/
  cancelling : Nat := 0
  /-- `none` until `task.done()`. -/
  ending : Option TaskEnd := none

/-- `task.cancel()`, which a task that is done ignores. -/
def BridgeTask.cancel (task : BridgeTask) : BridgeTask :=
  if task.ending.isSome then task else { task with cancelling := task.cancelling + 1 }

/-- `_ManagedBridge`, with the task by its number. -/
structure ManagedBridge where
  signature : BridgeSignature
  task : Nat
  deriving DecidableEq

/-- What the manager knows, and the tasks it has ever created. -/
structure ManagerState where
  /-- `self._bridges`. -/
  bridges : OrderedDict String ManagedBridge
  tasks : List BridgeTask
  created : ∀ {key managed}, bridges.get key = some managed → managed.task < tasks.length
  unshared : ∀ {key key' managed managed'}, bridges.get key = some managed →
    bridges.get key' = some managed' → managed.task = managed'.task → key = key'

namespace ManagerState

theorem unshared_nil {key key' : String} {managed managed' : ManagedBridge}
    (h : OrderedDict.get [] key = some managed) (_ : OrderedDict.get [] key' = some managed')
    (_ : managed.task = managed'.task) : key = key' := nomatch h

variable (s : ManagerState) (key : String)

/-- A manager that manages nothing. -/
def empty : ManagerState where
  bridges := []
  tasks := []
  created h := nomatch h
  unshared := unshared_nil

/-- `task.done()`. -/
def taskDone (i : Nat) : Bool :=
  match s.tasks[i]? with
  | some task => task.ending.isSome
  | none => false

/-- `self._bridges.pop(key, None)`. -/
def pop : ManagerState where
  bridges := s.bridges.erase key
  tasks := s.tasks
  created h := by
    rw [get_erase] at h
    split at h
    · cases h
    · exact s.created h
  unshared h h' := by
    rw [get_erase] at h h'
    split at h
    · cases h
    · split at h'
      · cases h'
      · exact s.unshared h h'

/-- A change to one task. -/
def modifyTask (i : Nat) (f : BridgeTask → BridgeTask) : ManagerState where
  bridges := s.bridges
  tasks := s.tasks.modify i f
  created h := by
    rw [List.length_modify]
    exact s.created h
  unshared := s.unshared

/-- `asyncio.create_task(run_aclog_bridge(config))`, managed under a key. -/
def startBridge (signature : BridgeSignature) (config : ACLogBridgeRuntimeConfig) :
    ManagerState where
  bridges := s.bridges.set key ⟨signature, s.tasks.length⟩
  tasks := s.tasks ++ [{ config }]
  created h := by
    rw [List.length_append, List.length_singleton]
    rw [get_set] at h
    split at h
    · cases h
      exact Nat.lt_succ_self _
    · exact Nat.lt_succ_of_lt (s.created h)
  unshared := by
    intro key₁ key₂ managed₁ managed₂ h₁ h₂ heq
    rw [get_set] at h₁ h₂
    split at h₁ <;> split at h₂
    · rename_i hkey₁ hkey₂
      rw [hkey₁, hkey₂]
    · cases h₁
      exact absurd (heq ▸ s.created h₂) (Nat.lt_irrefl _)
    · cases h₂
      exact absurd (heq ▸ s.created h₁) (Nat.lt_irrefl _)
    · exact s.unshared h₁ h₂ heq

end ManagerState

/-! ## Reconciling -/

/-- What the manager awaits. -/
inductive Awaitable where
  /-- `User.find_all().to_list()`. -/
  | findUsers
  /-- A call of `app_logger`, by its event type. -/
  | appLog (eventType : String)
  /-- `await managed.task`. -/
  | join (task : Nat)
  /-- `asyncio.sleep(self.scan_seconds)`. -/
  | sleep

/-- What it gets. -/
@[reducible] def Awaitable.Response : Awaitable → Type
  | .findUsers => List BridgeOwner
  | _ => Unit

/-- A coroutine of the manager. -/
abbrev ManagerCoro (α : Type) : Type := Coro ManagerState AsyncErr Awaitable.Response α

/-- A call of `app_logger`. -/
def appLog (eventType : String) : ManagerCoro Unit := awaiting (Awaitable.appLog eventType)

/-- `await managed.task`, which does not suspend when the task is done. -/
def awaitTask (i : Nat) : ManagerCoro Unit := do
  match (← state).tasks[i]?.bind (·.ending) with
  | some ending => ofExcept ending.result
  | none => awaiting (Awaitable.join i)

/-- `_stop_bridge`. -/
def stopBridge (key : String) : ManagerCoro Unit := do
  match (← state).bridges.get key with
  | none => return ()
  | some managed =>
    modify fun s ↦ (s.pop key).modifyTask managed.task .cancel
    (awaitTask managed.task).catching fun
      | .cancelled => return ()
      | .exception exc => throw (.exception exc)
    appLog "bridge_task_stopped"

/-- The end of the body of the second loop of `reconcile`. -/
def createBridge (key : String) (config : ACLogBridgeRuntimeConfig) (signature : BridgeSignature) :
    ManagerCoro Unit := do
  modify (·.startBridge key signature config)
  appLog "bridge_task_started"

/-- The body of the second loop of `reconcile`. -/
def ensureBridge (item : String × ACLogBridgeRuntimeConfig × BridgeSignature) :
    ManagerCoro Unit := do
  let (key, config, signature) := item
  let s ← state
  match s.bridges.get key with
  | none => createBridge key config signature
  | some existing =>
    if s.taskDone existing.task = false ∧ existing.signature = signature then return ()
    else
      stopBridge key
      createBridge key config signature

/-- In which order a loop goes through a set. -/
structure SetOrder where
  order : List String → List String
  perm : ∀ keys, (order keys).Perm keys

/-- `set(self._bridges) - set(desired)`. -/
def staleKeys (s : ManagerState)
    (desired : OrderedDict String (ACLogBridgeRuntimeConfig × BridgeSignature)) : List String :=
  (s.bridges.map Prod.fst).eraseDups.filter fun key ↦ (desired.get key).isNone

/-- `reconcile`. -/
def reconcile (order : SetOrder) (reconnectSeconds : Nat) : ManagerCoro Unit := do
  let users ← awaiting Awaitable.findUsers
  let desired := desiredBridges reconnectSeconds users
  let s ← state
  (order.order (staleKeys s desired)).forM stopBridge
  List.forM desired ensureBridge

/-- One round of the loop of `_run`. -/
def runRound (order : SetOrder) (reconnectSeconds : Nat) : ManagerCoro Unit := do
  (reconcile order reconnectSeconds).catching fun
    | .cancelled => throw .cancelled
    | .exception _ => appLog "bridge_reconcile_failed"
  awaiting Awaitable.sleep

end Ollog
