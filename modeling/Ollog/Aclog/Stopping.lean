import Ollog.Aclog.Reconcile

/-!
# Stopping the bridge manager

`_run` reconciles in a loop, in a task of its own, and `stop` cancels that task.  A task that is
cancelled while it awaits another task passes the request on: it is that other task that is
cancelled, and what the first one sees is how it ended.  `_stop_bridge` awaits a task it has
cancelled itself, and swallows the `CancelledError` it expects from there.  So a request that comes
just then is lost, and the loop goes on (`not_stopped_joining`).

Everywhere else `_run` lets the exception through (`forwards_runRound`), and after the request it
neither creates a task nor begins another round (`stop_halts`).
-/

set_option autoImplicit false

namespace Ollog

open Coroutine Coro OrderedDict

/-! ## The task of the manager, and the call that stops it -/

/-- `self._task`. -/
inductive MainTask where
  /-- It has not had a turn yet. -/
  | created (mustCancel : Bool)
  | waiting (o : Awaitable) (k : Except AsyncErr o.Response → ManagerCoro Unit) (mustCancel : Bool)
  | ended (e : AsyncErr)

/-- How far the call of `stop` has come. -/
inductive StopPhase where
  | idle
  | joiningMain
  | joiningBridges (tasks : List Nat)
  | over
  deriving DecidableEq

/-- The manager, its task, and the call that stops it. -/
structure ManagerWorld where
  manager : ManagerState
  main : MainTask := .created false
  /-- How often `reconcile` has been called. -/
  rounds : Nat := 0
  stop : StopPhase := .idle

/-- What happens. -/
inductive ManagerEvent where
  /-- The task of the manager has a turn, if what it awaits is there; for the users, it is this. -/
  | resume (users : Except PyErr (List BridgeOwner))
  /-- The task of a bridge ends. -/
  | taskEnds (i : Nat) (ending : TaskEnd)
  /-- `stop` is called. -/
  | stop
  /-- The call has a turn. -/
  | resumeStop

/-- What is awaited, if it is there. -/
def Awaitable.answer (users : Except PyErr (List BridgeOwner)) (s : ManagerState) :
    (o : Awaitable) → Option (Except AsyncErr o.Response)
  | .findUsers => some (users.mapError .exception)
  | .appLog _ => some (.ok ())
  | .join i => (s.tasks[i]?.bind (·.ending)).map TaskEnd.result
  | .sleep => some (.ok ())

namespace ManagerWorld

/-- Begin a round of `_run`.  Its first turn ends where it awaits the users. -/
def beginRound (order : SetOrder) (reconnectSeconds : Nat) (w : ManagerWorld) : ManagerWorld :=
  match advance (runRound order reconnectSeconds) w.manager with
  | (.waiting o k, s) => { w with manager := s, main := .waiting o k false, rounds := w.rounds + 1 }
  | (.raised e, s) => { w with manager := s, main := .ended e, rounds := w.rounds + 1 }
  | (.returned (), s) => { w with manager := s, main := .created false, rounds := w.rounds + 1 }

/-- After a turn of `_run`; when a round is over, the next one begins. -/
def settle (order : SetOrder) (reconnectSeconds : Nat) (w : ManagerWorld)
    (turn : Stage ManagerState AsyncErr Awaitable.Response Unit × ManagerState) : ManagerWorld :=
  match turn with
  | (.waiting o k, s) => { w with manager := s, main := .waiting o k false }
  | (.raised e, s) => { w with manager := s, main := .ended e }
  | (.returned (), s) => beginRound order reconnectSeconds { w with manager := s }

/-- A turn of `_run`. -/
def resume (order : SetOrder) (reconnectSeconds : Nat) (users : Except PyErr (List BridgeOwner))
    (w : ManagerWorld) : ManagerWorld :=
  match w.main with
  | .created true => { w with main := .ended .cancelled }
  | .created false => beginRound order reconnectSeconds w
  | .waiting _ k true => settle order reconnectSeconds w (advance (k (.error .cancelled)) w.manager)
  | .waiting o k false =>
    match o.answer users w.manager with
    | none => w
    | some r => settle order reconnectSeconds w (advance (k r) w.manager)
  | .ended _ => w

/-- `self._task.cancel()`: a task that is awaited is cancelled in its place. -/
def cancelMain (w : ManagerWorld) : ManagerWorld :=
  match w.main with
  | .created _ => { w with main := .created true }
  | .waiting (.join i) k _ =>
    if w.manager.taskDone i then { w with main := .waiting (.join i) k true }
    else { w with manager := w.manager.modifyTask i .cancel }
  | .waiting o k _ => { w with main := .waiting o k true }
  | .ended _ => w

/-- Cancel the tasks of all bridges. -/
def cancelBridges (s : ManagerState) : ManagerState :=
  s.bridges.foldl (fun s item ↦ s.modifyTask item.2.task .cancel) s

/-- `self._bridges.clear()`. -/
def clearBridges (s : ManagerState) : ManagerState where
  bridges := []
  tasks := s.tasks
  created h := nomatch h
  unshared := ManagerState.unshared_nil

/-- A turn of `stop`, after the first one. -/
def resumeStop (w : ManagerWorld) : ManagerWorld :=
  match w.stop with
  | .idle => w
  | .joiningMain =>
    match w.main with
    | .ended .cancelled => { w with
        manager := cancelBridges w.manager
        stop := .joiningBridges (w.manager.bridges.map fun item ↦ item.2.task) }
    | .ended (.exception _) => { w with stop := .over }
    | _ => w
  | .joiningBridges [] => { w with manager := clearBridges w.manager, stop := .over }
  | .joiningBridges (i :: tasks) =>
    match w.manager.tasks[i]?.bind (·.ending) with
    | none => w
    | some (.failed _) => { w with stop := .over }
    | some _ => { w with stop := .joiningBridges tasks }
  | .over => w

/-- One event. -/
def step (order : SetOrder) (reconnectSeconds : Nat) (w : ManagerWorld) : ManagerEvent → ManagerWorld
  | .resume users => resume order reconnectSeconds users w
  | .taskEnds i ending => { w with
      manager := w.manager.modifyTask i fun t ↦
        if t.ending.isSome then t else { t with ending := some ending } }
  | .stop => if w.stop = .idle then { cancelMain w with stop := .joiningMain } else w
  | .resumeStop => resumeStop w

/-- Any number of events. -/
def run (order : SetOrder) (reconnectSeconds : Nat) (w : ManagerWorld)
    (events : List ManagerEvent) : ManagerWorld :=
  events.foldl (step order reconnectSeconds) w

/-- `_run` awaits the task of a bridge, as it does in `_stop_bridge` alone. -/
def JoinsBridge (w : ManagerWorld) : Prop :=
  match w.main with
  | .waiting (.join _) _ _ => True
  | _ => False

end ManagerWorld

/-! ## Where the request goes through -/

/-- What swallows a `CancelledError`. -/
def Awaitable.IsJoin : Awaitable → Prop
  | .join _ => True
  | _ => False

theorem forwards_appLog (eventType : String) :
    Forwards Awaitable.IsJoin AsyncErr.cancelled (appLog eventType) := forwards_awaiting _

/-- The handler of `_stop_bridge` is around the `await` of the task, and nothing else. -/
theorem forwards_awaitTask {i : Nat} {handler : AsyncErr → ManagerCoro Unit}
    (hcancelled : handler .cancelled = pure ())
    (hexception : ∀ exc : PyErr, handler (.exception exc) = Coro.throw (.exception exc)) :
    Forwards Awaitable.IsJoin AsyncErr.cancelled ((awaitTask i).catching handler) := by
  have hresult : ∀ r : Except AsyncErr Unit, Forwards Awaitable.IsJoin AsyncErr.cancelled
      ((ofExcept r : ManagerCoro Unit).catching handler) := by
    intro r
    cases r with
    | ok _ => exact trivial
    | error e =>
      show Forwards Awaitable.IsJoin AsyncErr.cancelled (handler e)
      cases e with
      | cancelled =>
        rw [hcancelled]
        exact trivial
      | exception exc =>
        rw [hexception]
        exact trivial
  rw [awaitTask]
  intro s
  simp only [Coro.bind]
  split
  · exact hresult _
  · exact ⟨fun hno ↦ absurd trivial hno, hresult⟩

theorem forwards_stopBridge (key : String) :
    Forwards Awaitable.IsJoin AsyncErr.cancelled (stopBridge key) := by
  refine Forwards.bind (fun _ ↦ trivial) fun s ↦ ?_
  split
  · exact forwards_pure ()
  · refine Forwards.bind (fun _ ↦ trivial) fun _ ↦ Forwards.bind ?_ fun _ ↦ forwards_appLog _
    exact forwards_awaitTask rfl fun _ ↦ rfl

theorem forwards_createBridge (key : String) (config : ACLogBridgeRuntimeConfig)
    (signature : BridgeSignature) :
    Forwards Awaitable.IsJoin AsyncErr.cancelled (createBridge key config signature) :=
  Forwards.bind (fun _ ↦ trivial) fun _ ↦ forwards_appLog _

theorem forwards_ensureBridge (item : String × ACLogBridgeRuntimeConfig × BridgeSignature) :
    Forwards Awaitable.IsJoin AsyncErr.cancelled (ensureBridge item) := by
  obtain ⟨key, config, signature⟩ := item
  refine Forwards.bind (fun _ ↦ trivial) fun s ↦ ?_
  split
  · exact forwards_createBridge key config signature
  · split
    · exact forwards_pure ()
    · exact (forwards_stopBridge key).bind fun _ ↦ forwards_createBridge key config signature

/-- **A round of `_run` lets a `CancelledError` through**, unless it awaits the task of a bridge. -/
theorem forwards_runRound (order : SetOrder) (reconnectSeconds : Nat) :
    Forwards Awaitable.IsJoin AsyncErr.cancelled (runRound order reconnectSeconds) := by
  have hreconcile : Forwards Awaitable.IsJoin AsyncErr.cancelled
      (reconcile order reconnectSeconds) := by
    refine (forwards_awaiting _).bind fun users ↦ Forwards.bind (fun _ ↦ trivial) fun s ↦ ?_
    exact (forwards_forM fun key _ ↦ forwards_stopBridge key).bind fun _ ↦
      forwards_forM fun item _ ↦ forwards_ensureBridge item
  refine Forwards.bind (hreconcile.catching (fun e ↦ ?_) rfl) fun _ ↦ forwards_awaiting _
  cases e with
  | cancelled => exact trivial
  | exception _ => exact forwards_appLog _

/-! ## Runs -/

namespace ManagerWorld

variable {order : SetOrder} {reconnectSeconds : Nat} {w w' : ManagerWorld}

/-- Wherever the task of the manager waits, it would let the request through. -/
def Forwarding (w : ManagerWorld) : Prop :=
  match w.main with
  | .waiting o k _ => (¬ o.IsJoin → k (.error .cancelled) = .throw .cancelled) ∧
      ∀ r, Forwards Awaitable.IsJoin AsyncErr.cancelled (k r)
  | _ => True

/-- The task of the manager is over, or its next turn will be the last one. -/
def Halting (w : ManagerWorld) : Prop :=
  match w.main with
  | .created mustCancel => mustCancel = true
  | .waiting _ k mustCancel => mustCancel = true ∧ k (.error .cancelled) = .throw .cancelled
  | .ended _ => True

/-- No task has been created, and no round has begun. -/
def SameWork (w w' : ManagerWorld) : Prop :=
  w'.manager.tasks.length = w.manager.tasks.length ∧ w'.rounds = w.rounds

theorem SameWork.trans {w'' : ManagerWorld} (h : SameWork w w') (h' : SameWork w' w'') :
    SameWork w w'' := ⟨h'.1.trans h.1, h'.2.trans h.2⟩

theorem forwarding_beginRound (w : ManagerWorld) :
    Forwarding (beginRound order reconnectSeconds w) := by
  rw [beginRound]
  split
  · rename_i o k s hadvance
    exact (forwards_runRound order reconnectSeconds).advance hadvance
  · exact trivial
  · exact trivial

theorem forwarding_settle {c : ManagerCoro Unit}
    (hc : Forwards Awaitable.IsJoin AsyncErr.cancelled c) (w : ManagerWorld) :
    Forwarding (settle order reconnectSeconds w (advance c w.manager)) := by
  unfold settle
  split
  · rename_i o k s hadvance
    exact hc.advance hadvance
  · exact trivial
  · exact forwarding_beginRound _

theorem forwarding_of_main_eq (h : Forwarding w) (hmain : w'.main = w.main) : Forwarding w' := by
  rw [Forwarding, hmain]
  exact h

theorem main_resumeStop (w : ManagerWorld) : (resumeStop w).main = w.main := by
  rw [resumeStop]
  split
  · rfl
  · split <;> rfl
  · rfl
  · split <;> rfl
  · rfl

theorem forwarding_cancelMain (h : Forwarding w) : Forwarding (cancelMain w) := by
  rw [cancelMain]
  split
  · exact trivial
  · rename_i i k b hmain
    rw [Forwarding, hmain] at h
    split
    · exact h
    · rw [Forwarding]
      dsimp only
      rw [hmain]
      exact h
  · rename_i o k b hno hmain
    rw [Forwarding, hmain] at h
    exact h
  · exact h

theorem forwarding_step (h : Forwarding w) (event : ManagerEvent) :
    Forwarding (step order reconnectSeconds w event) := by
  cases event with
  | resume users =>
    show Forwarding (resume order reconnectSeconds users w)
    rw [resume]
    rw [Forwarding] at h
    split <;> rename_i hmain <;> try rw [hmain] at h
    · exact trivial
    · exact forwarding_beginRound w
    · exact forwarding_settle (h.2 _) w
    · split
      · rw [Forwarding, hmain]
        exact h
      · exact forwarding_settle (h.2 _) w
    · rw [Forwarding, hmain]
      exact trivial
  | taskEnds i ending => exact forwarding_of_main_eq h rfl
  | stop =>
    show Forwarding (if w.stop = .idle then _ else _)
    split
    · exact forwarding_of_main_eq (forwarding_cancelMain h) rfl
    · exact h
  | resumeStop => exact forwarding_of_main_eq h (main_resumeStop w)

/-- **The request goes through**, unless it comes while the task of a bridge is awaited. -/
theorem halting_cancelMain (h : Forwarding w) (hjoin : ¬ JoinsBridge w) :
    Halting (cancelMain w) ∧ SameWork w (cancelMain w) := by
  rw [cancelMain]
  split
  · exact ⟨rfl, rfl, rfl⟩
  · rename_i i k b hmain
    refine absurd ?_ hjoin
    rw [JoinsBridge, hmain]
    exact trivial
  · rename_i o k b hno hmain
    rw [Forwarding, hmain] at h
    refine ⟨⟨rfl, h.1 fun ho ↦ ?_⟩, rfl, rfl⟩
    cases o with
    | join i => exact hno i k rfl HEq.rfl
    | _ => exact ho
  · rename_i e hmain
    refine ⟨?_, rfl, rfl⟩
    rw [Halting, hmain]
    exact trivial

theorem length_cancelBridges (s : ManagerState) :
    (cancelBridges s).tasks.length = s.tasks.length := by
  have hfold : ∀ (items : List (String × ManagedBridge)) (s : ManagerState),
      (items.foldl (fun s item ↦ s.modifyTask item.2.task .cancel) s).tasks.length =
        s.tasks.length := by
    intro items
    induction items with
    | nil => exact fun _ ↦ rfl
    | cons item items ih =>
      intro s
      rw [List.foldl_cons, ih, ManagerState.modifyTask, List.length_modify]
  exact hfold s.bridges s

theorem sameWork_resumeStop (w : ManagerWorld) : SameWork w (resumeStop w) := by
  rw [resumeStop]
  split
  · exact ⟨rfl, rfl⟩
  · split
    · exact ⟨length_cancelBridges _, rfl⟩
    · exact ⟨rfl, rfl⟩
    · exact ⟨rfl, rfl⟩
  · exact ⟨rfl, rfl⟩
  · split <;> exact ⟨rfl, rfl⟩
  · exact ⟨rfl, rfl⟩

theorem halting_of_main_eq (h : Halting w) (hmain : w'.main = w.main) : Halting w' := by
  rw [Halting, hmain]
  exact h

/-- A task whose next turn is the last one does no work any more. -/
theorem halting_resume (h : Halting w) (users : Except PyErr (List BridgeOwner)) :
    Halting (resume order reconnectSeconds users w) ∧
      SameWork w (resume order reconnectSeconds users w) := by
  rw [resume]
  split <;> rename_i hmain <;> rw [Halting, hmain] at h
  · exact ⟨trivial, rfl, rfl⟩
  · cases h
  · rw [h.2]
    exact ⟨trivial, rfl, rfl⟩
  · cases h.1
  · refine ⟨?_, rfl, rfl⟩
    rw [Halting, hmain]
    exact trivial

/-- What holds before and after the request. -/
structure Stoppable (w : ManagerWorld) : Prop where
  forwarding : Forwarding w
  halting : w.stop ≠ .idle → Halting w

theorem stop_resume (users : Except PyErr (List BridgeOwner)) (w : ManagerWorld) :
    (resume order reconnectSeconds users w).stop = w.stop := by
  have hbegin : ∀ w, (beginRound order reconnectSeconds w).stop = w.stop := fun w ↦ by
    rw [beginRound]
    split <;> rfl
  have hsettle : ∀ w turn, (settle order reconnectSeconds w turn).stop = w.stop := fun w turn ↦ by
    unfold settle
    split
    · rfl
    · rfl
    · exact hbegin _
  rw [resume]
  split
  · rfl
  · exact hbegin w
  · exact hsettle w _
  · split
    · rfl
    · exact hsettle w _
  · rfl

theorem stop_resumeStop_ne_idle (h : w.stop ≠ .idle) : (resumeStop w).stop ≠ .idle := by
  rw [resumeStop]
  split
  · rename_i hidle
    exact absurd hidle h
  · split
    · exact nofun
    · exact nofun
    · exact h
  · exact nofun
  · split
    · exact h
    · exact nofun
    · exact nofun
  · exact h

theorem stop_resumeStop_of_idle (h : w.stop = .idle) : (resumeStop w).stop = .idle := by
  rw [resumeStop, h]
  exact h

theorem Stoppable.step (h : Stoppable w) (event : ManagerEvent)
    (hevent : event = .stop → ¬ JoinsBridge w) :
    Stoppable (step order reconnectSeconds w event) where
  forwarding := forwarding_step h.forwarding event
  halting hstop := by
    cases event with
    | resume users =>
      refine (halting_resume (h.halting ?_) users).1
      rwa [ManagerWorld.step, stop_resume] at hstop
    | taskEnds i ending => exact halting_of_main_eq (h.halting hstop) rfl
    | stop =>
      show Halting (if w.stop = .idle then _ else _)
      split
      · exact halting_of_main_eq (halting_cancelMain h.forwarding (hevent rfl)).1 rfl
      · rename_i hno
        exact h.halting hno
    | resumeStop =>
      refine halting_of_main_eq (h.halting fun hidle ↦ ?_) (main_resumeStop w)
      exact hstop (stop_resumeStop_of_idle hidle)

/-- After the request no event makes work. -/
theorem sameWork_step (h : Stoppable w) (hstop : w.stop ≠ .idle) (event : ManagerEvent) :
    SameWork w (step order reconnectSeconds w event) ∧
      (step order reconnectSeconds w event).stop ≠ .idle := by
  cases event with
  | resume users =>
    refine ⟨(halting_resume (h.halting hstop) users).2, ?_⟩
    rw [step, stop_resume]
    exact hstop
  | taskEnds i ending =>
    exact ⟨⟨List.length_modify .., rfl⟩, hstop⟩
  | stop =>
    rw [step, if_neg hstop]
    exact ⟨⟨rfl, rfl⟩, hstop⟩
  | resumeStop => exact ⟨sameWork_resumeStop w, stop_resumeStop_ne_idle hstop⟩

theorem run_append (w : ManagerWorld) (before after : List ManagerEvent) :
    run order reconnectSeconds w (before ++ after) =
      run order reconnectSeconds (run order reconnectSeconds w before) after := List.foldl_append

/-- No request comes while the task of a bridge is awaited. -/
def StopsBetween (order : SetOrder) (reconnectSeconds : Nat) (w : ManagerWorld)
    (events : List ManagerEvent) : Prop :=
  ∀ before after, events = before ++ .stop :: after →
    ¬ JoinsBridge (run order reconnectSeconds w before)

theorem stoppable_run (h : Stoppable w) {events : List ManagerEvent}
    (hevents : StopsBetween order reconnectSeconds w events) :
    Stoppable (run order reconnectSeconds w events) := by
  induction events generalizing w with
  | nil => exact h
  | cons event events ih =>
    refine ih (h.step event ?_) fun before after heq ↦ ?_
    · rintro rfl
      exact hevents [] events rfl
    · exact hevents (event :: before) after (by rw [heq]; rfl)

theorem sameWork_run (h : Stoppable w) (hstop : w.stop ≠ .idle) {events : List ManagerEvent}
    (hevents : StopsBetween order reconnectSeconds w events) :
    SameWork w (run order reconnectSeconds w events) := by
  induction events generalizing w with
  | nil => exact ⟨rfl, rfl⟩
  | cons event events ih =>
    obtain ⟨hsame, hstop'⟩ := @sameWork_step order reconnectSeconds _ h
      hstop event
    refine hsame.trans (ih (h.step event ?_) hstop' fun before after heq ↦ ?_)
    · rintro rfl
      exact hevents [] events rfl
    · exact hevents (event :: before) after (by rw [heq]; rfl)

/-- A manager whose task has just been created. -/
def started (s : ManagerState) : ManagerWorld where
  manager := s

theorem stoppable_started (s : ManagerState) : Stoppable (started s) :=
  ⟨trivial, fun h ↦ absurd rfl h⟩

/-- **Stopping the manager stops it**: if `stop` is called while no task of a bridge is awaited,
neither a task is created nor a round begun after that. -/
theorem stop_halts (order : SetOrder) (reconnectSeconds : Nat) (s : ManagerState)
    (before after : List ManagerEvent)
    (hevents : StopsBetween order reconnectSeconds (started s) (before ++ .stop :: after)) :
    SameWork (run order reconnectSeconds (started s) before)
      (run order reconnectSeconds (started s) (before ++ .stop :: after)) := by
  have hbefore : Stoppable (run order reconnectSeconds (started s) before) := by
    refine stoppable_run (stoppable_started s) fun before' after' heq ↦ ?_
    exact hevents before' (after' ++ .stop :: after) (by rw [heq, List.append_assoc]; rfl)
  have hjoin := hevents before after rfl
  rw [run_append]
  have hstep := @Stoppable.step order reconnectSeconds _ hbefore .stop
    fun _ ↦ hjoin
  have hrest : StopsBetween order reconnectSeconds
      (step order reconnectSeconds (run order reconnectSeconds (started s) before) .stop) after := by
    intro before' after' heq
    have hnot := hevents (before ++ .stop :: before') after' (by rw [heq, List.append_assoc]; rfl)
    rwa [run_append] at hnot
  have hsame : SameWork (run order reconnectSeconds (started s) before)
        (step order reconnectSeconds (run order reconnectSeconds (started s) before) .stop) ∧
      (step order reconnectSeconds (run order reconnectSeconds (started s) before) .stop).stop ≠
        .idle := by
    by_cases hidle : (run order reconnectSeconds (started s) before).stop = .idle
    · rw [step, if_pos hidle]
      exact ⟨(halting_cancelMain hbefore.forwarding hjoin).2, nofun⟩
    · rw [step, if_neg hidle]
      exact ⟨⟨rfl, rfl⟩, hidle⟩
  exact hsame.1.trans (sameWork_run hstep hsame.2 hrest)

/-! ## A request that is lost -/

/-- A manager that goes through sets as they come. -/
def plainOrder : SetOrder := ⟨id, fun _ ↦ .refl _⟩

/-- A bridge is started, and is gone in the next round: its task has been cancelled and is awaited
now. -/
def untilJoin : List ManagerEvent :=
  [.resume (.ok []), .resume (.ok [shackOwner]), .resume (.ok []), .resume (.ok []), .resume (.ok [])]

/-- The task of the bridge ends, and the manager goes on, with a bridge that is configured again. -/
def afterJoin : List ManagerEvent :=
  [.taskEnds 0 .cancelled, .resume (.ok []), .resume (.ok []), .resume (.ok []),
    .resume (.ok [shackOwner])]

/-- The manager is told to stop, begins a round and starts a bridge. -/
theorem not_stopped_joining :
    (run plainOrder 5 (started .empty) untilJoin).rounds = 2 ∧
      (run plainOrder 5 (started .empty) untilJoin).manager.tasks.length = 1 ∧
      (run plainOrder 5 (started .empty) (untilJoin ++ .stop :: afterJoin)).rounds = 3 ∧
      (run plainOrder 5 (started .empty) (untilJoin ++ .stop :: afterJoin)).manager.tasks.length =
        2 := by
  decide +kernel

/-- A manager that is told to stop while it sleeps does. -/
theorem stop_halts_sleeping :
    SameWork (run plainOrder 5 (started .empty) [.resume (.ok []), .resume (.ok [])])
      (run plainOrder 5 (started .empty)
        ([.resume (.ok []), .resume (.ok [])] ++ .stop :: [.resume (.ok [shackOwner])])) := by
  refine stop_halts plainOrder 5 .empty _ _ fun before after heq ↦ ?_
  match before, heq with
  | [], heq => cases heq
  | [_], heq => cases heq
  | [_, _], heq =>
    cases heq
    exact id
  | [_, _, _], heq => cases heq
  | _ :: _ :: _ :: _ :: before, heq => cases before <;> cases heq

end ManagerWorld

end Ollog
