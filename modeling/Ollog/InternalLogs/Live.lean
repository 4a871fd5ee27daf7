import Ollog.InternalLogs.Service
import Ollog.Lib.Broadcast

/-!
# The live log

A call of `log` stores its entry, waits for the database, and broadcasts the entry to the sessions
of the live log.  The manager of these sessions belongs to one process, while the entries of all
processes are stored in one database.  So a session is given what calls of its own process broadcast
while it is open, in the order of the broadcasts, and nothing of what another process stores
(`live_log_exact`).
-/

set_option autoImplicit false

namespace Ollog

open Effects Broadcast

variable {ι ρ : Type}

/-- The deployment with its calls, and the `log_manager` of each process with its sessions. -/
structure LiveDeployment (ι ρ : Type) where
  deployment : LogState ι ρ
  managers : ρ → Listeners ApplicationLog

/-- What happens in a process. -/
inductive LiveLogEvent (ι ρ : Type) where
  /-- A call takes its next step. -/
  | call (i : ι)
  /-- `logs_events` begins. -/
  | openSession (p : ρ)
  /-- A session yields the next entry. -/
  | yieldEntry (p : ρ) (q : Nat)
  /-- `logs_events` ends. -/
  | closeSession (p : ρ) (q : Nat)

namespace LiveDeployment

variable [DecidableEq ι] [DecidableEq ρ] [UnicodeData] (requests : ι → LogRequest ρ)

omit [DecidableEq ι] [UnicodeData] in
/-- What happens at one manager. -/
def act (p : ρ) (action : Action ApplicationLog) (s : LiveDeployment ι ρ) : LiveDeployment ι ρ :=
  { s with managers := Function.update s.managers p ((s.managers p).step action) }

omit [DecidableEq ι] [DecidableEq ρ] [UnicodeData] in
/-- The entry that an event stores, and the call that does. -/
def stored (s : LiveDeployment ι ρ) : LiveLogEvent ι ρ → Option (ι × ApplicationLog)
  | .call i => storedAt s.deployment i
  | .openSession _ | .yieldEntry .. | .closeSession .. => none

omit [DecidableEq ι] [DecidableEq ρ] [UnicodeData] in
/-- The entry that a call has stored and is about to broadcast. -/
def waiting (s : LiveDeployment ι ρ) (i : ι) : Option ApplicationLog :=
  (s.deployment.threads i).announcing

omit [DecidableEq ι] [DecidableEq ρ] [UnicodeData] in
/-- The entry that an event broadcasts. -/
def announced (s : LiveDeployment ι ρ) : LiveLogEvent ι ρ → Option (ι × ApplicationLog)
  | .call i => (s.waiting i).map (i, ·)
  | .openSession _ | .yieldEntry .. | .closeSession .. => none

/-- One event.  A call broadcasts at the manager of its own process. -/
def step (s : LiveDeployment ι ρ) (event : LiveLogEvent ι ρ) : LiveDeployment ι ρ :=
  match event with
  | .call i =>
    let s' : LiveDeployment ι ρ := { s with deployment := logStep requests s.deployment i }
    (s.waiting i).elim s' fun entry ↦ s'.act (requests i).process (.broadcast entry)
  | .openSession p => s.act p .connect
  | .yieldEntry p q => s.act p (.take q)
  | .closeSession p q => s.act p (.disconnect q)

/-- The entries that a history stores, in the order of the inserts. -/
def insertions : LiveDeployment ι ρ → List (LiveLogEvent ι ρ) → List (ι × ApplicationLog) :=
  Outbox.along (step requests) stored

/-- The entries that a history broadcasts, in the order of the broadcasts. -/
def announcements : LiveDeployment ι ρ → List (LiveLogEvent ι ρ) → List (ι × ApplicationLog) :=
  Outbox.along (step requests) announced

omit [DecidableEq ι] [UnicodeData] in
/-- Those of the entries that are from calls of one process. -/
def ownEntries (p : ρ) (items : List (ι × ApplicationLog)) : List (ι × ApplicationLog) :=
  Outbox.ofKind (fun i ↦ (requests i).process = p) items

/-! ## What the managers and the database see -/

omit [DecidableEq ι] [UnicodeData] in
/-- What an event does to the manager of a process. -/
def actionsAt (p : ρ) (s : LiveDeployment ι ρ) (event : LiveLogEvent ι ρ) :
    List (Action ApplicationLog) :=
  match event with
  | .call _ => (ownEntries requests p (s.announced event).toList).map fun item ↦ .broadcast item.2
  | .openSession p' => if p' = p then [.connect] else []
  | .yieldEntry p' q => if p' = p then [.take q] else []
  | .closeSession p' q => if p' = p then [.disconnect q] else []

variable {requests} {s : LiveDeployment ι ρ} {p : ρ}

omit [DecidableEq ι] [UnicodeData] in
theorem managers_act (p' : ρ) (action : Action ApplicationLog) : (s.act p' action).managers p =
    run Listeners.step (s.managers p) (if p' = p then [action] else []) := by
  rw [act]
  dsimp only
  by_cases hp : p' = p
  · subst hp
    rw [Function.update_self, if_pos rfl]
    rfl
  · rw [Function.update_of_ne (Ne.symm hp), if_neg hp]
    rfl

theorem managers_step (p : ρ) (s : LiveDeployment ι ρ) (event : LiveLogEvent ι ρ) :
    (s.step requests event).managers p =
      run Listeners.step (s.managers p) (s.actionsAt requests p event) := by
  cases event with
  | call i =>
    rw [step, actionsAt, announced, ownEntries, Outbox.ofKind]
    cases s.waiting i with
    | none => rfl
    | some entry =>
      refine (managers_act (requests i).process (.broadcast entry)).trans ?_
      by_cases hp : (requests i).process = p <;> simp [hp]
  | openSession p' => exact managers_act p' .connect
  | yieldEntry p' q => exact managers_act p' (.take q)
  | closeSession p' q => exact managers_act p' (.disconnect q)

theorem deployment_step_call (s : LiveDeployment ι ρ) (i : ι) :
    (s.step requests (.call i)).deployment = logStep requests s.deployment i := by
  rw [step]
  cases s.waiting i <;> rfl

theorem logs_step (event : LiveLogEvent ι ρ) : (s.step requests event).deployment.store.logs =
    s.deployment.store.logs ++ (s.stored event).toList.map Prod.snd := by
  cases event with
  | call i =>
    rw [deployment_step_call]
    exact logs_logStep s.deployment i
  | openSession p' => exact (List.append_nil _).symm
  | yieldEntry p' q => exact (List.append_nil _).symm
  | closeSession p' q => exact (List.append_nil _).symm

theorem logs_run (s : LiveDeployment ι ρ) (events : List (LiveLogEvent ι ρ)) :
    (run (step requests) s events).deployment.store.logs =
      s.deployment.store.logs ++ (s.insertions requests events).map Prod.snd := by
  induction events generalizing s with
  | nil => exact (List.append_nil _).symm
  | cons event events ih =>
    rw [run_cons, ih, logs_step, insertions, Outbox.along, List.map_append, List.append_assoc]

theorem broadcasts_history (s : LiveDeployment ι ρ) (events : List (LiveLogEvent ι ρ)) :
    Listeners.broadcasts (history (step requests) (actionsAt requests p) s events) =
      (ownEntries requests p (s.announcements requests events)).map Prod.snd := by
  induction events generalizing s with
  | nil => rfl
  | cons event events ih =>
    rw [history, Listeners.broadcasts, List.filterMap_append, announcements, Outbox.along,
      ownEntries, Outbox.ofKind, List.filter_append, List.map_append]
    congr 1
    · cases event with
      | call i =>
        rw [actionsAt, ownEntries, Outbox.ofKind, List.filterMap_map, ← List.filterMap_eq_map]
        rfl
      | openSession p' =>
        rw [actionsAt]
        split <;> rfl
      | yieldEntry p' q =>
        rw [actionsAt]
        split <;> rfl
      | closeSession p' q =>
        rw [actionsAt]
        split <;> rfl
    · exact ih _

omit [DecidableEq ι] [UnicodeData] in
/-- Nothing but closing a session of the process disconnects its queue. -/
theorem eq_closeSession {event : LiveLogEvent ι ρ} {q : Nat}
    (h : .disconnect q ∈ s.actionsAt requests p event) : event = .closeSession p q := by
  cases event with
  | call i => simp [actionsAt] at h
  | openSession p' =>
    rw [actionsAt] at h
    split at h <;> simp at h
  | yieldEntry p' q' =>
    rw [actionsAt] at h
    split at h <;> simp at h
  | closeSession p' q' =>
    rw [actionsAt] at h
    split at h
    · rename_i hp
      cases List.mem_singleton.1 h
      rw [hp]
    · cases h

/-! ## What a call stores and broadcasts -/

/-- A call broadcasts next what it stores, and nothing else. -/
theorem announcing_advance (request : LogRequest ρ) (phase : LogPhase) (store : LogDeployment ρ) :
    (request.advance phase store).1.announcing = phase.storing := by
  rw [LogRequest.advance.eq_def]
  cases phase with
  | begin =>
    dsimp only
    obtain ⟨answer, heq⟩ | ⟨entry, heq⟩ | ⟨settings, heq⟩ | heq := request.begins_cases store <;>
      rw [heq] <;> rfl
  | found settings =>
    dsimp only
    obtain ⟨answer, heq⟩ | ⟨entry, heq⟩ := request.withSettings_cases (settings.getD {}) <;>
      rw [heq] <;> rfl
  | write settings found =>
    dsimp only
    split <;> rfl
  | lookUp | insert _ | broadcast _ | find _ | keep _ | finished _ => rfl

/-- **A call broadcasts what it has stored**, after it has stored it. -/
theorem accounts : Outbox.Accounts (step requests) waiting stored (@announced ι ρ) := by
  intro s event j
  cases event with
  | call i =>
    rw [waiting, waiting, deployment_step_call, stored, announced, waiting, storedAt, logStep]
    by_cases hj : j = i
    · subst hj
      rw [Pool.threads_step_self, announcing_advance]
      cases (s.deployment.threads j).announcing <;> cases (s.deployment.threads j).storing <;> simp
    · rw [Pool.threads_step_of_ne hj]
      cases (s.deployment.threads i).announcing <;> cases (s.deployment.threads i).storing <;>
        simp [Ne.symm hj]
  | openSession p => exact List.append_nil _
  | yieldEntry p q => exact List.append_nil _
  | closeSession p q => exact List.append_nil _

/-! ## A session -/

/-- **A session of the live log** is given the entries that calls of its own process broadcast while
it is open, in the order of the broadcasts and each once; when it has yielded what waits it has
yielded them all; and after it is closed it is given nothing more.  Every call broadcasts the entry
it has stored, once and after storing it, and nothing else, unless it still waits to at the end; so
if no call of the process is between the two when the session opens, and none in the end, the session
has been given the entries that the process stored while it was open.  All processes store into one
log. -/
theorem live_log_exact (requests : ι → LogRequest ρ) (s : LiveDeployment ι ρ) (p : ρ)
    (events rest : List (LiveLogEvent ι ρ)) :
    let q := (s.managers p).hub.next
    let opened := s.step requests (.openSession p)
    let t := run (step requests) opened events
    let entries := opened.insertions requests events
    let shown := opened.announcements requests events
    .closeSession p q ∉ events →
      (t.managers p).given q = (ownEntries requests p shown).map Prod.snd ∧
      ((run (step requests) t (List.replicate ((t.managers p).hub.items q).length
        (.yieldEntry p q))).managers p).taken q = (t.managers p).given q ∧
      ((run (step requests) t (.closeSession p q :: rest)).managers p).given q =
        (t.managers p).given q ∧
      (∀ i, (s.waiting i).toList ++ Outbox.itemsOf i entries =
        Outbox.itemsOf i shown ++ (t.waiting i).toList) ∧
      ((∀ i, (requests i).process = p → s.waiting i = none) →
        (∀ i, (requests i).process = p → t.waiting i = none) →
          (ownEntries requests p shown).Perm (ownEntries requests p entries)) ∧
      t.deployment.store.logs = s.deployment.store.logs ++ entries.map Prod.snd := by
  intro q opened t entries shown hopen
  have hopened : opened.managers p = (s.managers p).step .connect := Function.update_self ..
  refine ⟨?_, ?_, ?_, ?_, ?_, logs_run opened events⟩
  · refine (given_of_session (fun s : LiveDeployment ι ρ ↦ s.managers p) (s := s)
      (managers_step p) hopened ?_).trans (broadcasts_history opened events)
    exact fun event hevent t hmem ↦ hopen (eq_closeSession hmem ▸ hevent)
  · exact taken_of_yields (fun s : LiveDeployment ι ρ ↦ s.managers p)
      (fun _ ↦ Function.update_self ..) t
  · have hq : q < (opened.managers p).hub.next := hopened ▸ Nat.lt_succ_self q
    exact given_of_closed (fun s : LiveDeployment ι ρ ↦ s.managers p) (managers_step p)
      (if_pos rfl) (lt_next_run_of_open (fun s : LiveDeployment ι ρ ↦ s.managers p)
        (managers_step p) hq)
  · exact Outbox.accounts_run accounts opened events
  · intro hstart hend
    exact Outbox.perm_of_quiet accounts (fun i ↦ (requests i).process = p) hstart hend

end LiveDeployment

section

attribute [local instance] UnicodeData.ascii

/-- Two calls of the second process and one of the first. -/
def Sample.errorRequests : Fin 3 → LogRequest Bool
  | 0 => .log false 0 { level := "Error", message := "Backup failed", source := "backup" }
  | 1 => .log true 1 { level := "Error", message := "Restore failed", source := "restore" }
  | 2 => .log true 2 { level := "Fatal", message := "Import failed", source := "adif" }

/-- Two processes that have stored nothing, and a session in the second. -/
def Sample.liveLog : LiveDeployment (Fin 3) Bool :=
  LiveDeployment.step Sample.errorRequests ⟨logStart (Fin 3) Bool none [], fun _ ↦ .empty⟩
    (.openSession true)

/-- The calls store their entries in turn, and broadcast them the other way round. -/
def Sample.logOverlap : List (LiveLogEvent (Fin 3) Bool) :=
  [0, 1, 2, 0, 1, 2, 0, 1, 2, 0, 1, 2, 2, 1, 0].map .call

/-- A session in the second process is given the two entries of its process, in the order of the
broadcasts, while the log holds those of both processes in the order of the inserts. -/
theorem live_log_exact_of_overlap :
    (((run (LiveDeployment.step Sample.errorRequests) Sample.liveLog Sample.logOverlap).managers
        true).given 0).map ApplicationLog.message = ["Import failed", "Restore failed"] ∧
      (run (LiveDeployment.step Sample.errorRequests) Sample.liveLog
        Sample.logOverlap).deployment.store.logs.map ApplicationLog.message =
          ["Backup failed", "Restore failed", "Import failed"] := by
  have hopen : .closeSession true 0 ∉ Sample.logOverlap := by simp [Sample.logOverlap]
  have hexact := LiveDeployment.live_log_exact Sample.errorRequests
    ⟨logStart (Fin 3) Bool none [], fun _ ↦ .empty⟩ true Sample.logOverlap [] hopen
  refine ⟨(congrArg (List.map ApplicationLog.message) hexact.1).trans ?_,
    (congrArg (List.map ApplicationLog.message) hexact.2.2.2.2.2).trans ?_⟩
  · decide +kernel
  · decide +kernel

end

end Ollog
