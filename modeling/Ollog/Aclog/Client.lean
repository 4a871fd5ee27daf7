import Ollog.Aclog.Parser

/-!
# The ACLog bridge

A bridge reads the messages of one connection.  When a contact is entered it keeps the event, asks
for the last full records, and takes the first full record that matches the event from the next
response; what it makes of the two, and of the text boxes it has heard of, is handed on to be
ingested.  The state of a connection is a `Bridge`, and `handleMessage` is one round of its loop.

The names of the fields are upper-cased twice on their way, and stripped.  With `UpperLaws` and
`SpaceLaw`, the second time and the stripping change nothing (`upper_strip_of_mem_parseCmd`), so a
field of an event is found under its own name.
-/

set_option autoImplicit false

namespace Ollog

open Effects OrderedDict

section

variable [UnicodeData]

/-! ## One message -/

/-- What a connection remembers: the cache of the text boxes, and the event that waits for its full
record. -/
structure Bridge where
  state : Fields := []
  pending : Option Fields := none

/-- The arguments of a call of `_ingest_aclog_record`. -/
structure Handed where
  record : Fields
  setupStationCall : Option String

/-- What a message does. -/
structure Reaction where
  bridge : Bridge
  handed : Option Handed := none
  /-- `_request_full_record` is called. -/
  requests : Bool := false

/-- The records of a response. -/
def fullRecords (message : String) : List Fields :=
  match (aclogFullRecordsFromMessage message).2 with
  | [] => [aclogFullRecordToAdif (parseCmd message).2]
  | records => records

/-- The first record of a response that matches an event. -/
def matchedRecord (pending : Fields) (message : String) : Option Fields :=
  (fullRecords message).find? fun candidate ↦
    !candidate.isEmpty && aclogRecordsMatch pending candidate

/-- `_handle_message`. -/
def handleMessage (writer : Bool) (bridge : Bridge) (message : String) : Reaction :=
  let (command, fields) := parseCmd message
  let state := updateStateFromMessage command fields bridge.state
  if command = some "ENTEREVENT" then
    let record := aclogEntereventToAdif fields state
    if writer then { bridge := ⟨state, some record⟩, requests := true }
    else { bridge := ⟨state, none⟩, handed := some ⟨record, state.get "ACLOG_SETUP_CALL"⟩ }
  else
    match bridge.pending with
    | none => { bridge := ⟨state, none⟩ }
    | some pending =>
      if !isAclogFullRecordResponse command fields then { bridge := ⟨state, some pending⟩ }
      else
        match matchedRecord pending message with
        | none => { bridge := ⟨state, none⟩ }
        | some full => {
            bridge := ⟨state, none⟩
            handed := some ⟨mergeAclogRecords pending full state, state.get "ACLOG_SETUP_CALL"⟩ }

/-- One round of the loop of `run_aclog_bridge`, which has a writer. -/
def Bridge.step (bridge : Bridge) (message : String) : Bridge :=
  (handleMessage true bridge message).bridge

/-- The state of a connection after some messages. -/
def bridgeAfter (messages : List String) : Bridge := run Bridge.step {} messages

/-- Whether a message says that a contact has been entered. -/
def isEnterevent (message : String) : Bool := (parseCmd message).1 = some "ENTEREVENT"

/-- Whether a message is a response with full records. -/
def isFullResponse (message : String) : Bool :=
  isAclogFullRecordResponse (parseCmd message).1 (parseCmd message).2

/-! ## What a message does to the bridge -/

/-- The cache after a message does not depend on what is pending. -/
theorem state_step (bridge : Bridge) (message : String) : (bridge.step message).state =
    updateStateFromMessage (parseCmd message).1 (parseCmd message).2 bridge.state := by
  rw [Bridge.step, handleMessage]
  dsimp only
  split
  · rfl
  split
  · rfl
  split
  · rfl
  split <;> rfl

/-- An event leaves the cache as it is. -/
theorem state_step_of_event {bridge : Bridge} {message : String}
    (h : isEnterevent message = true) : (bridge.step message).state = bridge.state := by
  rw [state_step, of_decide_eq_true h, updateStateFromMessage, if_neg (by decide),
    if_neg (by decide), if_neg (by decide)]

theorem pending_step_of_event {bridge : Bridge} {message : String}
    (h : isEnterevent message = true) : (bridge.step message).pending =
      some (aclogEntereventToAdif (parseCmd message).2 bridge.state) := by
  have hstate := @state_step_of_event _ bridge _ h
  rw [state_step] at hstate
  rw [Bridge.step, handleMessage]
  dsimp only
  rw [if_pos (of_decide_eq_true h), if_pos rfl, hstate]

/-- Nothing but an event makes something pending. -/
theorem pending_step_of_not_event {bridge : Bridge} {message : String}
    (h : isEnterevent message = false) : (bridge.step message).pending =
      if isFullResponse message then none else bridge.pending := by
  rw [Bridge.step, handleMessage]
  dsimp only
  rw [if_neg (of_decide_eq_false h)]
  rw [isFullResponse]
  cases bridge.pending with
  | none => exact (ite_self _).symm
  | some pending =>
    dsimp only
    cases isAclogFullRecordResponse (parseCmd message).1 (parseCmd message).2 with
    | false => rfl
    | true =>
      simp only [Bool.not_true, Bool.false_eq_true, if_false, if_true]
      split <;> rfl

/-- **What a message hands over** is made of the event that is pending, the first record of the
message that matches it, and the cache. -/
theorem handed_eq_some {bridge : Bridge} {message : String} {handed : Handed} :
    (handleMessage true bridge message).handed = some handed ↔
      isEnterevent message = false ∧ isFullResponse message = true ∧
      ∃ pending full, bridge.pending = some pending ∧ matchedRecord pending message = some full ∧
        handed = ⟨mergeAclogRecords pending full (bridge.step message).state,
          (bridge.step message).state.get "ACLOG_SETUP_CALL"⟩ := by
  rw [state_step, isEnterevent, isFullResponse]
  rw [handleMessage]
  dsimp only
  by_cases hevent : (parseCmd message).1 = some "ENTEREVENT"
  · rw [if_pos hevent, if_pos rfl]
    simp only [hevent, decide_true, reduceCtorEq, Bool.true_eq_false, false_and]
  rw [if_neg hevent]
  simp only [hevent, decide_false, true_and]
  cases hpending : bridge.pending with
  | none => simp only [reduceCtorEq, false_and, exists_false, and_false]
  | some pending =>
    dsimp only
    cases isAclogFullRecordResponse (parseCmd message).1 (parseCmd message).2 with
    | false => simp only [Bool.not_false, if_true, reduceCtorEq, Bool.false_eq_true, false_and]
    | true =>
      simp only [Bool.not_true, Bool.false_eq_true, if_false, true_and, Option.some.injEq]
      cases hmatched : matchedRecord pending message with
      | none =>
        simp only [reduceCtorEq, false_iff, not_exists, not_and]
        rintro _ _ rfl hsome
        cases hmatched.symm.trans hsome
      | some full =>
        simp only [Option.some.injEq]
        constructor
        · rintro rfl
          exact ⟨pending, full, rfl, hmatched, rfl⟩
        · rintro ⟨_, full', rfl, hfull, rfl⟩
          obtain rfl := Option.some.inj (hmatched.symm.trans hfull)
          rfl

end

end Ollog
