import Ollog.Aclog.Identity
import Ollog.Aclog.Layouts
import Ollog.Aclog.Manager
import Ollog.Aclog.OtherSlots
import Ollog.Aclog.Provenance
import Ollog.Aclog.Reading
import Ollog.Udp.Resending

/-!
# The manual sync

`sync_aclog_bridge` fetches the log of ACLog over one connection and ingests the records that are
the user's.  Everything that can be wrong with a record is counted and, a few times, shown as an
example; the connection may fail, and that is reported too.

What is certain whatever ACLog sends is `sync_accounts`: every record is counted in one place, the
log is only added to, and a sync that raises has added nothing.  `sync_again` is about the next
sync, which fetches the same records once more.
-/

set_option autoImplicit false

namespace Ollog

open Effects OrderedDict

/-! ## The report -/

/-- An entry of `ACLogSyncReport.examples`. -/
structure ACLogSyncExample where
  index : String
  call : String
  reason : String
  deriving DecidableEq, Repr

/-- `ACLogSyncReport`. -/
structure ACLogSyncReport where
  bridgeName : String
  host : String
  port : Int
  received : Nat := 0
  imported : Nat := 0
  skipped : Nat := 0
  skippedMissingOperator : Nat := 0
  skippedUnmatchedOperator : Nat := 0
  errors : Nat := 0
  examples : List ACLogSyncExample := []
  failureReason : Option String := none
  deriving DecidableEq, Repr

/-- `ACLogSyncReport.failed`. -/
def ACLogSyncReport.failed (report : ACLogSyncReport) : Bool := report.failureReason.isSome

/-- `ACLOG_SYNC_EXAMPLE_LIMIT`. -/
def aclogSyncExampleLimit : Nat := 5

/-- `_append_example`. -/
def appendExample (report : ACLogSyncReport) (index : Nat) (record : Fields) (reason : String) :
    ACLogSyncReport :=
  if aclogSyncExampleLimit ≤ report.examples.length then report
  else { report with
    examples := report.examples ++ [{
      index := toString (index + 1)
      call := if (record.get "CALL").getD "" = "" then "?" else (record.get "CALL").getD ""
      reason := reason }] }

/-! ## The sync -/

/-- The dictionary of a record, without its order. -/
def toRecord (fields : Fields) : Record := fields.foldl (fun d item ↦ d.insert item.1 item.2) ∅

section

variable [UnicodeData]

/-- One round of the loop of `sync_aclog_bridge`. -/
def syncRecord (envs : Nat → Env) (user : User) (bridge : ACLogBridge)
    (setupStationCall : Option String) (report : ACLogSyncReport) (item : Fields × Nat) :
    Db ACLogSyncReport := do
  let (record, index) := item
  let identity := matchAclogOperatorIdentity record (.user user) setupStationCall
  match identity.disposition with
  | .missing =>
    let report := { report with skippedMissingOperator := report.skippedMissingOperator + 1 }
    return appendExample report index record "missing ACLog station/operator identity"
  | .unmatched =>
    let report := { report with skippedUnmatchedOperator := report.skippedUnmatchedOperator + 1 }
    return appendExample report index record
      ("unmatched ACLog " ++ identity.field.getD "None" ++ ": " ++ identity.value.getD "None")
  | .matched =>
    let mapped ← ofExcept (mapOtherSlotsToCustomFields record user)
    match ← attempt (ingestQsoRecord (envs index) (toRecord mapped) user.callsign (some user)
        ("aclog-sync:" ++ bridge.id)) with
    | .error exc =>
      return appendExample { report with errors := report.errors + 1 } index mapped (PyErr.str exc)
    | .ok (.accepted _ _) => return { report with imported := report.imported + 1 }
    | .ok (.duplicate _) => return { report with skipped := report.skipped + 1 }
    | .ok (.rejected reason) =>
      return appendExample { report with errors := report.errors + 1 } index mapped reason

/-- The records in what a connection has brought. -/
def syncRecords (raw : List UInt8) : List Fields :=
  (iterCmdMessages (String.ofList (decodeUtf8 raw))).flatMap fun message ↦
    (aclogFullRecordsFromMessage message).2

/-- What becomes of the connection: an `OSError` or a timeout, or what is read. -/
inductive SyncConnection where
  | failed (reason : String)
  | established (reception : Reception)

/-- The records that are received. -/
def SyncConnection.records : SyncConnection → List Fields
  | .failed _ => []
  | .established reception =>
    match readSyncResponses reception with
    | .received _ raw => syncRecords raw
    | .timedOut => []
    | .lineTooLong => []

/-- The report before anything has happened. -/
def startReport (bridge : ACLogBridge) : ACLogSyncReport where
  bridgeName := if bridge.name = "" then bridge.host else bridge.name
  host := bridge.host
  port := bridge.port

omit [UnicodeData] in
/-- The log of an account is a collection with a name that the database accepts. -/
theorem collectionNameOk_of_account {user : User} {coll : String}
    (h : qsoCollectionName user.username = .ok coll) : collectionNameOk coll = true :=
  collectionNameOk_of_user h

/-- `sync_aclog_bridge`. -/
def syncAclogBridge (envs : Nat → Env) (user : User) (bridge : ACLogBridge)
    (connection : SyncConnection) : EStateM PyErr Database ACLogSyncReport :=
  match connection with
  | .failed reason => return { startReport bridge with failureReason := some reason }
  | .established reception =>
    match readSyncResponses reception with
    | .timedOut => return { startReport bridge with failureReason := some "TimeoutError" }
    | .lineTooLong => throw (.valueError reception.limitText)
    | .received setupStationCall raw =>
      match hcoll : qsoCollectionName user.username with
      | .error exc => throw exc
      | .ok coll => Database.on coll (collectionNameOk_of_account hcoll)
          ((syncRecords raw).zipIdx.foldlM (syncRecord envs user bridge setupStationCall)
            { startReport bridge with received := (syncRecords raw).length })

end

/-! ## What is received -/

section

variable [UnicodeData]

/-- **A sync takes the first list** of all that comes, and the last call the settings have given
before it, however the lines break the messages; what comes behind it makes no difference.  If there
is no list, it takes every message, provided that the connection is closed, and otherwise fails. -/
theorem sync_receives_first_listing (reception : Reception) :
    let payload := reception.lines.1.flatten
    (∀ before listing behind, messagesIn payload = before ++ listing :: behind →
      (∀ message ∈ before, isListing message = false) → isListing listing = true →
      readSyncResponses reception =
          .received (lastSetupCall before) (encodeUtf8 listing.toList) ∧
        (SyncConnection.established reception).records =
          (aclogFullRecordsFromMessage listing).2) ∧
    ((∀ message ∈ messagesIn payload, isListing message = false) →
      readSyncResponses reception = match reception.lines.2 with
        | .closed => .received (lastSetupCall (messagesIn payload)) payload
        | .silent => .timedOut
        | .tooLong => .lineTooLong) := by
  intro payload
  have hread : readSyncResponses reception = reception.lines.2.responses payload
      (Rescan.lookThrough noteSetupCall isListing none (messagesIn payload)) := by
    rw [readSyncResponses_eq, readAtOnce, lookThrough_iterCmdMessages]
  refine ⟨fun before listing behind hmessages hbefore hlisting ↦ ?_, fun hnone ↦ ?_⟩
  · have hreceived : readSyncResponses reception =
        .received (lastSetupCall before) (encodeUtf8 listing.toList) := by
      rw [hread, hmessages, Rescan.lookThrough_append_of_none hbefore, Rescan.lookThrough,
        if_pos hlisting, foldl_noteSetupCall, LinesEnd.responses]
    have hlisted : listing ∈ messagesIn payload :=
      hmessages ▸ List.mem_append_right _ (List.mem_cons_self ..)
    refine ⟨hreceived, ?_⟩
    rw [SyncConnection.records, hreceived]
    dsimp only
    rw [syncRecords, decodeUtf8_encodeUtf8, String.ofList_toList,
      iterCmdMessages_of_mem_messagesIn hlisted, List.flatMap_singleton]
  · have hall : Rescan.lookThrough noteSetupCall isListing none (messagesIn payload) =
        (lastSetupCall (messagesIn payload), none) := by
      rw [← List.append_nil (messagesIn payload), Rescan.lookThrough_append_of_none hnone,
        Rescan.lookThrough, foldl_noteSetupCall, List.append_nil]
    rw [hread, hall]
    cases reception.lines.2 <;> rfl

/-- **A list in the flat layout**, on one line of a connection that is closed then, is received, and
its records are those of its contacts. -/
theorem sync_receives_layout {command : ListCommand} {closed : Bool}
    {contacts : List ListedContact} {reception : Reception}
    (hcommand : command.1 = "LIST" ∨ command.1 = "LISTRESPONSE")
    (hlines : reception.lines =
      ([encodeUtf8 (flatLayout command closed contacts).toList], .closed)) :
    readSyncResponses reception =
        .received none (encodeUtf8 (flatLayout command closed contacts).toList) ∧
      syncRecords (encodeUtf8 (flatLayout command closed contacts).toList) =
        contacts.map fun contact ↦ aclogFullRecordToAdif contact.dict := by
  obtain ⟨hstream, hparsed⟩ := isStream_flatLayout command closed contacts
  have hmessages := iterCmdMessages_eq hstream
  rw [List.map_singleton, String.ofList_toList] at hmessages
  have hlisting : isListing (flatLayout command closed contacts) = true := by
    rw [isListing, hparsed]
    exact decide_eq_true (hcommand.imp (congrArg some) (congrArg some))
  constructor
  · rw [readSyncResponses_eq, readAtOnce, hlines, List.flatten_singleton, decodeUtf8_encodeUtf8,
      String.ofList_toList, hmessages, Rescan.lookThrough, if_pos hlisting, LinesEnd.responses]
  · rw [syncRecords, decodeUtf8_encodeUtf8, String.ofList_toList, hmessages,
      List.flatMap_singleton, fullRecords_flatLayout]

end

section

attribute [local instance] UnicodeData.ascii

/-- A listing of one contact. -/
@[irreducible] def Sample.listed : String :=
  "<CMD><LIST><CALL>K1ABC</CALL><DATE>20240101</DATE><TIMEON>1200</TIMEON><BAND>20</BAND>" ++
    "<MODE>SSB</MODE></CMD>"

/-- A connection that brings it, and is closed. -/
@[irreducible] def Sample.listing : Reception where
  bytes := encodeUtf8 Sample.listed.toList
  closed := true

theorem iterCmdMessages_listed : iterCmdMessages Sample.listed = [Sample.listed] := by
  decide +kernel

theorem flatten_lines_listing :
    Sample.listing.lines.1.flatten = encodeUtf8 Sample.listed.toList := by decide +kernel

theorem isListing_listed : isListing Sample.listed = true := by decide +kernel

/-- The list is received. -/
theorem sync_receives_listing :
    readSyncResponses Sample.listing = .received none (encodeUtf8 Sample.listed.toList) ∧
      (SyncConnection.established Sample.listing).records =
        (aclogFullRecordsFromMessage Sample.listed).2 := by
  have hmatches : cmdMatchesWithin (Sample.listed.toList.length + 1) Sample.listed.toList =
      [Sample.listed.toList] := by decide +kernel
  have hmessages : messagesIn Sample.listing.lines.1.flatten = [] ++ Sample.listed :: [] := by
    rw [flatten_lines_listing, messagesIn, decodeUtf8_encodeUtf8, hmatches, List.map_singleton,
      String.ofList_toList, List.nil_append]
  exact (sync_receives_first_listing Sample.listing).1 [] Sample.listed [] hmessages
    (fun _ h ↦ absurd h List.not_mem_nil) isListing_listed

theorem readSyncResponses_listing : readSyncResponses Sample.listing =
    .received none (encodeUtf8 Sample.listed.toList) := by
  rw [readSyncResponses_eq, readAtOnce, flatten_lines_listing, decodeUtf8_encodeUtf8, String.ofList_toList,
    iterCmdMessages_listed, Rescan.lookThrough, if_pos isListing_listed, LinesEnd.responses]

end

/-! ## The records are ADIF records -/

section

theorem isAdifName_normalizeFieldName {key : String} (h : isAdifName key = true) :
    isAdifName (normalizeFieldName key) = true := by
  unfold normalizeFieldName
  split <;> first | decide | exact h

/-- The names of a dictionary are ADIF names. -/
def NamesOk (fields : Fields) : Prop := ∀ item ∈ fields, isAdifName item.1 = true

theorem NamesOk.set {d : Fields} (h : NamesOk d) {k : String} (hk : isAdifName k = true)
    (v : String) : NamesOk (d.set k v) := by
  intro item hitem
  obtain rfl | hitem := mem_set hitem
  · exact hk
  · exact h item hitem

theorem NamesOk.setNonEmpty {d : Fields} (h : NamesOk d) {k : String} (hk : isAdifName k = true)
    (value : Option String) : NamesOk (setNonEmpty d k value) := by
  unfold Ollog.setNonEmpty
  split
  · exact h
  · split
    · exact h
    · exact h.set hk _

/-- A key of a dictionary is the name of an item. -/
theorem adifNamed_toRecord {fields : Fields} (h : NamesOk fields) : AdifNamed (toRecord fields) := by
  have hall : ∀ (items : Fields) (d : Record), NamesOk items → AdifNamed d →
      AdifNamed (items.foldl (fun d item ↦ d.insert item.1 item.2) d) := by
    intro items
    induction items with
    | nil => exact fun _ _ hd ↦ hd
    | cons item items ih =>
      intro d hitems hd
      obtain ⟨hitem, hitems⟩ := List.forall_mem_cons.1 hitems
      refine ih _ hitems fun k hk ↦ ?_
      rw [Std.ExtTreeMap.mem_insert, Std.compare_eq_iff_eq] at hk
      obtain rfl | hk := hk
      · exact hitem
      · exact hd k hk
  exact hall fields ∅ h fun k hk ↦ by simp at hk

theorem NamesOk.mapSlot {mapped : Fields} (h : NamesOk mapped) {field : CustomQSOField}
    (hfield : isAdifName field.adifName = true) : NamesOk (mapSlot mapped field) := by
  rw [Ollog.mapSlot]
  split
  · exact h
  split
  · exact NamesOk.set (fun item hitem ↦ h item (List.mem_filter.1 hitem).1) hfield _
  · exact h

variable [UnicodeData]

theorem NamesOk.copyFull {result : Fields} (h : NamesOk result) (item : String × String) :
    NamesOk (copyFull result item) := by
  unfold Ollog.copyFull
  dsimp only
  split
  · exact h
  split
  · exact h
  · rename_i hname
    rw [Bool.not_eq_true', Bool.not_eq_false] at hname
    exact h.setNonEmpty (isAdifName_normalizeFieldName hname) _

theorem namesOk_aclogFullRecordToAdif (fields : Fields) :
    NamesOk (aclogFullRecordToAdif fields) := by
  have hall : ∀ (items result : Fields), NamesOk result →
      NamesOk (items.foldl Ollog.copyFull result) := by
    intro items
    induction items with
    | nil => exact fun _ h ↦ h
    | cons item items ih => exact fun _ h ↦ ih _ (h.copyFull item)
  have hresult := hall fields [] fun _ h ↦ absurd h List.not_mem_nil
  unfold aclogFullRecordToAdif setBand
  dsimp only
  split
  · exact hresult
  · exact hresult.set (by decide) _

/-- What holds of every record the parser can make holds of the records of a message. -/
theorem forall_fullRecordsFromMessage {P : Fields → Prop}
    (h : ∀ fields, P (aclogFullRecordToAdif fields)) (message : String) :
    ∀ record ∈ (aclogFullRecordsFromMessage message).2, P record := by
  have happend : ∀ {records : List Fields} (fields : Fields), (∀ r ∈ records, P r) →
      ∀ r ∈ appendRecord records (aclogFullRecordToAdif fields), P r := by
    intro records fields hrecords
    rw [appendRecord]
    split
    · exact hrecords
    · exact List.forall_mem_append.2 ⟨hrecords, List.forall_mem_singleton.2 (h fields)⟩
  have hstep : ∀ (command : String) (item : String × String) (acc : List Fields × Fields),
      (∀ r ∈ acc.1, P r) → ∀ r ∈ (splitFlat command acc item).1, P r := by
    intro command item acc hacc
    rw [splitFlat]
    split
    · exact hacc
    split
    · exact happend _ hacc
    · exact hacc
  have hflat : ∀ (command : String) (items : List (String × String)) (acc : List Fields × Fields),
      (∀ r ∈ acc.1, P r) → ∀ r ∈ (items.foldl (splitFlat command) acc).1, P r := by
    intro command items
    induction items with
    | nil => exact fun _ h ↦ h
    | cons item items ih =>
      intro acc hacc
      rw [List.foldl_cons]
      exact ih (splitFlat command acc item) (hstep command item acc hacc)
  have hnested : ∀ (bodies : List (List Char × List Char)) (records : List Fields),
      (∀ r ∈ records, P r) → ∀ r ∈ bodies.foldl (fun records tag ↦ appendRecord records
        (aclogFullRecordToAdif (.ofItems (extractOrderedLeafTags tag.2)))) records, P r := by
    intro bodies
    induction bodies with
    | nil => exact fun _ h ↦ h
    | cons tag bodies ih => exact fun records hrecords ↦ ih _ (happend _ hrecords)
  rw [aclogFullRecordsFromMessage]
  split
  · exact fun _ h ↦ absurd h List.not_mem_nil
  dsimp only
  split
  · exact fun _ h ↦ absurd h List.not_mem_nil
  split
  · exact happend _ (hflat _ _ _ fun _ h ↦ absurd h List.not_mem_nil)
  · exact hnested _ _ fun _ h ↦ absurd h List.not_mem_nil

theorem namesOk_of_mem_syncRecords {raw : List UInt8} {record : Fields}
    (h : record ∈ syncRecords raw) : NamesOk record := by
  obtain ⟨message, -, hrecord⟩ := List.mem_flatMap.1 h
  exact forall_fullRecordsFromMessage namesOk_aclogFullRecordToAdif message record hrecord

theorem wellNamed_of_customFields {user : Option User} {fields : List CustomQSOField}
    (h : customFieldsForUser user = .ok fields) : ∀ field ∈ fields, field.WellNamed := by
  obtain ⟨bySlot, hfold, hfields⟩ := bind_eq_ok.1 h
  have hslots : ∀ field ∈ bySlot, field.WellNamed :=
    foldlM_invariant (fun bySlot ↦ ∀ field ∈ bySlot, field.WellNamed)
      (fun _ _ _ _ ↦ wellNamed_of_normalizeItem) hfold fun _ ↦ wellNamed_of_default
  dsimp only at hfields
  split at hfields
  · cases hfields
    exact hslots
  · cases hfields

/-- Renaming the slots keeps the names in order. -/
theorem NamesOk.mapOtherSlots {record mapped : Fields} (h : NamesOk record) {user : User}
    (hmapped : mapOtherSlotsToCustomFields record user = .ok mapped) : NamesOk mapped := by
  obtain ⟨fields, hfields, hmapped⟩ := bind_eq_ok.1 hmapped
  have hall : ∀ (fields : List CustomQSOField) (record : Fields),
      (∀ field ∈ fields, field.WellNamed) → NamesOk record →
      NamesOk (fields.foldl Ollog.mapSlot record) := by
    intro fields
    induction fields with
    | nil => exact fun _ _ h ↦ h
    | cons field fields ih =>
      intro record hwell h
      obtain ⟨hfield, hwell⟩ := List.forall_mem_cons.1 hwell
      exact ih _ hwell (h.mapSlot hfield.1)
  obtain rfl := Except.ok.inj hmapped
  exact hall fields record (wellNamed_of_customFields hfields) h

/-! ## One record -/

omit [UnicodeData] in
/-- What is shown of a faulty record. -/
def syncExample (index : Nat) (record : Fields) (reason : String) : ACLogSyncExample where
  index := toString (index + 1)
  call := if (record.get "CALL").getD "" = "" then "?" else (record.get "CALL").getD ""
  reason := reason

/-- What can be wrong with a record: it is nobody's, somebody else's, or it cannot be stored. -/
inductive SyncFault where
  | missing | unmatched | error
  deriving DecidableEq, Repr

/-- What becomes of a record. -/
inductive SyncFate where
  | imported
  | duplicate
  | faulty (fault : SyncFault) (shown : ACLogSyncExample)
  deriving DecidableEq, Repr

omit [UnicodeData] in
/-- Whether it has that fault. -/
def SyncFate.has (fault : SyncFault) : SyncFate → Bool
  | faulty fault' _ => fault' = fault
  | imported | duplicate => false

omit [UnicodeData] in
/-- What there is to be shown of it. -/
def SyncFate.shown : SyncFate → Option ACLogSyncExample
  | faulty _ example' => some example'
  | imported | duplicate => none

omit [UnicodeData] in
/-- A report counts every record in one place, and shows the first faulty ones. -/
structure Tallied (report : ACLogSyncReport) (fates : List SyncFate) : Prop where
  imported : report.imported = fates.count .imported
  skipped : report.skipped = fates.count .duplicate
  missing : report.skippedMissingOperator = fates.countP (·.has .missing)
  unmatched : report.skippedUnmatchedOperator = fates.countP (·.has .unmatched)
  errors : report.errors = fates.countP (·.has .error)
  examples : report.examples = (fates.filterMap SyncFate.shown).take aclogSyncExampleLimit

omit [UnicodeData] in
theorem Tallied.counts {report : ACLogSyncReport} {fates : List SyncFate}
    (h : Tallied report fates) : report.imported + report.skipped + report.skippedMissingOperator +
      report.skippedUnmatchedOperator + report.errors = fates.length := by
  rw [h.imported, h.skipped, h.missing, h.unmatched, h.errors]
  clear h
  induction fates with
  | nil => rfl
  | cons fate fates ih =>
    rw [List.count_cons, List.count_cons, List.countP_cons, List.countP_cons, List.countP_cons,
      List.length_cons, ← ih]
    cases fate with
    | imported => simp [SyncFate.has]; omega
    | duplicate => simp [SyncFate.has]; omega
    | faulty fault shown => cases fault <;> simp [SyncFate.has] <;> omega

omit [UnicodeData] in
/-- The report in which one record more is counted. -/
structure OneMore (report counted : ACLogSyncReport) (fate : SyncFate) : Prop where
  received : counted.received = report.received
  failed : counted.failed = report.failed
  examples : counted.examples = report.examples
  imported : counted.imported = report.imported + [fate].count .imported
  skipped : counted.skipped = report.skipped + [fate].count .duplicate
  missing : counted.skippedMissingOperator =
    report.skippedMissingOperator + [fate].countP (·.has .missing)
  unmatched : counted.skippedUnmatchedOperator =
    report.skippedUnmatchedOperator + [fate].countP (·.has .unmatched)
  errors : counted.errors = report.errors + [fate].countP (·.has .error)

section

variable {report counted : ACLogSyncReport} {fates : List SyncFate} {fate : SyncFate}

omit [UnicodeData]

theorem Tallied.append (h : Tallied report fates) (hmore : OneMore report counted fate)
    {examples : List ACLogSyncExample} (hexamples : examples =
      ((fates ++ [fate]).filterMap SyncFate.shown).take aclogSyncExampleLimit) :
    Tallied { counted with examples := examples } (fates ++ [fate]) := by
  refine ⟨?_, ?_, ?_, ?_, ?_, hexamples⟩
  · rw [List.count_append, ← h.imported]
    exact hmore.imported
  · rw [List.count_append, ← h.skipped]
    exact hmore.skipped
  · rw [List.countP_append, ← h.missing]
    exact hmore.missing
  · rw [List.countP_append, ← h.unmatched]
    exact hmore.unmatched
  · rw [List.countP_append, ← h.errors]
    exact hmore.errors

/-- A record that is imported, or has been before. -/
theorem Tallied.fine (h : Tallied report fates) (hmore : OneMore report counted fate)
    (hfine : fate.shown = none) : Tallied counted (fates ++ [fate]) := by
  refine h.append hmore (hmore.examples.trans (h.examples.trans ?_))
  rw [List.filterMap_append, List.filterMap_cons, hfine, List.filterMap_nil, List.append_nil]

/-- A faulty record is shown, as long as there is room. -/
theorem Tallied.appendExample (h : Tallied report fates) {index : Nat} {record : Fields}
    {reason : String} {fault : SyncFault}
    (hmore : OneMore report counted (.faulty fault (syncExample index record reason))) :
    Tallied (appendExample counted index record reason)
      (fates ++ [.faulty fault (syncExample index record reason)]) := by
  have hshown : (fates ++ [SyncFate.faulty fault (syncExample index record reason)]).filterMap
      SyncFate.shown = fates.filterMap SyncFate.shown ++ [syncExample index record reason] :=
    List.filterMap_append
  have hexamples := hmore.examples.trans h.examples
  rw [Ollog.appendExample]
  split
  · rename_i hfull
    refine h.append hmore (hexamples.trans ?_)
    rw [hexamples, List.length_take] at hfull
    rw [hshown, List.take_append_of_le_length (by omega)]
  · rename_i hroom
    rw [hexamples, List.length_take] at hroom
    refine h.append hmore ?_
    rw [hshown, hexamples, List.take_of_length_le (by omega), List.take_of_length_le]
    · rfl
    · rw [List.length_append, List.length_singleton]
      omega

theorem appendExample_kept (report : ACLogSyncReport) (index : Nat) (record : Fields)
    (reason : String) :
    (Ollog.appendExample report index record reason).received = report.received ∧
      (Ollog.appendExample report index record reason).failed = report.failed ∧
      (Ollog.appendExample report index record reason).imported = report.imported := by
  rw [Ollog.appendExample]
  split <;> exact ⟨rfl, rfl, rfl⟩

end

/-- A record as it is passed to `ingest_qso_record`, if it is. -/
def ingestItem (envs : Nat → Env) (user : User) (setupStationCall : Option String)
    (item : Fields × Nat) : Option (Env × Record) :=
  if (matchAclogOperatorIdentity item.1 (.user user) setupStationCall).matched then
    (mapOtherSlotsToCustomFields item.1 user).toOption.map fun mapped ↦
      (envs item.2, toRecord mapped)
  else none

omit [UnicodeData] in
theorem of_wp_of_eq_ok {ε σ α : Type} {m : EStateM ε σ α} {Q : α → σ → Prop} {E : ε → σ → Prop}
    {s t : σ} {a : α} (h : wp m Q E s) (hrun : m s = .ok a t) : Q a t := by
  rw [wp, hrun] at h
  exact h

variable {envs : Nat → Env} {user : User} {bridge : ACLogBridge} {setupStationCall : Option String}
  {report : ACLogSyncReport} {item : Fields × Nat} {c : Collection}

/-- How the sync ingests a record. -/
abbrev syncIngest (user : User) (bridge : ACLogBridge) : Collection → Env × Record → Collection :=
  ingest user.callsign (some user) ("aclog-sync:" ++ bridge.id)

/-- What becomes of a record, if the log is `c` when its turn comes. -/
def syncFate (envs : Nat → Env) (user : User) (bridge : ACLogBridge)
    (setupStationCall : Option String) (c : Collection) (item : Fields × Nat) : SyncFate :=
  let (record, index) := item
  let identity := matchAclogOperatorIdentity record (.user user) setupStationCall
  match identity.disposition with
  | .missing => .faulty .missing
      (syncExample index record "missing ACLog station/operator identity")
  | .unmatched => .faulty .unmatched (syncExample index record
      ("unmatched ACLog " ++ identity.field.getD "None" ++ ": " ++ identity.value.getD "None"))
  | .matched =>
    let mapped := (mapOtherSlotsToCustomFields record user).toOption.getD record
    match (ingestQsoRecord (envs index) (toRecord mapped) user.callsign (some user)
        ("aclog-sync:" ++ bridge.id) : Db _) c with
    | .ok (.accepted _ _) _ => .imported
    | .ok (.duplicate _) _ => .duplicate
    | .ok (.rejected reason) _ => .faulty .error (syncExample index mapped reason)
    | .error exc _ => .faulty .error (syncExample index mapped (PyErr.str exc))

/-- **One record** is counted as what becomes of it, and ingested if it is the user's.  Only the
configuration of the user's fields can make it raise, and then nothing has been ingested. -/
theorem wp_syncRecord {fates : List SyncFate} (h : Tallied report fates) :
    wp (syncRecord envs user bridge setupStationCall report item)
      (fun report' c' ↦
        Tallied report' (fates ++ [syncFate envs user bridge setupStationCall c item]) ∧
        report'.received = report.received ∧ report'.failed = report.failed ∧
        c' = run (syncIngest user bridge) c (ingestItem envs user setupStationCall item).toList ∧
        c'.docs.length + report.imported = c.docs.length + report'.imported ∧
        ((matchAclogOperatorIdentity item.1 (.user user) setupStationCall).matched →
          ∃ mapped, mapOtherSlotsToCustomFields item.1 user = .ok mapped))
      (fun exc c' ↦ c' = c ∧
        (matchAclogOperatorIdentity item.1 (.user user) setupStationCall).matched ∧
        mapOtherSlotsToCustomFields item.1 user = .error exc) c := by
  obtain ⟨record, index⟩ := item
  rw [syncRecord, syncFate, ingestItem, ACLogOperatorIdentityResult.matched]
  dsimp only
  cases hdisposition : (matchAclogOperatorIdentity record (.user user) setupStationCall).disposition
  case missing =>
    dsimp only
    obtain ⟨hreceived, hfailed, himported⟩ := appendExample_kept { report with
      skippedMissingOperator := report.skippedMissingOperator + 1 } index record
        "missing ACLog station/operator identity"
    rw [wp_pure]
    refine ⟨h.appendExample ⟨rfl, rfl, rfl, rfl, rfl, rfl, rfl, rfl⟩, hreceived, hfailed, rfl, ?_,
      fun h ↦ by cases h⟩
    rw [himported]
  case unmatched =>
    dsimp only
    obtain ⟨hreceived, hfailed, himported⟩ := appendExample_kept { report with
      skippedUnmatchedOperator := report.skippedUnmatchedOperator + 1 } index record
        ("unmatched ACLog " ++ (matchAclogOperatorIdentity record (.user user)
          setupStationCall).field.getD "None" ++ ": " ++ (matchAclogOperatorIdentity record
            (.user user) setupStationCall).value.getD "None")
    rw [wp_pure]
    refine ⟨h.appendExample ⟨rfl, rfl, rfl, rfl, rfl, rfl, rfl, rfl⟩, hreceived, hfailed, rfl, ?_,
      fun h ↦ by cases h⟩
    rw [himported]
  case matched =>
    dsimp only
    rw [wp_bind, wp_ofExcept]
    refine ⟨fun mapped hmapped ↦ ?_, fun exc hexc ↦ ⟨rfl, rfl, hexc⟩⟩
    have hexists : ∃ m, mapOtherSlotsToCustomFields record user = .ok m := ⟨mapped, hmapped⟩
    have hoption : (mapOtherSlotsToCustomFields record user).toOption = some mapped := by
      rw [hmapped]
      rfl
    rw [decide_eq_true rfl, if_pos rfl, hoption, Option.map_some, Option.getD_some,
      Option.toList_some, run_cons, run_nil, wp_bind, wp_attempt]
    have hingest := @wp_ingestQsoRecord _ (envs index) (toRecord mapped) user.callsign (some user)
      ("aclog-sync:" ++ bridge.id) c
    rw [syncIngest, ingest, after]
    rw [wp] at hingest ⊢
    cases hrun : (ingestQsoRecord (envs index) (toRecord mapped) user.callsign (some user)
        ("aclog-sync:" ++ bridge.id) : Db _) c with
    | ok result c' =>
      rw [hrun] at hingest
      dsimp only at hingest ⊢
      cases result with
      | accepted id source =>
        obtain ⟨doc, hinsert⟩ := hingest
        rw [wp_pure]
        refine ⟨h.fine ⟨rfl, rfl, rfl, rfl, rfl, rfl, rfl, rfl⟩ rfl, rfl, rfl, rfl, ?_,
          fun _ ↦ hexists⟩
        rw [(Collection.insert_eq_ok hinsert).1, List.length_append, List.length_singleton]
        dsimp only
        omega
      | duplicate existingId =>
        rw [wp_pure]
        refine ⟨h.fine ⟨rfl, rfl, rfl, rfl, rfl, rfl, rfl, rfl⟩ rfl, rfl, rfl, rfl, ?_,
          fun _ ↦ hexists⟩
        rw [show c' = c from hingest]
      | rejected reason =>
        obtain ⟨hreceived, hfailed, himported⟩ := appendExample_kept { report with
          errors := report.errors + 1 } index mapped reason
        rw [wp_pure]
        refine ⟨h.appendExample ⟨rfl, rfl, rfl, rfl, rfl, rfl, rfl, rfl⟩, hreceived, hfailed, rfl,
          ?_, fun _ ↦ hexists⟩
        rw [show c' = c from hingest, himported]
    | error exc c' =>
      rw [hrun] at hingest
      dsimp only at hingest ⊢
      obtain ⟨hreceived, hfailed, himported⟩ := appendExample_kept { report with
        errors := report.errors + 1 } index mapped (PyErr.str exc)
      rw [wp_pure]
      refine ⟨h.appendExample ⟨rfl, rfl, rfl, rfl, rfl, rfl, rfl, rfl⟩, hreceived, hfailed, rfl, ?_,
        fun _ ↦ hexists⟩
      rw [show c' = c from hingest, himported]

/-! ## All records -/

/-- Whether a record is the user's. -/
def IsOwn (user : User) (setupStationCall : Option String) (record : Fields) : Prop :=
  (matchAclogOperatorIdentity record (.user user) setupStationCall).matched = true

/-- The records that are passed to `ingest_qso_record`. -/
def ingestItems (envs : Nat → Env) (user : User) (setupStationCall : Option String)
    (items : List (Fields × Nat)) : List (Env × Record) :=
  items.filterMap (ingestItem envs user setupStationCall)

/-- What becomes of the records, one after another. -/
def syncFates (envs : Nat → Env) (user : User) (bridge : ACLogBridge)
    (setupStationCall : Option String) : Collection → List (Fields × Nat) → List SyncFate
  | _, [] => []
  | c, item :: items => syncFate envs user bridge setupStationCall c item ::
      syncFates envs user bridge setupStationCall
        (run (syncIngest user bridge) c (ingestItem envs user setupStationCall item).toList) items

theorem ingestItems_cons (item : Fields × Nat) (items : List (Fields × Nat)) :
    ingestItems envs user setupStationCall (item :: items) =
      (ingestItem envs user setupStationCall item).toList ++
        ingestItems envs user setupStationCall items := by
  rw [ingestItems, List.filterMap_cons]
  cases ingestItem envs user setupStationCall item <;> rfl

theorem length_syncFates (c : Collection) (items : List (Fields × Nat)) :
    (syncFates envs user bridge setupStationCall c items).length = items.length := by
  induction items generalizing c with
  | nil => rfl
  | cons item items ih => exact congrArg (· + 1) (ih _)

/-- The fate of the last record. -/
theorem syncFates_concat (c : Collection) (items : List (Fields × Nat)) (item : Fields × Nat) :
    syncFates envs user bridge setupStationCall c (items ++ [item]) =
      syncFates envs user bridge setupStationCall c items ++ [syncFate envs user bridge
        setupStationCall (run (syncIngest user bridge) c
          (ingestItems envs user setupStationCall items)) item] := by
  induction items generalizing c with
  | nil => rfl
  | cons first items ih =>
    rw [List.cons_append, syncFates, ih, syncFates, ingestItems_cons, run_append, List.cons_append]

/-- What the loop makes of the records, if it does not raise. -/
structure Handled (envs : Nat → Env) (user : User) (bridge : ACLogBridge)
    (setupStationCall : Option String) (items : List (Fields × Nat)) (c c' : Collection)
    (report : ACLogSyncReport) : Prop where
  received : report.received = items.length
  succeeded : report.failed = false
  tallied : Tallied report (syncFates envs user bridge setupStationCall c items)
  collection : c' = run (syncIngest user bridge) c (ingestItems envs user setupStationCall items)
  imported : c'.docs.length = c.docs.length + report.imported
  mapped : ∀ item ∈ items, IsOwn user setupStationCall item.1 →
    ∃ mapped, mapOtherSlotsToCustomFields item.1 user = .ok mapped

/-- The fields of the user cannot be read, and there is a record for which they are needed. -/
def FieldsFail (user : User) (setupStationCall : Option String) (items : List (Fields × Nat)) :
    Prop :=
  ∃ item ∈ items, IsOwn user setupStationCall item.1 ∧
    ∃ exc, mapOtherSlotsToCustomFields item.1 user = .error exc

/-- Whether the slots can be renamed depends on the user alone. -/
theorem mapOtherSlots_error {record : Fields} {exc : PyErr}
    (h : mapOtherSlotsToCustomFields record user = .error exc) (record' : Fields) :
    mapOtherSlotsToCustomFields record' user = .error exc := by
  obtain hfields | ⟨fields, -, hmapped⟩ := bind_eq_error.1 h
  · exact bind_eq_error.2 (.inl hfields)
  · cases hmapped

/-- **The loop** handles every record, or raises before it has ingested any. -/
theorem wp_syncRecords {items : List (Fields × Nat)} {start : ACLogSyncReport}
    (hreceived : start.received = items.length) (hsucceeded : start.failed = false)
    (hstart : Tallied start []) :
    wp (items.foldlM (syncRecord envs user bridge setupStationCall) start)
      (fun report c' ↦ Handled envs user bridge setupStationCall items c c' report)
      (fun _ c' ↦ c' = c ∧ FieldsFail user setupStationCall items) c := by
  refine wp_mono (wp_foldlM_done
    (fun done report c' ↦ report.received = items.length ∧ report.failed = false ∧
      Tallied report (syncFates envs user bridge setupStationCall c done) ∧
      c' = run (syncIngest user bridge) c (ingestItems envs user setupStationCall done) ∧
      c'.docs.length = c.docs.length + report.imported ∧
      ∀ item ∈ done, IsOwn user setupStationCall item.1 →
        ∃ mapped, mapOtherSlotsToCustomFields item.1 user = .ok mapped)
    (fun _ item exc c' ↦ c' = c ∧ IsOwn user setupStationCall item.1 ∧
      mapOtherSlotsToCustomFields item.1 user = .error exc)
    (fun done item todo report c' hitems hI ↦ ?_) ?_) (fun report c' h ↦ ?_) fun exc c' h ↦ ?_
  · obtain ⟨hreceived, hsucceeded, htallied, hcollection, himported, hmapped⟩ := hI
    refine wp_mono (wp_syncRecord htallied) (fun report' c'' h ↦ ?_) fun exc c'' h ↦ ?_
    · obtain ⟨htallied', hreceived', hfailed', hcollection', hlength, hown⟩ := h
      refine ⟨hreceived'.trans hreceived, hfailed'.trans hsucceeded, ?_, ?_, by omega, ?_⟩
      · rw [syncFates_concat, ← hcollection]
        exact htallied'
      · have hone : ingestItems envs user setupStationCall [item] =
            (ingestItem envs user setupStationCall item).toList := by
          rw [ingestItems_cons]
          exact List.append_nil _
        rw [hcollection', hcollection, ← run_append, ← hone, ingestItems, ingestItems, ingestItems,
          ← List.filterMap_append]
      · exact List.forall_mem_append.2 ⟨hmapped, List.forall_mem_singleton.2 hown⟩
    · obtain ⟨hsame, hown, hexc⟩ := h
      have hnothing : ingestItems envs user setupStationCall done = [] := by
        refine List.filterMap_eq_nil_iff.2 fun other _ ↦ ?_
        rw [ingestItem]
        rw [mapOtherSlots_error hexc other.1]
        exact ite_self _
      rw [hnothing, run_nil] at hcollection
      exact ⟨hsame.trans hcollection, hown, hexc⟩
  · refine ⟨hreceived, hsucceeded, hstart, rfl, ?_, fun _ h ↦ absurd h List.not_mem_nil⟩
    rw [hstart.imported]
    rfl
  · obtain ⟨hreceived, hsucceeded, htallied, hcollection, himported, hmapped⟩ := h
    exact ⟨hreceived, hsucceeded, htallied, hcollection, himported, hmapped⟩
  · obtain ⟨done, item, todo, rfl, hsame, hown, hexc⟩ := h
    exact ⟨hsame, item, List.mem_append_right _ (List.mem_cons_self ..), hown, exc, hexc⟩

/-! ## The account -/

/-- A document that comes from a record of the user: it is what the record, with the slots renamed,
is stored as. -/
def FromRecord (envs : Nat → Env) (user : User) (setupStationCall : Option String)
    (records : List Fields) (d : Doc) : Prop :=
  ∃ record ∈ records, IsOwn user setupStationCall record ∧
    ∃ mapped, mapOtherSlotsToCustomFields record user = .ok mapped ∧
    ∃ qsoDict, buildQsoDict (toRecord mapped).toDoc user.callsign (some user) = .ok qsoDict ∧
    ∃ index, d = Doc.toStored (newDoc (envs index) 0 qsoDict)

/-- What becomes of the records that a connection brings. -/
def SyncConnection.fates (envs : Nat → Env) (user : User) (bridge : ACLogBridge) (c : Collection) :
    SyncConnection → List SyncFate
  | .failed _ => []
  | .established reception =>
    match readSyncResponses reception with
    | .received setupStationCall raw =>
      syncFates envs user bridge setupStationCall c (syncRecords raw).zipIdx
    | .timedOut => []
    | .lineTooLong => []

/-- What a sync has done to the database, and what it reports. -/
structure SyncAccount (envs : Nat → Env) (user : User) (bridge : ACLogBridge)
    (connection : SyncConnection) (db db' : Database) (report : ACLogSyncReport) : Prop where
  received : report.received = connection.records.length
  counts : report.received = report.imported + report.skipped + report.skippedMissingOperator +
    report.skippedUnmatchedOperator + report.errors
  tallied : ∀ c, (∀ coll, qsoCollectionName user.username = .ok coll → c = db.collection coll) →
    Tallied report (connection.fates envs user bridge c)
  others : ∀ coll, qsoCollectionName user.username ≠ .ok coll →
    db'.collection coll = db.collection coll
  own : ∀ coll, qsoCollectionName user.username = .ok coll →
    ∃ added, db'.docs coll = db.docs coll ++ added ∧ added.length = report.imported ∧
      (report.failed = true → added = []) ∧
      ∀ d ∈ added, d["_operator"]? =
          some (if user.callsign = "" then .null else .str user.callsign) ∧
        ∃ reception setupStationCall raw, connection = .established reception ∧
          readSyncResponses reception = .received setupStationCall raw ∧
          FromRecord envs user setupStationCall (syncRecords raw) d

theorem mem_ingestItems {items : List (Fields × Nat)} {record : Env × Record}
    (h : record ∈ ingestItems envs user setupStationCall items) :
    ∃ item ∈ items, IsOwn user setupStationCall item.1 ∧
      ∃ mapped, mapOtherSlotsToCustomFields item.1 user = .ok mapped ∧
        record = (envs item.2, toRecord mapped) := by
  obtain ⟨item, hitem, heq⟩ := List.mem_filterMap.1 h
  rw [ingestItem] at heq
  split at heq
  · rename_i hown
    obtain ⟨mapped, hmapped, rfl⟩ := Option.map_eq_some_iff.1 heq
    refine ⟨item, hitem, hown, mapped, ?_, rfl⟩
    cases h : mapOtherSlotsToCustomFields item.1 user with
    | error exc =>
      rw [h] at hmapped
      cases hmapped
    | ok m =>
      rw [h] at hmapped
      exact congrArg Except.ok (Option.some.inj hmapped)
  · cases heq

theorem adifNamed_of_mem_ingestItems {raw : List UInt8} {record : Env × Record}
    (h : record ∈ ingestItems envs user setupStationCall (syncRecords raw).zipIdx) :
    AdifNamed record.2 := by
  obtain ⟨item, hitem, -, mapped, hmapped, rfl⟩ := mem_ingestItems h
  have hrecord : item.1 ∈ syncRecords raw := List.fst_mem_of_mem_zipIdx hitem
  exact adifNamed_toRecord ((namesOk_of_mem_syncRecords hrecord).mapOtherSlots hmapped)

omit [UnicodeData] in
/-- A report that has counted nothing. -/
theorem tallied_nil {report : ACLogSyncReport} (himported : report.imported = 0)
    (hskipped : report.skipped = 0) (hmissing : report.skippedMissingOperator = 0)
    (hunmatched : report.skippedUnmatchedOperator = 0) (herrors : report.errors = 0)
    (hexamples : report.examples = []) : Tallied report [] :=
  ⟨himported, hskipped, hmissing, hunmatched, herrors, hexamples⟩

/-- **A sync accounts for what it does**, whatever the connection brings.  Every record it has
received is counted as what becomes of it, and of the faulty ones the first five are shown, in their
order, each with its number, its call and what is wrong.  It adds documents to the log of the user,
as many as it says it has imported, each from a record that is the user's, and does nothing else; and
if it raises, it has added nothing. -/
theorem sync_accounts (envs : Nat → Env) (user : User) (bridge : ACLogBridge)
    (connection : SyncConnection) (db : Database) :
    wp (syncAclogBridge envs user bridge connection)
      (fun report db' ↦ SyncAccount envs user bridge connection db db' report)
      (fun _ db' ↦ ∀ coll, db'.collection coll = db.collection coll) db := by
  -- A report of a failure counts nothing.
  have hfailed : ∀ reason, connection.records = [] →
      (∀ c, connection.fates envs user bridge c = []) →
      SyncAccount envs user bridge connection db db
        { startReport bridge with failureReason := some reason } := fun reason hrecords hfates ↦
    ⟨congrArg List.length hrecords.symm, rfl,
      fun c _ ↦ hfates c ▸ tallied_nil rfl rfl rfl rfl rfl rfl, fun _ _ ↦ rfl,
      fun coll _ ↦ ⟨[], (List.append_nil _).symm, rfl, fun _ ↦ rfl,
        fun _ h ↦ absurd h List.not_mem_nil⟩⟩
  unfold syncAclogBridge
  split
  · exact hfailed _ rfl fun _ ↦ rfl
  rename_i reception
  split
  · rename_i hread
    exact hfailed _ (by rw [SyncConnection.records, hread])
      fun c ↦ by rw [SyncConnection.fates, hread]
  · exact fun _ ↦ rfl
  rename_i setupStationCall raw hread
  split
  · exact fun _ ↦ rfl
  rename_i coll hcoll
  have hrecords : (SyncConnection.established reception).records = syncRecords raw := by
    rw [SyncConnection.records, hread]
  rw [Database.wp_on]
  refine wp_mono (wp_syncRecords List.length_zipIdx.symm rfl (tallied_nil rfl rfl rfl rfl rfl rfl))
    (fun report c' h ↦ ?_) fun exc c' h other ↦ ?_
  · have hext : (db.collection coll).Extends c' := h.collection ▸ extends_run_ingest ..
    obtain ⟨added, hadded⟩ := hext.docs
    have hlength := h.imported
    rw [← hadded, List.length_append] at hlength
    have hreceived := h.received
    refine ⟨?_, ?_, fun c hc ↦ ?_, fun other hother ↦ ?_, fun own hown ↦ ?_⟩
    · rw [hrecords, hreceived, List.length_zipIdx]
    · rw [h.tallied.counts, length_syncFates, hreceived]
    · rw [hc coll hcoll, SyncConnection.fates, hread]
      exact h.tallied
    · refine Database.collection_put_of_ne ?_
      rintro rfl
      exact hother hcoll
    obtain rfl := Except.ok.inj (hcoll.symm.trans hown)
    refine ⟨added, ?_, by omega, fun hfail ↦ ?_, fun d hd ↦ ?_⟩
    · rw [Database.docs, Database.collection_put]
      exact hadded.symm
    · cases h.succeeded.symm.trans hfail
    have hnames : ∀ item ∈ ingestItems envs user setupStationCall (syncRecords raw).zipIdx,
        AdifNamed item.2 := fun item hitem ↦ adifNamed_of_mem_ingestItems hitem
    have hnew : d ∉ (db.collection coll).docs := by
      intro hold
      have hdistinct := c'.ids_distinct
      rw [← hadded, List.pairwise_append] at hdistinct
      have hself := hdistinct.2.2 d hold d hd
      rw [Doc.clash, beq_self_eq_true, (db.collection coll).ids_present d hold] at hself
      cases hself
    have hdocs : d ∈ (run (syncIngest user bridge) (db.collection coll)
        (ingestItems envs user setupStationCall (syncRecords raw).zipIdx)).docs := by
      rw [← h.collection, ← hadded]
      exact List.mem_append_right _ hd
    obtain ⟨item, hitem, qsoDict, hbuild, hdict, rfl⟩ :=
      (mem_run_ingest hnames hdocs).resolve_left hnew
    obtain ⟨source, hsource, hown, mapped, hmapped, rfl⟩ := mem_ingestItems hitem
    exact ⟨getElem?_newDoc_operator hbuild hdict, reception, setupStationCall, raw, rfl, hread,
      source.1, List.fst_mem_of_mem_zipIdx hsource, hown, mapped, hmapped, qsoDict, hbuild,
      source.2, rfl⟩
  · obtain ⟨rfl, -⟩ := h
    by_cases hother : other = coll
    · subst hother
      exact Database.collection_put
    · exact Database.collection_put_of_ne hother

/-! ## The next sync -/

omit [UnicodeData] in
/-- Each of the first records is ingested with an id of its own that is not in the log. -/
structure FreshIds (envs : Nat → Env) (n : Nat) (c : Collection) : Prop where
  free : ∀ i < n, ∀ d ∈ c.docs, d["_id"]? ≠ some (.oid ((envs i).fresh 0))
  distinct : ∀ i < n, ∀ j < n, i ≠ j → (envs i).fresh 0 ≠ (envs j).fresh 0

theorem FreshIds.idsFree {records : List Fields} (h : FreshIds envs records.length c) :
    IdsFree (ingestItems envs user setupStationCall records.zipIdx) c := by
  have hindex : ∀ item ∈ records.zipIdx, item.2 < records.length := fun item hitem ↦ by
    simpa using List.snd_lt_of_mem_zipIdx hitem
  refine ⟨fun item hitem ↦ ?_, ?_⟩
  · obtain ⟨source, hsource, -, mapped, -, rfl⟩ := mem_ingestItems hitem
    exact h.free source.2 (hindex source hsource)
  · have hindices : records.zipIdx.Pairwise fun item item' ↦ item.2 ≠ item'.2 := by
      have hrange : (records.zipIdx.map Prod.snd).Pairwise (· ≠ ·) := by
        rw [List.zipIdx_map_snd]
        exact List.nodup_range'
      exact List.pairwise_map.1 hrange
    have henv : ∀ {item : Fields × Nat} {record : Env × Record},
        ingestItem envs user setupStationCall item = some record → record.1 = envs item.2 := by
      intro item record heq
      obtain ⟨source, hsource, -, -, -, rfl⟩ := mem_ingestItems (List.mem_filterMap.2
        ⟨item, List.mem_singleton_self item, heq⟩)
      rw [List.mem_singleton.1 hsource]
    refine List.pairwise_filterMap.2 (hindices.imp_of_mem fun {item item'} hmem hmem' hne record
      hrecord record' hrecord' ↦ ?_)
    rw [henv hrecord, henv hrecord']
    exact h.distinct _ (hindex item hmem) _ (hindex item' hmem') hne

/-- The records are the same whenever they are ingested. -/
theorem map_snd_ingestItems (envs envs₂ : Nat → Env) (items : List (Fields × Nat)) :
    (ingestItems envs user setupStationCall items).map Prod.snd =
      (ingestItems envs₂ user setupStationCall items).map Prod.snd := by
  rw [ingestItems, ingestItems, List.map_filterMap, List.map_filterMap]
  refine congrArg (List.filterMap · items) (funext fun item ↦ ?_)
  unfold ingestItem
  split
  · rw [Option.map_map, Option.map_map]
    rfl
  · rfl

/-- **The loop, once more**: nothing is imported, if the account has a callsign or the unique index
is there, and otherwise as much as the first time. -/
theorem Handled.again {envs₂ : Nat → Env} {records : List Fields} {c₁ c₂ : Collection}
    {report₁ report₂ : ACLogSyncReport}
    (hnames : ∀ item ∈ ingestItems envs user setupStationCall records.zipIdx, AdifNamed item.2)
    (h : Handled envs user bridge setupStationCall records.zipIdx c c₁ report₁)
    (h₂ : Handled envs₂ user bridge setupStationCall records.zipIdx c₁ c₂ report₂)
    (hids : FreshIds envs records.length c) (hids₂ : FreshIds envs₂ records.length c₁) :
    report₂.imported =
      if user.callsign ≠ "" ∨ c.rowHashUnique = true then 0 else report₁.imported := by
  have hsame := @map_snd_ingestItems _ user setupStationCall envs₂ envs records.zipIdx
  have hfree := @FreshIds.idsFree _ envs user setupStationCall _ _ hids
  have hfree₂ := @FreshIds.idsFree _ envs₂ user setupStationCall _ _ hids₂
  have hlength := h.imported
  have hlength₂ := h₂.imported
  have hcollection := h.collection
  have hcollection₂ := h₂.collection
  split
  · rename_i hknown
    have hstays : c₂ = c₁ := by
      rw [hcollection₂, hcollection]
      exact run_ingest_again hsame hnames hfree (hcollection ▸ hfree₂) hknown
    rw [hstays] at hlength₂
    omega
  · rename_i hunknown
    rw [not_or, not_not, Bool.not_eq_true] at hunknown
    obtain ⟨hnameless, hindex⟩ := hunknown
    rw [hcollection] at hfree₂ hcollection₂
    rw [syncIngest] at hcollection hcollection₂ hfree₂
    rw [hnameless] at hcollection hcollection₂ hfree₂
    have hboth := length_ingest_again hsame hnames hindex hfree hfree₂
    rw [← hcollection₂, ← hcollection] at hboth
    omega

/-- A document that is added has the id that was drawn for it. -/
theorem Handled.id_of_mem {raw : List UInt8} {c' : Collection}
    (h : Handled envs user bridge setupStationCall (syncRecords raw).zipIdx c c' report) {d : Doc}
    (hd : d ∈ c'.docs) :
    d ∈ c.docs ∨ ∃ index, d["_id"]? = some (.oid ((envs index).fresh 0)) := by
  rw [h.collection] at hd
  refine (mem_run_ingest (fun item hitem ↦ adifNamed_of_mem_ingestItems hitem) hd).imp_right ?_
  rintro ⟨item, hitem, qsoDict, -, hdict, rfl⟩
  obtain ⟨source, -, -, mapped, -, rfl⟩ := mem_ingestItems hitem
  refine ⟨source.2, ?_⟩
  rw [Doc.getElem?_toStored, (@Encodes.newDoc _ (envs source.2) _ hdict).1]
  rfl

/-- What a sync does that receives something. -/
theorem syncAclogBridge_of_received {reception : Reception} {raw : List UInt8} {coll : String}
    (hread : readSyncResponses reception = .received setupStationCall raw)
    (hcoll : qsoCollectionName user.username = .ok coll) :
    syncAclogBridge envs user bridge (.established reception) =
      Database.on coll (collectionNameOk_of_account hcoll)
        ((syncRecords raw).zipIdx.foldlM (syncRecord envs user bridge setupStationCall)
          { startReport bridge with received := (syncRecords raw).length }) := by
  rw [syncAclogBridge]
  dsimp only
  rw [hread]
  dsimp only
  split
  · rename_i exc hexc
    cases hexc.symm.trans hcoll
  · rename_i own hown
    obtain rfl := Except.ok.inj (hown.symm.trans hcoll)
    rfl

/-- A sync that receives something succeeds, if the fields of the user can be read. -/
theorem exists_sync_of_received {reception : Reception} {raw : List UInt8} {coll : String}
    {fields : List CustomQSOField}
    (hread : readSyncResponses reception = .received setupStationCall raw)
    (hcoll : qsoCollectionName user.username = .ok coll)
    (hfields : customFieldsForUser (some user) = .ok fields) (db : Database) : ∃ report c',
      syncAclogBridge envs user bridge (.established reception) db =
        .ok report (db.put coll (collectionNameOk_of_account hcoll) c') ∧
      Handled envs user bridge setupStationCall (syncRecords raw).zipIdx (db.collection coll) c'
        report := by
  have hrun : ∃ report db', syncAclogBridge envs user bridge (.established reception) db =
      .ok report db' ∧ ∃ c', db' = db.put coll (collectionNameOk_of_account hcoll) c' ∧
        Handled envs user bridge setupStationCall (syncRecords raw).zipIdx (db.collection coll) c'
          report := by
    rw [syncAclogBridge_of_received hread hcoll, exists_ok_iff_wp, Database.wp_on]
    refine wp_mono (wp_syncRecords List.length_zipIdx.symm rfl
      (tallied_nil rfl rfl rfl rfl rfl rfl)) (fun report c' h ↦ ⟨c', rfl, h⟩) fun exc c' h ↦ ?_
    obtain ⟨-, item, -, -, exc, hexc⟩ := h
    have hmapped : mapOtherSlotsToCustomFields item.1 user = .ok (fields.foldl mapSlot item.1) := by
      rw [mapOtherSlotsToCustomFields, hfields]
      rfl
    cases hmapped.symm.trans hexc
  obtain ⟨report, db', hrun, c', rfl, hhandled⟩ := hrun
  exact ⟨report, c', hrun, hhandled⟩

/-- **The next sync** that receives the same succeeds too.  It imports nothing, if the account has a
callsign or its log has the unique index, and otherwise it imports again what has been imported
before; and if it imports nothing, it changes nothing. -/
theorem sync_again {envs envs₂ : Nat → Env} {user : User} {bridge : ACLogBridge}
    {connection : SyncConnection} {db db₁ : Database} {report₁ : ACLogSyncReport} {coll : String}
    (hcoll : qsoCollectionName user.username = .ok coll)
    (hids : FreshIds envs connection.records.length (db.collection coll))
    (hfirst : syncAclogBridge envs user bridge connection db = .ok report₁ db₁)
    (hids₂ : FreshIds envs₂ connection.records.length (db₁.collection coll)) :
    ∃ report₂ db₂, syncAclogBridge envs₂ user bridge connection db₁ = .ok report₂ db₂ ∧
      report₂.imported = (if user.callsign ≠ "" ∨ (db.collection coll).rowHashUnique = true then 0
        else report₁.imported) ∧
      (report₂.imported = 0 → ∀ other, db₂.docs other = db₁.docs other) := by
  cases connection with
  | failed reason =>
    obtain ⟨rfl, rfl⟩ := EStateM.Result.ok.inj hfirst
    exact ⟨_, _, rfl, (ite_self _).symm, fun _ _ ↦ rfl⟩
  | established reception =>
    cases hread : readSyncResponses reception with
    | timedOut =>
      have hsync : ∀ envs, syncAclogBridge envs user bridge (.established reception) =
          pure { startReport bridge with failureReason := some "TimeoutError" } := by
        intro envs
        rw [syncAclogBridge]
        dsimp only
        rw [hread]
      rw [hsync] at hfirst ⊢
      obtain ⟨rfl, rfl⟩ := EStateM.Result.ok.inj hfirst
      exact ⟨_, _, rfl, (ite_self _).symm, fun _ _ ↦ rfl⟩
    | lineTooLong =>
      have hsync : syncAclogBridge envs user bridge (.established reception) =
          throw (.valueError reception.limitText) := by
        rw [syncAclogBridge]
        dsimp only
        rw [hread]
      rw [hsync] at hfirst
      cases hfirst
    | received setupStationCall raw =>
      rw [syncAclogBridge_of_received hread hcoll] at hfirst ⊢
      have hrecords : (SyncConnection.established reception).records = syncRecords raw := by
        rw [SyncConnection.records, hread]
      rw [hrecords] at hids hids₂
      have hnames : ∀ item ∈ ingestItems envs user setupStationCall (syncRecords raw).zipIdx,
          AdifNamed item.2 := fun item hitem ↦ adifNamed_of_mem_ingestItems hitem
      have hreceived : { startReport bridge with received := (syncRecords raw).length }.received =
          (syncRecords raw).zipIdx.length := List.length_zipIdx.symm
      have hstart : Tallied { startReport bridge with received := (syncRecords raw).length } [] :=
        tallied_nil rfl rfl rfl rfl rfl rfl
      have hwp : wp (Database.on coll (collectionNameOk_of_account hcoll)
          ((syncRecords raw).zipIdx.foldlM (syncRecord envs user bridge setupStationCall)
            { startReport bridge with received := (syncRecords raw).length }))
          (fun report db' ↦ ∃ c', db' = db.put coll (collectionNameOk_of_account hcoll) c' ∧
            Handled envs user bridge setupStationCall (syncRecords raw).zipIdx
              (db.collection coll) c' report) (fun _ _ ↦ True) db := by
        rw [Database.wp_on]
        exact wp_mono (wp_syncRecords hreceived rfl hstart) (fun _ c' h ↦ ⟨c', rfl, h⟩)
          fun _ _ _ ↦ trivial
      obtain ⟨c₁, rfl, hhandled⟩ := of_wp_of_eq_ok hwp hfirst
      rw [Database.collection_put] at hids₂
      refine exists_ok_iff_wp.2 ?_
      rw [Database.wp_on, Database.collection_put]
      refine wp_mono (wp_syncRecords hreceived rfl hstart) (fun report₂ c₂ h₂ ↦ ?_)
        fun exc c₂ h ↦ ?_
      · refine ⟨hhandled.again hnames h₂ hids hids₂, fun hnone other ↦ ?_⟩
        by_cases hother : other = coll
        · subst hother
          have hext : c₁.Extends c₂ := h₂.collection ▸ extends_run_ingest ..
          have hlength := h₂.imported
          rw [Database.docs, Database.docs, Database.collection_put, Database.collection_put]
          exact (hext.docs.eq_of_length (by omega)).symm
        · rw [Database.docs, Database.docs, Database.collection_put_of_ne hother]
      · obtain ⟨-, item, hitem, hown, exc, hexc⟩ := h
        obtain ⟨mapped, hmapped⟩ := hhandled.mapped item hitem hown
        cases hmapped.symm.trans hexc

end

/-! ## A listing of one contact -/

section

attribute [local instance] UnicodeData.ascii

theorem length_records_listing :
    (SyncConnection.established Sample.listing).records.length = 1 := by
  have hone : (aclogFullRecordsFromMessage Sample.listed).2.length = 1 := by decide +kernel
  rw [SyncConnection.records, readSyncResponses_listing]
  dsimp only
  rw [syncRecords, decodeUtf8_encodeUtf8, String.ofList_toList, iterCmdMessages_listed,
    List.flatMap_singleton, hone]

/-- The bridge it comes from. -/
def Sample.listingBridge : ACLogBridge := { id := "b1" }

/-- A database without collections. -/
def Sample.noCollections : Database := ⟨"ollog", ∅, Database.names_ok_empty⟩

/-- The next sync imports nothing. -/
theorem sync_again_of_listing : ∃ report₁ db₁ report₂ db₂,
    syncAclogBridge (fun _ ↦ Sample.env) Sample.user Sample.listingBridge
      (.established Sample.listing) Sample.noCollections = .ok report₁ db₁ ∧
    syncAclogBridge (fun _ ↦ Sample.later) Sample.user Sample.listingBridge
      (.established Sample.listing) db₁ = .ok report₂ db₂ ∧
    report₁.received = 1 ∧ report₂.imported = 0 := by
  have hread := readSyncResponses_listing
  have hone := length_records_listing
  have hcoll : qsoCollectionName Sample.user.username = .ok "w1aw_qsos" := by decide +kernel
  have hfields : customFieldsForUser (some Sample.user) = .ok defaultCustomQsoFields := by
    decide +kernel
  have hnone : (Sample.noCollections.collection "w1aw_qsos").docs = [] := rfl
  have hdistinct : ∀ {env : Env}, ∀ i < 1, ∀ j < 1, i ≠ j →
      ((fun _ ↦ env : Nat → Env) i).fresh 0 ≠ ((fun _ ↦ env : Nat → Env) j).fresh 0 :=
    fun i hi j hj hne ↦ by omega
  -- The fields of the user can be read, so the first sync does not raise.
  obtain ⟨report₁, c₁, hfirst, hhandled⟩ := @exists_sync_of_received _ (fun _ ↦ Sample.env) _
    Sample.listingBridge _ _ _ _ _ hread hcoll hfields Sample.noCollections
  have hreceived : report₁.received = 1 := by
    rw [SyncConnection.records, hread] at hone
    rw [hhandled.received, List.length_zipIdx, hone]
  have hids₂ : FreshIds (fun _ ↦ Sample.later)
      (SyncConnection.established Sample.listing).records.length
      ((Sample.noCollections.put "w1aw_qsos" (collectionNameOk_of_account hcoll) c₁).collection
        "w1aw_qsos") := by
    rw [hone, Database.collection_put]
    refine ⟨fun i _ d hd ↦ ?_, hdistinct⟩
    obtain hold | ⟨_, hid⟩ := hhandled.id_of_mem hd
    · exact absurd hold (hnone ▸ List.not_mem_nil)
    rw [hid]
    intro heq
    have hne : Sample.env.fresh 0 ≠ Sample.later.fresh 0 := by decide
    exact hne (Value.oid.inj (Option.some.inj heq))
  have hids : FreshIds (fun _ ↦ Sample.env)
      (SyncConnection.established Sample.listing).records.length
      (Sample.noCollections.collection "w1aw_qsos") := by
    rw [hone]
    exact ⟨fun i _ d hd ↦ absurd hd (hnone ▸ List.not_mem_nil), hdistinct⟩
  obtain ⟨report₂, db₂, hsecond, himported, -⟩ := sync_again hcoll hids hfirst hids₂
  exact ⟨report₁, _, report₂, db₂, hfirst, hsecond, hreceived,
    himported.trans (if_pos (.inl (by decide)))⟩

/-! ## A listing of five contacts -/

namespace Sample

/-- The same contact twice, a contact of someone else, one of nobody, and one without a mode. -/
def mixedContacts : List ListedContact :=
  [ownContact, ownContact, foreignContact,
    listedContact "K3GHI" [modeField] (by decide) (by decide) (by decide),
    listedContact "K4JKL" [ownField] (by decide) (by decide) (by decide)]

/-- The list of them. -/
@[irreducible] def mixedLayout : String := flatLayout ⟨"LIST", by decide⟩ true mixedContacts

/-- A connection that brings it, and is closed. -/
@[irreducible] def mixedListing : Reception where
  bytes := encodeUtf8 mixedLayout.toList
  closed := true

/-- An id of its own for every record. -/
def idEnvs (n : Nat) : Env := { env with fresh := fun _ ↦ ⟨BitVec.ofNat 96 (n + 1)⟩ }

/-- What becomes of them in an empty log. -/
def mixedFates : List SyncFate :=
  [.imported, .duplicate, .faulty .unmatched ⟨"3", "K2DEF", "unmatched ACLog MYCALL: N0CALL"⟩,
    .faulty .missing ⟨"4", "K3GHI", "missing ACLog station/operator identity"⟩,
    .faulty .error ⟨"5", "K4JKL", "missing required field: MODE"⟩]

theorem lines_mixedListing : mixedListing.lines = ([encodeUtf8 mixedLayout.toList], .closed) := by
  have htext : mixedLayout.toList = "<CMD>".toList ++ (piecesText (commandPieces
      ⟨"LIST", by decide⟩ true (fieldPieces (mixedContacts.flatMap (·.fields)))) ++
        "</CMD>".toList) := by
    rw [mixedLayout]
    exact toList_commandMessage ⟨"LIST", by decide⟩ true (toList_flatBody mixedContacts)
  have hbytes : mixedListing.bytes = encodeUtf8 mixedLayout.toList := by rw [mixedListing]
  have hclosed : mixedListing.closed = true := by rw [mixedListing]
  rw [← hbytes]
  refine lines_of_one_line hclosed ?_ ?_ ?_ <;> rw [hbytes, htext] <;> decide +kernel

end Sample

/-- Of the five records one is imported, one is a duplicate, and three are shown. -/
theorem sync_accounts_of_mixed_listing : ∃ report db',
    syncAclogBridge Sample.idEnvs Sample.user Sample.listingBridge
      (.established Sample.mixedListing) Sample.noCollections = .ok report db' ∧
    report.received = 5 ∧ report.imported = 1 ∧ report.skipped = 1 ∧
    report.skippedMissingOperator = 1 ∧ report.skippedUnmatchedOperator = 1 ∧ report.errors = 1 ∧
    report.examples = [⟨"3", "K2DEF", "unmatched ACLog MYCALL: N0CALL"⟩,
      ⟨"4", "K3GHI", "missing ACLog station/operator identity"⟩,
      ⟨"5", "K4JKL", "missing required field: MODE"⟩] ∧
    (db'.docs "w1aw_qsos").length = 1 := by
  have hlines := Sample.lines_mixedListing
  rw [Sample.mixedLayout] at hlines
  obtain ⟨hread, hrecords⟩ := sync_receives_layout (.inl rfl) hlines
  have hcoll : qsoCollectionName Sample.user.username = .ok "w1aw_qsos" := by decide +kernel
  have hfields : customFieldsForUser (some Sample.user) = .ok defaultCustomQsoFields := by
    decide +kernel
  have hfates : syncFates Sample.idEnvs Sample.user Sample.listingBridge none
      (Sample.noCollections.collection "w1aw_qsos") (Sample.mixedContacts.map fun contact ↦
        aclogFullRecordToAdif contact.dict).zipIdx = Sample.mixedFates := by decide +kernel
  obtain ⟨report, c', hrun, -⟩ := @exists_sync_of_received _ Sample.idEnvs _
    Sample.listingBridge _ _ _ _ _ hread hcoll hfields Sample.noCollections
  have haccount := of_wp_of_eq_ok (sync_accounts Sample.idEnvs Sample.user Sample.listingBridge
    (.established Sample.mixedListing) Sample.noCollections) hrun
  have htallied := haccount.tallied (Sample.noCollections.collection "w1aw_qsos")
    fun coll h ↦ congrArg _ (Except.ok.inj (hcoll.symm.trans h))
  have hreceived := haccount.received
  rw [SyncConnection.fates, hread] at htallied
  dsimp only at htallied
  rw [hrecords, hfates] at htallied
  rw [SyncConnection.records, hread] at hreceived
  dsimp only at hreceived
  rw [hrecords] at hreceived
  obtain ⟨added, hdocs, hadded, -, -⟩ := haccount.own "w1aw_qsos" hcoll
  refine ⟨report, _, hrun, hreceived, htallied.imported, htallied.skipped, htallied.missing,
    htallied.unmatched, htallied.errors, htallied.examples, ?_⟩
  have hnone : Sample.noCollections.docs "w1aw_qsos" = [] := rfl
  rw [hdocs, hnone, List.nil_append, hadded]
  exact htallied.imported

end

end Ollog
