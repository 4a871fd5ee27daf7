import Ollog.Adif.Parser
import Ollog.Bson.Collection
import Ollog.Qso.CustomFields

/-!
# The QSO service

Everything that writes a QSO goes through this layer: `build_qso_dict` turns the fields of a
request into the dictionary of a QSO, `insert_qso_dict` stores it, `update_qso_fields` and
`soft_delete_qso` change it, `clear_operator_log` removes it.  `ingest_qso_record` and
`import_qsos_from_bytes` are the two ways in that come without a request.

What a computation reads off its surroundings is an `Env`: one reading of the clock, and the fresh
`ObjectId()`s it draws.
-/

set_option autoImplicit false

namespace Ollog

open Effects

/-- What a request reads off its surroundings. -/
structure Env where
  /-- `datetime.now(timezone.utc)`. -/
  now : DateTime
  /-- The `n`-th `ObjectId()` that is drawn. -/
  fresh : Nat → ObjectId

/-! ## Dictionaries -/

/-- `d[k]`. -/
def getItem (d : Doc) (k : String) : Except PyErr Value :=
  match d[k]? with
  | some v => .ok v
  | none => .error (.keyError k)

/-- The fields of a record, as a dictionary. -/
def Record.toDoc (record : Record) : Doc := record.map fun _ v ↦ .str v

section

variable [UnicodeData] {m : Type → Type} [Monad m] [MonadExceptOf PyErr m] [MonadLiftT Db m]

/-- `if k in d and d[k] is not None: d[k] = d[k].upper()`. -/
def upperField (d : Doc) (k : String) : Except PyErr Doc :=
  match d[k]? with
  | none | some .null => .ok d
  | some (.str s) => .ok (d.insert k (.str (upper s)))
  | some v => .error (.attributeError ("'" ++ typeName v ++ "' object has no attribute 'upper'"))

/-! ## Dates -/

/-- The time of day of `parse_adif_datetime`, in seconds.  `len` counts the elements of a list or a
dictionary just as well, but `strptime` takes nothing but text. -/
def parseAdifTime (timeOn : Value) : Except PyErr Nat :=
  let lengthError (n : Nat) : PyErr := .valueError
    ("TIME_ON must be HHMM (4 chars) or HHMMSS (6 chars), got " ++ toString n ++ " chars: " ++
      timeOn.pyRepr)
  let notText : PyErr := .typeError ("strptime() argument 1 must be str, not " ++ typeName timeOn)
  match timeOn with
  | .str s =>
    if s.length = 4 then strptimeHM s
    else if s.length = 6 then strptimeHMS s
    else .error (lengthError s.length)
  | .list xs => .error (if xs.length = 4 ∨ xs.length = 6 then notText else lengthError xs.length)
  | .dict ps => .error (if ps.length = 4 ∨ ps.length = 6 then notText else lengthError ps.length)
  | v => .error (.typeError ("object of type '" ++ typeName v ++ "' has no len()"))

/-- The day of `parse_adif_datetime`. -/
def parseAdifDate : Value → Except PyErr Nat
  | .str s => strptimeDate s
  | v => .error (.typeError ("strptime() argument 1 must be str, not " ++ typeName v))

/-- `parse_adif_datetime`. -/
def parseAdifDatetime (qsoDate timeOn : Value) : Except PyErr DateTime := do
  let day ← parseAdifDate qsoDate
  let seconds ← parseAdifTime timeOn
  return combineUtc day seconds

/-! ## Building -/

/-- Stamp one optional profile field. -/
def stampOptional (d : Doc) (k : String) (v : Option String) : Doc :=
  match v with
  | some s => if s = "" then d else d.insert k (.str s)
  | none => d

/-- Stamp the profile-derived fields. -/
def stampProfile (d : Doc) (profile : Option User) : Doc :=
  match profile with
  | none => d
  | some user =>
    let d := d.insert "OPERATOR" (.str user.callsign)
    let d := stampOptional d "STATION_CALLSIGN" user.stationCallsign
    let d := stampOptional d "MY_GRIDSQUARE" user.myGridsquare
    let d := stampOptional d "MY_RIG" user.myRig
    let d := stampOptional d "MY_ANTENNA" user.myAntenna
    match user.txPwr with
    | some watts => d.insert "TX_PWR" (.str watts)
    | none => d

/-- `build_qso_dict`. -/
def buildQsoDict (bodyDict : Doc) (operator : String) (profile : Option User) :
    Except PyErr Doc := do
  let result ← applyCustomFieldNormalization bodyDict profile
  let result ← upperField result "BAND"
  let result ← upperField result "MODE"
  let qsoDateUtc ← parseAdifDatetime (← getItem result "QSO_DATE") (← getItem result "TIME_ON")
  let result := result.insert "qso_date_utc" (.datetime qsoDateUtc)
  let result := result.insert "operator_callsign" (.str operator)
  let result := result.insert "is_deleted" (.bool false)
  return stampProfile result profile

/-! ## Inserting -/

/-- `QSOInsertResult.status`. -/
inductive InsertStatus where
  | inserted
  | duplicate
  deriving DecidableEq, Repr

/-- `QSOInsertResult`. -/
structure QSOInsertResult where
  status : InsertStatus
  qso : Option QSO := none
  existing : Option QSO := none

/-- Whether the text of an exception mentions the `rowHash` index. -/
def mentionsRowHash (exc : PyErr) : Bool :=
  containsText "row_hash_unique_idx" exc.str || containsText "rowHash" exc.str

/-- `insert_qso_dict` into a user's collection. -/
def insertQsoDict (env : Env) (oid : ObjectId) (qsoDict : Doc) : m QSOInsertResult := do
  let qso ← ofExcept (qsoFromInputDict env.now oid qsoDict)
  tryCatch
    (do
      insertOne (qsoToMongoDoc oid qso)
      return { status := .inserted, qso := some qso })
    fun exc ↦ match exc with
      | .duplicateKey _ =>
        if !mentionsRowHash exc then throw exc
        else do
          let found ← findOne fun d ↦ Doc.fieldIs d "rowHash" qso.rowHash
          return { status := .duplicate, existing := ← ofExcept (qsoFromFound env.now found) }
      | _ => throw exc

/-! ## Reading -/

/-- `get_qso_by_id`. -/
def getQsoById (env : Env) (qsoId : Value) : m (Option QSO) := do
  let found ← findOne fun d ↦ d["_id"]? == some qsoId
  ofExcept (qsoFromFound env.now found)

/-- `{"$gte": bound}`. -/
def atLeast (bound : DateTime) : Value → Bool
  | .datetime dt => bound.toStored.utc ≤ dt.utc
  | _ => false

/-- `{"$lte": bound}`. -/
def atMost (bound : DateTime) : Value → Bool
  | .datetime dt => dt.utc ≤ bound.toStored.utc
  | _ => false

/-- The query of `find_duplicate`. -/
def duplicateQuery (operator : String) (call band mode : Value) (windowStart windowEnd : DateTime)
    (d : Doc) : Bool :=
  Doc.fieldIs d "_operator" (.str operator) && Doc.fieldIs d "CALL" call &&
    Doc.fieldIs d "BAND" band && Doc.fieldIs d "MODE" mode &&
    Doc.fieldIs d "_deleted" (.bool false) &&
    (Doc.fieldMatches d "qso_date_utc" (atLeast windowStart) &&
      Doc.fieldMatches d "qso_date_utc" (atMost windowEnd))

/-- Two minutes, in microseconds. -/
def twoMinutes : Int := 120000000

/-- `find_duplicate`. -/
def findDuplicate (env : Env) (operator : String) (call band mode qsoDateUtc : Value) :
    m (Option QSO) := do
  match qsoDateUtc with
  | .datetime dt =>
    let windowStart ← ofExcept (dt.add (-twoMinutes))
    let windowEnd ← ofExcept (dt.add twoMinutes)
    let found ← findOne (duplicateQuery operator call band mode windowStart windowEnd)
    ofExcept (qsoFromFound env.now found)
  | v => throw (.typeError
      ("unsupported operand type(s) for -: '" ++ typeName v ++ "' and 'datetime.timedelta'"))

/-- `find_duplicate` as every caller calls it, with the fields of the dictionary to insert. -/
def findDuplicateOf (env : Env) (operator : String) (qsoDict : Doc) : m (Option QSO) := do
  findDuplicate env operator (← ofExcept (getItem qsoDict "CALL"))
    (← ofExcept (getItem qsoDict "BAND")) (← ofExcept (getItem qsoDict "MODE"))
    (← ofExcept (getItem qsoDict "qso_date_utc"))

/-! ## Ingesting one record -/

/-- `_REQUIRED_FIELDS`, sorted. -/
def requiredFields : List String := ["BAND", "CALL", "MODE", "QSO_DATE", "TIME_ON"]

/-- The status dictionary of `ingest_qso_record`. -/
inductive IngestResult where
  | rejected (reason : String)
  | duplicate (existingId : String)
  | accepted (id source : String)
  deriving DecidableEq, Repr

/-- `str(qso.id) if qso else ""`. -/
def idText (qso : Option QSO) : String := (qso.map fun q ↦ q.id.pyStr).getD ""

/-- `except (ValueError, KeyError) as exc`: the text of an exception that is caught. -/
def validationError : PyErr → Option String
  | .valueError msg => some msg
  | .keyError key => some (PyErr.keyError key).str
  | _ => none

/-- `ingest_qso_record`. -/
def ingestQsoRecord (env : Env) (record : Record) (operator : String) (profile : Option User)
    (source : String) : m IngestResult := do
  match requiredFields.filter (· ∉ record) with
  | field :: _ => return .rejected ("missing required field: " ++ field)
  | [] =>
    match buildQsoDict record.toDoc operator profile with
    | .error exc =>
      match validationError exc with
      | some reason => return .rejected reason
      | none => throw exc
    | .ok qsoDict =>
      match ← findDuplicateOf env operator qsoDict with
      | some dup => return .duplicate dup.id.pyStr
      | none =>
        let result ← insertQsoDict env (env.fresh 0) qsoDict
        match result.status with
        | .duplicate => return .duplicate (idText result.existing)
        | .inserted => return .accepted (idText result.qso) source

/-! ## Importing a file -/

/-- An entry of `report["accepted"]`. -/
structure AcceptedEntry where
  recordIndex : Nat
  call : Value
  id : String

/-- An entry of `report["duplicates"]`, with the record for the review page. -/
structure DuplicateEntry where
  recordIndex : Nat
  call : Value
  existingId : String
  record : Option Record := none

/-- An entry of `report["errors"]`. -/
structure ErrorEntry where
  recordIndex : Nat
  call : Option Value := none
  error : String

/-- The report of an import. -/
structure ImportReport where
  totalRecords : Nat
  accepted : List AcceptedEntry := []
  duplicates : List DuplicateEntry := []
  errors : List ErrorEntry := []

/-- `_MAX_BYTES`. -/
def maxBytes : Nat := 10 * 1024 * 1024

/-- One round of the loop of `import_qsos_from_bytes`. -/
def importRecord (env : Env) (operator : String) (report : ImportReport) (item : Record × Nat) :
    m ImportReport := do
  let (record, idx) := item
  let call := (record["CALL"]?.map Value.str).getD (.str "?")
  match requiredFields.filter (· ∉ record) with
  | field :: fields =>
    return { report with errors := report.errors ++ [⟨idx, call,
      "Missing required field(s): " ++ ", ".intercalate (field :: fields)⟩] }
  | [] =>
    match buildQsoDict record.toDoc operator none with
    | .error exc =>
      match validationError exc with
      | some reason => return { report with errors := report.errors ++ [⟨idx, call, reason⟩] }
      | none => throw exc
    | .ok qsoDict =>
      let call := Doc.get qsoDict "CALL" .null
      match ← findDuplicateOf env operator qsoDict with
      | some dup => return { report with
          duplicates := report.duplicates ++ [⟨idx, call, dup.id.pyStr, record⟩] }
      | none =>
        let result ← insertQsoDict env (env.fresh idx) qsoDict
        match result.status with
        | .duplicate => return { report with
            duplicates := report.duplicates ++ [⟨idx, call, idText result.existing, record⟩] }
        | .inserted => return { report with
            accepted := report.accepted ++ [⟨idx, call, idText result.qso⟩] }

/-- `import_qsos_from_bytes`. -/
def importQsosFromBytes (env : Env) (raw : List UInt8) (operator : String) : m ImportReport := do
  if maxBytes < raw.length then throw (.valueError "File exceeds 10 MB limit")
  let (records, parseErrors) := parseAdi (decodeUtf8 raw)
  records.zipIdx.foldlM (importRecord env operator) {
    totalRecords := records.length
    errors := parseErrors.map fun e ↦ { recordIndex := e.recordIndex, error := e.error } }

/-! ## Changing -/

/-- `row_hash_for_updated_qso`. -/
def rowHashForUpdatedQso (qso : QSO) (updates : Doc) : String :=
  canonicalDocumentHash (qso.modelDump ∪ updates)

/-- `update_qso_fields`. -/
def updateQsoFields (env : Env) (qso : QSO) (updates : Doc) : m QSO := do
  updateOne qso.id (updates.insert "rowHash" (.str (rowHashForUpdatedQso qso updates)))
  match ← getQsoById env qso.id with
  | some updated => return updated
  | none => throw (.runtimeError "QSO disappeared during update")

/-- The `$set` of `soft_delete_qso`. -/
def softDeleteSet (qso : QSO) : Doc :=
  let deleted : Doc := (∅ : Doc).insert "_deleted" (.bool true)
  deleted.insert "rowHash" (.str (rowHashForUpdatedQso qso deleted))

/-- `soft_delete_qso`. -/
def softDeleteQso (qso : QSO) : m Unit := updateOne qso.id (softDeleteSet qso)

/-- The active QSOs of an operator. -/
def activeQuery (operator : String) (d : Doc) : Bool :=
  Doc.fieldIs d "_operator" (.str operator) && Doc.fieldIs d "_deleted" (.bool false)

/-- `clear_operator_log`. -/
def clearOperatorLog (operator : String) : m Nat := deleteMany (activeQuery operator)

end

end Ollog
