import Ollog.Adif.Serializer
import Ollog.Qso.Service

/-!
# The endpoints

The handlers behind `/api/qsos`, `/api/adif` and `/log` that read or write a user's QSOs.  A
handler ends by returning its response or by raising; an exception other than an `HTTPException`
becomes a 500.  Handlers that render a template return what the template is rendered from.

A JSON body is a `JsonDoc`, so no handler sees a date or an object id a client made up.
-/

set_option autoImplicit false

namespace Ollog

open Effects

/-! ## Requests -/

/-- A JSON object. -/
structure JsonDoc where
  fields : Doc
  /-- Every value came out of a JSON text. -/
  isJson : ∀ (k : String) (v : Value), fields[k]? = some v → v.isJson = true

/-- The fields `QSOCreateRequest` declares. -/
def createDeclared : List String :=
  ["CALL", "QSO_DATE", "TIME_ON", "BAND", "MODE", "FREQ", "RST_SENT", "RST_RCVD"]

/-- `QSOCreateRequest`. -/
structure QSOCreateRequest where
  call : String
  qsoDate : String
  timeOn : String
  band : String
  mode : String
  freq : Option String := none
  rstSent : Option String := none
  rstRcvd : Option String := none
  /-- `model_extra`: the other fields of the body. -/
  extra : JsonDoc
  extra_undeclared : ∀ k ∈ createDeclared, k ∉ extra.fields

/-- `None`, or a text. -/
def optionalText : Option String → Value
  | none => .null
  | some s => .str s

/-- `body.model_dump(exclude_unset=False)`, without the extra fields. -/
def QSOCreateRequest.declared (body : QSOCreateRequest) : Doc :=
  .ofList [("CALL", .str body.call), ("QSO_DATE", .str body.qsoDate), ("TIME_ON", .str body.timeOn),
    ("BAND", .str body.band), ("MODE", .str body.mode), ("FREQ", optionalText body.freq),
    ("RST_SENT", optionalText body.rstSent), ("RST_RCVD", optionalText body.rstRcvd)]

/-- `{**body.model_dump(exclude_unset=False), **(body.model_extra or {})}`. -/
def QSOCreateRequest.merged (body : QSOCreateRequest) : Doc := body.declared ∪ body.extra.fields

/-- The text fields of a submitted form. -/
abbrev Form := Std.ExtTreeMap String String

/-- A form parameter; FastAPI takes an empty one for absent. -/
def formParam (form : Form) (k : String) : Option String :=
  match form[k]? with
  | some s => if s = "" then none else some s
  | none => none

/-- A required form parameter. -/
def requiredParam (form : Form) (k : String) : Except PyErr String :=
  match formParam form k with
  | some s => .ok s
  | none => .error (.http 422 (.dict [("missing", .str k)]))

/-! ## Responses -/

/-- `dt.isoformat() if dt else default`.  A `DBRef` hands out its further fields as attributes. -/
def isoformatOr (default : Value) (dt : Value) : Except PyErr Value :=
  match dt with
  | .datetime d => .ok (.str (d.isoformat "T"))
  | .dbRef _ _ _ extra =>
    match extra.lookup "isoformat" with
    | some v => .error (.typeError ("'" ++ typeName v ++ "' object is not callable"))
    | none => .error (.attributeError "isoformat")
  | v =>
    if v.truthy then
      .error (.attributeError ("'" ++ typeName v ++ "' object has no attribute 'isoformat'"))
    else .ok default

section

variable [UnicodeData] {m : Type → Type} [Monad m] [MonadExceptOf PyErr m] [MonadLiftT Db m]

/-- `_qso_to_dict`. -/
def qsoToDict (qso : QSO) : Doc :=
  let d := qso.modelDump.insert "id" (.str qso.id.pyStr)
  let d := (d.erase "_id").erase "_created_at"
  match d["qso_date_utc"]? with
  | some (.datetime dt) => d.insert "qso_date_utc" (.str (dt.isoformat "T"))
  | _ => d

/-- The detail of a 409.  `fallback` stands in for the fields of a QSO that is gone. -/
def conflictDetail (existing : Option QSO) (fallback : QSO) : Except PyErr Value := do
  let shown := existing.getD fallback
  let date ← match existing with
    | some qso => isoformatOr .null qso.qsoDateUtc
    | none => .ok .null
  return .dict [("duplicate", .bool true), ("existing_id", .str (idText existing)),
    ("existing_call", shown.call), ("existing_band", shown.band), ("existing_mode", shown.mode),
    ("existing_date", date)]

/-- The fields a response falls back to when the QSO it is about is gone. -/
def fallbackQso (qsoDict : Doc) : QSO where
  id := .null
  operatorCallsign := .null
  call := Doc.get qsoDict "CALL" .null
  band := Doc.get qsoDict "BAND" .null
  mode := Doc.get qsoDict "MODE" .null
  qsoDateUtc := .null
  isDeleted := .null
  createdAt := .null
  rowHash := .null
  modelExtra := ∅

/-! ## Creating -/

/-- Duplicate detection, unless the client insists. -/
def findUnlessForced (env : Env) (operator : String) (qsoDict : Doc) (force : Bool) :
    m (Option QSO) :=
  if force then pure none else findDuplicateOf env operator qsoDict

/-- `create_qso`. -/
def createQso (env : Env) (body : QSOCreateRequest) (force : Bool) (user : User) : m Doc := do
  let qsoDict ← ofExcept (buildQsoDict body.merged user.callsign (some user))
  let dup ← findUnlessForced env user.callsign qsoDict force
  match dup with
  | some dup => throw (.http 409 (← ofExcept (conflictDetail (some dup) (fallbackQso qsoDict))))
  | none =>
    let result ← insertQsoDict env (env.fresh 0) qsoDict
    match result.status, result.qso with
    | .inserted, some qso => return qsoToDict qso
    | _, _ =>
      throw (.http 409 (← ofExcept (conflictDetail result.existing (fallbackQso qsoDict))))

/-- `_custom_qso_values_from_form`. -/
def customQsoValuesFromForm (form : Form) (user : User) (includeEmpty : Bool) :
    Except PyErr Doc := do
  return (← enabledCustomFieldsForUser (some user)).foldl (fun (values : Doc) field ↦
    match form[field.adifName]? with
    | none => values
    | some text =>
      let value := strip text
      if !includeEmpty && value == "" then values
      else values.insert field.adifName
        (.str (if field.forceUppercase then upper value else value))) ∅

/-- The form parameters of `submit_qso`, as a dictionary. -/
def formData (form : Form) (call qsoDate timeOn band mode : String) : Doc :=
  .ofList [("CALL", .str call), ("QSO_DATE", .str qsoDate), ("TIME_ON", .str timeOn),
    ("BAND", .str band), ("MODE", .str mode), ("FREQ", optionalText (formParam form "FREQ")),
    ("RST_SENT", optionalText (formParam form "RST_SENT")),
    ("RST_RCVD", optionalText (formParam form "RST_RCVD"))]

/-- `submit_qso` up to the call of `build_qso_dict`: the fields of the form that are not `None`. -/
def submittedFields (form : Form) (user : User) : Except PyErr Doc := do
  let call ← requiredParam form "CALL"
  let qsoDate ← requiredParam form "QSO_DATE"
  let timeOn ← requiredParam form "TIME_ON"
  let band ← requiredParam form "BAND"
  let mode ← requiredParam form "MODE"
  let customValues ← customQsoValuesFromForm form user false
  return (formData form call qsoDate timeOn band mode ∪ customValues).filter fun _ v ↦ v != .null

/-- What `log/qso_result.html` is rendered from. -/
inductive SubmitResult where
  | duplicate (call band mode qsoDateUtc : Value)
  | success (call band mode qsoDateUtc : Value)

/-- The fields of a QSO that are shown. -/
def shownFields (f : Value → Value → Value → Value → SubmitResult) (qso : QSO) :
    Except PyErr SubmitResult := do
  return f qso.call qso.band qso.mode (← isoformatOr (.str "") qso.qsoDateUtc)

/-- `submit_qso`. -/
def submitQso (env : Env) (form : Form) (force : Bool) (user : User) : m SubmitResult := do
  let qsoDict ← ofExcept (do buildQsoDict (← submittedFields form user) user.callsign (some user))
  let dup ← findUnlessForced env user.callsign qsoDict force
  match dup with
  | some dup => ofExcept (shownFields .duplicate dup)
  | none =>
    let result ← insertQsoDict env (env.fresh 0) qsoDict
    match result.status, result.qso with
    | .inserted, some qso => ofExcept (shownFields .success qso)
    | _, _ => ofExcept (shownFields .duplicate (result.existing.getD (fallbackQso qsoDict)))

/-- The body of the `try` in `import_selected_duplicates`. -/
def insertSelected (env : Env) (user : User) (token : Except PyErr JsonDoc) (idx : Nat) :
    m (Doc × QSOInsertResult) := do
  let record ← ofExcept token
  let qsoDict ← ofExcept (buildQsoDict record.fields user.callsign none)
  let result ← insertQsoDict env (env.fresh idx) qsoDict
  return (qsoDict, result)

/-- The report after one selected record.  The call is looked up outside of the `try`, so a record
without one ends the request. -/
def reportSelected (report : ImportReport) (idx : Nat) :
    Except PyErr (Doc × QSOInsertResult) → Except PyErr ImportReport
  | .error exc => .ok { report with errors := report.errors ++ [⟨idx, some (.str "?"), exc.str⟩] }
  | .ok (qsoDict, result) => do
    let call ← getItem qsoDict "CALL"
    match result.status with
    | .duplicate => return { report with
        duplicates := report.duplicates ++ [{
          recordIndex := idx, call := call, existingId := idText result.existing }] }
    | .inserted => return { report with
        accepted := report.accepted ++ [⟨idx, call, idText result.qso⟩] }

/-- `import_selected_duplicates`, for the records its tokens decode to. -/
def importSelectedDuplicates (env : Env) (selected : List (Except PyErr JsonDoc)) (user : User) :
    m ImportReport :=
  selected.zipIdx.foldlM (fun report item ↦ do
    ofExcept (reportSelected report item.2 (← attempt (insertSelected env user item.1 item.2))))
    { totalRecords := selected.length }

/-! ## Reading -/

/-- The 404 of every handler that addresses one QSO. -/
def notFound : PyErr := .http 404 (.str "QSO not found")

/-- The QSO a handler addresses: it must exist, belong to the user and not be deleted. -/
def ownQso (env : Env) (qsoId : String) (user : User) : m QSO := do
  match ObjectId.ofText qsoId with
  | none => throw notFound
  | some oid =>
    match ← getQsoById env (.oid oid) with
    | none => throw notFound
    | some qso =>
      if qso.operatorCallsign ≠ .str user.callsign ∨ qso.isDeleted.truthy = true then throw notFound
      else return qso

/-- `get_qso`. -/
def getQso (env : Env) (qsoId : String) (user : User) : m Doc := do
  return qsoToDict (← ownQso env qsoId user)

/-- `_SKIP_FIELDS`. -/
def skipFields : List String :=
  ["qso_date_utc", "_operator", "_deleted", "_id", "id", "revision_id", "_created_at"]

/-- One field of `_qso_to_adif_dict`. -/
def putText (d : Record) (k : String) (v : Value) : Record :=
  if v = .null then d else d.insert k v.pyStr

/-- `_qso_to_adif_dict`. -/
def qsoToAdifDict (qso : QSO) : Record :=
  let d := putText (putText (putText ∅ "CALL" qso.call) "BAND" qso.band) "MODE" qso.mode
  qso.modelExtra.toList.foldl (fun d (k, v) ↦ if k ∈ skipFields then d else putText d k v) d

/-- `export_adif`. -/
def exportAdif (env : Env) (user : User) : m (List Char) := do
  let docs ← findAll (activeQuery user.callsign)
  let qsos ← ofExcept (docs.mapM (qsoFromMongoDoc env.now))
  return exportStream (qsos.map qsoToAdifDict)

/-! ## Changing -/

/-- The fields a client must not change. -/
def protectedFields : List String :=
  ["_operator", "operator_callsign", "_deleted", "is_deleted", "_id", "_created_at", "created_at",
    "rowHash", "row_hash"]

/-- `body.pop` of every protected field. -/
def stripProtected (body : Doc) : Doc := body.keep fun k ↦ k ∉ protectedFields

/-- Recalculate `qso_date_utc` if either ADIF time field changed. -/
def recalculateDate (qso : QSO) (body : Doc) : Except PyErr Doc :=
  if "QSO_DATE" ∈ body ∨ "TIME_ON" ∈ body then
    match Value.orElse body["QSO_DATE"]? qso.modelDumpByName["QSO_DATE"]?,
      Value.orElse body["TIME_ON"]? qso.modelDumpByName["TIME_ON"]? with
    | some newDate, some newTime =>
      if newDate.truthy && newTime.truthy then do
        return body.insert "qso_date_utc" (.datetime (← parseAdifDatetime newDate newTime))
      else .ok body
    | _, _ => .ok body
  else .ok body

/-- The fields `patch_qso` makes of a body, before the instant is considered. -/
def patchedFields (user : User) (body : Doc) : Except PyErr Doc := do
  let body := stripProtected body
  let body ← upperField body "BAND"
  let body ← upperField body "MODE"
  applyCustomFieldNormalization body (some user)

/-- The updates `patch_qso` makes of a body. -/
def patchUpdates (user : User) (qso : QSO) (body : Doc) : Except PyErr Doc := do
  recalculateDate qso (← patchedFields user body)

/-- The `rowHash` that goes with some updates. -/
def withRowHash (qso : QSO) (updates : Doc) : Doc :=
  updates.insert "rowHash" (.str (rowHashForUpdatedQso qso updates))

/-- What `patch_qso` does when the update has failed: a conflict names the QSO in the way. -/
def patchFailed (env : Env) (qso : QSO) (body : Doc) (exc : PyErr) : m Unit :=
  if !mentionsRowHash exc then throw exc
  else do
    let existing ← getQsoById env qso.id
    let duplicate ← findOne fun d ↦ Doc.fieldIs d "rowHash" (Doc.get body "rowHash" .null)
    let duplicate ← ofExcept (qsoFromFound env.now duplicate)
    throw (.http 409 (← ofExcept (conflictDetail (duplicate.or existing) { qso with
      call := Doc.get body "CALL" qso.call
      band := Doc.get body "BAND" qso.band
      mode := Doc.get body "MODE" qso.mode })))

/-- `patch_qso`. -/
def patchQso (env : Env) (qsoId : String) (body : JsonDoc) (user : User) : m Doc := do
  let qso ← ownQso env qsoId user
  let updates ← ofExcept (patchUpdates user qso body.fields)
  if !updates.isEmpty then
    let body := withRowHash qso updates
    tryCatch (do let _ ← updateQsoFields env qso body) (patchFailed env qso body)
  match ← getQsoById env qso.id with
  | some updated => return qsoToDict updated
  | none => throw (.attributeError "'NoneType' object has no attribute 'model_dump'")

/-- `value.strip()` of a form field, if it is there and not blank. -/
def nonBlank (value : Option String) : Option String :=
  match value with
  | some s => if strip s = "" then none else some (strip s)
  | none => none

/-- Take over a form field that is not blank. -/
def putNonBlank (updates : Doc) (k : String) (f : String → String) (value : Option String) : Doc :=
  match nonBlank value with
  | some s => updates.insert k (.str (f s))
  | none => updates

/-- The text `qso_update` takes for one half of an instant: the one of the form, if it is not
blank, or the one that is stored. -/
def formText (qso : QSO) (form : Form) (k : String) : Value :=
  ((nonBlank (formParam form k)).map Value.str).getD (Doc.get qso.modelExtra k (.str ""))

/-- Recalculate the instant for `qso_update`.  A date that does not parse is passed over. -/
def formInstant (updates : Doc) (date time : Value) : Except PyErr Doc :=
  if date.truthy && time.truthy then
    match parseAdifDatetime date time with
    | .ok dt => .ok (updates.insert "qso_date_utc" (.datetime dt))
    | .error (.valueError _) => .ok updates
    | .error exc => .error exc
  else .ok updates

/-- The date part of `qso_update`.  The texts are taken over whether or not they parse. -/
def formDate (qso : QSO) (form : Form) (updates : Doc) : Except PyErr Doc := do
  if (nonBlank (formParam form "QSO_DATE")).isNone && (nonBlank (formParam form "TIME_ON")).isNone
    then return updates
  let updates ← formInstant updates (formText qso form "QSO_DATE") (formText qso form "TIME_ON")
  let updates := putNonBlank updates "QSO_DATE" id (formParam form "QSO_DATE")
  return putNonBlank updates "TIME_ON" id (formParam form "TIME_ON")

/-- The fields of the form other than the two of the date, with the custom ones laid over them. -/
def formTexts (form : Form) (customValues : Doc) : Doc :=
  let updates := putNonBlank ∅ "CALL" upper (formParam form "CALL")
  let updates := putNonBlank updates "BAND" upper (formParam form "BAND")
  let updates := putNonBlank updates "MODE" upper (formParam form "MODE")
  let updates := putNonBlank updates "FREQ" id (formParam form "FREQ")
  let updates := putNonBlank updates "RST_SENT" id (formParam form "RST_SENT")
  let updates := putNonBlank updates "RST_RCVD" id (formParam form "RST_RCVD")
  updates ∪ customValues

/-- The updates `qso_update` makes of a form. -/
def formUpdates (user : User) (qso : QSO) (form : Form) : Except PyErr Doc := do
  let customValues ← customQsoValuesFromForm form user true
  return stripProtected (← formDate qso form (formTexts form customValues))

/-- `qso_update`, up to the row that is rendered from the result. -/
def qsoUpdate (env : Env) (qsoId : String) (form : Form) (user : User) : m QSO := do
  let qso ← ownQso env qsoId user
  let updates ← ofExcept (formUpdates user qso form)
  if updates.isEmpty then throw (.http 400 (.str "No valid fields to update"))
  tryCatch (do let _ ← updateQsoFields env qso (withRowHash qso updates)) fun exc ↦
    if !mentionsRowHash exc then throw exc else throw (.http 409 (.str "QSO already exists"))
  match ← getQsoById env qso.id with
  | some updated => return updated
  | none => throw notFound

/-- `delete_qso`, and `qso_delete` of the browser interface. -/
def deleteQso (env : Env) (qsoId : String) (user : User) : m Unit := do
  softDeleteQso (← ownQso env qsoId user)

end

end Ollog
