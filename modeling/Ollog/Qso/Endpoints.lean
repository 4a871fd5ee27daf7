import Ollog.Lib.Focus
import Ollog.Qso.Addressing
import Ollog.Qso.Collections
import Ollog.Qso.Responses

/-!
# The endpoints on the database

A handler opens the collection of its user and passes it on to the functions of the service.  Most
of these take it as an optional argument, and work through Beanie on the shared collection `qsos`
if it is left out.  Here the handlers run on the whole database and pass on what the source passes
on, so leaving the argument out would be seen.

The functions of this module are those of the service and of the routers, with the collection they
are given; `runsOn_serve` says that a request does on its user's collection what the handlers of
the other modules do on a collection of their own, and nothing else.  What Beanie does is a
parameter, since no request ever asks it.
-/

set_option autoImplicit false

namespace Ollog

open Effects

/-! ## Requests -/

/-- A request of the QSO endpoints and of the ADIF endpoints, once the user is known. -/
inductive ApiRequest where
  /-- `POST /api/qsos/`. -/
  | create (body : QSOCreateRequest) (force : Bool)
  /-- `GET /api/qsos/`. -/
  | list (params : ListParams)
  /-- `GET /api/qsos/{qso_id}`. -/
  | get (qsoId : String)
  /-- `PATCH /api/qsos/{qso_id}`. -/
  | patch (qsoId : String) (body : JsonDoc)
  /-- `DELETE /api/qsos/{qso_id}`. -/
  | delete (qsoId : String)
  /-- `POST /api/adif/import`. -/
  | importAdif (raw : List UInt8)
  /-- `GET /api/adif/export`. -/
  | exportAdif

/-- What the endpoints answer, when they do not raise. -/
inductive ApiResponse where
  | qso (response : QSOResponse)
  | page (response : QSOListResponse)
  | noContent
  | report (report : ImportReport)
  | download (filename : String) (text : List Char)

/-- A computation on the database. -/
abbrev Dbs := EStateM PyErr Database

/-- A call of a collection's methods. -/
def UserCollection.run {α : Type} (collection : UserCollection) (m : Db α) : Dbs α :=
  Database.on collection.1 collection.nameOk m

/-- A user with a collection. -/
structure Account where
  user : User
  coll : String
  coll_eq : qsoCollectionName user.username = .ok coll

/-- The collection of an account. -/
def Account.collection (account : Account) : UserCollection :=
  ⟨account.coll, collectionNameOk_of_user account.coll_eq⟩

theorem Account.opens (account : Account) :
    getUserQsoCollection account.user.username = .ok account.collection :=
  getUserQsoCollection_eq_ok.2 account.coll_eq

/-- What Beanie does with the documents of the model it was given. -/
class Beanie where
  /-- `QSO(**qso_dict)`. -/
  construct : Doc → Except PyErr QSO
  /-- `super().insert()`. -/
  insert : QSO → Dbs QSO
  /-- `QSO.find_one(query)`. -/
  findOne : (Doc → Bool) → Dbs (Option QSO)
  /-- `QSO.find(query).count()`. -/
  count : (Doc → Bool) → Dbs Nat
  /-- `QSO.find(query).sort(sort_by).skip(skip).limit(limit).to_list()`. -/
  page : (Doc → Bool) → String → Nat → Nat → Dbs (List QSO)

/-- What `import_adif` raises for what the import raises. -/
def importRejected : PyErr → PyErr
  | .valueError msg => .http 413 (.str msg)
  | exc => exc

namespace Server

variable [UnicodeData] [QueryEngine] [Beanie]

/-! ## The service -/

/-- `insert_qso_dict`. -/
def insertQsoDict (env : Env) (oid : ObjectId) (qsoDict : Doc) :
    Option UserCollection → Dbs QSOInsertResult
  | some collection => collection.run (Ollog.insertQsoDict env oid qsoDict)
  | none => do
    let qso ← ofExcept (Beanie.construct qsoDict)
    let qso := qso.refreshRowHash
    tryCatch
      (do
        let inserted ← Beanie.insert qso
        return { status := .inserted, qso := some inserted })
      fun exc ↦ match exc with
        | .duplicateKey _ =>
          if !mentionsRowHash exc then throw exc
          else do
            let existing ← Beanie.findOne fun d ↦ Doc.fieldIs d "rowHash" qso.rowHash
            return { status := .duplicate, existing }
        | _ => throw exc

/-- `find_duplicate`. -/
def findDuplicate (env : Env) (operator : String) (call band mode qsoDateUtc : Value) :
    Option UserCollection → Dbs (Option QSO)
  | some collection => collection.run (Ollog.findDuplicate env operator call band mode qsoDateUtc)
  | none => match qsoDateUtc with
    | .datetime dt => do
      let windowStart ← ofExcept (dt.add (-twoMinutes))
      let windowEnd ← ofExcept (dt.add twoMinutes)
      Beanie.findOne (duplicateQuery operator call band mode windowStart windowEnd)
    | v => throw (.typeError
        ("unsupported operand type(s) for -: '" ++ typeName v ++ "' and 'datetime.timedelta'"))

/-- `find_duplicate` as every caller calls it. -/
def findDuplicateOf (env : Env) (operator : String) (qsoDict : Doc)
    (collection : Option UserCollection) : Dbs (Option QSO) := do
  findDuplicate env operator (← ofExcept (getItem qsoDict "CALL"))
    (← ofExcept (getItem qsoDict "BAND")) (← ofExcept (getItem qsoDict "MODE"))
    (← ofExcept (getItem qsoDict "qso_date_utc")) collection

/-- `get_qso_page`. -/
def getQsoPage (env : Env) (operator : String) (params : ListParams)
    (dateFrom dateTo : Option DateTime) : Option UserCollection → Dbs (List QSO × Nat)
  | some collection => collection.run (Ollog.getQsoPage env operator params dateFrom dateTo)
  | none => do
    let sortBy := if params.sort ∈ allowedSortFields then params.sort else "-qso_date_utc"
    let query ← ofExcept (pageQuery operator params dateFrom dateTo)
    let total ← Beanie.count query
    let items ← Beanie.page query sortBy ((params.page - 1) * params.pageSize) params.pageSize
    return (items, total)

/-- One round of the loop of `import_qsos_from_bytes`. -/
def importRecord (env : Env) (operator : String) (collection : Option UserCollection)
    (report : ImportReport) (item : Record × Nat) : Dbs ImportReport := do
  let (record, idx) := item
  let call := (record["CALL"]?.map Value.str).getD (.str "?")
  match requiredFields.filter (· ∉ record) with
  | field :: fields =>
    return { report with errors := report.errors ++ [⟨idx, call,
      "Missing required field(s): " ++ ", ".intercalate (field :: fields)⟩] }
  | [] =>
    match buildQsoDict record.toDoc operator none with
    | .error exc =>
      match validationError exc with
      | some reason => return { report with errors := report.errors ++ [⟨idx, call, reason⟩] }
      | none => throw exc
    | .ok qsoDict =>
      let call := Doc.get qsoDict "CALL" .null
      match ← findDuplicateOf env operator qsoDict collection with
      | some dup => return { report with
          duplicates := report.duplicates ++ [⟨idx, call, dup.id.pyStr, record⟩] }
      | none =>
        let result ← insertQsoDict env (env.fresh idx) qsoDict collection
        match result.status with
        | .duplicate => return { report with
            duplicates := report.duplicates ++ [⟨idx, call, idText result.existing, record⟩] }
        | .inserted => return { report with
            accepted := report.accepted ++ [⟨idx, call, idText result.qso⟩] }

/-- `import_qsos_from_bytes`. -/
def importQsosFromBytes (env : Env) (raw : List UInt8) (operator : String)
    (collection : Option UserCollection) : Dbs ImportReport := do
  if maxBytes < raw.length then throw (.valueError "File exceeds 10 MB limit")
  let (records, parseErrors) := parseAdi (decodeUtf8 raw)
  records.zipIdx.foldlM (importRecord env operator collection) {
    totalRecords := records.length
    errors := parseErrors.map fun e ↦ { recordIndex := e.recordIndex, error := e.error } }

/-! ## The handlers -/

/-- Duplicate detection, unless the client insists. -/
def findUnlessForced (env : Env) (operator : String) (qsoDict : Doc) (force : Bool)
    (collection : Option UserCollection) : Dbs (Option QSO) :=
  if force then pure none else findDuplicateOf env operator qsoDict collection

/-- `create_qso`. -/
def createQso (env : Env) (body : QSOCreateRequest) (force : Bool) (user : User) : Dbs Doc := do
  let collection ← ofExcept (getUserQsoCollection user.username)
  let qsoDict ← ofExcept (buildQsoDict body.merged user.callsign (some user))
  let dup ← findUnlessForced env user.callsign qsoDict force (some collection)
  match dup with
  | some dup => throw (.http 409 (← ofExcept (conflictDetail (some dup) (fallbackQso qsoDict))))
  | none =>
    let result ← insertQsoDict env (env.fresh 0) qsoDict (some collection)
    match result.status, result.qso with
    | .inserted, some qso => return qsoToDict qso
    | _, _ =>
      throw (.http 409 (← ofExcept (conflictDetail result.existing (fallbackQso qsoDict))))

/-- `list_qsos`. -/
def listQsos (env : Env) (params : ListParams) (user : User) : Dbs QSOPage := do
  let collection ← ofExcept (getUserQsoCollection user.username)
  let dateFrom ← ofExcept (dateParam params.dateFrom "0000")
  let dateTo ← ofExcept (dateParam params.dateTo "2359")
  let (items, total) ←
    getQsoPage env user.callsign params dateFrom dateTo (some collection)
  return { items := items.map qsoToDict, total, page := params.page, pageSize := params.pageSize }

/-- The QSO a handler addresses, and the collection it is in. -/
def ownQso (env : Env) (qsoId : String) (user : User) : Dbs (QSO × UserCollection) := do
  match ObjectId.ofText qsoId with
  | none => throw notFound
  | some oid =>
    let collection ← ofExcept (getUserQsoCollection user.username)
    match ← collection.run (getQsoById env (.oid oid)) with
    | none => throw notFound
    | some qso =>
      if qso.operatorCallsign ≠ .str user.callsign ∨ qso.isDeleted.truthy = true then throw notFound
      else return (qso, collection)

/-- `get_qso`. -/
def getQso (env : Env) (qsoId : String) (user : User) : Dbs Doc := do
  let (qso, _) ← ownQso env qsoId user
  return qsoToDict qso

/-- `patch_qso`. -/
def patchQso (env : Env) (qsoId : String) (body : JsonDoc) (user : User) : Dbs Doc := do
  let (qso, collection) ← ownQso env qsoId user
  let updates ← ofExcept (patchUpdates user qso body.fields)
  if !updates.isEmpty then
    let body := withRowHash qso updates
    tryCatch (do let _ ← collection.run (updateQsoFields env qso body))
      fun exc ↦ collection.run (patchFailed env qso body exc)
  match ← collection.run (getQsoById env qso.id) with
  | some updated => return qsoToDict updated
  | none => throw (.attributeError "'NoneType' object has no attribute 'model_dump'")

/-- `delete_qso`. -/
def deleteQso (env : Env) (qsoId : String) (user : User) : Dbs Unit := do
  let (qso, collection) ← ownQso env qsoId user
  collection.run (softDeleteQso qso)

/-- `import_adif`.  The collection is opened inside of the `try`. -/
def importAdif (env : Env) (raw : List UInt8) (user : User) : Dbs ImportReport :=
  tryCatch
    (do
      let collection ← ofExcept (getUserQsoCollection user.username)
      importQsosFromBytes env raw user.callsign (some collection))
    fun exc ↦ throw (importRejected exc)

/-- `export_adif`. -/
def exportAdif (env : Env) (user : User) : Dbs (List Char) := do
  let collection ← ofExcept (getUserQsoCollection user.username)
  let docs ← collection.run (findAll (activeQuery user.callsign))
  let qsos ← ofExcept (docs.mapM (qsoFromMongoDoc env.now))
  return exportStream (qsos.map qsoToAdifDict)

/-- A request of a user.  What `create_qso`, `list_qsos`, `get_qso` and `patch_qso` return is
validated against the model of their response. -/
def serve (env : Env) (user : User) : ApiRequest → Dbs ApiResponse
  | .create body force => do
    return .qso (← ofExcept (QSOResponse.validate (← createQso env body force user)))
  | .list params => do
    return .page (← ofExcept (QSOListResponse.validate (← listQsos env params user)))
  | .get qsoId => do return .qso (← ofExcept (QSOResponse.validate (← getQso env qsoId user)))
  | .patch qsoId body => do
    return .qso (← ofExcept (QSOResponse.validate (← patchQso env qsoId body user)))
  | .delete qsoId => do
    deleteQso env qsoId user
    return .noContent
  | .importAdif raw => do return .report (← importAdif env raw user)
  | .exportAdif => do return .download (user.callsign ++ "_logbook.adi") (← exportAdif env user)

end Server

section

variable [UnicodeData] [QueryEngine]

/-- `import_adif`, on the collection of the user. -/
def importAdif (env : Env) (raw : List UInt8) (user : User) : Db ImportReport :=
  tryCatch (importQsosFromBytes env raw user.callsign) fun exc ↦ throw (importRejected exc)

/-- A request of a user, on the collection of the user. -/
def handleApi (env : Env) (user : User) : ApiRequest → Db ApiResponse
  | .create body force => do return .qso (← createQsoRoute env body force user)
  | .list params => do return .page (← listQsosRoute env params user)
  | .get qsoId => do return .qso (← getQsoRoute env qsoId user)
  | .patch qsoId body => do return .qso (← patchQsoRoute env qsoId body user)
  | .delete qsoId => do
    deleteQso env qsoId user
    return .noContent
  | .importAdif raw => do return .report (← importAdif env raw user)
  | .exportAdif => do return .download (user.callsign ++ "_logbook.adi") (← exportAdif env user)

end

/-! ## What the handlers do on the database -/

/-- The other collections. -/
def UserCollection.others (collection : UserCollection) (db : Database)
    (other : { name : String // name ≠ collection.1 }) : Collection := db.collection other

/-- `m` does on the collection what `m'` does on a collection of its own, and nothing else. -/
abbrev RunsOn {α : Type} (collection : UserCollection) (m : Dbs α) (m' : Db α) : Prop :=
  Focuses (fun db : Database ↦ db.collection collection.1) collection.others m m'

section

variable {collection : UserCollection} {α β : Type}

theorem runsOn_run (m : Db α) : RunsOn collection (collection.run m) m := by
  intro db
  have hothers : ∀ c, collection.others (db.put collection.1 collection.2 c) =
      collection.others db := fun c ↦ funext fun other ↦ Database.collection_put_of_ne other.2
  rw [wp]
  cases hm : m (db.collection collection.1) with
  | ok a c =>
    exact ⟨_, by rw [UserCollection.run, Database.on, hm], Database.collection_put, hothers c⟩
  | error exc c =>
    exact ⟨_, by rw [UserCollection.run, Database.on, hm], Database.collection_put, hothers c⟩

/-- A collection that can be opened is opened without touching the database. -/
theorem RunsOn.opened {user : User} (hcoll : getUserQsoCollection user.username = .ok collection)
    {f : UserCollection → Dbs β} {m' : Db β} (h : RunsOn collection (f collection) m') :
    RunsOn collection (ofExcept (getUserQsoCollection user.username) >>= f) m' := by
  rw [hcoll]
  exact h

variable [Beanie] {env : Env} {user : User}

theorem runsOn_findDuplicateOf (operator : String) (qsoDict : Doc) :
    RunsOn collection (Server.findDuplicateOf env operator qsoDict (some collection))
      (findDuplicateOf env operator qsoDict) := by
  rw [Server.findDuplicateOf, findDuplicateOf]
  exact (Focuses.ofExcept _).bind fun _ ↦ (Focuses.ofExcept _).bind fun _ ↦
    (Focuses.ofExcept _).bind fun _ ↦ (Focuses.ofExcept _).bind fun _ ↦ runsOn_run _

variable [UnicodeData]

theorem runsOn_importRecord (operator : String) (report : ImportReport) (item : Record × Nat) :
    RunsOn collection (Server.importRecord env operator (some collection) report item)
      (importRecord env operator report item) := by
  rw [Server.importRecord, importRecord]
  dsimp only
  cases requiredFields.filter (· ∉ item.1) with
  | cons field fields => exact .pure _
  | nil =>
  dsimp only
  cases buildQsoDict item.1.toDoc operator none with
  | error exc =>
    dsimp only
    cases validationError exc with
    | some reason => exact .pure _
    | none => exact .throw exc
  | ok qsoDict =>
  refine (runsOn_findDuplicateOf operator qsoDict).bind fun dup ↦ ?_
  cases dup with
  | some dup => exact .pure _
  | none =>
    refine (runsOn_run _).bind fun result ↦ ?_
    cases result.status <;> exact .pure _

theorem runsOn_importQsosFromBytes (raw : List UInt8) (operator : String) :
    RunsOn collection (Server.importQsosFromBytes env raw operator (some collection))
      (importQsosFromBytes env raw operator) := by
  rw [Server.importQsosFromBytes, importQsosFromBytes]
  refine .ite (fun _ ↦ .throw _) fun _ ↦ ?_
  exact .foldlM (fun report item ↦ runsOn_importRecord operator report item) _ _

end

section

variable {collection : UserCollection} {β : Type} {env : Env} {user : User}
  (hcoll : getUserQsoCollection user.username = .ok collection)

include hcoll

/-- What is done with the QSO that is addressed is done in its collection. -/
theorem runsOn_ownQso_bind (qsoId : String) {f : QSO × UserCollection → Dbs β} {f' : QSO → Db β}
    (hf : ∀ qso, RunsOn collection (f (qso, collection)) (f' qso)) :
    RunsOn collection (Server.ownQso env qsoId user >>= f) (ownQso env qsoId user >>= f') := by
  rw [Server.ownQso, ownQso]
  cases ObjectId.ofText qsoId with
  | none => exact .throw notFound
  | some oid =>
  rw [bind_assoc, bind_assoc]
  refine .opened hcoll ?_
  rw [bind_assoc]
  refine (runsOn_run _).bind fun found ↦ ?_
  cases found with
  | none => exact .throw notFound
  | some qso =>
    dsimp only
    split
    · exact .throw notFound
    · exact hf qso

variable [UnicodeData]

theorem runsOn_getQso (qsoId : String) :
    RunsOn collection (Server.getQso env qsoId user) (getQso env qsoId user) :=
  runsOn_ownQso_bind hcoll qsoId fun _ ↦ .pure _

theorem runsOn_patchQso (qsoId : String) (body : JsonDoc) :
    RunsOn collection (Server.patchQso env qsoId body user) (patchQso env qsoId body user) := by
  refine runsOn_ownQso_bind hcoll qsoId fun qso ↦ (Focuses.ofExcept _).bind fun updates ↦ ?_
  have hread : RunsOn collection (do
      match ← collection.run (getQsoById env qso.id) with
      | some updated => return qsoToDict updated
      | none => throw (.attributeError "'NoneType' object has no attribute 'model_dump'"))
      (do
        match ← getQsoById env qso.id with
        | some updated => return qsoToDict updated
        | none => throw (.attributeError "'NoneType' object has no attribute 'model_dump'")) := by
    refine (runsOn_run _).bind fun found ↦ ?_
    cases found with
    | some updated => exact .pure _
    | none => exact .throw _
  have hupdate : RunsOn collection
      (tryCatch (do let _ ← collection.run (updateQsoFields env qso (withRowHash qso updates)))
        fun exc ↦ collection.run (patchFailed env qso (withRowHash qso updates) exc))
      (tryCatch (do let _ ← updateQsoFields env qso (withRowHash qso updates))
        (patchFailed env qso (withRowHash qso updates))) :=
    .catching ((runsOn_run _).bind fun _ ↦ .pure _) fun _ ↦ runsOn_run _
  exact .ite (fun _ ↦ hupdate.bind fun _ ↦ hread) fun _ ↦ hread

theorem runsOn_deleteQso (qsoId : String) :
    RunsOn collection (Server.deleteQso env qsoId user) (deleteQso env qsoId user) :=
  runsOn_ownQso_bind hcoll qsoId fun _ ↦ runsOn_run _

theorem runsOn_exportAdif :
    RunsOn collection (Server.exportAdif env user) (exportAdif env user) :=
  .opened hcoll ((runsOn_run _).bind fun _ ↦ (Focuses.ofExcept _).bind fun _ ↦ .pure _)

variable [Beanie]

theorem runsOn_createQso (body : QSOCreateRequest) (force : Bool) :
    RunsOn collection (Server.createQso env body force user) (createQso env body force user) := by
  refine .opened hcoll ((Focuses.ofExcept _).bind fun qsoDict ↦ ?_)
  have hfound : RunsOn collection
      (Server.findUnlessForced env user.callsign qsoDict force (some collection))
      (findUnlessForced env user.callsign qsoDict force) :=
    .ite (fun _ ↦ .pure _) fun _ ↦ runsOn_findDuplicateOf _ _
  refine hfound.bind fun dup ↦ ?_
  cases dup with
  | some dup => exact (Focuses.ofExcept _).bind fun _ ↦ .throw _
  | none =>
    refine (runsOn_run _).bind fun result ↦ ?_
    obtain ⟨status, qso, existing⟩ := result
    cases status with
    | duplicate => exact (Focuses.ofExcept _).bind fun _ ↦ .throw _
    | inserted =>
      cases qso with
      | none => exact (Focuses.ofExcept _).bind fun _ ↦ .throw _
      | some qso => exact .pure (qsoToDict qso)

theorem runsOn_importAdif (raw : List UInt8) :
    RunsOn collection (Server.importAdif env raw user) (importAdif env raw user) :=
  .catching (RunsOn.opened hcoll (runsOn_importQsosFromBytes raw user.callsign)) fun _ ↦ .throw _

variable [QueryEngine]

theorem runsOn_listQsos (params : ListParams) :
    RunsOn collection (Server.listQsos env params user) (listQsos env params user) :=
  .opened hcoll ((Focuses.ofExcept _).bind fun _ ↦ (Focuses.ofExcept _).bind fun _ ↦
    (runsOn_run _).bind fun _ ↦ .pure _)

/-- **A request runs on the collection of its user**: it does there what the handlers do on a
collection of their own, and touches nothing else of the database. -/
theorem runsOn_serve (request : ApiRequest) :
    RunsOn collection (Server.serve env user request) (handleApi env user request) := by
  have hvalidated : ∀ {γ δ : Type} {m : Dbs γ} {m' : Db γ} (validate : γ → Except PyErr δ)
      (respond : δ → ApiResponse), RunsOn collection m m' →
      RunsOn collection (do return respond (← ofExcept (validate (← m))))
        (do return respond (← (do ofExcept (validate (← m')) : Db δ))) := by
    intro γ δ m m' validate respond h
    rw [bind_assoc]
    exact h.bind fun _ ↦ (Focuses.ofExcept _).bind fun _ ↦ .pure _
  cases request with
  | create body force => exact hvalidated _ _ (runsOn_createQso hcoll body force)
  | list params => exact hvalidated _ _ (runsOn_listQsos hcoll params)
  | get qsoId => exact hvalidated _ _ (runsOn_getQso hcoll qsoId)
  | patch qsoId body => exact hvalidated _ _ (runsOn_patchQso hcoll qsoId body)
  | delete qsoId => exact (runsOn_deleteQso hcoll qsoId).bind fun _ ↦ .pure _
  | importAdif raw => exact (runsOn_importAdif hcoll raw).bind fun _ ↦ .pure _
  | exportAdif => exact (runsOn_exportAdif hcoll).bind fun _ ↦ .pure _

end

end Ollog
