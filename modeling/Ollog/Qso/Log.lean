import Mathlib.Logic.Relation
import Ollog.Qso.Fields

/-!
# A user's log over time

One user's collection is written by nine kinds of requests.  `step` runs one of them and keeps the
collection it leaves behind, whether the request succeeded or raised.

What matters for everything that is proved about whole runs is said once, in `step_writes`: however
long a handler is, all it does to the collection is a sequence of `Write`s, and each of them is the
insertion of a QSO built by `build_qso_dict`, one `$set` computed from a stored document, or a
clear.  An invariant therefore has three cases, and `forall_docs_of_guarded` turns them into a
statement about every run.
-/

set_option autoImplicit false

namespace Ollog

open Effects Relation

/-! ## Requests -/

/-- What writes to a user's collection. -/
inductive Request where
  /-- `POST /api/qsos/`. -/
  | create (body : QSOCreateRequest) (force : Bool) (user : User)
  /-- `POST /log/qsos`. -/
  | submit (form : Form) (force : Bool) (user : User)
  /-- One record from UDP or ACLog. -/
  | ingest (record : Record) (operator : String) (profile : Option User) (source : String)
  /-- `POST /api/adif/import` and `POST /log/import`. -/
  | importAdif (raw : List UInt8) (operator : String)
  /-- `POST /log/import/duplicates`. -/
  | importDuplicates (selected : List (Except PyErr JsonDoc)) (user : User)
  /-- `PATCH /api/qsos/{qso_id}`. -/
  | patch (qsoId : String) (body : JsonDoc) (user : User)
  /-- `PATCH /log/qsos/{qso_id}`. -/
  | uiPatch (qsoId : String) (form : Form) (user : User)
  /-- `DELETE /api/qsos/{qso_id}` and `DELETE /log/qsos/{qso_id}`. -/
  | delete (qsoId : String) (user : User)
  /-- `POST /log/profile/clear`, and the clear of the admin interface. -/
  | clear (operator : String)

section

variable [UnicodeData]

/-- Run one request. -/
def handle (env : Env) : Request → Db Unit
  | .create body force user => do let _ ← createQso env body force user
  | .submit form force user => do let _ ← submitQso env form force user
  | .ingest record operator profile source => do
    let _ ← ingestQsoRecord env record operator profile source
  | .importAdif raw operator => do let _ ← importQsosFromBytes env raw operator
  | .importDuplicates selected user => do let _ ← importSelectedDuplicates env selected user
  | .patch qsoId body user => do let _ ← patchQso env qsoId body user
  | .uiPatch qsoId form user => do let _ ← qsoUpdate env qsoId form user
  | .delete qsoId user => deleteQso env qsoId user
  | .clear operator => do let _ ← clearOperatorLog operator

/-- The collection after one request. -/
def step (c : Collection) (event : Env × Request) : Collection :=
  after (handle event.1 event.2) c

/-! ## Writes -/

/-- The QSOs a request may insert: the fields they are built from, the operator, the profile they
are stamped with, and whether `find_duplicate` is asked first. -/
def Request.Submits : Request → Doc → String → Option User → Bool → Prop
  | .create body force user, fields, operator, profile, checked =>
    fields = body.merged ∧ operator = user.callsign ∧ profile = some user ∧ checked = !force
  | .submit form force user, fields, operator, profile, checked =>
    submittedFields form user = .ok fields ∧ operator = user.callsign ∧ profile = some user ∧
      checked = !force
  | .ingest record operator' profile' _, fields, operator, profile, checked =>
    fields = record.toDoc ∧ operator = operator' ∧ profile = profile' ∧ checked = true
  | .importAdif raw operator', fields, operator, profile, checked =>
    (∃ record ∈ (parseAdi (decodeUtf8 raw)).1, fields = record.toDoc) ∧ operator = operator' ∧
      profile = none ∧ checked = true
  | .importDuplicates selected user, fields, operator, profile, checked =>
    (∃ record : JsonDoc, .ok record ∈ selected ∧ fields = record.fields) ∧
      operator = user.callsign ∧ profile = none ∧ checked = false
  | _, _, _, _, _ => False

/-- The fields of a request hold JSON values. -/
theorem Request.Submits.isJson {request : Request} {fields : Doc} {operator : String}
    {profile : Option User} {checked : Bool}
    (h : request.Submits fields operator profile checked) {k : String} {v : Value}
    (hv : fields[k]? = some v) : v.isJson = true := by
  cases request with
  | create body force user =>
    obtain ⟨rfl, -⟩ := h
    exact body.isJson_merged hv
  | submit form force user =>
    refine (retouched_submittedFields h.1).isJson (fun j w hw ↦ ?_) hv
    rw [Std.ExtTreeMap.getElem?_empty] at hw
    cases hw
  | ingest record operator' profile' source =>
    obtain ⟨rfl, -⟩ := h
    exact isJson_toDoc hv
  | importAdif raw operator' =>
    obtain ⟨⟨record, -, rfl⟩, -⟩ := h
    exact isJson_toDoc hv
  | importDuplicates selected user =>
    obtain ⟨⟨record, -, rfl⟩, -⟩ := h
    exact record.isJson k v hv
  | _ => exact absurd h id

/-- The QSO is the one of that id, it belongs to the user, and it is not deleted. -/
structure Addresses (qsoId : String) (user : User) (qso : QSO) : Prop where
  id : (ObjectId.ofText qsoId).map Value.oid = some qso.id
  own : qso.operatorCallsign = .str user.callsign
  active : qso.isDeleted.truthy = false

/-- The updates a request may make of a stored QSO. -/
def Request.Changes : Request → QSO → Doc → Prop
  | .patch qsoId body user, qso, updates =>
    Addresses qsoId user qso ∧ patchUpdates user qso body.fields = .ok updates
  | .uiPatch qsoId form user, qso, updates =>
    Addresses qsoId user qso ∧ formUpdates user qso form = .ok updates
  | .delete qsoId user, qso, updates =>
    Addresses qsoId user qso ∧ updates = (∅ : Doc).insert "_deleted" (.bool true)
  | _, _, _ => False

/-- What `find_duplicate` has established when it found nothing. -/
def NoDuplicate (operator : String) (qsoDict : Doc) (c : Collection) : Prop :=
  ∃ call band mode dt windowStart windowEnd, qsoDict["CALL"]? = some call ∧
    qsoDict["BAND"]? = some band ∧ qsoDict["MODE"]? = some mode ∧
    qsoDict["qso_date_utc"]? = some (.datetime dt) ∧
    dt.add (-twoMinutes) = .ok windowStart ∧ dt.add twoMinutes = .ok windowEnd ∧
    ∀ d ∈ c.docs, duplicateQuery operator call band mode windowStart windowEnd d = false

/-- `c'` is `c` with the QSO of a dictionary inserted. -/
def Inserts (env : Env) (qsoDict : Doc) (c c' : Collection) : Prop :=
  ∃ oid qso, qsoFromInputDict env.now oid qsoDict = .ok qso ∧
    c.insert (qsoToMongoDoc oid qso) = .ok c'

/-- One write of a request. -/
inductive Write (env : Env) (request : Request) (c : Collection) : Collection → Prop where
  | insert {fields : Doc} {operator : String} {profile : Option User} {checked : Bool}
      {qsoDict : Doc} {c' : Collection} (hsubmit : request.Submits fields operator profile checked)
      (hbuild : buildQsoDict fields operator profile = .ok qsoDict)
      (hcheck : checked = true → NoDuplicate operator qsoDict c)
      (hinsert : Inserts env qsoDict c c') : Write env request c c'
  | update {old : Doc} {qso : QSO} {updates : Doc} {c' : Collection} (hold : old ∈ c.docs)
      (hqso : qsoFromMongoDoc env.now old = .ok qso) (hchange : request.Changes qso updates)
      (hupdate : c.update qso.id (withRowHash qso updates) = .ok c') : Write env request c c'
  | clear {operator : String} (hclear : request = .clear operator) :
      Write env request c (c.deleteMany (activeQuery operator))

end

/-! ## What the service functions do -/

section Rules

variable {env : Env} {c : Collection}

theorem wp_insertQsoDict [UnicodeData] {oid : ObjectId} {qsoDict : Doc}
    {Q : QSOInsertResult → Collection → Prop} {E : PyErr → Collection → Prop} (hQ : ∀ result, Q result c) (hE : ∀ exc, E exc c)
    (hinsert : ∀ c', Inserts env qsoDict c c' → ∀ result, Q result c') :
    wp (insertQsoDict env oid qsoDict) Q E c := by
  simp only [insertQsoDict, wp_bind, wp_ofExcept, wp_tryCatch, wp_liftM, wp_insertOne, wp_pure]
  refine ⟨fun qso hqso ↦ ⟨fun c' hc' ↦ hinsert c' ⟨oid, qso, hqso, hc'⟩ _, fun exc _ ↦ ?_⟩,
    fun exc _ ↦ hE exc⟩
  split
  · simp only [wp_ite, wp_throw, wp_bind, wp_liftM, wp_findOne, wp_ofExcept, wp_pure]
    exact ⟨fun _ ↦ hE _, fun _ ↦ ⟨fun _ _ ↦ hQ _, fun exc _ ↦ hE exc⟩⟩
  · exact hE _

theorem wp_findDuplicateOf {operator : String} {qsoDict : Doc}
    {Q : Option QSO → Collection → Prop} {E : PyErr → Collection → Prop}
    (hsome : ∀ dup, Q (some dup) c) (hnone : NoDuplicate operator qsoDict c → Q none c)
    (hE : ∀ exc, E exc c) : wp (findDuplicateOf env operator qsoDict) Q E c := by
  simp only [findDuplicateOf, wp_bind, wp_ofExcept]
  refine ⟨fun call hcall ↦ ⟨fun band hband ↦ ⟨fun mode hmode ↦ ⟨fun qsoDateUtc hdate ↦ ?_,
    fun exc _ ↦ hE exc⟩, fun exc _ ↦ hE exc⟩, fun exc _ ↦ hE exc⟩, fun exc _ ↦ hE exc⟩
  unfold findDuplicate
  split
  · rename_i dt
    simp only [wp_bind, wp_ofExcept, wp_liftM, wp_findOne]
    refine ⟨fun windowStart hstart ↦ ⟨fun windowEnd hend ↦ ⟨fun found hfound ↦ ?_,
      fun exc _ ↦ hE exc⟩, fun exc _ ↦ hE exc⟩, fun exc _ ↦ hE exc⟩
    cases found with
    | some dup => exact hsome dup
    | none =>
      refine hnone ⟨call, band, mode, dt, windowStart, windowEnd, getItem_eq_ok hcall, getItem_eq_ok hband,
        getItem_eq_ok hmode, getItem_eq_ok hdate, hstart, hend, ?_⟩
      cases hfind : c.docs.find? (duplicateQuery operator call band mode windowStart windowEnd) with
      | none => simpa [List.find?_eq_none] using hfind
      | some d =>
        rw [hfind] at hfound
        obtain ⟨_, _, h⟩ := bind_eq_ok.1 hfound
        cases h
  · exact hE _

theorem wp_getQsoById {qsoId : Value} {Q : Option QSO → Collection → Prop}
    {E : PyErr → Collection → Prop} (hnone : Q none c)
    (hsome : ∀ d ∈ c.docs, d["_id"]? = some qsoId → ∀ qso, qsoFromMongoDoc env.now d = .ok qso →
      Q (some qso) c)
    (hE : ∀ exc, E exc c) : wp (getQsoById env qsoId) Q E c := by
  simp only [getQsoById, wp_bind, wp_liftM, wp_findOne, wp_ofExcept]
  refine ⟨fun found hfound ↦ ?_, fun exc _ ↦ hE exc⟩
  cases hfind : c.docs.find? fun d ↦ d["_id"]? == some qsoId with
  | none =>
    rw [hfind] at hfound
    cases hfound
    exact hnone
  | some d =>
    rw [hfind] at hfound
    obtain ⟨qso, hqso, h⟩ := bind_eq_ok.1 hfound
    cases h
    exact hsome d (List.mem_of_find?_eq_some hfind) (by simpa using List.find?_some hfind) qso hqso

/-- The QSO a handler addresses is a stored one, of its user, and active. -/
theorem wp_ownQso {qsoId : String} {user : User} {Q : QSO → Collection → Prop}
    {E : PyErr → Collection → Prop}
    (hQ : ∀ d ∈ c.docs, ∀ qso, qsoFromMongoDoc env.now d = .ok qso → Addresses qsoId user qso →
      Q qso c)
    (hE : ∀ exc, E exc c) : wp (ownQso env qsoId user) Q E c := by
  rw [ownQso]
  split
  · exact hE _
  rename_i oid hoid
  rw [wp_bind]
  refine wp_getQsoById (hE _) (fun d hd hid qso hqso ↦ ?_) hE
  dsimp only
  simp only [wp_ite, wp_throw, wp_pure]
  refine ⟨fun _ ↦ hE _, fun hown ↦ hQ d hd qso hqso ?_⟩
  rw [not_or, not_not, Bool.not_eq_true] at hown
  exact ⟨by rw [hoid, id_of_hydrated hqso hid, Option.map_some], hown.1, hown.2⟩

/-- An update computed from a QSO that is stored. -/
theorem withRowHash_withRowHash [UnicodeData] (qso : QSO) (updates : Doc) :
    withRowHash qso (withRowHash qso updates) = withRowHash qso updates := by
  have hhash : rowHashForUpdatedQso qso (withRowHash qso updates) =
      rowHashForUpdatedQso qso updates := by
    refine canonicalDocumentHash_congr fun k hk ↦ ?_
    have hne : k ≠ "rowHash" := fun h ↦ hk (h ▸ by decide)
    rw [Doc.getElem?_update, Doc.getElem?_update, withRowHash, Doc.getElem?_insert, if_neg hne]
  refine Std.ExtTreeMap.ext_getElem? fun k ↦ ?_
  rw [withRowHash, hhash, withRowHash, Doc.getElem?_insert, Doc.getElem?_insert]
  split <;> rfl

theorem wp_updateQsoFields [UnicodeData] {qso : QSO} {updates : Doc} {Q : QSO → Collection → Prop}
    {E : PyErr → Collection → Prop}
    (hE : ∀ exc, c.update qso.id (withRowHash qso updates) = .error exc → E exc c)
    (hupdate : ∀ c', c.update qso.id (withRowHash qso updates) = .ok c' →
      (∀ a, Q a c') ∧ ∀ exc, E exc c') :
    wp (updateQsoFields env qso updates) Q E c := by
  simp only [updateQsoFields, wp_bind, wp_liftM, wp_updateOne]
  refine ⟨fun c' hc' ↦ ?_, hE⟩
  obtain ⟨hQ', hE'⟩ := hupdate c' hc'
  exact wp_getQsoById (hE' _) (fun _ _ _ qso _ ↦ hQ' qso) hE'

theorem wp_findUnlessForced {force : Bool} {operator : String} {qsoDict : Doc}
    {Q : Option QSO → Collection → Prop} {E : PyErr → Collection → Prop}
    (hsome : ∀ dup, Q (some dup) c)
    (hnone : ((!force) = true → NoDuplicate operator qsoDict c) → Q none c)
    (hE : ∀ exc, E exc c) :
    wp (findUnlessForced env operator qsoDict force) Q E c := by
  simp only [findUnlessForced, wp_ite, wp_pure]
  refine ⟨fun hforce ↦ hnone fun h ↦ ?_, fun hforce ↦ ?_⟩
  · rw [hforce] at h
    cases h
  · exact wp_findDuplicateOf hsome (fun h ↦ hnone fun _ ↦ h) hE

end Rules

/-! ## What the handlers do -/

section Handlers

variable [UnicodeData] {env : Env} {c : Collection}

/-- The insertion of a QSO that a request submits, and then the end of the request. -/
theorem wp_insert_of_submits {request : Request} {fields : Doc} {operator : String}
    {profile : Option User} {checked : Bool} {oid : ObjectId} {qsoDict : Doc}
    {R : Collection → Prop} (hsubmit : request.Submits fields operator profile checked)
    (hbuild : buildQsoDict fields operator profile = .ok qsoDict)
    (hcheck : checked = true → NoDuplicate operator qsoDict c) (hnone : R c)
    (hwrite : ∀ c', Write env request c c' → R c') :
    wp (insertQsoDict env oid qsoDict : Db _) (fun _ ↦ R) (fun _ ↦ R) c :=
  wp_insertQsoDict (fun _ ↦ hnone) (fun _ ↦ hnone) fun c' hinsert _ ↦
    hwrite c' (.insert hsubmit hbuild hcheck hinsert)

theorem createQso_writes (body : QSOCreateRequest) (force : Bool) (user : User) :
    ReflGen (Write env (.create body force user)) c
      (after (createQso env body force user : Db _) c) := by
  have hrefl : ReflGen (Write env (.create body force user)) c c := .refl
  refine after_of_wp ?_
  simp only [createQso, wp_bind, wp_ofExcept]
  refine ⟨fun qsoDict hbuild ↦ ?_, fun _ _ ↦ hrefl⟩
  refine wp_findUnlessForced (fun dup ↦ ?_) (fun hcheck ↦ ?_) fun _ ↦ hrefl
  · simp only [wp_bind, wp_ofExcept, wp_throw]
    exact ⟨fun _ _ ↦ hrefl, fun _ _ ↦ hrefl⟩
  · have hsubmit : (Request.create body force user).Submits body.merged user.callsign (some user)
        (!force) := ⟨rfl, rfl, rfl, rfl⟩
    rw [wp_bind]
    refine wp_mono (wp_insert_of_submits hsubmit hbuild hcheck hrefl fun _ ↦ .single)
      (fun result c' h ↦ ?_) fun _ _ h ↦ h
    split
    · exact h
    · simp only [wp_bind, wp_ofExcept, wp_throw]
      exact ⟨fun _ _ ↦ h, fun _ _ ↦ h⟩

theorem submitQso_writes (form : Form) (force : Bool) (user : User) :
    ReflGen (Write env (.submit form force user)) c
      (after (submitQso env form force user : Db _) c) := by
  have hrefl : ReflGen (Write env (.submit form force user)) c c := .refl
  refine after_of_wp ?_
  simp only [submitQso, wp_bind, wp_ofExcept]
  refine ⟨fun qsoDict hqsoDict ↦ ?_, fun _ _ ↦ hrefl⟩
  obtain ⟨fields, hfields, hbuild⟩ := bind_eq_ok.1 hqsoDict
  refine wp_findUnlessForced (fun dup ↦ ?_) (fun hcheck ↦ ?_) fun _ ↦ hrefl
  · simp only [wp_ofExcept]
    exact ⟨fun _ _ ↦ hrefl, fun _ _ ↦ hrefl⟩
  · have hsubmit : (Request.submit form force user).Submits fields user.callsign (some user)
        (!force) := ⟨hfields, rfl, rfl, rfl⟩
    rw [wp_bind]
    refine wp_mono (wp_insert_of_submits hsubmit hbuild hcheck hrefl fun _ ↦ .single)
      (fun result c' h ↦ ?_) fun _ _ h ↦ h
    split <;> simp only [wp_ofExcept] <;> exact ⟨fun _ _ ↦ h, fun _ _ ↦ h⟩

theorem ingestQsoRecord_writes (record : Record) (operator : String) (profile : Option User)
    (source : String) :
    ReflGen (Write env (.ingest record operator profile source)) c
      (after (ingestQsoRecord env record operator profile source : Db _) c) := by
  have hrefl : ReflGen (Write env (.ingest record operator profile source)) c c := .refl
  refine after_of_wp ?_
  rw [ingestQsoRecord]
  split
  · exact hrefl
  split
  · split <;> exact hrefl
  rename_i qsoDict hbuild
  rw [wp_bind]
  refine wp_findDuplicateOf (fun dup ↦ hrefl) (fun hcheck ↦ ?_) fun _ ↦ hrefl
  rw [wp_bind]
  have hsubmit : (Request.ingest record operator profile source).Submits record.toDoc operator
      profile true := ⟨rfl, rfl, rfl, rfl⟩
  refine wp_mono (wp_insert_of_submits hsubmit hbuild (fun _ ↦ hcheck) hrefl fun _ ↦ .single)
    (fun result c' h ↦ ?_) fun _ _ h ↦ h
  split <;> exact h

/-- One round of an import, for a record of the file. -/
theorem wp_importRecord {raw : List UInt8} {operator : String} {c₀ : Collection}
    (hreach : ReflTransGen (Write env (.importAdif raw operator)) c₀ c) {record : Record}
    (hrecord : record ∈ (parseAdi (decodeUtf8 raw)).1) (report : ImportReport) (idx : Nat) :
    wp (importRecord env operator report (record, idx) : Db _)
      (fun _ ↦ ReflTransGen (Write env (.importAdif raw operator)) c₀)
      (fun _ ↦ ReflTransGen (Write env (.importAdif raw operator)) c₀) c := by
  rw [importRecord]
  dsimp only
  split
  · exact hreach
  split
  · split <;> exact hreach
  rename_i qsoDict hbuild
  rw [wp_bind]
  refine wp_findDuplicateOf (fun dup ↦ hreach) (fun hcheck ↦ ?_) fun _ ↦ hreach
  rw [wp_bind]
  have hsubmit : (Request.importAdif raw operator).Submits record.toDoc operator none true :=
    ⟨⟨record, hrecord, rfl⟩, rfl, rfl, rfl⟩
  refine wp_mono (wp_insert_of_submits hsubmit hbuild (fun _ ↦ hcheck) hreach
    fun _ ↦ hreach.tail) (fun result c' h ↦ ?_) fun _ _ h ↦ h
  split <;> exact h

theorem importQsosFromBytes_writes (raw : List UInt8) (operator : String) :
    ReflTransGen (Write env (.importAdif raw operator)) c
      (after (importQsosFromBytes env raw operator : Db _) c) := by
  have hrefl : ReflTransGen (Write env (.importAdif raw operator)) c c := .refl
  refine after_of_wp ?_
  simp only [importQsosFromBytes, wp_ite]
  refine ⟨fun _ ↦ hrefl, fun _ ↦ ?_⟩
  refine wp_foldlM (fun _ c' ↦ ReflTransGen (Write env (.importAdif raw operator)) c c')
    (fun report item hitem c' h ↦ ?_) hrefl
  exact wp_importRecord h (List.fst_mem_of_mem_zipIdx hitem) report item.2

theorem importSelectedDuplicates_writes (selected : List (Except PyErr JsonDoc)) (user : User) :
    ReflTransGen (Write env (.importDuplicates selected user)) c
      (after (importSelectedDuplicates env selected user : Db _) c) := by
  refine after_of_wp (wp_foldlM (fun _ c' ↦
    ReflTransGen (Write env (.importDuplicates selected user)) c c')
    (fun report item hitem c' h ↦ ?_) .refl)
  have htoken := List.fst_mem_of_mem_zipIdx hitem
  have hselected : wp (insertSelected env user item.1 item.2 : Db _)
      (fun _ ↦ ReflTransGen (Write env (.importDuplicates selected user)) c)
      (fun _ ↦ ReflTransGen (Write env (.importDuplicates selected user)) c) c' := by
    simp only [insertSelected, wp_bind, wp_ofExcept]
    refine ⟨fun record hrecord ↦ ⟨fun qsoDict hbuild ↦ ?_, fun _ _ ↦ h⟩, fun _ _ ↦ h⟩
    have hsubmit : (Request.importDuplicates selected user).Submits record.fields user.callsign
        none false := ⟨⟨record, hrecord ▸ htoken, rfl⟩, rfl, rfl, rfl⟩
    exact wp_insert_of_submits hsubmit hbuild
      (fun hforced ↦ absurd hforced (by decide)) h fun _ ↦ h.tail
  rw [wp_bind, wp_attempt]
  exact wp_mono hselected (fun _ _ h ↦ wp_ofExcept.2 ⟨fun _ _ ↦ h, fun _ _ ↦ h⟩)
    fun _ _ h ↦ wp_ofExcept.2 ⟨fun _ _ ↦ h, fun _ _ ↦ h⟩

theorem wp_patchFailed {qso : QSO} {body : Doc} {exc : PyErr} {Q : Unit → Collection → Prop}
    {E : PyErr → Collection → Prop} (hE : ∀ exc, E exc c) :
    wp (patchFailed env qso body exc) Q E c := by
  simp only [patchFailed, wp_ite, wp_throw, wp_bind]
  refine ⟨fun _ ↦ hE _, fun _ ↦ ?_⟩
  have hrest : ∀ existing, wp (do
      let duplicate ← findOne fun d ↦ Doc.fieldIs d "rowHash" (Doc.get body "rowHash" .null)
      let duplicate ← ofExcept (qsoFromFound env.now duplicate)
      throw (.http 409 (← ofExcept (conflictDetail (duplicate.or existing) { qso with
        call := Doc.get body "CALL" qso.call
        band := Doc.get body "BAND" qso.band
        mode := Doc.get body "MODE" qso.mode }))) : Db Unit) Q E c := by
    intro existing
    simp only [wp_bind, wp_findOne, wp_ofExcept, wp_throw]
    exact ⟨fun _ _ ↦ ⟨fun _ _ ↦ hE _, fun _ _ ↦ hE _⟩, fun _ _ ↦ hE _⟩
  simp only [wp_bind] at hrest
  exact wp_getQsoById (hrest none) (fun _ _ _ qso _ ↦ hrest (some qso)) hE

theorem patchQso_writes (qsoId : String) (body : JsonDoc) (user : User) :
    ReflGen (Write env (.patch qsoId body user)) c
      (after (patchQso env qsoId body user : Db _) c) := by
  have hrefl : ReflGen (Write env (.patch qsoId body user)) c c := .refl
  refine after_of_wp ?_
  rw [patchQso]
  rw [wp_bind]
  refine wp_ownQso (fun old hold qso hqso hown ↦ ?_) fun _ ↦ hrefl
  simp only [wp_bind, wp_ofExcept]
  refine ⟨fun updates hupdates ↦ ?_, fun _ _ ↦ hrefl⟩
  -- Reading the QSO back for the response writes nothing.
  have hread : ∀ {respond : Option QSO → Db Doc} {c' : Collection},
      ReflGen (Write env (.patch qsoId body user)) c c' →
      (∀ found, wp (respond found) (fun _ ↦ ReflGen (Write env (.patch qsoId body user)) c)
        (fun _ ↦ ReflGen (Write env (.patch qsoId body user)) c) c') →
      wp (getQsoById env qso.id >>= respond)
        (fun _ ↦ ReflGen (Write env (.patch qsoId body user)) c)
        (fun _ ↦ ReflGen (Write env (.patch qsoId body user)) c) c' := by
    intro respond c' h hrespond
    rw [wp_bind]
    exact wp_getQsoById (hrespond none) (fun _ _ _ updated _ ↦ hrespond (some updated)) fun _ ↦ h
  simp only [wp_ite, wp_bind, wp_tryCatch]
  refine ⟨fun _ ↦ ?_, fun _ ↦ wp_bind.1 (hread hrefl fun found ↦ by cases found <;> exact hrefl)⟩
  refine wp_updateQsoFields (fun exc _ ↦ wp_patchFailed fun _ ↦ hrefl) fun c' hc' ↦ ?_
  rw [withRowHash_withRowHash] at hc'
  have h : ReflGen (Write env (.patch qsoId body user)) c c' :=
    .single (.update hold hqso ⟨hown, hupdates⟩ hc')
  exact ⟨fun _ ↦ wp_pure.2 (hread h fun found ↦ by cases found <;> exact h), fun exc ↦ wp_patchFailed fun _ ↦ h⟩

theorem qsoUpdate_writes (qsoId : String) (form : Form) (user : User) :
    ReflGen (Write env (.uiPatch qsoId form user)) c
      (after (qsoUpdate env qsoId form user : Db _) c) := by
  have hrefl : ReflGen (Write env (.uiPatch qsoId form user)) c c := .refl
  refine after_of_wp ?_
  rw [qsoUpdate]
  rw [wp_bind]
  refine wp_ownQso (fun old hold qso hqso hown ↦ ?_) fun _ ↦ hrefl
  simp only [wp_bind, wp_ofExcept]
  refine ⟨fun updates hupdates ↦ ?_, fun _ _ ↦ hrefl⟩
  simp only [wp_ite, wp_throw, wp_bind, wp_tryCatch]
  refine ⟨fun _ ↦ hrefl, fun _ ↦ ?_⟩
  refine wp_updateQsoFields (fun exc _ ↦ wp_ite.2 ⟨fun _ ↦ hrefl, fun _ ↦ hrefl⟩) fun c' hc' ↦ ?_
  rw [withRowHash_withRowHash] at hc'
  have h : ReflGen (Write env (.uiPatch qsoId form user)) c c' :=
    .single (.update hold hqso ⟨hown, hupdates⟩ hc')
  exact ⟨fun _ ↦ wp_pure.2 (wp_bind.2 (wp_getQsoById h (fun _ _ _ _ _ ↦ h) fun _ ↦ h)),
    fun exc ↦ wp_ite.2 ⟨fun _ ↦ h, fun _ ↦ h⟩⟩

theorem deleteQso_writes (qsoId : String) (user : User) :
    ReflGen (Write env (.delete qsoId user)) c (after (deleteQso env qsoId user : Db _) c) := by
  have hrefl : ReflGen (Write env (.delete qsoId user)) c c := .refl
  refine after_of_wp ?_
  rw [deleteQso, wp_bind]
  refine wp_ownQso (fun old hold qso hqso hown ↦ ?_) fun _ ↦ hrefl
  rw [softDeleteQso, wp_liftM, wp_updateOne]
  exact ⟨fun c' hc' ↦ .single (.update hold hqso ⟨hown, rfl⟩ hc'), fun _ _ ↦ hrefl⟩

/-- **What a request does to the collection**: at most one write, or, if it imports, a sequence
of writes none of which changes a stored QSO. -/
theorem step_writes (c : Collection) (env : Env) (request : Request) :
    ReflGen (Write env request) c (step c (env, request)) ∨
      (∀ qso updates, ¬ request.Changes qso updates) ∧
        ReflTransGen (Write env request) c (step c (env, request)) := by
  rw [step]
  cases request with
  | create body force user =>
    rw [handle, after_discard]
    exact .inl (createQso_writes body force user)
  | submit form force user =>
    rw [handle, after_discard]
    exact .inl (submitQso_writes form force user)
  | ingest record operator profile source =>
    rw [handle, after_discard]
    exact .inl (ingestQsoRecord_writes record operator profile source)
  | importAdif raw operator =>
    rw [handle, after_discard]
    exact .inr ⟨fun _ _ ↦ id, importQsosFromBytes_writes raw operator⟩
  | importDuplicates selected user =>
    rw [handle, after_discard]
    exact .inr ⟨fun _ _ ↦ id, importSelectedDuplicates_writes selected user⟩
  | patch qsoId body user =>
    rw [handle, after_discard]
    exact .inl (patchQso_writes qsoId body user)
  | uiPatch qsoId form user =>
    rw [handle, after_discard]
    exact .inl (qsoUpdate_writes qsoId form user)
  | delete qsoId user => exact .inl (deleteQso_writes qsoId user)
  | clear operator => exact .inl (.single (.clear rfl))

end Handlers

/-! ## Invariants of every run -/

section Invariants

variable [UnicodeData]

/-- A property of collections that the writes of a request keep is kept by the request. -/
theorem step_induction {I : Collection → Prop} {env : Env} {request : Request}
    (hwrite : ∀ c c', I c → Write env request c c' → I c') {c : Collection} (h : I c) :
    I (step c (env, request)) := by
  have hwrites : ReflTransGen (Write env request) c (step c (env, request)) :=
    (step_writes c env request).elim ReflGen.to_reflTransGen And.right
  generalize step c (env, request) = c' at hwrites
  induction hwrites with
  | refl => exact h
  | tail _ hlast ih => exact hwrite _ _ ih hlast

/-- A property of documents holds of all documents a write leaves behind, if it holds of the new
documents the request submits and survives the changes it makes. -/
theorem Write.forall_docs {P : Doc → Prop} {env : Env} {request : Request} {c c' : Collection}
    (hinsert : ∀ {fields operator profile checked qsoDict oid qso},
      request.Submits fields operator profile checked →
      buildQsoDict fields operator profile = .ok qsoDict →
      (checked = true → ∃ c, NoDuplicate operator qsoDict c) →
      qsoFromInputDict env.now oid qsoDict = .ok qso →
      P (Doc.toStored (qsoToMongoDoc oid qso)))
    (hupdate : ∀ {old qso updates new}, old ∈ c.docs → qsoFromMongoDoc env.now old = .ok qso →
      request.Changes qso updates →
      applySet (Doc.toStored (withRowHash qso updates)) old = .ok new → P new)
    (h : ∀ d ∈ c.docs, P d) (hwrite : Write env request c c') : ∀ d ∈ c'.docs, P d := by
  cases hwrite with
  | insert hsubmit hbuild hcheck hins =>
    obtain ⟨oid, qso, hqso, hc'⟩ := hins
    rw [(Collection.insert_eq_ok hc').1]
    intro d hd
    rcases List.mem_append.1 hd with hd | hd
    · exact h d hd
    · rw [List.mem_singleton.1 hd]
      exact hinsert hsubmit hbuild (fun hchecked ↦ ⟨c, hcheck hchecked⟩) hqso
  | @update old qso updates _ hold hqso hchange hset =>
    obtain rfl | ⟨old', new, hold', hid', hnew, -, hdocs, -⟩ := Collection.update_eq_ok hset
    · exact h
    obtain ⟨id, hid⟩ := Option.isSome_iff_exists.1 (c.ids_present old hold)
    rw [id_of_hydrated hqso hid] at hid'
    obtain rfl := Collection.eq_of_id_eq hold' hold (hid'.trans hid.symm)
    rw [hdocs]
    intro d hd
    obtain rfl | ⟨hd, -⟩ := Collection.mem_replaceById hd
    · exact hupdate hold hqso hchange hnew
    · exact h d hd
  | clear _ =>
    intro d hd
    exact h d (List.mem_filter.1 hd).1

/-- **Invariants of documents**, where the search for a duplicate counts: what it has not found
tells something of the dictionary that is inserted. -/
theorem forall_docs_of_guarded_checked {P : Doc → Prop}
    {cond : Collection → Env × Request → Prop} {c : Collection} {events : List (Env × Request)}
    (hguard : Guarded step cond c events)
    (hinsert : ∀ {c : Collection} {env : Env} {request : Request}, cond c (env, request) →
      ∀ {fields operator profile checked qsoDict oid qso},
      request.Submits fields operator profile checked →
      buildQsoDict fields operator profile = .ok qsoDict →
      (checked = true → ∃ c, NoDuplicate operator qsoDict c) →
      qsoFromInputDict env.now oid qsoDict = .ok qso →
      P (Doc.toStored (qsoToMongoDoc oid qso)))
    (hupdate : ∀ {c : Collection} {env : Env} {request : Request}, cond c (env, request) →
      ∀ {old qso updates new}, old ∈ c.docs → P old → qsoFromMongoDoc env.now old = .ok qso →
      request.Changes qso updates →
      applySet (Doc.toStored (withRowHash qso updates)) old = .ok new → P new)
    (h : ∀ d ∈ c.docs, P d) : ∀ d ∈ (run step c events).docs, P d := by
  refine hguard.induction (I := fun c ↦ ∀ d ∈ c.docs, P d) (fun c event hc hcond ↦ ?_) h
  obtain ⟨env, request⟩ := event
  rcases step_writes c env request with hwrite | ⟨hno, hwrites⟩
  · generalize step c (env, request) = c' at hwrite
    cases hwrite with
    | refl => exact hc
    | single hwrite =>
      exact hwrite.forall_docs (hinsert hcond)
        (fun hold hqso hchange hnew ↦ hupdate hcond hold (hc _ hold) hqso hchange hnew) hc
  · generalize step c (env, request) = c' at hwrites
    induction hwrites with
    | refl => exact hc
    | tail _ hlast ih =>
      exact hlast.forall_docs (hinsert hcond)
        (fun _ _ hchange _ ↦ absurd hchange (hno _ _)) ih

/-- **Invariants of documents.**  A property of documents that new QSOs have, and that every change
allowed by `cond` keeps, holds of every document of every state that a run of allowed requests
reaches. -/
theorem forall_docs_of_guarded {P : Doc → Prop} {cond : Collection → Env × Request → Prop}
    {c : Collection} {events : List (Env × Request)} (hguard : Guarded step cond c events)
    (hinsert : ∀ {c : Collection} {env : Env} {request : Request}, cond c (env, request) →
      ∀ {fields operator profile checked qsoDict oid qso},
      request.Submits fields operator profile checked →
      buildQsoDict fields operator profile = .ok qsoDict →
      qsoFromInputDict env.now oid qsoDict = .ok qso →
      P (Doc.toStored (qsoToMongoDoc oid qso)))
    (hupdate : ∀ {c : Collection} {env : Env} {request : Request}, cond c (env, request) →
      ∀ {old qso updates new}, old ∈ c.docs → P old → qsoFromMongoDoc env.now old = .ok qso →
      request.Changes qso updates →
      applySet (Doc.toStored (withRowHash qso updates)) old = .ok new → P new)
    (h : ∀ d ∈ c.docs, P d) : ∀ d ∈ (run step c events).docs, P d :=
  forall_docs_of_guarded_checked hguard
    (fun hcond _ _ _ _ _ _ _ hsubmit hbuild _ hqso ↦ hinsert hcond hsubmit hbuild hqso) hupdate h

end Invariants

/-! ## A small log -/

namespace Sample

/-- A server whose clock stands still. -/
def env : Env where
  now := ⟨0, some 0⟩
  fresh n := ⟨BitVec.ofNat 96 (n + 1)⟩

/-- The same server, with its next `ObjectId()`. -/
def later : Env := { env with fresh := fun n ↦ ⟨BitVec.ofNat 96 (n + 2)⟩ }

def user : User where
  username := "w1aw"
  callsign := "W1AW"

/-- The collection of a new user, with the unique index. -/
def log : Collection := .empty "ollog.w1aw_qsos" true

/-- The `_id` of the first QSO. -/
def firstId : String := "000000000000000000000001"

/-- A JSON object without fields. -/
def noFields : JsonDoc := ⟨∅, fun k v h ↦ by simp at h⟩

/-- A JSON object with one field. -/
def oneField (k : String) (v : Value) (hv : v.isJson = true) : JsonDoc where
  fields := (∅ : Doc).insert k v
  isJson _ _ h := by
    rw [(Doc.eq_of_getElem?_insert_empty h).2]
    exact hv

/-- A JSON object with one text. -/
def oneText (k s : String) : JsonDoc := oneField k (.str s) rfl

theorem eq_of_getElem?_oneText {k s j : String} {w : Value}
    (h : (oneText k s).fields[j]? = some w) : j = k ∧ w = .str s :=
  Doc.eq_of_getElem?_insert_empty h

theorem eq_of_mem_oneField {k j : String} {v : Value} {hv : v.isJson = true}
    (h : j ∈ (oneField k v hv).fields) : j = k := by
  obtain ⟨w, hw⟩ := Option.ne_none_iff_exists'.1 (Doc.mem_iff_ne_none.1 h)
  exact (Doc.eq_of_getElem?_insert_empty hw).1

theorem eq_of_mem_oneText {k s j : String} (h : j ∈ (oneText k s).fields) : j = k :=
  eq_of_mem_oneField h

/-- A contact. -/
def contact : QSOCreateRequest where
  call := "K1ABC"
  qsoDate := "20240101"
  timeOn := "1200"
  band := "20m"
  mode := "ssb"
  extra := noFields
  extra_undeclared k _ h := by simp [noFields] at h

end Sample

end Ollog
