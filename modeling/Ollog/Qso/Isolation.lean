import Ollog.Qso.Endpoints

/-!
# Operators do not see each other

Every operator has a collection of their own, and every endpoint opens the collection of the user
who has been authenticated, and passes it on.  `runsOn_serve` says that it works there and nowhere
else, so nothing outside of the collection changes, and nothing outside of it matters.

What is left to show is about the collection: that a document a request adds is stamped with the
callsign of the account, and that a patch leaves the fields alone that say whose a document is.
-/

set_option autoImplicit false

namespace Ollog

open Effects Relation

section

variable [UnicodeData] [QueryEngine]

/-! ## Inside the collection -/

/-- The write a request makes, if it is no request that only reads. -/
def ApiRequest.write (user : User) : ApiRequest → Option Request
  | .create body force => some (.create body force user)
  | .patch qsoId body => some (.patch qsoId body user)
  | .delete qsoId => some (.delete qsoId user)
  | .importAdif raw => some (.importAdif raw user.callsign)
  | _ => none

omit [QueryEngine] in
theorem after_importAdif (env : Env) (raw : List UInt8) (user : User) (c : Collection) :
    after (importAdif env raw user) c =
      after (importQsosFromBytes env raw user.callsign : Db _) c := by
  have h : importAdif env raw user c =
      EStateM.tryCatch (importQsosFromBytes env raw user.callsign : Db _)
        (fun exc ↦ throw (importRejected exc)) c := rfl
  rw [after, after, h, EStateM.tryCatch]
  cases (importQsosFromBytes env raw user.callsign : Db _) c with
  | ok report c' => rfl
  | error exc c' => rfl

omit [QueryEngine] in
/-- Reading a log does not change it. -/
theorem after_getQso (env : Env) (qsoId : String) (user : User) (c : Collection) :
    after (getQso env qsoId user : Db _) c = c := by
  refine after_of_wp (P := (· = c)) ?_
  rw [getQso, wp_bind]
  exact wp_ownQso (fun _ _ _ _ _ ↦ rfl) fun _ ↦ rfl

omit [QueryEngine] in
theorem after_exportAdif (env : Env) (user : User) (c : Collection) :
    after (exportAdif env user : Db _) c = c := by
  refine after_of_wp (P := (· = c)) ?_
  simp only [exportAdif, wp_bind, wp_liftM, wp_findAll, wp_ofExcept, wp_pure, implies_true,
    and_self]

/-- **What a request does to its collection** is the write it makes. -/
theorem after_handleApi (env : Env) (user : User) (request : ApiRequest) (c : Collection) :
    after (handleApi env user request) c =
      ((request.write user).map fun write ↦ step c (env, write)).getD c := by
  cases request with
  | create body force =>
    rw [handleApi, after_bind_pure, createQsoRoute, after_bind_ofExcept, ApiRequest.write,
      Option.map_some, Option.getD_some, step, handle, after_discard]
  | list params =>
    rw [handleApi, after_bind_pure, listQsosRoute, after_bind_ofExcept]
    exact after_of_wp (P := (· = c)) (wp_mono wp_listQsos (fun _ _ h ↦ h.1) fun _ _ h ↦ h)
  | get qsoId =>
    rw [handleApi, after_bind_pure, getQsoRoute, after_bind_ofExcept]
    exact after_getQso env qsoId user c
  | patch qsoId body =>
    rw [handleApi, after_bind_pure, patchQsoRoute, after_bind_ofExcept, ApiRequest.write,
      Option.map_some, Option.getD_some, step, handle, after_discard]
  | delete qsoId =>
    rw [handleApi, after_bind_pure]
    rfl
  | importAdif raw =>
    rw [handleApi, after_bind_pure, after_importAdif, ApiRequest.write, Option.map_some,
      Option.getD_some, step, handle, after_discard]
  | exportAdif =>
    rw [handleApi, after_bind_pure]
    exact after_exportAdif env user c

/-- A document of the new collection is an old one, perhaps changed, or one of the operator. -/
def OwnOrOld (operator : String) (c c' : Collection) : Prop :=
  ∀ d ∈ c'.docs, (∃ old ∈ c.docs, old["_id"]? = d["_id"]?) ∨
    d["_operator"]? = some (.str operator)

omit [QueryEngine] in
/-- A QSO of an operator with a callsign is stamped with it. -/
theorem operator_newDoc {now : DateTime} {oid : ObjectId} {fields qsoDict : Doc}
    {operator : String} {profile : Option User} {qso : QSO} (hoperator : operator ≠ "")
    (hbuild : buildQsoDict fields operator profile = .ok qsoDict)
    (h : qsoFromInputDict now oid qsoDict = .ok qso) :
    (Doc.toStored (qsoToMongoDoc oid qso))["_operator"]? = some (.str operator) := by
  rw [Doc.getElem?_toStored, getElem?_newDoc h, if_neg (by decide), if_pos rfl,
    (built_of_buildQsoDict hbuild).operator_eq]
  rw [Value.orElse]
  simp only [Value.truthy_str hoperator, if_true, Option.getD_some, Option.map_some, Value.toStored]

omit [QueryEngine] in
theorem OwnOrOld.insert {operator : String} {c c' c'' : Collection} {env : Env}
    {fields qsoDict : Doc} {profile : Option User} (h : OwnOrOld operator c c')
    (hoperator : operator ≠ "") (hbuild : buildQsoDict fields operator profile = .ok qsoDict)
    (hinsert : Inserts env qsoDict c' c'') : OwnOrOld operator c c'' := by
  obtain ⟨oid, qso, hqso, hc⟩ := hinsert
  intro d hd
  rw [(Collection.insert_eq_ok hc).1, List.mem_append, List.mem_singleton] at hd
  obtain hd | rfl := hd
  · exact h d hd
  · exact .inr (operator_newDoc hoperator hbuild hqso)

omit [QueryEngine] in
/-- The operator of the QSOs a request of a user submits. -/
theorem ApiRequest.operator_of_submits {user : User} {request : ApiRequest} {write : Request}
    (hwrite : request.write user = some write) {fields : Doc} {operator : String}
    {profile : Option User} {checked : Bool}
    (hsubmit : write.Submits fields operator profile checked) : operator = user.callsign := by
  cases request with
  | create body force | importAdif raw =>
    cases hwrite
    exact hsubmit.2.1
  | _ =>
    cases hwrite <;> exact absurd hsubmit id

omit [QueryEngine] in
/-- **What is added to a collection is the operator's.** -/
theorem ownOrOld_step {env : Env} {user : User} {request : ApiRequest} {write : Request}
    (hwrite : request.write user = some write) (hcallsign : user.callsign ≠ "") (c : Collection) :
    OwnOrOld user.callsign c (step c (env, write)) := by
  have hold : OwnOrOld user.callsign c c := fun d hd ↦ .inl ⟨d, hd, rfl⟩
  have hinsert : ∀ {c' c'' : Collection} {fields operator profile checked qsoDict},
      OwnOrOld user.callsign c c' → write.Submits fields operator profile checked →
      buildQsoDict fields operator profile = .ok qsoDict → Inserts env qsoDict c' c'' →
      OwnOrOld user.callsign c c'' := by
    intro c' c'' fields operator profile checked qsoDict h hsubmit hbuild hins
    obtain rfl := request.operator_of_submits hwrite hsubmit
    exact h.insert hcallsign hbuild hins
  obtain hone | ⟨hno, hmany⟩ := step_writes c env write
  · generalize step c (env, write) = c' at hone
    cases hone with
    | refl => exact hold
    | single h =>
      cases h with
      | insert hsubmit hbuild _ hins => exact hinsert hold hsubmit hbuild hins
      | update hmem hqso _ hupdate =>
        obtain rfl | ⟨old, new, hmem', hid, -, hnid, hdocs, -⟩ := Collection.update_eq_ok hupdate
        · exact hold
        intro d hd
        rw [hdocs] at hd
        obtain rfl | ⟨hd, -⟩ := Collection.mem_replaceById hd
        · exact .inl ⟨old, hmem', hid.trans hnid.symm⟩
        · exact .inl ⟨d, hd, rfl⟩
      | clear _ => exact fun d hd ↦ .inl ⟨d, (List.mem_filter.1 hd).1, rfl⟩
  · generalize step c (env, write) = c' at hmany
    induction hmany with
    | refl => exact hold
    | tail _ hlast ih =>
      cases hlast with
      | insert hsubmit hbuild _ hins => exact hinsert ih hsubmit hbuild hins
      | update _ _ hchange _ => exact absurd hchange (hno _ _)
      | clear _ => exact fun d hd ↦ ih d (List.mem_filter.1 hd).1

/-! ## Patches -/

/-- The fields that say whose a document is, and what it is. -/
def identityFields : List String := ["_id", "_operator", "_deleted", "_created_at"]

/-- Two documents that agree on these fields. -/
def SameIdentity (d e : Doc) : Prop := ∀ k ∈ identityFields, d[k]? = e[k]?

/-- The keys of a body lead neither into a field nor to an operator of the server. -/
def JsonDoc.Flat (body : JsonDoc) : Prop :=
  ∀ k ∈ body.fields, '.' ∉ k.toList ∧ k.toList.head? ≠ some '$'

/-- No body of the request leads anywhere. -/
def ApiRequest.Flat : ApiRequest → Prop
  | .create body _ => body.extra.Flat
  | .patch _ body => body.Flat
  | _ => True

omit [QueryEngine] in
theorem sameIdentity_of_patch {old new updates : Doc} {user : User} {qso : QSO} {qsoId : String}
    {body : JsonDoc} (hflat : body.Flat)
    (hchange : (Request.patch qsoId body user).Changes qso updates)
    (h : applySet (Doc.toStored (withRowHash qso updates)) old = .ok new) :
    SameIdentity new old := by
  have hkey : ∀ key ∈ Doc.toStored (withRowHash qso updates),
      rootOf key = key ∧ key ∉ identityFields := by
    intro key hmem
    have hfixed : ∀ k ∈ ["rowHash", "qso_date_utc"], rootOf k = k ∧ k ∉ identityFields := by decide
    have hprotected : ∀ k ∈ identityFields, k ∈ protectedFields := by decide
    obtain ⟨fields, -, -, hfields, hdate⟩ := patchUpdates_eq_ok hchange.2
    have hbody : key ∈ fields → rootOf key = key ∧ key ∉ identityFields := by
      intro hk
      obtain ⟨hin, hout⟩ := (hfields key).1 hk
      refine ⟨?_, fun hid ↦ hout (hprotected key hid)⟩
      rw [rootOf, pathOf_of_plain (hflat key hin).1, List.headD_cons]
    rw [Doc.mem_toStored, withRowHash, Std.ExtTreeMap.mem_insert, Std.compare_eq_iff_eq] at hmem
    obtain rfl | hmem := hmem
    · exact hfixed _ (by decide)
    obtain ⟨-, rfl⟩ | ⟨_, _, dt, -, -, -, rfl⟩ := recalculateDate_cases hdate
    · exact hbody hmem
    · rw [Std.ExtTreeMap.mem_insert, Std.compare_eq_iff_eq] at hmem
      obtain rfl | hmem := hmem
      · exact hfixed _ (by decide)
      · exact hbody hmem
  intro k hk
  refine getElem?_applySet_of_untouched h fun key hmem hroot ↦ ?_
  obtain ⟨hself, hno⟩ := hkey key hmem
  exact hno (hself ▸ hroot ▸ hk)

omit [QueryEngine] in
/-- **A patch keeps the documents and what they say about themselves.** -/
theorem forall₂_sameIdentity_patch {env : Env} {user : User} {qsoId : String} {body : JsonDoc}
    (hflat : body.Flat) (c : Collection) :
    List.Forall₂ SameIdentity (step c (env, .patch qsoId body user)).docs c.docs := by
  have hrefl : ∀ docs : List Doc, List.Forall₂ SameIdentity docs docs := fun docs ↦
    List.forall₂_same.2 fun _ _ _ _ ↦ rfl
  have hstep : ReflGen (Write env (.patch qsoId body user)) c
      (step c (env, .patch qsoId body user)) := by
    rw [step, handle, after_discard]
    exact patchQso_writes qsoId body user
  generalize step c (env, .patch qsoId body user) = c' at hstep
  cases hstep with
  | refl => exact hrefl _
  | single h =>
    cases h with
    | insert hsubmit _ _ _ => exact absurd hsubmit id
    | clear h => cases h
    | @update old qso updates _ hold hqso hchange hupdate =>
      obtain rfl | ⟨old', new, hold', hid', hnew, -, hdocs, -⟩ := Collection.update_eq_ok hupdate
      · exact hrefl _
      rw [hdocs, Collection.replaceById, List.forall₂_map_left_iff, List.forall₂_same]
      intro d hd
      split
      · rename_i hdid
        obtain rfl := Collection.eq_of_id_eq hold' hd (hid'.trans hdid.symm)
        exact sameIdentity_of_patch hflat hchange hnew
      · exact fun _ _ ↦ rfl

/-! ## Isolation -/

variable [Beanie]

/-- **Isolation.**  A request of an operator with a callsign changes no other collection, adds to
its own only documents of the operator, does not change by a patch what a document says about
itself, and answers from its own collection alone. -/
theorem isolated {env : Env} {account : Account} {request : ApiRequest} (db : Database)
    (hcallsign : account.user.callsign ≠ "") (hflat : request.Flat) :
    let served := Server.serve env account.user request
    (∀ coll ≠ account.coll, (after served db).collection coll = db.collection coll) ∧
    OwnOrOld account.user.callsign (db.collection account.coll)
      ((after served db).collection account.coll) ∧
    (∀ qsoId body, request = .patch qsoId body →
      List.Forall₂ SameIdentity ((after served db).docs account.coll) (db.docs account.coll)) ∧
    ∀ other : Database, other.collection account.coll = db.collection account.coll →
      result served other = result served db ∧
      (after served other).collection account.coll =
        (after served db).collection account.coll := by
  intro served
  have hruns : RunsOn account.collection served (handleApi env account.user request) :=
    runsOn_serve account.opens request
  have hview : (after served db).collection account.coll =
      after (handleApi env account.user request) (db.collection account.coll) := hruns.view_after db
  refine ⟨fun coll hcoll ↦ congrFun (hruns.rest_after db) ⟨coll, hcoll⟩, ?_, ?_,
    fun other hother ↦ hruns.result_eq hother⟩
  · rw [hview, after_handleApi]
    cases hwrite : request.write account.user with
    | none => exact fun d hd ↦ .inl ⟨d, hd, rfl⟩
    | some write => exact ownOrOld_step hwrite hcallsign _
  · rintro qsoId body rfl
    rw [Database.docs, Database.docs, hview, after_handleApi]
    exact forall₂_sameIdentity_patch hflat _

end

section

attribute [local instance] UnicodeData.ascii Sample.engine

/-- Beanie on the shared collection. -/
@[reducible] def Sample.beanie : Beanie where
  construct qsoDict := qsoFromInputDict Sample.env.now ⟨0⟩ qsoDict
  insert qso := do
    Database.on "qsos" (by decide) (insertOne (qsoToMongoDoc ⟨1⟩ qso))
    return qso
  findOne query := do
    let found ← Database.on "qsos" (by decide) (findOne query)
    ofExcept (qsoFromFound Sample.env.now found)
  count query := Database.on "qsos" (by decide) (countDocuments query)
  page query sort skip limit := do
    let docs ← Database.on "qsos" (by decide) (findPage query (mongoSort sort) skip limit)
    ofExcept (docs.mapM (qsoFromMongoDoc Sample.env.now))

attribute [local instance] Sample.beanie

/-- The account of a user. -/
def Sample.account : Account := ⟨Sample.user, "w1aw_qsos", by decide +kernel⟩

theorem isolated_of_patched_notes :
    let request := ApiRequest.patch Sample.firstId (Sample.oneText "NOTES" "5 W")
    let served := Server.serve Sample.env Sample.account.user request
    let db := Sample.database.put "w1aw_qsos" (by decide)
      (Sample.logWith "NOTES" "4 W" (by decide))
    (∀ coll ≠ "w1aw_qsos", (after served db).collection coll = db.collection coll) ∧
    OwnOrOld "W1AW" (db.collection "w1aw_qsos") ((after served db).collection "w1aw_qsos") ∧
    (∀ qsoId body, request = .patch qsoId body →
      List.Forall₂ SameIdentity ((after served db).docs "w1aw_qsos") (db.docs "w1aw_qsos")) ∧
    ∀ other : Database, other.collection "w1aw_qsos" = db.collection "w1aw_qsos" →
      result served other = result served db ∧
      (after served other).collection "w1aw_qsos" =
        (after served db).collection "w1aw_qsos" := by
  have hcallsign : Sample.account.user.callsign ≠ "" := by decide
  refine @isolated _ _ _ _ Sample.account _ _ hcallsign fun k hk ↦ ?_
  rw [Sample.eq_of_mem_oneText hk]
  decide

end

end Ollog
