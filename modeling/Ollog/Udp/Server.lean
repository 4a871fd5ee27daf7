import Ollog.Qso.Collections
import Ollog.Qso.Import

/-!
# The UDP listener

`_handle_datagram` takes the first record of a datagram, finds out whose it is, and has it ingested
into that user's log.  There are three sources for the user, consulted one after the other: the one
configured for the listener, the token of the record, and its `OPERATOR`.  Each replaces what the
one before has found, so an `OPERATOR` decides over a token; `token_decides_iff` says when that
makes a difference.

The caches that resolve a token and a callsign are the subject of the next modules.  Here they are
just functions.
-/

set_option autoImplicit false

namespace Ollog

open Effects Relation

/-! ## Ingesting a record -/

section

variable [UnicodeData]

/-- The log takes a record: it is valid, no duplicate is found, and the document `d` that is made of
it can be inserted. -/
def Admits (env : Env) (record : Record) (operator : String) (profile : Option User)
    (c : Collection) (d : Doc) : Prop :=
  (∀ k ∈ requiredFields, k ∈ record) ∧ ∃ qsoDict query qso c',
    buildQsoDict record.toDoc operator profile = .ok qsoDict ∧ Searches operator qsoDict query ∧
    (∀ e ∈ c.docs, query e = false) ∧ qsoFromInputDict env.now (env.fresh 0) qsoDict = .ok qso ∧
    c.insert (qsoToMongoDoc (env.fresh 0) qso) = .ok c' ∧
    d = Doc.toStored (qsoToMongoDoc (env.fresh 0) qso)

/-- What ingesting a record does to a log. -/
inductive Ingested (env : Env) (record : Record) (operator : String) (profile : Option User)
    (c : Collection) : Collection → Prop where
  | inserted {d : Doc} {c' : Collection} (hadmits : Admits env record operator profile c d)
      (hdocs : c'.docs = c.docs ++ [d]) : Ingested env record operator profile c c'
  | kept (hrefuses : ∀ d, ¬ Admits env record operator profile c d) :
      Ingested env record operator profile c c

/-- **Ingesting a record** adds the document the log takes, or nothing. -/
theorem ingested (env : Env) (record : Record) (operator : String) (profile : Option User)
    (source : String) (c : Collection) :
    Ingested env record operator profile c
      (after (ingestQsoRecord env record operator profile source : Db _) c) := by
  refine after_of_wp ?_
  rw [ingestQsoRecord]
  split
  · rename_i hmissing
    refine .kept fun d hadmits ↦ ?_
    rw [filter_requiredFields_eq_nil.2 hadmits.1] at hmissing
    cases hmissing
  rename_i hcomplete
  have hrequired := filter_requiredFields_eq_nil.1 hcomplete
  split
  · rename_i exc hbuild
    have hkept : Ingested env record operator profile c c := by
      refine .kept fun d hadmits ↦ ?_
      obtain ⟨-, qsoDict, _, _, _, hok, -⟩ := hadmits
      cases hbuild.symm.trans hok
    split <;> exact hkept
  rename_i qsoDict hbuild
  rw [wp_bind]
  by_cases hsearch : ∃ query, Searches operator qsoDict query
  swap
  · have hkept : Ingested env record operator profile c c := by
      refine .kept fun d hadmits ↦ ?_
      obtain ⟨-, qsoDict', query, _, _, hok, hs, -⟩ := hadmits
      obtain rfl := Except.ok.inj (hbuild.symm.trans hok)
      exact hsearch ⟨query, hs⟩
    have hframe : wp (findDuplicateOf env operator qsoDict : Db _) (fun _ c' ↦ c' = c)
        (fun _ c' ↦ c' = c) c := wp_findDuplicateOf (fun _ ↦ rfl) (fun _ ↦ rfl) fun _ ↦ rfl
    rw [wp] at hframe ⊢
    cases hdup : (findDuplicateOf env operator qsoDict : Db _) c with
    | ok dup c' => exact absurd (exists_searches_of_ok hdup) hsearch
    | error exc c' =>
      rw [hdup] at hframe
      exact hframe ▸ hkept
  obtain ⟨query, hsearch⟩ := hsearch
  rw [wp_findDuplicateOf_of_searches hsearch, wp_ofExcept]
  -- A document the query finds keeps the record out.
  have hfound : (∃ d ∈ c.docs, query d = true) → Ingested env record operator profile c c := by
    rintro ⟨e, he, hquery⟩
    refine .kept fun d hadmits ↦ ?_
    obtain ⟨-, qsoDict', query', _, _, hok, hs, hnone, -⟩ := hadmits
    obtain rfl := Except.ok.inj (hbuild.symm.trans hok)
    obtain rfl := hs.unique hsearch
    cases (hnone e he).symm.trans hquery
  cases hfind : c.docs.find? query with
  | some d =>
    have hkept := hfound ⟨d, List.mem_of_find?_eq_some hfind, List.find?_some hfind⟩
    refine ⟨fun dup hdup ↦ ?_, fun _ _ ↦ hkept⟩
    obtain ⟨qso, -, hsome⟩ := bind_eq_ok.1 hdup
    cases hsome
    exact hkept
  | none =>
    refine ⟨fun dup hdup ↦ ?_, fun _ h ↦ by cases h⟩
    cases hdup
    have hnone : ∀ e ∈ c.docs, query e = false := by simpa [List.find?_eq_none] using hfind
    have hkept : ∀ {qso exc}, qsoFromInputDict env.now (env.fresh 0) qsoDict = .ok qso →
        c.insert (qsoToMongoDoc (env.fresh 0) qso) = .error exc →
        Ingested env record operator profile c c := by
      intro qso exc hqso hinsert
      refine .kept fun d hadmits ↦ ?_
      obtain ⟨-, qsoDict', _, qso', c', hok, -, -, hqso', hinsert', -⟩ := hadmits
      obtain rfl := Except.ok.inj (hbuild.symm.trans hok)
      obtain rfl := Except.ok.inj (hqso.symm.trans hqso')
      cases hinsert.symm.trans hinsert'
    dsimp only
    simp only [insertQsoDict, wp_bind, wp_ofExcept, wp_tryCatch, wp_liftM, wp_insertOne, wp_pure]
    refine ⟨fun qso hqso ↦ ⟨fun c' hinsert ↦ ?_, fun exc hinsert ↦ ?_⟩, fun exc hexc ↦ ?_⟩
    · exact .inserted ⟨hrequired, qsoDict, query, qso, c', hbuild, hsearch, hnone, hqso, hinsert,
        rfl⟩ (Collection.insert_eq_ok hinsert).1
    · have h := hkept hqso hinsert
      split
      · simp only [wp_ite, wp_throw, wp_bind, wp_liftM, wp_findOne, wp_ofExcept, wp_pure]
        exact ⟨fun _ ↦ h, fun _ ↦ ⟨fun _ _ ↦ h, fun _ _ ↦ h⟩⟩
      · exact h
    · refine .kept fun d hadmits ↦ ?_
      obtain ⟨-, qsoDict', _, qso', _, hok, -, -, hqso', -⟩ := hadmits
      obtain rfl := Except.ok.inj (hbuild.symm.trans hok)
      cases hexc.symm.trans hqso'

/-- The operator of a document the log takes. -/
theorem Admits.operator {env : Env} {record : Record} {operator : String} {profile : Option User}
    {c : Collection} {d : Doc} (h : Admits env record operator profile c d)
    (hup : UpperNamed record) :
    d["_operator"]? = some (if operator = "" then .null else .str operator) := by
  obtain ⟨-, qsoDict, _, qso, _, hbuild, -, -, hqso, -, rfl⟩ := h
  have hbuilt := built_of_buildQsoDict hbuild
  have hnone : qsoDict["_operator"]? = none := by
    refine ((hbuilt.rest "_operator" (by decide)).resolve_right fun ⟨hname, _⟩ ↦ ?_).trans ?_
    · exact absurd hname (by decide)
    · rw [getElem?_toDoc, hup.getElem?_eq_none (by decide), Option.map_none]
  rw [Doc.getElem?_toStored, getElem?_newDoc hqso, if_neg (by decide), if_pos rfl,
    hbuilt.operator_eq, hnone]
  rw [Value.orElse]
  by_cases hoperator : operator = ""
  · subst hoperator
    rfl
  · simp only [Value.truthy_str hoperator, hoperator, if_true, if_false, Option.getD_some,
      Option.map_some, Value.toStored]

/-- A field that is in none of the records a document is made from is not in the document. -/
theorem Admits.notMem {env : Env} {record : Record} {operator : String} {profile : Option User}
    {c : Collection} {d : Doc} (h : Admits env record operator profile c d) {k : String}
    (hrecord : k ∉ record) (hk : k ∉ aliasNames) (hderived : k ∉ derivedNames)
    (hstamped : k ∉ stampedNames) : k ∉ d := by
  obtain ⟨-, qsoDict, _, qso, _, hbuild, -, -, hqso, -, rfl⟩ := h
  have hdict : k ∉ qsoDict := by
    obtain ⟨normal, hnormal, hbuild⟩ := bind_eq_ok.1 hbuild
    obtain ⟨banded, hbanded, hbuild⟩ := bind_eq_ok.1 hbuild
    obtain ⟨fields, hfields, hbuild⟩ := bind_eq_ok.1 hbuild
    obtain ⟨_, -, hbuild⟩ := bind_eq_ok.1 hbuild
    obtain ⟨_, -, hbuild⟩ := bind_eq_ok.1 hbuild
    obtain ⟨_, -, hbuild⟩ := bind_eq_ok.1 hbuild
    obtain rfl := Except.ok.inj hbuild
    have hbody : k ∉ fields := by
      rw [mem_upperField hfields, mem_upperField hbanded, mem_apply_iff hnormal, mem_toDoc]
      exact hrecord
    simp only [derivedNames, List.mem_cons, List.not_mem_nil, or_false, not_or] at hderived
    rw [Doc.mem_iff_ne_none, (retouched_stampProfile _ profile).getElem?_eq hstamped]
    simp only [Doc.getElem?_insert, hderived, if_false]
    rwa [← Doc.mem_iff_ne_none]
  rw [Doc.mem_toStored, Doc.mem_iff_ne_none, getElem?_newDoc_extra hqso hk, not_not]
  split
  · rfl
  · exact Std.ExtTreeMap.getElem?_eq_none hdict

/-! ## Handling a datagram -/

/-- What the two caches answer. -/
structure Resolvers where
  /-- `token_cache.resolve`. -/
  token : String → Option User
  /-- `operator_cache.resolve`. -/
  operator : String → Option User

/-- What becomes of a datagram. -/
inductive Disposition where
  | parseFailure
  | invalidToken
  | unknownOperator (callsign : String)
  | noUserResolved
  | handled (result : IngestResult)
  /-- The exception is logged, and the datagram is dropped. -/
  | failed (exc : PyErr)

/-- A record, and the user it is for, as far as that is known. -/
structure Attribution where
  record : Record
  operator : Option String
  user : Option User

/-- Consume `APP_OLLOG_TOKEN`. -/
def consumeToken (caches : Resolvers) (a : Attribution) : Except Disposition Attribution :=
  match a.record["APP_OLLOG_TOKEN"]? with
  | none => .ok a
  | some token =>
    match caches.token token with
    | none => .error .invalidToken
    | some user => .ok {
        record := a.record.erase "APP_OLLOG_TOKEN"
        operator := some user.callsign
        user := some user }

/-- Consume `OPERATOR`. -/
def consumeOperator (caches : Resolvers) (a : Attribution) : Except Disposition Attribution :=
  match a.record["OPERATOR"]? with
  | none => .ok a
  | some callsign =>
    match caches.operator callsign with
    | none => .error (.unknownOperator callsign)
    | some user => .ok {
        record := a.record.erase "OPERATOR"
        operator := some user.callsign
        user := some user }

/-- Ingest a record into the log of its user.  Whatever is raised is caught. -/
def ingestDatagram (env : Env) (record : Record) (operator : String) (user : User) :
    EStateM PyErr Database Disposition :=
  match hcoll : qsoCollectionName user.username with
  | .error exc => return .failed exc
  | .ok coll =>
    tryCatch (do return .handled (← Database.on coll (collectionNameOk_of_user hcoll)
        (ingestQsoRecord env record operator (some user) "udp")))
      fun exc ↦ return .failed exc

/-- `_handle_datagram`. -/
def handleDatagram (env : Env) (caches : Resolvers) (data : List UInt8) (operator : Option String)
    (user : Option User) : EStateM PyErr Database Disposition :=
  match parseAdi (decodeUtf8 data) with
  | (record :: _, []) =>
    match do consumeOperator caches (← consumeToken caches ⟨record, operator, user⟩) with
    | .error disposition => return disposition
    | .ok ⟨record, some operator, some user⟩ => ingestDatagram env record operator user
    | .ok _ => return .noUserResolved
  | _ => return .parseFailure

/-! ## Who a datagram is for -/

omit [UnicodeData] in
/-- The user a record with the token of `owner` is logged for. -/
def recipient (caches : Resolvers) (record : Record) (owner : User) : Option User :=
  match record["OPERATOR"]? with
  | none => some owner
  | some callsign => caches.operator callsign

omit [UnicodeData] in
/-- The record that is ingested. -/
def stripRouting (record : Record) : Record :=
  (record.erase "APP_OLLOG_TOKEN").erase "OPERATOR"

omit [UnicodeData] in
theorem getElem?_erase_record (record : Record) (k j : String) :
    (record.erase k)[j]? = if j = k then none else record[j]? := by
  rw [Std.ExtTreeMap.getElem?_erase]
  simp only [Std.compare_eq_iff_eq, @eq_comm _ k j]

omit [UnicodeData] in
/-- Consuming the token leaves the operator of the record. -/
theorem operator_erase_token (record : Record) :
    (record.erase "APP_OLLOG_TOKEN")["OPERATOR"]? = record["OPERATOR"]? := by
  rw [getElem?_erase_record, if_neg (by decide)]

/-- What is done with the first record of a datagram that parses. -/
theorem handleDatagram_of_token {env : Env} {caches : Resolvers} {data : List UInt8}
    {operator : Option String} {user : Option User} {record : Record} {token : String}
    (hfirst : (parseAdi (decodeUtf8 data)).1.head? = some record)
    (htoken : record["APP_OLLOG_TOKEN"]? = some token) :
    handleDatagram env caches data operator user =
      if (parseAdi (decodeUtf8 data)).2 = [] then
        match caches.token token with
        | none => return .invalidToken
        | some owner =>
          match recipient caches record owner with
          | none => return .unknownOperator (record["OPERATOR"]?.getD "")
          | some user => ingestDatagram env (stripRouting record) user.callsign user
      else return .parseFailure := by
  rw [handleDatagram]
  generalize parseAdi (decodeUtf8 data) = parsed at hfirst
  obtain ⟨records, errors⟩ := parsed
  obtain ⟨records, rfl⟩ := List.head?_eq_some_iff.1 hfirst
  cases errors with
  | cons e es => rfl
  | nil =>
    dsimp only
    rw [if_pos rfl]
    cases howner : caches.token token with
    | none => simp only [consumeToken, htoken, howner, bind, Except.bind]
    | some owner =>
      simp only [consumeToken, htoken, howner, bind, Except.bind, consumeOperator,
        operator_erase_token, recipient]
      cases hop : record["OPERATOR"]? with
      | none =>
        have hstrip : stripRouting record = record.erase "APP_OLLOG_TOKEN" := by
          refine Std.ExtTreeMap.ext_getElem? fun k ↦ ?_
          rw [stripRouting, getElem?_erase_record]
          split
          · rename_i hk
            rw [hk, operator_erase_token, hop]
          · rfl
        dsimp only
        rw [hstrip]
      | some callsign =>
        dsimp only
        cases caches.operator callsign <;> rfl

/-- The collections after an ingest. -/
theorem collection_ingestDatagram {env : Env} {record : Record} {operator : String} {user : User}
    {db : Database} {coll : String} :
    (qsoCollectionName user.username ≠ .ok coll →
      (after (ingestDatagram env record operator user) db).collection coll = db.collection coll) ∧
    (qsoCollectionName user.username = .ok coll →
      (after (ingestDatagram env record operator user) db).collection coll =
        after (ingestQsoRecord env record operator (some user) "udp" : Db _)
          (db.collection coll)) := by
  rw [ingestDatagram]
  split
  · rename_i exc hexc
    refine ⟨fun _ ↦ rfl, fun hcoll ↦ ?_⟩
    cases hexc.symm.trans hcoll
  · rename_i own hown
    rw [after_tryCatch_pure, after_bind_pure, Database.after_on]
    refine ⟨fun hne ↦ ?_, fun hcoll ↦ ?_⟩
    · refine Database.collection_put_of_ne ?_
      rintro rfl
      exact hne hown
    · obtain rfl := Except.ok.inj (hown.symm.trans hcoll)
      exact Database.collection_put

/-! ## The token decides -/

/-- At most one QSO has been added, to the log of the owner and with the owner's callsign. -/
structure LoggedFor (owner : Option User) (db db' : Database) : Prop where
  others : ∀ coll, (∀ user ∈ owner, qsoCollectionName user.username ≠ .ok coll) →
    db'.collection coll = db.collection coll
  own : ∀ user ∈ owner, ∀ coll, qsoCollectionName user.username = .ok coll →
    db'.docs coll = db.docs coll ∨ ∃ d, db'.docs coll = db.docs coll ++ [d] ∧
      d["_operator"]? = some (.str user.callsign)

/-- A datagram with a token is logged for the owner of the token, and of the token itself nothing
is stored: no new document has the field, and any other token of the same owner does the same. -/
structure DecidedByToken (env : Env) (caches : Resolvers) (data : List UInt8)
    (operator : Option String) (user : Option User) (record : Record) (token : String)
    (db : Database) : Prop where
  logged : LoggedFor (caches.token token) db
    (after (handleDatagram env caches data operator user) db)
  unnamed : ∀ coll, ∀ d ∈ (after (handleDatagram env caches data operator user) db).docs coll,
    d ∈ db.docs coll ∨ "APP_OLLOG_TOKEN" ∉ d
  independent : ∀ data' record' token', (parseAdi (decodeUtf8 data')).1.head? = some record' →
    ((parseAdi (decodeUtf8 data')).2 = [] ↔ (parseAdi (decodeUtf8 data)).2 = []) →
    record'["APP_OLLOG_TOKEN"]? = some token' →
    record'.erase "APP_OLLOG_TOKEN" = record.erase "APP_OLLOG_TOKEN" →
    caches.token token' = caches.token token →
    after (handleDatagram env caches data' operator user) db =
      after (handleDatagram env caches data operator user) db

/-- If the record is logged at all, it is logged for the owner of the token. -/
def KeepsToOwner (env : Env) (caches : Resolvers) (record : Record) (owner : User)
    (db : Database) : Prop :=
  ∀ user, recipient caches record owner = some user →
    ∀ coll, qsoCollectionName user.username = .ok coll →
    (∃ d, Admits env (stripRouting record) user.callsign (some user) (db.collection coll) d) →
      user.username = owner.username ∧ user.callsign = owner.callsign ∧ owner.callsign ≠ ""

omit [UnicodeData] in
theorem mem_stripRouting {record : Record} {k : String} :
    k ∈ stripRouting record ↔ k ≠ "APP_OLLOG_TOKEN" ∧ k ≠ "OPERATOR" ∧ k ∈ record := by
  simp only [stripRouting, Std.ExtTreeMap.mem_erase, ne_eq, Std.compare_eq_iff_eq,
    @eq_comm _ _ k]
  exact and_left_comm

omit [UnicodeData] in
theorem recipient_congr {caches : Resolvers} {record record' : Record} {owner : User}
    (h : record'.erase "APP_OLLOG_TOKEN" = record.erase "APP_OLLOG_TOKEN") :
    recipient caches record' owner = recipient caches record owner := by
  rw [recipient, recipient, ← operator_erase_token record', h, operator_erase_token]

/-- What a datagram with a token does to one collection: nothing, or it ingests the record for the
recipient. -/
theorem collection_handleDatagram {env : Env} {caches : Resolvers} {data : List UInt8}
    {operator : Option String} {user : Option User} {record : Record} {token : String}
    {db : Database} {coll : String} (hfirst : (parseAdi (decodeUtf8 data)).1.head? = some record)
    (htoken : record["APP_OLLOG_TOKEN"]? = some token) :
    (after (handleDatagram env caches data operator user) db).collection coll =
        db.collection coll ∧
      (∀ owner recipient', (parseAdi (decodeUtf8 data)).2 = [] → caches.token token = some owner →
        recipient caches record owner = some recipient' →
        qsoCollectionName recipient'.username = .ok coll → ∀ d, ¬ Admits env (stripRouting record)
          recipient'.callsign (some recipient') (db.collection coll) d) ∨
    ∃ owner recipient' d, (parseAdi (decodeUtf8 data)).2 = [] ∧ caches.token token = some owner ∧
      recipient caches record owner = some recipient' ∧
      qsoCollectionName recipient'.username = .ok coll ∧
      Admits env (stripRouting record) recipient'.callsign (some recipient') (db.collection coll)
        d ∧
      (after (handleDatagram env caches data operator user) db).docs coll = db.docs coll ++ [d] := by
  rw [Database.docs, Database.docs, handleDatagram_of_token hfirst htoken]
  by_cases herrors : (parseAdi (decodeUtf8 data)).2 = []
  swap
  · rw [if_neg herrors]
    exact .inl ⟨rfl, fun _ _ h ↦ absurd h herrors⟩
  rw [if_pos herrors]
  cases howner : caches.token token with
  | none => exact .inl ⟨rfl, fun _ _ _ h ↦ by cases h⟩
  | some owner =>
    dsimp only
    cases hrecipient : recipient caches record owner with
    | none =>
      refine .inl ⟨rfl, fun owner' _ _ h h' ↦ ?_⟩
      obtain rfl := Option.some.inj h
      cases hrecipient.symm.trans h'
    | some recipient' =>
      dsimp only
      by_cases hcoll : qsoCollectionName recipient'.username = .ok coll
      · rw [collection_ingestDatagram.2 hcoll]
        have h := ingested env (stripRouting record) recipient'.callsign (some recipient') "udp"
          (db.collection coll)
        generalize after (ingestQsoRecord env (stripRouting record) recipient'.callsign
          (some recipient') "udp" : Db _) (db.collection coll) = c' at h
        cases h with
        | inserted hadmits hdocs =>
          exact .inr ⟨owner, recipient', _, herrors, rfl, hrecipient, hcoll, hadmits, hdocs⟩
        | kept hrefuses =>
          refine .inl ⟨rfl, fun owner' user' _ h h' _ ↦ ?_⟩
          obtain rfl := Option.some.inj h
          obtain rfl := Option.some.inj (hrecipient.symm.trans h')
          exact hrefuses
      · rw [collection_ingestDatagram.1 hcoll]
        refine .inl ⟨rfl, fun owner' user' _ h h' hcoll' ↦ ?_⟩
        obtain rfl := Option.some.inj h
        obtain rfl := Option.some.inj (hrecipient.symm.trans h')
        exact absurd hcoll' hcoll

/-- **The token decides the owner of a datagram** exactly if the record, in case it is logged at
all, is logged for a user with the owner's name and callsign, and that callsign is not empty. -/
theorem token_decides_iff {env : Env} {caches : Resolvers} {data : List UInt8}
    {operator : Option String} {user : Option User} {record : Record} {token : String}
    {db : Database} (hfirst : (parseAdi (decodeUtf8 data)).1.head? = some record)
    (htoken : record["APP_OLLOG_TOKEN"]? = some token) :
    DecidedByToken env caches data operator user record token db ↔
      ((parseAdi (decodeUtf8 data)).2 = [] → ∀ owner, caches.token token = some owner →
        KeepsToOwner env caches record owner db) := by
  have hup : UpperNamed (stripRouting record) := fun k hk ↦
    upperNamed_of_mem_parseAdi (List.mem_of_head? hfirst) k (mem_stripRouting.1 hk).2.2
  have happend : ∀ (docs : List Doc) (d : Doc), docs ++ [d] ≠ docs := by
    intro docs d h
    have hlength := congrArg List.length h
    rw [List.length_append, List.length_singleton] at hlength
    omega
  have hcoll := fun coll ↦
    @collection_handleDatagram _ env caches data operator user record token db coll hfirst htoken
  constructor
  · rintro ⟨⟨hothers, hown⟩, -, -⟩ herrors owner howner recipient' hrecipient coll hname ⟨d, hd⟩
    obtain ⟨-, hno⟩ | ⟨owner', user', e, -, howner', hrecipient', hname', hadmits, hdocs⟩ :=
      hcoll coll
    · exact absurd hd (hno owner recipient' herrors howner hrecipient hname d)
    obtain rfl := Option.some.inj (howner.symm.trans howner')
    obtain rfl := Option.some.inj (hrecipient.symm.trans hrecipient')
    rw [howner] at hothers hown
    by_cases hsame : qsoCollectionName owner.username = .ok coll
    · obtain hkept | ⟨e', hdocs', hoperator⟩ := hown owner rfl coll hsame
      · exact absurd (hdocs.symm.trans hkept) (happend _ _)
      obtain rfl := List.singleton_inj.1 (List.append_cancel_left (hdocs.symm.trans hdocs'))
      rw [hadmits.operator hup] at hoperator
      split at hoperator
      · cases hoperator
      · rename_i hne
        obtain heq := Value.str.inj (Option.some.inj hoperator)
        exact ⟨qsoCollectionName_injective hname hsame, heq, heq ▸ hne⟩
    · have hkept := hothers coll fun user huser ↦ Option.mem_some.1 huser ▸ hsame
      exact absurd (hdocs.symm.trans (congrArg Collection.docs hkept)) (happend _ _)
  · intro hkeeps
    refine ⟨⟨fun coll hne ↦ ?_, fun owner howner coll hname ↦ ?_⟩, fun coll d hd ↦ ?_, ?_⟩
    · obtain ⟨hkept, -⟩ | ⟨owner, user', e, herrors, howner, hrecipient, hname, hadmits, -⟩ :=
        hcoll coll
      · exact hkept
      · obtain ⟨husername, -⟩ := hkeeps herrors owner howner user' hrecipient coll hname ⟨e, hadmits⟩
        exact absurd (husername ▸ hname) (hne owner howner)
    · obtain ⟨hkept, -⟩ | ⟨owner', user', e, herrors, howner', hrecipient, hname', hadmits, hdocs⟩ :=
        hcoll coll
      · exact .inl (congrArg Collection.docs hkept)
      · obtain rfl := Option.some.inj (howner'.symm.trans howner)
        obtain ⟨-, hcallsign, hne⟩ :=
          hkeeps herrors owner' howner' user' hrecipient coll hname' ⟨e, hadmits⟩
        refine .inr ⟨e, hdocs, ?_⟩
        rw [hadmits.operator hup, hcallsign, if_neg hne]
    · obtain ⟨hkept, -⟩ | ⟨owner, user', e, -, -, -, -, hadmits, hdocs⟩ := hcoll coll
      · rw [Database.docs, hkept] at hd
        exact .inl hd
      · rw [hdocs, List.mem_append, List.mem_singleton] at hd
        refine hd.imp_right ?_
        rintro rfl
        exact hadmits.notMem (fun h ↦ (mem_stripRouting.1 h).1 rfl) (by decide) (by decide)
          (by decide)
    · intro data' record' token' hfirst' herrors htoken' herase hresolve
      rw [handleDatagram_of_token hfirst' htoken', handleDatagram_of_token hfirst htoken, hresolve]
      simp only [herrors, recipient_congr herase, stripRouting, herase]
      rw [← operator_erase_token record', herase, operator_erase_token]

end

/-! ## Two datagrams -/

section

attribute [local instance] UnicodeData.ascii

/-- A second operator. -/
def Sample.other : User where
  username := "k1abc"
  callsign := "K1ABC"

/-- Caches with one token and one callsign. -/
def Sample.resolvers : Resolvers where
  token t := if t = "ollog_t" then some Sample.user else none
  operator callsign := if upper callsign = "K1ABC" then some Sample.other else none

/-- A datagram with a token. -/
@[irreducible] def Sample.withToken : List UInt8 := encodeUtf8
  ("<APP_OLLOG_TOKEN:7>ollog_t<CALL:5>N0AAA<BAND:3>20m<MODE:2>CW" ++
    "<QSO_DATE:8>20240101<TIME_ON:4>1200<EOR>").toList

/-- The same datagram with an operator. -/
@[irreducible] def Sample.withOperator : List UInt8 := encodeUtf8
  ("<APP_OLLOG_TOKEN:7>ollog_t<OPERATOR:5>K1ABC<CALL:5>N0AAA<BAND:3>20m<MODE:2>CW" ++
    "<QSO_DATE:8>20240101<TIME_ON:4>1200<EOR>").toList

theorem token_decides_of_token : ∃ record,
    (parseAdi (decodeUtf8 Sample.withToken)).1.head? = some record ∧
    record["APP_OLLOG_TOKEN"]? = some "ollog_t" ∧
    DecidedByToken Sample.env Sample.resolvers Sample.withToken none none record "ollog_t"
      Sample.database := by
  have hparse : (match (parseAdi (decodeUtf8 Sample.withToken)).1.head? with
      | some record => record["APP_OLLOG_TOKEN"]? == some "ollog_t" && record["OPERATOR"]?.isNone
      | none => false) = true := by decide +kernel
  cases hfirst : (parseAdi (decodeUtf8 Sample.withToken)).1.head? with
  | none =>
    rw [hfirst] at hparse
    cases hparse
  | some record =>
    rw [hfirst, Bool.and_eq_true, beq_iff_eq, Option.isNone_iff_eq_none] at hparse
    refine ⟨record, rfl, hparse.1, (token_decides_iff hfirst hparse.1).2 fun _ owner howner ↦ ?_⟩
    rintro user huser coll - -
    rw [recipient, hparse.2] at huser
    obtain rfl := Option.some.inj huser
    obtain rfl := Option.some.inj howner
    exact ⟨rfl, rfl, by decide⟩

/-- With an operator the token is checked, and then another user's log is written. -/
theorem token_overridden_by_operator : ∃ record,
    (parseAdi (decodeUtf8 Sample.withOperator)).1.head? = some record ∧
    record["APP_OLLOG_TOKEN"]? = some "ollog_t" ∧
    ¬ DecidedByToken Sample.env Sample.resolvers Sample.withOperator none none record "ollog_t"
      Sample.database := by
  have hparse : (match (parseAdi (decodeUtf8 Sample.withOperator)).1.head? with
      | some record => record["APP_OLLOG_TOKEN"]? == some "ollog_t"
      | none => false) = true := by decide +kernel
  have hwritten : ((after (handleDatagram Sample.env Sample.resolvers Sample.withOperator none none)
      Sample.database).docs "k1abc_qsos").length = 1 := by decide +kernel
  have howner : ∀ user ∈ Sample.resolvers.token "ollog_t",
      qsoCollectionName user.username ≠ .ok "k1abc_qsos" := by decide +kernel
  cases hfirst : (parseAdi (decodeUtf8 Sample.withOperator)).1.head? with
  | none =>
    rw [hfirst] at hparse
    cases hparse
  | some record =>
    rw [hfirst, beq_iff_eq] at hparse
    refine ⟨record, rfl, hparse, fun h ↦ ?_⟩
    rw [Database.docs, h.logged.others "k1abc_qsos" howner] at hwritten
    cases hwritten

end

end Ollog
