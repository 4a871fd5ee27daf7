import Mathlib.Logic.Relation
import Ollog.Bson.Upsert
import Ollog.Qso.Collections
import Ollog.Qso.CustomFields

/-!
# Copying the shared QSOs to their users

Before every user had a collection, all QSOs were in one, `qsos`.  At each start of the application
they are copied to the collections of the users their `_operator` names, and `qsos` is left as it
is.

`MigrationWrite` is one write of the migration: the indexes of a user's collection are created, or
a document is inserted into it, and never the second before the first (`migrate_writes`).  That the
migration can be repeated is a matter of the loop: a document that was copied is found by its `_id`
the next time, and one that the unique index kept out is kept out again (`migrate_again`).
-/

set_option autoImplicit false

namespace Ollog

open Effects Relation

/-! ## The migration -/

/-- `LEGACY_QSO_COLLECTION`. -/
def legacyQsoCollection : String := "qsos"

theorem collectionNameOk_legacy : collectionNameOk legacyQsoCollection = true := by decide

/-- `_doc_ref`, with what is added to it. -/
structure DocRef where
  id : String
  operator : Value
  reason : String
  usernames : List String := []
  error : Option String := none

/-- The report of the migration. -/
structure MigrationReport where
  dryRun : Bool
  scanned : Nat := 0
  wouldMigrate : Nat := 0
  migrated : Nat := 0
  alreadyPresent : Nat := 0
  unresolved : List DocRef := []
  ambiguous : List DocRef := []
  conflicts : List DocRef := []
  failed : List DocRef := []
  collectionsInitialized : List String := []
  collectionsWouldInitialize : List String := []

/-- The documents the report gives account of. -/
def MigrationReport.settled (report : MigrationReport) : Nat :=
  report.migrated + report.alreadyPresent + report.unresolved.length + report.ambiguous.length +
    report.conflicts.length + report.failed.length

/-- What the loop keeps: the report and `initialized_usernames`. -/
structure MigrationState where
  report : MigrationReport
  initialized : List String := []

section

variable [UnicodeData]

/-- `_normalize_callsign`. -/
def normalizeCallsign : Value → String
  | .str callsign => upper (strip callsign)
  | _ => ""

/-- `_user_callsign_map(users).get(operator_key, [])`. -/
def usersByCallsign (users : List User) (operatorKey : String) : List User :=
  if operatorKey = "" then []
  else users.filter fun user ↦ normalizeCallsign (.str user.callsign) = operatorKey

/-- `_normalize_callsign(doc.get("_operator"))`. -/
def operatorKey (doc : Doc) : String := normalizeCallsign (Doc.get doc "_operator" .null)

/-- `_doc_ref`. -/
def docRef (doc : Doc) (reason : String) : DocRef where
  id := (Doc.get doc "_id" .null).pyStr
  operator := Doc.get doc "_operator" .null
  reason := reason

/-- Create the indexes of a user's collection, once in a run. -/
def initializeCollection (dryRun : Bool) (s : MigrationState) (username : String)
    (coll : UserCollection) : EStateM PyErr Database MigrationState :=
  if username ∈ s.initialized then return s
  else if dryRun then return {
    report := { s.report with
      collectionsWouldInitialize := s.report.collectionsWouldInitialize ++ [coll.1] }
    initialized := s.initialized ++ [username] }
  else do
    Database.on coll.1 coll.2 createIndexes
    return {
      report := { s.report with
        collectionsInitialized := s.report.collectionsInitialized ++ [coll.1] }
      initialized := s.initialized ++ [username] }

/-- The report after the attempt to copy a document. -/
def reportCopy (report : MigrationReport) (doc : Doc) : Except PyErr Bool → MigrationReport
  | .ok true => { report with migrated := report.migrated + 1 }
  | .ok false => { report with alreadyPresent := report.alreadyPresent + 1 }
  | .error exc => match exc with
    | .duplicateKey _ => { report with
        conflicts := report.conflicts ++ [{ docRef doc "duplicate_key" with error := exc.str }] }
    | _ => { report with
        failed := report.failed ++ [{ docRef doc "write_failed" with error := exc.str }] }

/-- Copy a document to the collection of its user. -/
def copyDocument (dryRun : Bool) (s : MigrationState) (coll : UserCollection) (doc : Doc) :
    EStateM PyErr Database MigrationState :=
  if dryRun then
    return { s with report := { s.report with wouldMigrate := s.report.wouldMigrate + 1 } }
  else do
    let result ← attempt (Database.on coll.1 coll.2
      (setOnInsert (Doc.get doc "_id" .null) (doc.erase "_id")))
    return { s with report := reportCopy s.report doc result }

/-- One round of the loop of `migrate_shared_qsos_to_user_collections`. -/
def migrateDoc (users : List User) (dryRun : Bool) (s : MigrationState) (doc : Doc) :
    EStateM PyErr Database MigrationState :=
  let report := { s.report with scanned := s.report.scanned + 1 }
  if operatorKey doc = "" then return { s with report := { report with
    unresolved := report.unresolved ++ [docRef doc "missing_operator"] } }
  else match usersByCallsign users (operatorKey doc) with
  | [] => return { s with report := { report with
      unresolved := report.unresolved ++ [docRef doc "unknown_operator"] } }
  | [user] => do
    let coll ← ofExcept (getUserQsoCollection user.username)
    let s ← initializeCollection dryRun { s with report := report } user.username coll
    copyDocument dryRun s coll doc
  | user :: others => return { s with report := { report with
      ambiguous := report.ambiguous ++ [{ docRef doc "ambiguous_operator" with
        usernames := (user :: others).map (·.username) }] } }

/-- `migrate_shared_qsos_to_user_collections`. -/
def migrateSharedQsosToUserCollections (users : List User) (dryRun : Bool) :
    EStateM PyErr Database MigrationReport := do
  let docs := (← get).docs legacyQsoCollection
  let s ← docs.foldlM (migrateDoc users dryRun) { report := { dryRun := dryRun } }
  return s.report

end

/-! ## Where a document belongs -/

/-- No user's collection is the shared one. -/
theorem ne_legacy {username : String} {coll : UserCollection}
    (h : getUserQsoCollection username = .ok coll) : coll.1 ≠ legacyQsoCollection := by
  intro heq
  obtain ⟨hcoll, -⟩ := qsoCollectionName_eq_ok (getUserQsoCollection_eq_ok.1 h)
  have hne : username ≠ "" := by
    rintro rfl
    cases getUserQsoCollection_eq_ok.1 h
  have hlength := congrArg String.length (hcoll.symm.trans heq)
  rw [String.length_append] at hlength
  have hzero : username.length = 0 := by
    have h5 : "_qsos".length = 5 := rfl
    have h4 : legacyQsoCollection.length = 4 := rfl
    omega
  exact hne (String.length_eq_zero_iff.1 hzero)

section

variable [UnicodeData]

/-- **Where a document belongs**: its normalised `_operator` is the callsign of exactly one user,
and this is the collection of that user. -/
def BelongsTo (users : List User) (doc : Doc) (coll : UserCollection) : Prop :=
  ∃ user, usersByCallsign users (operatorKey doc) = [user] ∧
    getUserQsoCollection user.username = .ok coll

theorem BelongsTo.ne_legacy {users : List User} {doc : Doc} {coll : UserCollection}
    (h : BelongsTo users doc coll) : coll.1 ≠ legacyQsoCollection :=
  let ⟨_, _, hcoll⟩ := h
  Ollog.ne_legacy hcoll

/-! ## The rounds of the loop -/

variable {users : List User} {s : MigrationState} {doc : Doc} {db : Database}
  {coll : UserCollection} {username : String} {Q : MigrationState → Database → Prop}
  {E : PyErr → Database → Prop}

omit [UnicodeData] in
theorem wp_initializeCollection (hinit : username ∈ s.initialized → Q s db)
    (hindex : username ∉ s.initialized → ∀ c, (db.collection coll.1).createIndexes = .ok c →
      ∀ s', s'.report.settled = s.report.settled → s'.report.scanned = s.report.scanned →
      s'.report.migrated = s.report.migrated → s'.initialized = s.initialized ++ [username] →
      Q s' (db.put coll.1 coll.2 c))
    (hE : username ∉ s.initialized → ∀ exc, (db.collection coll.1).createIndexes = .error exc →
      E exc (db.put coll.1 coll.2 (db.collection coll.1))) :
    wp (initializeCollection false s username coll) Q E db := by
  rw [initializeCollection]
  simp only [wp_ite, wp_pure, wp_bind, Database.wp_on, wp_createIndexes, Bool.false_eq_true,
    false_imp_iff, not_false_eq_true, true_imp_iff, true_and]
  exact ⟨hinit, fun hnot ↦ ⟨fun c hc ↦ hindex hnot c hc _ rfl rfl rfl rfl, hE hnot⟩⟩

/-- What the report says of one more document. -/
structure Accounts (s s' : MigrationState) (migrated : Nat) : Prop where
  settled : s'.report.settled = s.report.settled + 1
  migrated : s'.report.migrated = s.report.migrated + migrated

omit [UnicodeData] in
theorem settled_of_unresolved {report : MigrationReport} {ref : DocRef} :
    { report with unresolved := report.unresolved ++ [ref] }.settled = report.settled + 1 := by
  simp only [MigrationReport.settled, List.length_append, List.length_singleton]
  omega

omit [UnicodeData] in
theorem settled_of_ambiguous {report : MigrationReport} {ref : DocRef} :
    { report with ambiguous := report.ambiguous ++ [ref] }.settled = report.settled + 1 := by
  simp only [MigrationReport.settled, List.length_append, List.length_singleton]
  omega

theorem settled_reportCopy {report : MigrationReport} {result : Except PyErr Bool} :
    (reportCopy report doc result).settled = report.settled + 1 := by
  unfold reportCopy
  split
  · dsimp only [MigrationReport.settled]
    omega
  · dsimp only [MigrationReport.settled]
    omega
  · split <;> simp only [MigrationReport.settled, List.length_append, List.length_singleton] <;>
      omega

/-- The id a document is looked for by, and the fields it is made of otherwise. -/
def copyTo (c : Collection) (doc : Doc) : Except PyErr (Collection × Bool) :=
  c.upsert (Doc.get doc "_id" .null) (doc.erase "_id")

theorem wp_copyDocument
    (hinserted : ∀ c, copyTo (db.collection coll.1) doc = .ok (c, true) → ∀ s', Accounts s s' 1 →
      s'.report.scanned = s.report.scanned → s'.initialized = s.initialized →
      Q s' (db.put coll.1 coll.2 c))
    (hkept : (∀ c, copyTo (db.collection coll.1) doc ≠ .ok (c, true)) → ∀ s', Accounts s s' 0 →
      s'.report.scanned = s.report.scanned → s'.initialized = s.initialized →
      Q s' (db.put coll.1 coll.2 (db.collection coll.1))) :
    wp (copyDocument false s coll doc) Q E db := by
  simp only [copyDocument, wp_ite, wp_bind, wp_attempt, Database.wp_on, wp_setOnInsert, wp_pure,
    Bool.false_eq_true, false_imp_iff, not_false_eq_true, true_imp_iff, true_and]
  refine ⟨fun c inserted hupsert ↦ ?_, fun exc hupsert ↦ ?_⟩
  · cases inserted with
    | true => exact hinserted c hupsert _ ⟨settled_reportCopy, rfl⟩ rfl rfl
    | false =>
      obtain ⟨-, rfl, -⟩ | ⟨hno, -⟩ := Collection.upsert_cases hupsert
      · exact hkept (fun c hc ↦ by cases hupsert.symm.trans hc) _ ⟨settled_reportCopy, rfl⟩ rfl rfl
      · cases hno
  · refine hkept (fun c hc ↦ by cases hupsert.symm.trans hc) _ ⟨settled_reportCopy, ?_⟩ ?_ rfl
    · dsimp only [reportCopy]
      split <;> rfl
    · dsimp only [reportCopy]
      split <;> rfl

omit [UnicodeData] in
/-- The collection a document is copied to once its user's indexes are there, and the users whose
indexes are there from then on. -/
inductive Prepared (s : MigrationState) (db : Database) (username : String)
    (coll : UserCollection) : Collection → List String → Prop where
  | already (h : username ∈ s.initialized) :
      Prepared s db username coll (db.collection coll.1) s.initialized
  | created {c : Collection} (h : username ∉ s.initialized)
      (hindex : (db.collection coll.1).createIndexes = .ok c) :
      Prepared s db username coll c (s.initialized ++ [username])

theorem wp_initialize_copy
    (hindex : username ∉ s.initialized → ∀ exc, (db.collection coll.1).createIndexes = .error exc →
      E exc (db.put coll.1 coll.2 (db.collection coll.1)))
    (hcopy : ∀ c initialized, Prepared s db username coll c initialized →
      ∀ s', s'.report.scanned = s.report.scanned → s'.initialized = initialized →
        (∀ c', copyTo c doc = .ok (c', true) → Accounts s s' 1 → Q s' (db.put coll.1 coll.2 c')) ∧
        ((∀ c', copyTo c doc ≠ .ok (c', true)) → Accounts s s' 0 →
          Q s' (db.put coll.1 coll.2 c))) :
    wp (do copyDocument false (← initializeCollection false s username coll) coll doc) Q E db := by
  rw [wp_bind]
  refine wp_initializeCollection (fun hinit ↦ ?_)
    (fun hnot c hc s₁ hsettled hscanned hmigrated hinitialized ↦ ?_) hindex
  · refine wp_copyDocument (fun c' hc' s' haccounts hscanned hinitialized ↦ ?_)
      fun hno s' haccounts hscanned hinitialized ↦ ?_
    · exact (hcopy _ _ (.already hinit) s' hscanned hinitialized).1 c' hc' haccounts
    · exact (hcopy _ _ (.already hinit) s' hscanned hinitialized).2 hno haccounts
  · have haccounts : ∀ {s' n}, Accounts s₁ s' n → Accounts s s' n := fun h ↦
      ⟨by rw [h.settled, hsettled], by rw [h.migrated, hmigrated]⟩
    refine wp_copyDocument (fun c' hc' s' h hscanned' hinitialized' ↦ ?_)
      fun hno s' h hscanned' hinitialized' ↦ ?_
    · rw [Database.collection_put] at hc'
      rw [Database.put_put]
      exact (hcopy _ _ (.created hnot hc) s' (hscanned'.trans hscanned)
        (hinitialized'.trans hinitialized)).1 c' hc' (haccounts h)
    · rw [Database.collection_put] at hno ⊢
      rw [Database.put_put]
      exact (hcopy _ _ (.created hnot hc) s' (hscanned'.trans hscanned)
        (hinitialized'.trans hinitialized)).2 hno (haccounts h)

/-- **One round of the loop.**  A document that has no user is passed over.  For one that has, the
indexes are there or are created, and then it is copied. -/
theorem wp_migrateDoc
    (hskip : (∀ user, usersByCallsign users (operatorKey doc) ≠ [user]) → ∀ s', Accounts s s' 0 →
      s'.report.scanned = s.report.scanned + 1 → s'.initialized = s.initialized → Q s' db)
    (hname : ∀ user exc, usersByCallsign users (operatorKey doc) = [user] →
      getUserQsoCollection user.username = .error exc → E exc db)
    (hindex : ∀ user coll exc, usersByCallsign users (operatorKey doc) = [user] →
      getUserQsoCollection user.username = .ok coll → user.username ∉ s.initialized →
      (db.collection coll.1).createIndexes = .error exc →
      E exc (db.put coll.1 coll.2 (db.collection coll.1)))
    (hcopy : ∀ user coll, usersByCallsign users (operatorKey doc) = [user] →
      getUserQsoCollection user.username = .ok coll →
      ∀ c initialized, Prepared s db user.username coll c initialized →
      ∀ s', s'.report.scanned = s.report.scanned + 1 → s'.initialized = initialized →
        (∀ c', copyTo c doc = .ok (c', true) → Accounts s s' 1 → Q s' (db.put coll.1 coll.2 c')) ∧
        ((∀ c', copyTo c doc ≠ .ok (c', true)) → Accounts s s' 0 →
          Q s' (db.put coll.1 coll.2 c))) :
    wp (migrateDoc users false s doc) Q E db := by
  rw [migrateDoc]
  dsimp only
  split
  · rename_i hempty
    refine hskip (fun user huser ↦ ?_) _ ⟨settled_of_unresolved, rfl⟩ rfl rfl
    rw [usersByCallsign, if_pos hempty] at huser
    cases huser
  split
  · rename_i hnone
    exact hskip (fun user huser ↦ nomatch hnone.symm.trans huser) _ ⟨settled_of_unresolved, rfl⟩
      rfl rfl
  · rename_i user huser
    rw [wp_bind, wp_ofExcept]
    refine ⟨fun coll hcoll ↦ ?_, fun exc ↦ hname user exc huser⟩
    refine wp_initialize_copy (fun hnot exc ↦ hindex user coll exc huser hcoll hnot) ?_
    intro c initialized hprepared s' hscanned hinitialized
    have hprepared' : Prepared s db user.username coll c initialized := by
      cases hprepared with
      | already h => exact .already h
      | created h hc => exact .created h hc
    obtain ⟨hinserted, hkept⟩ := hcopy user coll huser hcoll c initialized hprepared' s' hscanned
      hinitialized
    exact ⟨fun c' hc' h ↦ hinserted c' hc' ⟨h.settled, h.migrated⟩,
      fun hno h ↦ hkept hno ⟨h.settled, h.migrated⟩⟩
  · rename_i user others hothers huser
    refine hskip (fun user' huser' ↦ ?_) _ ⟨settled_of_ambiguous, rfl⟩ rfl rfl
    cases huser.symm.trans huser'
    exact hothers rfl

/-! ## What the migration writes -/

/-- One write of the migration. -/
inductive MigrationWrite (users : List User) (docs : List Doc) (db : Database) :
    Database → Prop where
  | index {doc : Doc} {coll : UserCollection} {c : Collection} (hdoc : doc ∈ docs)
      (hbelongs : BelongsTo users doc coll)
      (hindex : (db.collection coll.1).createIndexes = .ok c) :
      MigrationWrite users docs db (db.put coll.1 coll.2 c)
  | insert {doc : Doc} {coll : UserCollection} {c : Collection} (hdoc : doc ∈ docs)
      (hbelongs : BelongsTo users doc coll)
      (hunique : (db.collection coll.1).rowHashUnique = true)
      (hcopy : copyTo (db.collection coll.1) doc = .ok (c, true)) :
      MigrationWrite users docs db (db.put coll.1 coll.2 c)

omit [UnicodeData] in
/-- The collections of the users that are counted as initialised are there, with their index. -/
def Initialized (initialized : List String) (db : Database) : Prop :=
  ∀ username ∈ initialized, ∀ coll, getUserQsoCollection username = .ok coll →
    coll.1 ∈ db.collectionNames ∧ (db.collection coll.1).rowHashUnique = true

omit [UnicodeData] in
/-- A collection is put back, or put where there was none, with its index. -/
theorem Initialized.put {initialized : List String} {c : Collection} (h : Initialized initialized db)
    (hunique : c.rowHashUnique = true) : Initialized initialized (db.put coll.1 coll.2 c) := by
  intro username husername coll' hcoll'
  obtain ⟨hmem, hunique'⟩ := h username husername coll' hcoll'
  refine ⟨Database.mem_collectionNames_put.2 (.inr hmem), ?_⟩
  by_cases hcoll : coll'.1 = coll.1
  · rw [hcoll, Database.collection_put, hunique]
  · rw [Database.collection_put_of_ne hcoll, hunique']

omit [UnicodeData] in
theorem Initialized.prepared {c : Collection} {initialized : List String}
    (h : Initialized s.initialized db) (hcoll : getUserQsoCollection username = .ok coll)
    (hprepared : Prepared s db username coll c initialized) :
    c.rowHashUnique = true ∧ Initialized initialized (db.put coll.1 coll.2 c) := by
  cases hprepared with
  | already hinit =>
    have hunique := (h username hinit coll hcoll).2
    exact ⟨hunique, h.put hunique⟩
  | created hnot hindex =>
    have hunique := (Collection.createIndexes_eq_ok hindex).2.1
    refine ⟨hunique, fun other hother coll' hcoll' ↦ ?_⟩
    obtain hother | hother := List.mem_append.1 hother
    · exact h.put hunique other hother coll' hcoll'
    · rw [List.mem_singleton.1 hother] at hcoll'
      obtain rfl : coll = coll' := Except.ok.inj (hcoll.symm.trans hcoll')
      exact ⟨Database.mem_collectionNames_put.2 (.inl rfl), by rw [Database.collection_put, hunique]⟩

omit [UnicodeData] in
/-- An index that cannot be created has documents in its way, so the collection is there. -/
theorem mem_of_createIndexes_error {exc : PyErr}
    (h : (db.collection coll.1).createIndexes = .error exc) : coll.1 ∈ db.collectionNames := by
  by_contra hnot
  refine Collection.not_pairwise_of_createIndexes_error h ?_
  have hdocs : (db.collection coll.1).docs = [] := Database.docs_of_notMem hnot
  rw [hdocs]
  exact .nil

/-- A round makes at most the two writes. -/
theorem migrateDoc_writes {docs : List Doc} {db₀ : Database} (hdoc : doc ∈ docs)
    (hwrites : ReflTransGen (MigrationWrite users docs) db₀ db)
    (hinit : Initialized s.initialized db) :
    wp (migrateDoc users false s doc)
      (fun s' db' ↦ ReflTransGen (MigrationWrite users docs) db₀ db' ∧
        Initialized s'.initialized db')
      (fun _ ↦ ReflTransGen (MigrationWrite users docs) db₀) db := by
  refine wp_migrateDoc (fun _ s' _ _ hinitialized ↦ ⟨hwrites, hinitialized ▸ hinit⟩)
    (fun _ _ _ _ ↦ hwrites) (fun user coll exc huser hcoll _ hindex ↦ ?_)
    fun user coll huser hcoll c initialized hprepared s' _ hinitialized ↦ ?_
  · rw [Database.put_collection (mem_of_createIndexes_error hindex)]
    exact hwrites
  · have hbelongs : BelongsTo users doc coll := ⟨user, huser, hcoll⟩
    obtain ⟨hunique, hinit'⟩ := hinit.prepared hcoll hprepared
    have hput : ReflTransGen (MigrationWrite users docs) db₀ (db.put coll.1 coll.2 c) := by
      cases hprepared with
      | already hmem =>
        rw [Database.put_collection (hinit _ hmem coll hcoll).1]
        exact hwrites
      | created _ hindex => exact hwrites.tail (.index hdoc hbelongs hindex)
    rw [hinitialized]
    refine ⟨fun c' hc' _ ↦ ?_, fun _ _ ↦ ⟨hput, hinit'⟩⟩
    have hwrite := @MigrationWrite.insert _ _ _ (db.put coll.1 coll.2 c) _ _ _ hdoc hbelongs
      (by rw [Database.collection_put, hunique]) (by rw [Database.collection_put, hc'])
    have hunique' : c'.rowHashUnique = true := by
      rw [(Collection.extends_of_upsert hc').rowHashUnique, hunique]
    have hinit'' := @Initialized.put _ coll _ _ hinit' hunique'
    rw [Database.put_put] at hwrite hinit''
    exact ⟨hput.tail hwrite, hinit''⟩

/-- **What the migration does to the database**: it creates indexes, and copies documents of the
shared collection to the users they belong to, where the indexes are. -/
theorem migrate_writes (users : List User) (db : Database) :
    ReflTransGen (MigrationWrite users (db.docs legacyQsoCollection)) db
      (after (migrateSharedQsosToUserCollections users false) db) := by
  refine after_of_wp ?_
  simp only [migrateSharedQsosToUserCollections, wp_bind, wp_get]
  refine wp_mono (wp_foldlM (fun s db' ↦
    ReflTransGen (MigrationWrite users (db.docs legacyQsoCollection)) db db' ∧
      Initialized s.initialized db') (fun s doc hdoc db' h ↦ migrateDoc_writes hdoc h.1 h.2)
    ⟨.refl, fun _ h ↦ absurd h List.not_mem_nil⟩) (fun _ _ h ↦ h.1) fun _ _ h ↦ h

/-! ## What the writes keep -/

omit [UnicodeData] in
/-- A document as the migration makes it of one it copies. -/
def Copies (doc d : Doc) : Prop :=
  ∃ doc', Collection.upsertDoc (Doc.get doc "_id" .null) (doc.erase "_id") = .ok doc' ∧
    d = Doc.toStored doc'

variable {docs : List Doc} {db' : Database}

/-- The shared collection is left as it is. -/
theorem MigrationWrite.legacy_eq (h : MigrationWrite users docs db db') :
    db'.collection legacyQsoCollection = db.collection legacyQsoCollection := by
  cases h with
  | index _ hbelongs _ => exact Database.collection_put_of_ne hbelongs.ne_legacy.symm
  | insert _ hbelongs _ _ => exact Database.collection_put_of_ne hbelongs.ne_legacy.symm

/-- **A write adds documents at the end of a collection**, and they are copies of documents that
belong there. -/
theorem MigrationWrite.docs_eq (h : MigrationWrite users docs db db') (coll : String) :
    ∃ added, db'.docs coll = db.docs coll ++ added ∧ ∀ d ∈ added, ∃ doc ∈ docs,
      ∃ own : UserCollection, own.1 = coll ∧ BelongsTo users doc own ∧ Copies doc d := by
  cases h with
  | @index doc own c hdoc hbelongs hindex =>
    refine ⟨[], ?_, fun _ h ↦ absurd h List.not_mem_nil⟩
    rw [List.append_nil, Database.docs, Database.docs]
    by_cases hcoll : coll = own.1
    · rw [hcoll, Database.collection_put, (Collection.createIndexes_eq_ok hindex).1]
    · rw [Database.collection_put_of_ne hcoll]
  | @insert doc own c hdoc hbelongs hunique hcopy =>
    rw [Database.docs, Database.docs]
    by_cases hcoll : coll = own.1
    · obtain ⟨hno, -⟩ | ⟨-, -, doc', hdoc', hinsert⟩ := Collection.upsert_cases hcopy
      · cases hno
      refine ⟨[Doc.toStored doc'], ?_, fun d hd ↦ ?_⟩
      · rw [hcoll, Database.collection_put, (Collection.insert_eq_ok hinsert).1]
      · rw [List.mem_singleton.1 hd]
        exact ⟨doc, hdoc, own, hcoll.symm, hbelongs, doc', hdoc', rfl⟩
    · refine ⟨[], ?_, fun _ h ↦ absurd h List.not_mem_nil⟩
      rw [List.append_nil, Database.collection_put_of_ne hcoll]

theorem legacy_eq_of_writes (h : ReflTransGen (MigrationWrite users docs) db db') :
    db'.collection legacyQsoCollection = db.collection legacyQsoCollection := by
  induction h with
  | refl => rfl
  | tail _ hlast ih => rw [hlast.legacy_eq, ih]

theorem docs_eq_of_writes (h : ReflTransGen (MigrationWrite users docs) db db') (coll : String) :
    ∃ added, db'.docs coll = db.docs coll ++ added ∧ ∀ d ∈ added, ∃ doc ∈ docs,
      ∃ own : UserCollection, own.1 = coll ∧ BelongsTo users doc own ∧ Copies doc d := by
  induction h with
  | refl => exact ⟨[], (List.append_nil _).symm, fun _ h ↦ absurd h List.not_mem_nil⟩
  | tail _ hlast ih =>
    obtain ⟨added, hadded, hfrom⟩ := ih
    obtain ⟨more, hmore, hfrom'⟩ := hlast.docs_eq coll
    refine ⟨added ++ more, by rw [hmore, hadded, List.append_assoc], fun d hd ↦ ?_⟩
    exact (List.mem_append.1 hd).elim (hfrom d) (hfrom' d)

/-! ## Repeating the migration -/

omit [UnicodeData] in
/-- `db'` is `db` with more documents, collections and indexes. -/
structure Grows (db db' : Database) : Prop where
  names : ∀ coll ∈ db.collectionNames, coll ∈ db'.collectionNames
  docs : ∀ coll, db.docs coll <+: db'.docs coll
  unique : ∀ coll, (db.collection coll).rowHashUnique = true →
    (db'.collection coll).rowHashUnique = true

theorem MigrationWrite.grows (h : MigrationWrite users docs db db') : Grows db db' := by
  have hput : ∀ {coll : UserCollection} {c : Collection},
      ((db.collection coll.1).rowHashUnique = true → c.rowHashUnique = true) →
      db' = db.put coll.1 coll.2 c → Grows db db' := by
    rintro coll c hunique rfl
    refine ⟨fun k hk ↦ Database.mem_collectionNames_put.2 (.inr hk), fun k ↦ ?_, fun k hk ↦ ?_⟩
    · obtain ⟨added, hadded, -⟩ := h.docs_eq k
      exact hadded ▸ List.prefix_append _ _
    · by_cases hcoll : k = coll.1
      · rw [hcoll] at hk ⊢
        rw [Database.collection_put, hunique hk]
      · rw [Database.collection_put_of_ne hcoll, hk]
  cases h with
  | index _ _ hindex => exact hput (fun _ ↦ (Collection.createIndexes_eq_ok hindex).2.1) rfl
  | insert _ _ hunique hcopy =>
    exact hput (fun _ ↦ by rw [(Collection.extends_of_upsert hcopy).rowHashUnique, hunique]) rfl

theorem grows_of_writes (h : ReflTransGen (MigrationWrite users docs) db db') : Grows db db' := by
  induction h with
  | refl => exact ⟨fun _ h ↦ h, fun _ ↦ List.prefix_rfl, fun _ h ↦ h⟩
  | tail _ hlast ih =>
    have hgrows := hlast.grows
    exact ⟨fun k hk ↦ hgrows.names k (ih.names k hk), fun k ↦ (ih.docs k).trans (hgrows.docs k),
      fun k hk ↦ hgrows.unique k (ih.unique k hk)⟩

/-- Another round for a document finds nothing to do. -/
def Settled (users : List User) (initialized initialized' : List String) (doc : Doc)
    (db : Database) : Prop :=
  ∀ s : MigrationState, s.initialized = initialized → ∃ s' : MigrationState,
    migrateDoc users false s doc db = .ok s' db ∧ s'.initialized = initialized' ∧
    s'.report.migrated = s.report.migrated

/-- A document that was copied, or kept out, is so again when its user's indexes are there. -/
theorem settled_of_copied {user : User} {c c' : Collection} {initialized : List String} {db'' : Database}
    (huser : usersByCallsign users (operatorKey doc) = [user])
    (hcoll : getUserQsoCollection user.username = .ok coll)
    (hprepared : Prepared s db user.username coll c initialized)
    (hunique : c'.rowHashUnique = true) (hgrows : Grows (db.put coll.1 coll.2 c') db'')
    (hno : ∀ c₂, copyTo (db''.collection coll.1) doc ≠ .ok (c₂, true)) :
    Settled users s.initialized initialized doc db'' := by
  have hmem : coll.1 ∈ db''.collectionNames :=
    hgrows.names _ (Database.mem_collectionNames_put.2 (.inl rfl))
  have hunique' : (db''.collection coll.1).rowHashUnique = true :=
    hgrows.unique _ (by rw [Database.collection_put, hunique])
  have hindexed := Collection.createIndexes_of_unique hunique'
  intro s₂ hs₂
  have hok : ∃ s' db₂, migrateDoc users false s₂ doc db'' = .ok s' db₂ ∧
      (db₂ = db'' ∧ s'.initialized = initialized ∧ s'.report.migrated = s₂.report.migrated) := by
    refine exists_ok_iff_wp.2 (wp_migrateDoc (fun hskip ↦ absurd huser (hskip user))
      (fun user' exc huser' hexc ↦ ?_) (fun user' coll' exc huser' hcoll' _ hexc ↦ ?_)
      fun user' coll' huser' hcoll' c₂ initialized₂ hprepared₂ s' _ hs' ↦ ?_)
    all_goals
      obtain rfl : user = user' := List.singleton_inj.1 (huser.symm.trans huser')
    · cases hcoll.symm.trans hexc
    all_goals
      obtain rfl : coll = coll' := Except.ok.inj (hcoll.symm.trans hcoll')
    · cases hindexed.symm.trans hexc
    · have hsame : c₂ = db''.collection coll.1 ∧ initialized₂ = initialized := by
        cases hprepared₂ with
        | already h₂ =>
          cases hprepared with
          | already h => exact ⟨rfl, hs₂⟩
          | created h _ => exact absurd (hs₂ ▸ h₂) h
        | created h₂ hindex₂ =>
          refine ⟨(Except.ok.inj (hindexed.symm.trans hindex₂)).symm, ?_⟩
          cases hprepared with
          | already h => exact absurd (hs₂ ▸ h) h₂
          | created h _ => rw [hs₂]
      obtain ⟨rfl, rfl⟩ := hsame
      refine ⟨fun c₃ hc₃ ↦ absurd hc₃ (hno c₃), fun _ haccounts ↦ ?_⟩
      exact ⟨Database.put_collection hmem, hs', haccounts.migrated⟩
  obtain ⟨s', db₂, hok, rfl, hinitialized, hmigrated⟩ := hok
  exact ⟨s', hok, hinitialized, hmigrated⟩

omit [UnicodeData] in
/-- The collection a round has left is extended later on. -/
theorem Grows.extends {c : Collection} {db'' : Database} (h : Grows (db.put coll.1 coll.2 c) db'')
    (hunique : c.rowHashUnique = true) : c.Extends (db''.collection coll.1) := by
  have hdocs := h.docs coll.1
  have hunique' := h.unique coll.1
  rw [Database.docs, Database.collection_put] at hdocs
  rw [Database.collection_put] at hunique'
  exact ⟨hdocs, (hunique' hunique).trans hunique.symm⟩

/-- **A round that went through is settled from then on**, and one that did not fails again. -/
theorem settled_of_migrateDoc (hinit : Initialized s.initialized db) :
    wp (migrateDoc users false s doc)
      (fun s' db' ↦ ∀ db'', Grows db' db'' → Settled users s.initialized s'.initialized doc db'')
      (fun _ db' ↦ db' = db ∧ ∀ s₂ : MigrationState, s₂.initialized = s.initialized →
        ∃ exc, migrateDoc users false s₂ doc db = .error exc db) db := by
  refine wp_migrateDoc (fun hskip s' _ _ hinitialized db'' _ s₂ hs₂ ↦ ?_)
    (fun user exc huser hexc ↦ ⟨rfl, fun s₂ _ ↦ ?_⟩)
    (fun user coll exc huser hcoll hnot hindex ↦ ?_)
    fun user coll huser hcoll c initialized hprepared s' _ hinitialized ↦ ?_
  · have hok : ∃ s' db₂, migrateDoc users false s₂ doc db'' = .ok s' db₂ ∧
        (db₂ = db'' ∧ s'.initialized = s₂.initialized ∧
          s'.report.migrated = s₂.report.migrated) := by
      refine exists_ok_iff_wp.2 (wp_migrateDoc
        (fun _ s' haccounts _ hs' ↦ ⟨rfl, hs', haccounts.migrated⟩)
        (fun user _ huser _ ↦ hskip user huser) (fun user _ _ huser _ _ _ ↦ hskip user huser)
        fun user _ huser ↦ absurd huser (hskip user))
    obtain ⟨s'', db₂, hok, rfl, hs'', hmigrated⟩ := hok
    exact ⟨s'', hok, by rw [hs'', hs₂, hinitialized], hmigrated⟩
  · have herror : ∃ exc' db₂, migrateDoc users false s₂ doc db = .error exc' db₂ ∧ db₂ = db := by
      refine exists_error_iff_wp.2 (wp_migrateDoc (fun hskip ↦ absurd huser (hskip user))
        (fun _ _ _ _ ↦ rfl) (fun user' coll exc' huser' hcoll _ _ ↦ ?_)
        fun user' coll huser' hcoll ↦ ?_)
      all_goals
        obtain rfl : user = user' := List.singleton_inj.1 (huser.symm.trans huser')
        cases hexc.symm.trans hcoll
    obtain ⟨exc', _, herror, rfl⟩ := herror
    exact ⟨exc', herror⟩
  · have hsame := @Database.put_collection _ _ coll.2 (mem_of_createIndexes_error hindex)
    refine ⟨hsame, fun s₂ hs₂ ↦ ?_⟩
    have herror : ∃ exc' db₂, migrateDoc users false s₂ doc db = .error exc' db₂ ∧ db₂ = db := by
      refine exists_error_iff_wp.2 (wp_migrateDoc (fun hskip ↦ absurd huser (hskip user))
        (fun _ _ _ _ ↦ rfl) (fun user' coll' exc' huser' hcoll' _ _ ↦ ?_)
        fun user' coll' huser' hcoll' c initialized hprepared ↦ ?_)
      all_goals
        obtain rfl : user = user' := List.singleton_inj.1 (huser.symm.trans huser')
        obtain rfl : coll = coll' := Except.ok.inj (hcoll.symm.trans hcoll')
      · exact hsame
      · cases hprepared with
        | already h => exact absurd (hs₂ ▸ h) hnot
        | created _ hok => cases hindex.symm.trans hok
    obtain ⟨exc', _, herror, rfl⟩ := herror
    exact ⟨exc', herror⟩
  · have hunique := (hinit.prepared hcoll hprepared).1
    rw [hinitialized]
    refine ⟨fun c' hc' _ db'' hgrows ↦ ?_, fun hno _ db'' hgrows ↦ ?_⟩
    · have hunique' : c'.rowHashUnique = true := by
        rw [(Collection.extends_of_upsert hc').rowHashUnique, hunique]
      refine settled_of_copied huser hcoll hprepared hunique' hgrows fun c₂ hc₂ ↦ ?_
      cases (Collection.upsert_again hc' (hgrows.extends hunique')).symm.trans hc₂
    · refine settled_of_copied huser hcoll hprepared hunique hgrows fun c₂ hc₂ ↦ ?_
      cases hc : copyTo c doc with
      | error exc =>
        exact Collection.not_inserted_of_upsert_error hc (hgrows.extends hunique) hc₂
      | ok result =>
        obtain ⟨c', inserted⟩ := result
        cases inserted with
        | true => exact hno c' hc
        | false =>
          obtain ⟨-, rfl, -⟩ | ⟨hfalse, -⟩ := Collection.upsert_cases hc
          · cases (Collection.upsert_again hc (hgrows.extends hunique)).symm.trans hc₂
          · cases hfalse

/-- The rounds of a loop write what each of them writes. -/
theorem foldlM_writes {docs docs' : List Doc} (hsub : ∀ doc ∈ docs', doc ∈ docs)
    (hinit : Initialized s.initialized db) :
    wp (docs'.foldlM (migrateDoc users false) s)
      (fun s' db' ↦ ReflTransGen (MigrationWrite users docs) db db' ∧
        Initialized s'.initialized db')
      (fun _ ↦ ReflTransGen (MigrationWrite users docs) db) db :=
  wp_foldlM (fun (s' : MigrationState) db' ↦ ReflTransGen (MigrationWrite users docs) db db' ∧
    Initialized s'.initialized db')
    (fun _ doc hdoc _ h ↦ migrateDoc_writes (hsub doc hdoc) h.1 h.2) ⟨.refl, hinit⟩

/-- **The loop, again**: it does to what it has left what it did before, which is nothing. -/
theorem foldlM_again {docs : List Doc} (hinit : Initialized s.initialized db) :
    wp (docs.foldlM (migrateDoc users false) s)
      (fun _ db' ↦ ∀ s₂ : MigrationState, s₂.initialized = s.initialized →
        ∃ s₂' : MigrationState, docs.foldlM (migrateDoc users false) s₂ db' = .ok s₂' db' ∧
          s₂'.report.migrated = s₂.report.migrated)
      (fun _ db' ↦ ∀ s₂ : MigrationState, s₂.initialized = s.initialized →
        ∃ exc, docs.foldlM (migrateDoc users false) s₂ db' = .error exc db') db := by
  induction docs generalizing s db with
  | nil => exact fun s₂ _ ↦ ⟨s₂, rfl, rfl⟩
  | cons doc docs ih =>
    have hround := wp_and (@settled_of_migrateDoc _ users _ doc _ hinit)
      (@migrateDoc_writes _ _ _ _ _ (doc :: docs) _ (List.mem_cons_self ..) .refl hinit)
    rw [List.foldlM_cons, wp_bind]
    refine wp_mono hround (fun s' db' h ↦ ?_) fun exc db' h s₂ hs₂ ↦ ?_
    · obtain ⟨hsettled, -, hinit'⟩ := h
      have hrest := wp_and (ih hinit')
        (@foldlM_writes _ _ _ _ docs _ (fun _ hdoc ↦ hdoc) hinit')
      refine wp_mono hrest (fun s'' db'' h s₂ hs₂ ↦ ?_) fun exc db'' h s₂ hs₂ ↦ ?_
      · obtain ⟨hagain, hwrites, -⟩ := h
        obtain ⟨s₃, hround₂, hs₃, hmigrated⟩ := hsettled db'' (grows_of_writes hwrites) s₂ hs₂
        obtain ⟨s₄, hrest₂, hmigrated'⟩ := hagain s₃ hs₃
        refine ⟨s₄, ?_, hmigrated'.trans hmigrated⟩
        rw [List.foldlM_cons]
        exact run_bind_eq_ok.2 ⟨s₃, db'', hround₂, hrest₂⟩
      · obtain ⟨hagain, hwrites⟩ := h
        obtain ⟨s₃, hround₂, hs₃, -⟩ := hsettled db'' (grows_of_writes hwrites) s₂ hs₂
        obtain ⟨exc', hrest₂⟩ := hagain s₃ hs₃
        refine ⟨exc', ?_⟩
        rw [List.foldlM_cons]
        exact run_bind_eq_error.2 (.inr ⟨s₃, db'', hround₂, hrest₂⟩)
    · obtain ⟨⟨rfl, hagain⟩, -⟩ := h
      obtain ⟨exc', hround₂⟩ := hagain s₂ hs₂
      refine ⟨exc', ?_⟩
      rw [List.foldlM_cons]
      exact run_bind_eq_error.2 (.inl hround₂)

/-- **The migration, again**: it leaves the database as it is, and ends as it did before. -/
theorem migrate_again (users : List User) (db : Database) :
    wp (migrateSharedQsosToUserCollections users false)
      (fun _ db' ↦ ∃ report, migrateSharedQsosToUserCollections users false db' = .ok report db' ∧
        report.migrated = 0)
      (fun _ db' ↦ ∃ exc, migrateSharedQsosToUserCollections users false db' = .error exc db')
      db := by
  have hnone : Initialized ([] : List String) db := fun _ h ↦ absurd h List.not_mem_nil
  have hsame : ∀ db', ReflTransGen (MigrationWrite users (db.docs legacyQsoCollection)) db db' →
      db'.docs legacyQsoCollection = db.docs legacyQsoCollection := fun db' h ↦
    congrArg Collection.docs (legacy_eq_of_writes h)
  have hrun : ∀ db' : Database, migrateSharedQsosToUserCollections users false db' =
      ((db'.docs legacyQsoCollection).foldlM (migrateDoc users false)
        { report := { dryRun := false } } >>= fun s ↦ pure s.report) db' := fun _ ↦ rfl
  rw [wp, hrun, ← wp, wp_bind]
  refine wp_mono (wp_and (foldlM_again (s := { report := { dryRun := false } }) hnone)
    (foldlM_writes (s := { report := { dryRun := false } }) (fun _ hdoc ↦ hdoc) hnone))
    (fun s db' h ↦ ?_) fun exc db' h ↦ ?_
  · obtain ⟨hagain, hwrites, -⟩ := h
    obtain ⟨s', hok, hmigrated⟩ := hagain _ rfl
    refine ⟨s'.report, ?_, hmigrated⟩
    rw [hrun, hsame db' hwrites]
    exact run_bind_eq_ok.2 ⟨s', db', hok, rfl⟩
  · obtain ⟨hagain, hwrites⟩ := h
    obtain ⟨exc', herror⟩ := hagain _ rfl
    refine ⟨exc', ?_⟩
    rw [hrun, hsame db' hwrites]
    exact run_bind_eq_error.2 (.inl herror)

/-! ## Users and their collections -/

omit [UnicodeData] in
/-- A collection belongs to one user name. -/
theorem username_eq_of_collection {other : String} {coll' : UserCollection}
    (hcoll : getUserQsoCollection username = .ok coll)
    (hcoll' : getUserQsoCollection other = .ok coll') (h : coll'.1 = coll.1) : other = username :=
  qsoCollectionName_injective (getUserQsoCollection_eq_ok.1 hcoll')
    (h ▸ getUserQsoCollection_eq_ok.1 hcoll)

theorem mem_of_usersByCallsign {key : String} {user : User}
    (h : usersByCallsign users key = [user]) : user ∈ users := by
  rw [usersByCallsign] at h
  split at h
  · cases h
  · exact (List.mem_filter.1 (h ▸ List.mem_cons_self ..)).1

end

section

attribute [local instance] UnicodeData.ascii

/-- The owner of a shared QSO. -/
def Sample.owner : User where
  username := "w1aw"
  callsign := "W1AW"

/-- A shared QSO, whose operator is written in its own way. -/
def Sample.sharedDoc : Doc :=
  (((∅ : Doc).insert "_id" (.oid ⟨1⟩)).insert "_operator" (.str " w1aw")).insert "CALL"
    (.str "K1ABC")

/-- A database with shared QSOs. -/
def Sample.shared (docs : List Doc) : Database :=
  after (Database.on legacyQsoCollection (by decide) (docs.forM insertOne)) Sample.database

end

end Ollog
