import Ollog.Migration.Collections

/-!
# What the migration copies

The migration goes through the shared QSOs one after another, and stops at the first whose user
cannot have a collection, or cannot have its index.  `Progress` is what holds of those it has done:
each has arrived, that is, its user's collection has it, or has another with its `_id` or its hash
(`migrate_progress`).  It carries the report along, which counts them all, and the copies among
them.

`Arrives` is the other way round: which documents will be copied, told from the database the
migration starts from (`arrives_of_added`, `added_of_arrives`).
-/

set_option autoImplicit false

namespace Ollog

open Effects Relation

section

variable [UnicodeData]

/-! ## Which documents are copied -/

variable {users : List User} {db db₀ db' : Database} {docs : List Doc} {doc : Doc}
  {coll : UserCollection} {s : MigrationState}

omit [UnicodeData] in
/-- A collection takes a copy of a document, unless it has the `_id` or the hash already. -/
def Arrived (doc : Doc) (c : Collection) : Prop :=
  ∀ copy, Copies doc copy → (∃ e ∈ c.docs, e["_id"]? = doc["_id"]?) ∨
    ∃ e ∈ c.docs, Doc.clash "rowHash" e copy = true

omit [UnicodeData] in
theorem Arrived.mono {c c' : Collection} (h : Arrived doc c) (hsub : ∀ d ∈ c.docs, d ∈ c'.docs) :
    Arrived doc c' := by
  intro copy hcopy
  obtain ⟨e, he, heq⟩ | ⟨e, he, heq⟩ := h copy hcopy
  · exact .inl ⟨e, hsub e he, heq⟩
  · exact .inr ⟨e, hsub e he, heq⟩

omit [UnicodeData] in
theorem arrived_of_not_copied {c c₀ : Collection} (hdoc : doc ∈ c₀.docs)
    (hno : ∀ c', copyTo c doc ≠ .ok (c', true)) : Arrived doc c := by
  rintro copy ⟨doc', hdoc', rfl⟩
  by_contra hnot
  push Not at hnot
  obtain ⟨hids, hhashes⟩ := hnot
  have hstored := c₀.docs_stored doc hdoc
  have hid := Collection.id_get hdoc
  have hidStored := (hstored _ _ hid).2
  have hidSame := Value.toStored_of_isStored _ hidStored
  have hset : Doc.encodable (doc.erase "_id") = true := by
    refine Doc.Stored.encodable fun k v hv ↦ ?_
    rw [Doc.getElem?_erase] at hv
    split at hv
    · cases hv
    · exact hstored k v hv
  have hok := c₀.ids_ok doc hdoc
  rw [hid, Option.getD_some] at hok
  obtain ⟨c', hc'⟩ := Collection.exists_upsert (c := c) hdoc' hset
    (Value.encodable_of_isStored _ hidStored) (hidSame.symm ▸ hok)
    (fun e he ↦ by rw [hidSame, ← hid]; exact hids e he) (by
      rw [Collection.refuses, Bool.and_eq_false_iff, List.any_eq_false]
      exact .inr hhashes)
  exact hno c' hc'

/-- Nothing in the way of a document's copy: its user can have a collection, and the collection can
have its index. -/
def Ready (users : List User) (db : Database) (doc : Doc) : Prop :=
  ∀ user, usersByCallsign users (operatorKey doc) = [user] →
    ∃ coll, getUserQsoCollection user.username = .ok coll ∧ Indexable (db.docs coll.1)

omit [UnicodeData] in
/-- The documents among those that were copied that went to a collection. -/
def copiedTo (copied : List (String × Doc)) (coll : String) : List Doc :=
  (copied.filter (·.1 = coll)).map (·.2)

omit [UnicodeData] in
/-- The documents of `db` are those of `db₀` and `n` more. -/
def Added (db₀ : Database) (n : Nat) (db : Database) : Prop :=
  ∃ copied : List (String × Doc), copied.length = n ∧
    ∀ coll, db.docs coll = db₀.docs coll ++ copiedTo copied coll

omit [UnicodeData] in
theorem Added.docs_eq {n : Nat} (h : Added db₀ n db) (hsame : ∀ k, db'.docs k = db.docs k) :
    Added db₀ n db' := by
  obtain ⟨copied, hlength, hdocs⟩ := h
  exact ⟨copied, hlength, fun k ↦ (hsame k).trans (hdocs k)⟩

omit [UnicodeData] in
theorem Added.copy {n : Nat} {c c' : Collection} (h : Added db₀ n db)
    (hc : c.docs = db.docs coll.1) (hcopy : copyTo c doc = .ok (c', true)) :
    Added db₀ (n + 1) (db.put coll.1 coll.2 c') := by
  obtain ⟨hno, -⟩ | ⟨-, -, doc', -, hinsert⟩ := Collection.upsert_cases hcopy
  · cases hno
  obtain ⟨copied, hlength, hdocs⟩ := h
  refine ⟨copied ++ [(coll.1, Doc.toStored doc')], by rw [List.length_append, hlength]; rfl,
    fun k ↦ ?_⟩
  rw [copiedTo, List.filter_append, List.map_append, ← copiedTo]
  by_cases hk : k = coll.1
  · subst hk
    rw [Database.docs, Database.collection_put, (Collection.insert_eq_ok hinsert).1, hc, hdocs,
      List.append_assoc]
    simp
  · rw [Database.docs, Database.collection_put_of_ne hk, ← Database.docs, hdocs]
    simp [Ne.symm hk]

/-- What has become of the documents that the loop has done. -/
structure Progress (users : List User) (db₀ : Database) (done : List Doc) (s : MigrationState)
    (db : Database) : Prop where
  writes : ReflTransGen (MigrationWrite users done) db₀ db
  initialized : Initialized s.initialized db
  untouched : ∀ username ∉ s.initialized, ∀ coll, getUserQsoCollection username = .ok coll →
    db.collection coll.1 = db₀.collection coll.1
  ready : ∀ d ∈ done, Ready users db₀ d
  arrived : ∀ d ∈ done, ∀ coll, BelongsTo users d coll → Arrived d (db.collection coll.1)
  added : Added db₀ s.report.migrated db
  scanned : s.report.scanned = done.length
  settled : s.report.settled = done.length

theorem MigrationWrite.mono {docs' : List Doc} (h : MigrationWrite users docs db db')
    (hsub : ∀ d ∈ docs, d ∈ docs') : MigrationWrite users docs' db db' := by
  cases h with
  | index hdoc hbelongs hindex => exact .index (hsub _ hdoc) hbelongs hindex
  | insert hdoc hbelongs hunique hcopy => exact .insert (hsub _ hdoc) hbelongs hunique hcopy

omit [UnicodeData] in
/-- The documents of a collection with the index can have it. -/
theorem indexable_of_unique (hgrows : Grows db₀ db)
    (hunique : (db.collection coll.1).rowHashUnique = true) : Indexable (db₀.docs coll.1) :=
  ((db.collection coll.1).hashes_distinct hunique).sublist (hgrows.docs coll.1).sublist

/-- What a round does for its document. -/
theorem wp_migrateDoc_arrived {c₀ : Collection} (hdoc : doc ∈ c₀.docs)
    (h : Progress users db₀ docs s db) :
    wp (migrateDoc users false s doc)
      (fun s' db' ↦ (∀ username ∉ s'.initialized, ∀ coll,
          getUserQsoCollection username = .ok coll →
          db'.collection coll.1 = db₀.collection coll.1) ∧
        Ready users db₀ doc ∧ ∀ coll, BelongsTo users doc coll →
          Arrived doc (db'.collection coll.1))
      (fun _ _ ↦ ¬ Ready users db₀ doc) db := by
  have hgrows := grows_of_writes h.writes
  have hid : ∀ {e : Doc}, e["_id"]? = some (Doc.get doc "_id" .null).toStored →
      e["_id"]? = doc["_id"]? := fun he ↦ by
    rw [he, Collection.id_get hdoc, Value.toStored_of_isStored _
      (c₀.docs_stored doc hdoc _ _ (Collection.id_get hdoc)).2]
  refine wp_migrateDoc (fun hskip s' _ _ hinitialized ↦ ⟨?_, ?_, ?_⟩)
    (fun user exc huser hexc hready ↦ ?_) (fun user coll exc huser hcoll hnot hindex hready ↦ ?_)
    fun user coll huser hcoll c initialized hprepared s' _ hinitialized ↦ ?_
  · rw [hinitialized]
    exact h.untouched
  · exact fun user huser ↦ absurd huser (hskip user)
  · rintro coll ⟨user, huser, -⟩
    exact absurd huser (hskip user)
  · obtain ⟨coll, hcoll, -⟩ := hready user huser
    cases hcoll.symm.trans hexc
  · obtain ⟨coll', hcoll', hindexable⟩ := hready user huser
    obtain rfl : coll = coll' := Except.ok.inj (hcoll.symm.trans hcoll')
    rw [h.untouched _ hnot coll hcoll] at hindex
    exact Collection.not_pairwise_of_createIndexes_error hindex hindexable
  · have hready : Ready users db₀ doc := by
      intro user' huser'
      obtain rfl : user = user' := List.singleton_inj.1 (huser.symm.trans huser')
      refine ⟨coll, hcoll, ?_⟩
      cases hprepared with
      | already hmem => exact indexable_of_unique hgrows (h.initialized _ hmem coll hcoll).2
      | created hnot hindex =>
        obtain ⟨hdocs, hunique, -⟩ := Collection.createIndexes_eq_ok hindex
        rw [h.untouched _ hnot coll hcoll] at hdocs
        rw [Indexable, Database.docs, ← hdocs]
        exact c.hashes_distinct hunique
    have hbelongs : ∀ coll', BelongsTo users doc coll' → coll' = coll := by
      rintro coll' ⟨user', huser', hcoll'⟩
      obtain rfl : user = user' := List.singleton_inj.1 (huser.symm.trans huser')
      exact Except.ok.inj (hcoll'.symm.trans hcoll)
    have huntouched : ∀ c', ∀ username ∉ s'.initialized, ∀ coll',
        getUserQsoCollection username = .ok coll' →
        (db.put coll.1 coll.2 c').collection coll'.1 = db₀.collection coll'.1 := by
      have hmem : user.username ∈ initialized ∧ ∀ u ∈ s.initialized, u ∈ initialized := by
        cases hprepared with
        | already hmem => exact ⟨hmem, fun _ h ↦ h⟩
        | created _ _ => exact ⟨by simp, fun _ h ↦ List.mem_append_left _ h⟩
      intro c' username hnot coll' hcoll'
      rw [hinitialized] at hnot
      rw [Database.collection_put_of_ne, h.untouched _ (mt (hmem.2 _) hnot) coll' hcoll']
      exact fun heq ↦ hnot (username_eq_of_collection hcoll hcoll' heq ▸ hmem.1)
    refine ⟨fun c' hc' _ ↦ ⟨huntouched c', hready, fun coll' hcoll' ↦ ?_⟩,
      fun hno _ ↦ ⟨huntouched c, hready, fun coll' hcoll' ↦ ?_⟩⟩
    · rw [hbelongs coll' hcoll', Database.collection_put]
      obtain ⟨e, he, heid⟩ := Collection.exists_of_upsert hc'
      exact fun _ _ ↦ .inl ⟨e, he, hid heid⟩
    · rw [hbelongs coll' hcoll', Database.collection_put]
      exact arrived_of_not_copied hdoc hno

theorem added_migrateDoc (h : Added db₀ s.report.migrated db) :
    wp (migrateDoc users false s doc)
      (fun s' db' ↦ Added db₀ s'.report.migrated db' ∧
        s'.report.scanned = s.report.scanned + 1 ∧ s'.report.settled = s.report.settled + 1)
      (fun _ _ ↦ True) db := by
  refine wp_migrateDoc (fun _ s' haccounts hscanned _ ↦ ⟨?_, hscanned, haccounts.settled⟩)
    (fun _ _ _ _ ↦ trivial) (fun _ _ _ _ _ _ _ ↦ trivial)
    fun user coll huser hcoll c initialized hprepared s' hscanned _ ↦ ?_
  · rw [haccounts.migrated]
    exact h
  · have hc : c.docs = db.docs coll.1 := by
      cases hprepared with
      | already _ => rfl
      | created _ hindex => exact (Collection.createIndexes_eq_ok hindex).1
    refine ⟨fun c' hc' haccounts ↦ ⟨?_, hscanned, haccounts.settled⟩,
      fun _ haccounts ↦ ⟨?_, hscanned, haccounts.settled⟩⟩
    · rw [haccounts.migrated]
      exact h.copy hc hc'
    · rw [haccounts.migrated]
      refine h.docs_eq fun k ↦ ?_
      by_cases hk : k = coll.1
      · rw [hk, Database.docs, Database.collection_put, hc]
      · rw [Database.docs, Database.collection_put_of_ne hk, Database.docs]

theorem progress_migrateDoc {c₀ : Collection} (hdoc : doc ∈ c₀.docs)
    (h : Progress users db₀ docs s db) :
    wp (migrateDoc users false s doc) (Progress users db₀ (docs ++ [doc]))
      (fun _ db' ↦ Progress users db₀ docs s db' ∧ ¬ Ready users db₀ doc) db := by
  have hwrites := @migrateDoc_writes _ users _ doc _ (docs ++ [doc]) _
    (List.mem_append_right _ (List.mem_cons_self ..)) .refl h.initialized
  refine wp_mono (wp_and hwrites (wp_and (settled_of_migrateDoc h.initialized)
    (wp_and (added_migrateDoc h.added) (wp_migrateDoc_arrived hdoc h)))) (fun s' db' h' ↦ ?_)
    fun exc db' h' ↦ ?_
  · obtain ⟨⟨hwrites, hinitialized⟩, -, ⟨hadded, hscanned, hsettled⟩, huntouched, hready,
      harrived⟩ := h'
    have hgrows := grows_of_writes hwrites
    have hbefore : ReflTransGen (MigrationWrite users (docs ++ [doc])) db₀ db :=
      ReflTransGen.mono (r := MigrationWrite users docs) (fun _ _ hwrite ↦
        MigrationWrite.mono hwrite fun d hd ↦ List.mem_append_left _ hd) _ _ h.writes
    refine ⟨hbefore.trans hwrites, hinitialized, huntouched, fun d hd ↦ ?_,
      fun d hd coll hbelongs ↦ ?_, hadded, by rw [hscanned, h.scanned, List.length_append]; rfl,
      by rw [hsettled, h.settled, List.length_append]; rfl⟩
    · obtain hd | hd := List.mem_append.1 hd
      · exact h.ready d hd
      · exact List.mem_singleton.1 hd ▸ hready
    · obtain hd | hd := List.mem_append.1 hd
      · exact (h.arrived d hd coll hbelongs).mono fun e he ↦ (hgrows.docs coll.1).subset he
      · obtain rfl := List.mem_singleton.1 hd
        exact harrived coll hbelongs
  · obtain ⟨-, ⟨rfl, -⟩, -, hnot⟩ := h'
    exact ⟨h, hnot⟩

/-- **What a run of the migration does**: it copies as many of the documents as it can, one after
another, and raises where it comes to one that is in its way. -/
theorem wp_migrate (users : List User) (db : Database) :
    wp (migrateSharedQsosToUserCollections users false)
      (fun report db' ↦ ∃ s : MigrationState, s.report = report ∧
        Progress users db (db.docs legacyQsoCollection) s db')
      (fun _ db' ↦ ∃ done doc todo s, db.docs legacyQsoCollection = done ++ doc :: todo ∧
        Progress users db done s db' ∧ ¬ Ready users db doc) db := by
  have hstart : Progress users db [] { report := { dryRun := false } } db :=
    ⟨.refl, fun _ h ↦ absurd h List.not_mem_nil, fun _ _ _ _ ↦ rfl,
      fun _ h ↦ absurd h List.not_mem_nil, fun _ h ↦ absurd h List.not_mem_nil,
      ⟨[], rfl, fun _ ↦ (List.append_nil _).symm⟩, rfl, rfl⟩
  simp only [migrateSharedQsosToUserCollections, wp_bind, wp_get]
  refine wp_mono (wp_foldlM_done (fun done s db' ↦ Progress users db done s db')
    (fun done doc _ db' ↦ (∃ s, Progress users db done s db') ∧ ¬ Ready users db doc)
    (fun done doc todo s db' hdocs h ↦ ?_) hstart) (fun s db' h ↦ ⟨s, rfl, h⟩) fun exc db' h ↦ ?_
  · have hmem : doc ∈ (db.collection legacyQsoCollection).docs := by
      have hdocs' : (db.collection legacyQsoCollection).docs = done ++ doc :: todo := hdocs
      rw [hdocs']
      exact List.mem_append_right _ (List.mem_cons_self ..)
    exact wp_mono (progress_migrateDoc hmem h) (fun _ _ h ↦ h) fun _ _ h ↦ ⟨⟨s, h.1⟩, h.2⟩
  · obtain ⟨done, doc, todo, hdocs, ⟨s, h⟩, hnot⟩ := h
    exact ⟨done, doc, todo, s, hdocs, h, hnot⟩

/-- What the migration has come to, when it has ended. -/
theorem migrate_progress (users : List User) (db : Database) :
    ∃ done todo s, db.docs legacyQsoCollection = done ++ todo ∧
      Progress users db done s (after (migrateSharedQsosToUserCollections users false) db) ∧
      ∀ d ∈ todo.head?, ¬ Ready users db d := by
  refine after_of_wp (P := fun db' ↦ ∃ done todo s, db.docs legacyQsoCollection = done ++ todo ∧
    Progress users db done s db' ∧ ∀ d ∈ todo.head?, ¬ Ready users db d)
    (wp_mono (wp_migrate users db) (fun report db' h ↦ ?_) fun exc db' h ↦ ?_)
  · obtain ⟨s, -, h⟩ := h
    exact ⟨_, [], s, (List.append_nil _).symm, h, fun d hd ↦ by cases hd⟩
  · obtain ⟨done, doc, todo, s, hdocs, h, hnot⟩ := h
    refine ⟨done, doc :: todo, s, hdocs, h, fun d hd ↦ ?_⟩
    cases hd
    exact hnot

/-- The migration comes to its end if nothing is in its way. -/
theorem exists_migrate (h : ∀ doc ∈ db.docs legacyQsoCollection, Ready users db doc) :
    ∃ report db', migrateSharedQsosToUserCollections users false db = .ok report db' ∧
      ∃ s : MigrationState, s.report = report ∧
        Progress users db (db.docs legacyQsoCollection) s db' := by
  refine exists_ok_iff_wp.2 (wp_mono (wp_migrate users db) (fun _ _ h ↦ h) fun _ _ hnot ↦ ?_)
  obtain ⟨done, doc, todo, -, hdocs, -, hnot⟩ := hnot
  exact hnot (h doc (hdocs ▸ List.mem_append_right _ (List.mem_cons_self ..)))

/-- A dry run writes nothing. -/
theorem migrate_dry (hnames : ∀ user ∈ users, ∃ coll,
    getUserQsoCollection user.username = .ok coll) (db : Database) :
    ∃ report, migrateSharedQsosToUserCollections users true db = .ok report db := by
  have hround : ∀ s doc, wp (migrateDoc users true s doc) (fun _ db' ↦ db' = db)
      (fun _ _ ↦ False) db := by
    intro s doc
    rw [migrateDoc]
    dsimp only
    split
    · rfl
    split
    · rfl
    · rename_i user huser
      obtain ⟨coll, hcoll⟩ := hnames user (mem_of_usersByCallsign huser)
      simp only [hcoll, wp_bind, wp_ofExcept, initializeCollection, copyDocument, wp_ite, wp_pure,
        if_true]
      simp
    · rfl
  have hrun : ∃ report db', migrateSharedQsosToUserCollections users true db = .ok report db' ∧
      db' = db := by
    refine exists_ok_iff_wp.2 ?_
    simp only [migrateSharedQsosToUserCollections, wp_bind, wp_get]
    exact wp_mono (wp_foldlM (fun _ db' ↦ db' = db) (fun s doc _ db' h ↦ h ▸ hround s doc) rfl)
      (fun _ _ h ↦ h) fun _ _ h ↦ h
  obtain ⟨report, _, hrun, rfl⟩ := hrun
  exact ⟨report, hrun⟩

/-! ## The copies -/

omit [UnicodeData] in
/-- An empty name among them, or an operator, would have kept the document from being copied. -/
theorem plain_of_copies {d : Doc} (hdot : ∀ k ∈ doc, '.' ∉ k.toList) (h : Copies doc d) :
    ∀ k ∈ doc, PlainKey k := by
  intro k hk
  by_cases hid : k = "_id"
  · rw [hid]
    decide
  obtain ⟨doc', hdoc', -⟩ := h
  have hcheck := checkPaths_of_applySet (Collection.upsertDoc_eq_ok hdoc').1
  refine plain_of_checkPaths hcheck ?_ (hdot k hk)
  rw [Std.ExtTreeMap.mem_keys, Doc.mem_toStored, Std.ExtTreeMap.mem_erase]
  exact ⟨by simpa using Ne.symm hid, hk⟩

omit [UnicodeData] in
/-- **A copy of a document without dots in its names is the document.** -/
theorem Copies.eq {d : Doc} (h : Copies doc d) (hstored : doc.Stored)
    (hid : doc["_id"]?.isSome = true) (hdot : ∀ k ∈ doc, '.' ∉ k.toList) : d = doc := by
  have hplain := plain_of_copies hdot h
  obtain ⟨doc', hdoc', rfl⟩ := h
  obtain ⟨id, hid⟩ := Option.isSome_iff_exists.1 hid
  rw [Doc.get, hid, Option.getD_some, Collection.upsertDoc_of_plain hstored hid hplain] at hdoc'
  obtain rfl := Except.ok.inj hdoc'
  exact hstored.toStored_eq

omit [UnicodeData] in
/-- A stored document of plain names is a copy of itself. -/
theorem copies_of_plain {c : Collection} (hdoc : doc ∈ c.docs) (hplain : ∀ k ∈ doc, PlainKey k) :
    Copies doc doc :=
  ⟨doc, Collection.upsertDoc_of_plain (c.docs_stored doc hdoc) (Collection.id_get hdoc) hplain,
    (c.docs_stored doc hdoc).toStored_eq.symm⟩

omit [UnicodeData] in
/-- A copy has the `_id` and the hash of what it is a copy of. -/
theorem Copies.getElem? {c : Collection} {d : Doc} (h : Copies doc d) (hdoc : doc ∈ c.docs) :
    d["_id"]? = doc["_id"]? ∧ ("rowHash" ∈ doc → d["rowHash"]? = doc["rowHash"]?) ∧
      ∀ s, d["rowHash"]? = some (.str s) → doc["rowHash"]? = some (.str s) := by
  obtain ⟨doc', hdoc', rfl⟩ := h
  have hstored := c.docs_stored doc hdoc
  have hsame : ∀ {k : String} {v : Value}, doc[k]? = some v → v.toStored = v := fun hv ↦
    Value.toStored_of_isStored _ (hstored _ _ hv).2
  obtain ⟨happly, hid⟩ := Collection.upsertDoc_eq_ok hdoc'
  have hset : (Doc.toStored (doc.erase "_id"))["rowHash"]? = doc["rowHash"]? := by
    rw [Doc.getElem?_toStored, Doc.getElem?_erase, if_neg (by decide)]
    cases hv : doc["rowHash"]? with
    | none => rfl
    | some v => rw [Option.map_some, hsame hv]
  refine ⟨?_, fun hmem ↦ ?_, fun s hs ↦ ?_⟩
  · rw [Doc.getElem?_toStored, hid, Collection.id_get hdoc, hsame (Collection.id_get hdoc),
      Option.map_some, hsame (Collection.id_get hdoc)]
  · have hkey : "rowHash" ∈ Doc.toStored (doc.erase "_id") := by
      rw [Doc.mem_iff_ne_none, hset, ← Doc.mem_iff_ne_none]
      exact hmem
    rw [Doc.getElem?_toStored, getElem?_applySet_plain happly (by decide) hkey, hset]
    cases hv : doc["rowHash"]? with
    | none => rfl
    | some v => rw [Option.map_some, hsame hv]
  · rw [Doc.getElem?_toStored] at hs
    obtain ⟨w, hw, hws⟩ := Option.map_eq_some_iff.1 hs
    obtain hcase | ⟨-, w', hw', hcontainer⟩ := @getElem?_applySet_cases _ _ _ "rowHash"
      happly (by decide)
    · rw [hcase, hset, Doc.getElem?_insert, if_neg (by decide)] at hw
      have hget : doc["rowHash"]? = some w := by simpa using hw
      rw [hget, ← hws, hsame hget]
    · obtain rfl := Option.some.inj (hw.symm.trans hw')
      rw [Value.toStored_eq_str hws] at hcontainer
      cases hcontainer

omit [UnicodeData] in
theorem Copies.unique {d d' : Doc} (h : Copies doc d) (h' : Copies doc d') : d = d' := by
  obtain ⟨doc₁, hdoc₁, rfl⟩ := h
  obtain ⟨doc₂, hdoc₂, rfl⟩ := h'
  rw [Except.ok.inj (hdoc₁.symm.trans hdoc₂)]

/-! ## What is going to be copied -/

/-- A document the migration comes to, whose user's collection does not have its `_id`. -/
structure Due (users : List User) (db : Database) (doc : Doc) (coll : UserCollection) : Prop where
  reached : ∃ before behind, db.docs legacyQsoCollection = before ++ doc :: behind ∧
    ∀ d ∈ before ++ [doc], Ready users db d
  belongs : BelongsTo users doc coll
  new : ∀ e ∈ db.docs coll.1, e["_id"]? ≠ doc["_id"]?

/-- A document that is copied, to a collection that does not have its hash. -/
structure Arrives (users : List User) (db : Database) (doc : Doc) (coll : UserCollection)
    (copy : Doc) : Prop extends Due users db doc coll where
  copies : Copies doc copy
  allowed : ∀ e ∈ db.docs coll.1, Doc.clash "rowHash" e copy = false

theorem Due.mem (h : Due users db doc coll) : doc ∈ db.docs legacyQsoCollection := by
  obtain ⟨before, behind, hsplit, -⟩ := h.reached
  rw [hsplit]
  exact List.mem_append_right _ (List.mem_cons_self ..)

/-- Only a collection with the index gets documents. -/
theorem unique_of_added (h : ReflTransGen (MigrationWrite users docs) db db')
    (hadded : db'.docs coll.1 ≠ db.docs coll.1) :
    (db'.collection coll.1).rowHashUnique = true := by
  induction h with
  | refl => exact absurd rfl hadded
  | @tail db₁ db₂ hwrites hlast ih =>
    by_cases hsame : db₂.docs coll.1 = db₁.docs coll.1
    · exact hlast.grows.unique _ (ih (hsame ▸ hadded))
    cases hlast with
    | @index doc own c hdoc hbelongs hindex =>
      refine absurd ?_ hsame
      rw [Database.docs, Database.docs]
      by_cases hcoll : coll.1 = own.1
      · rw [hcoll, Database.collection_put, (Collection.createIndexes_eq_ok hindex).1]
      · rw [Database.collection_put_of_ne hcoll]
    | @insert doc own c hdoc hbelongs hunique hcopy =>
      by_cases hcoll : coll.1 = own.1
      · rw [hcoll, Database.collection_put, (Collection.extends_of_upsert hcopy).rowHashUnique,
          hunique]
      · refine absurd ?_ hsame
        rw [Database.docs, Database.docs, Database.collection_put_of_ne hcoll]

/-- **What is added is what arrives.** -/
theorem arrives_of_added {d : Doc} (coll : String)
    (hd : d ∈ (after (migrateSharedQsosToUserCollections users false) db).docs coll)
    (hnew : d ∉ db.docs coll) :
    ∃ doc own, own.1 = coll ∧ Arrives users db doc own d := by
  obtain ⟨done, todo, s, hdocs, h, -⟩ := migrate_progress users db
  set db' := after (migrateSharedQsosToUserCollections users false) db
  obtain ⟨added, hadded, hfrom⟩ := docs_eq_of_writes h.writes coll
  rw [hadded, List.mem_append] at hd
  have hmem := hd.resolve_left hnew
  obtain ⟨doc, hdoc, own, rfl, hbelongs, hcopies⟩ := hfrom d hmem
  have hlegacy : doc ∈ (db.collection legacyQsoCollection).docs := by
    have hdocs' : (db.collection legacyQsoCollection).docs = done ++ todo := hdocs
    rw [hdocs']
    exact List.mem_append_left _ hdoc
  have hids := (db'.collection own.1).ids_distinct
  have hunique : (db'.collection own.1).rowHashUnique = true := by
    refine unique_of_added h.writes fun heq ↦ ?_
    rw [List.append_right_eq_self.1 (hadded.symm.trans heq)] at hmem
    cases hmem
  have hhashes := (db'.collection own.1).hashes_distinct hunique
  have hadded' : (db'.collection own.1).docs = db.docs own.1 ++ added := hadded
  rw [hadded', List.pairwise_append] at hids hhashes
  obtain ⟨before, behind, hsplit⟩ := List.append_of_mem hdoc
  refine ⟨doc, own, rfl, ⟨⟨before, behind ++ todo, ?_, fun e he ↦ h.ready e ?_⟩, hbelongs,
    fun e he heq ↦ ?_⟩, hcopies, fun e he ↦ hhashes.2.2 e he d hmem⟩
  · rw [hdocs, hsplit, List.append_assoc, List.cons_append]
  · rw [hsplit]
    rw [List.mem_append, List.mem_singleton] at he
    rw [List.mem_append, List.mem_cons]
    exact he.imp_right .inl
  · have hclash := hids.2.2 e he d hmem
    rw [Doc.clash, heq, (hcopies.getElem? hlegacy).1, Collection.id_get hlegacy] at hclash
    simp at hclash

/-- **What arrives is added**, unless another document with its hash is added. -/
theorem added_of_arrives {copy : Doc} (h : Arrives users db doc coll copy) :
    ∃ d ∈ (after (migrateSharedQsosToUserCollections users false) db).docs coll.1,
      d ∉ db.docs coll.1 ∧ (d = copy ∨ Doc.clash "rowHash" d copy = true) := by
  obtain ⟨done, todo, s, hdocs, hprogress, hstop⟩ := migrate_progress users db
  set db' := after (migrateSharedQsosToUserCollections users false) db
  obtain ⟨before, behind, hsplit, hready⟩ := h.reached
  have hdone : doc ∈ done := by
    have hhead : ∀ d ∈ todo.head?, d ∉ before ++ [doc] := fun d hd hmem ↦ hstop d hd (hready d hmem)
    obtain ⟨rest, hrest, htodo⟩ | ⟨rest, hrest, htodo⟩ :=
      List.append_eq_append_iff.1 (hdocs.symm.trans hsplit)
    · rw [htodo] at hhead
      cases rest with
      | nil => exact absurd (by simp) (hhead doc rfl)
      | cons d rest => exact absurd (by simp [hrest]) (hhead d rfl)
    · cases rest with
      | nil =>
        rw [List.nil_append] at htodo
        exact absurd (by simp) (hhead doc (by rw [← htodo]; rfl))
      | cons d rest =>
        rw [List.cons_append, List.cons.injEq] at htodo
        rw [hrest, ← htodo.1]
        exact List.mem_append_right _ (List.mem_cons_self ..)
  have hlegacy : ∀ d ∈ done, d ∈ (db.collection legacyQsoCollection).docs := fun d hd ↦ by
    have hdocs' : (db.collection legacyQsoCollection).docs = done ++ todo := hdocs
    rw [hdocs']
    exact List.mem_append_left _ hd
  obtain ⟨e, he, hid⟩ | ⟨e, he, hclash⟩ := hprogress.arrived doc hdone coll h.belongs copy h.copies
  · have hnew : e ∉ db.docs coll.1 := fun hmem ↦ h.new e hmem hid
    refine ⟨e, he, hnew, .inl ?_⟩
    obtain ⟨added, hadded, hfrom⟩ := docs_eq_of_writes hprogress.writes coll.1
    have hmem : e ∈ db.docs coll.1 ++ added := hadded ▸ he
    obtain ⟨doc₂, hdoc₂, own, -, -, hcopies⟩ := hfrom e ((List.mem_append.1 hmem).resolve_left hnew)
    have hsame : doc₂ = doc := Collection.eq_of_id_eq (hlegacy _ hdoc₂) (hlegacy _ hdone)
      ((hcopies.getElem? (hlegacy _ hdoc₂)).1.symm.trans hid)
    exact (hsame ▸ hcopies).unique h.copies
  · exact ⟨e, he, fun hmem ↦ Bool.false_ne_true ((h.allowed e hmem).symm.trans hclash), .inr hclash⟩

/-! ## The migration as a whole -/

/-- **The migration is a faithful, additive, repeatable copy.**  It leaves the shared collection and
every document of the users as they are.  What it adds to a collection are documents of the shared
one whose normalised `_operator` is the callsign of exactly one user, whose collection it is; the
report counts them.  Every document of such an operator is there afterwards, unless its `_id` or its
hash is taken.  The report accounts for every document; a second run changes nothing, and neither
does a dry run. -/
theorem migrate_faithful (users : List User) (db : Database)
    (hnames : ∀ user ∈ users, ∃ coll, qsoCollectionName user.username = .ok coll)
    (hdot : ∀ doc ∈ db.docs legacyQsoCollection, ∀ k ∈ doc, '.' ∉ k.toList)
    (hdollar : ∀ doc ∈ db.docs legacyQsoCollection, ∀ k ∈ doc, k.toList.head? ≠ some '$')
    (hindexes : ∀ user ∈ users, ∀ coll, qsoCollectionName user.username = .ok coll →
      ∃ c, (db.collection coll).createIndexes = .ok c) :
    (∃ report db', migrateSharedQsosToUserCollections users false db = .ok report db' ∧
      db'.docs legacyQsoCollection = db.docs legacyQsoCollection ∧
      (∃ copied : List (String × Doc), report.migrated = copied.length ∧
        ∀ coll, db'.docs coll = db.docs coll ++ copiedTo copied coll ∧
          ∀ d ∈ copiedTo copied coll, d ∈ db.docs legacyQsoCollection ∧
            ∃ user, usersByCallsign users (operatorKey d) = [user] ∧
              qsoCollectionName user.username = .ok coll) ∧
      (∀ doc ∈ db.docs legacyQsoCollection, "" ∉ doc → ∀ user coll,
        usersByCallsign users (operatorKey doc) = [user] →
        qsoCollectionName user.username = .ok coll →
        doc ∈ db'.docs coll ∨ (∃ e ∈ db.docs coll, e["_id"]? = doc["_id"]?) ∨
          ∃ e ∈ db'.docs coll, Doc.clash "rowHash" e doc = true) ∧
      report.scanned = (db.docs legacyQsoCollection).length ∧
      report.scanned = report.migrated + report.alreadyPresent + report.unresolved.length +
        report.ambiguous.length + report.conflicts.length + report.failed.length ∧
      ∃ report', migrateSharedQsosToUserCollections users false db' = .ok report' db' ∧
        report'.migrated = 0) ∧
    ∃ report, migrateSharedQsosToUserCollections users true db = .ok report db := by
  have hnames' : ∀ user ∈ users, ∃ coll, getUserQsoCollection user.username = .ok coll := by
    intro user huser
    obtain ⟨coll, hcoll⟩ := hnames user huser
    exact ⟨⟨coll, collectionNameOk_of_user hcoll⟩, getUserQsoCollection_eq_ok.2 hcoll⟩
  refine ⟨?_, migrate_dry hnames' db⟩
  have hready : ∀ doc ∈ db.docs legacyQsoCollection, Ready users db doc := by
    intro doc _ user huser
    have hmem := mem_of_usersByCallsign huser
    obtain ⟨coll, hcoll⟩ := hnames' user hmem
    obtain ⟨c, hc⟩ := hindexes user hmem coll.1 (getUserQsoCollection_eq_ok.1 hcoll)
    obtain ⟨hdocs, hunique, -⟩ := Collection.createIndexes_eq_ok hc
    refine ⟨coll, hcoll, ?_⟩
    rw [Indexable, Database.docs, ← hdocs]
    exact c.hashes_distinct hunique
  obtain ⟨report, db', hrun, s, rfl, h⟩ := exists_migrate hready
  have hagain := migrate_again users db
  rw [wp, hrun] at hagain
  obtain ⟨copied, hlength, hcopied⟩ := h.added
  have hfrom : ∀ coll, ∀ d ∈ copiedTo copied coll, d ∈ db.docs legacyQsoCollection ∧
      ∃ user, usersByCallsign users (operatorKey d) = [user] ∧
        qsoCollectionName user.username = .ok coll := by
    intro coll d hd
    obtain ⟨added, hadded, hfrom⟩ := docs_eq_of_writes h.writes coll
    rw [hcopied coll, List.append_cancel_left_eq] at hadded
    obtain ⟨doc, hdoc, own, rfl, ⟨user, huser, hown⟩, hcopies⟩ := hfrom d (hadded ▸ hd)
    obtain rfl := hcopies.eq ((db.collection legacyQsoCollection).docs_stored doc hdoc)
      ((db.collection legacyQsoCollection).ids_present doc hdoc) (hdot doc hdoc)
    exact ⟨hdoc, user, huser, getUserQsoCollection_eq_ok.1 hown⟩
  refine ⟨s.report, db', hrun, congrArg Collection.docs (legacy_eq_of_writes h.writes),
    ⟨copied, hlength.symm, fun coll ↦ ⟨hcopied coll, hfrom coll⟩⟩, ?_, h.scanned,
    h.scanned.trans h.settled.symm, hagain⟩
  intro doc hdoc hempty user coll huser hcoll
  have hplain : ∀ k ∈ doc, PlainKey k := fun k hk ↦
    ⟨fun heq ↦ hempty (heq ▸ hk), hdot doc hdoc k hk, hdollar doc hdoc k hk⟩
  have hbelongs : BelongsTo users doc ⟨coll, collectionNameOk_of_user hcoll⟩ :=
    ⟨user, huser, getUserQsoCollection_eq_ok.2 hcoll⟩
  obtain ⟨e, he, hid⟩ | hclash := h.arrived doc hdoc _ hbelongs doc (copies_of_plain hdoc hplain)
  · have hmem : e ∈ db.docs coll ++ copiedTo copied coll := by
      rw [← hcopied]
      exact he
    obtain hold | hnew := List.mem_append.1 hmem
    · exact .inr (.inl ⟨e, hold, hid⟩)
    · obtain rfl := Collection.eq_of_id_eq (hfrom coll e hnew).1 hdoc hid
      exact .inl he
  · exact .inr (.inr hclash)

end

section

attribute [local instance] UnicodeData.ascii

/-- Three users, two of whom have the same callsign. -/
def Sample.operators : List User :=
  [Sample.owner, { username := "k2xy", callsign := "K2XY" },
    { username := "k2xy_club", callsign := "k2xy" }]

/-- Three shared QSOs: of an operator who is one user, of one who is two, and of one who is none. -/
def Sample.threeShared : List Doc :=
  [Sample.sharedDoc, (((∅ : Doc).insert "_id" (.oid ⟨2⟩)).insert "_operator" (.str "K2XY")).insert
    "CALL" (.str "K1ABC"), ((∅ : Doc).insert "_id" (.oid ⟨3⟩)).insert "_operator" (.str "N0NE")]

/-- The first is copied, the second is ambiguous, and the third unresolved. -/
theorem migrate_faithful_of_three_contacts :
    ∃ report db', migrateSharedQsosToUserCollections Sample.operators false
      (Sample.shared Sample.threeShared) = .ok report db' ∧
      db'.docs "w1aw_qsos" = [Sample.sharedDoc] ∧ report.scanned = 3 ∧ report.migrated = 1 ∧
      report.ambiguous.map (·.usernames) = [["k2xy", "k2xy_club"]] ∧
      report.unresolved.map (·.reason) = ["unknown_operator"] ∧ report.alreadyPresent = 0 ∧
      report.conflicts.length = 0 ∧ report.failed.length = 0 := by
  have hdocs : (Sample.shared Sample.threeShared).docs legacyQsoCollection = Sample.threeShared := by
    decide +kernel
  have hkeys : ∀ doc ∈ Sample.threeShared, ∀ k ∈ doc.keys,
      '.' ∉ k.toList ∧ k.toList.head? ≠ some '$' := by decide +kernel
  have hempty : ∀ user ∈ Sample.operators, qsoCollectionName user.username =
      .ok (user.username ++ "_qsos") ∧
      ((Sample.shared Sample.threeShared).collection (user.username ++ "_qsos")).docs = [] := by
    decide +kernel
  obtain ⟨⟨report, db', hrun, -⟩, -⟩ :=
    migrate_faithful Sample.operators (Sample.shared Sample.threeShared)
      (fun user huser ↦ ⟨_, (hempty user huser).1⟩)
      (fun doc hdoc k hk ↦ (hkeys doc (hdocs ▸ hdoc) k (Std.ExtTreeMap.mem_keys.2 hk)).1)
      (fun doc hdoc k hk ↦ (hkeys doc (hdocs ▸ hdoc) k (Std.ExtTreeMap.mem_keys.2 hk)).2)
      fun user huser coll hcoll ↦ by
        rw [(hempty user huser).1, Except.ok.injEq] at hcoll
        refine Collection.exists_createIndexes ?_
        rw [← hcoll, (hempty user huser).2]
        exact .nil
  refine ⟨report, db', hrun, ?_⟩
  have hcounts : (match migrateSharedQsosToUserCollections Sample.operators false
      (Sample.shared Sample.threeShared) with
    | .ok report db' => decide (db'.docs "w1aw_qsos" = [Sample.sharedDoc] ∧ report.scanned = 3 ∧
        report.migrated = 1 ∧ report.ambiguous.map (·.usernames) = [["k2xy", "k2xy_club"]] ∧
        report.unresolved.map (·.reason) = ["unknown_operator"] ∧ report.alreadyPresent = 0 ∧
        report.conflicts.length = 0 ∧ report.failed.length = 0)
    | .error _ _ => false) = true := by decide +kernel
  rw [hrun] at hcounts
  exact of_decide_eq_true hcounts

end

end Ollog
