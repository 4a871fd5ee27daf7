import Ollog.Bson.Database

/-!
# Backup and restore

A backup is a text of lines, one for each document of the database, and each line says which
collection its document is from.  Restoring reads the whole file first, groups the documents by
collection, and then drops and refills *these* collections.  A collection without documents has no
lines, so a restore never hears of it: what it holds by then stays.  `restore_iff` says that this
is the only way in which a restored database can differ from the one that was backed up.
-/

set_option autoImplicit false

namespace Ollog

open Effects

/-- `bson.json_util`. -/
structure JsonUtil where
  /-- `dumps(value, json_options=CANONICAL_JSON_OPTIONS)`. -/
  dumps : Value → String
  loads : String → Except PyErr Value

/-! ## Writing -/

/-- What one line says. -/
def backupRecord (collName : String) (doc : Doc) : Value :=
  .dict [("collection", .str collName), ("doc", .dict doc.toList)]

/-- `_write_backup`: the text that is compressed. -/
def writeBackup (json : JsonUtil) (db : Database) : List Char :=
  db.collectionNames.flatMap fun collName ↦ (db.docs collName).flatMap fun doc ↦
    (json.dumps (backupRecord collName doc)).toList ++ ['\n']

/-! ## Reading -/

/-- What a text file yields: its line ends are all read as `'\n'`. -/
def universalNewlines : List Char → List Char
  | [] => []
  | '\r' :: '\n' :: cs => '\n' :: universalNewlines cs
  | '\r' :: cs => '\n' :: universalNewlines cs
  | c :: cs => c :: universalNewlines cs

/-- `v[k]`. -/
def subscript (v : Value) (k : String) : Except PyErr Value :=
  match v with
  | .dict fields =>
    match fields.lookup k with
    | some w => .ok w
    | none => .error (.keyError k)
  | .list _ => .error (.typeError "list indices must be integers or slices, not str")
  | .str _ => .error (.typeError "string indices must be integers, not 'str'")
  | v => .error (.typeError ("'" ++ typeName v ++ "' object is not subscriptable"))

/-- Whether a value can be a key of a dictionary. -/
def checkHashable (v : Value) : Except PyErr Unit :=
  match v with
  | .list _ | .dict _ => .error (.typeError ("unhashable type: '" ++ typeName v ++ "'"))
  | _ => .ok ()

/-- `docs_by_collection`, in the order of the dictionary. -/
abbrev DocsByCollection := List (Value × List Value)

/-- `docs_by_collection.setdefault(coll, []).append(doc)`. -/
def appendDoc (coll doc : Value) : DocsByCollection → DocsByCollection
  | [] => [(coll, [doc])]
  | (c, docs) :: rest =>
    if c = coll then (c, docs ++ [doc]) :: rest else (c, docs) :: appendDoc coll doc rest

/-- One round of the reading loop. -/
def readLine (json : JsonUtil) (docsByCollection : DocsByCollection) (line : List Char) :
    Except PyErr DocsByCollection :=
  let line := strip (String.ofList line)
  if line = "" then .ok docsByCollection
  else do
    let record ← json.loads line
    let coll ← subscript record "collection"
    let doc ← subscript record "doc"
    checkHashable coll
    return appendDoc coll doc docsByCollection

/-- The reading half of `_restore_from_file`. -/
def readBackup (json : JsonUtil) (text : List Char) : Except PyErr DocsByCollection :=
  (splitChars '\n' (universalNewlines text)).foldlM (readLine json) []

/-! ## Restoring -/

/-- The driver, where a backup does not decide what it does. -/
structure Driver where
  newId : Nat → ObjectId
  /-- `max_write_batch_size`, how many documents go into one message. -/
  maxWriteBatchSize : Nat
  /-- Whether a document, once it is encoded, still goes into a message with these: a message has
  `max_message_size` bytes. -/
  fits : List Doc → Doc → Bool

/-- The driver takes nothing but mappings for documents. -/
def asDocument : Value → Except PyErr Doc
  | .dict fields => .ok (.ofList fields)
  | _ => .error (.typeError "document must be an instance of dict")

/-- The driver adds the `_id` a document lacks. -/
def withId (oid : ObjectId) (doc : Doc) : Doc :=
  if "_id" ∈ doc then doc else doc.insert "_id" (.oid oid)

/-- A message is sent.  The server stops at the first document it refuses. -/
def sendBatch (batch : List Doc) : Db Unit :=
  tryCatch (batch.forM insertOne) fun _ ↦ throw (.bulkWriteError "batch op errors occurred")

/-- The driver encodes one document after another into a message, which it sends when it is full,
and at the end. -/
def sendBatches (driver : Driver) (batch : List Doc) : List Doc → Db Unit
  | [] => sendBatch batch
  | doc :: docs =>
    if batch.length = driver.maxWriteBatchSize then do
      sendBatch batch
      if doc.encodable then sendBatches driver [doc] docs else throw Collection.encodeError
    else if doc.encodable then
      if batch.isEmpty || driver.fits batch doc then sendBatches driver (batch ++ [doc]) docs
      else do
        sendBatch batch
        sendBatches driver [doc] docs
    else throw Collection.encodeError

/-- `insert_many(docs)`. -/
def insertMany (driver : Driver) (docs : List Value) : Db Unit := do
  let docs ← ofExcept (docs.mapM asDocument)
  sendBatches driver [] (docs.zipIdx.map fun (doc, i) ↦ withId (driver.newId i) doc)

/-- One round of the writing loop. -/
def restoreCollection (driver : Driver) (item : Value × List Value) :
    EStateM PyErr Database Unit :=
  match item.1 with
  | .str collName =>
    if hname : collectionNameOk collName = true then do
      modify fun db ↦ db.drop collName
      if item.2 ≠ [] then Database.on collName hname (insertMany driver item.2)
    else throw (.invalidName collName)
  | _ => throw (.typeError "name must be an instance of str")

/-- `_restore_from_file`. -/
def restoreFromFile (json : JsonUtil) (driver : Driver) (text : List Char) :
    EStateM PyErr Database Unit := do
  let docsByCollection ← ofExcept (readBackup json text)
  docsByCollection.forM (restoreCollection driver)

/-! ## The file -/

/-- What `json_util` is relied on for: a document that is dumped fits on a line, has no white space
around it, and is read back as it was. -/
structure JsonUtil.RoundTrips (json : JsonUtil) (record : Value) : Prop where
  loads_dumps : json.loads (json.dumps record) = .ok record
  newline : '\n' ∉ (json.dumps record).toList
  carriageReturn : '\r' ∉ (json.dumps record).toList
  strip_dumps : strip (json.dumps record) = json.dumps record
  dumps_ne : json.dumps record ≠ ""

/-- Every document of a database can be dumped. -/
def JsonUtil.Dumps (json : JsonUtil) (db : Database) : Prop :=
  ∀ coll ∈ db.collectionNames, ∀ doc ∈ db.docs coll, json.RoundTrips (backupRecord coll doc)

theorem universalNewlines_of_notMem {cs : List Char} (h : '\r' ∉ cs) :
    universalNewlines cs = cs := by
  induction cs using universalNewlines.induct with
  | case1 => rfl
  | case2 cs ih => exact absurd (List.mem_cons_self ..) h
  | case3 cs _ ih => exact absurd (List.mem_cons_self ..) h
  | case4 c cs _ _ ih =>
    rw [universalNewlines, ih fun hcs ↦ h (List.mem_cons_of_mem _ hcs)] <;> assumption

/-- The file, as a list of lines. -/
theorem splitChars_lines {lines : List (List Char)} (h : ∀ line ∈ lines, '\n' ∉ line) :
    splitChars '\n' (lines.flatMap (· ++ ['\n'])) = lines ++ [[]] := by
  induction lines with
  | nil => rfl
  | cons line lines ih =>
    obtain ⟨hline, hlines⟩ := List.forall_mem_cons.1 h
    rw [List.flatMap_cons, List.append_assoc, List.singleton_append,
      splitChars_append_cons hline, ih hlines, List.cons_append]

/-- What the lines of a file say, in their order. -/
def backupRecords (db : Database) : List (String × Doc) :=
  db.collectionNames.flatMap fun coll ↦ (db.docs coll).map fun doc ↦ (coll, doc)

theorem writeBackup_eq (json : JsonUtil) (db : Database) : writeBackup json db =
    ((backupRecords db).map fun r ↦ (json.dumps (backupRecord r.1 r.2)).toList).flatMap
      (· ++ ['\n']) := by
  simp only [writeBackup, backupRecords, List.map_flatMap, List.flatMap_map, List.flatMap_assoc,
    List.map_map, Function.comp_def]

theorem readLine_dumps {json : JsonUtil} {coll : String} {doc : Doc}
    (h : json.RoundTrips (backupRecord coll doc)) (docsByCollection : DocsByCollection) :
    readLine json docsByCollection (json.dumps (backupRecord coll doc)).toList =
      .ok (appendDoc (.str coll) (.dict doc.toList) docsByCollection) := by
  rw [readLine, String.ofList_toList, h.strip_dumps, if_neg h.dumps_ne, h.loads_dumps]
  rfl

/-- **Reading back what was written.** -/
theorem readBackup_writeBackup {json : JsonUtil} {db : Database} (h : json.Dumps db) :
    readBackup json (writeBackup json db) = .ok ((backupRecords db).foldl
      (fun docsByCollection r ↦ appendDoc (.str r.1) (.dict r.2.toList) docsByCollection) []) := by
  have hrecord : ∀ r ∈ backupRecords db, json.RoundTrips (backupRecord r.1 r.2) := by
    intro r hr
    obtain ⟨coll, hcoll, hr⟩ := List.mem_flatMap.1 hr
    obtain ⟨doc, hdoc, rfl⟩ := List.mem_map.1 hr
    exact h coll hcoll doc hdoc
  have hlines : ∀ line ∈ (backupRecords db).map fun r ↦
      (json.dumps (backupRecord r.1 r.2)).toList, '\n' ∉ line ∧ '\r' ∉ line := by
    intro line hline
    obtain ⟨r, hr, rfl⟩ := List.mem_map.1 hline
    exact ⟨(hrecord r hr).newline, (hrecord r hr).carriageReturn⟩
  have hreturn : '\r' ∉ writeBackup json db := by
    rw [writeBackup_eq, List.mem_flatMap]
    rintro ⟨line, hline, hmem⟩
    rcases List.mem_append.1 hmem with hmem | hmem
    · exact (hlines line hline).2 hmem
    · simp at hmem
  rw [readBackup, universalNewlines_of_notMem hreturn, writeBackup_eq,
    splitChars_lines fun line hline ↦ (hlines line hline).1, List.foldlM_append]
  generalize ([] : DocsByCollection) = acc
  generalize backupRecords db = records at hrecord
  clear hlines hreturn
  induction records generalizing acc with
  | nil => rfl
  | cons r records ih =>
    obtain ⟨hr, hrecords⟩ := List.forall_mem_cons.1 hrecord
    rw [List.map_cons, List.foldlM_cons, readLine_dumps hr, List.foldl_cons]
    exact ih _ hrecords

/-! ## Grouping -/

/-- Documents, as `loads` returns them. -/
def loaded (docs : List Doc) : List Value := docs.map fun doc ↦ .dict doc.toList

/-- What a restore hears of some collections. -/
def backupItems (db : Database) (colls : List String) : DocsByCollection :=
  (colls.filter fun coll ↦ db.docs coll ≠ []).map fun coll ↦ (.str coll, loaded (db.docs coll))

theorem appendDoc_of_notMem {coll doc : Value} {acc : DocsByCollection}
    (h : ∀ item ∈ acc, item.1 ≠ coll) : appendDoc coll doc acc = acc ++ [(coll, [doc])] := by
  induction acc with
  | nil => rfl
  | cons item acc ih =>
    obtain ⟨hitem, hacc⟩ := List.forall_mem_cons.1 h
    rw [appendDoc, if_neg hitem, ih hacc, List.cons_append]

theorem appendDoc_append {coll doc : Value} {docs : List Value} {acc : DocsByCollection}
    (h : ∀ item ∈ acc, item.1 ≠ coll) :
    appendDoc coll doc (acc ++ [(coll, docs)]) = acc ++ [(coll, docs ++ [doc])] := by
  induction acc with
  | nil => exact if_pos rfl
  | cons item acc ih =>
    obtain ⟨hitem, hacc⟩ := List.forall_mem_cons.1 h
    rw [List.cons_append, appendDoc, if_neg hitem, ih hacc, List.cons_append]

/-- The documents of one collection end up in one item. -/
theorem foldl_appendDoc {coll : Value} {acc : DocsByCollection}
    (h : ∀ item ∈ acc, item.1 ≠ coll) (docs : List Value) :
    docs.foldl (fun acc doc ↦ appendDoc coll doc acc) acc =
      acc ++ if docs = [] then [] else [(coll, docs)] := by
  have hrest : ∀ (docs seen : List Value),
      docs.foldl (fun acc doc ↦ appendDoc coll doc acc) (acc ++ [(coll, seen)]) =
        acc ++ [(coll, seen ++ docs)] := by
    intro docs
    induction docs with
    | nil => intro seen; rw [List.foldl_nil, List.append_nil]
    | cons doc docs ih =>
      intro seen
      rw [List.foldl_cons, appendDoc_append h, ih, List.append_assoc, List.singleton_append]
  cases docs with
  | nil => rw [List.foldl_nil, if_pos rfl, List.append_nil]
  | cons doc docs =>
    rw [List.foldl_cons, appendDoc_of_notMem h, hrest, if_neg (List.cons_ne_nil _ _),
      List.singleton_append]

theorem foldl_records {db : Database} {colls : List String} (hcolls : colls.Nodup)
    {acc : DocsByCollection} (hacc : ∀ item ∈ acc, ∀ coll ∈ colls, item.1 ≠ .str coll) :
    (colls.flatMap fun coll ↦ (db.docs coll).map fun doc ↦ (coll, doc)).foldl
      (fun docsByCollection r ↦ appendDoc (.str r.1) (.dict r.2.toList) docsByCollection) acc =
        acc ++ backupItems db colls := by
  induction colls generalizing acc with
  | nil => rw [List.flatMap_nil, List.foldl_nil, backupItems, List.filter_nil, List.map_nil,
      List.append_nil]
  | cons coll colls ih =>
    obtain ⟨hcoll, hcolls⟩ := List.nodup_cons.1 hcolls
    have hgroup := foldl_appendDoc (fun item hitem ↦ hacc item hitem coll (List.mem_cons_self ..))
      (loaded (db.docs coll))
    rw [loaded, List.foldl_map] at hgroup
    rw [List.flatMap_cons, List.foldl_append, List.foldl_map, hgroup, ih hcolls ?_, backupItems,
      backupItems, List.filter_cons]
    · by_cases hdocs : db.docs coll = []
      · simp [hdocs]
      · simp [hdocs, loaded]
    · intro item hitem other hother
      rcases List.mem_append.1 hitem with hitem | hitem
      · exact hacc item hitem other (List.mem_cons_of_mem _ hother)
      · split at hitem
        · exact absurd hitem List.not_mem_nil
        · rw [List.mem_singleton.1 hitem]
          rintro ⟨⟩
          exact hcoll hother

/-! ## Refilling -/

/-- The documents of the messages that are sent, if the server takes them all. -/
def delivered (driver : Driver) (batch : List Doc) : List Doc → List Doc
  | [] => batch
  | doc :: docs =>
    if batch.length = driver.maxWriteBatchSize then
      batch ++ if doc.encodable then delivered driver [doc] docs else []
    else if doc.encodable then
      if batch.isEmpty || driver.fits batch doc then delivered driver (batch ++ [doc]) docs
      else batch ++ delivered driver [doc] docs
    else []

/-- Where every document can be encoded, all are delivered. -/
theorem delivered_of_encodable {driver : Driver} {batch docs : List Doc}
    (h : docs.all Doc.encodable = true) : delivered driver batch docs = batch ++ docs := by
  induction docs generalizing batch with
  | nil => exact (List.append_nil _).symm
  | cons doc docs ih =>
    obtain ⟨hdoc, hdocs⟩ := Bool.and_eq_true_iff.1 (List.all_cons ▸ h)
    rw [delivered, if_pos hdoc, if_pos hdoc]
    simp only [ih hdocs, List.append_assoc, List.singleton_append, ite_self]

theorem sendBatch_append (xs ys : List Doc) :
    sendBatch (xs ++ ys) = (do sendBatch xs; sendBatch ys) := by
  funext c
  have hfirst : (xs ++ ys).forM insertOne = (do xs.forM insertOne; ys.forM insertOne) :=
    List.forM_append
  simp only [sendBatch, hfirst, tryCatch, tryCatchThe, MonadExceptOf.tryCatch, EStateM.tryCatch,
    bind, EStateM.bind]
  cases xs.forM insertOne c with
  | ok _ c' => rfl
  | error exc c' => rfl

/-- **What the messages come to**: the documents that are delivered are inserted one after another,
and then the driver raises if it has not delivered all. -/
theorem sendBatches_eq {driver : Driver} {batch docs : List Doc} :
    sendBatches driver batch docs = (do
      sendBatch (delivered driver batch docs)
      if docs.all Doc.encodable then pure () else throw Collection.encodeError) := by
  induction docs generalizing batch with
  | nil => exact (bind_pure_unit ..).symm
  | cons doc docs ih =>
    have hnone : (do sendBatch batch; throw Collection.encodeError : Db Unit) = (do
        sendBatch (batch ++ []); if false = true then pure () else throw Collection.encodeError) := by
      rw [List.append_nil]
      rfl
    rw [sendBatches, delivered, List.all_cons]
    cases doc.encodable with
    | false =>
      simp only [Bool.false_and]
      split
      · exact hnone
      · rfl
    | true =>
      simp only [if_true, Bool.true_and]
      split
      · rw [ih, sendBatch_append, bind_assoc]
      · split
        · exact ih
        · rw [ih, sendBatch_append, bind_assoc]

theorem withId_of_mem {oid : ObjectId} {doc : Doc} (h : doc["_id"]?.isSome = true) :
    withId oid doc = doc :=
  if_pos (Std.ExtTreeMap.isSome_getElem?_iff_mem.1 h)

/-- The documents of a collection can be inserted again, all of them, where there are none. -/
theorem wp_forM_insertOne {docs : List Doc} {c : Collection} (hindex : c.rowHashUnique = false)
    (hstored : ∀ doc ∈ docs, doc.Stored ∧ doc["_id"]?.isSome = true ∧
      Doc.idOk (doc["_id"]?.getD .null) = true)
    (hdistinct : (c.docs ++ docs).Pairwise fun d e ↦ Doc.clash "_id" d e = false) :
    wp (docs.forM insertOne) (fun _ c' ↦ c'.docs = c.docs ++ docs) (fun _ _ ↦ False) c := by
  induction docs generalizing c with
  | nil => exact (List.append_nil _).symm
  | cons doc docs ih =>
    obtain ⟨⟨hdoc, hid, hok⟩, hdocs⟩ := List.forall_mem_cons.1 hstored
    obtain ⟨c', hc'⟩ := Collection.exists_insert_of_stored hdoc hid hok
      (fun e he ↦ (List.pairwise_append.1 hdistinct).2.2 e he doc (List.mem_cons_self ..))
      (by rw [Collection.refuses, hindex, Bool.false_and])
    obtain ⟨hinserted, hunique⟩ := Collection.insert_eq_ok hc'
    rw [hdoc.toStored_eq] at hinserted
    have hcons : c.docs ++ doc :: docs = c'.docs ++ docs := by
      rw [hinserted, List.append_assoc, List.singleton_append]
    rw [hcons] at hdistinct ⊢
    have hforM : (doc :: docs).forM insertOne = (do insertOne doc; docs.forM insertOne) := rfl
    rw [hforM, wp_bind, wp_insertOne]
    refine ⟨fun c'' hc'' ↦ ?_, fun e he ↦ (by cases hc'.symm.trans he)⟩
    obtain rfl := Except.ok.inj (hc'.symm.trans hc'')
    exact ih (hunique.trans hindex) hdocs hdistinct

theorem mapM_asDocument (docs : List Doc) :
    (loaded docs).mapM asDocument = .ok docs := by
  induction docs with
  | nil => rfl
  | cons doc docs ih =>
    have hdoc : asDocument (.dict doc.toList) = .ok doc :=
      congrArg Except.ok (Doc.ofList_toList doc)
    rw [loaded, List.map_cons, List.mapM_cons, hdoc, ← loaded, ih]
    rfl

theorem wp_insertMany {driver : Driver} {c : Collection} {fullName : String} :
    wp (insertMany driver (loaded c.docs)) (fun _ c' ↦ c'.docs = c.docs) (fun _ _ ↦ False)
      (.empty fullName false) := by
  have hids : (c.docs.zipIdx.map fun (doc, i) ↦ withId (driver.newId i) doc) = c.docs := by
    refine .trans (List.map_congr_left fun p hp ↦ ?_) (List.zipIdx_map_fst 0 c.docs)
    exact withId_of_mem (c.ids_present p.1 (List.fst_mem_of_mem_zipIdx hp))
  have henc : c.docs.all Doc.encodable = true :=
    List.all_eq_true.2 fun doc hdoc ↦ (c.docs_stored doc hdoc).encodable
  have hinsert := wp_forM_insertOne (c := .empty fullName false) rfl
    (fun doc hdoc ↦ ⟨c.docs_stored doc hdoc, c.ids_present doc hdoc, c.ids_ok doc hdoc⟩)
    c.ids_distinct
  simp only [insertMany, wp_bind, wp_ofExcept, mapM_asDocument, Except.ok.injEq, forall_eq',
    reduceCtorEq, false_imp_iff, implies_true, and_true, hids, sendBatches_eq,
    delivered_of_encodable henc, List.nil_append, henc, if_true, sendBatch, wp_tryCatch]
  exact wp_mono hinsert (fun _ _ h ↦ h) fun _ _ h ↦ absurd h id

/-- **One collection is restored**, and the others are left alone. -/
theorem wp_restoreCollection {driver : Driver} {coll : String} {saved db : Database}
    (hname : collectionNameOk coll = true) (hdocs : saved.docs coll ≠ []) :
    wp (restoreCollection driver (.str coll, loaded (saved.docs coll)))
      (fun _ db' ↦ ∀ other, db'.docs other = if other = coll then saved.docs coll else db.docs other)
      (fun _ _ ↦ False) db := by
  have hrestore : restoreCollection driver (.str coll, loaded (saved.docs coll)) = (do
      modify fun db ↦ db.drop coll
      if loaded (saved.docs coll) ≠ [] then
        Database.on coll hname (insertMany driver (loaded (saved.docs coll)))) :=
    dif_pos hname
  rw [hrestore, wp_bind, wp_modify, if_pos (by simpa [loaded] using hdocs), Database.wp_on,
    Database.collection_drop]
  refine wp_mono wp_insertMany (fun _ c' hc' other ↦ ?_) fun _ _ h ↦ h
  unfold Database.docs
  split
  · rename_i heq
    rw [heq, Database.collection_put, hc']
  · rename_i hne
    rw [Database.collection_put_of_ne hne, Database.collection_drop_of_ne hne]

theorem wp_restoreCollections {driver : Driver} {saved db : Database} {colls : List String}
    (hnames : ∀ coll ∈ colls, collectionNameOk coll = true) :
    wp ((backupItems saved colls).forM (restoreCollection driver))
      (fun _ db' ↦ ∀ coll, db'.docs coll =
        if coll ∈ colls ∧ saved.docs coll ≠ [] then saved.docs coll else db.docs coll)
      (fun _ _ ↦ False) db := by
  induction colls generalizing db with
  | nil => exact fun coll ↦ (if_neg fun h ↦ List.not_mem_nil h.1).symm
  | cons coll colls ih =>
    obtain ⟨hname, hnames⟩ := List.forall_mem_cons.1 hnames
    by_cases hdocs : saved.docs coll = []
    · have hitems : backupItems saved (coll :: colls) = backupItems saved colls := by
        rw [backupItems, List.filter_cons_of_neg (by simpa using hdocs)]
        rfl
      rw [hitems]
      refine wp_mono (ih hnames) (fun _ db' h other ↦ ?_) fun _ _ h ↦ h
      rw [h other]
      by_cases heq : other = coll
      · rw [heq, if_neg fun h ↦ h.2 hdocs, if_neg fun h ↦ h.2 hdocs]
      · simp only [List.mem_cons, heq, false_or]
    · have hitems : backupItems saved (coll :: colls) =
          (.str coll, loaded (saved.docs coll)) :: backupItems saved colls := by
        rw [backupItems, List.filter_cons_of_pos (by simpa using hdocs)]
        rfl
      have hforM : ∀ item items, List.forM (item :: items) (restoreCollection driver) =
          (do restoreCollection driver item; List.forM items (restoreCollection driver)) :=
        fun _ _ ↦ rfl
      rw [hitems, hforM, wp_bind]
      refine wp_mono (wp_restoreCollection hname hdocs) (fun _ db' h ↦ ?_) fun _ _ h ↦ h
      refine wp_mono (ih hnames) (fun _ db'' h' other ↦ ?_) fun _ _ h ↦ h
      rw [h' other, h other]
      by_cases heq : other = coll
      · subst heq
        rw [if_pos rfl, ite_self, if_pos ⟨List.mem_cons_self .., hdocs⟩]
      · simp only [List.mem_cons, heq, false_or, if_false]

/-- **What a restore leaves**: the collections that had documents have them again, and the others
have what they had before the restore. -/
theorem wp_restoreFromFile {json : JsonUtil} {saved : Database} (h : json.Dumps saved)
    (driver : Driver) (db : Database) : wp (restoreFromFile json driver (writeBackup json saved))
      (fun _ db' ↦ ∀ coll, db'.docs coll =
        if saved.docs coll ≠ [] then saved.docs coll else db.docs coll) (fun _ _ ↦ False) db := by
  have hnodup : saved.collectionNames.Nodup := Std.ExtTreeMap.nodup_keys
  have hread : readBackup json (writeBackup json saved) =
      .ok (backupItems saved saved.collectionNames) := by
    rw [readBackup_writeBackup h, backupRecords,
      foldl_records hnodup fun _ hitem ↦ absurd hitem List.not_mem_nil, List.nil_append]
  rw [restoreFromFile, wp_bind, wp_ofExcept, hread]
  refine ⟨fun items hitems ↦ ?_, fun _ hexc ↦ (nomatch hexc)⟩
  cases hitems
  refine wp_mono (wp_restoreCollections fun _ ↦ Database.nameOk_of_mem) (fun _ db' h coll ↦ ?_)
    fun _ _ h ↦ h
  rw [h coll]
  by_cases hcoll : coll ∈ saved.collectionNames
  · simp only [hcoll, true_and]
  · rw [if_neg fun h ↦ hcoll h.1, if_neg (not_not.2 (Database.docs_of_notMem hcoll))]

/-! ## Restoring undoes everything since the backup -/

/-- **Restoring** a backup succeeds and leaves exactly the documents of the database that was
backed up, if and only if nothing is stored by then in a collection that was empty. -/
theorem restore_iff {json : JsonUtil} {driver : Driver} {saved db : Database}
    (h : json.Dumps saved) :
    (∃ db', restoreFromFile json driver (writeBackup json saved) db = .ok () db' ∧
      ∀ coll, db'.docs coll = saved.docs coll) ↔
    ∀ coll, saved.docs coll = [] → db.docs coll = [] := by
  have hrestore := wp_restoreFromFile h driver db
  rw [wp] at hrestore
  cases hresult : restoreFromFile json driver (writeBackup json saved) db with
  | error exc db' =>
    rw [hresult] at hrestore
    exact absurd hrestore id
  | ok _ db' =>
    rw [hresult] at hrestore
    constructor
    · rintro ⟨_, hok, hsame⟩ coll hempty
      cases hok
      rw [← hempty, ← hsame coll, hrestore coll, if_neg (not_not.2 hempty)]
    · intro hempty
      refine ⟨db', rfl, fun coll ↦ ?_⟩
      rw [hrestore coll]
      split
      · rfl
      · rename_i hnone
        rw [hempty coll (not_not.1 hnone), not_not.1 hnone]

namespace Sample

/-- A small document. -/
def doc (n : Nat) : Doc :=
  ((∅ : Doc).insert "_id" (.oid ⟨BitVec.ofNat 96 n⟩)).insert "CALL" (.str "K1ABC")

/-- A collection of small documents. -/
def docs (fullName : String) (ns : List Nat) : Collection :=
  ns.foldl (fun c n ↦ match c.insert (doc n) with
    | .ok c' => c'
    | .error _ => c) (.empty fullName false)

/-- A database with one contact. -/
def saved : Database :=
  Database.put ⟨"ollog", ∅, Database.names_ok_empty⟩ "w1aw_qsos" (by decide) (docs "ollog.w1aw_qsos" [1])

/-- The same database with a second contact. -/
def grown : Database := saved.put "w1aw_qsos" (by decide) (docs "ollog.w1aw_qsos" [1, 2])

/-- The same database with the first contact of a second user. -/
def joined : Database := saved.put "k1abc_qsos" (by decide) (docs "ollog.k1abc_qsos" [3])

/-- The line of the contact. -/
def line : String := "\x7b\"collection\": \"w1aw_qsos\", \"doc\": \x7b\"CALL\": \"K1ABC\", " ++
  "\"_id\": \x7b\"$oid\": \"000000000000000000000001\"\x7d\x7d\x7d"

/-- `json_util`, as far as that line goes. -/
def json : JsonUtil where
  dumps v := if v = backupRecord "w1aw_qsos" (doc 1) then line else ""
  loads text := if text = line then .ok (backupRecord "w1aw_qsos" (doc 1))
    else .error (.valueError "Expecting value: line 1 column 1 (char 0)")

/-- A driver, for documents that fit into one message. -/
def driver : Driver where
  newId n := ⟨BitVec.ofNat 96 (n + 100)⟩
  maxWriteBatchSize := 100000
  fits _ _ := true

theorem json_dumps : json.Dumps saved := by
  have hnames : saved.collectionNames = ["w1aw_qsos"] := by decide +kernel
  have hdocs : saved.docs "w1aw_qsos" = [doc 1] := by decide +kernel
  intro coll hcoll d hd
  rw [hnames, List.mem_singleton] at hcoll
  subst hcoll
  rw [hdocs, List.mem_singleton] at hd
  subst hd
  have hline : json.dumps (backupRecord "w1aw_qsos" (doc 1)) = line := by simp only [json, if_true]
  constructor <;> rw [hline]
  · simp only [json, if_true]
  all_goals decide +kernel

end Sample

theorem restore_undoes_insert : ∃ db', restoreFromFile Sample.json Sample.driver
    (writeBackup Sample.json Sample.saved) Sample.grown = .ok () db' ∧
      ∀ coll, db'.docs coll = Sample.saved.docs coll := by
  refine (restore_iff Sample.json_dumps).2 fun coll hcoll ↦ ?_
  by_cases h : coll = "w1aw_qsos"
  · have hdocs : Sample.saved.docs "w1aw_qsos" ≠ [] := by decide +kernel
    exact absurd (h ▸ hcoll) hdocs
  · have hnames : Sample.grown.collectionNames = ["w1aw_qsos"] := by decide +kernel
    exact Database.docs_of_notMem (by simpa [hnames] using h)

/-- The log of a user who joined after the backup survives the restore. -/
theorem restore_keeps_new_log : ¬ ∃ db', restoreFromFile Sample.json Sample.driver
    (writeBackup Sample.json Sample.saved) Sample.joined = .ok () db' ∧
      ∀ coll, db'.docs coll = Sample.saved.docs coll := by
  have hkept : (match restoreFromFile Sample.json Sample.driver
      (writeBackup Sample.json Sample.saved) Sample.joined with
    | .ok _ db' => decide (db'.docs "k1abc_qsos" = Sample.saved.docs "k1abc_qsos")
    | .error _ _ => false) = false := by
    decide +kernel
  rintro ⟨db', hok, hsame⟩
  rw [hok] at hkept
  exact of_decide_eq_false hkept (hsame _)

end Ollog
