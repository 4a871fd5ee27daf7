import Ollog.Backup

/-!
# A restore that fails

The whole file is read before the first collection is dropped, so a file that cannot be read leaves
the database as it is.  From then on there is no way back: each collection of the file is dropped
and refilled in its turn, and when the server refuses a document, or the driver a name or a document,
the collections before that one have what the file says, this one has the documents before the
refused one, as far as they have been sent, and the others have what they had (`restore_error`).
-/

set_option autoImplicit false

namespace Ollog

open Effects

/-- A compressed backup: the lines it yields, and what reading on raises, if it is damaged. -/
structure BackupFile where
  text : List Char
  failure : Option PyErr

/-- The reading half of `_restore_from_file`, of a file that may be damaged. -/
def BackupFile.read (json : JsonUtil) (file : BackupFile) : Except PyErr DocsByCollection := do
  let docsByCollection ← readBackup json file.text
  match file.failure with
  | some exc => throw exc
  | none => return docsByCollection

/-- `_restore_from_file`, of a file that may be damaged. -/
def restoreFromBackup (json : JsonUtil) (driver : Driver) (file : BackupFile) :
    EStateM PyErr Database Unit := do
  let docsByCollection ← ofExcept (file.read json)
  docsByCollection.forM (restoreCollection driver)

/-! ## What is refused -/

/-- The documents of a collection as the driver prepares them, if all of them are documents. -/
def outgoing (driver : Driver) (docs : List Value) : Option (List Doc) :=
  match docs.mapM asDocument with
  | .error _ => none
  | .ok docs => some (docs.zipIdx.map fun (doc, i) ↦ withId (driver.newId i) doc)

/-- Whether the server takes a document into a driver collection, next to those it has taken. -/
def takes (taken : List Doc) (doc : Doc) : Bool :=
  (Doc.toStored doc)["_id"]?.isSome && Doc.idOk ((Doc.toStored doc)["_id"]?.getD .null) &&
    !taken.any (Doc.clash "_id" · (Doc.toStored doc))

/-- The documents before the first one that is refused. -/
def accepted (taken : List Doc) : List Doc → List Doc
  | [] => []
  | doc :: docs =>
    if takes taken doc then doc :: accepted (taken ++ [Doc.toStored doc]) docs else []

/-- Whether a collection of the file is refilled with everything the file has for it. -/
def Accepted (driver : Driver) (item : Value × List Value) : Prop :=
  ∃ coll docs, item.1 = .str coll ∧ collectionNameOk coll = true ∧
    outgoing driver item.2 = some docs ∧ docs.all Doc.encodable = true ∧ accepted [] docs = docs

/-- What a collection of the file has been refilled with: of the documents that are delivered, those
before the first one that the server refuses. -/
def contents (driver : Driver) (item : Value × List Value) : List Doc :=
  match outgoing driver item.2 with
  | none => []
  | some docs => (accepted [] (delivered driver [] docs)).map Doc.toStored

section

variable {driver : Driver} {json : JsonUtil} {file : BackupFile} {db : Database}

theorem isOk_insert {c : Collection} {doc : Doc} (hindex : c.rowHashUnique = false)
    (henc : doc.encodable = true) : (c.insert doc).isOk = takes c.docs doc := by
  unfold Collection.insert
  rw [takes]
  dsimp only
  split
  · rename_i hno
    rw [henc] at hno
    cases hno
  split
  · rename_i hid
    rw [hid, Bool.true_and]
    split
    · rename_i hok
      rw [hok]
      rfl
    · rename_i hok
      rw [Bool.not_eq_false] at hok
      rw [hok, Bool.true_and]
      split
      · rename_i hclash
        rw [hclash]
        rfl
      · rename_i hclash
        rw [Bool.not_eq_true] at hclash
        rw [hclash]
        split
        · rename_i hhash
          rw [hindex] at hhash
          cases hhash
        · rfl
  · rename_i hid
    rw [Bool.not_eq_true] at hid
    rw [hid]
    rfl

/-- **The server stops at the first document it refuses.** -/
theorem wp_forM_insertOne_accepted {docs : List Doc} {c : Collection}
    (hindex : c.rowHashUnique = false) (henc : ∀ doc ∈ docs, doc.encodable = true) :
    wp (docs.forM insertOne)
      (fun _ c' ↦ accepted c.docs docs = docs ∧
        c'.docs = c.docs ++ (accepted c.docs docs).map Doc.toStored)
      (fun _ c' ↦ accepted c.docs docs ≠ docs ∧
        c'.docs = c.docs ++ (accepted c.docs docs).map Doc.toStored) c := by
  induction docs generalizing c with
  | nil => exact ⟨rfl, (List.append_nil _).symm⟩
  | cons doc docs ih =>
    obtain ⟨hdoc, hdocs⟩ := List.forall_mem_cons.1 henc
    have hisOk := isOk_insert hindex hdoc
    have hforM : (doc :: docs).forM insertOne = (do insertOne doc; docs.forM insertOne) := rfl
    rw [hforM, wp_bind, wp_insertOne, accepted]
    cases hresult : c.insert doc with
    | error exc =>
      rw [hresult] at hisOk
      rw [← hisOk]
      refine ⟨fun c' hc' ↦ (nomatch hc'), fun _ _ ↦ ⟨nofun, ?_⟩⟩
      exact (List.append_nil _).symm
    | ok c₁ =>
      rw [hresult] at hisOk
      obtain ⟨hdocs₁, hindex₁⟩ := Collection.insert_eq_ok hresult
      refine ⟨fun c' hc' ↦ ?_, fun _ hexc ↦ (nomatch hexc)⟩
      obtain rfl := Except.ok.inj hc'
      have hshape : ∀ rest : List Doc, c₁.docs ++ rest.map Doc.toStored =
          c.docs ++ (doc :: rest).map Doc.toStored := by
        intro rest
        rw [hdocs₁, List.append_assoc, List.map_cons, List.singleton_append]
      have hrest := ih (hindex₁.trans hindex) hdocs
      simp only [hshape] at hrest
      have htakes : takes c.docs doc = true := hisOk.symm
      simp only [if_pos htakes, ← hdocs₁]
      exact wp_mono hrest (fun _ _ h ↦ ⟨congrArg _ h.1, h.2⟩)
        fun _ _ h ↦ ⟨fun heq ↦ h.1 (List.cons.inj heq).2, h.2⟩

/-- What is delivered has been encoded. -/
theorem encodable_of_mem_delivered {batch docs : List Doc}
    (h : ∀ doc ∈ batch, doc.encodable = true) :
    ∀ doc ∈ delivered driver batch docs, doc.encodable = true := by
  induction docs generalizing batch with
  | nil => exact h
  | cons doc docs ih =>
    rw [delivered]
    cases hdoc : doc.encodable with
    | false =>
      simp only [Bool.false_eq_true, if_false, List.append_nil]
      split
      · exact h
      · exact List.forall_mem_nil _
    | true =>
      have hone : ∀ doc' ∈ [doc], doc'.encodable = true := List.forall_mem_singleton.2 hdoc
      have hboth : ∀ doc' ∈ batch ++ delivered driver [doc] docs, doc'.encodable = true :=
        List.forall_mem_append.2 ⟨h, ih hone⟩
      simp only [if_true]
      split
      · exact hboth
      · split
        · exact ih (List.forall_mem_append.2 ⟨h, hone⟩)
        · exact hboth

/-- What inserting leaves in a collection that has just been dropped. -/
theorem wp_insertMany_contents {fullName : String} {item : Value × List Value} :
    wp (insertMany driver item.2)
      (fun _ c' ↦ (∃ docs, outgoing driver item.2 = some docs ∧ docs.all Doc.encodable = true ∧
          accepted [] docs = docs) ∧ c'.docs = contents driver item)
      (fun _ c' ↦ (∀ docs, outgoing driver item.2 = some docs → docs.all Doc.encodable = true →
          accepted [] docs ≠ docs) ∧ c'.docs = contents driver item) (.empty fullName false) := by
  rw [insertMany, wp_bind, wp_ofExcept, contents, outgoing]
  cases hdocs : item.2.mapM asDocument with
  | error exc => exact ⟨fun _ h ↦ (by cases h), fun _ _ ↦ ⟨fun _ h ↦ (by cases h), rfl⟩⟩
  | ok docs =>
    refine ⟨fun _ hok ↦ ?_, fun _ herror ↦ (by cases herror)⟩
    obtain rfl := Except.ok.inj hok
    dsimp only
    generalize docs.zipIdx.map (fun (doc, i) ↦ withId (driver.newId i) doc) = docs
    rw [sendBatches_eq, wp_bind, sendBatch, wp_tryCatch]
    have hencodable := @encodable_of_mem_delivered driver [] docs (List.forall_mem_nil _)
    refine wp_mono (wp_forM_insertOne_accepted rfl hencodable) (fun _ c' h ↦ ?_) fun _ c' h ↦ ?_
    · rw [wp_ite, wp_pure, wp_throw]
      refine ⟨fun henc ↦ ⟨⟨docs, rfl, henc, ?_⟩, h.2⟩, fun hno ↦ ⟨fun _ hsome henc ↦ ?_, h.2⟩⟩
      · have hall := h.1
        rwa [delivered_of_encodable henc] at hall
      · exact absurd (Option.some.inj hsome ▸ henc) hno
    · rw [wp_throw]
      refine ⟨fun _ hsome henc ↦ ?_, h.2⟩
      obtain rfl := Option.some.inj hsome
      have hrefused := h.1
      rwa [delivered_of_encodable henc] at hrefused

/-- The documents of every collection after one collection of the file has been dropped. -/
def Refilled (driver : Driver) (db : Database) (item : Value × List Value)
    (db' : Database) : Prop :=
  ∀ coll, db'.docs coll =
    if item.1 = .str coll ∧ collectionNameOk coll = true then contents driver item else db.docs coll

/-- **One collection of the file**, refilled or refused. -/
theorem wp_restoreCollection_refilled {item : Value × List Value} :
    wp (restoreCollection driver item)
      (fun _ db' ↦ Accepted driver item ∧ Refilled driver db item db')
      (fun _ db' ↦ ¬ Accepted driver item ∧ Refilled driver db item db') db := by
  by_cases hname : ∃ coll, item.1 = .str coll ∧ collectionNameOk coll = true
  · obtain ⟨coll, hitem, hok⟩ := hname
    obtain ⟨_, docs⟩ := item
    obtain rfl : _ = Value.str coll := hitem
    have hrestore : restoreCollection driver (.str coll, docs) = (do
        modify fun db ↦ db.drop coll
        if docs ≠ [] then Database.on coll hok (insertMany driver docs)) :=
      dif_pos hok
    have hrefilled : ∀ db' : Database, db'.docs coll = contents driver (.str coll, docs) →
        (∀ other, other ≠ coll → db'.docs other = db.docs other) →
        Refilled driver db (.str coll, docs) db' := by
      intro db' hself hother other
      by_cases heq : other = coll
      · rw [heq, hself, if_pos ⟨rfl, hok⟩]
      · rw [hother other heq, if_neg fun h ↦ heq (Value.str.inj h.1).symm]
    rw [hrestore, wp_bind, wp_modify, wp_ite]
    refine ⟨fun _ ↦ ?_, fun hnil ↦ ?_⟩
    · have hput : ∀ c', c'.docs = contents driver (.str coll, docs) →
          Refilled driver db (.str coll, docs) ((db.drop coll).put coll hok c') := by
        intro c' hc'
        refine hrefilled _ ?_ fun other hne ↦ ?_
        · rw [Database.docs, Database.collection_put, hc']
        · rw [Database.docs, Database.collection_put_of_ne hne,
            Database.collection_drop_of_ne hne, Database.docs]
      rw [Database.wp_on, Database.collection_drop]
      refine wp_mono (@wp_insertMany_contents _ _ (.str coll, docs)) ?_ ?_
      · rintro _ c' ⟨⟨docs, hout, henc, hall⟩, hc'⟩
        exact ⟨⟨coll, docs, rfl, hok, hout, henc, hall⟩, hput c' hc'⟩
      · rintro _ c' ⟨hall, hc'⟩
        refine ⟨?_, hput c' hc'⟩
        rintro ⟨_, docs, -, -, hout, henc, haccepted⟩
        exact hall docs hout henc haccepted
    · obtain rfl := not_not.1 hnil
      refine ⟨⟨coll, [], rfl, hok, rfl, rfl, rfl⟩, hrefilled _ ?_ fun other hne ↦ ?_⟩
      · rw [Database.docs, Database.collection_drop]
        rfl
      · rw [Database.docs, Database.collection_drop_of_ne hne, Database.docs]
  · have hthrow : ∃ exc, restoreCollection driver item = throw exc := by
      rw [restoreCollection]
      split
      · rename_i coll hcoll
        rw [dif_neg fun hok ↦ hname ⟨coll, hcoll, hok⟩]
        exact ⟨_, rfl⟩
      · exact ⟨_, rfl⟩
    obtain ⟨exc, hthrow⟩ := hthrow
    rw [hthrow, wp_throw]
    refine ⟨?_, fun coll ↦ by rw [if_neg fun h ↦ hname ⟨coll, h⟩]⟩
    rintro ⟨coll, _, hitem, hok, -⟩
    exact hname ⟨coll, hitem, hok⟩

/-! ## How far it gets -/

/-- The documents of every collection after a restore that got as far as the last of some
collections of the file. -/
structure RefilledUpTo (driver : Driver) (db : Database) (items : DocsByCollection)
    (db' : Database) : Prop where
  refilled : ∀ item ∈ items, ∀ coll, item.1 = .str coll → collectionNameOk coll = true →
    db'.docs coll = contents driver item
  untouched : ∀ coll, (∀ item ∈ items, item.1 = .str coll → collectionNameOk coll = false) →
    db'.docs coll = db.docs coll

theorem RefilledUpTo.cons {db₁ db' : Database} {item : Value × List Value}
    {items : DocsByCollection} (hitem : Refilled driver db item db₁)
    (hdistinct : ∀ item' ∈ items, item.1 ≠ item'.1) (h : RefilledUpTo driver db₁ items db') :
    RefilledUpTo driver db (item :: items) db' := by
  refine ⟨List.forall_mem_cons.2 ⟨fun coll hcoll hok ↦ ?_, h.refilled⟩, fun coll hno ↦ ?_⟩
  · rw [h.untouched coll fun item' hmem heq ↦ absurd (hcoll.trans heq.symm) (hdistinct item' hmem),
      hitem coll, if_pos ⟨hcoll, hok⟩]
  · obtain ⟨hself, hno⟩ := List.forall_mem_cons.1 hno
    rw [h.untouched coll hno, hitem coll,
      if_neg fun hcoll ↦ Bool.false_ne_true ((hself hcoll.1).symm.trans hcoll.2)]

/-- **The writing loop**: the collections before the first refused one are refilled, and the loop
stops there. -/
theorem wp_restoreCollections_refilled {items : DocsByCollection}
    (hdistinct : items.Pairwise fun item item' ↦ item.1 ≠ item'.1) :
    wp (items.forM (restoreCollection driver)) (fun _ _ ↦ True)
      (fun _ db' ↦ ∃ before item after, items = before ++ item :: after ∧
        (∀ item ∈ before, Accepted driver item) ∧ ¬ Accepted driver item ∧
        RefilledUpTo driver db (before ++ [item]) db') db := by
  induction items generalizing db with
  | nil => exact trivial
  | cons item items ih =>
    obtain ⟨hitem, hdistinct⟩ := List.pairwise_cons.1 hdistinct
    have hforM : (item :: items).forM (restoreCollection driver) =
      (do restoreCollection driver item; items.forM (restoreCollection driver)) := rfl
    rw [hforM, wp_bind]
    refine wp_mono wp_restoreCollection_refilled (fun _ db₁ ⟨haccepted, hrefilled⟩ ↦ ?_)
      fun _ db' ⟨hrefused, hrefilled⟩ ↦ ?_
    · refine wp_mono (ih hdistinct) (fun _ _ h ↦ h) ?_
      rintro _ db' ⟨before, item', after, rfl, hbefore, hrefused, h⟩
      refine ⟨item :: before, item', after, rfl,
        List.forall_mem_cons.2 ⟨haccepted, hbefore⟩, hrefused, .cons hrefilled ?_ h⟩
      intro item'' hmem
      refine hitem item'' ?_
      rw [List.append_cons]
      exact List.mem_append_left _ hmem
    · refine ⟨[], item, items, rfl, List.forall_mem_nil _, hrefused, .cons hrefilled
        (List.forall_mem_nil _) ⟨List.forall_mem_nil _, fun _ _ ↦ rfl⟩⟩

/-- The collections of the file are different ones. -/
theorem pairwise_appendDoc {coll doc : Value} {items : DocsByCollection}
    (h : items.Pairwise fun item item' ↦ item.1 ≠ item'.1) :
    (appendDoc coll doc items).Pairwise fun item item' ↦ item.1 ≠ item'.1 := by
  have hkeys : ∀ items : DocsByCollection, ∀ item ∈ appendDoc coll doc items,
      item.1 = coll ∨ ∃ item' ∈ items, item'.1 = item.1 := by
    intro items
    induction items with
    | nil => exact fun item hmem ↦ .inl (List.mem_singleton.1 hmem ▸ rfl)
    | cons first items ih =>
      intro item hmem
      rw [appendDoc] at hmem
      split at hmem
      · obtain rfl | hmem := List.mem_cons.1 hmem
        · exact .inr ⟨first, List.mem_cons_self .., rfl⟩
        · exact .inr ⟨item, List.mem_cons_of_mem _ hmem, rfl⟩
      · obtain rfl | hmem := List.mem_cons.1 hmem
        · exact .inr ⟨first, List.mem_cons_self .., rfl⟩
        · refine (ih item hmem).imp id ?_
          rintro ⟨item', hmem', heq⟩
          exact ⟨item', List.mem_cons_of_mem _ hmem', heq⟩
  induction items with
  | nil => exact List.pairwise_singleton ..
  | cons first items ih =>
    obtain ⟨hfirst, hrest⟩ := List.pairwise_cons.1 h
    rw [appendDoc]
    split
    · exact List.pairwise_cons.2 ⟨hfirst, hrest⟩
    · rename_i hne
      refine List.pairwise_cons.2 ⟨fun item hmem ↦ ?_, ih hrest⟩
      obtain heq | ⟨item', hmem', heq⟩ := hkeys items item hmem
      · exact fun h ↦ hne (h.trans heq)
      · exact heq ▸ hfirst item' hmem'

theorem pairwise_readBackup {text : List Char} {items : DocsByCollection}
    (h : readBackup json text = .ok items) :
    items.Pairwise fun item item' ↦ item.1 ≠ item'.1 := by
  have hfold : ∀ (lines : List (List Char)) (acc : DocsByCollection),
      acc.Pairwise (fun item item' ↦ item.1 ≠ item'.1) →
      lines.foldlM (readLine json) acc = .ok items →
      items.Pairwise fun item item' ↦ item.1 ≠ item'.1 := by
    intro lines
    induction lines with
    | nil =>
      intro acc hacc hok
      obtain rfl := Except.ok.inj hok
      exact hacc
    | cons line lines ih =>
      intro acc hacc hok
      rw [List.foldlM_cons] at hok
      obtain ⟨acc', hline, hok⟩ := bind_eq_ok.1 hok
      refine ih acc' ?_ hok
      rw [readLine] at hline
      split at hline
      · obtain rfl := Except.ok.inj hline
        exact hacc
      · obtain ⟨record, -, hline⟩ := bind_eq_ok.1 hline
        obtain ⟨coll, -, hline⟩ := bind_eq_ok.1 hline
        obtain ⟨doc, -, hline⟩ := bind_eq_ok.1 hline
        obtain ⟨_, -, hline⟩ := bind_eq_ok.1 hline
        obtain rfl := Except.ok.inj hline
        exact pairwise_appendDoc hacc
  exact hfold _ _ List.Pairwise.nil h

/-- **A restore that fails** has either not read the file, and changed nothing, or it has refilled
the collections of the file up to the one with something that is refused. -/
theorem restore_error {exc : PyErr} {db' : Database}
    (h : restoreFromBackup json driver file db = .error exc db') :
    (file.read json = .error exc ∧ db' = db) ∨
      ∃ before item after, file.read json = .ok (before ++ item :: after) ∧
        (∀ item ∈ before, Accepted driver item) ∧ ¬ Accepted driver item ∧
        RefilledUpTo driver db (before ++ [item]) db' := by
  have hwp : wp (restoreFromBackup json driver file) (fun _ _ ↦ True) (fun exc db' ↦
      (file.read json = .error exc ∧ db' = db) ∨
        ∃ before item after, file.read json = .ok (before ++ item :: after) ∧
          (∀ item ∈ before, Accepted driver item) ∧ ¬ Accepted driver item ∧
          RefilledUpTo driver db (before ++ [item]) db') db := by
    rw [restoreFromBackup, wp_bind, wp_ofExcept]
    refine ⟨fun items hitems ↦ ?_, fun exc hexc ↦ .inl ⟨hexc, rfl⟩⟩
    obtain ⟨items', hread, hrest⟩ := bind_eq_ok.1 hitems
    have hsame : items' = items := by
      split at hrest
      · cases hrest
      · exact Except.ok.inj hrest
    refine wp_mono (wp_restoreCollections_refilled (pairwise_readBackup (hsame ▸ hread)))
      (fun _ _ h ↦ h) ?_
    rintro _ db' ⟨before, item, after, rfl, h⟩
    exact .inr ⟨before, item, after, hitems, h⟩
  rwa [wp, h] at hwp

end

/-! ## A document that comes twice -/

namespace Sample

/-- A backup with the same line twice. -/
def twice : BackupFile where
  text := (line ++ "\n" ++ line ++ "\n").toList
  failure := none

/-- What a restore that fails has left of a log. -/
def leftBy : EStateM.Result PyErr Database Unit → Option (List Doc)
  | .ok _ _ => none
  | .error _ db' => some (db'.docs "w1aw_qsos")

/-- With two documents a message, the first two have been sent when the third cannot be encoded, but
the third has not if it is the fourth. -/
example :
    let two : Driver := { driver with maxWriteBatchSize := 2 }
    let bad : Doc := (doc 4).insert "NOTES\x00" .null
    delivered two [] [doc 1, doc 2, bad] = [doc 1, doc 2] ∧
      delivered two [] [doc 1, doc 2, doc 3, bad] = [doc 1, doc 2] := by
  decide +kernel

theorem exists_error_of_leftBy {result : EStateM.Result PyErr Database Unit} {docs : List Doc}
    (h : leftBy result = some docs) :
    ∃ exc db', result = .error exc db' ∧ db'.docs "w1aw_qsos" = docs := by
  cases result with
  | ok _ db' => cases h
  | error exc db' => exact ⟨exc, db', rfl, Option.some.inj h⟩

theorem read_twice : twice.read json = .ok (appendDoc (.str "w1aw_qsos") (.dict (doc 1).toList)
    (appendDoc (.str "w1aw_qsos") (.dict (doc 1).toList) [])) := by
  have hname : "w1aw_qsos" ∈ saved.collectionNames := by decide +kernel
  have hdoc : doc 1 ∈ saved.docs "w1aw_qsos" := by decide +kernel
  have hrecord := json_dumps "w1aw_qsos" hname (doc 1) hdoc
  have hdumps : json.dumps (backupRecord "w1aw_qsos" (doc 1)) = line := by
    simp only [json, if_true]
  have hline := readLine_dumps hrecord
  have hnewline := hrecord.newline
  have hreturn := hrecord.carriageReturn
  rw [hdumps] at hline hnewline hreturn
  have htext : twice.text = [line.toList, line.toList].flatMap (· ++ ['\n']) := by
    simp [twice, String.toList_append]
  have htextReturn : '\r' ∉ twice.text := by
    simpa [htext] using hreturn
  have hread : readBackup json twice.text = .ok (appendDoc (.str "w1aw_qsos")
      (.dict (doc 1).toList) (appendDoc (.str "w1aw_qsos") (.dict (doc 1).toList) [])) := by
    rw [readBackup, universalNewlines_of_notMem htextReturn, htext,
      splitChars_lines (by simpa using hnewline)]
    simp only [List.cons_append, List.nil_append, List.foldlM_cons, List.foldlM_nil, hline]
    rfl
  rw [BackupFile.read, hread]
  rfl

theorem leftBy_twice :
    leftBy (restoreFromBackup json driver twice grown) = some [doc 1] := by
  rw [restoreFromBackup, read_twice]
  decide +kernel

end Sample

/-- The second contact is gone. -/
theorem restore_loses_contact :
    ∃ exc db', restoreFromBackup Sample.json Sample.driver Sample.twice Sample.grown =
      .error exc db' ∧ db'.docs "w1aw_qsos" ≠ Sample.grown.docs "w1aw_qsos" := by
  have hgrown : Sample.grown.docs "w1aw_qsos" ≠ [Sample.doc 1] := by decide +kernel
  obtain ⟨exc, db', hrun, hdocs⟩ := Sample.exists_error_of_leftBy Sample.leftBy_twice
  exact ⟨exc, db', hrun, hdocs ▸ hgrown.symm⟩

theorem restore_error_twice : ∃ exc db', restoreFromBackup Sample.json Sample.driver Sample.twice
    Sample.grown = .error exc db' ∧
      ((Sample.twice.read Sample.json = .error exc ∧ db' = Sample.grown) ∨
      ∃ before item after, Sample.twice.read Sample.json = .ok (before ++ item :: after) ∧
        (∀ item ∈ before, Accepted Sample.driver item) ∧ ¬ Accepted Sample.driver item ∧
        RefilledUpTo Sample.driver Sample.grown (before ++ [item]) db') := by
  obtain ⟨exc, db', hrun, -⟩ := Sample.exists_error_of_leftBy Sample.leftBy_twice
  exact ⟨exc, db', hrun, restore_error hrun⟩

end Ollog
