import Ollog.Migration.Backfills
import Ollog.Migration.Copies

/-!
# The migrations of a start

Each start of the application brings the shared QSOs up to date, and then copies them to their
users.  The two together keep the hashes truthful but for three kinds of shared QSOs: one that has
its hash when its `TIME_ON` is padded, one that gets none because another has the same content, and
one with a dot in a name, which its copy does not have (`startup_truthful_iff`).
-/

set_option autoImplicit false

namespace Ollog

open Effects Relation

section

variable [UnicodeData]

/-- The migrations of the shared collection, as a computation on the database. -/
def backfillShared (now : DateTime) : EStateM PyErr Database Unit :=
  Database.on legacyQsoCollection collectionNameOk_legacy (backfills now)

/-- The migrations of `lifespan`. -/
def startupMigrations (now : DateTime) (users : List User) :
    EStateM PyErr Database Unit := do
  backfillShared now
  let _ ← migrateSharedQsosToUserCollections users false

/-! ## The hashes of the copies -/

variable {users : List User} {db : Database} {docs : List Doc} {doc : Doc} {coll : UserCollection}

/-- A document with the hash of its content. -/
def Sealed (d : Doc) : Prop := d["rowHash"]? = some (.str (canonicalDocumentHash d))

/-- **When the copies have their hashes**: if every document that is copied has one, and the copy
has the content of the document. -/
theorem sealed_added_iff (h : ∀ d ∈ db.docs legacyQsoCollection, Truthful d)
    (hindexable : Indexable (db.docs legacyQsoCollection)) :
    (∀ coll, ∀ d ∈ (after (migrateSharedQsosToUserCollections users false) db).docs coll,
      d ∉ db.docs coll → Sealed d) ↔
    ∀ doc coll copy, Arrives users db doc coll copy →
      "rowHash" ∈ doc ∧ canonicalDocumentHash copy = canonicalDocumentHash doc := by
  constructor
  · intro hsealed doc coll copy harrives
    obtain ⟨d, hd, hnew, hcase⟩ := added_of_arrives harrives
    have hget : d["rowHash"]? = _ := hsealed coll.1 d hd hnew
    obtain ⟨doc₂, own, -, harrives₂⟩ := arrives_of_added coll.1 hd hnew
    have hcopy : copy["rowHash"]? = some (.str (canonicalDocumentHash d)) := by
      obtain rfl | hclash := hcase
      · exact hget
      · rw [Doc.clash, Bool.and_eq_true, beq_iff_eq] at hclash
        rw [← hclash.2, hget]
    have hdoc := (harrives.copies.getElem? harrives.mem).2.2 _ hcopy
    have hdoc₂ := (harrives₂.copies.getElem? harrives₂.mem).2.2 _ hget
    have hsame : doc = doc₂ := by
      by_contra hne
      have hclash := hindexable.forall harrives.mem harrives₂.mem hne
      rw [Doc.clash, hdoc, hdoc₂] at hclash
      simp at hclash
    subst hsame
    refine ⟨Doc.mem_iff_ne_none.2 (hdoc ▸ Option.some_ne_none _), ?_⟩
    have htruthful := h doc harrives.mem _ hdoc
    rw [Value.str.injEq] at htruthful
    rw [← harrives₂.copies.unique harrives.copies, htruthful]
  · intro hcond coll d hd hnew
    obtain ⟨doc, own, rfl, harrives⟩ := arrives_of_added coll hd hnew
    obtain ⟨hmem, hhash⟩ := hcond doc own d harrives
    obtain ⟨v, hv⟩ := Option.ne_none_iff_exists'.1 (Doc.mem_iff_ne_none.1 hmem)
    rw [Sealed, (harrives.copies.getElem? harrives.mem).2.1 hmem, hv, hhash,
      h doc harrives.mem v hv]

/-! ## The whole start -/

variable {now now' : DateTime}

/-- How a start goes: the shared collection is brought up to date, and if that went through, the
rest is the migration. -/
theorem backfillShared_cases (h : TextHashes (db.docs legacyQsoCollection)) :
    ∃ c', c'.docs = backfilled now (db.docs legacyQsoCollection) ∧
      ((BackfillsFit now (db.docs legacyQsoCollection) ∧ c'.rowHashUnique = true ∧
          c'.fullName = (db.collection legacyQsoCollection).fullName ∧
          backfillShared now db = .ok () (db.put legacyQsoCollection (by decide) c') ∧
          after (startupMigrations now users) db =
            after (migrateSharedQsosToUserCollections users false)
              (db.put legacyQsoCollection (by decide) c')) ∨
        (¬ BackfillsFit now (db.docs legacyQsoCollection) ∧
          (∀ db', backfillShared now db ≠ .ok () db') ∧
          after (startupMigrations now users) db = db.put legacyQsoCollection (by decide) c')) := by
  have hspec := @wp_backfills (db.collection legacyQsoCollection) now _ h
  rw [wp] at hspec
  cases hrun : backfills now (db.collection legacyQsoCollection) with
  | ok _ c' =>
    rw [hrun] at hspec
    have hok : backfillShared now db = .ok () (db.put legacyQsoCollection (by decide) c') := by
      rw [backfillShared, Database.on, hrun]
    refine ⟨c', hspec.1, .inl ⟨hspec.2.2.2, hspec.2.1, hspec.2.2.1, hok, ?_⟩⟩
    exact (after_bind_ok hok).trans (after_discard _ _)
  | error exc c' =>
    rw [hrun] at hspec
    have herror : backfillShared now db =
        .error exc (db.put legacyQsoCollection (by decide) c') := by
      rw [backfillShared, Database.on, hrun]
    refine ⟨c', hspec.1, .inr ⟨hspec.2, fun db' hok ↦ ?_, after_bind_error herror⟩⟩
    cases herror.symm.trans hok

/-- **A start, again**: it changes no document. -/
theorem startup_again (h : TextHashes (db.docs legacyQsoCollection)) (coll : String) :
    (after (startupMigrations now' users) (after (startupMigrations now users) db)).docs coll =
      (after (startupMigrations now users) db).docs coll := by
  obtain ⟨c₁, hdocs₁, ⟨hfit, hunique₁, hname₁, -, hafter⟩ | ⟨hfit, -, hafter⟩⟩ :=
    @backfillShared_cases _ users _ now h
  · rw [hafter]
    set db₁ := db.put legacyQsoCollection (by decide) c₁ with hdb₁
    have hwrites := migrate_writes users db₁
    set db₂ := after (migrateSharedQsosToUserCollections users false) db₁ with hdb₂
    have hlegacy : db₂.collection legacyQsoCollection = c₁ := by
      rw [legacy_eq_of_writes hwrites, hdb₁, Database.collection_put]
    have hdocs₂ : db₂.docs legacyQsoCollection = backfilled now (db.docs legacyQsoCollection) := by
      rw [Database.docs, hlegacy, hdocs₁]
    obtain ⟨c₂, hc₂, hcase⟩ := @backfillShared_cases _ users db₂ now'
      (hdocs₂ ▸ textHashes_backfilled h)
    rw [hdocs₂, backfillsFit_again] at hcase
    rw [hdocs₂, backfilled_again] at hc₂
    obtain ⟨-, hunique₂, hname₂, -, hafter₂⟩ | ⟨hno, -⟩ := hcase
    swap
    · exact absurd hfit hno
    have hsame : c₂ = db₂.collection legacyQsoCollection := by
      rw [hlegacy] at hname₂ ⊢
      exact Collection.ext hname₂ (hunique₂.trans hunique₁.symm) (hc₂.trans hdocs₁.symm)
    have hmem : legacyQsoCollection ∈ db₂.collectionNames :=
      (grows_of_writes hwrites).names _ (Database.mem_collectionNames_put.2 (.inl rfl))
    rw [hafter₂, hsame, Database.put_collection hmem]
    have hagain := migrate_again users db₁
    rw [wp] at hagain
    cases hrun : migrateSharedQsosToUserCollections users false db₁ with
    | ok report db' =>
      rw [hrun] at hagain
      obtain ⟨report', hrun', -⟩ := hagain
      have hdb' : db₂ = db' := by rw [hdb₂, after, hrun]
      rw [hdb', after, hrun']
    | error exc db' =>
      rw [hrun] at hagain
      obtain ⟨exc', hrun'⟩ := hagain
      have hdb' : db₂ = db' := by rw [hdb₂, after, hrun]
      rw [hdb', after, hrun']
  · rw [hafter]
    have hdocs₂ : (db.put legacyQsoCollection (by decide) c₁).docs legacyQsoCollection =
        backfilled now (db.docs legacyQsoCollection) := by
      rw [Database.docs, Database.collection_put, hdocs₁]
    obtain ⟨c₂, hc₂, hcase⟩ := @backfillShared_cases _ users
      (db.put legacyQsoCollection (by decide) c₁) now' (hdocs₂ ▸ textHashes_backfilled h)
    rw [hdocs₂, backfillsFit_again] at hcase
    rw [hdocs₂, backfilled_again] at hc₂
    obtain ⟨hyes, -⟩ | ⟨-, -, hafter₂⟩ := hcase
    · exact absurd hyes hfit
    · rw [hafter₂, Database.docs, Database.docs]
      by_cases hcoll : coll = legacyQsoCollection
      · rw [hcoll, Database.collection_put, Database.collection_put, hc₂, hdocs₁]
      · rw [Database.collection_put_of_ne hcoll]

/-- What a start leaves of the shared collection. -/
theorem docs_legacy_startup (h : TextHashes (db.docs legacyQsoCollection)) :
    (after (startupMigrations now users) db).docs legacyQsoCollection =
      backfilled now (db.docs legacyQsoCollection) := by
  obtain ⟨c₁, hdocs₁, ⟨-, -, -, -, hafter⟩ | ⟨-, -, hafter⟩⟩ :=
    @backfillShared_cases _ users _ now h
  · rw [hafter, Database.docs, legacy_eq_of_writes (migrate_writes users _),
      Database.collection_put, hdocs₁]
  · rw [hafter, Database.docs, Database.collection_put, hdocs₁]

/-! ## What a start does to the hashes -/

/-- A shared document that has a hash once it is brought up to date: it has one already, or no other
shared document has its content. -/
def OwnsHash (docs : List Doc) (d : Doc) : Prop :=
  "rowHash" ∈ d ∨ ∀ e ∈ docs,
    canonicalDocumentHash (padded e) = canonicalDocumentHash (padded d) → e = d

theorem rowHash_mem_upToDate {c : Collection} (hgo : ∀ d ∈ c.docs, stopsAt d = false)
    (h : ∀ d ∈ c.docs, Truthful d)
    (hpad : ∀ d ∈ c.docs, "rowHash" ∈ d →
      canonicalDocumentHash (padded d) = canonicalDocumentHash d) (hdoc : doc ∈ c.docs) :
    "rowHash" ∈ upToDate now c.docs doc ↔ OwnsHash c.docs doc := by
  have hget : ∀ d : Doc, (padded (stampCreatedAt now d))["rowHash"]? = d["rowHash"]? := fun _ ↦
    getElem?_padded_stampCreatedAt (by decide) (by decide)
  -- the hash that a document has is that of its padded content
  have hown : ∀ e ∈ c.docs, ∀ v, e["rowHash"]? = some v →
      v = .str (canonicalDocumentHash (padded e)) := by
    intro e he v hv
    rw [hpad e he (Doc.mem_iff_ne_none.2 (hv ▸ Option.some_ne_none v))]
    exact h e he v hv
  have hlone_iff :
      Lone (padDocs (c.docs.map (stampCreatedAt now))) (padded (stampCreatedAt now doc)) ↔
      doc["rowHash"]? = none ∧
        (∀ e ∈ c.docs, e["rowHash"]? ≠ some (.str (canonicalDocumentHash (padded doc)))) ∧
        ∀ e ∈ c.docs, e["rowHash"]? = none →
          canonicalDocumentHash (padded e) = canonicalDocumentHash (padded doc) →
          padded (stampCreatedAt now e) = padded (stampCreatedAt now doc) := by
    rw [Lone, padDocs_map_of_forall hgo, List.forall_mem_map, List.forall_mem_map]
    simp only [hget, canonicalDocumentHash_padded_stampCreatedAt]
  rw [Doc.mem_iff_ne_none, upToDate, getElem?_stampRowHash_self, hget, OwnsHash,
    Doc.mem_iff_ne_none]
  by_cases hnone : doc["rowHash"]? = none
  · rw [or_iff_right (not_not.2 hnone)]
    constructor
    · intro hmem e he hsame
      by_contra hne
      refine hmem ?_
      rw [if_neg, hnone]
      rw [hlone_iff]
      rintro ⟨-, hothers, hlone⟩
      cases hv : e["rowHash"]? with
      | none => exact hne (padded_stampCreatedAt_inj he hdoc (hlone e he hv hsame))
      | some v => exact hothers e he (by rw [hv, hown e he v hv, hsame])
    · intro hlone
      rw [if_pos]
      · exact Option.some_ne_none _
      refine hlone_iff.2 ⟨hnone, fun e he hv ↦ ?_, fun e he _ hsame ↦ by rw [hlone e he hsame]⟩
      have hsame := hown e he _ hv
      rw [Value.str.injEq] at hsame
      rw [hlone e he hsame.symm, hnone] at hv
      cases hv
  · refine iff_of_true ?_ (.inl hnone)
    rw [if_neg fun hlone ↦ hnone (hlone_iff.1 hlone).1]
    exact hnone

/-- Whether a shared document that is due is copied with its hash, or not at all.  A name with a dot
in it becomes a path in the copy, under which it hashes differently. -/
structure CopiedWithHash (now : DateTime) (db : Database) (doc : Doc) (coll : UserCollection) :
    Prop where
  plain : (∀ k ∈ doc, PlainKey k) → OwnsHash (db.docs legacyQsoCollection) doc
  dotted : (∃ k ∈ doc, '.' ∈ k.toList) →
    ∀ copy, Copies (upToDate now (db.docs legacyQsoCollection) doc) copy →
      (∀ e ∈ db.docs coll.1, Doc.clash "rowHash" e copy = false) →
      OwnsHash (db.docs legacyQsoCollection) doc ∧
        canonicalDocumentHash copy = canonicalDocumentHash (padded doc)

theorem copiedWithHash_iff {c : Collection}
    (hnew : upToDate now (db.docs legacyQsoCollection) doc ∈ c.docs)
    (hmem : "rowHash" ∈ upToDate now (db.docs legacyQsoCollection) doc ↔
      OwnsHash (db.docs legacyQsoCollection) doc) :
    CopiedWithHash now db doc coll ↔
      ∀ copy, Copies (upToDate now (db.docs legacyQsoCollection) doc) copy →
        (∀ e ∈ db.docs coll.1, Doc.clash "rowHash" e copy = false) →
        "rowHash" ∈ upToDate now (db.docs legacyQsoCollection) doc ∧ canonicalDocumentHash copy =
          canonicalDocumentHash (upToDate now (db.docs legacyQsoCollection) doc) := by
  set new := upToDate now (db.docs legacyQsoCollection) doc with hdef
  have hnames : ∀ k ∈ new, k ∈ doc ∨ PlainKey k := by
    intro k hk
    by_cases hcreated : k = "_created_at"
    · exact .inr (hcreated ▸ by decide)
    by_cases hhash : k = "rowHash"
    · exact .inr (hhash ▸ by decide)
    exact .inl ((mem_upToDate hcreated hhash).1 hk)
  constructor
  · intro h copy hcopies hallowed
    rw [hmem, hdef, canonicalDocumentHash_upToDate]
    by_cases hdotted : ∃ k ∈ doc, '.' ∈ k.toList
    · exact h.dotted hdotted copy hcopies hallowed
    push Not at hdotted
    have hdot : ∀ k ∈ new, '.' ∉ k.toList := fun k hk ↦
      (hnames k hk).elim (hdotted k) fun hplain ↦ hplain.2.1
    have hcopy : copy = new := hcopies.eq (c.docs_stored _ hnew) (c.ids_present _ hnew) hdot
    refine ⟨h.plain fun k hk ↦ ?_, by rw [hcopy, hdef, canonicalDocumentHash_upToDate]⟩
    by_cases hcreated : k = "_created_at"
    · exact hcreated ▸ by decide
    by_cases hhash : k = "rowHash"
    · exact hhash ▸ by decide
    exact plain_of_copies hdot hcopies k ((mem_upToDate hcreated hhash).2 hk)
  · intro h
    refine ⟨fun hplain ↦ ?_, fun _ copy hcopies hallowed ↦ ?_⟩
    · rw [← hmem]
      by_contra hnot
      rw [Doc.mem_iff_ne_none, not_not] at hnot
      refine absurd (h new (copies_of_plain hnew fun k hk ↦ (hnames k hk).elim (hplain k) id)
        fun e he ↦ ?_).1 (by rw [Doc.mem_iff_ne_none, not_not, hnot])
      rw [clash_rowHash_eq_false, hnot]
      exact id
    · have hcopy := h copy hcopies hallowed
      rwa [hmem, hdef, canonicalDocumentHash_upToDate] at hcopy

theorem operatorKey_upToDate : operatorKey (upToDate now docs doc) = operatorKey doc := by
  rw [operatorKey, operatorKey, Doc.get, Doc.get,
    getElem?_upToDate (by decide) (by decide) (by decide)]

/-- What is due once the shared QSOs are brought up to date is due before. -/
theorem due_upToDate_iff {db₁ : Database}
    (hlegacy : db₁.docs legacyQsoCollection = (db.docs legacyQsoCollection).map
      (upToDate now (db.docs legacyQsoCollection)))
    (hothers : ∀ coll, coll ≠ legacyQsoCollection → db₁.docs coll = db.docs coll) {new : Doc} :
    Due users db₁ new coll ↔
      ∃ doc, upToDate now (db.docs legacyQsoCollection) doc = new ∧ Due users db doc coll := by
  have hid : ∀ d, (upToDate now (db.docs legacyQsoCollection) d)["_id"]? = d["_id"]? := fun _ ↦
    getElem?_upToDate (by decide) (by decide) (by decide)
  have hready : ∀ d, Ready users db₁ (upToDate now (db.docs legacyQsoCollection) d) ↔
      Ready users db d := by
    intro d
    rw [Ready, Ready, operatorKey_upToDate]
    refine forall₂_congr fun user _ ↦ exists_congr fun own ↦ and_congr_right fun hown ↦ ?_
    rw [hothers _ (ne_legacy hown)]
  have hbelongs : ∀ d, BelongsTo users (upToDate now (db.docs legacyQsoCollection) d) coll ↔
      BelongsTo users d coll := fun d ↦ by
    rw [BelongsTo, BelongsTo, operatorKey_upToDate]
  constructor
  · rintro ⟨⟨before, behind, hsplit, hreached⟩, hown, hfree⟩
    rw [hlegacy, List.map_eq_append_iff] at hsplit
    obtain ⟨before', rest, hdocs, rfl, hrest⟩ := hsplit
    obtain ⟨doc, behind', rfl, rfl, rfl⟩ := List.map_eq_cons_iff.1 hrest
    rw [hbelongs] at hown
    refine ⟨doc, rfl, ⟨before', behind', hdocs, fun d hd ↦ (hready d).1 (hreached _ ?_)⟩, hown, ?_⟩
    · rw [← List.map_singleton, ← List.map_append]
      exact List.mem_map_of_mem hd
    · rwa [hothers _ hown.ne_legacy, hid] at hfree
  · rintro ⟨doc, rfl, ⟨before, behind, hdocs, hreached⟩, hown, hfree⟩
    refine ⟨⟨before.map (upToDate now (db.docs legacyQsoCollection)),
      behind.map (upToDate now (db.docs legacyQsoCollection)), ?_, ?_⟩, (hbelongs doc).2 hown, ?_⟩
    · rw [hlegacy, ← List.map_cons, ← List.map_append, ← hdocs]
    · rw [← List.map_singleton, ← List.map_append, List.forall_mem_map]
      exact fun d hd ↦ (hready d).2 (hreached d hd)
    · rwa [hothers _ hown.ne_legacy, hid]

/-- A start leaves the shared collection with truthful hashes, gives every document it copies its
hash, and a second start changes no document. -/
def KeepsTruthful (now : DateTime) (users : List User) (db : Database) : Prop :=
  (∀ d ∈ (after (startupMigrations now users) db).docs legacyQsoCollection, Truthful d) ∧
    (∀ coll, coll ≠ legacyQsoCollection →
      ∀ d ∈ (after (startupMigrations now users) db).docs coll, d ∉ db.docs coll → Sealed d) ∧
    ∀ now' coll, (after (startupMigrations now' users)
      (after (startupMigrations now users) db)).docs coll =
        (after (startupMigrations now users) db).docs coll

/-- The databases whose hashes a start keeps truthful.  The second condition is about those for
which it comes as far as the migration to the users' collections. -/
structure SparesHashes (now : DateTime) (users : List User) (db : Database) : Prop where
  padding : ∀ d ∈ (db.docs legacyQsoCollection).takeWhile (!stopsAt ·), "rowHash" ∈ d →
    canonicalDocumentHash (padded d) = canonicalDocumentHash d
  copied : (∀ d ∈ db.docs legacyQsoCollection, stopsAt d = false) →
    Indexable (db.docs legacyQsoCollection) →
    ∀ doc coll, Due users db doc coll → CopiedWithHash now db doc coll

/-- **Whether a start keeps the hashes truthful.**  It does if and only if no document with a hash
hashes differently once its `TIME_ON` is padded, and none that is copied shares its content with
another document while it has no hash, or has a dot in a name. -/
theorem startup_truthful_iff (now : DateTime) (users : List User) (db : Database)
    (h : ∀ d ∈ db.docs legacyQsoCollection, Truthful d) :
    KeepsTruthful now users db ↔ SparesHashes now users db := by
  have htext : TextHashes (db.docs legacyQsoCollection) := fun d hd v hv ↦ ⟨_, h d hd v hv⟩
  have hspares : SparesHashes now users db ↔
      (∀ d ∈ (db.docs legacyQsoCollection).takeWhile (!stopsAt ·), "rowHash" ∈ d →
        canonicalDocumentHash (padded d) = canonicalDocumentHash d) ∧
      (BackfillsFit now (db.docs legacyQsoCollection) →
        ∀ doc coll, Due users db doc coll → CopiedWithHash now db doc coll) := by
    rw [Database.docs, backfillsFit_iff, and_imp]
    exact ⟨fun h ↦ ⟨h.padding, h.copied⟩, fun h ↦ ⟨h.1, h.2⟩⟩
  rw [hspares, KeepsTruthful, and_iff_left fun now' coll ↦ startup_again htext coll,
    docs_legacy_startup htext, truthful_backfilled_iff h]
  refine and_congr_right fun hpad ↦ ?_
  obtain ⟨c₁, hdocs₁, ⟨hfit, -, -, -, hafter⟩ | ⟨hfit, -, hafter⟩⟩ :=
    @backfillShared_cases _ users _ now htext
  · set db₁ := db.put legacyQsoCollection (by decide) c₁ with hdb₁
    have hgo := hfit.1
    rw [List.takeWhile_eq_self_iff.2 fun d hd ↦ by rw [hgo d hd, Bool.not_false]] at hpad
    have hlegacy : db₁.docs legacyQsoCollection =
        (db.docs legacyQsoCollection).map (upToDate now (db.docs legacyQsoCollection)) := by
      rw [Database.docs, hdb₁, Database.collection_put, hdocs₁, backfilled_of_forall hgo]
    have hothers : ∀ coll, coll ≠ legacyQsoCollection → db₁.docs coll = db.docs coll := by
      intro coll hcoll
      rw [Database.docs, hdb₁, Database.collection_put_of_ne hcoll, Database.docs]
    have htruthful : ∀ d ∈ db₁.docs legacyQsoCollection, Truthful d := by
      rw [hlegacy, ← backfilled_of_forall hgo, truthful_backfilled_iff h]
      exact fun d hd ↦ hpad d ((List.takeWhile_sublist _).subset hd)
    have hindexable : Indexable (db₁.docs legacyQsoCollection) := by
      rw [hlegacy, ← backfilled_of_forall hgo]
      exact hfit.2
    have hadded := @sealed_added_iff _ users db₁ htruthful hindexable
    have hmigrated : (after (migrateSharedQsosToUserCollections users false) db₁).docs
        legacyQsoCollection = db₁.docs legacyQsoCollection := by
      rw [Database.docs, legacy_eq_of_writes (migrate_writes users db₁), ← Database.docs]
    have hcopied : (∀ coll, coll ≠ legacyQsoCollection →
        ∀ d ∈ (after (startupMigrations now users) db).docs coll, d ∉ db.docs coll → Sealed d) ↔
        ∀ coll, ∀ d ∈ (after (migrateSharedQsosToUserCollections users false) db₁).docs coll,
          d ∉ db₁.docs coll → Sealed d := by
      rw [hafter]
      refine forall_congr' fun coll ↦ ?_
      by_cases hcoll : coll = legacyQsoCollection
      · rw [hcoll, hmigrated]
        exact iff_of_true (fun hne ↦ absurd rfl hne) fun d hd hnot ↦ absurd hd hnot
      · rw [hothers coll hcoll]
        exact ⟨fun h ↦ h hcoll, fun h _ ↦ h⟩
    have hone : ∀ doc coll, Due users db doc coll → (CopiedWithHash now db doc coll ↔
        ∀ copy, Copies (upToDate now (db.docs legacyQsoCollection) doc) copy →
          (∀ e ∈ db.docs coll.1, Doc.clash "rowHash" e copy = false) →
          "rowHash" ∈ upToDate now (db.docs legacyQsoCollection) doc ∧ canonicalDocumentHash copy =
            canonicalDocumentHash (upToDate now (db.docs legacyQsoCollection) doc)) := by
      intro doc coll hdue
      refine copiedWithHash_iff (c := c₁) ?_ (rowHash_mem_upToDate hgo h hpad hdue.mem)
      have hmem : c₁.docs = db₁.docs legacyQsoCollection := by
        rw [Database.docs, hdb₁, Database.collection_put]
      rw [hmem, hlegacy]
      exact List.mem_map_of_mem hdue.mem
    rw [hcopied, hadded]
    constructor
    · intro hall _ doc coll hdue
      refine (hone doc coll hdue).2 fun copy hcopies hallowed ↦ hall _ coll copy
        ⟨(due_upToDate_iff hlegacy hothers).2 ⟨doc, rfl, hdue⟩, hcopies, ?_⟩
      rwa [hothers _ hdue.belongs.ne_legacy]
    · rintro hall new coll copy ⟨hdue, hcopies, hallowed⟩
      rw [hothers _ hdue.belongs.ne_legacy] at hallowed
      obtain ⟨doc, rfl, hdue'⟩ := (due_upToDate_iff hlegacy hothers).1 hdue
      exact (hone doc coll hdue').1 (hall hfit doc coll hdue') copy hcopies hallowed
  · rw [hafter]
    refine iff_of_true (fun coll hcoll d hd hnot ↦ absurd ?_ hnot) fun hfit' ↦ absurd hfit' hfit
    rwa [Database.docs, Database.collection_put_of_ne hcoll] at hd

end

section

attribute [local instance] UnicodeData.ascii

/-- A shared QSO without its hash. -/
def Sample.untimed (n : BitVec 96) (timeOn : String) : Doc :=
  ((((∅ : Doc).insert "_id" (.oid ⟨n⟩)).insert "_operator" (.str "W1AW")).insert "CALL"
    (.str "K1ABC")).insert "TIME_ON" (.str timeOn)

/-- A shared QSO with its hash. -/
def Sample.timed (n : BitVec 96) (timeOn : String) : Doc :=
  (Sample.untimed n timeOn).insert "rowHash"
    (.str (canonicalDocumentHash (Sample.untimed n timeOn)))

theorem Sample.truthful_timed (n : BitVec 96) (timeOn : String) :
    Truthful (Sample.timed n timeOn) := by
  intro v hv
  have hhash : canonicalDocumentHash (Sample.timed n timeOn) =
      canonicalDocumentHash (Sample.untimed n timeOn) := by
    refine canonicalDocumentHash_congr fun k hk ↦ ?_
    rw [Sample.timed, Doc.getElem?_insert, if_neg]
    rintro rfl
    exact hk (by decide)
  rw [Sample.timed, Doc.getElem?_insert, if_pos rfl] at hv
  rw [hhash, ← Option.some.inj hv]

/-- The migrations of a start, at noon. -/
def Sample.noon : DateTime := ⟨12 * 3600000000, some 0⟩

/-- Two shared QSOs of one operator, of which the older has its hash. -/
def Sample.oldAndNew : List Doc := [Sample.timed 1 "123456", Sample.untimed 2 "1234"]

theorem startup_truthful_of_six_digits :
    KeepsTruthful Sample.noon [Sample.owner] (Sample.shared Sample.oldAndNew) := by
  have hdocs : (Sample.shared Sample.oldAndNew).docs legacyQsoCollection = Sample.oldAndNew := by
    decide +kernel
  refine (startup_truthful_iff Sample.noon [Sample.owner] (Sample.shared Sample.oldAndNew) ?_).2
    ⟨?_, fun _ _ doc coll hdue ↦ ⟨fun _ ↦ ?_, ?_⟩⟩
  · rw [hdocs, Sample.oldAndNew, List.forall_mem_cons, List.forall_mem_singleton]
    exact ⟨Sample.truthful_timed _ _, fun v hv ↦ absurd (hv ▸ Option.some_ne_none v) (by decide)⟩
  · rw [hdocs]
    decide +kernel
  · have howns : ∀ d ∈ Sample.oldAndNew, OwnsHash Sample.oldAndNew d := by
      rw [Sample.oldAndNew, List.forall_mem_cons, List.forall_mem_singleton]
      refine ⟨.inl (by decide +kernel), .inr ?_⟩
      rw [List.forall_mem_cons, List.forall_mem_singleton]
      exact ⟨fun h ↦ absurd h (by decide +kernel), fun _ ↦ rfl⟩
    rw [hdocs]
    exact howns doc (hdocs ▸ hdue.mem)
  · rintro ⟨k, hk, hdot⟩
    have hkeys : ∀ d ∈ Sample.oldAndNew, ∀ k ∈ d.keys, '.' ∉ k.toList := by decide +kernel
    exact absurd hdot (hkeys doc (hdocs ▸ hdue.mem) k (Std.ExtTreeMap.mem_keys.2 hk))

/-- The hash of a shared QSO stays behind when its `TIME_ON` is padded. -/
theorem not_truthful_of_four_digits :
    (Sample.shared [Sample.timed 1 "1234"]).docs legacyQsoCollection = [Sample.timed 1 "1234"] ∧
      Truthful (Sample.timed 1 "1234") ∧
      ¬ KeepsTruthful Sample.noon [] (Sample.shared [Sample.timed 1 "1234"]) := by
  have hdocs : (Sample.shared [Sample.timed 1 "1234"]).docs legacyQsoCollection =
      [Sample.timed 1 "1234"] := by decide +kernel
  have htruthful := Sample.truthful_timed 1 "1234"
  refine ⟨hdocs, htruthful, fun hkeeps ↦ ?_⟩
  have hall : ∀ d ∈ [Sample.timed 1 "1234"], Truthful d :=
    List.forall_mem_singleton.2 htruthful
  have hafter := hkeeps.1
  rw [docs_legacy_startup fun d hd v hv ↦ ⟨_, hall d (hdocs ▸ hd) v hv⟩, hdocs,
    truthful_backfilled_iff hall] at hafter
  have hmem : Sample.timed 1 "1234" ∈ [Sample.timed 1 "1234"].takeWhile (!stopsAt ·) := by
    decide +kernel
  have hhash : canonicalDocumentHash (padded (Sample.timed 1 "1234")) ≠
      canonicalDocumentHash (Sample.timed 1 "1234") := by decide +kernel
  exact hhash (hafter _ hmem (by decide +kernel))

end

end Ollog
