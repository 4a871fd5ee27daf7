import Ollog.Udp.SameDocument

/-!
# A record that is sent again

UDP programs repeat their datagrams, and a manual sync fetches the whole log of ACLog every time.
What keeps the log of the user as it is are the same two things as in an import: the search finds
the document of an account that has a callsign, and the unique index finds the hash of any.

`run_ingest_again` is for records that are ingested one after the other and then again.  Where both
things fail, `length_ingest_again` says how bad it is: what was accepted is accepted again, each of
the records.
-/

set_option autoImplicit false

namespace Ollog

open Effects

/-- Whether a record has been accepted. -/
def IngestResult.isAccepted : IngestResult → Bool
  | .accepted _ _ => true
  | .duplicate _ => false
  | .rejected _ => false

section

variable [UnicodeData]

/-! ## What the result tells -/

/-- A record is accepted if a document has been inserted, and otherwise nothing has changed. -/
theorem wp_ingestQsoRecord (env : Env) (record : Record) (operator : String)
    (profile : Option User) (source : String) (c : Collection) :
    wp (ingestQsoRecord env record operator profile source : Db _)
      (fun result c' ↦
        if result.isAccepted then ∃ doc, c.insert doc = .ok c' else c' = c)
      (fun _ c' ↦ c' = c) c := by
  rw [ingestQsoRecord]
  split
  · rfl
  split
  · split <;> rfl
  rename_i qsoDict hbuild
  rw [wp_bind]
  refine wp_findDuplicateOf (fun dup ↦ rfl) (fun _ ↦ ?_) fun _ ↦ rfl
  dsimp only
  simp only [insertQsoDict, wp_bind, wp_ofExcept, wp_tryCatch, wp_liftM, wp_insertOne, wp_pure]
  refine ⟨fun qso hqso ↦ ⟨fun c' hinsert ↦ ⟨_, hinsert⟩, fun exc hinsert ↦ ?_⟩, fun _ _ ↦ trivial⟩
  split
  · simp only [wp_ite, wp_throw, wp_bind, wp_liftM, wp_findOne, wp_ofExcept, wp_pure]
    exact ⟨fun _ ↦ trivial, fun _ ↦ ⟨fun _ _ ↦ (if_neg Bool.false_ne_true).symm ▸ trivial,
      fun _ _ ↦ trivial⟩⟩
  · rfl

/-! ## When a record is accepted -/

/-- The names of a record are ADIF names. -/
def AdifNamed (record : Record) : Prop := ∀ k ∈ record, isAdifName k = true

/-- What decides whether the log takes a record, apart from the id. -/
structure Takes (env : Env) (record : Record) (operator : String) (profile : Option User)
    (c : Collection) (qsoDict : Doc) : Prop where
  required : ∀ k ∈ requiredFields, k ∈ record
  build : buildQsoDict record.toDoc operator profile = .ok qsoDict
  search : ∃ query, Searches operator qsoDict query ∧ ∀ e ∈ c.docs, query e = false
  index : c.refuses (newDoc env 0 qsoDict) = false

variable {env env₂ : Env} {record : Record} {operator : String} {profile : Option User}
  {c c₂ : Collection} {d : Doc}

theorem takes_of_admits (hnames : AdifNamed record)
    (h : Admits env record operator profile c d) :
    ∃ qsoDict, Takes env record operator profile c qsoDict ∧ Encodes qsoDict ∧
      d = Doc.toStored (newDoc env 0 qsoDict) := by
  obtain ⟨hrequired, qsoDict, query, qso, c', hbuild, hsearch, hnone, hqso, hinsert, rfl⟩ := h
  have hdict := encodes_of_build hnames hbuild
  obtain rfl := Except.ok.inj (hqso.symm.trans (@Encodes.newDoc _ env _ hdict).2.2)
  exact ⟨qsoDict, ⟨hrequired, hbuild, ⟨query, hsearch, hnone⟩,
    Collection.refuses_of_insert hinsert⟩, hdict, rfl⟩

theorem Takes.admits {qsoDict : Doc} (h : Takes env record operator profile c qsoDict)
    (hnames : AdifNamed record) (hfree : ∀ e ∈ c.docs, e["_id"]? ≠ some (.oid (env.fresh 0))) :
    Admits env record operator profile c (Doc.toStored (newDoc env 0 qsoDict)) := by
  obtain ⟨query, hsearch, hnone⟩ := h.search
  obtain ⟨hid, henc, hqso⟩ := @Encodes.newDoc _ env _ (encodes_of_build hnames h.build)
  obtain ⟨-, c', hinsert⟩ | ⟨hrefuses, -⟩ := Collection.insert_of_fresh henc hid hfree
  · exact ⟨h.required, qsoDict, query, _, c', h.build, hsearch, hnone, hqso, hinsert, rfl⟩
  · cases h.index.symm.trans hrefuses

/-- The documents of one dictionary have one hash. -/
theorem rowHash_newDoc_encodes {qsoDict : Doc} (h : Encodes qsoDict) :
    (Doc.toStored (newDoc env 0 qsoDict))["rowHash"]? =
      (Doc.toStored (newDoc env₂ 0 qsoDict))["rowHash"]? :=
  sameDocument_newDoc h "rowHash" (by decide) (by decide)

theorem refuses_newDoc_congr {qsoDict : Doc} (h : Encodes qsoDict) :
    c.refuses (newDoc env 0 qsoDict) = c.refuses (newDoc env₂ 0 qsoDict) := by
  simp only [Collection.refuses, Doc.clash, @rowHash_newDoc_encodes _ env env₂ _ h]

/-- What has been kept out is kept out of every collection that has grown from that one. -/
theorem Takes.of_extends {qsoDict : Doc} (h : Takes env₂ record operator profile c₂ qsoDict)
    (hnames : AdifNamed record) (hext : c.Extends c₂) :
    Takes env record operator profile c qsoDict := by
  obtain ⟨query, hsearch, hnone⟩ := h.search
  refine ⟨h.required, h.build, ⟨query, hsearch, fun e he ↦ hnone e (hext.mem he)⟩, ?_⟩
  by_contra hrefuses
  rw [Bool.not_eq_false, @refuses_newDoc_congr _ env env₂ _ _ (encodes_of_build hnames h.build)]
    at hrefuses
  cases h.index.symm.trans (hext.refuses hrefuses)

/-! ## What an accepted record leaves behind -/

theorem getElem?_newDoc_operator {qsoDict : Doc} (hbuild : buildQsoDict record.toDoc operator
    profile = .ok qsoDict) (hdict : Encodes qsoDict) :
    (Doc.toStored (newDoc env 0 qsoDict))["_operator"]? =
      some (if operator = "" then .null else .str operator) := by
  have hnone : qsoDict["_operator"]? = none :=
    hdict.getElem?_eq_none (by decide) (by decide)
  rw [Doc.getElem?_toStored, newDoc, getElem?_newDoc (@Encodes.newDoc _ env _ hdict).2.2,
    if_neg (by decide), if_pos rfl, (built_of_buildQsoDict hbuild).operator_eq, hnone]
  rw [Value.orElse]
  by_cases hoperator : operator = ""
  · subst hoperator
    rfl
  · simp only [Value.truthy_str hoperator, hoperator, if_true, if_false, Option.getD_some,
      Option.map_some, Value.toStored]

/-- The document describes the same contact as any other of its dictionary. -/
theorem sameContact_newDoc {qsoDict : Doc} (hbuild : buildQsoDict record.toDoc operator
    profile = .ok qsoDict) (hdict : Encodes qsoDict) :
    SameContact (Doc.toStored (newDoc env 0 qsoDict)) (Doc.toStored (newDoc env₂ 0 qsoDict)) := by
  have hsame := @sameDocument_newDoc _ env env₂ _ hdict
  have hbuilt := built_of_buildQsoDict hbuild
  have hactive : ∀ env : Env, (Doc.toStored (newDoc env 0 qsoDict))["_deleted"]? =
      some (.bool false) := by
    intro env
    rw [Doc.getElem?_toStored, newDoc, getElem?_newDoc (@Encodes.newDoc _ env _ hdict).2.2]
    simp only [String.reduceEq, if_true, if_false, Doc.get, hbuilt.active, Option.getD_some,
      Option.map_some, Value.toStored]
  obtain ⟨_, _, dt, -, -, -, hdate⟩ := hbuilt.instant
  have hinstant : (Doc.toStored (newDoc env 0 qsoDict))["qso_date_utc"]? =
      some (.datetime dt.toStored) := by
    rw [Doc.getElem?_toStored, newDoc, getElem?_newDoc (@Encodes.newDoc _ env _ hdict).2.2]
    simp only [String.reduceEq, if_true, if_false, Doc.get, hdate, Option.getD_some,
      Option.map_some, Value.toStored]
  refine ⟨fieldIs_of_eq (hactive _), fieldIs_of_eq (hactive _), hsame _ (by decide) (by decide),
    hsame _ (by decide) (by decide), hsame _ (by decide) (by decide),
    hsame _ (by decide) (by decide), ?_⟩
  rw [← hsame "qso_date_utc" (by decide) (by decide), hinstant]
  simp [withinTwoMinutes, twoMinutes]

/-- **A record whose document is there** is not taken again, if the account has a callsign or the
unique index is there. -/
theorem not_takes_of_mem {qsoDict : Doc} (hnames : AdifNamed record)
    (hbuild : buildQsoDict record.toDoc operator profile = .ok qsoDict)
    (hmem : Doc.toStored (newDoc env 0 qsoDict) ∈ c.docs)
    (hknown : operator ≠ "" ∨ c.rowHashUnique = true) (dict : Doc) :
    ¬ Takes env₂ record operator profile c dict := by
  intro h
  obtain rfl := Except.ok.inj (hbuild.symm.trans h.build)
  have hdict := encodes_of_build hnames hbuild
  obtain hoperator | hunique := hknown
  · obtain ⟨query, ⟨call, band, mode, dt, windowStart, windowEnd, hcall, hband, hmode, hdate,
      hstart, hend, rfl⟩, hnone⟩ := h.search
    exact not_sameContact_newDoc hoperator (built_of_buildQsoDict hbuild)
      (fun k _ v hv ↦ .inr (exists_str_toDoc hv))
      ⟨call, band, mode, dt, windowStart, windowEnd, hcall, hband, hmode, hdate, hstart, hend, hnone⟩
      (@Encodes.newDoc _ env₂ _ hdict).2.2 _ hmem (sameContact_newDoc hbuild hdict)
  · have hrefuses : c.refuses (newDoc env₂ 0 qsoDict) = true := by
      rw [@refuses_newDoc_congr _ env₂ env _ _ hdict]
      refine Collection.refuses_of_mem hunique hmem ?_
      have hhash : (Doc.toStored (newDoc env 0 qsoDict))["rowHash"]?.isSome = true := by
        rw [Doc.getElem?_toStored, newDoc, getElem?_newDoc (@Encodes.newDoc _ env _ hdict).2.2]
        rfl
      rw [Doc.clash, hhash, beq_self_eq_true]
      rfl
    cases h.index.symm.trans hrefuses

/-! ## One record after the other -/

/-- Ingest a record, whatever comes of it. -/
def ingest (operator : String) (profile : Option User) (source : String) (c : Collection)
    (item : Env × Record) : Collection :=
  after (ingestQsoRecord item.1 item.2 operator profile source : Db _) c

omit [UnicodeData] in
/-- Every record is ingested with an id of its own that no document has. -/
structure IdsFree (items : List (Env × Record)) (c : Collection) : Prop where
  free : ∀ item ∈ items, ∀ e ∈ c.docs, e["_id"]? ≠ some (.oid (item.1.fresh 0))
  distinct : items.Pairwise fun item item' ↦ item.1.fresh 0 ≠ item'.1.fresh 0

/-- What ingesting a record does: it adds the document of the record, or nothing. -/
inductive Step (operator : String) (profile : Option User) (c : Collection) (item : Env × Record) :
    Collection → Prop where
  | taken {c' : Collection} {qsoDict : Doc}
      (htakes : Takes item.1 item.2 operator profile c qsoDict) (hdict : Encodes qsoDict)
      (hdocs : c'.docs = c.docs ++ [Doc.toStored (newDoc item.1 0 qsoDict)])
      (hunique : c'.rowHashUnique = c.rowHashUnique) : Step operator profile c item c'
  | kept (hrefuses : ∀ qsoDict, ¬ Takes item.1 item.2 operator profile c qsoDict) :
      Step operator profile c item c

variable {source : String} {item : Env × Record} {items items₂ : List (Env × Record)}

theorem extends_ingest (operator : String) (profile : Option User) (source : String)
    (c : Collection) (item : Env × Record) : c.Extends (ingest operator profile source c item) := by
  refine after_of_wp (P := c.Extends) (wp_mono (wp_ingestQsoRecord ..) (fun result c' h ↦ ?_)
    fun _ c' h ↦ h ▸ .refl c)
  split at h
  · obtain ⟨doc, hinsert⟩ := h
    exact Collection.extends_of_insert hinsert
  · exact h ▸ .refl c

theorem step_ingest (operator : String) (profile : Option User) (source : String)
    (hnames : AdifNamed item.2)
    (hfree : ∀ e ∈ c.docs, e["_id"]? ≠ some (.oid (item.1.fresh 0))) :
    Step operator profile c item (ingest operator profile source c item) := by
  have hingested : Ingested item.1 item.2 operator profile c
      (ingest operator profile source c item) := ingested ..
  have hext := extends_ingest operator profile source c item
  generalize ingest operator profile source c item = c' at hingested hext
  cases hingested with
  | inserted hadmits hdocs =>
    obtain ⟨qsoDict, htakes, hdict, rfl⟩ := takes_of_admits hnames hadmits
    exact .taken htakes hdict hdocs hext.rowHashUnique
  | kept hrefuses => exact .kept fun qsoDict htakes ↦ hrefuses _ (htakes.admits hnames hfree)

theorem extends_run_ingest (operator : String) (profile : Option User) (source : String)
    (items : List (Env × Record)) (c : Collection) :
    c.Extends (run (ingest operator profile source) c items) := by
  induction items generalizing c with
  | nil => exact .refl c
  | cons item items ih =>
    rw [run_cons]
    exact (extends_ingest operator profile source c item).trans (ih _)

/-- Every document that is added is the document of one of the records. -/
theorem mem_run_ingest (hnames : ∀ item ∈ items, AdifNamed item.2) {e : Doc}
    (he : e ∈ (run (ingest operator profile source) c items).docs) :
    e ∈ c.docs ∨ ∃ item ∈ items, ∃ qsoDict,
      buildQsoDict item.2.toDoc operator profile = .ok qsoDict ∧ Encodes qsoDict ∧
      e = Doc.toStored (newDoc item.1 0 qsoDict) := by
  induction items generalizing c with
  | nil => exact .inl he
  | cons item items ih =>
    obtain ⟨hname, hnames⟩ := List.forall_mem_cons.1 hnames
    rw [run_cons] at he
    obtain he | ⟨item', hitem', h⟩ := ih hnames he
    · have hingested : Ingested item.1 item.2 operator profile c
          (ingest operator profile source c item) := ingested ..
      generalize ingest operator profile source c item = c' at hingested he
      cases hingested with
      | kept _ => exact .inl he
      | inserted hadmits hdocs =>
        obtain ⟨qsoDict, htakes, hdict, rfl⟩ := takes_of_admits hname hadmits
        rw [hdocs, List.mem_append, List.mem_singleton] at he
        exact he.imp_right fun heq ↦
          ⟨item, List.mem_cons_self .., qsoDict, htakes.build, hdict, heq⟩
    · exact .inr ⟨item', List.mem_cons_of_mem _ hitem', h⟩

/-- The ids of the records to come stay free. -/
theorem IdsFree.tail (h : IdsFree (item :: items) c) (operator : String) (profile : Option User)
    (source : String) (hnames : AdifNamed item.2) :
    IdsFree items (ingest operator profile source c item) := by
  obtain ⟨hdistinct, hrest⟩ := List.pairwise_cons.1 h.distinct
  refine ⟨fun other hother e he ↦ ?_, hrest⟩
  have hold := h.free other (List.mem_cons_of_mem _ hother)
  have hstep := step_ingest operator profile source hnames (h.free item (List.mem_cons_self ..))
  generalize ingest operator profile source c item = c' at hstep he
  cases hstep with
  | kept _ => exact hold e he
  | taken _ hdict hdocs _ =>
    rw [hdocs, List.mem_append, List.mem_singleton] at he
    obtain he | rfl := he
    · exact hold e he
    · rw [Doc.getElem?_toStored, (@Encodes.newDoc _ item.1 _ hdict).1, Option.map_some,
        Value.toStored]
      intro heq
      exact hdistinct other hother (Value.oid.inj (Option.some.inj heq))

/-! ## And then again -/

/-- **A record that has been ingested** is not taken any more, whether it was accepted or not. -/
theorem not_takes_after (hnames : ∀ item ∈ items, AdifNamed item.2) (hfree : IdsFree items c)
    (hknown : operator ≠ "" ∨ c.rowHashUnique = true) {item : Env × Record} (hitem : item ∈ items)
    (env₂ : Env) (dict : Doc) : ¬ Takes env₂ item.2 operator profile
      (run (ingest operator profile source) c items) dict := by
  induction items generalizing c with
  | nil => exact absurd hitem List.not_mem_nil
  | cons first items ih =>
    have hstep := step_ingest operator profile source
      (hnames first (List.mem_cons_self ..)) (hfree.free first (List.mem_cons_self ..))
    have hext := extends_ingest operator profile source c first
    have hrest := hfree.tail operator profile source
      (hnames first (List.mem_cons_self ..))
    have hfinal := extends_run_ingest operator profile source items (ingest operator profile source c first)
    rw [run_cons]
    obtain rfl | hitem := List.mem_cons.1 hitem
    · -- The first record: its document is there, or what kept it out is.
      intro htakes
      have hcommon := hnames item (List.mem_cons_self ..)
      generalize ingest operator profile source c item = c' at *
      cases hstep with
      | kept hrefuses => exact hrefuses _ (htakes.of_extends hcommon hfinal)
      | taken htaken _ hdocs _ =>
        have hmem := hfinal.mem (hdocs ▸ List.mem_append_right c.docs (List.mem_singleton_self _))
        refine not_takes_of_mem hcommon htaken.build hmem ?_ dict htakes
        exact hknown.imp_right fun h ↦
            hfinal.rowHashUnique.trans (hext.rowHashUnique.trans h)
    · exact ih (fun item h ↦ hnames item (List.mem_cons_of_mem _ h)) hrest
        (hknown.imp_right fun h ↦ hext.rowHashUnique.trans h) hitem

theorem run_ingest_of_not_takes (hnames : ∀ item ∈ items, AdifNamed item.2)
    (hfree : IdsFree items c)
    (h : ∀ item ∈ items, ∀ dict, ¬ Takes item.1 item.2 operator profile c dict) :
    run (ingest operator profile source) c items = c := by
  induction items with
  | nil => rfl
  | cons item items ih =>
    have hstep := step_ingest operator profile source
      (hnames item (List.mem_cons_self ..)) (hfree.free item (List.mem_cons_self ..))
    have hsame : ingest operator profile source c item = c := by
      generalize ingest operator profile source c item = c' at hstep
      cases hstep with
      | kept _ => rfl
      | taken htakes _ _ _ => exact absurd htakes (h item (List.mem_cons_self ..) _)
    rw [run_cons, hsame]
    exact ih (fun item h ↦ hnames item (List.mem_cons_of_mem _ h))
      ⟨fun item h ↦ hfree.free item (List.mem_cons_of_mem _ h), (List.pairwise_cons.1 hfree.distinct).2⟩
      fun item hi ↦ h item (List.mem_cons_of_mem _ hi)

/-- **Records that are ingested again** change nothing, if the account has a callsign or the unique
index is there. -/
theorem run_ingest_again (hsame : items₂.map Prod.snd = items.map Prod.snd)
    (hnames : ∀ item ∈ items, AdifNamed item.2) (hfree : IdsFree items c)
    (hfree₂ : IdsFree items₂ (run (ingest operator profile source) c items))
    (hknown : operator ≠ "" ∨ c.rowHashUnique = true) :
    run (ingest operator profile source) (run (ingest operator profile source) c items) items₂ =
      run (ingest operator profile source) c items := by
  have hrecord : ∀ item ∈ items₂, ∃ first ∈ items, first.2 = item.2 := by
    intro item hitem
    exact List.mem_map.1 (hsame ▸ List.mem_map_of_mem hitem)
  refine run_ingest_of_not_takes (fun item hitem ↦ ?_) hfree₂ fun item hitem dict ↦ ?_
  · obtain ⟨first, hfirst, heq⟩ := hrecord item hitem
    exact heq ▸ hnames first hfirst
  · obtain ⟨first, hfirst, heq⟩ := hrecord item hitem
    rw [← heq]
    exact not_takes_after hnames hfree hknown hfirst item.1 dict

/-! ## An account without a callsign -/

/-- Whether the log takes a record, where no index is in the way. -/
def Wanted (profile : Option User) (c : Collection) (record : Record) : Prop :=
  ∃ env qsoDict, Takes env record "" profile c qsoDict

omit [UnicodeData] in
/-- A document without an operator is not what the search of such an account finds. -/
theorem Searches.eq_false_of_null {qsoDict : Doc} {query : Doc → Bool}
    (h : Searches "" qsoDict query) {e : Doc} (he : e["_operator"]? = some .null) :
    query e = false := by
  obtain ⟨_, _, _, _, _, _, -, -, -, -, -, -, rfl⟩ := h
  have hother : Doc.fieldIs e "_operator" (.str "") = false := by
    simp only [Doc.fieldIs, Doc.fieldMatches, he]
    decide
  simp only [duplicateQuery, hother, Bool.false_and]

/-- The documents such an account adds make no difference to what it takes. -/
theorem takes_iff_wanted {qsoDict : Doc} {added : List Doc} {c₂ : Collection}
    (hdocs : c₂.docs = c.docs ++ added) (hnull : ∀ e ∈ added, e["_operator"]? = some .null)
    (hindex : c.rowHashUnique = false) (hindex₂ : c₂.rowHashUnique = false) :
    Takes env record "" profile c₂ qsoDict ↔ Takes env₂ record "" profile c qsoDict := by
  have hno : ∀ {c : Collection} {env : Env}, c.rowHashUnique = false →
      c.refuses (newDoc env 0 qsoDict) = false := by
    intro c env h
    rw [Collection.refuses, h, Bool.false_and]
  constructor
  · rintro ⟨hrequired, hbuild, ⟨query, hsearch, hnone⟩, -⟩
    refine ⟨hrequired, hbuild, ⟨query, hsearch, fun e he ↦ hnone e ?_⟩, hno hindex⟩
    rw [hdocs]
    exact List.mem_append_left _ he
  · rintro ⟨hrequired, hbuild, ⟨query, hsearch, hnone⟩, -⟩
    refine ⟨hrequired, hbuild, ⟨query, hsearch, fun e he ↦ ?_⟩, hno hindex₂⟩
    rw [hdocs, List.mem_append] at he
    exact he.elim (hnone e) fun h ↦ hsearch.eq_false_of_null (hnull e h)

open Classical in
/-- How many records such an account accepts does not depend on what it has accepted before. -/
theorem length_run_ingest (source : String) {added : List Doc} {c₂ : Collection}
    (hdocs : c₂.docs = c.docs ++ added) (hnull : ∀ e ∈ added, e["_operator"]? = some .null)
    (hindex : c.rowHashUnique = false) (hindex₂ : c₂.rowHashUnique = false)
    (hnames : ∀ item ∈ items, AdifNamed item.2) (hfree : IdsFree items c₂) :
    (∃ new, (run (ingest "" profile source) c₂ items).docs = c₂.docs ++ new ∧
      (∀ e ∈ new, e["_operator"]? = some .null) ∧
      new.length = (items.map Prod.snd).countP fun record ↦ Wanted profile c record) := by
  induction items generalizing c₂ added with
  | nil => exact ⟨[], (List.append_nil _).symm, fun _ h ↦ absurd h List.not_mem_nil, rfl⟩
  | cons item items ih =>
    have hstep := step_ingest "" profile source
      (hnames item (List.mem_cons_self ..)) (hfree.free item (List.mem_cons_self ..))
    have hrest := hfree.tail "" profile source
      (hnames item (List.mem_cons_self ..))
    have hnames' : ∀ item ∈ items, AdifNamed item.2 := fun item h ↦
      hnames item (List.mem_cons_of_mem _ h)
    rw [run_cons, List.map_cons, List.countP_cons]
    generalize ingest "" profile source c₂ item = c₃ at hstep hrest
    cases hstep with
    | kept hrefuses =>
      have hnot : ¬ Wanted profile c item.2 := by
        rintro ⟨env, dict, htakes⟩
        exact hrefuses dict ((takes_iff_wanted hdocs hnull hindex hindex₂).2 htakes)
      obtain ⟨new, hnew, hnullnew, hlength⟩ := ih hdocs hnull hindex₂ hnames' hrest
      refine ⟨new, hnew, hnullnew, ?_⟩
      rw [hlength, if_neg (by simpa using hnot), Nat.add_zero]
    | @taken _ qsoDict htakes hdict hdocs₃ hindex₃ =>
      have hwanted : Wanted profile c item.2 :=
        ⟨item.1, qsoDict, (takes_iff_wanted hdocs hnull hindex hindex₂).1 htakes⟩
      have hfirst : (Doc.toStored (newDoc item.1 0 qsoDict))["_operator"]? = some .null :=
        (getElem?_newDoc_operator htakes.build hdict).trans (if_pos rfl ▸ rfl)
      obtain ⟨new, hnew, hnullnew, hlength⟩ := ih
        (show c₃.docs = c.docs ++ (added ++ [_]) by rw [hdocs₃, hdocs, List.append_assoc])
        (Collection.forall_mem_append_singleton hnull hfirst) (hindex₃.trans hindex₂) hnames' hrest
      refine ⟨_ :: new, ?_, List.forall_mem_cons.2 ⟨hfirst, hnullnew⟩, ?_⟩
      · rw [hnew, hdocs₃, List.append_assoc, List.singleton_append]
      · rw [List.length_cons, hlength, if_pos (decide_eq_true hwanted)]

/-- **An account that has neither a callsign nor the unique index** accepts again what it has
accepted before. -/
theorem length_ingest_again (hsame : items₂.map Prod.snd = items.map Prod.snd)
    (hnames : ∀ item ∈ items, AdifNamed item.2) (hindex : c.rowHashUnique = false)
    (hfree : IdsFree items c)
    (hfree₂ : IdsFree items₂ (run (ingest "" profile source) c items)) :
    (run (ingest "" profile source) (run (ingest "" profile source) c items) items₂).docs.length +
      c.docs.length = 2 * (run (ingest "" profile source) c items).docs.length := by
  have hnames₂ : ∀ item ∈ items₂, AdifNamed item.2 := by
    intro item hitem
    obtain ⟨first, hfirst, heq⟩ := List.mem_map.1 (hsame ▸ List.mem_map_of_mem (f := Prod.snd) hitem)
    exact heq ▸ hnames first hfirst
  obtain ⟨new, hnew, hnull, hlength⟩ := length_run_ingest source
    (List.append_nil c.docs).symm (fun _ h ↦ absurd h List.not_mem_nil) hindex hindex hnames hfree
  obtain ⟨new₂, hnew₂, -, hlength₂⟩ := length_run_ingest source
    hnew hnull hindex ((extends_run_ingest "" profile source items c).rowHashUnique.trans hindex) hnames₂ hfree₂
  rw [hsame, ← hlength] at hlength₂
  rw [hnew₂, List.length_append, hlength₂, hnew, List.length_append]
  omega

end

end Ollog
