import Mathlib.Data.List.Range
import Ollog.Qso.Import

/-!
# An import accounts for every record

The report of an import lists what was accepted, what was a duplicate and what was wrong.  Nothing
gets lost on the way: `ImportReport.Accounts` says that the indices in the three lists, without the
entries the parser has put there, are those of the records, each once, and that what was accepted
is there.

What can go wrong is that the loop is left.  It catches `ValueError` and `KeyError` around
`build_qso_dict`, and nothing around the search, whose window leaves the years 1 to 9999 for an
instant in their first or last two minutes: `import_accounts_iff` says that this is all, in a log
every document of which can be read.
-/

set_option autoImplicit false

namespace Ollog

open Effects

/-! ## The entries of a report -/

/-- The entry of an accepted record. -/
def acceptedEntry : (Record × Nat) × Outcome → Option AcceptedEntry
  | (item, .accepted call id) => some ⟨item.2, call, id⟩
  | _ => none

/-- The entry of a duplicate. -/
def duplicateEntry : (Record × Nat) × Outcome → Option DuplicateEntry
  | (item, .duplicate call existingId) => some ⟨item.2, call, existingId, item.1⟩
  | _ => none

/-- The entry of an invalid record. -/
def errorEntry : (Record × Nat) × Outcome → Option ErrorEntry
  | (item, .error call text) => some ⟨item.2, call, text⟩
  | _ => none

/-- **The report**, list by list. -/
theorem addAll_eq (report : ImportReport) (items : List (Record × Nat))
    (outcomes : List Outcome) : report.addAll items outcomes = { report with
      accepted := report.accepted ++ (items.zip outcomes).filterMap acceptedEntry
      duplicates := report.duplicates ++ (items.zip outcomes).filterMap duplicateEntry
      errors := report.errors ++ (items.zip outcomes).filterMap errorEntry } := by
  rw [ImportReport.addAll]
  generalize items.zip outcomes = ps
  induction ps generalizing report with
  | nil => simp only [List.foldl_nil, List.filterMap_nil, List.append_nil]
  | cons p ps ih =>
    obtain ⟨item, outcome⟩ := p
    rw [List.foldl_cons, ih]
    cases outcome <;> simp only [ImportReport.add, acceptedEntry, duplicateEntry, errorEntry,
      List.filterMap_cons, List.append_assoc, List.singleton_append]

/-- Every record has an entry in one of the three lists. -/
theorem perm_entries (ps : List ((Record × Nat) × Outcome)) :
    ((ps.filterMap acceptedEntry).map (·.recordIndex) ++
      (ps.filterMap duplicateEntry).map (·.recordIndex) ++
      (ps.filterMap errorEntry).map (·.recordIndex)).Perm (ps.map fun p ↦ p.1.2) := by
  induction ps with
  | nil => exact .nil
  | cons p ps ih =>
    obtain ⟨item, outcome⟩ := p
    cases outcome with
    | accepted call id => exact ih.cons item.2
    | duplicate call existingId =>
      refine List.Perm.trans ?_ (ih.cons item.2)
      simp only [acceptedEntry, duplicateEntry, errorEntry, List.filterMap_cons, List.map_cons,
        List.append_assoc, List.cons_append]
      exact List.perm_middle
    | error call text =>
      refine List.Perm.trans ?_ (ih.cons item.2)
      simp only [acceptedEntry, duplicateEntry, errorEntry, List.filterMap_cons, List.map_cons]
      exact List.perm_middle

/-! ## Accounting -/

section

variable [UnicodeData]

/-- The report accounts for every record of a file. -/
structure ImportReport.Accounts (raw : List UInt8) (c : Collection) (report : ImportReport) :
    Prop where
  total : report.totalRecords = (parseAdi (decodeUtf8 raw)).1.length
  /-- Behind the errors of the parser, the entries are those of the records, each once. -/
  entries : ∃ errors, report.errors = (initialReport raw).errors ++ errors ∧
    (report.accepted.map (·.recordIndex) ++ report.duplicates.map (·.recordIndex) ++
      errors.map (·.recordIndex)).Perm (List.range report.totalRecords)
  /-- An accepted entry names a document that is there. -/
  stored : ∀ entry ∈ report.accepted, ∃ d ∈ c.docs, ∃ id, d["_id"]? = some id ∧
    id.pyStr = entry.id

theorem map_snd_importItems (raw : List UInt8) : (importItems raw).map Prod.snd =
    List.range (parseAdi (decodeUtf8 raw)).1.length := by
  rw [importItems, List.zipIdx_map_snd, List.range_eq_range']

theorem upperNamed_of_mem_importItems {raw : List UInt8} {item : Record × Nat}
    (h : item ∈ importItems raw) : UpperNamed item.1 :=
  upperNamed_of_mem_parseAdi (List.fst_mem_of_mem_zipIdx h)

omit [UnicodeData] in
theorem acceptedEntry_eq_some {p : (Record × Nat) × Outcome} {entry : AcceptedEntry}
    (h : acceptedEntry p = some entry) :
    p = (p.1, .accepted entry.call entry.id) ∧ entry.recordIndex = p.1.2 := by
  unfold acceptedEntry at h
  split at h
  · cases h
    exact ⟨rfl, rfl⟩
  · cases h

theorem JudgedAll.accounts {env : Env} {operator : String} {raw : List UInt8} {c c' : Collection}
    {outcomes : List Outcome} (h : JudgedAll env operator (importItems raw) c outcomes c') :
    ((initialReport raw).addAll (importItems raw) outcomes).Accounts raw c' := by
  have hzip : ((importItems raw).zip outcomes).map (fun p ↦ p.1.2) =
      List.range (parseAdi (decodeUtf8 raw)).1.length := by
    have hfst : ((importItems raw).zip outcomes).map Prod.fst = importItems raw :=
      List.map_fst_zip h.length_eq.ge
    rw [← map_snd_importItems, ← congrArg (List.map Prod.snd) hfst, List.map_map]
    rfl
  rw [addAll_eq]
  refine ⟨rfl, ⟨_, rfl, ?_⟩, ?_⟩
  · exact hzip ▸ perm_entries _
  · intro entry hentry
    obtain ⟨⟨item, outcome⟩, hmem, hp⟩ := List.mem_filterMap.1 hentry
    obtain ⟨heq, -⟩ := acceptedEntry_eq_some hp
    obtain ⟨qsoDict, hvalid, -, hid, hd⟩ := h.mem_of_accepted (heq ▸ hmem)
    obtain ⟨dt, rfl, hupper, hrequired⟩ :=
      newDoc_of_validated hvalid (upperNamed_of_mem_importItems (List.of_mem_zip hmem).1)
    refine ⟨_, hd, .oid (env.fresh item.2), ?_, hid.symm⟩
    rw [Doc.getElem?_toStored, getElem?_newDoc_importDict hupper hrequired, if_pos rfl]
    rfl

/-- A file that is imported at all is not too large. -/
theorem length_le_of_import {env : Env} {raw : List UInt8} {operator : String} {c c' : Collection}
    {report : ImportReport} (h : (importQsosFromBytes env raw operator : Db _) c = .ok report c') :
    raw.length ≤ maxBytes := by
  by_contra hsize
  rw [importQsosFromBytes, if_pos (Nat.lt_of_not_le hsize)] at h
  cases h

/-- An import that returns has judged every record, and reports the outcomes. -/
theorem judgedAll_of_import {env : Env} {raw : List UInt8} {operator : String} {c c' : Collection}
    {report : ImportReport} (hread : Readable c)
    (hfresh : env.Fresh (parseAdi (decodeUtf8 raw)).1.length c)
    (h : (importQsosFromBytes env raw operator : Db _) c = .ok report c') :
    ∃ outcomes, JudgedAll env operator (importItems raw) c outcomes c' ∧
      report = (initialReport raw).addAll (importItems raw) outcomes := by
  rw [importQsosFromBytes_eq (length_le_of_import h)] at h
  obtain ⟨outcomes, c'', hmap, hreport⟩ := run_bind_eq_ok.1 h
  cases hreport
  have hjudged : wp ((importItems raw).mapM (judge env operator))
      (JudgedAll env operator (importItems raw) c) (fun _ _ ↦ True) c := wp_mapM_judge (by rw [map_snd_importItems]; exact hfresh.nodup)
    (fun _ ↦ upperNamed_of_mem_importItems) (fun _ _ _ _ _ ↦ trivial) (fun _ ↦ trivial) hread
    (by rw [map_snd_importItems]; exact hfresh.unused)
  rw [wp, hmap] at hjudged
  exact ⟨outcomes, hjudged, rfl⟩

theorem JudgedAll.readable {env : Env} {operator : String} {items : List (Record × Nat)}
    {c c' : Collection} {outcomes : List Outcome}
    (h : JudgedAll env operator items c outcomes c') (hup : ∀ item ∈ items, UpperNamed item.1)
    (hread : Readable c) : Readable c' := by
  induction h with
  | nil => exact hread
  | cons hjudged _ ih =>
    exact ih (fun i hi ↦ hup i (List.mem_cons_of_mem _ hi))
      (hjudged.readable (hup _ (List.mem_cons_self ..)) hread)

/-- A document of the log is an old one, or the one of a record. -/
theorem JudgedAll.mem_docs {env : Env} {operator : String} {items : List (Record × Nat)}
    {c c' : Collection} {outcomes : List Outcome}
    (h : JudgedAll env operator items c outcomes c') {d : Doc} (hd : d ∈ c'.docs) :
    d ∈ c.docs ∨ ∃ item ∈ items, ∃ qsoDict, validated operator item.1 = .ok qsoDict ∧
      d = Doc.toStored (newDoc env item.2 qsoDict) := by
  induction h with
  | nil => exact .inl hd
  | cons hjudged _ ih =>
    obtain hd | ⟨item, hitem, hrest⟩ := ih hd
    · exact (hjudged.mem_docs hd).imp_right fun h ↦ ⟨_, List.mem_cons_self .., h⟩
    · exact .inr ⟨item, List.mem_cons_of_mem _ hitem, hrest⟩

/-- The instant of a record, if it has one, is two minutes from the ends of the calendar. -/
def InstantInRange (record : Record) : Prop :=
  ∀ date ∈ record["QSO_DATE"]?, ∀ time ∈ record["TIME_ON"]?,
    ∀ dt ∈ (parseAdifDatetime (.str date) (.str time)).toOption, dt.InRange

instance : DecidablePred InstantInRange := fun record ↦
  inferInstanceAs (Decidable (∀ date ∈ record["QSO_DATE"]?, ∀ time ∈ record["TIME_ON"]?,
    ∀ dt ∈ (parseAdifDatetime (.str date) (.str time)).toOption, dt.InRange))

/-- A record can be searched for exactly if it is complete and its instant is in range. -/
theorem instantInRange_iff (operator : String) {record : Record} :
    ((∀ k ∈ requiredFields, k ∈ record) → InstantInRange record) ↔
      ∀ qsoDict, validated operator record = .ok qsoDict →
        ∃ query, Searches operator qsoDict query := by
  constructor
  · intro h qsoDict hvalid
    obtain ⟨hrequired, date, time, dt, hdate, htime, hdt, rfl⟩ := validated_eq_ok.1 hvalid
    exact (exists_searches_iff hrequired).2 (h hrequired date hdate time htime dt (by rw [hdt]; rfl))
  · intro h hrequired date hdate time htime dt hdt
    have hok : parseAdifDatetime (.str date) (.str time) = .ok dt := by
      cases hparse : parseAdifDatetime (.str date) (.str time) with
      | error exc =>
        rw [hparse] at hdt
        cases hdt
      | ok dt' =>
        rw [hparse] at hdt
        exact congrArg Except.ok (Option.some.inj hdt)
    exact (exists_searches_iff hrequired).1
      (h _ (validated_eq_ok.2 ⟨hrequired, date, time, dt, hdate, htime, hok, rfl⟩))

/-- **An import comes to its end and accounts for every record** of the file, in a log that can be
read, exactly if no complete record of the file is in the first or last two minutes of the years 1
to 9999, and none that is about to be stored has a field name the BSON encoder does not take. -/
theorem import_accounts_iff {fullName : String} {rowHashUnique : Bool}
    {events : List (Env × Request)} (hevents : ∀ event ∈ events, event.2.SparesKeywords)
    {env : Env} {raw : List UInt8} {operator : String} (hsize : raw.length ≤ maxBytes)
    (hfresh : env.Fresh (parseAdi (decodeUtf8 raw)).1.length
      (run step (.empty fullName rowHashUnique) events)) :
    wp (importQsosFromBytes env raw operator : Db _) (fun report c ↦ report.Accounts raw c)
        (fun _ _ ↦ False) (run step (.empty fullName rowHashUnique) events) ↔
      (∀ record ∈ (parseAdi (decodeUtf8 raw)).1, (∀ k ∈ requiredFields, k ∈ record) →
        InstantInRange record) ∧
        NamesStorable env operator (run step (.empty fullName rowHashUnique) events)
          (importItems raw) := by
  have hnodup : (((importItems raw).map Prod.snd).map env.fresh).Nodup := by
    rw [map_snd_importItems]
    exact hfresh.nodup
  have hunused : env.Unused ((importItems raw).map Prod.snd)
      (run step (.empty fullName rowHashUnique) events) := by
    rw [map_snd_importItems]
    exact hfresh.unused
  have hjudge : ∀ E : Prop, (∀ item ∈ importItems raw, ∀ qsoDict,
      validated operator item.1 = .ok qsoDict →
      (¬ ∃ query, Searches operator qsoDict query) → E) →
      (¬ NamesStorable env operator (run step (.empty fullName rowHashUnique) events)
        (importItems raw) → E) →
      wp ((importItems raw).mapM (judge env operator))
        (JudgedAll env operator (importItems raw)
          (run step (.empty fullName rowHashUnique) events)) (fun _ _ ↦ E)
        (run step (.empty fullName rowHashUnique) events) := fun E hrange hencode ↦
    wp_mapM_judge hnodup (fun _ ↦ upperNamed_of_mem_importItems) hrange hencode
      (readable_run hevents) hunused
  rw [importQsosFromBytes_eq hsize, wp_bind]
  constructor
  · intro h
    obtain ⟨outcomes, c', hok, -⟩ := exists_ok_iff_wp.2 h
    have hjudged := hjudge True (fun _ _ _ _ _ ↦ trivial) fun _ ↦ trivial
    rw [wp, hok] at hjudged
    refine ⟨fun record hrecord hrequired ↦ ?_,
      hjudged.namesStorable fun _ ↦ upperNamed_of_mem_importItems⟩
    obtain ⟨idx, hlt, rfl⟩ := List.mem_iff_getElem.1 hrecord
    exact (instantInRange_iff operator).2 (hjudged.exists_searches (_, idx)
      (List.mk_mem_zipIdx_iff_getElem?.2 (List.getElem?_eq_getElem hlt))) hrequired
  · rintro ⟨h, hstorable⟩
    refine wp_mono (hjudge False (fun item hitem qsoDict hvalid hnone ↦ hnone ?_)
      fun hnames ↦ hnames hstorable) (fun outcomes c' hjudged ↦ hjudged.accounts) fun _ _ h ↦ h
    exact (instantInRange_iff operator).1 (h item.1 (List.fst_mem_of_mem_zipIdx hitem)) qsoDict hvalid

end

/-! ## Two files -/

section

attribute [local instance] UnicodeData.ascii

/-- A file with one contact. -/
@[irreducible] def Sample.file : List UInt8 :=
  encodeUtf8 "<CALL:5>K1ABC<BAND:3>20m<MODE:2>CW<QSO_DATE:8>20240101<TIME_ON:4>1200<EOR>".toList

/-- A file with a contact in the first minute of the year 1. -/
@[irreducible] def Sample.firstMinute : List UInt8 :=
  encodeUtf8 "<CALL:5>K1ABC<BAND:3>20m<MODE:2>CW<QSO_DATE:8>00010101<TIME_ON:4>0000<EOR>".toList

theorem import_accounts_of_contact :
    wp (importQsosFromBytes Sample.env Sample.file "W1AW" : Db _)
      (fun report c ↦ report.Accounts Sample.file c) (fun _ _ ↦ False)
      (run step (.empty "ollog.w1aw_qsos" true) []) := by
  have hzero : ((parseAdi (decodeUtf8 Sample.file)).1.all fun record ↦ record.keys.all fun k ↦
      !k.toList.contains (Char.ofNat 0)) = true := by decide +kernel
  have hsize : Sample.file.length ≤ maxBytes := by decide +kernel
  have hnodup : ((List.range (parseAdi (decodeUtf8 Sample.file)).1.length).map
      Sample.env.fresh).Nodup := by decide +kernel
  have hrange : ∀ record ∈ (parseAdi (decodeUtf8 Sample.file)).1,
      (∀ k ∈ requiredFields, k ∈ record) → InstantInRange record := by decide +kernel
  refine (import_accounts_iff (fun _ h ↦ absurd h List.not_mem_nil) hsize
    ⟨hnodup, fun _ _ d hd ↦ absurd hd List.not_mem_nil⟩).2
      ⟨hrange, fun before item after hitems _ k hk ↦ ?_⟩
  have hitem : item ∈ importItems Sample.file := by simp [hitems]
  have hrecord := List.all_eq_true.1 (List.all_eq_true.1 hzero item.1
    (List.fst_mem_of_mem_zipIdx hitem)) k (Std.ExtTreeMap.mem_keys.2 hk)
  simpa [noZero] using hrecord

/-- The window of `find_duplicate` begins before the year 1. -/
theorem import_aborts_in_first_minute :
    ¬ wp (importQsosFromBytes Sample.env Sample.firstMinute "W1AW" : Db _)
      (fun report c ↦ report.Accounts Sample.firstMinute c) (fun _ _ ↦ False)
      (run step (.empty "ollog.w1aw_qsos" true) []) := by
  intro h
  obtain ⟨report, c, hok, -⟩ := exists_ok_iff_wp.2 h
  have herror : (match (importQsosFromBytes Sample.env Sample.firstMinute "W1AW" : Db _)
      (run step (.empty "ollog.w1aw_qsos" true) []) with
      | .ok _ _ => false
      | .error exc _ => exc = .overflowError "date value out of range") = true := by
    decide +kernel
  rw [hok] at herror
  cases herror

end

end Ollog
