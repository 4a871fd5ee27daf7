import Ollog.Qso.Hydration
import Ollog.Qso.Separation

/-!
# Importing a file

`import_qsos_from_bytes` takes the records of a file one after another.  What it makes of a record
is an `Outcome`; the report only collects the outcomes, so the loop is `judge` for every record,
and then bookkeeping (`importQsosFromBytes_eq`).

A record is settled in three stages.  `validated` is the one that looks at the record alone: it
gives the dictionary to insert, or the text of the error entry.  Then `find_duplicate` is asked,
with the query that `Searches` describes, and then the dictionary is inserted, unless the unique
index keeps it out.
-/

set_option autoImplicit false

namespace Ollog

open Effects

/-! ## Outcomes -/

/-- What an import makes of one record. -/
inductive Outcome where
  | error (call : Value) (text : String)
  | duplicate (call : Value) (existingId : String)
  | accepted (call : Value) (id : String)

/-- The report after one more record. -/
def ImportReport.add (report : ImportReport) (item : Record × Nat) : Outcome → ImportReport
  | .error call text => { report with errors := report.errors ++ [⟨item.2, call, text⟩] }
  | .duplicate call existingId => { report with
      duplicates := report.duplicates ++ [⟨item.2, call, existingId, item.1⟩] }
  | .accepted call id => { report with accepted := report.accepted ++ [⟨item.2, call, id⟩] }

/-- `record.get("CALL", "?")`. -/
def recordCall (record : Record) : Value := (record["CALL"]?.map Value.str).getD (.str "?")

section

variable [UnicodeData]

/-- The dictionary a record is turned into, or the text of its error entry. -/
def validated (operator : String) (record : Record) : Except String Doc :=
  match requiredFields.filter (· ∉ record) with
  | field :: fields =>
    .error ("Missing required field(s): " ++ ", ".intercalate (field :: fields))
  | [] => match buildQsoDict record.toDoc operator none with
    | .error exc => .error exc.str
    | .ok qsoDict => .ok qsoDict

/-- Search for a dictionary, and insert it if nothing is found. -/
def judgeDict (env : Env) (operator : String) (idx : Nat) (qsoDict : Doc) : Db Outcome := do
  match ← findDuplicateOf env operator qsoDict with
  | some dup => return .duplicate (Doc.get qsoDict "CALL" .null) dup.id.pyStr
  | none =>
    let result ← insertQsoDict env (env.fresh idx) qsoDict
    match result.status with
    | .duplicate => return .duplicate (Doc.get qsoDict "CALL" .null) (idText result.existing)
    | .inserted => return .accepted (Doc.get qsoDict "CALL" .null) (idText result.qso)

/-- What an import makes of one record. -/
def judge (env : Env) (operator : String) (item : Record × Nat) : Db Outcome :=
  match validated operator item.1 with
  | .error text => return .error (recordCall item.1) text
  | .ok qsoDict => judgeDict env operator item.2 qsoDict

/-! ## Validation -/

/-- A record with one of its texts upper-cased. -/
def upperText (k : String) (record : Record) : Record :=
  record.map fun j v ↦ if j = k then upper v else v

/-- A record with its band and mode upper-cased. -/
def upperBandMode (record : Record) : Record := upperText "MODE" (upperText "BAND" record)

/-- The dictionary of a record. -/
def importDict (operator : String) (record : Record) (dt : DateTime) : Doc :=
  ((record.toDoc.insert "qso_date_utc" (.datetime dt)).insert "operator_callsign"
    (.str operator)).insert "is_deleted" (.bool false)

omit [UnicodeData] in
theorem getElem?_toDoc (record : Record) (k : String) :
    record.toDoc[k]? = record[k]?.map Value.str := by
  rw [Record.toDoc, Std.ExtTreeMap.getElem?_map]

theorem getElem?_upperText (k : String) (record : Record) (j : String) :
    (upperText k record)[j]? = record[j]?.map fun v ↦ if j = k then upper v else v := by
  rw [upperText, Std.ExtTreeMap.getElem?_map]

theorem upperField_toDoc (k : String) (record : Record) :
    upperField record.toDoc k = .ok (upperText k record).toDoc := by
  have hother : ∀ j ≠ k, (upperText k record).toDoc[j]? = record.toDoc[j]? := by
    intro j hj
    simp only [getElem?_toDoc, getElem?_upperText, hj, if_false, Option.map_id']
  rw [upperField, getElem?_toDoc]
  cases hk : record[k]? with
  | none =>
    refine congrArg Except.ok (Std.ExtTreeMap.ext_getElem? fun j ↦ ?_)
    by_cases hj : j = k
    · subst hj
      simp only [getElem?_toDoc, getElem?_upperText, hk, Option.map_none]
    · exact (hother j hj).symm
  | some s =>
    refine congrArg Except.ok (Std.ExtTreeMap.ext_getElem? fun j ↦ ?_)
    rw [Doc.getElem?_insert]
    by_cases hj : j = k
    · subst hj
      simp only [getElem?_toDoc, getElem?_upperText, hk, Option.map_some, if_true]
    · rw [if_neg hj]
      exact (hother j hj).symm

omit [UnicodeData] in
theorem getItem_toDoc {record : Record} {k s : String} (h : record[k]? = some s) :
    getItem record.toDoc k = .ok (.str s) := by
  rw [getItem, getElem?_toDoc, h, Option.map_some]

/-- Without a profile a record is only upper-cased and dated. -/
theorem buildQsoDict_toDoc {operator : String} {record : Record} {date time : String}
    (hdate : record["QSO_DATE"]? = some date) (htime : record["TIME_ON"]? = some time) :
    buildQsoDict record.toDoc operator none = (do
      let dt ← parseAdifDatetime (.str date) (.str time)
      return importDict operator (upperBandMode record) dt) := by
  have happly : applyCustomFieldNormalization record.toDoc none = .ok record.toDoc := rfl
  have hkept : ∀ k, k ≠ "BAND" → k ≠ "MODE" → (upperBandMode record)[k]? = record[k]? := by
    intro k hband hmode
    simp only [upperBandMode, getElem?_upperText, hband, hmode, if_false, Option.map_id']
  rw [buildQsoDict, happly]
  simp only [bind, Except.bind, upperField_toDoc]
  rw [← upperBandMode, getItem_toDoc ((hkept "QSO_DATE" (by decide) (by decide)).trans hdate),
    getItem_toDoc ((hkept "TIME_ON" (by decide) (by decide)).trans htime)]
  rfl

theorem valueError_of_strptimeFields {fields : List Field} {format text : String} {exc : PyErr}
    (h : strptimeFields fields format text = .error exc) : ∃ msg, exc = .valueError msg := by
  rw [strptimeFields] at h
  split at h
  · exact ⟨_, (Except.error.inj h).symm⟩
  · cases h
  · exact ⟨_, (Except.error.inj h).symm⟩

/-- Two texts that are no date and time make a `ValueError`. -/
theorem valueError_of_parseAdifDatetime {date time : String} {exc : PyErr}
    (h : parseAdifDatetime (.str date) (.str time) = .error exc) :
    ∃ msg, exc = .valueError msg := by
  have hdate : ∀ exc, strptimeDate date = .error exc → ∃ msg, exc = .valueError msg := by
    intro exc h
    obtain h | ⟨_, -, h⟩ := bind_eq_error.1 h
    · exact valueError_of_strptimeFields h
    · split at h
      · split at h
        · exact ⟨_, (Except.error.inj h).symm⟩
        split at h
        · exact ⟨_, (Except.error.inj h).symm⟩
        · cases h
      · exact ⟨_, (Except.error.inj h).symm⟩
  have hHM : ∀ exc, strptimeHM time = .error exc → ∃ msg, exc = .valueError msg := by
    intro exc h
    obtain h | ⟨_, -, h⟩ := bind_eq_error.1 h
    · exact valueError_of_strptimeFields h
    · split at h
      · cases h
      · exact ⟨_, (Except.error.inj h).symm⟩
  have hHMS : ∀ exc, strptimeHMS time = .error exc → ∃ msg, exc = .valueError msg := by
    intro exc h
    obtain h | ⟨_, -, h⟩ := bind_eq_error.1 h
    · exact valueError_of_strptimeFields h
    · split at h
      · split at h
        · exact ⟨_, (Except.error.inj h).symm⟩
        · cases h
      · exact ⟨_, (Except.error.inj h).symm⟩
  obtain h | ⟨_, -, h⟩ := bind_eq_error.1 h
  · exact hdate exc h
  obtain h | ⟨_, -, h⟩ := bind_eq_error.1 h
  · rw [parseAdifTime] at h
    dsimp only at h
    split at h
    · exact hHM exc h
    split at h
    · exact hHMS exc h
    · exact ⟨_, (Except.error.inj h).symm⟩
  · cases h

omit [UnicodeData] in
/-- A record has all the fields an import requires. -/
theorem filter_requiredFields_eq_nil {record : Record} :
    requiredFields.filter (· ∉ record) = [] ↔ ∀ k ∈ requiredFields, k ∈ record := by
  simp only [List.filter_eq_nil_iff, decide_eq_true_eq, not_not]

omit [UnicodeData] in
/-- The two texts of a complete record. -/
theorem exists_instant_of_complete {record : Record} (h : ∀ k ∈ requiredFields, k ∈ record) :
    ∃ date time, record["QSO_DATE"]? = some date ∧ record["TIME_ON"]? = some time := by
  have hget : ∀ k ∈ requiredFields, ∃ s, record[k]? = some s := fun k hk ↦
    Option.isSome_iff_exists.1 (Std.ExtTreeMap.mem_iff_isSome_getElem?.1 (h k hk))
  obtain ⟨date, hdate⟩ := hget "QSO_DATE" (by decide)
  obtain ⟨time, htime⟩ := hget "TIME_ON" (by decide)
  exact ⟨date, time, hdate, htime⟩

/-- **Validation.**  A record becomes a dictionary exactly if it is complete and its date and time
parse. -/
theorem validated_eq_ok {operator : String} {record : Record} {qsoDict : Doc} :
    validated operator record = .ok qsoDict ↔ (∀ k ∈ requiredFields, k ∈ record) ∧
      ∃ date time dt, record["QSO_DATE"]? = some date ∧ record["TIME_ON"]? = some time ∧
        parseAdifDatetime (.str date) (.str time) = .ok dt ∧
        qsoDict = importDict operator (upperBandMode record) dt := by
  rw [validated]
  split
  · rename_i field fields hmissing
    refine ⟨fun h ↦ (nomatch h), fun ⟨h, _⟩ ↦ ?_⟩
    rw [filter_requiredFields_eq_nil.2 h] at hmissing
    cases hmissing
  rename_i hcomplete
  have hrequired := filter_requiredFields_eq_nil.1 hcomplete
  obtain ⟨date, time, hdate, htime⟩ := exists_instant_of_complete hrequired
  rw [buildQsoDict_toDoc hdate htime]
  cases hdt : parseAdifDatetime (.str date) (.str time) with
  | error exc =>
    refine ⟨fun h ↦ (nomatch h), fun ⟨_, date', time', dt, hdate', htime', hdt', _⟩ ↦ ?_⟩
    obtain rfl := Option.some.inj (hdate.symm.trans hdate')
    obtain rfl := Option.some.inj (htime.symm.trans htime')
    cases hdt.symm.trans hdt'
  | ok dt =>
    constructor
    · intro h
      exact ⟨hrequired, date, time, dt, hdate, htime, hdt, (Except.ok.inj h).symm⟩
    · rintro ⟨-, date', time', dt', hdate', htime', hdt', rfl⟩
      obtain rfl := Option.some.inj (hdate.symm.trans hdate')
      obtain rfl := Option.some.inj (htime.symm.trans htime')
      obtain rfl := Except.ok.inj (hdt.symm.trans hdt')
      rfl

/-! ## The loop -/

/-- What is done with an outcome is done in each of the three places it comes from. -/
theorem judgeDict_bind {β : Type} {env : Env} {operator : String} {idx : Nat} {qsoDict : Doc}
    (f : Outcome → Db β) :
    judgeDict env operator idx qsoDict >>= f = (do
      match ← findDuplicateOf env operator qsoDict with
      | some dup => f (.duplicate (Doc.get qsoDict "CALL" .null) dup.id.pyStr)
      | none =>
        let result ← insertQsoDict env (env.fresh idx) qsoDict
        match result.status with
        | .duplicate => f (.duplicate (Doc.get qsoDict "CALL" .null) (idText result.existing))
        | .inserted => f (.accepted (Doc.get qsoDict "CALL" .null) (idText result.qso))) := by
  rw [judgeDict, bind_assoc]
  refine bind_congr fun dup ↦ ?_
  cases dup with
  | some dup => exact pure_bind _ _
  | none =>
    rw [bind_assoc]
    refine bind_congr fun result ↦ ?_
    cases result.status <;> exact pure_bind _ _

/-- A round of the loop is `judge`, and then bookkeeping. -/
theorem importRecord_eq (env : Env) (operator : String) (report : ImportReport)
    (item : Record × Nat) : (importRecord env operator report item : Db ImportReport) =
      (do return report.add item (← judge env operator item)) := by
  obtain ⟨record, idx⟩ := item
  rw [importRecord, judge, validated]
  dsimp only
  split
  · rename_i hmissing
    rw [hmissing]
    rfl
  rename_i hcomplete
  rw [hcomplete]
  obtain ⟨date, time, hdate, htime⟩ :=
    exists_instant_of_complete (filter_requiredFields_eq_nil.1 hcomplete)
  rw [buildQsoDict_toDoc hdate htime]
  cases hdt : parseAdifDatetime (.str date) (.str time) with
  | error exc =>
    obtain ⟨msg, rfl⟩ := valueError_of_parseAdifDatetime hdt
    rfl
  | ok dt =>
    exact (judgeDict_bind fun outcome ↦ pure (report.add (record, idx) outcome)).symm

/-- The report before the first record. -/
def initialReport (raw : List UInt8) : ImportReport where
  totalRecords := (parseAdi (decodeUtf8 raw)).1.length
  errors := (parseAdi (decodeUtf8 raw)).2.map fun e ↦
    { recordIndex := e.recordIndex, error := e.error }

/-- The records of a file, with their indices. -/
def importItems (raw : List UInt8) : List (Record × Nat) := (parseAdi (decodeUtf8 raw)).1.zipIdx

/-- The report of a list of outcomes. -/
def ImportReport.addAll (report : ImportReport) (items : List (Record × Nat))
    (outcomes : List Outcome) : ImportReport :=
  (items.zip outcomes).foldl (fun report p ↦ report.add p.1 p.2) report

/-- **An import** judges one record after another and reports the outcomes. -/
theorem importQsosFromBytes_eq {env : Env} {raw : List UInt8} {operator : String}
    (hsize : raw.length ≤ maxBytes) :
    (importQsosFromBytes env raw operator : Db ImportReport) = (do
      return (initialReport raw).addAll (importItems raw)
        (← (importItems raw).mapM (judge env operator))) := by
  have hround : (importRecord env operator : ImportReport → Record × Nat → Db ImportReport) =
      fun report item ↦ do return report.add item (← judge env operator item) :=
    funext fun report ↦ funext (importRecord_eq env operator report)
  rw [importQsosFromBytes, if_neg (Nat.not_lt.2 hsize), hround]
  exact foldlM_eq_mapM ImportReport.add (judge env operator) (importItems raw) (initialReport raw)

/-! ## The search -/

omit [UnicodeData] in
/-- The query `find_duplicate` asks for a dictionary. -/
def Searches (operator : String) (qsoDict : Doc) (query : Doc → Bool) : Prop :=
  ∃ call band mode dt windowStart windowEnd, qsoDict["CALL"]? = some call ∧
    qsoDict["BAND"]? = some band ∧ qsoDict["MODE"]? = some mode ∧
    qsoDict["qso_date_utc"]? = some (.datetime dt) ∧
    dt.add (-twoMinutes) = .ok windowStart ∧ dt.add twoMinutes = .ok windowEnd ∧
    query = duplicateQuery operator call band mode windowStart windowEnd

/-- Two minutes before and after an instant still lie in the years 1 to 9999. -/
def DateTime.InRange (dt : DateTime) : Prop := twoMinutes ≤ dt.wall ∧ dt.wall + twoMinutes < maxWall

instance : DecidablePred DateTime.InRange := fun dt ↦
  inferInstanceAs (Decidable (twoMinutes ≤ dt.wall ∧ dt.wall + twoMinutes < maxWall))

omit [UnicodeData] in
theorem inRange_iff {dt : DateTime} : dt.InRange ↔
    (∃ windowStart, dt.add (-twoMinutes) = .ok windowStart) ∧
      ∃ windowEnd, dt.add twoMinutes = .ok windowEnd := by
  have hadd : ∀ delta, (∃ bound, dt.add delta = .ok bound) ↔
      0 ≤ dt.wall + delta ∧ dt.wall + delta < maxWall := by
    intro delta
    rw [DateTime.add]
    split
    · rename_i h
      exact ⟨fun _ ↦ h, fun _ ↦ ⟨_, rfl⟩⟩
    · rename_i h
      refine ⟨?_, fun h' ↦ absurd h' h⟩
      rintro ⟨_, hb⟩
      cases hb
  rw [hadd, hadd, DateTime.InRange, twoMinutes]
  omega

omit [UnicodeData] in
/-- The fields of the dictionary of a record. -/
theorem getElem?_importDict (operator : String) (record : Record) (dt : DateTime) (k : String) :
    (importDict operator record dt)[k]? =
      if k = "is_deleted" then some (.bool false)
      else if k = "operator_callsign" then some (.str operator)
      else if k = "qso_date_utc" then some (.datetime dt)
      else record[k]?.map Value.str := by
  simp only [importDict, Doc.getElem?_insert, getElem?_toDoc]

theorem mem_upperBandMode {record : Record} {k : String} :
    k ∈ upperBandMode record ↔ k ∈ record := by
  simp only [upperBandMode, Std.ExtTreeMap.mem_iff_isSome_getElem?, getElem?_upperText,
    Option.isSome_map]

/-- **The search of a complete record** fails exactly where its window leaves the years 1 to
9999. -/
theorem exists_searches_iff {operator : String} {record : Record} {dt : DateTime}
    (h : ∀ k ∈ requiredFields, k ∈ record) :
    (∃ query, Searches operator (importDict operator (upperBandMode record) dt) query) ↔
      dt.InRange := by
  have hget : ∀ k ∈ ["CALL", "BAND", "MODE"],
      ∃ v, (importDict operator (upperBandMode record) dt)[k]? = some v := by
    intro k hk
    have hnames : ∀ k ∈ ["CALL", "BAND", "MODE"], k ∈ requiredFields ∧ k ≠ "is_deleted" ∧
      k ≠ "operator_callsign" ∧ k ≠ "qso_date_utc" := by decide
    obtain ⟨hreq, h₁, h₂, h₃⟩ := hnames k hk
    obtain ⟨s, hs⟩ := Option.isSome_iff_exists.1
      (Std.ExtTreeMap.mem_iff_isSome_getElem?.1 (mem_upperBandMode.2 (h k hreq)))
    exact ⟨.str s, by rw [getElem?_importDict, if_neg h₁, if_neg h₂, if_neg h₃, hs]; rfl⟩
  have hdate : (importDict operator (upperBandMode record) dt)["qso_date_utc"]? =
      some (.datetime dt) := by
    simp only [getElem?_importDict, String.reduceEq, if_false, if_true]
  rw [inRange_iff]
  constructor
  · rintro ⟨_, _, _, _, dt', windowStart, windowEnd, -, -, -, hdt', hstart, hend, -⟩
    obtain rfl := Value.datetime.inj (Option.some.inj (hdate.symm.trans hdt'))
    exact ⟨⟨windowStart, hstart⟩, windowEnd, hend⟩
  · rintro ⟨⟨windowStart, hstart⟩, windowEnd, hend⟩
    obtain ⟨call, hcall⟩ := hget "CALL" (by decide)
    obtain ⟨band, hband⟩ := hget "BAND" (by decide)
    obtain ⟨mode, hmode⟩ := hget "MODE" (by decide)
    exact ⟨_, call, band, mode, dt, windowStart, windowEnd, hcall, hband, hmode, hdate, hstart, hend,
      rfl⟩

omit [UnicodeData] in
/-- A dictionary has one query. -/
theorem Searches.unique {operator : String} {qsoDict : Doc} {query query' : Doc → Bool}
    (h : Searches operator qsoDict query) (h' : Searches operator qsoDict query') :
    query = query' := by
  obtain ⟨_, _, _, _, _, _, hcall, hband, hmode, hdate, hstart, hend, rfl⟩ := h
  obtain ⟨_, _, _, _, _, _, hcall', hband', hmode', hdate', hstart', hend', rfl⟩ := h'
  obtain rfl := Option.some.inj (hcall.symm.trans hcall')
  obtain rfl := Option.some.inj (hband.symm.trans hband')
  obtain rfl := Option.some.inj (hmode.symm.trans hmode')
  obtain rfl := Value.datetime.inj (Option.some.inj (hdate.symm.trans hdate'))
  obtain rfl := Except.ok.inj (hstart.symm.trans hstart')
  obtain rfl := Except.ok.inj (hend.symm.trans hend')
  rfl

omit [UnicodeData] in
/-- The query of a dictionary, where it has one. -/
def searchOf (operator : String) (qsoDict : Doc) : Option (Doc → Bool) :=
  match qsoDict["CALL"]?, qsoDict["BAND"]?, qsoDict["MODE"]?, qsoDict["qso_date_utc"]? with
  | some call, some band, some mode, some (.datetime dt) =>
    match dt.add (-twoMinutes), dt.add twoMinutes with
    | .ok windowStart, .ok windowEnd =>
      some (duplicateQuery operator call band mode windowStart windowEnd)
    | _, _ => none
  | _, _, _, _ => none

omit [UnicodeData] in
theorem searchOf_of_searches {operator : String} {qsoDict : Doc} {query : Doc → Bool}
    (h : Searches operator qsoDict query) : searchOf operator qsoDict = some query := by
  obtain ⟨call, band, mode, dt, windowStart, windowEnd, hcall, hband, hmode, hdate, hstart, hend,
    rfl⟩ := h
  simp only [searchOf, hcall, hband, hmode, hdate, hstart, hend]

omit [UnicodeData] in
/-- The search is one `find_one`, and the hydration of what it finds. -/
theorem wp_findDuplicateOf_of_searches {env : Env} {operator : String} {qsoDict : Doc}
    {query : Doc → Bool} {c : Collection} {Q : Option QSO → Collection → Prop}
    {E : PyErr → Collection → Prop} (h : Searches operator qsoDict query) :
    wp (findDuplicateOf env operator qsoDict : Db _) Q E c ↔
      wp (ofExcept (qsoFromFound env.now (c.docs.find? query)) : Db _) Q E c := by
  obtain ⟨call, band, mode, dt, windowStart, windowEnd, hcall, hband, hmode, hdate, hstart, hend,
    rfl⟩ := h
  have hitem : ∀ {k v}, qsoDict[k]? = some v → getItem qsoDict k = .ok v := by
    intro k v hk
    rw [getItem, hk]
  simp only [findDuplicateOf, hitem hcall, hitem hband, hitem hmode, hitem hdate, findDuplicate,
    hstart, hend, wp_bind, wp_ofExcept, wp_liftM, wp_findOne, Except.ok.injEq, forall_eq',
    reduceCtorEq, false_imp_iff, implies_true, and_true]

omit [UnicodeData] in
/-- A search that does not raise has a query. -/
theorem exists_searches_of_ok {env : Env} {operator : String} {qsoDict : Doc} {c c' : Collection}
    {dup : Option QSO} (h : (findDuplicateOf env operator qsoDict : Db _) c = .ok dup c') :
    ∃ query, Searches operator qsoDict query := by
  have hwp : wp (findDuplicateOf env operator qsoDict : Db _)
      (fun _ _ ↦ ∃ query, Searches operator qsoDict query) (fun _ _ ↦ True) c := by
    simp only [findDuplicateOf, wp_bind, wp_ofExcept, implies_true, and_true]
    intro call hcall band hband mode hmode qsoDateUtc hdate
    unfold findDuplicate
    split
    · rename_i dt
      simp only [wp_bind, wp_ofExcept, wp_liftM, wp_findOne, implies_true, and_true]
      intro windowStart hstart windowEnd hend _ _
      exact ⟨_, call, band, mode, dt, windowStart, windowEnd, getItem_eq_ok hcall,
        getItem_eq_ok hband, getItem_eq_ok hmode, getItem_eq_ok hdate, hstart, hend, rfl⟩
    · trivial
  rw [wp, h] at hwp
  exact hwp

/-! ## The new document -/

/-- The document that is inserted for a dictionary. -/
def newDoc (env : Env) (idx : Nat) (qsoDict : Doc) : Doc :=
  qsoToMongoDoc (env.fresh idx) (inputQso env.now (env.fresh idx) qsoDict).refreshRowHash

omit [UnicodeData] in
theorem UpperNamed.getElem?_eq_none {record : Record} (h : UpperNamed record) {k : String}
    (hk : k.toList.any Char.isLower = true) : record[k]? = none := by
  refine Std.ExtTreeMap.getElem?_eq_none fun hmem ↦ ?_
  obtain ⟨c, hc, hlower⟩ := List.any_eq_true.1 hk
  rw [h k hmem c hc] at hlower
  cases hlower

theorem UpperNamed.upperBandMode {record : Record} (h : UpperNamed record) :
    UpperNamed (upperBandMode record) := fun k hk ↦ h k (mem_upperBandMode.1 hk)

theorem qsoFromInputDict_importDict {now : DateTime} {oid : ObjectId} {operator : String}
    {record : Record} {dt : DateTime} (h : UpperNamed record) :
    qsoFromInputDict now oid (importDict operator record dt) =
      .ok (inputQso now oid (importDict operator record dt)).refreshRowHash := by
  refine qsoFromInputDict_eq_ok.2 ⟨fun hcls ↦ Doc.mem_iff_ne_none.1 hcls ?_, rfl⟩
  simp only [getElem?_importDict, String.reduceEq, if_false]
  rw [h.getElem?_eq_none (by decide), Option.map_none]

omit [UnicodeData] in
/-- A record brings no id of its own. -/
theorem inputId_importDict {oid : ObjectId} {operator : String} {record : Record} {dt : DateTime}
    (h : UpperNamed record) : inputId oid (importDict operator record dt) = .oid oid := by
  simp only [inputId, getElem?_importDict, String.reduceEq, if_false,
    h.getElem?_eq_none (show "_id".toList.any Char.isLower = true by decide),
    h.getElem?_eq_none (show "id".toList.any Char.isLower = true by decide), Option.map_none]
  rfl

/-- **The document of a record**, field by field. -/
theorem getElem?_newDoc_importDict {env : Env} {idx : Nat} {operator : String} {record : Record}
    {dt : DateTime} (h : UpperNamed record) (hrequired : ∀ k ∈ requiredFields, k ∈ record)
    (k : String) :
    (newDoc env idx (importDict operator record dt))[k]? =
      if k = "_id" then some (.oid (env.fresh idx))
      else if k = "_operator" then some (if operator = "" then .null else .str operator)
      else if k = "qso_date_utc" then some (.datetime dt)
      else if k = "_deleted" then some (.bool false)
      else if k = "_created_at" then some (.datetime env.now)
      else if k = "rowHash" then
        some (.str (canonicalDocumentHash (newDoc env idx (importDict operator record dt))))
      else record[k]?.map Value.str := by
  have hlower : ∀ k, k.toList.any Char.isLower = true →
      (importDict operator record dt)[k]? = if k = "is_deleted" then some (.bool false)
        else if k = "operator_callsign" then some (.str operator)
        else if k = "qso_date_utc" then some (.datetime dt) else none := by
    intro k hk
    rw [getElem?_importDict, h.getElem?_eq_none hk, Option.map_none]
  have hdeclared : ∀ k ∈ ["CALL", "BAND", "MODE"],
      some (Doc.get (importDict operator record dt) k .null) = record[k]?.map Value.str := by
    intro k hk
    have hnames : ∀ k ∈ ["CALL", "BAND", "MODE"], k ∈ requiredFields ∧ k ≠ "is_deleted" ∧
      k ≠ "operator_callsign" ∧ k ≠ "qso_date_utc" := by decide
    obtain ⟨hreq, h₁, h₂, h₃⟩ := hnames k hk
    obtain ⟨s, hs⟩ := Option.isSome_iff_exists.1
      (Std.ExtTreeMap.mem_iff_isSome_getElem?.1 (hrequired k hreq))
    rw [Doc.get, getElem?_importDict, if_neg h₁, if_neg h₂, if_neg h₃, hs]
    rfl
  have hoperator : (Value.orElse (importDict operator record dt)["operator_callsign"]?
      (importDict operator record dt)["_operator"]?).getD .null =
      if operator = "" then .null else .str operator := by
    rw [hlower "_operator" (by decide), hlower "operator_callsign" (by decide)]
    simp only [String.reduceEq, if_true, if_false, Value.orElse]
    by_cases hop : operator = ""
    · subst hop
      rfl
    · rw [if_pos (Value.truthy_str hop), if_neg hop, Option.getD_some]
  rw [newDoc, getElem?_newDoc (qsoFromInputDict_importDict h)]
  by_cases hdecl : k ∈ ["CALL", "BAND", "MODE"]
  · rw [← hdeclared k hdecl]
    simp only [List.mem_cons, List.not_mem_nil, or_false] at hdecl
    obtain rfl | rfl | rfl := hdecl <;> simp only [String.reduceEq, if_true, if_false]
  simp only [List.mem_cons, List.not_mem_nil, or_false, not_or] at hdecl
  simp only [hdecl, if_false, inputId_importDict h, hoperator]
  by_cases hexcluded : k ∈ inputExcluded ∨ k ∈ hiddenNames
  · have hnames : ∀ k ∈ inputExcluded ++ hiddenNames,
        k = "CALL" ∨ k = "BAND" ∨ k = "MODE" ∨ k.toList.any Char.isLower = true := by decide
    have hk := hnames k (List.mem_append.2 hexcluded)
    simp only [hdecl, false_or] at hk
    simp only [hexcluded, if_true, h.getElem?_eq_none hk, Option.map_none, Doc.get,
      hlower "qso_date_utc" (by decide), hlower "is_deleted" (by decide),
      hlower "created_at" (by decide), hlower "_created_at" (by decide), String.reduceEq, if_false,
      Option.getD_some, Option.getD_none]
  · have hderived : ∀ k ∈ derivedNames, k ∈ inputExcluded ∨ k ∈ hiddenNames := by decide
    have hk : k ≠ "is_deleted" ∧ k ≠ "operator_callsign" ∧ k ≠ "qso_date_utc" := by
      refine ⟨?_, ?_, ?_⟩ <;> rintro rfl <;> exact hexcluded (hderived _ (by decide))
    simp only [hexcluded, if_false, getElem?_importDict, hk, Doc.get, String.reduceEq, if_true,
      Option.getD_some, hlower "created_at" (by decide), hlower "_created_at" (by decide),
      Option.getD_none]

/-- Neither the fresh id nor the clock is part of the row hash. -/
theorem rowHash_newDoc_congr {env env' : Env} {idx idx' : Nat} {operator : String}
    {record : Record} {dt : DateTime} (h : UpperNamed record)
    (hrequired : ∀ k ∈ requiredFields, k ∈ record) :
    (newDoc env idx (importDict operator record dt))["rowHash"]? =
      (newDoc env' idx' (importDict operator record dt))["rowHash"]? := by
  have hhash : canonicalDocumentHash (newDoc env idx (importDict operator record dt)) =
      canonicalDocumentHash (newDoc env' idx' (importDict operator record dt)) := by
    refine canonicalDocumentHash_congr fun k hk ↦ ?_
    have hne : k ≠ "_id" ∧ k ≠ "_created_at" ∧ k ≠ "rowHash" := by
      refine ⟨?_, ?_, ?_⟩ <;> rintro rfl <;> exact hk (by decide)
    simp only [getElem?_newDoc_importDict h hrequired, hne, if_false]
  simp only [getElem?_newDoc_importDict h hrequired, String.reduceEq, if_true, if_false, hhash]

/-- The BSON encoder accepts the document unless a field name has a zero byte. -/
theorem encodable_newDoc_iff {env : Env} {idx : Nat} {operator : String} {record : Record}
    {dt : DateTime} (h : UpperNamed record) (hrequired : ∀ k ∈ requiredFields, k ∈ record) :
    (newDoc env idx (importDict operator record dt)).encodable = true ↔
      ∀ k ∈ record, k.toList.contains (Char.ofNat 0) = false := by
  rw [Doc.encodable_iff]
  constructor
  · intro henc k hk
    obtain ⟨s, hs⟩ := Option.isSome_iff_exists.1 (Std.ExtTreeMap.mem_iff_isSome_getElem?.1 hk)
    have hupper : ∀ k ∈ ["_id", "_operator", "qso_date_utc", "_deleted", "_created_at", "rowHash"],
        k.toList.any Char.isLower = true := by decide
    have hne : k ∉ ["_id", "_operator", "qso_date_utc", "_deleted", "_created_at", "rowHash"] := by
      intro hmem
      rw [h.getElem?_eq_none (hupper k hmem)] at hs
      cases hs
    simp only [List.mem_cons, List.not_mem_nil, or_false, not_or] at hne
    refine (henc k (.str s) ?_).1
    rw [getElem?_newDoc_importDict h hrequired]
    simp only [hne, if_false, hs, Option.map_some]
  · intro hnames k v hv
    rw [getElem?_newDoc_importDict h hrequired] at hv
    split at hv
    · rename_i hk
      exact hk ▸ Option.some.inj hv ▸ ⟨by decide, rfl⟩
    split at hv
    · rename_i hk
      refine hk ▸ Option.some.inj hv ▸ ⟨by decide, ?_⟩
      split <;> rfl
    split at hv
    · rename_i hk
      exact hk ▸ Option.some.inj hv ▸ ⟨by decide, rfl⟩
    split at hv
    · rename_i hk
      exact hk ▸ Option.some.inj hv ▸ ⟨by decide, rfl⟩
    split at hv
    · rename_i hk
      exact hk ▸ Option.some.inj hv ▸ ⟨by decide, rfl⟩
    split at hv
    · rename_i hk
      exact hk ▸ Option.some.inj hv ▸ ⟨by decide, rfl⟩
    obtain ⟨s, hs, rfl⟩ := Option.map_eq_some_iff.1 hv
    exact ⟨hnames k (Std.ExtTreeMap.mem_iff_isSome_getElem?.2 (by rw [hs, Option.isSome_some])),
      rfl⟩

/-! ## One record against the collection -/

/-- The error of the unique index names the index. -/
theorem mentionsRowHash_duplicateKey (c : Collection) (d : Doc) :
    mentionsRowHash (c.duplicateKey "row_hash_unique_idx" "rowHash" d) = true := by
  have hsub : "row_hash_unique_idx".toList <:+:
      (c.duplicateKey "row_hash_unique_idx" "rowHash" d).str.toList := by
    refine ⟨("E11000 duplicate key error collection: " ++ c.fullName ++ " index: ").toList,
      (" dup key: \x7b " ++ "rowHash" ++ ": " ++ Collection.shellText (d["rowHash"]?.getD .null) ++
        " \x7d").toList, ?_⟩
    simp only [Collection.duplicateKey, PyErr.str, String.toList_append, List.append_assoc]
  rw [mentionsRowHash, containsText, decide_eq_true hsub, Bool.true_or]

/-- **Inserting a dictionary with a fresh id** either appends the document, or finds the one the
unique index says is there. -/
theorem wp_insertQsoDict_of_fresh {env : Env} {idx : Nat} {operator : String} {record : Record}
    {dt : DateTime} {c : Collection} (h : UpperNamed record)
    (hrequired : ∀ k ∈ requiredFields, k ∈ record)
    (hfree : ∀ d ∈ c.docs, d["_id"]? ≠ some (.oid (env.fresh idx)))
    {Q : QSOInsertResult → Collection → Prop} {E : PyErr → Collection → Prop}
    (hinsert : ∀ c' qso, c.insert (newDoc env idx (importDict operator record dt)) = .ok c' →
      qso.id = .oid (env.fresh idx) → Q { status := .inserted, qso := some qso } c')
    (hrefuse : c.refuses (newDoc env idx (importDict operator record dt)) = true →
      (newDoc env idx (importDict operator record dt)).encodable = true → ∀ rowHash, wp (ofExcept (qsoFromFound env.now (c.docs.find? fun d ↦
        Doc.fieldIs d "rowHash" rowHash)))
        (fun existing ↦ Q { status := .duplicate, existing := existing }) E c)
    (hinvalid : (newDoc env idx (importDict operator record dt)).encodable = false →
      E Collection.encodeError c) :
    wp (insertQsoDict env (env.fresh idx) (importDict operator record dt) : Db _) Q E c := by
  have hid : (newDoc env idx (importDict operator record dt))["_id"]? =
      some (.oid (env.fresh idx)) := by rw [getElem?_newDoc_importDict h hrequired, if_pos rfl]
  simp only [insertQsoDict, qsoFromInputDict_importDict h, wp_bind, wp_ofExcept, wp_tryCatch,
    wp_liftM, wp_insertOne, wp_pure, Except.ok.injEq, forall_eq', reduceCtorEq, false_imp_iff,
    implies_true, and_true]
  refine ⟨fun c' hc' ↦ hinsert c' _ hc' ?_, fun exc hexc ↦ ?_⟩
  · exact inputId_importDict h
  cases henc : (newDoc env idx (importDict operator record dt)).encodable with
  | false =>
    obtain rfl := Except.error.inj (hexc.symm.trans (Collection.insert_of_not_encodable henc))
    exact hinvalid henc
  | true =>
    obtain ⟨-, c', hc'⟩ | ⟨href, herr⟩ := Collection.insert_of_fresh henc hid hfree
    · cases hexc.symm.trans hc'
    · obtain rfl := Except.error.inj (hexc.symm.trans herr)
      rw [Collection.duplicateKey]
      dsimp only
      rw [← Collection.duplicateKey, mentionsRowHash_duplicateKey]
      simp only [Bool.not_true, Bool.false_eq_true, if_false, wp_bind, wp_liftM, wp_findOne]
      exact hrefuse href henc _

/-- What `judge` does when it does not raise. -/
inductive Judged (env : Env) (operator : String) (item : Record × Nat) (c : Collection) :
    Outcome → Collection → Prop where
  /-- The record is not valid. -/
  | error {text : String} (hinvalid : validated operator item.1 = .error text) :
    Judged env operator item c (.error (recordCall item.1) text) c
  /-- `find_duplicate` has found a document. -/
  | found {qsoDict : Doc} {query : Doc → Bool} {d : Doc} {existingId : String}
      (hvalid : validated operator item.1 = .ok qsoDict) (hsearch : Searches operator qsoDict query)
      (hd : d ∈ c.docs) (hquery : query d = true) :
    Judged env operator item c (.duplicate (Doc.get qsoDict "CALL" .null) existingId) c
  /-- The unique index has kept the document out. -/
  | refused {qsoDict : Doc} {query : Doc → Bool} {existingId : String}
      (hvalid : validated operator item.1 = .ok qsoDict) (hsearch : Searches operator qsoDict query)
      (hrefuse : c.refuses (newDoc env item.2 qsoDict) = true)
      (henc : (newDoc env item.2 qsoDict).encodable = true) :
    Judged env operator item c (.duplicate (Doc.get qsoDict "CALL" .null) existingId) c
  /-- The document has been inserted. -/
  | accepted {qsoDict : Doc} {query : Doc → Bool} {c' : Collection}
      (hvalid : validated operator item.1 = .ok qsoDict) (hsearch : Searches operator qsoDict query)
      (hnone : ∀ d ∈ c.docs, query d = false)
      (hinsert : c.insert (newDoc env item.2 qsoDict) = .ok c') :
    Judged env operator item c
      (.accepted (Doc.get qsoDict "CALL" .null) (env.fresh item.2).str) c'

/-- **What `judge` does**, and where it may raise: out of the range of dates, in the hydration of a
document it has found, and in the BSON encoder. -/
theorem wp_judge {env : Env} {operator : String} {item : Record × Nat} {c : Collection}
    (hup : UpperNamed item.1) (hfree : ∀ d ∈ c.docs, d["_id"]? ≠ some (.oid (env.fresh item.2)))
    {E : PyErr → Collection → Prop}
    (hrange : ∀ qsoDict, validated operator item.1 = .ok qsoDict →
      (¬ ∃ query, Searches operator qsoDict query) → ∀ exc c', E exc c')
    (hhydrate : ∀ d ∈ c.docs, ∀ exc, qsoFromMongoDoc env.now d = .error exc → E exc c)
    (hencode : ∀ qsoDict query, validated operator item.1 = .ok qsoDict →
      Searches operator qsoDict query → (∀ d ∈ c.docs, query d = false) →
      (newDoc env item.2 qsoDict).encodable = false → E Collection.encodeError c) :
    wp (judge env operator item) (Judged env operator item c) E c := by
  -- What `find_one` has found is a document, and hydrating it is all that can fail.
  have hfound : ∀ (query : Doc → Bool) {Q : Option QSO → Collection → Prop},
      (∀ d ∈ c.docs, query d = true → ∀ qso, Q (some qso) c) →
      ((∀ d ∈ c.docs, query d = false) → Q none c) →
      wp (ofExcept (qsoFromFound env.now (c.docs.find? query)) : Db _) Q E c := by
    intro query Q hsome hnone
    rw [wp_ofExcept]
    cases hfind : c.docs.find? query with
    | none =>
      refine ⟨fun a ha ↦ ?_, fun exc hexc ↦ (nomatch hexc)⟩
      obtain rfl := Except.ok.inj ha
      exact hnone (by simpa [List.find?_eq_none] using hfind)
    | some d =>
      have hd := List.mem_of_find?_eq_some hfind
      refine ⟨fun a ha ↦ ?_, fun exc hexc ↦ ?_⟩
      · obtain ⟨qso, -, h⟩ := bind_eq_ok.1 ha
        cases h
        exact hsome d hd (List.find?_some hfind) qso
      · obtain h | ⟨_, -, h⟩ := bind_eq_error.1 hexc
        · exact hhydrate d hd exc h
        · cases h
  rw [judge]
  split
  · rename_i text hinvalid
    exact .error hinvalid
  rename_i qsoDict hvalid
  rw [judgeDict, wp_bind]
  by_cases hsearch : ∃ query, Searches operator qsoDict query
  · obtain ⟨query, hsearch⟩ := hsearch
    rw [wp_findDuplicateOf_of_searches hsearch]
    refine hfound query (fun d hd hquery dup ↦ .found hvalid hsearch hd hquery) fun hnone ↦ ?_
    obtain ⟨hrequired, _, _, dt, -, -, -, rfl⟩ := validated_eq_ok.1 hvalid
    rw [wp_bind]
    refine wp_insertQsoDict_of_fresh hup.upperBandMode
      (fun k hk ↦ mem_upperBandMode.2 (hrequired k hk)) hfree (fun c' qso hc' hid ↦ ?_)
      (fun hrefuse henc rowHash ↦ ?_) (fun henc ↦ hencode _ query hvalid hsearch hnone henc)
    · have htext : idText (some qso) = (env.fresh item.2).str := by
        rw [idText, Option.map_some, Option.getD_some, hid]
        rfl
      dsimp only
      rw [htext]
      exact .accepted hvalid hsearch hnone hc'
    · exact hfound _ (fun _ _ _ qso ↦ .refused hvalid hsearch hrefuse henc)
        fun _ ↦ .refused hvalid hsearch hrefuse henc
  · rw [wp]
    cases hdup : (findDuplicateOf env operator qsoDict : Db _) c with
    | ok dup c' => exact absurd (exists_searches_of_ok hdup) hsearch
    | error exc c' => exact hrange qsoDict hvalid hsearch exc c'

/-! ## All records -/

/-- What judging a list of records does when it does not raise. -/
inductive JudgedAll (env : Env) (operator : String) :
    List (Record × Nat) → Collection → List Outcome → Collection → Prop where
  | nil {c : Collection} : JudgedAll env operator [] c [] c
  | cons {item : Record × Nat} {items : List (Record × Nat)} {outcome : Outcome}
      {outcomes : List Outcome} {c c' c'' : Collection}
      (hjudged : Judged env operator item c outcome c')
      (hrest : JudgedAll env operator items c' outcomes c'') :
    JudgedAll env operator (item :: items) c (outcome :: outcomes) c''

theorem Judged.extends {env : Env} {operator : String} {item : Record × Nat} {c c' : Collection}
    {outcome : Outcome} (h : Judged env operator item c outcome c') : c.Extends c' := by
  cases h with
  | accepted _ _ _ hinsert => exact Collection.extends_of_insert hinsert
  | _ => exact .refl c

/-- A document of the collection is an old one, or the one that is inserted. -/
theorem Judged.mem_docs {env : Env} {operator : String} {item : Record × Nat} {c c' : Collection}
    {outcome : Outcome} (h : Judged env operator item c outcome c') {d : Doc} (hd : d ∈ c'.docs) :
    d ∈ c.docs ∨ ∃ qsoDict, validated operator item.1 = .ok qsoDict ∧
      d = Doc.toStored (newDoc env item.2 qsoDict) := by
  cases h with
  | accepted hvalid _ _ hinsert =>
    rw [(Collection.insert_eq_ok hinsert).1, List.mem_append, List.mem_singleton] at hd
    exact hd.imp_right fun hd ↦ ⟨_, hvalid, hd⟩
  | _ => exact .inl hd

theorem JudgedAll.extends {env : Env} {operator : String} {items : List (Record × Nat)}
    {c c' : Collection} {outcomes : List Outcome}
    (h : JudgedAll env operator items c outcomes c') : c.Extends c' := by
  induction h with
  | nil => exact .refl _
  | cons hjudged _ ih => exact hjudged.extends.trans ih

theorem JudgedAll.length_eq {env : Env} {operator : String} {items : List (Record × Nat)}
    {c c' : Collection} {outcomes : List Outcome}
    (h : JudgedAll env operator items c outcomes c') : outcomes.length = items.length := by
  induction h with
  | nil => rfl
  | cons _ _ ih => rw [List.length_cons, List.length_cons, ih]

/-- The document of every accepted record is there. -/
theorem JudgedAll.mem_of_accepted {env : Env} {operator : String} {items : List (Record × Nat)}
    {c c' : Collection} {outcomes : List Outcome}
    (h : JudgedAll env operator items c outcomes c') {item : Record × Nat} {call : Value}
    {id : String} (hmem : (item, .accepted call id) ∈ items.zip outcomes) :
    ∃ qsoDict, validated operator item.1 = .ok qsoDict ∧ call = Doc.get qsoDict "CALL" .null ∧
      id = (env.fresh item.2).str ∧ Doc.toStored (newDoc env item.2 qsoDict) ∈ c'.docs := by
  induction h with
  | nil => exact absurd hmem List.not_mem_nil
  | cons hjudged hrest ih =>
    rw [List.zip_cons_cons, List.mem_cons] at hmem
    obtain heq | hmem := hmem
    · obtain ⟨rfl, rfl⟩ := Prod.mk.inj heq
      cases hjudged with
      | accepted hvalid _ _ hinsert =>
        refine ⟨_, hvalid, rfl, rfl, hrest.extends.mem ?_⟩
        rw [(Collection.insert_eq_ok hinsert).1]
        exact List.mem_append_right _ (List.mem_singleton_self _)
    · exact ih hmem

/-- A valid record, with the form its dictionary has. -/
theorem newDoc_of_validated {operator : String} {record : Record} {qsoDict : Doc}
    (h : validated operator record = .ok qsoDict) (hup : UpperNamed record) :
    ∃ dt, qsoDict = importDict operator (upperBandMode record) dt ∧
      UpperNamed (upperBandMode record) ∧ ∀ k ∈ requiredFields, k ∈ upperBandMode record := by
  obtain ⟨hrequired, _, _, dt, -, -, -, hdict⟩ := validated_eq_ok.1 h
  exact ⟨dt, hdict, hup.upperBandMode, fun k hk ↦ mem_upperBandMode.2 (hrequired k hk)⟩

theorem Judged.readable {env : Env} {operator : String} {item : Record × Nat} {c c' : Collection}
    {outcome : Outcome} (h : Judged env operator item c outcome c') (hup : UpperNamed item.1)
    (hread : Readable c) : Readable c' := by
  intro d hd now
  obtain hd | ⟨qsoDict, hvalid, rfl⟩ := h.mem_docs hd
  · exact hread d hd now
  · obtain ⟨dt, rfl, hupper, -⟩ := newDoc_of_validated hvalid hup
    exact hydrates_iff.2 (hydratable_newDoc (qsoFromInputDict_importDict hupper))

/-- The ids a request draws are not in use. -/
def Env.Unused (env : Env) (idxs : List Nat) (c : Collection) : Prop :=
  ∀ i ∈ idxs, ∀ d ∈ c.docs, d["_id"]? ≠ some (.oid (env.fresh i))

/-- `ObjectId()` draws `n` new ids. -/
structure Env.Fresh (env : Env) (n : Nat) (c : Collection) : Prop where
  nodup : ((List.range n).map env.fresh).Nodup
  unused : env.Unused (List.range n) c

theorem Judged.unused {env : Env} {operator : String} {item : Record × Nat} {c c' : Collection}
    {outcome : Outcome} (h : Judged env operator item c outcome c') (hup : UpperNamed item.1)
    {idxs : List Nat} (hidx : env.fresh item.2 ∉ idxs.map env.fresh) (hunused : env.Unused idxs c) : env.Unused idxs c' := by
  intro i hi d hd
  obtain hd | ⟨qsoDict, hvalid, rfl⟩ := h.mem_docs hd
  · exact hunused i hi d hd
  · obtain ⟨dt, rfl, hupper, hrequired⟩ := newDoc_of_validated hvalid hup
    rw [Doc.getElem?_toStored, getElem?_newDoc_importDict hupper hrequired, if_pos rfl,
      Option.map_some, Value.toStored]
    intro heq
    exact hidx (Value.oid.inj (Option.some.inj heq) ▸ List.mem_map_of_mem hi)

/-- Every valid record has been searched for. -/
theorem JudgedAll.exists_searches {env : Env} {operator : String} {items : List (Record × Nat)}
    {c c' : Collection} {outcomes : List Outcome}
    (h : JudgedAll env operator items c outcomes c') :
    ∀ item ∈ items, ∀ qsoDict, validated operator item.1 = .ok qsoDict →
      ∃ query, Searches operator qsoDict query := by
  induction h with
  | nil => exact fun _ h ↦ absurd h List.not_mem_nil
  | cons hjudged _ ih =>
    intro i hi qsoDict hvalid
    obtain rfl | hi := List.mem_cons.1 hi
    · cases hjudged with
      | error hinvalid => cases hinvalid.symm.trans hvalid
      | found hvalid' hsearch _ _ | refused hvalid' hsearch _ _ | accepted hvalid' hsearch _ _ =>
        exact ⟨_, Except.ok.inj (hvalid'.symm.trans hvalid) ▸ hsearch⟩
    · exact ih i hi qsoDict hvalid

/-! ## The documents a record meets -/

/-- The document that a record adds to those that are there, unless the record is not valid, the
search finds one of them, or the unique index does. -/
def newcomer (env : Env) (operator : String) (unique : Bool) (docs : List Doc)
    (item : Record × Nat) : Option Doc :=
  match validated operator item.1 with
  | .error _ => none
  | .ok qsoDict =>
    let d := Doc.toStored (newDoc env item.2 qsoDict)
    match searchOf operator qsoDict with
    | none => none
    | some query =>
      if docs.any query || unique && docs.any (Doc.clash "rowHash" · d) then none else some d

/-- The documents that are there behind some records. -/
def admitted (env : Env) (operator : String) (unique : Bool) (docs : List Doc)
    (items : List (Record × Nat)) : List Doc :=
  items.foldl (fun docs item ↦ docs ++ (newcomer env operator unique docs item).toList) docs

/-- The search for a record finds none of the documents, so the record is about to be stored. -/
def Unmatched (operator : String) (record : Record) (docs : List Doc) : Prop :=
  ∃ qsoDict query, validated operator record = .ok qsoDict ∧ Searches operator qsoDict query ∧
    ∀ d ∈ docs, query d = false

/-- No record that is about to be stored has a field name with a zero byte. -/
def NamesStorable (env : Env) (operator : String) (c : Collection) (items : List (Record × Nat)) :
    Prop :=
  ∀ before item after, items = before ++ item :: after →
    Unmatched operator item.1 (admitted env operator c.rowHashUnique c.docs before) →
    ∀ k ∈ item.1, noZero k

theorem Judged.docs_eq {env : Env} {operator : String} {item : Record × Nat} {c c' : Collection}
    {outcome : Outcome} (h : Judged env operator item c outcome c') :
    c'.docs = c.docs ++ (newcomer env operator c.rowHashUnique c.docs item).toList ∧
      c'.rowHashUnique = c.rowHashUnique := by
  cases h with
  | error hinvalid =>
    refine ⟨?_, rfl⟩
    rw [newcomer, hinvalid, Option.toList_none, List.append_nil]
  | found hvalid hsearch hd hquery =>
    refine ⟨?_, rfl⟩
    have hany := List.any_eq_true.2 ⟨_, hd, hquery⟩
    simp only [newcomer, hvalid, searchOf_of_searches hsearch, hany, Bool.true_or, if_true,
      Option.toList_none, List.append_nil]
  | refused hvalid hsearch hrefuse _ =>
    refine ⟨?_, rfl⟩
    rw [Collection.refuses] at hrefuse
    simp only [newcomer, hvalid, searchOf_of_searches hsearch, hrefuse, Bool.or_true, if_true,
      Option.toList_none, List.append_nil]
  | @accepted qsoDict query _ hvalid hsearch hnone hinsert =>
    have hany : c.docs.any query = false := by simpa using hnone
    have hrefuse := Collection.refuses_of_insert hinsert
    rw [Collection.refuses] at hrefuse
    refine ⟨?_, (Collection.insert_eq_ok hinsert).2⟩
    rw [(Collection.insert_eq_ok hinsert).1]
    simp only [newcomer, hvalid, searchOf_of_searches hsearch, hany, hrefuse, Bool.or_self,
      Bool.false_eq_true, if_false, Option.toList_some]

/-- The records behind the first one meet what it has left. -/
theorem Judged.admitted_eq {env : Env} {operator : String} {item : Record × Nat}
    {c c' : Collection} {outcome : Outcome} (h : Judged env operator item c outcome c')
    (items : List (Record × Nat)) :
    admitted env operator c.rowHashUnique c.docs (item :: items) =
      admitted env operator c'.rowHashUnique c'.docs items := by
  rw [h.docs_eq.1, h.docs_eq.2, admitted, List.foldl_cons, admitted]

/-- A record that is about to be stored, and was judged, has names without a zero byte. -/
theorem Judged.noZero {env : Env} {operator : String} {item : Record × Nat} {c c' : Collection}
    {outcome : Outcome} (h : Judged env operator item c outcome c') (hup : UpperNamed item.1)
    (hunmatched : Unmatched operator item.1 c.docs) : ∀ k ∈ item.1, noZero k := by
  obtain ⟨qsoDict, query, hvalid, hsearch, hnone⟩ := hunmatched
  have henc : (newDoc env item.2 qsoDict).encodable = true := by
    cases h with
    | error hinvalid => cases hinvalid.symm.trans hvalid
    | found hvalid' hsearch' hd hquery =>
      obtain rfl := Except.ok.inj (hvalid'.symm.trans hvalid)
      rw [hsearch'.unique hsearch, hnone _ hd] at hquery
      cases hquery
    | refused hvalid' _ _ henc =>
      obtain rfl := Except.ok.inj (hvalid'.symm.trans hvalid)
      exact henc
    | accepted hvalid' _ _ hinsert =>
      obtain rfl := Except.ok.inj (hvalid'.symm.trans hvalid)
      by_contra hnot
      rw [Bool.not_eq_true] at hnot
      cases (Collection.insert_of_not_encodable hnot).symm.trans hinsert
  obtain ⟨dt, rfl, hupper, hrequired⟩ := newDoc_of_validated hvalid hup
  exact fun k hk ↦ (encodable_newDoc_iff hupper hrequired).1 henc k (mem_upperBandMode.2 hk)

theorem JudgedAll.namesStorable {env : Env} {operator : String} {items : List (Record × Nat)}
    {c c' : Collection} {outcomes : List Outcome}
    (h : JudgedAll env operator items c outcomes c') (hup : ∀ item ∈ items, UpperNamed item.1) :
    NamesStorable env operator c items := by
  induction h with
  | nil =>
    intro before item after hitems
    exact absurd hitems.symm (by simp)
  | cons hjudged _ ih =>
    intro before item after hitems hunmatched
    cases before with
    | nil =>
      obtain ⟨rfl, rfl⟩ := List.cons.inj hitems
      exact hjudged.noZero (hup _ (List.mem_cons_self ..)) hunmatched
    | cons first before =>
      obtain ⟨rfl, rfl⟩ := List.cons.inj hitems
      rw [hjudged.admitted_eq] at hunmatched
      exact ih (fun i hi ↦ hup i (List.mem_cons_of_mem _ hi)) before item after rfl hunmatched

/-- **Judging a list of records** in a readable collection. -/
theorem wp_mapM_judge {env : Env} {operator : String} {items : List (Record × Nat)}
    {c : Collection} {E : Prop} (hnodup : ((items.map Prod.snd).map env.fresh).Nodup)
    (hup : ∀ item ∈ items, UpperNamed item.1)
    (hrange : ∀ item ∈ items, ∀ qsoDict, validated operator item.1 = .ok qsoDict →
      (¬ ∃ query, Searches operator qsoDict query) → E)
    (hencode : ¬ NamesStorable env operator c items → E)
    (hread : Readable c) (hunused : env.Unused (items.map Prod.snd) c) :
    wp (items.mapM (judge env operator)) (JudgedAll env operator items c) (fun _ _ ↦ E) c := by
  induction items generalizing c with
  | nil => exact .nil
  | cons item items ih =>
    rw [List.mapM_cons, wp_bind]
    have hitem := hup item (List.mem_cons_self ..)
    rw [List.map_cons] at hnodup hunused
    rw [List.map_cons] at hnodup
    obtain ⟨hidx, hnodup⟩ := List.nodup_cons.1 hnodup
    refine wp_mono (wp_judge hitem (fun d hd ↦ hunused _ (List.mem_cons_self ..) d hd)
      (fun qsoDict hvalid hsearch _ _ ↦ hrange item (List.mem_cons_self ..) qsoDict hvalid hsearch)
      (fun d hd exc hexc ↦ ?_) (fun qsoDict query hvalid hsearch hnone henc ↦ ?_))
      (fun outcome c' hjudged ↦ ?_) fun _ _ h ↦ h
    · obtain ⟨qso, hqso⟩ := hread d hd env.now
      cases hexc.symm.trans hqso
    · refine hencode fun hstorable ↦ ?_
      have hnames := hstorable [] item items rfl ⟨qsoDict, query, hvalid, hsearch, hnone⟩
      obtain ⟨dt, rfl, hupper, hrequired⟩ := newDoc_of_validated hvalid hitem
      have hok : (newDoc env item.2 (importDict operator (upperBandMode item.1) dt)).encodable =
          true := (encodable_newDoc_iff hupper hrequired).2 fun k hk ↦
        hnames k (mem_upperBandMode.1 hk)
      rw [hok] at henc
      cases henc
    · rw [wp_bind]
      refine wp_mono (ih hnodup (fun i hi ↦ hup i (List.mem_cons_of_mem _ hi))
        (fun i hi ↦ hrange i (List.mem_cons_of_mem _ hi))
        (fun hrest ↦ hencode fun hstorable ↦ hrest fun before i after hitems hunmatched ↦
          hstorable (item :: before) i after (congrArg _ hitems)
            (hjudged.admitted_eq before ▸ hunmatched)) (hjudged.readable hitem hread)
        (hjudged.unused hitem hidx fun i hi ↦ hunused i (List.mem_cons_of_mem _ hi)))
        (fun outcomes c'' hrest ↦ .cons hjudged hrest) fun _ _ h ↦ h

end

end Ollog
