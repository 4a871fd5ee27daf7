import Ollog.Qso.RowHash
import Ollog.Udp.Server

/-!
# One contact, by POST and by UDP

`POST /api/qsos/` and the UDP listener hand the same fields to `build_qso_dict`, with one
difference: the request model declares `FREQ`, `RST_SENT` and `RST_RCVD`, and its dump has a null for
each of them that the body does not have.  The parser of a datagram, and the form of the browser
interface, leave out what is not there.

`build_qso_dict` and everything behind it only pass the nulls on (`buildQsoDict_padNulls`).  So the
two documents agree exactly if there was nothing to pad (`storedAlike_iff`).
-/

set_option autoImplicit false

namespace Ollog

open Effects

/-! ## Nulls -/

/-- The fields of a `QSOCreateRequest` a body may do without. -/
def optionalFields : List String := ["FREQ", "RST_SENT", "RST_RCVD"]

/-- A dictionary with a null for each of these fields that it lacks. -/
def padNulls (d : Doc) : Doc :=
  let nulls : Doc := .ofList (optionalFields.map fun k ↦ (k, Value.null))
  nulls ∪ d

theorem getElem?_padNulls (d : Doc) (k : String) :
    (padNulls d)[k]? = d[k]?.or (if k ∈ optionalFields then some .null else none) := by
  rw [padNulls, Doc.getElem?_update]
  congr 1
  simp only [optionalFields, List.map_cons, List.map_nil, Std.ExtTreeMap.ofList_cons,
    Std.ExtTreeMap.insertMany_cons, Std.ExtTreeMap.insertMany_nil, Doc.getElem?_insert,
    Std.ExtTreeMap.getElem?_empty, List.mem_cons, List.not_mem_nil, or_false]
  grind

theorem getElem?_padNulls_of_notMem (d : Doc) {k : String} (hk : k ∉ optionalFields) :
    (padNulls d)[k]? = d[k]? := by
  rw [getElem?_padNulls, if_neg hk, Option.or_none]

/-- There is nothing to pad where the fields are there. -/
theorem padNulls_of_mem {d : Doc} (h : ∀ k ∈ optionalFields, k ∈ d) : padNulls d = d := by
  refine Std.ExtTreeMap.ext_getElem? fun k ↦ ?_
  rw [getElem?_padNulls]
  split
  · rename_i hk
    obtain ⟨v, hv⟩ := Option.ne_none_iff_exists'.1 (Doc.mem_iff_ne_none.1 (h k hk))
    rw [hv, Option.some_or]
  · rw [Option.or_none]

theorem padNulls_insert (d : Doc) (k : String) (v : Value) :
    padNulls (d.insert k v) = (padNulls d).insert k v := by
  refine Std.ExtTreeMap.ext_getElem? fun j ↦ ?_
  rw [getElem?_padNulls, Doc.getElem?_insert, Doc.getElem?_insert, getElem?_padNulls]
  split
  · rw [Option.some_or]
  · rfl

section

variable [UnicodeData]

/-! ## What building does with the nulls -/

theorem normalizeCustomField_padNulls (d : Doc) (field : CustomQSOField) :
    normalizeCustomField (padNulls d) field = padNulls (normalizeCustomField d field) := by
  rw [normalizeCustomField, normalizeCustomField, getElem?_padNulls]
  cases hv : d[field.adifName]? with
  | none =>
    rw [Option.none_or]
    by_cases hk : field.adifName ∈ optionalFields
    · rw [if_pos hk]
    · rw [if_neg hk]
  | some v => cases v <;> first | rfl | exact (padNulls_insert _ _ _).symm

theorem applyCustomFieldNormalization_padNulls (d : Doc) (user : Option User) :
    applyCustomFieldNormalization (padNulls d) user =
      (applyCustomFieldNormalization d user).map padNulls := by
  rw [applyCustomFieldNormalization, applyCustomFieldNormalization]
  cases enabledCustomFieldsForUser user with
  | error exc => rfl
  | ok fields =>
    have hfold : ∀ d, fields.foldl normalizeCustomField (padNulls d) =
        padNulls (fields.foldl normalizeCustomField d) := by
      induction fields with
      | nil => exact fun _ ↦ rfl
      | cons field fields ih =>
        intro d
        rw [List.foldl_cons, List.foldl_cons, normalizeCustomField_padNulls, ih]
    exact congrArg Except.ok (hfold d)

theorem upperField_padNulls (d : Doc) {k : String} (hk : k ∉ optionalFields) :
    upperField (padNulls d) k = (upperField d k).map padNulls := by
  rw [upperField, upperField, getElem?_padNulls_of_notMem d hk]
  cases d[k]? with
  | none => rfl
  | some v => cases v <;> first | rfl | exact congrArg Except.ok (padNulls_insert _ _ _).symm

omit [UnicodeData] in
theorem getItem_padNulls (d : Doc) {k : String} (hk : k ∉ optionalFields) :
    getItem (padNulls d) k = getItem d k := by
  rw [getItem, getItem, getElem?_padNulls_of_notMem d hk]

omit [UnicodeData] in
theorem stampOptional_padNulls (d : Doc) (k : String) (v : Option String) :
    stampOptional (padNulls d) k v = padNulls (stampOptional d k v) := by
  unfold stampOptional
  split
  · split
    · rfl
    · rw [padNulls_insert]
  · rfl

omit [UnicodeData] in
theorem stampProfile_padNulls (d : Doc) (profile : Option User) :
    stampProfile (padNulls d) profile = padNulls (stampProfile d profile) := by
  cases profile with
  | none => rfl
  | some user =>
    simp only [stampProfile, ← padNulls_insert, stampOptional_padNulls]
    cases user.txPwr with
    | none => rfl
    | some watts => simp only [padNulls_insert]

/-- **`build_qso_dict` passes the nulls on**, and does nothing else with them. -/
theorem buildQsoDict_padNulls (d : Doc) (operator : String) (profile : Option User) :
    buildQsoDict (padNulls d) operator profile = (buildQsoDict d operator profile).map padNulls := by
  have hnames : ∀ k ∈ ["BAND", "MODE", "QSO_DATE", "TIME_ON"], k ∉ optionalFields := by decide
  simp only [List.mem_cons, List.not_mem_nil, or_false, forall_eq_or_imp, forall_eq] at hnames
  obtain ⟨hband, hmode, hdate, htime⟩ := hnames
  rw [buildQsoDict, buildQsoDict, applyCustomFieldNormalization_padNulls]
  cases applyCustomFieldNormalization d profile with
  | error exc => rfl
  | ok normal =>
  dsimp only [Except.map, bind, Except.bind]
  rw [upperField_padNulls normal hband]
  cases upperField normal "BAND" with
  | error exc => rfl
  | ok banded =>
  dsimp only [Except.map, bind, Except.bind]
  rw [upperField_padNulls banded hmode]
  cases upperField banded "MODE" with
  | error exc => rfl
  | ok fields =>
  dsimp only [Except.map, bind, Except.bind]
  rw [getItem_padNulls fields hdate, getItem_padNulls fields htime]
  cases getItem fields "QSO_DATE" with
  | error exc => rfl
  | ok date =>
  cases getItem fields "TIME_ON" with
  | error exc => rfl
  | ok time =>
  dsimp only
  cases parseAdifDatetime date time with
  | error exc => rfl
  | ok dt =>
    simp only [pure, Except.pure, ← padNulls_insert, stampProfile_padNulls]

/-! ## What building requires -/

/-- The date and the time of a record, as the custom fields of the profile leave them, make an
instant, with two minutes to spare in the calendar. -/
def Datable (user : User) (record : Record) : Prop :=
  ∃ normal date time dt, applyCustomFieldNormalization record.toDoc (some user) = .ok normal ∧
    normal["QSO_DATE"]? = some date ∧ normal["TIME_ON"]? = some time ∧
    parseAdifDatetime date time = .ok dt ∧ dt.InRange

omit [UnicodeData] in
theorem getItem_of_getElem? {d : Doc} {k : String} {v : Value} (h : d[k]? = some v) :
    getItem d k = .ok v := by
  rw [getItem, h]

/-- A text can be upper-cased. -/
theorem exists_upperField {d : Doc} {k s : String} (h : d[k]? = some (.str s)) :
    upperField d k = .ok (d.insert k (.str (upper s))) := by
  rw [upperField, h]

/-- The texts of a record are texts after the normalisation. -/
theorem exists_text_of_apply {record : Record} {profile : Option User} {normal : Doc}
    (h : applyCustomFieldNormalization record.toDoc profile = .ok normal) {k : String}
    (hk : k ∈ record) : ∃ s, normal[k]? = some (.str s) := by
  obtain ⟨s, hs⟩ := Option.isSome_iff_exists.1 (Std.ExtTreeMap.mem_iff_isSome_getElem?.1 hk)
  obtain hsame | ⟨-, -, htext⟩ := normalizedFrom_of_apply h k
  · exact ⟨s, by rw [hsame, getElem?_toDoc, hs, Option.map_some]⟩
  · exact htext

/-- **What `build_qso_dict` needs of a complete record**, to make a dictionary of it that can be
searched for, is a date. -/
theorem exists_build_iff {record : Record} {user : User}
    (hrequired : ∀ k ∈ requiredFields, k ∈ record) :
    (∃ qsoDict query, buildQsoDict record.toDoc user.callsign (some user) = .ok qsoDict ∧
      Searches user.callsign qsoDict query) ↔ Datable user record := by
  constructor
  · rintro ⟨qsoDict, query, hbuild, hsearch⟩
    have hbuilt := built_of_buildQsoDict hbuild
    obtain ⟨_, _, _, dt, windowStart, windowEnd, -, -, -, hdt, hstart, hend, -⟩ := hsearch
    obtain ⟨normal, hnormal, hbuild⟩ := bind_eq_ok.1 hbuild
    obtain ⟨banded, hbanded, hbuild⟩ := bind_eq_ok.1 hbuild
    obtain ⟨fields, hfields, hbuild⟩ := bind_eq_ok.1 hbuild
    obtain ⟨date, hdate, hbuild⟩ := bind_eq_ok.1 hbuild
    obtain ⟨time, htime, hbuild⟩ := bind_eq_ok.1 hbuild
    obtain ⟨dt', hdt', hbuild⟩ := bind_eq_ok.1 hbuild
    obtain rfl := Except.ok.inj hbuild
    have hsame : ∀ k, k ≠ "BAND" → k ≠ "MODE" → fields[k]? = normal[k]? := fun k hband hmode ↦
      ((retouched_upperField hfields).getElem?_eq hmode).trans
        ((retouched_upperField hbanded).getElem?_eq hband)
    refine ⟨normal, date, time, dt', hnormal, ?_, ?_, hdt', inRange_iff.2 ?_⟩
    · rw [← hsame _ (by decide) (by decide), getItem_eq_ok hdate]
    · rw [← hsame _ (by decide) (by decide), getItem_eq_ok htime]
    · have hstored : (stampProfile (((fields.insert "qso_date_utc" (.datetime dt')).insert
          "operator_callsign" (.str user.callsign)).insert "is_deleted" (.bool false))
          (some user))["qso_date_utc"]? = some (.datetime dt') := by
        rw [(retouched_stampProfile _ _).getElem?_eq (by decide)]
        simp only [Doc.getElem?_insert, String.reduceEq, if_true, if_false]
      obtain rfl := Value.datetime.inj (Option.some.inj (hstored.symm.trans hdt))
      exact ⟨⟨windowStart, hstart⟩, windowEnd, hend⟩
  · rintro ⟨normal, date, time, dt, hnormal, hdate, htime, hdt, hrange⟩
    obtain ⟨call, hcall⟩ := exists_text_of_apply hnormal (hrequired "CALL" (by decide))
    obtain ⟨band, hband⟩ := exists_text_of_apply hnormal (hrequired "BAND" (by decide))
    obtain ⟨mode, hmode⟩ := exists_text_of_apply hnormal (hrequired "MODE" (by decide))
    have hmode' : (normal.insert "BAND" (.str (upper band)))["MODE"]? = some (.str mode) := by
      rw [Doc.getElem?_insert, if_neg (by decide), hmode]
    obtain ⟨⟨windowStart, hstart⟩, windowEnd, hend⟩ := inRange_iff.1 hrange
    have hfields : ∀ {k v}, normal[k]? = some v → k ∉ ["BAND", "MODE"] →
        ((normal.insert "BAND" (.str (upper band))).insert "MODE" (.str (upper mode)))[k]? =
          some v := by
      intro k v hv hk
      simp only [List.mem_cons, List.not_mem_nil, or_false, not_or] at hk
      simp only [Doc.getElem?_insert, hk, if_false, hv]
    have hbuild : buildQsoDict record.toDoc user.callsign (some user) = .ok (stampProfile
        (((((normal.insert "BAND" (.str (upper band))).insert "MODE" (.str (upper mode))).insert
          "qso_date_utc" (.datetime dt)).insert "operator_callsign" (.str user.callsign)).insert
          "is_deleted" (.bool false)) (some user)) := by
      rw [buildQsoDict, hnormal]
      dsimp only [bind, Except.bind]
      rw [exists_upperField hband]
      dsimp only
      rw [exists_upperField hmode']
      dsimp only
      rw [getItem_of_getElem? (hfields hdate (by decide)),
        getItem_of_getElem? (hfields htime (by decide))]
      dsimp only
      rw [hdt]
      rfl
    refine ⟨_, _, hbuild, .str call, .str (upper band), .str (upper mode), dt, windowStart,
      windowEnd, ?_, ?_, ?_, ?_, hstart, hend, rfl⟩
    all_goals
      rw [(retouched_stampProfile _ _).getElem?_eq (by decide)]
      simp only [Doc.getElem?_insert, String.reduceEq, if_true, if_false, hcall]

/-! ## Storing into an empty collection -/

/-- A dictionary that can be inserted: ADIF fields and the derived ones, and nothing the encoder
stumbles over. -/
structure Encodes (qsoDict : Doc) : Prop where
  names : ∀ k ∈ qsoDict, k ∈ derivedNames ∨ isAdifName k = true
  values : ∀ (k : String) (v : Value), qsoDict[k]? = some v → v.encodable = true

omit [UnicodeData] in
theorem Encodes.getElem?_eq_none {qsoDict : Doc} (h : Encodes qsoDict) {k : String}
    (hk : k ∉ derivedNames) (hname : isAdifName k = false) : qsoDict[k]? = none := by
  refine Std.ExtTreeMap.getElem?_eq_none fun hmem ↦ (h.names k hmem).elim hk fun h ↦ ?_
  rw [hname] at h
  cases h

omit [UnicodeData] in
theorem Encodes.encodable_get {qsoDict : Doc} (h : Encodes qsoDict) {k : String} {v : Value}
    (hv : v.encodable = true) : (Doc.get qsoDict k v).encodable = true := by
  rw [Doc.get]
  cases hk : qsoDict[k]? with
  | none => exact hv
  | some w => exact h.values k w hk

omit [UnicodeData] in
theorem zero_notMem_of_isAdifName {k : String} (hk : isAdifName k = true) :
    k.toList.contains (Char.ofNat 0) = false := by
  rw [isAdifName, Bool.and_eq_true, List.all_eq_true] at hk
  rw [List.contains_eq_mem, decide_eq_false_iff_not]
  exact fun hzero ↦ absurd (hk.2 _ hzero) (by decide)

/-- The document of such a dictionary has the fresh id, and the encoder accepts it. -/
theorem Encodes.newDoc {env : Env} {qsoDict : Doc} (h : Encodes qsoDict) :
    (newDoc env 0 qsoDict)["_id"]? = some (.oid (env.fresh 0)) ∧
      (newDoc env 0 qsoDict).encodable = true ∧
      qsoFromInputDict env.now (env.fresh 0) qsoDict =
        .ok (inputQso env.now (env.fresh 0) qsoDict).refreshRowHash := by
  have hqso : qsoFromInputDict env.now (env.fresh 0) qsoDict =
      .ok (inputQso env.now (env.fresh 0) qsoDict).refreshRowHash := by
    refine qsoFromInputDict_eq_ok.2 ⟨fun hcls ↦ ?_, rfl⟩
    exact Doc.mem_iff_ne_none.1 hcls (h.getElem?_eq_none (by decide) (by decide))
  have hget := getElem?_newDoc hqso
  have hid : inputId (env.fresh 0) qsoDict = .oid (env.fresh 0) := by
    rw [inputId, h.getElem?_eq_none (by decide) (by decide),
      h.getElem?_eq_none (by decide) (by decide)]
    rfl
  refine ⟨?_, Doc.encodable_iff.2 fun k v hv ↦ ?_, hqso⟩
  · rw [Ollog.newDoc, hget, if_pos rfl, hid]
  rw [Ollog.newDoc] at hv
  by_cases halias : k ∈ aliasNames
  · have hzero : ∀ k ∈ aliasNames, k.toList.contains (Char.ofNat 0) = false := by decide
    refine ⟨hzero k halias, ?_⟩
    rw [hget] at hv
    simp only [aliasNames, List.mem_cons, List.not_mem_nil, or_false] at halias
    rcases halias with rfl | rfl | rfl | rfl | rfl | rfl | rfl | rfl | rfl <;>
      simp only [String.reduceEq, if_true, if_false, Option.some.injEq] at hv <;> subst hv
    case inl => rw [hid]; rfl
    case inr.inr.inr.inr.inr.inr.inr.inr => rfl
    case inr.inl =>
      obtain heq | heq := Value.orElse_cases qsoDict["operator_callsign"]? qsoDict["_operator"]?
        <;> rw [heq] <;> exact h.encodable_get (v := .null) rfl
    all_goals
      refine h.encodable_get ?_
      first | rfl | (refine h.encodable_get ?_; rfl)
  · rw [getElem?_newDoc_extra hqso halias] at hv
    obtain ⟨hnot, hv⟩ := Option.ite_none_left_eq_some.1 hv
    have hderived : ∀ k ∈ derivedNames, k ∈ inputExcluded := by decide
    have hname := (h.names k (Doc.mem_iff_ne_none.2 (hv ▸ Option.some_ne_none v))).resolve_left
      fun hk ↦ hnot (.inl (hderived k hk))
    exact ⟨zero_notMem_of_isAdifName hname, h.values k v hv⟩

/-- What is built from a record whose names are ADIF names. -/
theorem encodes_of_build {record : Record} (hnames : ∀ k ∈ record, isAdifName k = true)
    {operator : String} {profile : Option User} {qsoDict : Doc}
    (h : buildQsoDict record.toDoc operator profile = .ok qsoDict) : Encodes qsoDict := by
  have hbuilt := built_of_buildQsoDict h
  have hinsertable := hbuilt.insertable (fun k hk ↦ hnames k (mem_toDoc.1 hk))
    fun k v hv ↦ Value.IsOptionalText.hashStable (.inr (exists_str_toDoc hv))
  refine ⟨hinsertable.names, fun k v hv ↦ ?_⟩
  by_cases hk : k ∈ derivedNames
  · simp only [derivedNames, List.mem_cons, List.not_mem_nil, or_false] at hk
    obtain rfl | rfl | rfl := hk
    · obtain ⟨_, _, dt, -, -, -, hget⟩ := hbuilt.instant
      rw [← Option.some.inj (hget.symm.trans hv)]
      rfl
    · rw [← Option.some.inj (hbuilt.operator_eq.symm.trans hv)]
      rfl
    · rw [← Option.some.inj (hbuilt.active.symm.trans hv)]
      rfl
  · obtain hsame | ⟨-, s, hs⟩ := hbuilt.rest k hk
    · rw [hsame, getElem?_toDoc] at hv
      obtain ⟨s, -, rfl⟩ := Option.map_eq_some_iff.1 hv
      rfl
    · rw [← Option.some.inj (hs.symm.trans hv)]
      rfl

/-- An empty collection takes the document. -/
theorem Encodes.exists_insert {env : Env} {qsoDict : Doc} (h : Encodes qsoDict) {c : Collection}
    (hc : c.docs = []) : ∃ c', c.insert (Ollog.newDoc env 0 qsoDict) = .ok c' := by
  obtain ⟨hid, henc, -⟩ := @Encodes.newDoc _ env _ h
  obtain ⟨-, hok⟩ | ⟨hrefuses, -⟩ := Collection.insert_of_fresh (c := c) henc hid fun e he ↦ by
    rw [hc] at he
    cases he
  · exact hok
  · rw [Collection.refuses, hc, List.any_nil, Bool.and_false] at hrefuses
    cases hrefuses

/-! ## The two ways in -/

omit [UnicodeData] in
/-- A body that is the JSON object of a record. -/
structure QSOCreateRequest.Carries (body : QSOCreateRequest) (record : Record) : Prop where
  call : record["CALL"]? = some body.call
  qsoDate : record["QSO_DATE"]? = some body.qsoDate
  timeOn : record["TIME_ON"]? = some body.timeOn
  band : record["BAND"]? = some body.band
  mode : record["MODE"]? = some body.mode
  freq : record["FREQ"]? = body.freq
  rstSent : record["RST_SENT"]? = body.rstSent
  rstRcvd : record["RST_RCVD"]? = body.rstRcvd
  extra : ∀ k ∉ createDeclared, body.extra.fields[k]? = record[k]?.map Value.str

/-- A datagram whose first record is, without its routing fields, a record for a user. -/
def Delivers (caches : Resolvers) (data : List UInt8) (operator : Option String)
    (user : Option User) (record : Record) (u : User) : Prop :=
  ∃ first rest, parseAdi (decodeUtf8 data) = (first :: rest, []) ∧
    (do consumeOperator caches (← consumeToken caches ⟨first, operator, user⟩)) =
      .ok ⟨record, some u.callsign, some u⟩

omit [UnicodeData] in
theorem QSOCreateRequest.Carries.required {body : QSOCreateRequest} {record : Record}
    (h : body.Carries record) : ∀ k ∈ requiredFields, k ∈ record := by
  have hmem : ∀ {k s}, record[k]? = some s → k ∈ record := fun hs ↦
    Std.ExtTreeMap.mem_iff_isSome_getElem?.2 (by rw [hs]; rfl)
  intro k hk
  simp only [requiredFields, List.mem_cons, List.not_mem_nil, or_false] at hk
  obtain rfl | rfl | rfl | rfl | rfl := hk
  exacts [hmem h.band, hmem h.call, hmem h.mode, hmem h.qsoDate, hmem h.timeOn]

omit [UnicodeData] in
theorem getElem?_declared (body : QSOCreateRequest) (k : String) : body.declared[k]? =
    if k = "CALL" then some (.str body.call)
    else if k = "QSO_DATE" then some (.str body.qsoDate)
    else if k = "TIME_ON" then some (.str body.timeOn)
    else if k = "BAND" then some (.str body.band)
    else if k = "MODE" then some (.str body.mode)
    else if k = "FREQ" then some (optionalText body.freq)
    else if k = "RST_SENT" then some (optionalText body.rstSent)
    else if k = "RST_RCVD" then some (optionalText body.rstRcvd)
    else none := by
  simp only [QSOCreateRequest.declared, Std.ExtTreeMap.ofList_cons,
    Std.ExtTreeMap.insertMany_cons, Std.ExtTreeMap.insertMany_nil, Doc.getElem?_insert,
    Std.ExtTreeMap.getElem?_empty]
  grind

omit [UnicodeData] in
/-- **The fields of a body** are those of the record, padded. -/
theorem QSOCreateRequest.Carries.merged {body : QSOCreateRequest} {record : Record}
    (h : body.Carries record) : body.merged = padNulls record.toDoc := by
  have hoptional : ∀ text : Option String,
      some (optionalText text) = (text.map Value.str).or (some .null) := by
    intro text
    cases text <;> rfl
  refine Std.ExtTreeMap.ext_getElem? fun k ↦ ?_
  rw [QSOCreateRequest.merged, Doc.getElem?_update, getElem?_padNulls, getElem?_toDoc,
    getElem?_declared]
  by_cases hk : k ∈ createDeclared
  · rw [Std.ExtTreeMap.getElem?_eq_none (body.extra_undeclared k hk), Option.none_or]
    simp only [createDeclared, List.mem_cons, List.not_mem_nil, or_false] at hk
    obtain rfl | rfl | rfl | rfl | rfl | rfl | rfl | rfl := hk <;>
      simp only [String.reduceEq, if_true, if_false, optionalFields, List.mem_cons,
        List.not_mem_nil, or_false, or_true, h.call, h.qsoDate, h.timeOn, h.band, h.mode,
        h.freq, h.rstSent, h.rstRcvd, hoptional, Option.map_some, Option.some_or]
  · have hnames : k ∉ optionalFields := fun h ↦ hk (by
      simp only [optionalFields, createDeclared, List.mem_cons, List.not_mem_nil, or_false] at h ⊢
      grind)
    rw [h.extra k hk, if_neg hnames, Option.or_none]
    simp only [createDeclared, List.mem_cons, List.not_mem_nil, or_false, not_or] at hk
    simp only [hk, if_false, Option.or_none]

/-! ## The same document -/

omit [UnicodeData] in
/-- Two documents that agree, except for what the server adds: the id and the time of creation. -/
def SameDocument (d e : Doc) : Prop :=
  ∀ k, k ≠ "_id" → k ≠ "_created_at" → d[k]? = e[k]?

omit [UnicodeData] in
/-- Two collections that hold one document each, the same one.  Its `rowHash` is one of the fields
that agree. -/
def StoredAlike (c c' : Collection) : Prop :=
  ∃ d e, c.docs = [d] ∧ c'.docs = [e] ∧ SameDocument d e

/-- A dictionary makes the same document whenever it is stored. -/
theorem sameDocument_newDoc {env env' : Env} {qsoDict : Doc} (h : Encodes qsoDict) :
    SameDocument (Doc.toStored (newDoc env 0 qsoDict)) (Doc.toStored (newDoc env' 0 qsoDict)) := by
  have hget := getElem?_newDoc (@Encodes.newDoc _ env _ h).2.2
  have hget' := getElem?_newDoc (@Encodes.newDoc _ env' _ h).2.2
  have hfield : ∀ k, k ≠ "_id" → k ≠ "_created_at" → k ≠ "rowHash" →
      (newDoc env 0 qsoDict)[k]? = (newDoc env' 0 qsoDict)[k]? := by
    intro k hid hcreated hhash
    rw [newDoc, newDoc, hget, hget']
    simp only [hid, hcreated, hhash, if_false]
  have hhash : canonicalDocumentHash (newDoc env 0 qsoDict) =
      canonicalDocumentHash (newDoc env' 0 qsoDict) := by
    refine canonicalDocumentHash_congr fun k hk ↦ congrArg _ (hfield k ?_ ?_ ?_) <;>
      rintro rfl <;> exact hk (by decide)
  intro k hid hcreated
  rw [Doc.getElem?_toStored, Doc.getElem?_toStored]
  by_cases hk : k = "rowHash"
  · subst hk
    simp only [newDoc] at hhash ⊢
    simp only [hget, hget', String.reduceEq, if_true, if_false, hhash]
  · rw [hfield k hid hcreated hk]

/-- What a `POST` stores in an empty collection is the document of the padded dictionary. -/
theorem docs_createQso_of_empty {env : Env} {body : QSOCreateRequest} {force : Bool} {u : User}
    {c : Collection} {record : Record} {d : Doc} (hbody : body.Carries record) (hc : c.docs = [])
    (h : (after (createQso env body force u : Db _) c).docs = [d]) :
    ∃ qsoDict oid qso, buildQsoDict record.toDoc u.callsign (some u) = .ok qsoDict ∧
      qsoFromInputDict env.now oid (padNulls qsoDict) = .ok qso ∧
      d = Doc.toStored (qsoToMongoDoc oid qso) := by
  have hwrites := @createQso_writes _ env c body force u
  generalize after (createQso env body force u : Db _) c = c' at h hwrites
  cases hwrites with
  | refl => cases hc.symm.trans h
  | single hwrite =>
    cases hwrite with
    | insert hsubmit hbuild _ hinsert =>
      obtain ⟨rfl, rfl, rfl, -⟩ := hsubmit
      rw [hbody.merged, buildQsoDict_padNulls] at hbuild
      obtain ⟨oid, qso, hqso, hinsert⟩ := hinsert
      cases hdict : buildQsoDict record.toDoc u.callsign (some u) with
      | error exc =>
        rw [hdict] at hbuild
        cases hbuild
      | ok qsoDict =>
        rw [hdict] at hbuild
        obtain rfl := Except.ok.inj hbuild
        rw [(Collection.insert_eq_ok hinsert).1, hc, List.nil_append] at h
        exact ⟨qsoDict, oid, qso, rfl, hqso, (List.singleton_inj.1 h).symm⟩
    | update hold =>
      rw [hc] at hold
      cases hold
    | clear hclear => cases hclear

/-- A `POST` into an empty collection stores what can be built and searched for. -/
theorem createQso_of_empty {env : Env} {body : QSOCreateRequest} {force : Bool} {u : User}
    {c : Collection} {qsoDict : Doc} {query : Doc → Bool} (hc : c.docs = [])
    (hbuild : buildQsoDict body.merged u.callsign (some u) = .ok qsoDict)
    (hsearch : Searches u.callsign qsoDict query) (hdict : Encodes qsoDict) :
    (after (createQso env body force u : Db _) c).docs =
      [Doc.toStored (newDoc env 0 qsoDict)] := by
  obtain ⟨c', hinsert⟩ := @Encodes.exists_insert _ env _ hdict _ hc
  refine after_of_wp (P := fun c' : Collection ↦ c'.docs = [Doc.toStored (newDoc env 0 qsoDict)]) ?_
  have hfound : c.docs.find? query = none := by
    rw [hc]
    rfl
  have hqso := (@Encodes.newDoc _ env _ hdict).2.2
  have hinserted : wp (insertQsoDict env (env.fresh 0) qsoDict : Db _)
      (fun _ c' ↦ c'.docs = [Doc.toStored (newDoc env 0 qsoDict)]) (fun _ _ ↦ False) c := by
    simp only [insertQsoDict, wp_bind, wp_ofExcept, wp_tryCatch, wp_liftM, wp_insertOne, wp_pure,
      hqso, Except.ok.injEq, forall_eq', reduceCtorEq, false_imp_iff, implies_true, and_true]
    refine ⟨fun c'' hc'' ↦ ?_, fun exc hexc ↦ ?_⟩
    · rw [(Collection.insert_eq_ok hc'').1, hc, List.nil_append]
      rfl
    · cases hinsert.symm.trans hexc
  simp only [createQso, wp_bind, wp_ofExcept, hbuild, Except.ok.injEq, forall_eq', reduceCtorEq,
    false_imp_iff, implies_true, and_true]
  have hsearched : ∀ {Q : Option QSO → Collection → Prop} {E : PyErr → Collection → Prop},
      Q none c → wp (findUnlessForced env u.callsign qsoDict force : Db _) Q E c := by
    intro Q E h
    cases force with
    | true => exact h
    | false =>
      rw [findUnlessForced, if_neg (by decide), wp_findDuplicateOf_of_searches hsearch, hfound]
      exact h
  refine hsearched ?_
  dsimp only
  rw [wp_bind]
  refine wp_mono hinserted (fun result c' h ↦ ?_) fun _ _ h ↦ h.elim
  split
  · exact h
  · simp only [wp_bind, wp_ofExcept, wp_throw]
    exact ⟨fun _ _ ↦ h, fun _ _ ↦ h⟩

/-- What a datagram for a user does to the user's collection. -/
theorem collection_handleDatagram_of_delivers {env : Env} {caches : Resolvers} {data : List UInt8}
    {operator : Option String} {user : Option User} {record : Record} {u : User} {db : Database}
    {coll : String} (hdata : Delivers caches data operator user record u)
    (hcoll : qsoCollectionName u.username = .ok coll) :
    (after (handleDatagram env caches data operator user) db).collection coll =
      after (ingestQsoRecord env record u.callsign (some u) "udp" : Db _) (db.collection coll) := by
  obtain ⟨first, rest, hparse, hrouted⟩ := hdata
  have hingest : handleDatagram env caches data operator user =
      ingestDatagram env record u.callsign u := by
    rw [handleDatagram, hparse]
    dsimp only
    rw [hrouted]
  rw [hingest, collection_ingestDatagram.2 hcoll]

/-- **The same contact is the same document** exactly if it brings the three optional fields the
request model declares, and a date with which it can be stored at all. -/
theorem storedAlike_iff {env env' : Env} {body : QSOCreateRequest} {force : Bool} {u : User}
    {caches : Resolvers} {data : List UInt8} {operator : Option String} {user : Option User}
    {record : Record} {c : Collection} {db : Database} {coll : String}
    (hnames : ∀ k ∈ record, isAdifName k = true) (hbody : body.Carries record)
    (hdata : Delivers caches data operator user record u)
    (hcoll : qsoCollectionName u.username = .ok coll) (hc : c.docs = []) (hdb : db.docs coll = []) :
    StoredAlike (after (createQso env body force u : Db _) c)
        ((after (handleDatagram env' caches data operator user) db).collection coll) ↔
      (∀ k ∈ optionalFields, k ∈ record) ∧ Datable u record := by
  have hingested := ingested env' record u.callsign (some u) "udp" (db.collection coll)
  rw [collection_handleDatagram_of_delivers hdata hcoll]
  generalize after (ingestQsoRecord env' record u.callsign (some u) "udp" : Db _)
    (db.collection coll) = c' at hingested
  constructor
  · rintro ⟨d, e, hpost, hudp, hsame⟩
    cases hingested with
    | kept =>
      rw [show (db.collection coll).docs = [] from hdb] at hudp
      cases hudp
    | inserted hadmits hdocs =>
      rename_i e'
      rw [show (db.collection coll).docs = [] from hdb, List.nil_append, hudp] at hdocs
      obtain rfl := List.singleton_inj.1 hdocs
      refine ⟨fun k hk ↦ ?_, (exists_build_iff hbody.required).1 ?_⟩
      · -- The field is in the one document, as a null at least, and so in the other.
        obtain ⟨qsoDict, oid, qso, -, hqso, rfl⟩ := docs_createQso_of_empty hbody hc hpost
        have hnames : ∀ k ∈ optionalFields, k ∉ aliasNames ∧ k ∉ derivedNames ∧ k ∉ stampedNames ∧
            ¬ (k ∈ inputExcluded ∨ k ∈ hiddenNames) ∧ k ≠ "_id" ∧ k ≠ "_created_at" := by decide
        obtain ⟨halias, hderived, hstamped, hkept, hid, hcreated⟩ := hnames k hk
        by_contra hrecord
        have hnone := hadmits.notMem hrecord halias hderived hstamped
        rw [Doc.mem_iff_ne_none, not_not, ← hsame k hid hcreated, Doc.getElem?_toStored,
          Option.map_eq_none_iff, getElem?_newDoc_extra hqso halias, if_neg hkept,
          getElem?_padNulls, if_pos hk, Option.or_eq_none_iff] at hnone
        exact absurd hnone.2 (Option.some_ne_none _)
      · obtain ⟨-, qsoDict, query, _, _, hbuild, hsearch, -⟩ := hadmits
        exact ⟨qsoDict, query, hbuild, hsearch⟩
  · rintro ⟨hoptional, hdatable⟩
    obtain ⟨qsoDict, query, hbuild, hsearch⟩ := (exists_build_iff hbody.required).2 hdatable
    have hdict := encodes_of_build hnames hbuild
    have hmerged : body.merged = record.toDoc := by
      rw [hbody.merged, padNulls_of_mem fun k hk ↦ mem_toDoc.2 (hoptional k hk)]
    have hpost := @createQso_of_empty _ env _ force _ _ _ _ hc (hmerged ▸ hbuild) hsearch hdict
    have hadmits : Admits env' record u.callsign (some u) (db.collection coll)
        (Doc.toStored (newDoc env' 0 qsoDict)) := by
      obtain ⟨c'', hinsert⟩ := @Encodes.exists_insert _ env' _ hdict (db.collection coll) hdb
      refine ⟨hbody.required, qsoDict, query, _, c'', hbuild, hsearch, fun e he ↦ ?_,
        (@Encodes.newDoc _ env' _ hdict).2.2, hinsert, rfl⟩
      rw [show (db.collection coll).docs = [] from hdb] at he
      cases he
    cases hingested with
    | kept hrefuses => exact absurd hadmits (hrefuses _)
    | inserted hadmits' hdocs =>
      obtain ⟨-, qsoDict', _, qso, _, hbuild', -, -, hqso, -, rfl⟩ := hadmits'
      obtain rfl := Except.ok.inj (hbuild.symm.trans hbuild')
      obtain rfl := Except.ok.inj ((@Encodes.newDoc _ env' _ hdict).2.2.symm.trans hqso)
      rw [show (db.collection coll).docs = [] from hdb, List.nil_append] at hdocs
      exact ⟨_, _, hpost, hdocs, sameDocument_newDoc hdict⟩

end

/-! ## A contact with its reports, and one without -/

section

attribute [local instance] UnicodeData.ascii

/-- A contact with all three of the optional fields. -/
def Sample.reported : QSOCreateRequest :=
  { Sample.contact with freq := some "14.2", rstSent := some "59", rstRcvd := some "57" }

/-- The datagram of `Sample.contact`. -/
@[irreducible] def Sample.contactDatagram : List UInt8 := encodeUtf8
  "<CALL:5>K1ABC<QSO_DATE:8>20240101<TIME_ON:4>1200<BAND:3>20m<MODE:3>ssb<EOR>".toList

/-- The datagram of `Sample.reported`. -/
@[irreducible] def Sample.reportedDatagram : List UInt8 := encodeUtf8
  ("<CALL:5>K1ABC<QSO_DATE:8>20240101<TIME_ON:4>1200<BAND:3>20m<MODE:3>ssb<FREQ:4>14.2" ++
    "<RST_SENT:2>59<RST_RCVD:2>57<EOR>").toList

/-- Whether a body without extra fields carries a record. -/
def Sample.carriesAll (body : QSOCreateRequest) (record : Record) : Bool :=
  record.keys.all (· ∈ createDeclared) && record["CALL"]? == some body.call &&
    record["QSO_DATE"]? == some body.qsoDate && record["TIME_ON"]? == some body.timeOn &&
    record["BAND"]? == some body.band && record["MODE"]? == some body.mode &&
    record["FREQ"]? == body.freq && record["RST_SENT"]? == body.rstSent &&
    record["RST_RCVD"]? == body.rstRcvd

theorem Sample.carries {body : QSOCreateRequest} {record : Record}
    (hextra : body.extra.fields = ∅) (h : Sample.carriesAll body record = true) :
    body.Carries record ∧ ∀ k ∈ record, isAdifName k = true := by
  simp only [carriesAll, Bool.and_eq_true, beq_iff_eq, List.all_eq_true, decide_eq_true_eq,
    Std.ExtTreeMap.mem_keys] at h
  obtain ⟨⟨⟨⟨⟨⟨⟨⟨hkeys, hcall⟩, hdate⟩, htime⟩, hband⟩, hmode⟩, hfreq⟩, hsent⟩, hrcvd⟩ := h
  refine ⟨⟨hcall, hdate, htime, hband, hmode, hfreq, hsent, hrcvd, fun k hk ↦ ?_⟩, fun k hk ↦ ?_⟩
  · rw [hextra, Std.ExtTreeMap.getElem?_empty,
      Std.ExtTreeMap.getElem?_eq_none fun hmem ↦ hk (hkeys k hmem), Option.map_none]
  · have hnames : ∀ k ∈ createDeclared, isAdifName k = true := by decide
    exact hnames k (hkeys k hk)

/-- A record that comes as the only one of a datagram, to a listener configured for its user. -/
theorem Sample.exists_delivers {body : QSOCreateRequest} {data : List UInt8}
    (hextra : body.extra.fields = ∅)
    (h : (match parseAdi (decodeUtf8 data) with
      | (record :: _, []) => record["APP_OLLOG_TOKEN"]?.isNone && record["OPERATOR"]?.isNone &&
        Sample.carriesAll body record
      | _ => false) = true) :
    ∃ record, Delivers Sample.resolvers data (some "W1AW") (some Sample.user) record Sample.user ∧
      body.Carries record ∧ ∀ k ∈ record, isAdifName k = true := by
  split at h
  · rename_i record rest hparse
    simp only [Bool.and_eq_true, Option.isNone_iff_eq_none] at h
    obtain ⟨⟨htoken, hoperator⟩, hall⟩ := h
    refine ⟨record, ⟨record, rest, hparse, ?_⟩, Sample.carries hextra hall⟩
    simp only [consumeToken, htoken, bind, Except.bind, consumeOperator, hoperator]
    rfl
  · cases h

theorem storedAlike_of_reported : ∃ record,
    Delivers Sample.resolvers Sample.reportedDatagram (some "W1AW") (some Sample.user) record
      Sample.user ∧ Sample.reported.Carries record ∧
    StoredAlike
      (after (createQso Sample.env Sample.reported false Sample.user : Db _) Sample.log)
      ((after (handleDatagram Sample.later Sample.resolvers Sample.reportedDatagram (some "W1AW")
        (some Sample.user)) Sample.database).collection "w1aw_qsos") := by
  obtain ⟨record, hdata, hbody, hnames⟩ := @Sample.exists_delivers Sample.reported
    Sample.reportedDatagram rfl (by decide +kernel)
  refine ⟨record, hdata, hbody, (storedAlike_iff hnames hbody hdata (by decide +kernel) rfl
    (by decide +kernel)).2 ⟨fun k hk ↦ ?_, ?_⟩⟩
  · have hmem : ∀ {k s}, record[k]? = some s → k ∈ record := fun hs ↦
      Std.ExtTreeMap.mem_iff_isSome_getElem?.2 (by rw [hs]; rfl)
    simp only [optionalFields, List.mem_cons, List.not_mem_nil, or_false] at hk
    obtain rfl | rfl | rfl := hk
    exacts [hmem hbody.freq, hmem hbody.rstSent, hmem hbody.rstRcvd]
  · -- The user has no custom fields.
    have hnormal : applyCustomFieldNormalization record.toDoc (some Sample.user) =
        .ok record.toDoc := by
      have hfields : enabledCustomFieldsForUser (some Sample.user) = .ok [] := by decide +kernel
      rw [applyCustomFieldNormalization, hfields]
      rfl
    have hdate : parseAdifDatetime (.str "20240101") (.str "1200") =
        .ok (combineUtc (dayNumber 2024 1 1) 43200) := by rfl
    refine ⟨record.toDoc, .str "20240101", .str "1200", _, hnormal, ?_, ?_, hdate, by decide +kernel⟩
    · rw [getElem?_toDoc, hbody.qsoDate]
      rfl
    · rw [getElem?_toDoc, hbody.timeOn]
      rfl

/-- Without the reports a `POST` stores nulls, and a datagram does not. -/
theorem not_storedAlike_of_contact : ∃ record,
    Delivers Sample.resolvers Sample.contactDatagram (some "W1AW") (some Sample.user) record
      Sample.user ∧ Sample.contact.Carries record ∧ (∀ k ∈ record, isAdifName k = true) ∧
    ¬ StoredAlike
      (after (createQso Sample.env Sample.contact false Sample.user : Db _) Sample.log)
      ((after (handleDatagram Sample.later Sample.resolvers Sample.contactDatagram (some "W1AW")
        (some Sample.user)) Sample.database).collection "w1aw_qsos") := by
  obtain ⟨record, hdata, hbody, hnames⟩ := @Sample.exists_delivers Sample.contact
    Sample.contactDatagram rfl (by decide +kernel)
  refine ⟨record, hdata, hbody, hnames, fun ⟨d, e, hd, he, hsame⟩ ↦ ?_⟩
  have hpost : (after (createQso Sample.env Sample.contact false Sample.user : Db _)
      Sample.log).docs.map (·["FREQ"]?) = [some .null] := by decide +kernel
  have hudp : ((after (handleDatagram Sample.later Sample.resolvers Sample.contactDatagram
      (some "W1AW") (some Sample.user)) Sample.database).collection "w1aw_qsos").docs.map
      (·["FREQ"]?) = [none] := by decide +kernel
  rw [hd, List.map_singleton, List.singleton_inj] at hpost
  rw [he, List.map_singleton, List.singleton_inj, ← hsame "FREQ" (by decide) (by decide), hpost]
    at hudp
  cases hudp

end

end Ollog
