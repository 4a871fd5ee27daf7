import Ollog.Qso.Fidelity
import Ollog.Qso.Reimport
import Ollog.Qso.Timestamps

/-!
# An export is recognised

A log's own export is the one file that should be nothing new to it: every record describes a
contact that is stored.  What stands between a document and its record is that an import reads five
fields, and reads them from the file.  The text of a field survives the way
(`parseAdi_exportStream_readBack`), but its name is upper-cased, a field that is no text becomes
one, and the instant is taken from the two texts and not from `qso_date_utc`.

`Complete` says of a document that its record tells the import the truth, and
`Request.KeepsComplete` rules out the requests that leave another one behind: a name that an export
cannot carry or that becomes the name of one of the five fields, a required field that is patched
away or into something else than a text, a band or a mode of lower-case letters, and an instant
whose window leaves the years 1 to 9999.
-/

set_option autoImplicit false

namespace Ollog

open Effects

section

variable [UnicodeData]

/-! ## Names -/

/-- A field name that an export can carry, and that does not become the one of a field the import
reads. -/
structure ExportName (k : String) : Prop where
  safe : SafeName k
  required : upper k ∈ requiredFields → upper k = k

theorem exportName_of_ascii {k : String} (hascii : ∀ c ∈ k.toList, c.toNat < 128)
    (hgt : '>' ∉ k.toList) (hcolon : ':' ∉ k.toList)
    (hrequired : String.ofList (k.toList.map Char.toUpper) ∈ requiredFields →
      String.ofList (k.toList.map Char.toUpper) = k) : ExportName k :=
  ⟨⟨hgt, hcolon⟩, by rwa [upper_of_ascii hascii]⟩

/-- An upper-case name needs only be safe. -/
theorem TagName.exportName {k : String} (h : TagName k) : ExportName k :=
  ⟨h.safe, fun _ ↦ h.upper_eq⟩

theorem tagName_of_isAdifName {k : String} (hk : isAdifName k = true) : TagName k := by
  have hsymbol : ∀ c ∈ k.toList, c ≠ '>' ∧ c ≠ ':' := fun c hc ↦
    forall_adifNameChar (P := fun c ↦ c ≠ '>' ∧ c ≠ ':') (by decide)
      ((nameChars_of_isAdifName hk).2 c hc)
  exact ⟨upper_of_isAdifName hk, fun h ↦ (hsymbol _ h).1 rfl, fun h ↦ (hsymbol _ h).2 rfl⟩

theorem exportName_of_isAdifName {k : String} (hk : isAdifName k = true) : ExportName k :=
  (tagName_of_isAdifName hk).exportName

/-- The names the program uses for its own fields do no harm. -/
theorem exportName_of_internal : ∀ k ∈ aliasNames ++ derivedNames, ExportName k := by
  have hall : ∀ k ∈ aliasNames ++ derivedNames, k.toList.all (·.toNat < 128) = true ∧
      '>' ∉ k.toList ∧ ':' ∉ k.toList ∧
      (String.ofList (k.toList.map Char.toUpper) ∈ requiredFields →
        String.ofList (k.toList.map Char.toUpper) = k) := by decide
  intro k hk
  obtain ⟨hascii, hgt, hcolon, hrequired⟩ := hall k hk
  exact exportName_of_ascii (fun c hc ↦ of_decide_eq_true (List.all_eq_true.1 hascii c hc))
    hgt hcolon hrequired

/-- Neither does a name that comes from a file. -/
theorem exportName_of_mem_parseAdi (hlaws : UnicodeData.UpperLaws) {text : List Char}
    {record : Record} (h : record ∈ (parseAdi text).1) : ∀ k ∈ record, ExportName k := by
  refine names_of_mem_parseAdi (fun name hgt hcolon ↦ ?_) h
  have hchar : ∀ d ∈ upperChars name, d ∈ name ∨ (d.toNat < 128 → d.isUpper = true) := by
    intro d hd
    obtain ⟨c, hc, hd⟩ := List.mem_flatMap.1 hd
    by_cases heq : d = c
    · exact .inl (heq ▸ hc)
    · exact .inr fun hascii ↦ hlaws.upper_symbol c d hd hascii heq
  refine TagName.exportName ⟨?_, ?_, ?_⟩
  · have hname : upper (String.ofList name) = String.ofList (upperChars name) := by
      rw [upper, String.toList_ofList]
    rw [← hname]
    exact upper_eq_of_uppercase (uppercase_upper hlaws _)
  · rw [String.toList_ofList]
    exact fun hmem ↦ (hchar '>' hmem).elim hgt fun h ↦ absurd (h (by decide)) (by decide)
  · rw [String.toList_ofList]
    exact fun hmem ↦ (hchar ':' hmem).elim hcolon fun h ↦ absurd (h (by decide)) (by decide)

/-! ## Upper case -/

/-- The fields that are compared in upper case. -/
def upperCaseNames : List String := ["BAND", "MODE"]

/-- There is nothing, or nothing yet, or an upper-case text. -/
def UpperCased (v : Option Value) : Prop :=
  ∀ w, v = some w → w = .null ∨ ∃ s, w = .str s ∧ Uppercase s

theorem upperCased_of_upperField (hlaws : UnicodeData.UpperLaws) {d d' : Doc} {k : String}
    (h : upperField d k = .ok d') : UpperCased d'[k]? := by
  rw [upperField] at h
  intro w hw
  split at h
  · rename_i hnone
    cases h
    cases hw.symm.trans hnone
  · rename_i hnull
    cases h
    exact .inl (Option.some.inj (hw.symm.trans hnull))
  · cases h
    rw [Doc.getElem?_insert, if_pos rfl] at hw
    cases hw
    exact .inr ⟨_, rfl, uppercase_upper hlaws _⟩
  · cases h

/-- Custom fields are trimmed and perhaps upper-cased, which keeps them in upper case. -/
theorem UpperCased.apply (hlaws : UnicodeData.UpperLaws) {record result : Doc}
    {user : Option User} (h : applyCustomFieldNormalization record user = .ok result) {k : String}
    (hk : UpperCased record[k]?) : UpperCased result[k]? := by
  obtain ⟨fields, -, hresult⟩ := bind_eq_ok.1 h
  cases hresult
  clear h
  induction fields generalizing record with
  | nil => exact hk
  | cons field fields ih =>
    rw [List.foldl_cons]
    refine ih ?_
    rw [normalizeCustomField]
    split
    · exact hk
    · exact hk
    rename_i v hnull hv
    rw [Doc.getElem?_insert]
    split
    · rename_i heq
      subst heq
      obtain rfl | ⟨s, rfl, hs⟩ := hk v hv
      · exact absurd rfl hnull
      · intro w hw
        cases hw
        rw [normalizeCustomValue]
        refine .inr ⟨_, rfl, ?_⟩
        split
        · exact uppercase_upper hlaws _
        · exact hs.strip
    · exact hk

/-- A new QSO has its band and its mode in upper case. -/
theorem upperCased_of_buildQsoDict (hlaws : UnicodeData.UpperLaws) {body qsoDict : Doc}
    {operator : String} {profile : Option User}
    (h : buildQsoDict body operator profile = .ok qsoDict) :
    ∀ k ∈ upperCaseNames, UpperCased qsoDict[k]? := by
  obtain ⟨normal, hnormal, h⟩ := bind_eq_ok.1 h
  obtain ⟨banded, hbanded, h⟩ := bind_eq_ok.1 h
  obtain ⟨fields, hfields, h⟩ := bind_eq_ok.1 h
  obtain ⟨date, hdate, h⟩ := bind_eq_ok.1 h
  obtain ⟨time, htime, h⟩ := bind_eq_ok.1 h
  obtain ⟨dt, hdt, h⟩ := bind_eq_ok.1 h
  obtain rfl := Except.ok.inj h
  have hnames : ∀ k ∈ upperCaseNames, k ∉ stampedNames ∧ k ≠ "is_deleted" ∧
      k ≠ "operator_callsign" ∧ k ≠ "qso_date_utc" := by decide
  intro k hk
  obtain ⟨hstamp, h₁, h₂, h₃⟩ := hnames k hk
  rw [(retouched_stampProfile _ profile).getElem?_eq hstamp]
  simp only [Doc.getElem?_insert, h₁, h₂, h₃, if_false]
  simp only [upperCaseNames, List.mem_cons, List.not_mem_nil, or_false] at hk
  obtain rfl | rfl := hk
  · rw [(retouched_upperField hfields).getElem?_eq (by decide)]
    exact upperCased_of_upperField hlaws hbanded
  · exact upperCased_of_upperField hlaws hfields

/-- So have the fields of a REST patch. -/
theorem upperCased_of_patchedFields (hlaws : UnicodeData.UpperLaws) {user : User}
    {body fields : Doc} (h : patchedFields user body = .ok fields) :
    ∀ k ∈ upperCaseNames, UpperCased fields[k]? := by
  obtain ⟨banded, hbanded, h⟩ := bind_eq_ok.1 h
  obtain ⟨upper, hupper, h⟩ := bind_eq_ok.1 h
  intro k hk
  refine UpperCased.apply hlaws h ?_
  simp only [upperCaseNames, List.mem_cons, List.not_mem_nil, or_false] at hk
  obtain rfl | rfl := hk
  · rw [(retouched_upperField hupper).getElem?_eq (by decide)]
    exact upperCased_of_upperField hlaws hbanded
  · exact upperCased_of_upperField hlaws hupper

/-- The band and the mode of a form are upper-cased, unless they are those of a custom field. -/
theorem getElem?_formUpdates_upper {user : User} {qso : QSO} {form : Form} {updates : Doc}
    (h : formUpdates user qso form = .ok updates) {k : String} (hk : k ∈ upperCaseNames) :
    ∃ values, customQsoValuesFromForm form user true = .ok values ∧ updates[k]? =
      values[k]?.or ((nonBlank (formParam form k)).map fun s ↦ .str (upper s)) := by
  obtain ⟨values, hvalues, h⟩ := bind_eq_ok.1 h
  obtain ⟨dated, hdated, h⟩ := bind_eq_ok.1 h
  obtain rfl := Except.ok.inj h
  have hnames : ∀ k ∈ upperCaseNames, k ∉ protectedFields ∧ k ≠ "qso_date_utc" ∧
      k ≠ "QSO_DATE" ∧ k ≠ "TIME_ON" := by decide
  obtain ⟨hprotected, h₁, h₂, h₃⟩ := hnames k hk
  have htexts : (formTexts form values)[k]? =
      values[k]?.or ((nonBlank (formParam form k)).map fun s ↦ .str (upper s)) := by
    simp only [upperCaseNames, List.mem_cons, List.not_mem_nil, or_false] at hk
    rw [formTexts, Doc.getElem?_update]
    obtain rfl | rfl := hk <;>
      simp only [getElem?_putNonBlank, String.reduceEq, if_true, if_false,
        Std.ExtTreeMap.getElem?_empty, Option.or_none]
  refine ⟨values, hvalues, ?_⟩
  rw [stripProtected, Doc.getElem?_keep, if_pos (decide_eq_true hprotected), ← htexts]
  rw [formDate] at hdated
  split at hdated
  · cases hdated
    rfl
  · obtain ⟨instant, hinstant, hdated⟩ := bind_eq_ok.1 hdated
    obtain rfl := Except.ok.inj hdated
    rw [getElem?_putNonBlank, if_neg h₃, getElem?_putNonBlank, if_neg h₂]
    obtain ⟨rfl, -⟩ | ⟨dt, -, rfl⟩ := formInstant_cases hinstant
    · rfl
    · rw [Doc.getElem?_insert, if_neg h₁]

/-! ## Complete documents -/

/-- A document whose record an import reads as what the document says. -/
structure Complete (d : Doc) : Prop where
  names : ∀ k ∈ d, ExportName k
  /-- The fields an import requires are there, and they are texts. -/
  texts : ∀ k ∈ requiredFields, ∃ s, d[k]? = some (.str s)
  upperCased : ∀ k ∈ upperCaseNames, UpperCased d[k]?
  inRange : ∀ dt, d["qso_date_utc"]? = some (.datetime dt) → dt.InRange

/-- What is parsed is a whole second of a clock that shows UTC. -/
theorem exists_combineUtc_of_parse {date time : Value} {dt : DateTime}
    (h : parseAdifDatetime date time = .ok dt) : ∃ day seconds, dt = combineUtc day seconds := by
  obtain ⟨day, -, h⟩ := bind_eq_ok.1 h
  obtain ⟨seconds, -, h⟩ := bind_eq_ok.1 h
  exact ⟨day, seconds, (Except.ok.inj h).symm⟩

/-- Storing an instant that was parsed does not move it. -/
theorem inRange_toStored_iff {date time : Value} {dt : DateTime}
    (h : parseAdifDatetime date time = .ok dt) : dt.toStored.InRange ↔ dt.InRange := by
  obtain ⟨day, seconds, rfl⟩ := exists_combineUtc_of_parse h
  have hwall : (combineUtc day seconds).toStored.wall = (combineUtc day seconds).wall := by
    simp only [DateTime.toStored, DateTime.utc, combineUtc, Option.getD_some]
    omega
  rw [DateTime.InRange, DateTime.InRange, hwall]

/-- The dictionary of a complete document. -/
structure CompleteDict (qsoDict : Doc) : Prop where
  names : ∀ k ∈ qsoDict, ExportName k
  texts : ∀ k ∈ ["CALL", "BAND", "MODE"], ∃ s, qsoDict[k]? = some (.str s)
  inRange : ∀ dt, qsoDict["qso_date_utc"]? = some (.datetime dt) → dt.InRange

theorem complete_newDoc (hlaws : UnicodeData.UpperLaws) {now : DateTime} {oid : ObjectId}
    {fields qsoDict : Doc} {operator : String} {profile : Option User} {qso : QSO}
    (hbuild : buildQsoDict fields operator profile = .ok qsoDict) (hdict : CompleteDict qsoDict)
    (h : qsoFromInputDict now oid qsoDict = .ok qso) :
    Complete (Doc.toStored (qsoToMongoDoc oid qso)) := by
  obtain ⟨date, time, dt, hdate, htime, hdt, hinstant⟩ := (built_of_buildQsoDict hbuild).instant
  obtain ⟨⟨date, rfl, -⟩, ⟨time, rfl, -⟩, -⟩ := parseAdifDatetime_eq_ok hdt
  have hget : ∀ k, (Doc.toStored (qsoToMongoDoc oid qso))[k]? =
      ((qsoToMongoDoc oid qso)[k]?).map Value.toStored := Doc.getElem?_toStored _
  -- A text of the dictionary is stored as it is.
  have htext : ∀ k ∈ requiredFields, ∀ s, qsoDict[k]? = some (.str s) →
      (Doc.toStored (qsoToMongoDoc oid qso))[k]? = some (.str s) := by
    intro k hk s hs
    simp only [requiredFields, List.mem_cons, List.not_mem_nil, or_false] at hk
    rw [hget, getElem?_newDoc h]
    obtain rfl | rfl | rfl | rfl | rfl := hk <;>
      simp only [String.reduceEq, if_true, if_false, Doc.get, hs, Option.getD_some]
    case inr.inr.inr.inl | inr.inr.inr.inr =>
      rw [if_neg (by decide)]
      rfl
    all_goals rfl
  have htexts : ∀ k ∈ requiredFields, ∃ s, qsoDict[k]? = some (.str s) := by
    intro k hk
    simp only [requiredFields, List.mem_cons, List.not_mem_nil, or_false] at hk
    obtain rfl | rfl | rfl | rfl | rfl := hk
    · exact hdict.texts _ (by decide)
    · exact hdict.texts _ (by decide)
    · exact hdict.texts _ (by decide)
    · exact ⟨date, hdate⟩
    · exact ⟨time, htime⟩
  refine ⟨fun k hk ↦ ?_, fun k hk ↦ ?_, fun k hk w hw ↦ ?_, fun dt' hdt' ↦ ?_⟩
  · by_cases halias : k ∈ aliasNames
    · exact exportName_of_internal k (List.mem_append_left _ halias)
    · rw [Doc.mem_toStored, Doc.mem_iff_ne_none, getElem?_newDoc_extra h halias] at hk
      refine hdict.names k (Doc.mem_iff_ne_none.2 fun hnone ↦ hk ?_)
      rw [hnone, ite_self]
  · obtain ⟨s, hs⟩ := htexts k hk
    exact ⟨s, htext k hk s hs⟩
  · have hrequired : ∀ k ∈ upperCaseNames, k ∈ requiredFields := by decide
    obtain ⟨s, hs⟩ := htexts k (hrequired k hk)
    obtain hnull | ⟨s', hs', hupper⟩ := upperCased_of_buildQsoDict hlaws hbuild k hk _ hs
    · cases hnull
    · cases hs'
      cases hw.symm.trans (htext k (hrequired k hk) s hs)
      exact .inr ⟨s, rfl, hupper⟩
  · rw [hget, getElem?_newDoc h] at hdt'
    simp only [String.reduceEq, if_true, if_false, Doc.get, hinstant, Option.getD_some] at hdt'
    cases hdt'
    exact (inRange_toStored_iff hdt).2 (hdict.inRange dt hinstant)

/-! ## Updates -/

omit [UnicodeData] in
/-- A field of an updated document is an old one, or where a path of the update starts. -/
theorem mem_of_mem_applySet {set old new : Doc} (h : applySet set old = .ok new) {k : String}
    (hk : k ∈ new) : k ∈ old ∨ ∃ key ∈ set, rootOf key = k := by
  by_cases hroot : ∃ key ∈ set, rootOf key = k
  · exact .inr hroot
  · left
    rw [Doc.mem_iff_ne_none, getElem?_applySet_of_untouched h
      fun key hkey heq ↦ hroot ⟨key, hkey, heq⟩] at hk
    exact Doc.mem_iff_ne_none.2 hk

/-- Updates that leave a complete document. -/
structure CompleteUpdates (updates : Doc) : Prop where
  names : ∀ k ∈ updates, ExportName (rootOf k)
  texts : ∀ k ∈ requiredFields, ∀ v, updates[k]? = some v → ∃ s, v = .str s
  upperCased : ∀ k ∈ upperCaseNames, UpperCased updates[k]?
  inRange : ∀ dt, updates["qso_date_utc"]? = some (.datetime dt) → dt.toStored.InRange

/-- **An update keeps a document complete.** -/
theorem complete_update {old new updates : Doc} {qso : QSO} (hold : Complete old)
    (hinstant : ∃ dt, old["qso_date_utc"]? = some (.datetime dt)) (hupdates : CompleteUpdates updates)
    (h : applySet (Doc.toStored (withRowHash qso updates)) old = .ok new) : Complete new := by
  have hnames : ∀ k ∈ requiredFields, PlainKey k ∧ k ≠ "rowHash" := by decide
  have hget : ∀ k ∈ requiredFields, new[k]? = (updates[k]?.map Value.toStored).or old[k]? := by
    intro k hk
    obtain ⟨s, hs⟩ := hold.texts k hk
    rw [getElem?_applySet_scalar h (hnames k hk).1 hs rfl, getElem?_set qso updates (hnames k hk).2]
  refine ⟨fun k hk ↦ ?_, fun k hk ↦ ?_, fun k hk ↦ ?_, fun dt hdt ↦ ?_⟩
  · obtain hk | ⟨key, hkey, rfl⟩ := mem_of_mem_applySet h hk
    · exact hold.names k hk
    rw [Doc.mem_toStored, withRowHash, Std.ExtTreeMap.mem_insert, Std.compare_eq_iff_eq] at hkey
    obtain rfl | hkey := hkey
    · rw [rootOf_of_plain (by decide)]
      exact exportName_of_internal _ (by decide)
    · exact hupdates.names key hkey
  · rw [hget k hk]
    cases hv : updates[k]? with
    | none => exact hold.texts k hk
    | some v =>
      obtain ⟨s, rfl⟩ := hupdates.texts k hk v hv
      exact ⟨s, rfl⟩
  · have hrequired : ∀ k ∈ upperCaseNames, k ∈ requiredFields := by decide
    rw [hget k (hrequired k hk)]
    cases hv : updates[k]? with
    | none => exact hold.upperCased k hk
    | some v =>
      intro w hw
      cases hw
      obtain rfl | ⟨s, rfl, hs⟩ := hupdates.upperCased k hk v hv
      · exact .inl rfl
      · exact .inr ⟨s, rfl, hs⟩
  · obtain ⟨dt₀, hdt₀⟩ := hinstant
    rw [getElem?_applySet_scalar h (by decide) hdt₀ rfl, getElem?_set qso updates (by decide)] at hdt
    cases hv : updates["qso_date_utc"]? with
    | none =>
      rw [hv] at hdt
      exact hold.inRange dt hdt
    | some v =>
      rw [hv] at hdt
      obtain ⟨dt', rfl, rfl⟩ := Value.exists_datetime_of_toStored (Option.some.inj hdt)
      exact hupdates.inRange _ hv

/-! ## Requests -/

/-- The instant a submission is stored with has its window in the years 1 to 9999. -/
def BuildsInRange (fields : Doc) (operator : String) (profile : Option User) : Prop :=
  ∀ qsoDict dt, buildQsoDict fields operator profile = .ok qsoDict →
    qsoDict["qso_date_utc"]? = some (.datetime dt) → dt.InRange

/-- A REST patch that leaves a complete document. -/
structure PatchKeepsComplete (user : User) (qso : QSO) (body : Doc) : Prop where
  names : ∀ k ∈ body, k ∉ protectedFields → ExportName (rootOf k)
  texts : ∀ fields, patchedFields user body = .ok fields → ∀ k ∈ requiredFields, ∀ v,
    fields[k]? = some v → ∃ s, v = .str s
  inRange : ∀ updates dt, patchUpdates user qso body = .ok updates →
    updates["qso_date_utc"]? = some (.datetime dt) → dt.InRange

/-- A form that leaves a complete document. -/
structure FormKeepsComplete (user : User) (qso : QSO) (form : Form) : Prop where
  /-- No custom field called `BAND` or `MODE` is submitted with lower-case letters. -/
  upperCase : ∀ values, customQsoValuesFromForm form user true = .ok values →
    ∀ k ∈ upperCaseNames, ∀ s, values[k]? = some (.str s) → upper s = s
  inRange : ∀ updates dt, formUpdates user qso form = .ok updates →
    updates["qso_date_utc"]? = some (.datetime dt) → dt.InRange

/-- The request leaves complete documents. -/
def Request.KeepsComplete (c : Collection) (env : Env) : Request → Prop
  | .create body force user => (∀ k ∈ body.extra.fields, ExportName k) ∧
    (force = true → BuildsInRange body.merged user.callsign (some user))
  | .submit form force user => force = true → ∀ fields, submittedFields form user = .ok fields →
    BuildsInRange fields user.callsign (some user)
  | .ingest record _ _ _ => ∀ k ∈ record, ExportName k
  | .importDuplicates selected user => ∀ record : JsonDoc, .ok record ∈ selected →
    ∀ qsoDict, buildQsoDict record.fields user.callsign none = .ok qsoDict →
      (∀ k ∈ record.fields, ExportName k) ∧
      (∀ k ∈ ["CALL", "BAND", "MODE"], ∃ s, record.fields[k]? = some (.str s)) ∧
      ∀ dt, qsoDict["qso_date_utc"]? = some (.datetime dt) → dt.InRange
  | .patch qsoId body user => ∀ old ∈ c.docs, ∀ qso, qsoFromMongoDoc env.now old = .ok qso →
    Addresses qsoId user qso → PatchKeepsComplete user qso body.fields
  | .uiPatch qsoId form user => ∀ old ∈ c.docs, ∀ qso, qsoFromMongoDoc env.now old = .ok qso →
    Addresses qsoId user qso → FormKeepsComplete user qso form
  | _ => True

/-- The names of a dictionary are those of its fields, and some of the program's own. -/
theorem exportName_of_buildQsoDict {fields qsoDict : Doc} {operator : String}
    {profile : Option User} (hbuild : buildQsoDict fields operator profile = .ok qsoDict)
    (h : ∀ k ∈ fields, ExportName k) : ∀ k ∈ qsoDict, ExportName k := by
  intro k hk
  by_cases hderived : k ∈ derivedNames
  · exact exportName_of_internal k (List.mem_append_right _ hderived)
  · obtain hsame | ⟨hname, -⟩ := (built_of_buildQsoDict hbuild).rest k hderived
    · exact h k (by rwa [Doc.mem_iff_ne_none, ← hsame, ← Doc.mem_iff_ne_none])
    · exact exportName_of_isAdifName hname

/-- A text stays a text. -/
theorem exists_text_of_buildQsoDict {fields qsoDict : Doc} {operator : String}
    {profile : Option User} (hbuild : buildQsoDict fields operator profile = .ok qsoDict)
    {k : String} (hk : k ∉ derivedNames) (h : ∃ s, fields[k]? = some (.str s)) :
    ∃ s, qsoDict[k]? = some (.str s) := by
  obtain hsame | ⟨-, htext⟩ := (built_of_buildQsoDict hbuild).rest k hk
  · rwa [hsame]
  · exact htext

omit [UnicodeData] in
/-- What was searched for has its fields, and is in range. -/
theorem NoDuplicate.spec {operator : String} {qsoDict : Doc} {c : Collection}
    (h : NoDuplicate operator qsoDict c) :
    (∀ k ∈ ["CALL", "BAND", "MODE"], qsoDict[k]? ≠ none) ∧
      ∀ dt, qsoDict["qso_date_utc"]? = some (.datetime dt) → dt.InRange := by
  obtain ⟨call, band, mode, dt, windowStart, windowEnd, hcall, hband, hmode, hdate, hstart, hend,
    -⟩ := h
  refine ⟨fun k hk ↦ ?_, fun dt' hdt' ↦ ?_⟩
  · simp only [List.mem_cons, List.not_mem_nil, or_false] at hk
    obtain rfl | rfl | rfl := hk
    · rw [hcall]
      exact Option.some_ne_none _
    · rw [hband]
      exact Option.some_ne_none _
    · rw [hmode]
      exact Option.some_ne_none _
  · cases hdate.symm.trans hdt'
    exact inRange_iff.2 ⟨⟨_, hstart⟩, _, hend⟩

/-- The three texts of a record, if they were searched for. -/
theorem texts_of_toDoc {record : Record} {qsoDict : Doc} {operator : String}
    {profile : Option User} (hbuild : buildQsoDict record.toDoc operator profile = .ok qsoDict)
    (hthere : ∀ k ∈ ["CALL", "BAND", "MODE"], qsoDict[k]? ≠ none) :
    ∀ k ∈ ["CALL", "BAND", "MODE"], ∃ s, qsoDict[k]? = some (.str s) := by
  have hnames : ∀ k ∈ ["CALL", "BAND", "MODE"], k ∉ derivedNames := by decide
  intro k hk
  obtain hsame | ⟨-, htext⟩ := (built_of_buildQsoDict hbuild).rest k (hnames k hk)
  · obtain ⟨v, hv⟩ := Option.ne_none_iff_exists'.1 (hthere k hk)
    rw [hsame, getElem?_toDoc] at hv
    obtain ⟨s, hs, -⟩ := Option.map_eq_some_iff.1 hv
    exact ⟨s, by rw [hsame, getElem?_toDoc, hs, Option.map_some]⟩
  · exact htext

omit [UnicodeData] in
/-- The three texts of a body. -/
theorem texts_of_merged (body : QSOCreateRequest) :
    ∀ k ∈ ["CALL", "BAND", "MODE"], ∃ s, body.merged[k]? = some (.str s) := by
  have hnames : ∀ k ∈ ["CALL", "BAND", "MODE"], k ∈ createDeclared := by decide
  intro k hk
  rw [QSOCreateRequest.merged, Doc.getElem?_update,
    Std.ExtTreeMap.getElem?_eq_none (body.extra_undeclared k (hnames k hk)), Option.none_or]
  simp only [List.mem_cons, List.not_mem_nil, or_false] at hk
  obtain rfl | rfl | rfl := hk <;> rw [QSOCreateRequest.declared] <;>
    simp only [Std.ExtTreeMap.ofList_cons, Std.ExtTreeMap.insertMany_cons,
      Std.ExtTreeMap.insertMany_nil, Doc.getElem?_insert, String.reduceEq, if_true, if_false] <;>
    exact ⟨_, rfl⟩

/-- The three texts of a form. -/
theorem texts_of_submittedFields {form : Form} {user : User} {fields : Doc}
    (h : submittedFields form user = .ok fields) :
    ∀ k ∈ ["CALL", "BAND", "MODE"], ∃ s, fields[k]? = some (.str s) := by
  have htexts := retouched_submittedFields h
  obtain ⟨call, -, h⟩ := bind_eq_ok.1 h
  obtain ⟨qsoDate, -, h⟩ := bind_eq_ok.1 h
  obtain ⟨timeOn, -, h⟩ := bind_eq_ok.1 h
  obtain ⟨band, -, h⟩ := bind_eq_ok.1 h
  obtain ⟨mode, -, h⟩ := bind_eq_ok.1 h
  obtain ⟨values, hvalues, h⟩ := bind_eq_ok.1 h
  obtain rfl := Except.ok.inj h
  intro k hk
  have hform : ∃ s, (formData form call qsoDate timeOn band mode)[k]? = some (.str s) := by
    simp only [List.mem_cons, List.not_mem_nil, or_false] at hk
    obtain rfl | rfl | rfl := hk <;> rw [formData] <;>
      simp only [Std.ExtTreeMap.ofList_cons, Std.ExtTreeMap.insertMany_cons,
        Std.ExtTreeMap.insertMany_nil, Doc.getElem?_insert, String.reduceEq, if_true, if_false] <;>
      exact ⟨_, rfl⟩
  rw [Std.ExtTreeMap.getElem?_filter', Doc.getElem?_update]
  obtain hnone | ⟨-, s, hs⟩ := retouched_customQsoValues hvalues k
  · obtain ⟨s, hs⟩ := hform
    rw [hnone, Std.ExtTreeMap.getElem?_empty, Option.none_or, hs]
    exact ⟨s, rfl⟩
  · exact ⟨s, by rw [hs]; rfl⟩

/-- **Every submission becomes a complete dictionary.** -/
theorem completeDict_of_submits (hlaws : UnicodeData.UpperLaws) {c : Collection} {env : Env}
    {request : Request} {fields qsoDict : Doc} {operator : String} {profile : Option User}
    {checked : Bool} (hrequest : request.KeepsComplete c env)
    (hsubmit : request.Submits fields operator profile checked)
    (hbuild : buildQsoDict fields operator profile = .ok qsoDict)
    (hcheck : checked = true → ∃ c, NoDuplicate operator qsoDict c) : CompleteDict qsoDict := by
  have hnames : ∀ k ∈ ["CALL", "BAND", "MODE"], k ∉ derivedNames := by decide
  cases request with
  | create body force user =>
    obtain ⟨rfl, rfl, rfl, rfl⟩ := hsubmit
    refine ⟨exportName_of_buildQsoDict hbuild fun k hk ↦ ?_, fun k hk ↦
      exists_text_of_buildQsoDict hbuild (hnames k hk) (texts_of_merged body k hk), fun dt hdt ↦ ?_⟩
    · rw [QSOCreateRequest.merged, Std.ExtTreeMap.mem_union_iff] at hk
      obtain hk | hk := hk
      · obtain ⟨v, hv⟩ := Option.ne_none_iff_exists'.1 (Doc.mem_iff_ne_none.1 hk)
        exact exportName_of_isAdifName (body.declared_spec hv).1
      · exact hrequest.1 k hk
    · cases force with
      | true => exact hrequest.2 rfl qsoDict dt hbuild hdt
      | false =>
        obtain ⟨c, hc⟩ := hcheck rfl
        exact hc.spec.2 dt hdt
  | submit form force user =>
    obtain ⟨hfields, rfl, rfl, rfl⟩ := hsubmit
    refine ⟨exportName_of_buildQsoDict hbuild fun k hk ↦ ?_, fun k hk ↦
      exists_text_of_buildQsoDict hbuild (hnames k hk) (texts_of_submittedFields hfields k hk),
      fun dt hdt ↦ ?_⟩
    · obtain hnone | ⟨hname, -⟩ := retouched_submittedFields hfields k
      · rw [Doc.mem_iff_ne_none, hnone, Std.ExtTreeMap.getElem?_empty] at hk
        exact absurd rfl hk
      · exact exportName_of_isAdifName hname
    · cases force with
      | true => exact hrequest rfl fields hfields qsoDict dt hbuild hdt
      | false =>
        obtain ⟨c, hc⟩ := hcheck rfl
        exact hc.spec.2 dt hdt
  | ingest record operator' profile' source =>
    obtain ⟨rfl, -, -, rfl⟩ := hsubmit
    obtain ⟨c, hc⟩ := hcheck rfl
    exact ⟨exportName_of_buildQsoDict hbuild fun k hk ↦ hrequest k (mem_toDoc.1 hk),
      texts_of_toDoc hbuild hc.spec.1, hc.spec.2⟩
  | importAdif raw operator' =>
    obtain ⟨⟨record, hrecord, rfl⟩, -, -, rfl⟩ := hsubmit
    obtain ⟨c, hc⟩ := hcheck rfl
    exact ⟨exportName_of_buildQsoDict hbuild fun k hk ↦
      exportName_of_mem_parseAdi hlaws hrecord k (mem_toDoc.1 hk),
      texts_of_toDoc hbuild hc.spec.1, hc.spec.2⟩
  | importDuplicates selected user =>
    obtain ⟨⟨record, hrecord, rfl⟩, rfl, rfl, -⟩ := hsubmit
    obtain ⟨hexport, htexts, hrange⟩ := hrequest record hrecord qsoDict hbuild
    exact ⟨exportName_of_buildQsoDict hbuild hexport, fun k hk ↦
      exists_text_of_buildQsoDict hbuild (hnames k hk) (htexts k hk), hrange⟩
  | _ => exact absurd hsubmit id

/-- **Every change leaves complete documents.** -/
theorem completeUpdates_of_changes (hlaws : UnicodeData.UpperLaws) {c : Collection} {env : Env}
    {request : Request} {old updates : Doc} {qso : QSO} (hrequest : request.KeepsComplete c env)
    (hold : old ∈ c.docs) (hqso : qsoFromMongoDoc env.now old = .ok qso)
    (hchange : request.Changes qso updates) : CompleteUpdates updates := by
  have hdate : ∀ k ∈ requiredFields ++ upperCaseNames, k ≠ "qso_date_utc" := by decide
  cases request with
  | patch qsoId body user =>
    obtain ⟨hown, hpatch⟩ := hchange
    obtain ⟨hnames, htexts, hrange⟩ := hrequest old hold qso hqso hown
    obtain ⟨fields, hfields, htouched, hmem, hrecalc⟩ := patchUpdates_eq_ok hpatch
    have hsame : ∀ k ≠ "qso_date_utc", updates[k]? = fields[k]? := by
      intro k hk
      obtain ⟨-, rfl⟩ | ⟨_, _, _, -, -, -, rfl⟩ := recalculateDate_cases hrecalc
      · rfl
      · rw [Doc.getElem?_insert, if_neg hk]
    refine ⟨fun k hk ↦ ?_, fun k hk v hv ↦ ?_, fun k hk ↦ ?_, fun dt hdt ↦ ?_⟩
    · by_cases hk' : k = "qso_date_utc"
      · rw [hk', rootOf_of_plain (by decide)]
        exact exportName_of_internal _ (by decide)
      · rw [Doc.mem_iff_ne_none, hsame k hk', ← Doc.mem_iff_ne_none, hmem] at hk
        exact hnames k hk.1 hk.2
    · rw [hsame k (hdate k (List.mem_append_left _ hk))] at hv
      exact htexts fields hfields k hk v hv
    · rw [hsame k (hdate k (List.mem_append_right _ hk))]
      exact upperCased_of_patchedFields hlaws hfields k hk
    · have hjson : ∀ v, fields["qso_date_utc"]? = some v → v.isJson = true := by
        intro v hv
        refine htouched.isJson (fun j w hw ↦ ?_) hv
        rw [stripProtected, Doc.getElem?_keep] at hw
        exact body.isJson j w (Option.ite_none_right_eq_some.1 hw).2
      obtain ⟨-, rfl⟩ | ⟨_, _, dt', -, -, hparse, rfl⟩ := recalculateDate_cases hrecalc
      · cases hjson _ hdt
      · have hin := hrange _ dt hpatch hdt
        rw [Doc.getElem?_insert, if_pos rfl] at hdt
        cases hdt
        exact (inRange_toStored_iff hparse).2 hin
  | uiPatch qsoId form user =>
    obtain ⟨hown, hform⟩ := hchange
    obtain ⟨hupper, hrange⟩ := hrequest old hold qso hqso hown
    refine ⟨fun k hk ↦ ?_, fun k hk v hv ↦ ?_, fun k hk w hw ↦ ?_, fun dt hdt ↦ ?_⟩
    · obtain ⟨v, hv⟩ := Option.ne_none_iff_exists'.1 (Doc.mem_iff_ne_none.1 hk)
      obtain ⟨hname, -⟩ | ⟨rfl, -⟩ := formUpdates_eq_ok hform hv
      · rw [rootOf_of_plain (plainKey_of_isAdifName hname)]
        exact exportName_of_isAdifName hname
      · rw [rootOf_of_plain (by decide)]
        exact exportName_of_internal _ (by decide)
    · obtain ⟨-, htext⟩ | ⟨rfl, -⟩ := formUpdates_eq_ok hform hv
      · exact htext
      · exact absurd rfl (hdate _ (List.mem_append_left _ hk))
    · obtain ⟨values, hvalues, hget⟩ := getElem?_formUpdates_upper hform hk
      rw [hget] at hw
      obtain hnone | ⟨-, s, hs⟩ := retouched_customQsoValues hvalues k
      · rw [hnone, Std.ExtTreeMap.getElem?_empty, Option.none_or] at hw
        obtain ⟨s, -, rfl⟩ := Option.map_eq_some_iff.1 hw
        exact .inr ⟨_, rfl, uppercase_upper hlaws s⟩
      · rw [hs] at hw
        cases hw
        exact .inr ⟨s, rfl, hupper values hvalues k hk s hs ▸ uppercase_upper hlaws s⟩
    · obtain ⟨hname, -⟩ | ⟨-, _, _, dt', hparse, hdt'⟩ := formUpdates_eq_ok hform hdt
      · cases hname
      · cases hdt'
        exact (inRange_toStored_iff hparse).2 (hrange updates dt hform hdt)
  | delete qsoId user =>
    obtain ⟨-, rfl⟩ := hchange
    have hget : ∀ k ≠ "_deleted", ((∅ : Doc).insert "_deleted" (.bool true))[k]? = none := by
      intro k hk
      rw [Doc.getElem?_insert, if_neg hk, Std.ExtTreeMap.getElem?_empty]
    have hnames : ∀ k ∈ requiredFields ++ upperCaseNames, k ≠ "_deleted" := by decide
    refine ⟨fun k hk ↦ ?_, fun k hk v hv ↦ ?_, fun k hk w hw ↦ ?_, fun dt hdt ↦ ?_⟩
    · rw [Std.ExtTreeMap.mem_insert, Std.compare_eq_iff_eq] at hk
      obtain rfl | hk := hk
      · rw [rootOf_of_plain (by decide)]
        exact exportName_of_internal _ (by decide)
      · exact absurd hk Std.ExtTreeMap.not_mem_empty
    · rw [hget k (hnames k (List.mem_append_left _ hk))] at hv
      cases hv
    · rw [hget k (hnames k (List.mem_append_right _ hk))] at hw
      cases hw
    · rw [hget _ (by decide)] at hdt
      cases hdt
  | _ => exact absurd hchange id

/-! ## Runs -/

/-- The documents of a log whose export is recognised. -/
structure Exportable (d : Doc) : Prop where
  coherent : Coherent d
  hydratable : Hydratable d
  complete : Complete d

/-- The request leaves documents whose export is recognised. -/
def Request.KeepsExportable (c : Collection) (env : Env) (request : Request) : Prop :=
  request.KeepsInstant c env ∧ request.SparesKeywords ∧ request.KeepsComplete c env

theorem exportable_run (hlaws : UnicodeData.UpperLaws) {fullName : String} {rowHashUnique : Bool}
    {events : List (Env × Request)}
    (h : Guarded step (fun c event ↦ event.2.KeepsExportable c event.1)
      (.empty fullName rowHashUnique) events) :
    ∀ d ∈ (run step (.empty fullName rowHashUnique) events).docs, Exportable d := by
  refine forall_docs_of_guarded_checked h
    (fun hrequest _ _ _ _ _ _ _ hsubmit hbuild hcheck hqso ↦ ?_)
    (fun hrequest _ _ _ _ hmem hold hqso hchange hnew ↦ ?_) fun d hd ↦ absurd hd List.not_mem_nil
  · exact ⟨coherent_newDoc (built_of_buildQsoDict hbuild) hqso, hydratable_newDoc hqso,
      complete_newDoc hlaws hbuild
        (completeDict_of_submits hlaws hrequest.2.2 hsubmit hbuild hcheck) hqso⟩
  · exact ⟨hchange.coherent hrequest.1 hmem hold.coherent hqso hnew,
      (hydratable_update_iff hnew hold.hydratable).2 (hchange.rootOf_notMem hrequest.2.1),
      complete_update hold.complete hold.coherent.instant
        (completeUpdates_of_changes hlaws hrequest.2.2 hmem hqso hchange) hnew⟩

/-! ## The record of a document -/

variable {now : DateTime} {d : Doc} {qso : QSO}

/-- An export writes no other names than those of the document. -/
theorem exportName_of_mem_export (hd : Complete d) (hqso : qsoFromMongoDoc now d = .ok qso) :
    ∀ k ∈ qsoToAdifDict qso, ExportName k := by
  have hnames : ∀ k ∈ ["CALL", "BAND", "MODE"], isAdifName k = true := by decide
  intro k hk
  rw [Std.ExtTreeMap.mem_iff_isSome_getElem?, getElem?_qsoToAdifDict_of_hydrated hqso] at hk
  split at hk
  · rename_i hmem
    exact exportName_of_isAdifName (hnames k hmem)
  split at hk
  · cases hk
  · obtain ⟨s, hs⟩ := Option.isSome_iff_exists.1 hk
    obtain ⟨v, hv, -⟩ := Option.bind_eq_some_iff.1 hs
    exact hd.names k (Doc.mem_iff_ne_none.2 (hv ▸ Option.some_ne_none v))

/-- A required text is written and read back. -/
theorem getElem?_readBack_export (hd : Complete d) (hqso : qsoFromMongoDoc now d = .ok qso)
    {k s : String} (hk : k ∈ requiredFields) (hs : d[k]? = some (.str s)) :
    (readBack (qsoToAdifDict qso))[k]? = some s := by
  have hnames : ∀ k ∈ requiredFields, k ∉ ["CALL", "BAND", "MODE"] →
      ¬ (k ∈ skipFields ∨ k ∈ hiddenNames ∨ k ∈ aliasNames) := by decide
  have hadif : ∀ k ∈ requiredFields, isAdifName k = true := by decide
  refine getElem?_readBack ?_ (tagName_of_isAdifName (hadif k hk)).upper_eq fun j hj heq ↦ ?_
  · rw [getElem?_qsoToAdifDict_of_hydrated hqso]
    by_cases hmem : k ∈ ["CALL", "BAND", "MODE"]
    · rw [if_pos hmem, Doc.get, hs]
      rfl
    · rw [if_neg hmem, if_neg (hnames k hk hmem), hs]
      rfl
  · exact ((exportName_of_mem_export hd hqso j hj).required (heq ▸ hk)).symm.trans heq

omit [UnicodeData] in
/-- The query finds an active document by its own fields. -/
theorem duplicateQuery_of_fields {operator : String} {call band mode : Value}
    {dt windowStart windowEnd : DateTime} (hactive : activeQuery operator d = true)
    (hcall : d["CALL"]? = some call) (hband : d["BAND"]? = some band)
    (hmode : d["MODE"]? = some mode) (hdate : d["qso_date_utc"]? = some (.datetime dt.toStored))
    (hmillis : dt.utc % 1000 = 0) (hstart : dt.add (-twoMinutes) = .ok windowStart)
    (hend : dt.add twoMinutes = .ok windowEnd) :
    duplicateQuery operator call band mode windowStart windowEnd d = true := by
  rw [activeQuery, Bool.and_eq_true] at hactive
  have hrange : atLeast windowStart (.datetime dt.toStored) = true ∧
      atMost windowEnd (.datetime dt.toStored) = true := by
    rw [atLeast, atMost, utc_toStored_add hmillis (by decide) hstart,
      utc_toStored_add hmillis (by decide) hend, decide_eq_true_eq, decide_eq_true_eq,
      DateTime.utc_toStored hmillis, twoMinutes]
    omega
  rw [duplicateQuery, hactive.1, hactive.2, fieldIs_of_eq hcall, fieldIs_of_eq hband,
    fieldIs_of_eq hmode, Doc.fieldMatches, Doc.fieldMatches, hdate]
  simpa using hrange

/-- **The record of an exportable document** is valid, and the search for it finds the document. -/
theorem exists_search_of_exportable {operator : String} (hd : Exportable d)
    (hqso : qsoFromMongoDoc now d = .ok qso) (hactive : activeQuery operator d = true) :
    ∃ qsoDict query, validated operator (readBack (qsoToAdifDict qso)) = .ok qsoDict ∧
      Searches operator qsoDict query ∧ query d = true := by
  have hread := fun {k s : String} ↦ getElem?_readBack_export hd.complete hqso (k := k) (s := s)
  have htext : ∀ k ∈ requiredFields, ∃ s, d[k]? = some (.str s) ∧
      (readBack (qsoToAdifDict qso))[k]? = some s := fun k hk ↦
    have ⟨s, hs⟩ := hd.complete.texts k hk
    ⟨s, hs, hread hk hs⟩
  obtain ⟨call, hcall, hcall'⟩ := htext "CALL" (by decide)
  obtain ⟨band, hband, hband'⟩ := htext "BAND" (by decide)
  obtain ⟨mode, hmode, hmode'⟩ := htext "MODE" (by decide)
  obtain ⟨date, hdate, hdate'⟩ := htext "QSO_DATE" (by decide)
  obtain ⟨time, htime, htime'⟩ := htext "TIME_ON" (by decide)
  obtain ⟨dt, hdt, hinstant⟩ := hd.coherent.sameInstant date time hdate htime
  have hrequired : ∀ k ∈ requiredFields, k ∈ readBack (qsoToAdifDict qso) := fun k hk ↦
    have ⟨s, _, hs⟩ := htext k hk
    Std.ExtTreeMap.mem_iff_isSome_getElem?.2 (hs ▸ rfl)
  have hupper : ∀ k ∈ upperCaseNames, ∀ s, d[k]? = some (.str s) → upper s = s := by
    intro k hk s hs
    obtain hnull | ⟨s', heq, hs'⟩ := hd.complete.upperCased k hk _ hs
    · cases hnull
    · cases heq
      exact upper_eq_of_uppercase hs'
  have hrange : dt.InRange := (inRange_toStored_iff hdt).1 (hd.complete.inRange _ hinstant)
  obtain ⟨query, hquery⟩ : ∃ query, Searches operator _ query :=
    (exists_searches_iff hrequired).2 hrange
  refine ⟨_, query, validated_eq_ok.2 ⟨hrequired, date, time, dt, hdate', htime', hdt, rfl⟩, hquery,
    ?_⟩
  obtain ⟨call', band', mode', dt', windowStart, windowEnd, hcall₁, hband₁, hmode₁, hdate₁, hstart,
    hend, rfl⟩ := hquery
  simp only [getElem?_importDict, upperBandMode, getElem?_upperText, String.reduceEq, if_true,
    if_false, Option.map_id', hcall', hband', hmode', Option.map_some, Option.some.injEq,
    Value.datetime.injEq] at hcall₁ hband₁ hmode₁ hdate₁
  subst hcall₁ hband₁ hmode₁ hdate₁
  rw [hupper "BAND" (by decide) band hband, hupper "MODE" (by decide) mode hmode]
  exact duplicateQuery_of_fields hactive hcall hband hmode hinstant
    (parseAdifDatetime_eq_ok hdt).2.2 hstart hend

/-! ## Importing the export -/

/-- A record that is found is a duplicate, and nothing is drawn or written for it. -/
theorem judge_of_found {env : Env} {operator : String} {item : Record × Nat} {c : Collection}
    {qsoDict : Doc} {query : Doc → Bool} (hread : Readable c)
    (hvalid : validated operator item.1 = .ok qsoDict) (hsearch : Searches operator qsoDict query)
    (hfound : ∃ d ∈ c.docs, query d = true) : ∃ existingId, judge env operator item c =
      .ok (.duplicate (Doc.get qsoDict "CALL" .null) existingId) c := by
  obtain ⟨found, hfind⟩ := qsoFromFound_of_readable hread env.now query
  have hsome : ∃ dup, found = some dup := by
    cases hd : c.docs.find? query with
    | none =>
      obtain ⟨d, hd', hquery⟩ := hfound
      cases (List.find?_eq_none.1 hd d hd' hquery)
    | some d =>
      rw [hd] at hfind
      obtain ⟨dup, -, h⟩ := bind_eq_ok.1 hfind
      exact ⟨dup, (Except.ok.inj h).symm⟩
  obtain ⟨dup, rfl⟩ := hsome
  refine ⟨dup.id.pyStr, eq_ok_of_wp ?_⟩
  rw [judge, hvalid]
  dsimp only
  rw [judgeDict, wp_bind, wp_findDuplicateOf_of_searches hsearch, hfind, wp_ofExcept]
  refine ⟨fun a ha ↦ ?_, fun exc hexc ↦ (by cases hexc)⟩
  cases ha
  exact ⟨rfl, rfl⟩

/-- What is reported of records that are all duplicates. -/
theorem mapM_judge_of_duplicates {env : Env} {operator : String} {items : List (Record × Nat)}
    {c : Collection} (h : ∀ item ∈ items, ∃ call existingId,
      judge env operator item c = .ok (.duplicate call existingId) c) :
    ∃ outcomes, items.mapM (judge env operator) c = .ok outcomes c ∧
      (items.zip outcomes).filterMap acceptedEntry = [] ∧
      (items.zip outcomes).filterMap errorEntry = [] ∧
      ((items.zip outcomes).filterMap duplicateEntry).map (·.recordIndex) =
        items.map Prod.snd := by
  induction items with
  | nil => exact ⟨[], rfl, rfl, rfl, rfl⟩
  | cons item items ih =>
    obtain ⟨call, existingId, hjudge⟩ := h item (List.mem_cons_self ..)
    obtain ⟨outcomes, hmap, haccepted, herrors, hduplicates⟩ :=
      ih fun i hi ↦ h i (List.mem_cons_of_mem _ hi)
    refine ⟨.duplicate call existingId :: outcomes, ?_, haccepted, herrors, ?_⟩
    · rw [List.mapM_cons, run_bind_eq_ok]
      exact ⟨_, _, hjudge, run_bind_eq_ok.2 ⟨_, _, hmap, rfl⟩⟩
    · exact congrArg (item.2 :: ·) hduplicates

/-- A file all of whose records are found is reported as so many duplicates. -/
theorem import_of_duplicates {env : Env} {raw : List UInt8} {operator : String} {c : Collection}
    {records : List Record} (hsize : raw.length ≤ maxBytes)
    (hparse : parseAdi (decodeUtf8 raw) = (records, []))
    (hjudge : ∀ record ∈ records, ∀ idx, ∃ call existingId,
      judge env operator (record, idx) c = .ok (.duplicate call existingId) c) :
    ∃ report, (importQsosFromBytes env raw operator : Db _) c = .ok report c ∧
      report.accepted = [] ∧ report.errors = [] ∧
      report.duplicates.map (·.recordIndex) = List.range records.length := by
  have hitems : ∀ item ∈ importItems raw, ∃ call existingId,
      judge env operator item c = .ok (.duplicate call existingId) c := fun item hitem ↦
    hjudge item.1 (by simpa only [hparse] using List.fst_mem_of_mem_zipIdx hitem) item.2
  obtain ⟨outcomes, hmap, haccepted, herrors, hduplicates⟩ := mapM_judge_of_duplicates hitems
  refine ⟨(initialReport raw).addAll (importItems raw) outcomes, ?_, ?_, ?_, ?_⟩
  · rw [importQsosFromBytes_eq hsize, run_bind_eq_ok]
    exact ⟨outcomes, c, hmap, rfl⟩
  · rw [addAll_eq, haccepted]
    rfl
  · rw [addAll_eq, herrors, initialReport, hparse]
    rfl
  · rw [addAll_eq, ← congrArg (fun p ↦ List.range p.1.length) hparse, ← map_snd_importItems]
    exact hduplicates

/-- An export of exportable documents is read back, if it can be encoded. -/
theorem parseAdi_export {qsos : List QSO}
    (h : ∀ qso ∈ qsos, ∃ d, Exportable d ∧ qsoFromMongoDoc now d = .ok qso)
    (hsize : (encodeUtf8 (exportStream (qsos.map qsoToAdifDict))).length ≤ maxSize) :
    parseAdi (exportStream (qsos.map qsoToAdifDict)) =
      ((qsos.map qsoToAdifDict).map readBack, []) := by
  refine parseAdi_exportStream_readBack (fun record hrecord ↦ ?_)
    (fun record hrecord name hname ↦ ?_) (fitsBytes_of_exportStream hsize)
  · obtain ⟨qso, hqso, rfl⟩ := List.mem_map.1 hrecord
    obtain ⟨d, hd, hhydrate⟩ := h qso hqso
    obtain ⟨s, hs⟩ := hd.complete.texts "CALL" (by decide)
    intro hempty
    have hcall := getElem?_readBack_export hd.complete hhydrate (by decide) hs
    rw [hempty] at hcall
    simp [readBack] at hcall
  · obtain ⟨qso, hqso, rfl⟩ := List.mem_map.1 hrecord
    obtain ⟨d, hd, hhydrate⟩ := h qso hqso
    exact (exportName_of_mem_export hd.complete hhydrate name hname).safe

/-- The active QSOs of an operator. -/
def Collection.active (c : Collection) (operator : String) : List Doc :=
  c.docs.filter (activeQuery operator)

/-- **An export is recognised** by the log it is an export of: importing it accepts nothing, reports
no error, finds a duplicate for every active QSO and changes nothing, as long as the file is not too
large. -/
theorem reimport_of_exportable {c : Collection} (h : ∀ d ∈ c.docs, Exportable d) (env env' : Env)
    (user : User) : ∃ text, (exportAdif env user : Db _) c = .ok text c ∧
      ((∃ report, (importQsosFromBytes env' (encodeUtf8 text) user.callsign : Db _) c =
          .ok report c ∧ report.accepted = [] ∧ report.errors = [] ∧
          report.duplicates.map (·.recordIndex) =
            List.range (c.active user.callsign).length) ↔
        (encodeUtf8 text).length ≤ maxBytes) := by
  have hread : Readable c := fun d hd now ↦ hydrates_iff.2 (h d hd).hydratable
  obtain ⟨qsos, hqsos, hexport⟩ := exportAdif_eq_ok env user hread
  -- Every QSO of the export is an active document of the log.
  have hdocs : ∀ qso ∈ qsos, ∃ d ∈ c.docs, activeQuery user.callsign d = true ∧
      qsoFromMongoDoc env.now d = .ok qso := by
    intro qso hqso
    obtain ⟨d, hd, hhydrate⟩ := exists_of_mem_mapM hqsos hqso
    exact ⟨d, (List.mem_filter.1 hd).1, (List.mem_filter.1 hd).2, hhydrate⟩
  refine ⟨_, hexport, fun ⟨report, himport, _⟩ ↦ length_le_of_import himport, fun hsize ↦ ?_⟩
  have hparse : parseAdi (exportStream (qsos.map qsoToAdifDict)) =
      ((qsos.map qsoToAdifDict).map readBack, []) := parseAdi_export (fun qso hqso ↦
    have ⟨d, hd, _, hhydrate⟩ := hdocs qso hqso
    ⟨d, h d hd, hhydrate⟩) (hsize.trans (by decide))
  have hlength : ((qsos.map qsoToAdifDict).map readBack).length =
      (c.active user.callsign).length := by
    rw [List.length_map, List.length_map, length_of_mapM hqsos, Collection.active]
  rw [← hlength]
  refine import_of_duplicates hsize (by rw [decodeUtf8_encodeUtf8, hparse]) fun record hrecord idx ↦ ?_
  obtain ⟨exported, hexported, rfl⟩ := List.mem_map.1 hrecord
  obtain ⟨qso, hqso, rfl⟩ := List.mem_map.1 hexported
  obtain ⟨d, hd, hactive, hhydrate⟩ := hdocs qso hqso
  obtain ⟨qsoDict, query, hvalid, hsearch, hquery⟩ :=
    exists_search_of_exportable (h d hd) hhydrate hactive
  exact ⟨_, judge_of_found hread hvalid hsearch ⟨d, hd, hquery⟩⟩

/-- **Export followed by import changes nothing**, in every log written by requests that leave
documents an export tells the truth about. -/
theorem reimport_of_keepsExportable (hlaws : UnicodeData.UpperLaws) {fullName : String}
    {rowHashUnique : Bool} {events : List (Env × Request)}
    (h : Guarded step (fun c event ↦ event.2.KeepsExportable c event.1)
      (.empty fullName rowHashUnique) events) (env env' : Env) (user : User) :
    let c := run step (.empty fullName rowHashUnique) events
    ∃ text, (exportAdif env user : Db _) c = .ok text c ∧
      ((∃ report, (importQsosFromBytes env' (encodeUtf8 text) user.callsign : Db _) c =
          .ok report c ∧ report.accepted = [] ∧ report.errors = [] ∧
          report.duplicates.map (·.recordIndex) =
            List.range (c.active user.callsign).length) ↔
        (encodeUtf8 text).length ≤ maxBytes) :=
  reimport_of_exportable (exportable_run hlaws h) env env' user

end

section

attribute [local instance] UnicodeData.ascii

/-- A log with one contact. -/
def Sample.oneContact : Collection :=
  run step Sample.log [(Sample.env, .create Sample.contact false Sample.user)]

/-- Whether what is exported is small enough to be imported. -/
def Sample.isSmall (exported : Db (List Char)) (c : Collection) : Bool :=
  match exported c with
  | .ok text _ => decide ((encodeUtf8 text).length ≤ maxBytes)
  | .error _ _ => false

theorem reimport_of_one_contact : ∃ text report,
    (exportAdif Sample.env Sample.user : Db _) Sample.oneContact = .ok text Sample.oneContact ∧
      (importQsosFromBytes Sample.later (encodeUtf8 text) Sample.user.callsign : Db _)
        Sample.oneContact = .ok report Sample.oneContact ∧ report.accepted = [] ∧
      report.errors = [] ∧ report.duplicates.map (·.recordIndex) = [0] := by
  have hsize : Sample.isSmall (exportAdif Sample.env Sample.user) Sample.oneContact = true := by
    decide +kernel
  have hactive : (Sample.oneContact.active Sample.user.callsign).length = 1 := by decide +kernel
  have hnames : ∀ k ∈ Sample.contact.extra.fields, ExportName k := fun k hk ↦ by
    simp [Sample.contact, Sample.noFields] at hk
  have hguard : Guarded step (fun c event ↦ event.2.KeepsExportable c event.1)
      (.empty "ollog.w1aw_qsos" true) [(Sample.env, .create Sample.contact false Sample.user)] :=
    ⟨⟨trivial, trivial, hnames, fun h ↦ (by cases h)⟩, trivial⟩
  obtain ⟨text, hexport, hiff⟩ := reimport_of_keepsExportable UnicodeData.upperLaws_ascii hguard
    Sample.env Sample.later Sample.user
  rw [Sample.oneContact, Sample.log] at hsize hactive ⊢
  rw [Sample.isSmall, hexport] at hsize
  obtain ⟨report, himport, haccepted, herrors, hduplicates⟩ := hiff.2 (of_decide_eq_true hsize)
  rw [hactive] at hduplicates
  exact ⟨text, report, hexport, himport, haccepted, herrors, hduplicates⟩

/-- A contact with a field called `call`. -/
def Sample.shadowed : QSOCreateRequest where
  call := "K1ABC"
  qsoDate := "20240101"
  timeOn := "1200"
  band := "20m"
  mode := "ssb"
  extra := Sample.oneText "call" "N0CALL"
  extra_undeclared k hk h := by
    rw [Sample.eq_of_mem_oneText h] at hk
    exact absurd hk (by decide)

/-- An export gives `call` and `CALL` as two fields, and the parser takes the second for the
first: the contact comes back under another callsign. -/
theorem reimport_accepts_of_lower_case_call :
    let c := run step (.empty "ollog.w1aw_qsos" true)
      [(Sample.env, .create Sample.shadowed false Sample.user)]
    ∃ text, (exportAdif Sample.env Sample.user : Db _) c = .ok text c ∧
      ¬ ∃ report, (importQsosFromBytes Sample.later (encodeUtf8 text) Sample.user.callsign : Db _)
        c = .ok report c ∧ report.accepted = [] := by
  intro c
  have haccepts : (match (exportAdif Sample.env Sample.user : Db _) c with
      | .ok text _ =>
        match (importQsosFromBytes Sample.later (encodeUtf8 text) Sample.user.callsign : Db _) c with
        | .ok report _ => !report.accepted.isEmpty
        | .error _ _ => false
      | .error _ _ => false) = true := by decide +kernel
  have hread : Readable c := readable_run fun event hevent ↦ by
    rw [List.mem_singleton.1 hevent]
    trivial
  obtain ⟨qsos, -, hexport⟩ := exportAdif_eq_ok Sample.env Sample.user hread
  refine ⟨_, hexport, ?_⟩
  rintro ⟨report, himport, haccepted⟩
  rw [hexport] at haccepts
  dsimp only at haccepts
  rw [himport] at haccepts
  dsimp only at haccepts
  rw [haccepted] at haccepts
  cases haccepts

end

end Ollog
