import Ollog.Qso.Router

/-!
# The fields a request writes

`build_qso_dict`, `patch_qso` and `qso_update` each turn what a client sent into the fields that
are stored.  On the way most fields are left alone, and the others end up as text: this is
`Retouched`, and the lemmas of this module say of each step which names it may retouch.

What is not text is written by the program itself: the instant of a QSO, its operator and its
deletion mark (`Built`, `recalculateDate_cases`, `formDate_cases`).
-/

set_option autoImplicit false

namespace Ollog

open Effects

/-! ## ADIF names -/

/-- An ADIF name is none of the names the program uses for its own fields. -/
theorem notMem_of_isAdifName {names : List String} (hnames : ∀ k ∈ names, isAdifName k = false)
    {k : String} (hk : isAdifName k = true) : k ∉ names := by
  intro hmem
  rw [hnames k hmem] at hk
  cases hk

theorem plainKey_of_isAdifName {k : String} (hk : isAdifName k = true) : PlainKey k := by
  rw [isAdifName, Bool.and_eq_true, List.all_eq_true] at hk
  obtain ⟨hne, hall⟩ := hk
  refine ⟨?_, fun hdot ↦ absurd (hall '.' hdot) (by decide), fun hdollar ↦ ?_⟩
  · rintro rfl
    cases hne
  · exact absurd (hall '$' (List.mem_of_head? hdollar)) (by decide)

/-! ## Retouching -/

/-- Every field is as it was, or has one of some names and now holds a text. -/
def Retouched (p : String → Prop) (d d' : Doc) : Prop :=
  ∀ k, d'[k]? = d[k]? ∨ p k ∧ ∃ s, d'[k]? = some (.str s)

namespace Retouched

variable {p q : String → Prop} {d e f : Doc}

theorem refl (d : Doc) : Retouched p d d := fun _ ↦ .inl rfl

theorem trans (h : Retouched p d e) (h' : Retouched p e f) : Retouched p d f := by
  intro k
  obtain heq | htext := h' k
  · rw [heq]
    exact h k
  · exact .inr htext

theorem mono (h : Retouched p d e) (hpq : ∀ k, p k → q k) : Retouched q d e :=
  fun k ↦ (h k).imp_right (And.imp_left (hpq k))

/-- Writing a text under one of the names. -/
theorem insert (h : Retouched p d e) {k : String} (hk : p k) (s : String) :
    Retouched p d (e.insert k (.str s)) := by
  intro j
  rw [Doc.getElem?_insert]
  by_cases hj : j = k
  · exact .inr ⟨hj ▸ hk, s, if_pos hj⟩
  · rw [if_neg hj]
    exact h j

/-- A field under any other name keeps its value. -/
theorem getElem?_eq (h : Retouched p d e) {k : String} (hk : ¬ p k) : e[k]? = d[k]? :=
  (h k).resolve_right fun htext ↦ hk htext.1

theorem isJson (h : Retouched p d e) (hd : ∀ (k : String) (v : Value), d[k]? = some v → v.isJson = true)
    {k : String} {v : Value} (hv : e[k]? = some v) : v.isJson = true := by
  obtain heq | ⟨-, s, hs⟩ := h k
  · exact hd k v (heq ▸ hv)
  · rw [hs] at hv
    cases hv
    rfl

end Retouched

/-! ## The fields of a request -/

theorem mem_toDoc {record : Record} {k : String} : k ∈ record.toDoc ↔ k ∈ record := by
  rw [Record.toDoc, Std.ExtTreeMap.mem_map]

/-- The fields of an ADIF record are texts. -/
theorem exists_str_toDoc {record : Record} {k : String} {v : Value}
    (h : record.toDoc[k]? = some v) : ∃ s, v = .str s := by
  rw [Record.toDoc, Std.ExtTreeMap.getElem?_map] at h
  obtain ⟨s, -, rfl⟩ := Option.map_eq_some_iff.1 h
  exact ⟨s, rfl⟩

theorem isJson_toDoc {record : Record} {k : String} {v : Value} (h : record.toDoc[k]? = some v) :
    v.isJson = true := by
  obtain ⟨s, rfl⟩ := exists_str_toDoc h
  rfl

/-- `None`, or a text. -/
def Value.IsOptionalText (v : Value) : Prop := v = .null ∨ ∃ s, v = .str s

theorem Value.IsOptionalText.isJson {v : Value} (h : v.IsOptionalText) : v.isJson = true := by
  obtain rfl | ⟨s, rfl⟩ := h <;> rfl

theorem Value.IsOptionalText.hashStable {v : Value} (h : v.IsOptionalText) :
    v.hashStable = true := by
  obtain rfl | ⟨s, rfl⟩ := h <;> rfl

theorem Value.IsOptionalText.toStored_eq {v : Value} (h : v.IsOptionalText) : v.toStored = v := by
  obtain rfl | ⟨s, rfl⟩ := h <;> rfl

theorem isOptionalText_optionalText (text : Option String) :
    (optionalText text).IsOptionalText := by
  cases text with
  | none => exact .inl rfl
  | some s => exact .inr ⟨s, rfl⟩

/-- The declared fields of a request are texts under ADIF names, or `None`. -/
theorem QSOCreateRequest.declared_spec (body : QSOCreateRequest) {k : String} {v : Value}
    (hv : body.declared[k]? = some v) : isAdifName k = true ∧ v.IsOptionalText := by
  refine Doc.forall_ofList (P := fun k v ↦ isAdifName k = true ∧ v.IsOptionalText)
    (fun p hp ↦ ?_) hv
  simp only [List.mem_cons, List.not_mem_nil, or_false] at hp
  rcases hp with rfl | rfl | rfl | rfl | rfl | rfl | rfl | rfl <;>
    refine ⟨by dsimp only; decide, ?_⟩ <;>
    first | exact .inr ⟨_, rfl⟩ | exact isOptionalText_optionalText _

theorem QSOCreateRequest.isJson_merged (body : QSOCreateRequest) {k : String} {v : Value}
    (hv : body.merged[k]? = some v) : v.isJson = true := by
  rw [merged, Doc.getElem?_update] at hv
  cases hextra : body.extra.fields[k]? with
  | some w =>
    rw [hextra, Option.some_or, Option.some.injEq] at hv
    exact hv ▸ body.extra.isJson k w hextra
  | none =>
    rw [hextra, Option.none_or] at hv
    exact (body.declared_spec hv).2.isJson

section

variable [UnicodeData]

theorem retouched_upperField {d d' : Doc} {k : String} (h : upperField d k = .ok d') :
    Retouched (· = k) d d' := by
  rw [upperField] at h
  split at h
  · cases h
    exact .refl d
  · cases h
    exact .refl d
  · cases h
    exact (Retouched.refl d).insert (p := (· = k)) rfl _
  · cases h

/-- `upper` is what takes a value that is not text out of a field. -/
theorem isOptionalText_upperField {d d' : Doc} {k : String} (h : upperField d k = .ok d')
    {v : Value} (hv : d'[k]? = some v) : v.IsOptionalText := by
  rw [upperField] at h
  split at h
  · rename_i hnone
    cases h
    rw [hnone] at hv
    cases hv
  · rename_i hnull
    cases h
    rw [hnull] at hv
    exact .inl (Option.some.inj hv).symm
  · cases h
    rw [Doc.getElem?_insert, if_pos rfl] at hv
    exact .inr ⟨_, (Option.some.inj hv).symm⟩
  · cases h

omit [UnicodeData] in
/-- Retouching does not take the text out of a field. -/
theorem Retouched.isOptionalText {p : String → Prop} {d e : Doc} (h : Retouched p d e) {k : String}
    (hd : ∀ v, d[k]? = some v → v.IsOptionalText) {v : Value} (hv : e[k]? = some v) :
    v.IsOptionalText := by
  obtain heq | ⟨-, s, hs⟩ := h k
  · exact hd v (heq ▸ hv)
  · exact .inr ⟨s, Option.some.inj (hv.symm.trans hs)⟩

/-- The fields that are turned to upper case. -/
def upperNames : List String := ["BAND", "MODE"]

theorem isOptionalText_upperFields {d banded upper : Doc}
    (hbanded : upperField d "BAND" = .ok banded)
    (hupper : upperField banded "MODE" = .ok upper) {k : String} (hk : k ∈ upperNames) {v : Value}
    (hv : upper[k]? = some v) : v.IsOptionalText := by
  simp only [upperNames, List.mem_cons, List.not_mem_nil, or_false] at hk
  obtain rfl | rfl := hk
  · exact (retouched_upperField hupper).isOptionalText
      (fun _ ↦ isOptionalText_upperField hbanded) hv
  · exact isOptionalText_upperField hupper hv

theorem mem_upperField {d d' : Doc} {k j : String} (h : upperField d k = .ok d') :
    j ∈ d' ↔ j ∈ d := by
  rw [upperField] at h
  split at h
  · cases h
    rfl
  · cases h
    rfl
  · rename_i s hs
    cases h
    rw [Std.ExtTreeMap.mem_insert, Std.compare_eq_iff_eq, or_iff_right_iff_imp]
    rintro rfl
    rw [Doc.mem_iff_ne_none, hs]
    exact Option.some_ne_none _
  · cases h

theorem retouched_apply {record result : Doc} {user : Option User}
    (h : applyCustomFieldNormalization record user = .ok result) :
    Retouched (isAdifName · = true) record result :=
  fun k ↦ (normalizedFrom_of_apply h k).imp_right fun ⟨hname, _, htext⟩ ↦ ⟨hname.1, htext⟩

/-- The fields a profile is stamped into. -/
def stampedNames : List String :=
  ["OPERATOR", "STATION_CALLSIGN", "MY_GRIDSQUARE", "MY_RIG", "MY_ANTENNA", "TX_PWR"]

omit [UnicodeData] in
theorem retouched_stampOptional {p : String → Prop} {d e : Doc} {k : String} {v : Option String}
    (h : Retouched p d e) (hk : p k) : Retouched p d (stampOptional e k v) := by
  unfold stampOptional
  split
  · split
    · exact h
    · exact h.insert hk _
  · exact h

omit [UnicodeData] in
theorem retouched_stampProfile (d : Doc) (profile : Option User) :
    Retouched (· ∈ stampedNames) d (stampProfile d profile) := by
  unfold stampProfile
  split
  · exact .refl d
  rename_i user
  have h : Retouched (· ∈ stampedNames) d (stampOptional (stampOptional (stampOptional
      (stampOptional (d.insert "OPERATOR" (.str user.callsign)) "STATION_CALLSIGN"
      user.stationCallsign) "MY_GRIDSQUARE" user.myGridsquare) "MY_RIG" user.myRig) "MY_ANTENNA"
      user.myAntenna) := by
    refine retouched_stampOptional (retouched_stampOptional (retouched_stampOptional
      (retouched_stampOptional ?_ ?_) ?_) ?_) ?_
    · exact (Retouched.refl d).insert (by decide) _
    all_goals decide
  dsimp only
  split
  · exact h.insert (by decide) _
  · exact h

/-! ## Instants -/

/-- Only texts parse, neither of them empty, and the instant is a whole number of seconds. -/
theorem parseAdifDatetime_eq_ok {date time : Value} {dt : DateTime}
    (h : parseAdifDatetime date time = .ok dt) :
    (∃ s, date = .str s ∧ s ≠ "") ∧ (∃ t, time = .str t ∧ t ≠ "") ∧ dt.utc % 1000 = 0 := by
  obtain ⟨day, hday, h⟩ := bind_eq_ok.1 h
  obtain ⟨seconds, hseconds, h⟩ := bind_eq_ok.1 h
  cases h
  refine ⟨?_, ?_, combineUtc_utc_mod day seconds⟩
  · unfold parseAdifDate at hday
    split at hday
    · rename_i s
      refine ⟨s, rfl, ?_⟩
      rintro rfl
      cases hday
    · cases hday
  · unfold parseAdifTime at hseconds
    dsimp only at hseconds
    clear h
    split at hseconds
    · rename_i t
      refine ⟨t, rfl, ?_⟩
      rintro rfl
      cases hseconds
    all_goals cases hseconds

/-- The texts an instant is made from. -/
def instantNames : List String := ["QSO_DATE", "TIME_ON"]

omit [UnicodeData] in
/-- A text that is stored is the one the hydrated QSO has. -/
theorem getElem?_modelExtra_instant {now : DateTime} {old : Doc} {qso : QSO}
    (hqso : qsoFromMongoDoc now old = .ok qso) {k : String} (hk : k ∈ instantNames) :
    qso.modelExtra[k]? = old[k]? := by
  have hnot : ∀ k ∈ instantNames, k ∉ hiddenNames ∧ k ∉ aliasNames := by decide
  rw [getElem?_modelExtra_of_hydrated hqso, if_neg (not_or.2 (hnot k hk))]

/-! ## New QSOs -/

/-- The fields `build_qso_dict` adds that are no text. -/
def derivedNames : List String := ["qso_date_utc", "operator_callsign", "is_deleted"]

/-- What `build_qso_dict` makes of a body. -/
structure Built (body : Doc) (operator : String) (qsoDict : Doc) : Prop where
  operator_eq : qsoDict["operator_callsign"]? = some (.str operator)
  active : qsoDict["is_deleted"]? = some (.bool false)
  /-- The instant is the one the texts give, as they are in the result. -/
  instant : ∃ date time dt, qsoDict["QSO_DATE"]? = some date ∧ qsoDict["TIME_ON"]? = some time ∧
    parseAdifDatetime date time = .ok dt ∧ qsoDict["qso_date_utc"]? = some (.datetime dt)
  upper : ∀ k ∈ upperNames, ∀ v, qsoDict[k]? = some v → v.IsOptionalText
  rest : ∀ k ∉ derivedNames,
    qsoDict[k]? = body[k]? ∨ isAdifName k = true ∧ ∃ s, qsoDict[k]? = some (.str s)

omit [UnicodeData] in
theorem getItem_eq_ok {d : Doc} {k : String} {v : Value} (h : getItem d k = .ok v) :
    d[k]? = some v := by
  rw [getItem] at h
  split at h
  · rename_i heq
    rw [heq, Except.ok.inj h]
  · cases h

/-- **`build_qso_dict`.** -/
theorem built_of_buildQsoDict {body : Doc} {operator : String} {profile : Option User}
    {qsoDict : Doc} (h : buildQsoDict body operator profile = .ok qsoDict) :
    Built body operator qsoDict := by
  obtain ⟨normal, hnormal, h⟩ := bind_eq_ok.1 h
  obtain ⟨banded, hbanded, h⟩ := bind_eq_ok.1 h
  obtain ⟨fields, hfields, h⟩ := bind_eq_ok.1 h
  obtain ⟨date, hdate, h⟩ := bind_eq_ok.1 h
  obtain ⟨time, htime, h⟩ := bind_eq_ok.1 h
  obtain ⟨dt, hdt, h⟩ := bind_eq_ok.1 h
  obtain rfl := Except.ok.inj h
  have hadif : Retouched (isAdifName · = true) body fields :=
    ((retouched_apply hnormal).trans ((retouched_upperField hbanded).mono fun _ hk ↦
      hk ▸ by decide)).trans ((retouched_upperField hfields).mono fun _ hk ↦ hk ▸ by decide)
  have hstamp := fun d : Doc ↦ retouched_stampProfile d profile
  have hkept : ∀ d : Doc, ∀ k ∉ stampedNames, (stampProfile d profile)[k]? = d[k]? :=
    fun d k hk ↦ (hstamp d).getElem?_eq hk
  refine { operator_eq := ?_, active := ?_, instant := ⟨date, time, dt, ?_, ?_, hdt, ?_⟩
           upper := fun k hk v hv ↦ ?_, rest := fun k hk ↦ ?_ }
  · rw [hkept _ _ (by decide)]
    simp only [Doc.getElem?_insert, String.reduceEq, if_true, if_false]
  · rw [hkept _ _ (by decide), Doc.getElem?_insert, if_pos rfl]
  · rw [hkept _ _ (by decide)]
    simpa only [Doc.getElem?_insert, String.reduceEq, if_false] using getItem_eq_ok hdate
  · rw [hkept _ _ (by decide)]
    simpa only [Doc.getElem?_insert, String.reduceEq, if_false] using getItem_eq_ok htime
  · rw [hkept _ _ (by decide)]
    simp only [Doc.getElem?_insert, String.reduceEq, if_true, if_false]
  · have hderived : ∀ k ∈ upperNames, k ≠ "qso_date_utc" ∧ k ≠ "operator_callsign" ∧
        k ≠ "is_deleted" := by decide
    refine (hstamp _).isOptionalText (fun w hw ↦ isOptionalText_upperFields hbanded hfields hk ?_) hv
    simpa only [Doc.getElem?_insert, hderived k hk, if_false] using hw
  · simp only [derivedNames, List.mem_cons, List.not_mem_nil, or_false, not_or] at hk
    obtain hsame | ⟨hk', htext⟩ := hstamp _ k
    · rw [hsame]
      simpa only [Doc.getElem?_insert, hk, if_false] using hadif k
    · have hnames : ∀ k ∈ stampedNames, isAdifName k = true := by decide
      exact .inr ⟨hnames k hk', htext⟩

/-! ## Patches -/

omit [UnicodeData] in
theorem mem_stripProtected {body : Doc} {k : String} :
    k ∈ stripProtected body ↔ k ∈ body ∧ k ∉ protectedFields := by
  rw [Doc.mem_iff_ne_none, Doc.mem_iff_ne_none, stripProtected, Doc.getElem?_keep]
  by_cases h : k ∈ protectedFields <;> simp [h]

omit [UnicodeData] in
/-- The value a patch takes for one of the two texts of an instant. -/
def patchedText (qso : QSO) (fields : Doc) (k : String) : Option Value :=
  Value.orElse fields[k]? qso.modelDumpByName[k]?

/-- The condition under which a patch recalculates the instant. -/
def Recalculates (qso : QSO) (fields : Doc) : Prop :=
  ("QSO_DATE" ∈ fields ∨ "TIME_ON" ∈ fields) ∧ ∃ date time,
    patchedText qso fields "QSO_DATE" = some date ∧ patchedText qso fields "TIME_ON" = some time ∧
    date.truthy = true ∧ time.truthy = true

/-- Recalculating the instant leaves everything else alone. -/
theorem recalculateDate_cases {qso : QSO} {fields updates : Doc}
    (h : recalculateDate qso fields = .ok updates) :
    ¬ Recalculates qso fields ∧ updates = fields ∨
      ∃ date time dt, patchedText qso fields "QSO_DATE" = some date ∧
        patchedText qso fields "TIME_ON" = some time ∧ parseAdifDatetime date time = .ok dt ∧
        updates = fields.insert "qso_date_utc" (.datetime dt) := by
  rw [recalculateDate] at h
  split at h
  · split at h
    · rename_i date time hdate htime
      split at h
      · obtain ⟨dt, hdt, h⟩ := bind_eq_ok.1 h
        cases h
        exact .inr ⟨date, time, dt, hdate, htime, hdt, rfl⟩
      · rename_i htruthy
        cases h
        refine .inl ⟨fun ⟨_, date', time', hdate', htime', hd, ht⟩ ↦ htruthy ?_, rfl⟩
        obtain rfl := Option.some.inj (hdate.symm.trans hdate')
        obtain rfl := Option.some.inj (htime.symm.trans htime')
        rw [hd, ht]
        rfl
    · rename_i hnone
      cases h
      exact .inl ⟨fun ⟨_, date, time, hdate, htime, _⟩ ↦ hnone date time hdate htime, rfl⟩
  · rename_i hmem
    cases h
    exact .inl ⟨fun h ↦ hmem h.1, rfl⟩

theorem isOptionalText_patchedFields {user : User} {body fields : Doc}
    (h : patchedFields user body = .ok fields) {k : String} (hk : k ∈ upperNames) {v : Value}
    (hv : fields[k]? = some v) : v.IsOptionalText := by
  obtain ⟨banded, hbanded, hfields⟩ := bind_eq_ok.1 h
  obtain ⟨upper, hupper, hfields⟩ := bind_eq_ok.1 hfields
  exact (retouched_apply hfields).isOptionalText
    (fun _ ↦ isOptionalText_upperFields hbanded hupper hk) hv

/-- **The updates of a REST patch**: the fields of the body that are not protected, some of them
retouched, and the instant if it was recalculated. -/
theorem patchUpdates_eq_ok {user : User} {qso : QSO} {body updates : Doc}
    (h : patchUpdates user qso body = .ok updates) :
    ∃ fields, patchedFields user body = .ok fields ∧
      Retouched (isAdifName · = true) (stripProtected body) fields ∧
      (∀ k, k ∈ fields ↔ k ∈ body ∧ k ∉ protectedFields) ∧
      recalculateDate qso fields = .ok updates := by
  obtain ⟨fields, hpatched, h⟩ := bind_eq_ok.1 h
  obtain ⟨banded, hbanded, hfields⟩ := bind_eq_ok.1 hpatched
  obtain ⟨upper, hupper, hfields⟩ := bind_eq_ok.1 hfields
  refine ⟨fields, hpatched, ?_, fun k ↦ ?_, h⟩
  · exact (((retouched_upperField hbanded).mono fun _ hk ↦ hk ▸ by decide).trans
      ((retouched_upperField hupper).mono fun _ hk ↦ hk ▸ by decide)).trans
      (retouched_apply hfields)
  · rw [mem_apply_iff hfields, mem_upperField hupper, mem_upperField hbanded, mem_stripProtected]

/-! ## Forms -/

theorem retouched_customQsoValues {form : Form} {user : User} {includeEmpty : Bool} {values : Doc}
    (h : customQsoValuesFromForm form user includeEmpty = .ok values) :
    Retouched (isAdifName · = true) ∅ values := by
  obtain ⟨fields, hfields, h⟩ := bind_eq_ok.1 h
  cases h
  have hnames := wellNamed_of_enabled hfields
  clear h hfields
  refine List.foldlRecOn _ _ (.refl ∅) fun values h field hfield ↦ ?_
  split
  · exact h
  · dsimp only
    split
    · exact h
    · exact h.insert (hnames field hfield).1 _

omit [UnicodeData] in
theorem nonBlank_ne_empty {value : Option String} {s : String} (h : nonBlank value = some s) :
    s ≠ "" := by
  unfold nonBlank at h
  split at h
  · split at h
    · cases h
    · rename_i hne
      rwa [← Option.some.inj h]
  · cases h

/-- The value of a custom field is blank where the form is. -/
theorem customQsoValues_of_blank {form : Form} {user : User} {includeEmpty : Bool} {values : Doc}
    (h : customQsoValuesFromForm form user includeEmpty = .ok values) {k : String}
    (hk : nonBlank (formParam form k) = none) :
    values[k]? = none ∨ values[k]? = some (.str "") := by
  obtain ⟨fields, -, h⟩ := bind_eq_ok.1 h
  cases h
  refine @List.foldlRecOn _ _ (fun values : Doc ↦ values[k]? = none ∨ values[k]? = some (.str ""))
    _ _ _ (.inl Std.ExtTreeMap.getElem?_empty) fun values h field _ ↦ ?_
  split
  · exact h
  rename_i text htext
  dsimp only
  split
  · exact h
  rw [Doc.getElem?_insert]
  split
  · rename_i hname
    subst hname
    have hblank : strip text = "" := by
      by_contra hne
      have hsome : formParam form field.adifName = some text := by
        rw [formParam, htext]
        refine if_neg fun heq ↦ hne ?_
        rw [heq]
        rfl
      rw [hsome, nonBlank, if_neg hne] at hk
      cases hk
    rw [hblank]
    exact .inr (by split <;> rfl)
  · exact h

omit [UnicodeData] in
theorem retouched_putNonBlank {p : String → Prop} {d e : Doc} {k : String} {f : String → String}
    {value : Option String} (h : Retouched p d e) (hk : p k) :
    Retouched p d (putNonBlank e k f value) := by
  rw [putNonBlank]
  split
  · exact h.insert hk _
  · exact h

omit [UnicodeData] in
theorem retouched_union {p : String → Prop} {d e : Doc} (hd : Retouched p ∅ d)
    (he : Retouched p ∅ e) : Retouched p ∅ (d ∪ e) := by
  intro k
  rw [Doc.getElem?_update]
  obtain heq | ⟨hk, s, hs⟩ := he k
  · rw [heq, Std.ExtTreeMap.getElem?_empty, Option.none_or]
    exact hd k
  · exact .inr ⟨hk, s, by rw [hs, Option.some_or]⟩

omit [UnicodeData] in
theorem getElem?_formData (form : Form) (call qsoDate timeOn band mode k : String) :
    (formData form call qsoDate timeOn band mode)[k]? = none ∨ isAdifName k = true ∧
      ∃ text, (formData form call qsoDate timeOn band mode)[k]? = some (optionalText text) := by
  cases hv : (formData form call qsoDate timeOn band mode)[k]? with
  | none => exact .inl rfl
  | some v =>
    have hform : isAdifName k = true ∧ ∃ text, v = optionalText text := by
      refine Doc.forall_ofList (P := fun k v ↦ isAdifName k = true ∧ ∃ text, v = optionalText text)
        (fun p hp ↦ ?_) hv
      simp only [List.mem_cons, List.not_mem_nil, or_false] at hp
      rcases hp with rfl | rfl | rfl | rfl | rfl | rfl | rfl | rfl <;>
        refine ⟨by dsimp only; decide, ?_⟩ <;> first | exact ⟨some _, rfl⟩ | exact ⟨_, rfl⟩
    obtain ⟨hk, text, rfl⟩ := hform
    exact .inr ⟨hk, text, rfl⟩

/-- **The fields of a submitted form** are texts under ADIF names. -/
theorem retouched_submittedFields {form : Form} {user : User} {fields : Doc}
    (h : submittedFields form user = .ok fields) : Retouched (isAdifName · = true) ∅ fields := by
  obtain ⟨call, -, h⟩ := bind_eq_ok.1 h
  obtain ⟨qsoDate, -, h⟩ := bind_eq_ok.1 h
  obtain ⟨timeOn, -, h⟩ := bind_eq_ok.1 h
  obtain ⟨band, -, h⟩ := bind_eq_ok.1 h
  obtain ⟨mode, -, h⟩ := bind_eq_ok.1 h
  obtain ⟨values, hvalues, h⟩ := bind_eq_ok.1 h
  cases h
  intro k
  rw [Std.ExtTreeMap.getElem?_filter', Doc.getElem?_update]
  obtain hnone | ⟨hk, s, hs⟩ := retouched_customQsoValues hvalues k
  · rw [hnone, Std.ExtTreeMap.getElem?_empty, Option.none_or]
    obtain hnone | ⟨hk, text, htext⟩ := getElem?_formData form call qsoDate timeOn band mode k
    · exact .inl (by rw [hnone]; rfl)
    · cases text with
      | none => exact .inl (by rw [htext]; rfl)
      | some s => exact .inr ⟨hk, s, by rw [htext]; rfl⟩
  · exact .inr ⟨hk, s, by rw [hs]; rfl⟩

/-- Recalculating the instant for a form leaves everything else alone, and the instant as well if
the texts do not parse. -/
theorem formInstant_cases {fields updates : Doc} {date time : Value}
    (h : formInstant fields date time = .ok updates) :
    (updates = fields ∧ (date.truthy = true → time.truthy = true →
        ∃ msg, parseAdifDatetime date time = .error (.valueError msg))) ∨
      ∃ dt, parseAdifDatetime date time = .ok dt ∧
        updates = fields.insert "qso_date_utc" (.datetime dt) := by
  rw [formInstant] at h
  split at h
  · split at h
    · rename_i dt hdt
      cases h
      exact .inr ⟨dt, hdt, rfl⟩
    · rename_i msg hmsg
      cases h
      exact .inl ⟨rfl, fun _ _ ↦ ⟨msg, hmsg⟩⟩
    · cases h
  · rename_i hfalsy
    cases h
    exact .inl ⟨rfl, fun hdate htime ↦ absurd (by rw [hdate, htime]; rfl) hfalsy⟩

omit [UnicodeData] in
theorem getElem?_putNonBlank (d : Doc) (k : String) (f : String → String) (value : Option String)
    (j : String) : (putNonBlank d k f value)[j]? =
      if j = k then ((nonBlank value).map fun s ↦ .str (f s)).or d[j]? else d[j]? := by
  rw [putNonBlank]
  cases nonBlank value with
  | none => simp only [Option.map_none, Option.none_or, ite_self]
  | some s => simp only [Doc.getElem?_insert, Option.map_some, Option.some_or]

/-- The texts of a form, before the instant is recalculated. -/
theorem retouched_formTexts (form : Form) {values : Doc}
    (h : Retouched (isAdifName · = true) ∅ values) :
    Retouched (isAdifName · = true) ∅ (formTexts form values) := by
  refine retouched_union ?_ h
  refine retouched_putNonBlank (retouched_putNonBlank (retouched_putNonBlank
    (retouched_putNonBlank (retouched_putNonBlank (retouched_putNonBlank (.refl ∅)
    ?_) ?_) ?_) ?_) ?_) ?_
  all_goals decide

/-- The names of the form's own fields that are not part of the date. -/
def plainFormNames : List String := ["CALL", "BAND", "MODE", "FREQ", "RST_SENT", "RST_RCVD"]

theorem getElem?_formTexts {form : Form} {values : Doc} {k : String} (hk : k ∉ plainFormNames) :
    (formTexts form values)[k]? = values[k]? := by
  simp only [plainFormNames, List.mem_cons, List.not_mem_nil, or_false, not_or] at hk
  simp only [formTexts, Doc.getElem?_update, getElem?_putNonBlank, hk, if_false,
    Std.ExtTreeMap.getElem?_empty, Option.or_none]

/-- A field `qso_update` may write: a text under an ADIF name, or the instant. -/
def FormField (k : String) (v : Value) : Prop :=
  (isAdifName k = true ∧ ∃ s, v = .str s) ∨
    k = "qso_date_utc" ∧ ∃ date time dt, parseAdifDatetime date time = .ok dt ∧ v = .datetime dt

theorem formField_of_putNonBlank {d : Doc} {k : String} {f : String → String}
    {value : Option String} (hk : isAdifName k = true)
    (h : ∀ (j : String) (v : Value), d[j]? = some v → FormField j v) {j : String} {v : Value}
    (hv : (putNonBlank d k f value)[j]? = some v) : FormField j v := by
  rw [getElem?_putNonBlank] at hv
  split at hv
  · rename_i hj
    cases hs : nonBlank value with
    | none =>
      rw [hs] at hv
      exact h j v hv
    | some s =>
      rw [hs] at hv
      cases hv
      exact .inl ⟨hj ▸ hk, f s, rfl⟩
  · exact h j v hv

/-- **The updates of a browser patch** are texts under ADIF names, and perhaps the instant. -/
theorem formUpdates_eq_ok {user : User} {qso : QSO} {form : Form} {updates : Doc}
    (h : formUpdates user qso form = .ok updates) {k : String} {v : Value}
    (hv : updates[k]? = some v) : FormField k v := by
  obtain ⟨values, hvalues, h⟩ := bind_eq_ok.1 h
  obtain ⟨dated, hdated, h⟩ := bind_eq_ok.1 h
  cases h
  have htexts := retouched_formTexts form (retouched_customQsoValues hvalues)
  generalize formTexts form values = fields at hdated htexts
  have hfields : ∀ (j : String) (v : Value), fields[j]? = some v → FormField j v := by
    intro j v hv
    obtain hnone | ⟨hj, s, hs⟩ := htexts j
    · rw [hnone, Std.ExtTreeMap.getElem?_empty] at hv
      cases hv
    · rw [hs] at hv
      cases hv
      exact .inl ⟨hj, s, rfl⟩
  have hv' : dated[k]? = some v := by
    rw [stripProtected, Doc.getElem?_keep] at hv
    exact (Option.ite_none_right_eq_some.1 hv).2
  rw [formDate] at hdated
  split at hdated
  · cases hdated
    exact hfields k v hv'
  obtain ⟨instant, hinstant, hdated⟩ := bind_eq_ok.1 hdated
  cases hdated
  refine formField_of_putNonBlank (by decide)
    (fun _ _ ↦ formField_of_putNonBlank (by decide) fun j w hw ↦ ?_) hv'
  obtain ⟨rfl, -⟩ | ⟨dt, hdt, rfl⟩ := formInstant_cases hinstant
  · exact hfields j w hw
  · rw [Doc.getElem?_insert] at hw
    split at hw
    · rename_i hj
      cases hw
      exact .inr ⟨hj, _, _, dt, hdt, rfl⟩
    · exact hfields j w hw

end

end Ollog
